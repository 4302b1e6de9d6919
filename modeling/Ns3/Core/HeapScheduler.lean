import Ns3.Core.Scheduler
import Ns3.Lib.Heap

/-!
# `HeapScheduler`

A binary heap of events in a vector that starts at index 1. `Remove` puts the
last event in the place of the one removed and moves it down, never up: when
the last event comes before the parent of that place the heap is out of
order from then on. `Keeps` excludes it; in every run of such calls the heap
answers as the sorted list does.
-/

namespace Ns3

open Machine List

structure HeapScheduler where
  heap : List Event
  deriving DecidableEq

namespace HeapScheduler

/-- The item wasted at the start of the array. -/
def empty : Event := ⟨0, 0, 0, 0⟩

def init : HeapScheduler := ⟨[empty]⟩

def parent (id : Nat) : Nat := id / 2

def leftChild (id : Nat) : Nat := id * 2

def rightChild (id : Nat) : Nat := id * 2 + 1

def root : Nat := 1

section
variable (h : HeapScheduler)

def last : Nat := h.heap.length - 1

def isBottom (id : Nat) : Bool := id ≥ h.heap.length

def exch (a b : Nat) : Option HeapScheduler :=
  match h.heap[a]?, h.heap[b]? with
  | some x, some y => some ⟨(h.heap.set a y).set b x⟩
  | _, _ => none

def isLessStrictly (a b : Nat) : Option Bool :=
  match h.heap[a]?, h.heap[b]? with
  | some x, some y => some (x.lt y)
  | _, _ => none

def smallest (a b : Nat) : Option Nat := (h.isLessStrictly a b).map fun less => if less then a else b

def isEmpty : Bool := h.heap.length = 1

end

def bottomUpFrom : Nat → HeapScheduler → Nat → Option HeapScheduler
  | 0, _, _ => none
  | fuel + 1, h, index =>
    if index = root then some h
    else
      match h.isLessStrictly index (parent index) with
      | none => none
      | some false => some h
      | some true =>
        match h.exch index (parent index) with
        | none => none
        | some h => bottomUpFrom fuel h (parent index)

def bottomUp (h : HeapScheduler) : Option HeapScheduler := bottomUpFrom h.heap.length h h.last

/-- What `TopDown` does when there is no right child. -/
def topDownLast (h : HeapScheduler) (index : Nat) : Option HeapScheduler :=
  if h.isBottom index then some h
  else if h.isBottom (leftChild index) then some h
  else
    match h.isLessStrictly index (leftChild index) with
    | none => none
    | some true => some h
    | some false => h.exch index (leftChild index)

def topDownFrom : Nat → HeapScheduler → Nat → Option HeapScheduler
  | 0, _, _ => none
  | fuel + 1, h, index =>
    if h.isBottom (rightChild index) then h.topDownLast index
    else
      match h.smallest (leftChild index) (rightChild index) with
      | none => none
      | some tmp =>
        match h.isLessStrictly index tmp with
        | none => none
        | some true => some h
        | some false =>
          match h.exch index tmp with
          | none => none
          | some h => topDownFrom fuel h tmp

def topDown (h : HeapScheduler) (start : Nat) : Option HeapScheduler := topDownFrom (h.heap.length + 1) h start

def insert (h : HeapScheduler) (ev : Event) : Option HeapScheduler := bottomUp ⟨h.heap ++ [ev]⟩

def peekNext (h : HeapScheduler) : Option Event := h.heap[root]?

/-- The event at `i` gives its place to the last one. -/
def removeAt (h : HeapScheduler) (i : Nat) : Option HeapScheduler :=
  match h.exch i h.last with
  | none => none
  | some h => topDown ⟨h.heap.dropLast⟩ i

def removeNext (h : HeapScheduler) : Option (HeapScheduler × Event) :=
  match h.heap[root]? with
  | none => none
  | some next => (h.removeAt root).map fun h => (h, next)

/-- The loop of `Remove`; the end of it is a failed assertion. -/
def removeFrom (h : HeapScheduler) (ev : Event) : Nat → Nat → Option HeapScheduler
  | 0, _ => none
  | fuel + 1, i =>
    match h.heap[i]? with
    | none => none
    | some e =>
      if ev.key.uid = e.key.uid then if e.impl = ev.impl then h.removeAt i else none
      else h.removeFrom ev fuel (i + 1)

def remove (h : HeapScheduler) (ev : Event) : Option HeapScheduler := h.removeFrom ev h.heap.length 1

def scheduler : Scheduler HeapScheduler := ⟨insert, peekNext, removeNext, remove⟩

def events (h : HeapScheduler) : List Event := h.heap.tail

/-! ## Exchanges -/

def item (h : HeapScheduler) (i : Nat) : Event := h.heap.getD i empty

def ranks (h : HeapScheduler) (i : Nat) : Nat ×ₗ Nat := (h.item i).rank

section
variable {h h' : HeapScheduler} {a b i : Nat}

theorem getElem?_eq (hi : i < h.heap.length) : h.heap[i]? = some (h.item i) := by
  simp [item, hi]

theorem isLessStrictly_eq (ha : a < h.heap.length) (hb : b < h.heap.length) :
    h.isLessStrictly a b = some ((h.item a).lt (h.item b)) := by
  simp [isLessStrictly, getElem?_eq ha, getElem?_eq hb]

/-- The same events in another order, index 0 not touched. -/
structure Rearranged (h h' : HeapScheduler) : Prop where
  perm : h'.heap.Perm h.heap
  first : h'.item 0 = h.item 0

theorem Rearranged.refl (h : HeapScheduler) : Rearranged h h := ⟨.refl _, rfl⟩

theorem Rearranged.trans {h'' : HeapScheduler} (hr : Rearranged h h') (hr' : Rearranged h' h'') : Rearranged h h'' :=
  ⟨hr'.perm.trans hr.perm, hr'.first.trans hr.first⟩

theorem Rearranged.length (hr : Rearranged h h') : h'.heap.length = h.heap.length := hr.perm.length_eq

theorem exch_spec (ha : a < h.heap.length) (hb : b < h.heap.length) :
    ∃ h', h.exch a b = some h' ∧ h'.heap.Perm h.heap ∧ ∀ i, h'.item i = h.item (Equiv.swap a b i) := by
  refine ⟨⟨(h.heap.set a h.heap[b]).set b h.heap[a]⟩, ?_, set_set_perm ha hb, fun i => ?_⟩
  · simp [exch, ha, hb]
  · by_cases hib : i = b
    · subst hib
      simp [item, Equiv.swap_apply_right, hb, ha]
    · by_cases hia : i = a
      · subst hia
        simp [item, Equiv.swap_apply_left, hb, ha, Ne.symm hib]
      · simp [item, Equiv.swap_apply_of_ne_of_ne hia hib, Ne.symm hia, Ne.symm hib]

theorem exch_ranks (ha : a < h.heap.length) (hb : b < h.heap.length) (ha0 : a ≠ 0) (hb0 : b ≠ 0) :
    ∃ h', h.exch a b = some h' ∧ Rearranged h h' ∧ h'.ranks = h.ranks ∘ Equiv.swap a b := by
  obtain ⟨h', hexch, hperm, hitem⟩ := exch_spec ha hb
  refine ⟨h', hexch, ⟨hperm, ?_⟩, funext fun i => ?_⟩
  · rw [hitem, Equiv.swap_apply_of_ne_of_ne (Ne.symm ha0) (Ne.symm hb0)]
  · simp [ranks, hitem]

/-! ## Moving up and down -/

/-- `BottomUp` restores the order from an index up. -/
theorem bottomUpFrom_spec {n : Nat} : ∀ (fuel index : Nat) (h : HeapScheduler), h.heap.length = n →
    UpOrdered h.ranks n index → 1 ≤ index → index < n → index < fuel →
    ∃ h', bottomUpFrom fuel h index = some h' ∧ Rearranged h h' ∧ HeapOrdered h'.ranks n
  | 0, _, _, _, _, _, _, hfuel => by omega
  | fuel + 1, index, h, hn, hup, hpos, hlt, hfuel => by
    unfold bottomUpFrom
    by_cases hroot : index = root
    · rw [if_pos hroot]
      exact ⟨h, rfl, .refl h, hup.stop fun h2 => by rw [hroot, root] at h2; omega⟩
    · have h2 : 2 ≤ index := by rw [root] at hroot; omega
      have hparent : parent index < n := by rw [parent]; omega
      rw [if_neg hroot, isLessStrictly_eq (hn ▸ hlt) (hn ▸ hparent)]
      cases hless : (h.item index).lt (h.item (parent index)) with
      | false =>
        rw [Event.lt_eq_false_iff] at hless
        exact ⟨h, rfl, .refl h, hup.stop fun _ => hless⟩
      | true =>
        rw [Event.lt_iff] at hless
        obtain ⟨h₁, hexch, hr, hranks⟩ := exch_ranks (hn ▸ hlt) (hn ▸ hparent) (by omega) (by rw [parent]; omega)
        have hup₁ : UpOrdered h₁.ranks n (parent index) := hranks ▸ hup.swap h2 hlt hless
        obtain ⟨h', hrun, hr', hordered⟩ := bottomUpFrom_spec fuel (parent index) h₁ (hr.length.trans hn) hup₁
          (by rw [parent]; omega) hparent (by rw [parent]; omega)
        exact ⟨h', by simp only [hexch, hrun], hr.trans hr', hordered⟩

theorem topDownLast_spec {n index : Nat} (hn : h.heap.length = n) (hdown : DownOrdered h.ranks n index)
    (hpos : 1 ≤ index) (hright : n ≤ rightChild index) :
    ∃ h', h.topDownLast index = some h' ∧ Rearranged h h' ∧ HeapOrdered h'.ranks n := by
  rw [rightChild] at hright
  have hstop : (∀ i, 2 ≤ i → i < n → i / 2 = index → h.ranks index ≤ h.ranks i) →
      ∃ h', some h = some h' ∧ Rearranged h h' ∧ HeapOrdered h'.ranks n :=
    fun hle => ⟨h, rfl, .refl h, hdown.stop hle⟩
  unfold topDownLast
  by_cases hbottom : h.isBottom index = true
  · rw [if_pos hbottom]
    have hge : n ≤ index := by rw [isBottom, hn] at hbottom; simpa using hbottom
    exact hstop fun i _ hi hi' => by omega
  · rw [if_neg hbottom]
    by_cases hleft : h.isBottom (leftChild index) = true
    · rw [if_pos hleft]
      have hge : n ≤ leftChild index := by rw [isBottom, hn] at hleft; simpa using hleft
      exact hstop fun i _ hi hi' => by rw [leftChild] at hge; omega
    · rw [if_neg hleft]
      have hlt : leftChild index < n := by rw [isBottom, hn] at hleft; simpa using hleft
      have hindex : index < n := by rw [leftChild] at hlt; omega
      have honly : ∀ i, i < n → i / 2 = index → i = leftChild index := by
        intro i hi hi'
        rw [leftChild]
        omega
      rw [isLessStrictly_eq (hn ▸ hindex) (hn ▸ hlt)]
      cases hless : (h.item index).lt (h.item (leftChild index)) with
      | true =>
        rw [Event.lt_iff] at hless
        exact hstop fun i _ hi hi' => honly i hi hi' ▸ le_of_lt hless
      | false =>
        rw [Event.lt_eq_false_iff] at hless
        obtain ⟨h₁, hexch, hr, hranks⟩ := exch_ranks (hn ▸ hindex) (hn ▸ hlt) (by omega) (by rw [leftChild]; omega)
        have hdown₁ : DownOrdered h₁.ranks n (leftChild index) :=
          hranks ▸ hdown.swap hpos (by rw [leftChild]; omega) hlt hless fun i hi hi' => by rw [honly i hi hi']
        exact ⟨h₁, hexch, hr, hdown₁.stop fun i hi hi' hleft' => by rw [leftChild] at hleft'; omega⟩

/-- `TopDown` restores the order from an index down. -/
theorem topDownFrom_spec {n : Nat} : ∀ (fuel index : Nat) (h : HeapScheduler), h.heap.length = n →
    DownOrdered h.ranks n index → 1 ≤ index → index ≤ n → n < index + fuel →
    ∃ h', topDownFrom fuel h index = some h' ∧ Rearranged h h' ∧ HeapOrdered h'.ranks n
  | 0, _, _, _, _, _, _, _ => by omega
  | fuel + 1, index, h, hn, hdown, hpos, _, hfuel => by
    unfold topDownFrom
    by_cases hbottom : h.isBottom (rightChild index) = true
    · rw [if_pos hbottom]
      exact topDownLast_spec hn hdown hpos (by rw [isBottom, hn] at hbottom; simpa using hbottom)
    · rw [if_neg hbottom]
      have hright : rightChild index < n := by rw [isBottom, hn] at hbottom; simpa using hbottom
      have hleft : leftChild index < n := by rw [rightChild] at hright; rw [leftChild]; omega
      have hindex : index < n := by rw [leftChild] at hleft; omega
      -- the smallest child comes before both
      obtain ⟨tmp, htmp, hchild, hlt, hmin⟩ : ∃ tmp, h.smallest (leftChild index) (rightChild index) = some tmp ∧
          tmp / 2 = index ∧ tmp < n ∧ ∀ i, i < n → i / 2 = index → h.ranks tmp ≤ h.ranks i := by
        have honly : ∀ i, i / 2 = index → i = leftChild index ∨ i = rightChild index := by
          intro i hi'
          rw [leftChild, rightChild]
          omega
        rw [smallest, isLessStrictly_eq (hn ▸ hleft) (hn ▸ hright)]
        cases hless : (h.item (leftChild index)).lt (h.item (rightChild index)) with
        | true =>
          rw [Event.lt_iff] at hless
          refine ⟨leftChild index, rfl, by rw [leftChild]; omega, hleft, fun i _ hi' => ?_⟩
          rcases honly i hi' with rfl | rfl
          · exact le_refl _
          · exact le_of_lt hless
        | false =>
          rw [Event.lt_eq_false_iff] at hless
          refine ⟨rightChild index, rfl, by rw [rightChild]; omega, hright, fun i _ hi' => ?_⟩
          rcases honly i hi' with rfl | rfl
          · exact hless
          · exact le_refl _
      rw [htmp]
      simp only [isLessStrictly_eq (hn ▸ hindex) (hn ▸ hlt)]
      cases hless : (h.item index).lt (h.item tmp) with
      | true =>
        rw [Event.lt_iff] at hless
        exact ⟨h, rfl, .refl h, hdown.stop fun i _ hi hi' => le_trans (le_of_lt hless) (hmin i hi hi')⟩
      | false =>
        rw [Event.lt_eq_false_iff] at hless
        obtain ⟨h₁, hexch, hr, hranks⟩ := exch_ranks (hn ▸ hindex) (hn ▸ hlt) (by omega) (by omega)
        obtain ⟨h', hrun, hr', hordered⟩ := topDownFrom_spec fuel tmp h₁ (hr.length.trans hn)
          (hranks ▸ hdown.swap hpos hchild hlt hless hmin) (by omega) (by omega) (by omega)
        exact ⟨h', by simp only [hexch, hrun], hr.trans hr', hordered⟩

end

/-! ## Calls -/

/-- The heap is in order, and its events have uids of their own. -/
structure Inv (h : HeapScheduler) : Prop where
  heap : h.heap = empty :: h.events
  ordered : HeapOrdered h.ranks h.heap.length
  distinct : (h.events.map fun e => e.key.uid).Nodup

theorem inv_init : Inv init := ⟨rfl, fun i hi hi' => by simp [init] at hi'; omega, .nil⟩

section
variable {h h' : HeapScheduler} {ev : Event} {i : Nat}

theorem Rearranged.events (hr : Rearranged h h') (es : List Event) (hheap : h.heap = empty :: es) :
    h'.heap = empty :: h'.events ∧ h'.events.Perm es := by
  have hlength := hr.length
  rw [hheap] at hlength
  have hheap' : h'.heap = empty :: h'.events := by
    unfold HeapScheduler.events
    cases hh : h'.heap with
    | nil => rw [hh] at hlength; cases hlength
    | cons a l =>
      have hfirst := hr.first
      simp only [item, hh, hheap, getD_cons_zero] at hfirst
      rw [hfirst, tail_cons]
  refine ⟨hheap', Perm.cons_inv (a := empty) ?_⟩
  rw [← hheap', ← hheap]
  exact hr.perm

theorem Inv.length (hinv : Inv h) : h.heap.length = h.events.length + 1 := by
  rw [hinv.heap]
  simp

theorem Inv.item_succ (hinv : Inv h) (hi : i < h.events.length) : h.item (i + 1) = h.events[i] := by
  unfold item
  rw [hinv.heap]
  simp [hi]

theorem Inv.item_mem (hinv : Inv h) (hpos : 1 ≤ i) (hi : i < h.heap.length) : h.item i ∈ h.events := by
  obtain ⟨j, rfl⟩ := Nat.exists_eq_add_of_le' hpos
  have hj : j < h.events.length := by have := hinv.length; omega
  rw [hinv.item_succ hj]
  exact getElem_mem hj

theorem Inv.uid_inj (hinv : Inv h) {j : Nat} (hi : i < h.events.length) (hj : j < h.events.length)
    (huid : (h.item (i + 1)).key.uid = (h.item (j + 1)).key.uid) : i = j := by
  rw [hinv.item_succ hi, hinv.item_succ hj] at huid
  have hi' : i < (h.events.map fun e => e.key.uid).length := by simpa using hi
  have hj' : j < (h.events.map fun e => e.key.uid).length := by simpa using hj
  have heq : (h.events.map fun e => e.key.uid)[i] = (h.events.map fun e => e.key.uid)[j] := by simpa using huid
  exact hinv.distinct.getElem_inj_iff.mp heq

theorem Inv.least (hinv : Inv h) : ∀ b ∈ h.events, (h.item 1).rank ≤ b.rank := by
  intro b hb
  obtain ⟨j, hj, rfl⟩ := getElem_of_mem hb
  rw [← hinv.item_succ hj]
  exact hinv.ordered.root_le (j + 1) (by omega) (by have := hinv.length; omega)

theorem Inv.insert (hinv : Inv h) (hev : ev.key.uid ∉ h.events.map fun e => e.key.uid) :
    ∃ h', h.insert ev = some h' ∧ Inv h' ∧ h'.events.Perm (ev :: h.events) := by
  have hlength : (h.heap ++ [ev]).length = h.heap.length + 1 := by simp
  have hup : UpOrdered (ranks ⟨h.heap ++ [ev]⟩) (h.heap.length + 1) h.heap.length :=
    hinv.ordered.snoc fun i hi => by simp [ranks, item, getElem?_append_left hi]
  have hpos : 1 ≤ h.heap.length := by have := hinv.length; omega
  obtain ⟨h', hrun, hr, hordered⟩ := bottomUpFrom_spec (h.heap.length + 1) h.heap.length ⟨h.heap ++ [ev]⟩ hlength hup
    hpos (by omega) (by omega)
  obtain ⟨hheap, hperm⟩ := hr.events (h.events ++ [ev]) (by simp only [hinv.heap]; rfl)
  have hperm' : h'.events.Perm (ev :: h.events) := hperm.trans (perm_append_singleton ev h.events)
  refine ⟨h', ?_, ⟨hheap, hr.length ▸ hlength ▸ hordered, ?_⟩, hperm'⟩
  · simpa [HeapScheduler.insert, bottomUp, last] using hrun
  · exact (hperm'.map _).nodup_iff.mpr (nodup_cons.mpr ⟨hev, hinv.distinct⟩)

/-- The last event may take the place of the one at `i` when it does not come
before the parent of that place. -/
def Fits (h : HeapScheduler) (i : Nat) : Prop :=
  i = root ∨ i = h.last ∨ h.isLessStrictly h.last (parent i) ≠ some true

theorem Inv.removeAt (hinv : Inv h) (hpos : 1 ≤ i) (hi : i < h.heap.length) (hfits : h.Fits i) :
    ∃ h', h.removeAt i = some h' ∧ Inv h' ∧ h.events.Perm (h.item i :: h'.events) := by
  obtain ⟨n, hn⟩ : ∃ n, h.heap.length = n + 1 := ⟨_, hinv.length⟩
  have hlast : h.last = n := by rw [last, hn]; rfl
  obtain ⟨h₁, hexch, hperm₁, hitem₁⟩ := exch_spec hi (show n < h.heap.length by omega)
  have hlength₁ : h₁.heap.length = n + 1 := hperm₁.length_eq.trans hn
  have hlength₂ : h₁.heap.dropLast.length = n := by simp [hlength₁]
  have hitem₂ : ∀ j, j < n → item ⟨h₁.heap.dropLast⟩ j = h.item (Equiv.swap i n j) := by
    intro j hj
    rw [← hitem₁ j]
    have hj' : j < h₁.heap.length := by omega
    simp [item, hj', show j < h₁.heap.length - 1 by lia]
  have hother : ∀ j, j < n → j ≠ i → ranks ⟨h₁.heap.dropLast⟩ j = h.ranks j := by
    intro j hj hne
    rw [ranks, hitem₂ j hj, Equiv.swap_apply_of_ne_of_ne hne (by omega)]
    rfl
  have hordered := hinv.ordered
  rw [hn] at hordered
  have hdown : DownOrdered (ranks ⟨h₁.heap.dropLast⟩) n i := by
    by_cases hin : i = n
    · subst hin
      refine ⟨fun j hj hj' hne => ?_, fun j hj hj' _ => by omega⟩
      rw [hother j hj' (by omega), hother (j / 2) (by omega) hne]
      exact hordered j hj (by omega)
    · refine hordered.replace hpos (by omega) ?_ hother fun h2 => ?_
      · rw [ranks, hitem₂ i (by omega), Equiv.swap_apply_left]
        rfl
      · rcases hfits with hroot | hlast' | hnot
        · rw [root] at hroot; lia
        · lia
        · rw [hlast, isLessStrictly_eq (by lia) (by rw [parent]; lia)] at hnot
          have hfalse : (h.item n).lt (h.item (parent i)) = false := by simpa using hnot
          exact (Event.lt_eq_false_iff _ _).mp hfalse
  obtain ⟨h', hrun, hr, hordered'⟩ := topDownFrom_spec (n + 1) i ⟨h₁.heap.dropLast⟩ hlength₂ hdown hpos (by omega)
    (by omega)
  have hback : h₁.heap = h₁.heap.dropLast ++ [h.item i] := by
    have hne : h₁.heap ≠ [] := ne_nil_of_length_pos (by lia)
    have hend : h₁.heap.getLast hne = h.item i := by
      rw [getLast_eq_getElem]
      have := hitem₁ n
      rw [Equiv.swap_apply_right] at this
      rw [← this]
      simp [item, hlength₁]
    rw [← hend, dropLast_append_getLast]
  -- the wasted item is still the first one
  have hheap₂ : h₁.heap.dropLast = empty :: h₁.heap.dropLast.tail ∧
      h.events.Perm (h.item i :: h₁.heap.dropLast.tail) := by
    have hfirst : h₁.heap.dropLast = empty :: h₁.heap.dropLast.tail := by
      cases hdrop : h₁.heap.dropLast with
      | nil =>
        rw [hdrop] at hlength₂
        simp at hlength₂
        omega
      | cons a l =>
        have h0 := hitem₂ 0 (by rw [hdrop] at hlength₂; simp at hlength₂; omega)
        rw [Equiv.swap_apply_of_ne_of_ne (by omega) (by rw [hdrop] at hlength₂; simp at hlength₂; omega)] at h0
        simp only [item, hdrop, hinv.heap, getD_cons_zero] at h0
        rw [h0, tail_cons]
    refine ⟨hfirst, Perm.cons_inv (a := empty) ?_⟩
    rw [← hinv.heap]
    have hsplit : h₁.heap = empty :: (h₁.heap.dropLast.tail ++ [h.item i]) := by
      rw [← cons_append, ← hfirst]
      exact hback
    refine hperm₁.symm.trans ((Perm.of_eq hsplit).trans ?_)
    exact (perm_append_singleton (h.item i) h₁.heap.dropLast.tail).cons empty
  obtain ⟨hheap', hperm'⟩ := hr.events _ hheap₂.1
  have hevents : h.events.Perm (h.item i :: h'.events) := hheap₂.2.trans (hperm'.symm.cons _)
  refine ⟨h', ?_, ⟨hheap', ?_, ?_⟩, hevents⟩
  · unfold HeapScheduler.removeAt
    rw [hlast, hexch]
    simp only [topDown, hlength₂, hrun]
  · rw [hr.length, hlength₂]
    exact hordered'
  · exact ((hevents.map _).nodup_iff.mp hinv.distinct).of_cons

theorem Inv.removeNext (hinv : Inv h) (hne : h.events ≠ []) :
    ∃ h', h.removeNext = some (h', h.item 1) ∧ Inv h' ∧ h.events.Perm (h.item 1 :: h'.events) := by
  have hlt : 1 < h.heap.length := by
    have := length_pos_iff.mpr hne
    rw [hinv.length]
    omega
  obtain ⟨h', hrun, hinv', hperm⟩ := hinv.removeAt (Nat.le_refl 1) hlt (.inl rfl)
  refine ⟨h', ?_, hinv', hperm⟩
  simp [HeapScheduler.removeNext, root, getElem?_eq hlt, hrun]

theorem removeFrom_eq {j : Nat} (hinv : Inv h) (hj : j < h.events.length) : ∀ (fuel i : Nat), i ≤ j → j < i + fuel →
      h.removeFrom h.events[j] fuel (i + 1) = h.removeAt (j + 1)
  | 0, _, _, _ => by omega
  | fuel + 1, i, hij, hfuel => by
    have hi : i < h.events.length := by omega
    unfold removeFrom
    rw [getElem?_eq (by have := hinv.length; omega)]
    dsimp only
    by_cases heq : i = j
    · subst heq
      rw [hinv.item_succ hi, if_pos rfl, if_pos rfl]
    · rw [if_neg ?_]
      · exact removeFrom_eq hinv hj fuel (i + 1) (by omega) (by omega)
      · intro huid
        rw [← hinv.item_succ hj] at huid
        exact heq (hinv.uid_inj hi hj huid.symm)

theorem Inv.remove {j : Nat} (hinv : Inv h) (hj : j < h.events.length) (hfits : h.Fits (j + 1)) :
    ∃ h', h.remove h.events[j] = some h' ∧ Inv h' ∧ h.events.Perm (h.events[j] :: h'.events) := by
  have hlength := hinv.length
  obtain ⟨h', hrun, hinv', hperm⟩ := hinv.removeAt (show 1 ≤ j + 1 by omega) (by omega) hfits
  rw [hinv.item_succ hj] at hperm
  refine ⟨h', ?_, hinv', hperm⟩
  rw [HeapScheduler.remove, removeFrom_eq hinv hj _ 0 (by omega) (by omega), hrun]

end

/-! ## Every run -/

/-- The calls that the interface allows: an event inserted has a uid of its
own, the list is not empty, and only a stored event is removed. -/
def Allowed (h : HeapScheduler) : SchedulerCall → Prop
  | .insert ev => ev.key.uid ∉ h.events.map fun e => e.key.uid
  | .peekNext | .removeNext => h.events ≠ []
  | .remove ev => ev ∈ h.events

/-- The place of an event removed fits the last one. -/
def Keeps (h : HeapScheduler) : SchedulerCall → Prop
  | .remove ev => ev ∈ h.events ∧ h.Fits (h.events.idxOf ev + 1)
  | call => h.Allowed call

instance (h : HeapScheduler) (i : Nat) : Decidable (h.Fits i) := inferInstanceAs (Decidable (_ ∨ _ ∨ _))

instance (h : HeapScheduler) : (call : SchedulerCall) → Decidable (h.Allowed call)
  | .insert _ => inferInstanceAs (Decidable (_ ∉ _))
  | .peekNext | .removeNext => inferInstanceAs (Decidable (_ ≠ _))
  | .remove _ => inferInstanceAs (Decidable (_ ∈ _))

instance (h : HeapScheduler) : (call : SchedulerCall) → Decidable (h.Keeps call)
  | .remove _ => inferInstanceAs (Decidable (_ ∈ _ ∧ h.Fits _))
  | .insert ev => inferInstanceAs (Decidable (h.Allowed (.insert ev)))
  | .peekNext => inferInstanceAs (Decidable (h.Allowed .peekNext))
  | .removeNext => inferInstanceAs (Decidable (h.Allowed .removeNext))

/-- A call that keeps the heap is served as in a sorted list. -/
theorem Inv.step {h : HeapScheduler} (hinv : Inv h) {call : SchedulerCall} (hkeeps : h.Keeps call) :
    ∃ h' o, scheduler.machine.step h call = some (h', o) ∧ Inv h' ∧ Serves h.events h'.events call o := by
  cases call with
  | insert ev =>
    obtain ⟨h', hrun, hinv', hperm⟩ := hinv.insert hkeeps
    exact ⟨h', [], by simp [Scheduler.machine, scheduler, hrun], hinv', rfl, hperm⟩
  | peekNext =>
    have hlt : 1 < h.heap.length := by
      have hne : h.events ≠ [] := hkeeps
      have := length_pos_iff.mpr hne
      rw [hinv.length]
      omega
    refine ⟨h, [h.item 1], ?_, hinv, h.item 1, rfl, hinv.item_mem (Nat.le_refl 1) hlt, hinv.least, .refl _⟩
    simp [Scheduler.machine, scheduler, peekNext, root, getElem?_eq hlt]
  | removeNext =>
    obtain ⟨h', hrun, hinv', hperm⟩ := hinv.removeNext hkeeps
    exact ⟨h', [h.item 1], by simp [Scheduler.machine, scheduler, hrun], hinv', h.item 1, rfl, hinv.least, hperm⟩
  | remove ev =>
    obtain ⟨hmem, hfits⟩ := hkeeps
    have hj := idxOf_lt_length_of_mem hmem
    obtain ⟨h', hrun, hinv', hperm⟩ := hinv.remove hj hfits
    rw [getElem_idxOf hj] at hrun hperm
    exact ⟨h', [], by simp [Scheduler.machine, scheduler, hrun], hinv', rfl, hperm⟩

/-- Every event comes after its parent. -/
def Ordered (h : HeapScheduler) : Prop :=
  ∀ i, 2 ≤ i → i < h.heap.length → h.isLessStrictly (parent i) i = some true

theorem Inv.strict {h : HeapScheduler} (hinv : Inv h) : Ordered h := by
  intro i hi hi'
  have hlength := hinv.length
  rw [isLessStrictly_eq (by rw [parent]; omega) hi', Option.some.injEq, Event.lt_iff]
  refine lt_of_le_of_ne (hinv.ordered i hi hi') (Event.rank_ne fun huid => ?_)
  have := hinv.uid_inj (show i / 2 - 1 < h.events.length by omega) (show i - 1 < h.events.length by omega)
    (by rw [Nat.sub_add_cancel (by omega), Nat.sub_add_cancel (by omega)]; exact huid)
  omega

/-- A run of the sorted list with the same calls and answers ends with the
events stored, and the heap is in order. -/
def Refines (tr : List (SchedulerCall × List Event)) (h : HeapScheduler) : Prop :=
  (∃ l, Run SortedList.scheduler.machine anyStep [] tr l ∧ SortedList.Sorted l ∧ h.events.Perm l) ∧ Ordered h

/-- **Refinement.** In every run in which each event removed leaves a place that
fits the last one, the heap answers as the sorted list does, and no call fails. -/
theorem refines_sorted {tr : List (SchedulerCall × List Event)} {h : HeapScheduler}
    (hrun : Run scheduler.machine Keeps init tr h) :
    Refines tr h ∧ ∀ call, h.Keeps call → (scheduler.machine.step h call).isSome := by
  obtain ⟨l, hsorted, hinv, hl, hperm⟩ := Run.simulation SortedList.scheduler.machine []
    (fun h l => Inv h ∧ SortedList.Sorted l ∧ h.events.Perm l) ⟨inv_init, SortedList.sorted_nil, .refl _⟩ (by
      rintro h l call h' o ⟨hinv, hl, hperm⟩ hkeeps hstep
      obtain ⟨h₁, o₁, hstep₁, hinv', hserves⟩ := hinv.step hkeeps
      cases hstep₁.symm.trans hstep
      have hfresh : Fresh h.events call := by
        cases call with
        | insert ev => exact hkeeps
        | peekNext | removeNext | remove ev => trivial
      obtain ⟨l', hl', hsorted', hperm'⟩ := hserves.sortedList hl hperm hfresh
      exact ⟨l', hl', hinv', hsorted', hperm'⟩) hrun
  refine ⟨⟨⟨l, hsorted, hl, hperm⟩, hinv.strict⟩, fun call hkeeps => ?_⟩
  obtain ⟨h', o, hstep, -, -⟩ := hinv.step hkeeps
  rw [hstep]
  rfl

def eventAt (ts : Nat) : Event := ⟨1, ts, ts, 0⟩

def insertAll (times : List Nat) : List SchedulerCall := times.map fun ts => .insert (eventAt ts)

/-- An event in the middle is removed, and the last one fits its place. -/
def removeMiddle : List SchedulerCall :=
  insertAll [1, 10, 2, 11, 12, 30] ++ [.peekNext, .remove (eventAt 11), .removeNext, .removeNext, .removeNext]

theorem removeMiddle_isSome : (scheduler.machine.exec Keeps init removeMiddle).isSome := by
  decide +kernel

theorem remove_middle_refines : ∃ tr h, Run scheduler.machine Keeps init tr h ∧
    outputs tr = [eventAt 1, eventAt 1, eventAt 2, eventAt 10] ∧ Refines tr h := by
  have hrun := run_of_isSome scheduler.machine Keeps _ _ removeMiddle_isSome
  exact ⟨_, _, hrun, by decide +kernel, (refines_sorted hrun).1⟩

/-- The last event comes before the parent of the event removed. -/
def removeOther : List SchedulerCall :=
  insertAll [1, 10, 2, 11, 12, 3] ++ [.remove (eventAt 11)] ++ insertAll [20, 21] ++
    [.removeNext, .removeNext, .removeNext]

theorem removeOther_differs : ((scheduler.machine.exec Allowed init removeOther).any fun r =>
    (SortedList.scheduler.machine.replay [] r.1).isNone) = true := by
  decide +kernel

/-- **`Remove` leaves the heap out of order**: the event at 3 is put below the one
at 10, which `RemoveNext` then returns first. -/
theorem remove_other_differs : ∃ tr h, Run scheduler.machine Allowed init tr h ∧ ¬ Refines tr h := by
  obtain ⟨tr, h, hrun, hdiffers⟩ := run_of_any scheduler.machine Allowed removeOther_differs
  rw [Option.isNone_iff_eq_none] at hdiffers
  refine ⟨tr, h, hrun, fun ⟨⟨l, hl, _⟩, _⟩ => ?_⟩
  rw [hl.replay] at hdiffers
  cases hdiffers

end HeapScheduler

end Ns3
