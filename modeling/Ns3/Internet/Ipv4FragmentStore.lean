import Mathlib.Data.List.Forall2
import Mathlib.Data.List.Nodup
import Ns3.Internet.Ipv4PartialPacket

/-!
# The store of incomplete datagrams and its timer

Each incomplete datagram has an entry in `m_fragments` and one in the list of
the times they expire at, and points at the latter by an iterator. There is no
timer for each: `HandleTimeout` is scheduled when the list stops being empty,
and schedules itself for the entry in front as long as there is one. A datagram
that is completed takes its entry away and leaves the event pending, so events
for times that no entry has any more come to run too.

`IncompleteDatagrams` says what the store is for: each datagram waits from its
first fragment until its fragments are entire or its time is over. The store
simulates it.
-/

namespace Ns3

open Machine Fragments List Option

/-- A tuple of `m_timeoutEventList`, and the iterator that points at it. -/
structure TimeoutEntry where
  time : Nat
  key : FragmentKey
  header : Ipv4Header
  iif : Nat
  iter : Nat
  deriving DecidableEq

/-- The fragments of a datagram with their `m_timeoutIter`. -/
structure TimedFragments where
  fragments : Fragments
  timeoutIter : Nat

/-- Pending events of `HandleTimeout` are the times they are scheduled for. -/
structure Ipv4FragmentStore where
  expirationTimeout : Nat
  now : Nat := 0
  fragments : OrdMap FragmentKey TimedFragments := .empty
  timeoutEventList : List TimeoutEntry := []
  scheduled : List Nat := []
  nextIter : Nat := 0

/-- What happens to a datagram, with the time. A dropped packet is `none` where
`GetPartialPacket` asks for bytes out of range. -/
inductive StoreOutput where
  | completed (key : FragmentKey) (time : Nat) (packet : Bytes)
  | timeExceeded (header : Ipv4Header) (packet : Bytes)
  | dropped (key : FragmentKey) (time : Nat) (header : Ipv4Header) (packet : Option Bytes) (iif : Nat)

inductive StoreEvent where
  | fragment (f : Ipv4Packet) (iif : Nat)
  | handleTimeout
  | advance (t : Nat)

namespace Ipv4FragmentStore

open Ipv4L3Protocol

def setTimeout (s : Ipv4FragmentStore) (key : FragmentKey) (h : Ipv4Header) (iif : Nat) : Ipv4FragmentStore :=
  let time := s.now + s.expirationTimeout
  { s with
    scheduled := if s.timeoutEventList = [] then s.scheduled ++ [time] else s.scheduled
    timeoutEventList := s.timeoutEventList ++ [⟨time, key, h, iif, s.nextIter⟩]
    nextIter := s.nextIter + 1 }

/-- The first half of `ProcessFragment`: the fragments of the datagram, new ones where there are none. -/
def findFragments (s : Ipv4FragmentStore) (h : Ipv4Header) (iif : Nat) : Ipv4FragmentStore × TimedFragments :=
  let key := fragmentKey h
  match s.fragments.find key with
  | some fr => (s, fr)
  | none =>
    let fr : TimedFragments := ⟨{}, s.nextIter⟩
    ({ s.setTimeout key h iif with fragments := s.fragments.insert key fr }, fr)

/-- `m_timeoutEventList.erase`: an iterator must point at an entry. -/
def eraseTimeout (l : List TimeoutEntry) (iter : Nat) : Option (List TimeoutEntry) :=
  if l.any (·.iter = iter) then some (l.filter (·.iter ≠ iter)) else none

def processFragment (s : Ipv4FragmentStore) (f : Ipv4Packet) (iif : Nat) :
    Option (Ipv4FragmentStore × List StoreOutput) :=
  let key := fragmentKey f.2
  let (s, old) := s.findFragments f.2 iif
  let fr := old.fragments.addFragment f.1 f.2.fragmentOffset (!f.2.isLastFragment)
  if fr.isEntire then do
    let packet ← fr.getPacket
    let l ← eraseTimeout s.timeoutEventList old.timeoutIter
    some ({ s with timeoutEventList := l, fragments := s.fragments.erase key }, [.completed key s.now packet])
  else some ({ s with fragments := s.fragments.insert key { old with fragments := fr } }, [])

/-- With more than 8 bytes an ICMP message is sent. -/
def givenUp (now : Nat) (key : FragmentKey) (h : Ipv4Header) (iif : Nat) (fr : Fragments) : List StoreOutput :=
  let packet := fr.getPartialPacket
  let icmp := match packet with
    | some p => if 8 < p.length then [StoreOutput.timeExceeded h p] else []
    | none => []
  icmp ++ [.dropped key now h packet iif]

def handleFragmentsTimeout (now : Nat) (m : OrdMap FragmentKey TimedFragments) (e : TimeoutEntry) :
    Option (OrdMap FragmentKey TimedFragments × List StoreOutput) :=
  (m.find e.key).map fun fr => (m.erase e.key, givenUp now e.key e.header e.iif fr.fragments)

def expire (now : Nat) : List TimeoutEntry → OrdMap FragmentKey TimedFragments →
    Option (List TimeoutEntry × OrdMap FragmentKey TimedFragments × List StoreOutput)
  | [], m => some ([], m, [])
  | e :: l, m =>
    if e.time = now then do
      let (m, o) ← handleFragmentsTimeout now m e
      let (l, m, o') ← expire now l m
      some (l, m, o ++ o')
    else some (e :: l, m, [])

/-- An event must not be scheduled with a negative delay. -/
def handleTimeout (s : Ipv4FragmentStore) : Option (Ipv4FragmentStore × List StoreOutput) := do
  let (l, m, o) ← expire s.now s.timeoutEventList s.fragments
  let s := { s with timeoutEventList := l, fragments := m }
  match l with
  | [] => some (s, o)
  | e :: _ =>
    let difference : Int := e.time - s.now
    if difference < 0 then none else some ({ s with scheduled := s.scheduled ++ [s.now + difference.toNat] }, o)

def machine : Machine Ipv4FragmentStore StoreEvent StoreOutput where
  step s
    | .fragment f iif => s.processFragment f iif
    | .handleTimeout => { s with scheduled := s.scheduled.erase s.now }.handleTimeout
    | .advance t => some ({ s with now := t }, [])

/-- Fragments arrive at any time. The simulator runs the events that are
scheduled, each at its time, and the time passes none of them. -/
def Due (s : Ipv4FragmentStore) : StoreEvent → Prop
  | .fragment _ _ => True
  | .handleTimeout => s.now ∈ s.scheduled
  | .advance t => s.now ≤ t ∧ ∀ p ∈ s.scheduled, t ≤ p

instance (s : Ipv4FragmentStore) : ∀ e, Decidable (Due s e)
  | .fragment _ _ => inferInstanceAs (Decidable True)
  | .handleTimeout => inferInstanceAs (Decidable (_ ∈ _))
  | .advance _ => inferInstanceAs (Decidable (_ ∧ _))

end Ipv4FragmentStore

/-! ## What the store is for -/

/-- A datagram, with the time of its first fragment and the fragments that arrived. -/
structure IncompleteDatagram where
  key : FragmentKey
  since : Nat
  header : Ipv4Header
  iif : Nat
  arrived : List Ipv4Packet

/-- The datagrams that wait, in the order of their first fragments. -/
structure IncompleteDatagrams where
  now : Nat := 0
  waiting : List IncompleteDatagram := []

namespace IncompleteDatagram

def isEntire (x : IncompleteDatagram) : Bool := (collect x.arrived).isEntire

def completed (x : IncompleteDatagram) (now : Nat) : List StoreOutput :=
  ((collect x.arrived).getPacket.map fun packet => .completed x.key now packet).toList

end IncompleteDatagram

namespace IncompleteDatagrams

open Ipv4L3Protocol Fragments

def arrive (w : IncompleteDatagrams) (f : Ipv4Packet) (iif : Nat) : IncompleteDatagrams × List StoreOutput :=
  let add (x : IncompleteDatagram) : IncompleteDatagram := { x with arrived := x.arrived ++ [f] }
  match w.waiting.find? (·.key = fragmentKey f.2) with
  | some x =>
    if (add x).isEntire then ({ w with waiting := w.waiting.filter (·.key ≠ x.key) }, (add x).completed w.now)
    else ({ w with waiting := w.waiting.map fun y => if y.key = x.key then add y else y }, [])
  | none =>
    let x : IncompleteDatagram := ⟨fragmentKey f.2, w.now, f.2, iif, [f]⟩
    if x.isEntire then (w, x.completed w.now) else ({ w with waiting := w.waiting ++ [x] }, [])

/-- Every datagram whose time is over is given up. -/
def giveUp (T : Nat) (w : IncompleteDatagrams) : IncompleteDatagrams × List StoreOutput :=
  ({ w with waiting := w.waiting.filter (·.since + T ≠ w.now) },
    (w.waiting.filter (·.since + T = w.now)).flatMap fun x =>
      Ipv4FragmentStore.givenUp w.now x.key x.header x.iif (collect x.arrived))

def machine (T : Nat) : Machine IncompleteDatagrams StoreEvent StoreOutput where
  step w
    | .fragment f iif => some (w.arrive f iif)
    | .handleTimeout => some (w.giveUp T)
    | .advance t => some ({ w with now := t }, [])

end IncompleteDatagrams

namespace Ipv4FragmentStore

open Ipv4L3Protocol Fragments IncompleteDatagrams

/-- An entry of the list and the one of the map belong to a datagram that waits. -/
structure Entered (T : Nat) (m : OrdMap FragmentKey TimedFragments) (e : TimeoutEntry) (x : IncompleteDatagram) : Prop where
  key : e.key = x.key
  time : e.time = x.since + T
  header : e.header = x.header
  iif : e.iif = x.iif
  held : m.find e.key = some ⟨collect x.arrived, e.iter⟩
  incomplete : x.isEntire = false

/-- The entries of the list, those of the map and the datagrams that wait are the same. -/
structure Matched (T : Nat) (l : List TimeoutEntry) (m : OrdMap FragmentKey TimedFragments) (w : List IncompleteDatagram) :
    Prop where
  entered : List.Forall₂ (Entered T m) l w
  keys : (l.map (·.key)).Nodup
  iters : (l.map (·.iter)).Nodup
  mapped : ∀ k fr, m.find k = some fr → ∃ e ∈ l, e.key = k

structure Timed (T now : Nat) (l : List TimeoutEntry) (scheduled : List Nat) : Prop where
  sorted : l.Pairwise fun a b => a.time ≤ b.time
  within : ∀ e ∈ l, now ≤ e.time ∧ e.time ≤ now + T
  awaited : ∀ e ∈ l, ∃ p ∈ scheduled, p ≤ e.time
  future : ∀ p ∈ scheduled, now ≤ p

/-! ## The list and the map -/

theorem forall₂_filter {α β : Type} {R R' : α → β → Prop} {p : α → Bool} {q : β → Bool} {l : List α} {w : List β}
    (h : List.Forall₂ R l w) (hpq : ∀ a b, R a b → p a = q b) (hkept : ∀ a b, R a b → p a = true → R' a b) :
    List.Forall₂ R' (l.filter p) (w.filter q) := by
  induction h with
  | nil => exact .nil
  | @cons a b l w hab _ ih =>
    have hq := hpq a b hab
    by_cases hp : p a = true
    · rw [filter_cons_of_pos hp, filter_cons_of_pos (hq ▸ hp)]
      exact .cons (hkept a b hab hp) ih
    · rw [filter_cons_of_neg hp, filter_cons_of_neg (hq ▸ hp)]
      exact ih

theorem forall₂_mem {α β : Type} {R : α → β → Prop} {l : List α} {w : List β} (h : List.Forall₂ R l w) :
    (∀ a ∈ l, ∃ b ∈ w, R a b) ∧ ∀ b ∈ w, ∃ a ∈ l, R a b := by
  induction h with
  | nil => simp
  | cons hab _ ih =>
    refine ⟨fun a ha => ?_, fun b hb => ?_⟩
    · rcases mem_cons.mp ha with rfl | ha
      · exact ⟨_, mem_cons_self, hab⟩
      · obtain ⟨b, hb, hR⟩ := ih.1 a ha
        exact ⟨b, mem_cons_of_mem _ hb, hR⟩
    · rcases mem_cons.mp hb with rfl | hb
      · exact ⟨_, mem_cons_self, hab⟩
      · obtain ⟨a, ha, hR⟩ := ih.2 b hb
        exact ⟨a, mem_cons_of_mem _ ha, hR⟩

section
variable {T now : Nat} {l : List TimeoutEntry} {m : OrdMap FragmentKey TimedFragments} {w : List IncompleteDatagram}

variable {e : TimeoutEntry}

theorem Entered.of_find {m' : OrdMap FragmentKey TimedFragments} {x : IncompleteDatagram}
    (h : Entered T m e x) (hfind : m'.find e.key = m.find e.key) : Entered T m' e x :=
  ⟨h.key, h.time, h.header, h.iif, hfind.trans h.held, h.incomplete⟩

theorem Matched.of_find {m' : OrdMap FragmentKey TimedFragments} (h : Matched T l m w) (hfind : ∀ k, m'.find k = m.find k) :
    Matched T l m' w :=
  ⟨h.entered.imp fun _ _ hx => hx.of_find (hfind _), h.keys, h.iters,
    fun k fr hfr => h.mapped k fr ((hfind k).symm.trans hfr)⟩

theorem Matched.find_none (h : Matched T l m w) {k : FragmentKey} (hnone : ∀ x ∈ w, x.key ≠ k) : m.find k = none := by
  rw [eq_none_iff_forall_ne_some]
  intro fr hfr
  obtain ⟨e, he, rfl⟩ := h.mapped k fr hfr
  obtain ⟨x, hx, hentered⟩ := (forall₂_mem h.entered).1 e he
  exact hnone x hx hentered.key.symm

theorem Matched.open (h : Matched T l m w) {x : IncompleteDatagram} (hnone : m.find e.key = none)
    (hiter : ∀ y ∈ l, y.iter ≠ e.iter) (fr : TimedFragments) (hentered : Entered T (m.insert e.key fr) e x) :
    Matched T (l ++ [e]) (m.insert e.key fr) (w ++ [x]) := by
  have hkey : ∀ y ∈ l, y.key ≠ e.key := by
    intro y hy heq
    obtain ⟨z, -, hz⟩ := (forall₂_mem h.entered).1 y hy
    rw [← heq, hz.held] at hnone
    cases hnone
  refine ⟨?_, ?_, ?_, fun k fr' hfind => ?_⟩
  · refine rel_append (h.entered.imp fun y z hz => hz.of_find ?_) (.cons hentered .nil)
    refine OrdMap.find_insert_ne m (fun heq => ?_) fr
    rw [← heq, hz.held] at hnone
    cases hnone
  · rw [map_append, map_singleton]
    refine Nodup.append h.keys (nodup_singleton _) (disjoint_singleton.mpr fun hmem => ?_)
    obtain ⟨y, hy, heq⟩ := List.mem_map.mp hmem
    exact hkey y hy heq
  · rw [map_append, map_singleton]
    refine Nodup.append h.iters (nodup_singleton _) (disjoint_singleton.mpr fun hmem => ?_)
    obtain ⟨y, hy, heq⟩ := List.mem_map.mp hmem
    exact hiter y hy heq
  · by_cases hk : k = e.key
    · exact ⟨e, by simp, hk.symm⟩
    · rw [OrdMap.find_insert_ne m hk] at hfind
      obtain ⟨y, hy, hyk⟩ := h.mapped k fr' hfind
      exact ⟨y, mem_append_left _ hy, hyk⟩

/-- A fragment that does not complete its datagram is added to it. -/
theorem Matched.add (h : Matched T l m w) {k : FragmentKey} {old : TimedFragments} {fr : Fragments} (hfind : m.find k = some old)
    {g : IncompleteDatagram → IncompleteDatagram} (hother : ∀ x, x.key ≠ k → g x = x)
    (hadded : ∀ e x, e.key = k → Entered T m e x → old = ⟨collect x.arrived, e.iter⟩ →
      Entered T (m.insert k { old with fragments := fr }) e (g x)) :
    Matched T l (m.insert k { old with fragments := fr }) (w.map g) := by
  refine ⟨forall₂_map_right_iff.mpr (h.entered.imp fun e x hx => ?_), h.keys, h.iters, fun k' fr' hfind' => ?_⟩
  · by_cases hk : e.key = k
    · exact hadded e x hk hx (Option.some.inj (hfind.symm.trans (hk ▸ hx.held)))
    · rw [hother x (hx.key ▸ hk)]
      exact hx.of_find (OrdMap.find_insert_ne m hk _)
  · by_cases hk : k' = k
    · exact h.mapped k' old (hk ▸ hfind)
    · rw [OrdMap.find_insert_ne m hk] at hfind'
      exact h.mapped k' fr' hfind'

/-- A datagram is completed or given up. -/
theorem Matched.close (h : Matched T l m w) (he : e ∈ l) :
    Matched T (l.filter (·.iter ≠ e.iter)) (m.erase e.key) (w.filter (·.key ≠ e.key)) := by
  have hfilter : l.filter (·.iter ≠ e.iter) = l.filter (·.key ≠ e.key) := by
    refine filter_congr fun y hy => decide_eq_decide.mpr (not_congr ⟨fun heq => ?_, fun heq => ?_⟩)
    · rw [inj_on_of_nodup_map h.iters hy he heq]
    · rw [inj_on_of_nodup_map h.keys hy he heq]
  refine ⟨?_, h.keys.sublist (filter_sublist.map _), h.iters.sublist (filter_sublist.map _), fun k fr hfind => ?_⟩
  · rw [hfilter]
    refine forall₂_filter h.entered (fun y x hx => by simp only [hx.key]) fun y x hx hne => hx.of_find ?_
    rw [OrdMap.find_erase, if_neg (of_decide_eq_true hne)]
  · rw [OrdMap.find_erase] at hfind
    by_cases hk : k = e.key
    · rw [if_pos hk] at hfind
      cases hfind
    · rw [if_neg hk] at hfind
      obtain ⟨y, hy, rfl⟩ := h.mapped k fr hfind
      rw [hfilter]
      exact ⟨y, mem_filter.mpr ⟨hy, decide_eq_true hk⟩, rfl⟩

/-! ## The times -/

variable {scheduled : List Nat}

theorem Timed.open (h : Timed T now l scheduled) (htime : e.time = now + T) :
    Timed T now (l ++ [e]) (if l = [] then scheduled ++ [now + T] else scheduled) where
  sorted := by
    refine pairwise_append.mpr ⟨h.sorted, pairwise_singleton _ _, fun x hx y hy => ?_⟩
    rw [mem_singleton.mp hy, htime]
    exact (h.within x hx).2
  within := by
    intro x hx
    rcases mem_append.mp hx with hx | hx
    · exact h.within x hx
    · rw [mem_singleton.mp hx, htime]
      omega
  awaited := by
    intro x hx
    cases l with
    | nil =>
      rw [nil_append, mem_singleton] at hx
      exact ⟨now + T, by simp, by rw [hx, htime]⟩
    | cons y l =>
      rcases mem_append.mp hx with hx | hx
      · exact h.awaited x hx
      · -- the event for the first entry is early enough for the last
        obtain ⟨p, hp, hle⟩ := h.awaited y mem_cons_self
        have := (h.within y mem_cons_self).2
        rw [mem_singleton.mp hx, htime]
        exact ⟨p, hp, by omega⟩
  future := by
    intro p hp
    by_cases hl : l = []
    · rw [if_pos hl] at hp
      rcases mem_append.mp hp with hp | hp
      · exact h.future p hp
      · rw [mem_singleton.mp hp]
        exact Nat.le_add_right _ _
    · rw [if_neg hl] at hp
      exact h.future p hp

theorem Timed.sublist (h : Timed T now l scheduled) {l' : List TimeoutEntry} (hsub : l'.Sublist l) : Timed T now l' scheduled where
  sorted := h.sorted.sublist hsub
  within := fun e he => h.within e (hsub.subset he)
  awaited := fun e he => h.awaited e (hsub.subset he)
  future := h.future

theorem Timed.advance (h : Timed T now l scheduled) {t : Nat} (hle : now ≤ t) (hdue : ∀ p ∈ scheduled, t ≤ p) :
    Timed T t l scheduled where
  sorted := h.sorted
  within := by
    intro e he
    obtain ⟨p, hp, hpe⟩ := h.awaited e he
    have := hdue p hp
    have := (h.within e he).2
    omega
  awaited := h.awaited
  future := hdue

theorem Timed.reschedule (h : Timed T now l scheduled) {rest : List TimeoutEntry}
    (hsub : (e :: rest).Sublist l) : Timed T now (e :: rest) (scheduled.erase now ++ [e.time]) where
  sorted := h.sorted.sublist hsub
  within := fun x hx => h.within x (hsub.subset hx)
  awaited := by
    intro x hx
    refine ⟨e.time, by simp, ?_⟩
    rcases mem_cons.mp hx with rfl | hx
    · exact Nat.le_refl _
    · exact (pairwise_cons.mp (h.sorted.sublist hsub)).1 x hx
  future := by
    intro p hp
    rcases mem_append.mp hp with hp | hp
    · exact h.future p (mem_of_mem_erase hp)
    · rw [mem_singleton.mp hp]
      exact (h.within e (hsub.subset mem_cons_self)).1

end

/-! ## The operations -/

theorem eraseTimeout_of_mem {l : List TimeoutEntry} {e : TimeoutEntry} (he : e ∈ l) :
    eraseTimeout l e.iter = some (l.filter (·.iter ≠ e.iter)) := by
  refine if_pos (List.any_eq_true.mpr ⟨e, he, ?_⟩)
  exact decide_eq_true rfl

variable {T : Nat}

/-- Just the datagrams whose time has come are given up. -/
theorem expire_spec (now : Nat) : ∀ {l : List TimeoutEntry} {m : OrdMap FragmentKey TimedFragments}
    {w : List IncompleteDatagram}, Matched T l m w → (l.Pairwise fun a b => a.time ≤ b.time) → (∀ e ∈ l, now ≤ e.time) →
    ∃ m', expire now l m = some (l.filter (·.time ≠ now), m', (w.filter (·.since + T = now)).flatMap fun x =>
        givenUp now x.key x.header x.iif (collect x.arrived)) ∧
      Matched T (l.filter (·.time ≠ now)) m' (w.filter (·.since + T ≠ now))
  | [], m, w, hm, _, _ => by
    obtain rfl : w = [] := by simpa using hm.entered
    exact ⟨m, rfl, hm⟩
  | e :: l, m, w, hm, hsorted, hwithin => by
    obtain ⟨x, w, hx, -, rfl⟩ := forall₂_cons_left_iff.mp hm.entered
    by_cases htime : e.time = now
    · have hkeys := (nodup_cons.mp hm.keys).1
      have hclosed := hm.close mem_cons_self
      have hl : (e :: l).filter (·.iter ≠ e.iter) = l := by
        have hiters := (nodup_cons.mp hm.iters).1
        rw [filter_cons_of_neg (by simp), filter_eq_self.mpr]
        exact fun y hy => decide_eq_true fun hye => hiters (List.mem_map.mpr ⟨y, hy, hye⟩)
      have hw : (x :: w).filter (·.key ≠ e.key) = w := by
        rw [filter_cons_of_neg (by simp [hx.key]), filter_eq_self.mpr]
        intro y hy
        obtain ⟨z, hz, hzy⟩ := (forall₂_mem (forall₂_cons.mp hm.entered).2).2 y hy
        exact decide_eq_true fun hye => hkeys (List.mem_map.mpr ⟨z, hz, hzy.key.trans hye⟩)
      rw [hl, hw] at hclosed
      obtain ⟨m', hrest, hm'⟩ := expire_spec now hclosed (pairwise_cons.mp hsorted).2
        fun y hy => hwithin y (mem_cons_of_mem _ hy)
      have hsince : x.since + T = now := hx.time.symm.trans htime
      refine ⟨m', ?_, by simpa [htime, hsince] using hm'⟩
      rw [hx.key] at hrest
      rw [expire, if_pos htime, handleFragmentsTimeout, hx.held, map_some, bind_eq_bind, bind_some]
      simp only [hrest, htime, hsince, hx.key, hx.header, hx.iif, filter_cons, flatMap_cons, ne_eq,
        not_true_eq_false, decide_true, decide_false, if_true, Bool.false_eq_true, if_false]
      rfl
    · -- no later entry expires now
      have hnone : ∀ y ∈ e :: l, y.time ≠ now := by
        intro y hy
        have := hwithin e mem_cons_self
        rcases mem_cons.mp hy with rfl | hy
        · exact htime
        · have := (pairwise_cons.mp hsorted).1 y hy
          omega
      have hnone' : ∀ y ∈ x :: w, y.since + T ≠ now := by
        intro y hy
        obtain ⟨z, hz, hzy⟩ := (forall₂_mem hm.entered).2 y hy
        exact hzy.time ▸ hnone z hz
      have hl : (e :: l).filter (·.time ≠ now) = e :: l := filter_eq_self.mpr fun y hy => decide_eq_true (hnone y hy)
      have hw : (x :: w).filter (·.since + T ≠ now) = x :: w :=
        filter_eq_self.mpr fun y hy => decide_eq_true (hnone' y hy)
      have hw' : (x :: w).filter (·.since + T = now) = [] :=
        filter_eq_nil_iff.mpr fun y hy => by simpa using hnone' y hy
      rw [hl, hw, hw']
      exact ⟨m, if_neg htime, hm⟩

/-- The store keeps the datagrams that wait. -/
structure Keeps (T : Nat) (s : Ipv4FragmentStore) (w : IncompleteDatagrams) : Prop where
  expiration : s.expirationTimeout = T
  now : w.now = s.now
  matched : Matched T s.timeoutEventList s.fragments w.waiting
  fresh : ∀ e ∈ s.timeoutEventList, e.iter < s.nextIter
  timed : Timed T s.now s.timeoutEventList s.scheduled

section
variable {T : Nat} {s : Ipv4FragmentStore} {w : IncompleteDatagrams}

theorem isEntire_getPacket {fr : Fragments} (h : fr.isEntire = true) : ∃ packet, fr.getPacket = some packet := by
  unfold isEntire at h
  unfold getPacket
  cases hl : fr.fragments with
  | nil => simp [hl] at h
  | cons x l => exact ⟨_, rfl⟩

theorem collect_add (l : List Ipv4Packet) (f : Ipv4Packet) :
    (collect l).addFragment f.1 f.2.fragmentOffset (!f.2.isLastFragment) = collect (l ++ [f]) := by
  simp [collect_append, Ipv4Header.isLastFragment]

/-- **A fragment arrives**, and the store does what is said of it. -/
theorem Keeps.processFragment (h : Keeps T s w) (f : Ipv4Packet) (iif : Nat) :
    ∃ s', s.processFragment f iif = some (s', (w.arrive f iif).2) ∧ Keeps T s' (w.arrive f iif).1 := by
  rw [Ipv4FragmentStore.processFragment, findFragments, arrive]
  cases hfound : w.waiting.find? (·.key = fragmentKey f.2) with
  | some x =>
    obtain ⟨e, he, hx⟩ := (forall₂_mem h.matched.entered).2 x (mem_of_find?_eq_some hfound)
    have hkey : fragmentKey f.2 = e.key := by
      have hfoundKey := find?_some hfound
      rw [decide_eq_true_eq] at hfoundKey
      exact hfoundKey.symm.trans hx.key.symm
    rw [hkey, hx.held]
    simp only [collect_add, ← hx.key]
    by_cases hentire : (collect (x.arrived ++ [f])).isEntire = true
    · obtain ⟨packet, hpacket⟩ := isEntire_getPacket hentire
      have hentire' : IncompleteDatagram.isEntire { x with key := e.key, arrived := x.arrived ++ [f] } = true := hentire
      have hout : IncompleteDatagram.completed { x with key := e.key, arrived := x.arrived ++ [f] } w.now =
          [.completed e.key s.now packet] := by
        simp [IncompleteDatagram.completed, hpacket, h.now]
      rw [if_pos hentire, if_pos hentire', hpacket, eraseTimeout_of_mem he, hout]
      refine ⟨_, rfl, h.expiration, h.now, h.matched.close he, ?_,
        h.timed.sublist filter_sublist⟩
      exact fun y hy => h.fresh y (mem_of_mem_filter hy)
    · have hentire' : ¬ IncompleteDatagram.isEntire { x with key := e.key, arrived := x.arrived ++ [f] } = true := hentire
      rw [if_neg hentire, if_neg hentire']
      refine ⟨_, rfl, h.expiration, h.now, h.matched.add hx.held (fun y hy => if_neg hy) ?_, h.fresh, h.timed⟩
      intro e' y hk hy heq
      rw [if_pos (hy.key ▸ hk)]
      obtain ⟨hcollect, hiter⟩ := TimedFragments.mk.inj heq
      have hsame : collect (y.arrived ++ [f]) = collect (x.arrived ++ [f]) := by
        rw [collect_append, collect_append, hcollect]
      refine ⟨hy.key, hy.time, hy.header, hy.iif, ?_, ?_⟩
      · rw [hk, OrdMap.find_insert_self, hsame, hiter]
      · change (collect (y.arrived ++ [f])).isEntire = false
        rw [hsame]
        exact Bool.eq_false_iff.mpr hentire
  | none =>
    have hnone : s.fragments.find (fragmentKey f.2) = none := h.matched.find_none fun x hx heq => by
      have := find?_eq_none.mp hfound x hx
      simp [heq] at this
    have hstart : (collect []).addFragment f.1 f.2.fragmentOffset (!f.2.isLastFragment) = collect [f] := collect_add [] f
    change addFragment {} _ _ _ = _ at hstart
    rw [hnone]
    simp only [setTimeout, hstart]
    let e : TimeoutEntry := ⟨s.now + s.expirationTimeout, fragmentKey f.2, f.2, iif, s.nextIter⟩
    have hfresh : ∀ y ∈ s.timeoutEventList, y.iter ≠ e.iter := fun y hy => (h.fresh y hy).ne
    have hopen := h.timed.open (e := e) (congrArg (s.now + ·) h.expiration)
    by_cases hentire : (collect [f]).isEntire = true
    · obtain ⟨packet, hpacket⟩ := isEntire_getPacket hentire
      have herase : eraseTimeout (s.timeoutEventList ++ [e]) e.iter = some s.timeoutEventList := by
        rw [eraseTimeout_of_mem (by simp), filter_append, filter_cons_of_neg (by simp), filter_nil,
          append_nil, filter_eq_self.mpr fun y hy => decide_eq_true (hfresh y hy)]
      have hsame : ∀ k, ((s.fragments.insert (fragmentKey f.2) ⟨{}, s.nextIter⟩).erase (fragmentKey f.2)).find k =
          s.fragments.find k := by
        intro k
        rw [OrdMap.find_erase, OrdMap.find_insert]
        by_cases hk : k = fragmentKey f.2
        · rw [if_pos hk, hk, hnone]
        · rw [if_neg hk, if_neg hk]
      have hentire' : IncompleteDatagram.isEntire ⟨fragmentKey f.2, w.now, f.2, iif, [f]⟩ = true := hentire
      have hout : IncompleteDatagram.completed ⟨fragmentKey f.2, w.now, f.2, iif, [f]⟩ w.now =
          [.completed (fragmentKey f.2) s.now packet] := by
        simp [IncompleteDatagram.completed, hpacket, h.now]
      rw [if_pos hentire, if_pos hentire', hpacket, herase, hout]
      refine ⟨_, rfl, h.expiration, h.now, ?_, fun y hy => Nat.lt_succ_of_lt (h.fresh y hy), ?_⟩
      · exact h.matched.of_find hsame
      · exact h.expiration ▸ hopen.sublist (sublist_append_left _ _)
    · have hentire' : ¬ IncompleteDatagram.isEntire ⟨fragmentKey f.2, w.now, f.2, iif, [f]⟩ = true := hentire
      rw [if_neg hentire, if_neg hentire']
      refine ⟨_, rfl, h.expiration, h.now, ?_, ?_, h.expiration ▸ hopen⟩
      · refine (h.matched.open (e := e) hnone hfresh ⟨collect [f], s.nextIter⟩ ?_).of_find fun k => ?_
        · exact ⟨rfl, by simp [e, h.now, h.expiration], rfl, rfl, by simp [e], Bool.eq_false_iff.mpr hentire⟩
        · simp only [e, OrdMap.find_insert]
          split <;> rfl
      · intro y hy
        rcases mem_append.mp hy with hy | hy
        · exact Nat.lt_succ_of_lt (h.fresh y hy)
        · rw [mem_singleton.mp hy]
          exact Nat.lt_succ_self _

/-- **`HandleTimeout`** gives up what is over, and waits for the next entry. -/
theorem Keeps.handleTimeout (h : Keeps T s w) :
    ∃ s', ({ s with scheduled := s.scheduled.erase s.now } : Ipv4FragmentStore).handleTimeout = some (s', (w.giveUp T).2) ∧
      Keeps T s' (w.giveUp T).1 ∧ s'.now = s.now ∧
      (s'.scheduled = s.scheduled.erase s.now ∨ ∃ p, s.now < p ∧ s'.scheduled = s.scheduled.erase s.now ++ [p]) := by
  obtain ⟨m, hexpire, hm⟩ := expire_spec s.now h.matched h.timed.sorted fun e he => (h.timed.within e he).1
  have hsub : (s.timeoutEventList.filter (·.time ≠ s.now)).Sublist s.timeoutEventList := filter_sublist
  have hnot : ∀ e ∈ s.timeoutEventList.filter (·.time ≠ s.now), e.time ≠ s.now := fun e he =>
    of_decide_eq_true (mem_filter.mp he).2
  have hfresh := fun e he => h.fresh e (hsub.subset he)
  rw [Ipv4FragmentStore.handleTimeout, hexpire, bind_eq_bind, bind_some, giveUp, h.now]
  generalize s.timeoutEventList.filter (·.time ≠ s.now) = l at hm hsub hnot hfresh
  cases l with
  | nil =>
    refine ⟨_, rfl, ⟨h.expiration, rfl, hm, hfresh, List.Pairwise.nil, by simp, by simp, ?_⟩, rfl, .inl rfl⟩
    exact fun p hp => h.timed.future p (mem_of_mem_erase hp)
  | cons e l =>
    have hle := (h.timed.within e (hsub.subset mem_cons_self)).1
    have hne := hnot e mem_cons_self
    have htimed := h.timed.reschedule hsub
    have hdifference : s.now + ((e.time : Int) - s.now).toNat = e.time := by omega
    simp only [hdifference]
    rw [if_neg (by omega)]
    exact ⟨_, rfl, ⟨h.expiration, rfl, hm, hfresh, htimed⟩, rfl, .inr ⟨e.time, by omega, rfl⟩⟩

/-- The store does what the incomplete datagrams do, event by event. -/
theorem Keeps.step (h : Keeps T s w) {e : StoreEvent} (hdue : Due s e) : ∃ s' w' o, machine.step s e = some (s', o) ∧
    (IncompleteDatagrams.machine T).step w e = some (w', o) ∧ Keeps T s' w' := by
  cases e with
  | fragment f iif =>
    obtain ⟨s', hstep, hkeeps⟩ := h.processFragment f iif
    exact ⟨s', _, _, hstep, rfl, hkeeps⟩
  | handleTimeout =>
    obtain ⟨s', hstep, hkeeps, -⟩ := h.handleTimeout
    exact ⟨s', _, _, hstep, rfl, hkeeps⟩
  | advance t => exact ⟨_, _, _, rfl, rfl, h.expiration, rfl, h.matched, h.fresh, h.timed.advance hdue.1 hdue.2⟩

end

end Ipv4FragmentStore

end Ns3
