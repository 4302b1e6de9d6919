import Mathlib.Data.List.TakeWhile
import Ns3.Lib.Fold
import Ns3.Wifi.RecipientBlockAck

/-!
# The reordering buffer in every run

First the buffer without a wrap: MPDUs go up in ascending order, each once, and
none is lost that arrived in time. Then the agreement does the same, as long as
the numbers it gets are less than half the circle from the start of its window
and the new start it computes is a sequence number.
-/

namespace Ns3

open Machine List Option

namespace Reordering

/-! ## Without a wrap -/

def Ascending (l : List WifiMpdu) : Prop := l.Pairwise fun x y => x.position < y.position

theorem mem_store {m x : WifiMpdu} : ∀ {l : List WifiMpdu}, x ∈ store m l → x = m ∨ x ∈ l
  | [], h => by simpa [store] using h
  | y :: l, h => by
    rw [store] at h
    split at h
    · simpa using h
    · split at h
      · rcases List.mem_cons.mp h with h | h
        · exact .inr (h ▸ List.mem_cons_self)
        · rcases mem_store h with h | h
          · exact .inl h
          · exact .inr (List.mem_cons_of_mem _ h)
      · exact .inr h

theorem mem_store_of_mem {m x : WifiMpdu} : ∀ {l : List WifiMpdu}, x ∈ l → x ∈ store m l
  | [], h => by cases h
  | y :: l, h => by
    rw [store]
    split
    · exact List.mem_cons_of_mem _ h
    · split
      · rcases List.mem_cons.mp h with rfl | h
        · exact List.mem_cons_self
        · exact List.mem_cons_of_mem _ (mem_store_of_mem h)
      · exact h

theorem store_position (m : WifiMpdu) : ∀ l : List WifiMpdu, ∃ x ∈ store m l, x.position = m.position
  | [] => ⟨m, by simp [store], rfl⟩
  | y :: l => by
    rw [store]
    split
    · exact ⟨m, List.mem_cons_self, rfl⟩
    · split
      · obtain ⟨x, hx, heq⟩ := store_position m l
        exact ⟨x, mem_cons_of_mem _ hx, heq⟩
      · exact ⟨y, mem_cons_self, by omega⟩

theorem Ascending.store (m : WifiMpdu) : ∀ {l : List WifiMpdu}, Ascending l → Ascending (store m l)
  | [], _ => List.pairwise_singleton _ _
  | y :: l, h => by
    obtain ⟨hy, hl⟩ := pairwise_cons.mp h
    rw [Reordering.store]
    split
    · refine pairwise_cons.mpr ⟨fun x hx => ?_, h⟩
      rcases mem_cons.mp hx with rfl | hx
      · assumption
      · exact Nat.lt_trans ‹_› (hy x hx)
    · split
      · refine pairwise_cons.mpr ⟨fun x hx => ?_, Ascending.store m hl⟩
        rcases mem_store hx with rfl | hx
        · assumption
        · exact hy x hx
      · exact h

structure Passed (l : List WifiMpdu) (start : Nat) (r : List WifiMpdu × List WifiMpdu × Nat) : Prop where
  split : l = r.1 ++ r.2.1
  le : start ≤ r.2.2
  below : ∀ x ∈ r.1, x.position < r.2.2
  above : ∀ x ∈ r.2.1, r.2.2 < x.position

theorem run_spec : ∀ (l : List WifiMpdu) (start : Nat), Ascending l → (∀ x ∈ l, start ≤ x.position) →
    Passed l start (run l start)
  | [], start, _, _ => ⟨rfl, Nat.le_refl _, by simp [run], by simp [run]⟩
  | y :: l, start, hl, hge => by
    obtain ⟨hy, hl'⟩ := pairwise_cons.mp hl
    rw [run]
    by_cases heq : y.position = start
    · rw [if_pos heq]
      obtain ⟨hsplit, hle, hbelow, habove⟩ := run_spec l (start + 1) hl' fun x hx => by
        have := hy x hx
        omega
      refine ⟨?_, by dsimp only; omega, ?_, habove⟩
      · rw [cons_append, ← hsplit]
      · exact forall_mem_cons.mpr ⟨by dsimp only; omega, hbelow⟩
    · rw [if_neg heq]
      have hlt := hge y mem_cons_self
      refine ⟨rfl, Nat.le_refl _, by simp, fun x hx => ?_⟩
      rcases mem_cons.mp hx with rfl | hx
      · dsimp only
        omega
      · have := hy x hx
        dsimp only
        omega

theorem run_sublist : ∀ (l : List WifiMpdu) (start : Nat), (run l start).2.1.Sublist l
  | [], _ => List.Sublist.slnil
  | y :: l, start => by
    rw [run]
    split
    · exact (run_sublist l (start + 1)).cons y
    · exact List.Sublist.refl _

theorem mem_moveTo {s : Reordering} {start : Nat} {x : WifiMpdu} (h : x ∈ (s.moveTo start).1.buffered) : x ∈ s.buffered :=
  (dropWhile_sublist _).subset ((run_sublist _ _).subset h)

theorem dropWhile_ascending {l : List WifiMpdu} (h : Ascending l) (start : Nat) :
    (∀ x ∈ l.takeWhile (·.position < start), x.position < start) ∧ Ascending (l.dropWhile (·.position < start)) ∧
      ∀ x ∈ l.dropWhile (·.position < start), start ≤ x.position := by
  refine ⟨fun x hx => by simpa using mem_takeWhile_imp hx, h.sublist (dropWhile_sublist _), fun x hx => ?_⟩
  have hnot := dropWhile_sorted (q := fun x : WifiMpdu => decide (x.position < start)) h (fun a _ b _ hab hb => by
    have hb' : b.position < start := by simpa using hb
    simpa using Nat.lt_trans hab hb') x hx
  simpa using hnot

/-- The buffer, the window and all that went up. -/
structure Ordered (s : Reordering) (out : List WifiMpdu) : Prop where
  ascending : Ascending s.buffered
  window : ∀ x ∈ s.buffered, s.winStart < x.position ∧ x.position < s.winStart + s.winSize
  passed : Ascending out
  below : ∀ x ∈ out, x.position < s.winStart
  /-- None is lost that arrived in time. -/
  kept : ∀ m ∈ s.inTime, ∃ x ∈ out ++ s.buffered, x.position = m.position
  received : ∀ x ∈ out ++ s.buffered, x ∈ s.inTime

theorem ordered_start (position winSize : Nat) : Ordered { winStart := position, winSize := winSize } [] :=
  ⟨List.Pairwise.nil, by simp, List.Pairwise.nil, by simp, by simp, by simp⟩

section
variable {s : Reordering} {out : List WifiMpdu}

theorem moveTo_ordered (start : Nat) (hascending : Ascending s.buffered)
    (hwindow : ∀ x ∈ s.buffered, s.winStart ≤ x.position ∧ x.position < start + s.winSize)
    (hpassed : Ascending out) (hbelow : ∀ x ∈ out, x.position < s.winStart)
    (hkept : ∀ m ∈ s.inTime, ∃ x ∈ out ++ s.buffered, x.position = m.position)
    (hreceived : ∀ x ∈ out ++ s.buffered, x ∈ s.inTime) (hle : s.winStart ≤ start) :
    Ordered (s.moveTo start).1 (out ++ (s.moveTo start).2) ∧ start ≤ (s.moveTo start).1.winStart := by
  have hsplit : s.buffered = s.buffered.takeWhile (·.position < start) ++ s.buffered.dropWhile (·.position < start) :=
    takeWhile_append_dropWhile.symm
  have hasc := hascending
  rw [hsplit, Ascending, pairwise_append] at hasc
  obtain ⟨hfront, hrest, hcross⟩ := hasc
  obtain ⟨hlow, -, hhigh⟩ := dropWhile_ascending hascending start
  obtain ⟨hrun, hstart, hpass, habove⟩ := run_spec _ start hrest hhigh
  have hall : out ++ s.buffered = out ++ (s.moveTo start).2 ++ (s.moveTo start).1.buffered := by
    rw [moveTo]
    rw [append_assoc out, append_assoc, ← hrun, ← hsplit]
  rw [hrun, pairwise_append] at hrest
  obtain ⟨hrest₁, hrest₂, -⟩ := hrest
  have hfront' : ∀ x ∈ s.buffered.takeWhile (·.position < start), x ∈ s.buffered := by
    intro x hx
    rw [hsplit]
    exact mem_append_left _ hx
  refine ⟨⟨hrest₂, fun x hx => ⟨habove x hx, ?_⟩, ?_, ?_, ?_, ?_⟩, hstart⟩
  · have := (hwindow x (mem_moveTo hx)).2
    show x.position < (run _ start).2.2 + s.winSize
    omega
  · refine pairwise_append.mpr ⟨hpassed, pairwise_append.mpr ⟨hfront, hrest₁, fun x hx y hy => ?_⟩, fun x hx y hy => ?_⟩
    · refine hcross x hx y ?_
      rw [hrun]
      exact mem_append_left _ hy
    · have hy' : y ∈ s.buffered := by
        rcases mem_append.mp hy with hy | hy
        · exact hfront' y hy
        · rw [hsplit, hrun]
          exact mem_append_right _ (mem_append_left _ hy)
      exact Nat.lt_of_lt_of_le (hbelow x hx) (hwindow y hy').1
  · intro x hx
    show x.position < (run _ start).2.2
    rcases mem_append.mp hx with hx | hx
    · have := hbelow x hx
      omega
    · rcases mem_append.mp hx with hx | hx
      · have := hlow x hx
        omega
      · exact hpass x hx
  · intro m hm
    rw [← hall]
    exact hkept m hm
  · rw [← hall]
    exact hreceived

/-- What went up lies below the start of the window. -/
theorem Ordered.step (h : Ordered s out) (e : RecipientEvent) :
    Ordered (s.step e).1 (out ++ (s.step e).2) ∧ s.winStart ≤ (s.step e).1.winStart := by
  cases e with
  | mpdu m =>
    rw [Reordering.step]
    by_cases hold : m.position < s.winStart
    · rw [if_pos hold, append_nil]
      exact ⟨h, Nat.le_refl _⟩
    · rw [if_neg hold]
      obtain ⟨hordered, hle⟩ := moveTo_ordered (s := { s with buffered := Reordering.store m s.buffered, inTime := m :: s.inTime })
        (max s.winStart (m.position + 1 - s.winSize)) (h.ascending.store m)
        (fun x hx => by
          dsimp only at hx ⊢
          rcases mem_store hx with rfl | hx
          · omega
          · have := h.window x hx
            omega)
        h.passed h.below
        (fun x hx => by
          rcases mem_cons.mp hx with rfl | hx
          · obtain ⟨y, hy, heq⟩ := store_position x s.buffered
            exact ⟨y, mem_append_right _ hy, heq⟩
          · obtain ⟨y, hy, heq⟩ := h.kept x hx
            rcases mem_append.mp hy with hy | hy
            · exact ⟨y, mem_append_left _ hy, heq⟩
            · exact ⟨y, mem_append_right _ (mem_store_of_mem hy), heq⟩)
        (fun x hx => by
          rcases mem_append.mp hx with hx | hx
          · exact mem_cons_of_mem _ (h.received x (mem_append_left _ hx))
          · rcases mem_store hx with rfl | hx
            · exact mem_cons_self
            · exact mem_cons_of_mem _ (h.received x (mem_append_right _ hx)))
        (Nat.le_max_left _ _)
      exact ⟨hordered, Nat.le_trans (Nat.le_max_left _ _) hle⟩
  | bar ssn position =>
    obtain ⟨hordered, hle⟩ := moveTo_ordered (max s.winStart position) h.ascending
      (fun x hx => by
        have := h.window x hx
        omega)
      h.passed h.below h.kept h.received (Nat.le_max_left _ _)
    exact ⟨hordered, Nat.le_trans (Nat.le_max_left _ _) hle⟩

theorem moveTo_of_le {start : Nat} (h : ∀ x ∈ s.buffered, start ≤ x.position) :
    s.moveTo start = ({ s with buffered := (run s.buffered start).2.1, winStart := (run s.buffered start).2.2 },
      (run s.buffered start).1) := by
  have hkeep : ∀ l : List WifiMpdu, (∀ x ∈ l, start ≤ x.position) →
      l.takeWhile (·.position < start) = [] ∧ l.dropWhile (·.position < start) = l := by
    intro l hl
    cases l with
    | nil => exact ⟨rfl, rfl⟩
    | cons y l =>
      have hy : ¬ decide (y.position < start) = true := by
        have := hl y mem_cons_self
        simp
        omega
      exact ⟨takeWhile_cons_of_neg hy, dropWhile_cons_of_neg hy⟩
  rw [moveTo, (hkeep _ h).1, (hkeep _ h).2]
  rfl

theorem Ordered.moveTo_winStart (h : Ordered s out) : s.moveTo s.winStart = (s, []) := by
  have hrun : run s.buffered s.winStart = ([], s.buffered, s.winStart) := by
    cases hl : s.buffered with
    | nil => rfl
    | cons y l =>
      have := h.window y (by simp [hl])
      rw [run, if_neg (by omega)]
  rw [moveTo_of_le fun x hx => Nat.le_of_lt (h.window x hx).1, hrun]

end

end Reordering

/-! ## The agreement -/

namespace RecipientBlockAckAgreement

open Reordering

def entry (m : WifiMpdu) : Nat × WifiMpdu := (m.sequenceNumber, m)

/-- The MPDU has the number of its position, from the start on and less than
half the numbers ahead. -/
def Ahead (start : Nat) (m : WifiMpdu) : Prop :=
  m.sequenceNumber = m.position % 4096 ∧ start ≤ m.position ∧ m.position < start + 2048

section
variable {W : Nat}

theorem before_eq {x y : WifiMpdu} (hx : Ahead W x) (hy : Ahead W y) :
    before (W % 4096) x.sequenceNumber y.sequenceNumber = decide (x.position < y.position) := by
  obtain ⟨hx, hx₁, hx₂⟩ := hx
  obtain ⟨hy, hy₁, hy₂⟩ := hy
  have hdist : ∀ p, W ≤ p → p < W + 2048 → (((p % 4096 : Nat) : Int) - (W % 4096 : Nat) + 4096).tmod 4096 = (p : Int) - W := by
    intro p hlo hhi
    rw [Int.tmod_eq_emod_of_nonneg (by omega)]
    omega
  rw [before, hx, hy, hdist _ hx₁ hx₂, hdist _ hy₁ hy₂]
  exact decide_eq_decide.mpr (by omega)

theorem insert_eq {m : WifiMpdu} (hm : Ahead W m) : ∀ {l : List WifiMpdu}, (∀ x ∈ l, Ahead W x) →
    insert (W % 4096) m (l.map entry) = (store m l).map entry
  | [], _ => rfl
  | y :: l, hl => by
    have hy := hl y mem_cons_self
    rw [map_cons, insert, entry, before_eq hm hy, before_eq hy hm, store]
    simp only [decide_eq_true_eq]
    split
    · rfl
    · split
      · rw [insert_eq hm fun x hx => hl x (mem_cons_of_mem _ hx)]
        rfl
      · rfl

variable {a : RecipientBlockAckAgreement}

theorem noOldMpdus_eq {l : List WifiMpdu} (hstart : a.winStartB = W % 4096)
    (hbuffered : a.bufferedMpdus = l.map entry) (hl : ∀ x ∈ l, Ahead W x) : a.noOldMpdus = true := by
  rw [noOldMpdus, hbuffered, getLast?_map, hstart]
  cases hlast : l.getLast? with
  | none => rfl
  | some x =>
    obtain ⟨hseq, hlo, hhi⟩ := hl x (mem_of_getLast? hlast)
    rw [map_some, all_some, entry, hseq, getDistance_eq hlo (by omega), any_some, decide_eq_true_eq]
    omega

theorem passRun_eq : ∀ (l : List WifiMpdu) (start : Nat), Ascending l → (∀ x ∈ l, Ahead start x) →
    passRun (l.map entry) (start % 4096) = ((run l start).1, (run l start).2.1.map entry, (run l start).2.2 % 4096)
  | [], start, _, _ => rfl
  | y :: l, start, hasc, hl => by
    obtain ⟨hy, hasc'⟩ := pairwise_cons.mp hasc
    obtain ⟨hseq, hlo, hhi⟩ := hl y mem_cons_self
    have heq : y.sequenceNumber = start % 4096 ↔ y.position = start := by omega
    rw [map_cons, passRun, run, entry]
    simp only [heq]
    by_cases hfirst : y.position = start
    · have hnext : (start % 4096 + 1) % 4096 = (start + 1) % 4096 := by omega
      have hrest : ∀ x ∈ l, Ahead (start + 1) x := by
        intro x hx
        obtain ⟨hseq, hlo, hhi⟩ := hl x (mem_cons_of_mem _ hx)
        have := hy x hx
        exact ⟨hseq, by omega, by omega⟩
      rw [if_pos hfirst, if_pos hfirst, hnext, passRun_eq l (start + 1) hasc' hrest]
    · rw [if_neg hfirst, if_neg hfirst]
      rfl

theorem passBufferedMpdusUntilFirstLost_eq {l : List WifiMpdu}
    (hstart : a.winStartB = W % 4096) (hbuffered : a.bufferedMpdus = l.map entry) (hl : ∀ x ∈ l, Ahead W x)
    (hasc : Ascending l) : a.passBufferedMpdusUntilFirstLost =
      some ({ a with bufferedMpdus := (run l W).2.1.map entry, winStartB := (run l W).2.2 % 4096 }, (run l W).1) := by
  rw [passBufferedMpdusUntilFirstLost, if_pos (noOldMpdus_eq hstart hbuffered hl), hbuffered, hstart, passRun_eq l W hasc hl]

theorem passBelowThenRun_none {newWinStartB : Nat}
    (h : passBelow a.winStartB newWinStartB a.bufferedMpdus = none) : a.passBelowThenRun newWinStartB = none := by
  rw [passBelowThenRun, passBufferedMpdusWithSeqNumberLessThan, h]
  split <;> rfl

theorem passBelow_eq {start : Nat} (hlo : W ≤ start) (hhi : start < W + 4096) : ∀ (l : List WifiMpdu),
    (∀ x ∈ l, Ahead W x) → passBelow (W % 4096) (start % 4096) (l.map entry) =
      some (l.takeWhile (·.position < start), (l.dropWhile (·.position < start)).map entry)
  | [], _ => rfl
  | y :: l, hl => by
    obtain ⟨hseq, hy, hy'⟩ := hl y mem_cons_self
    have hdistance : getDistance y.sequenceNumber (W % 4096) = some (y.position - W) := by
      rw [hseq]
      exact getDistance_eq hy (by omega)
    rw [map_cons, passBelow, entry, hdistance, getDistance_eq hlo hhi, bind_some, bind_some,
      takeWhile_cons, dropWhile_cons]
    by_cases hlt : y.position < start
    · rw [if_pos (by omega), if_pos (decide_eq_true hlt), if_pos (decide_eq_true hlt),
        passBelow_eq hlo hhi l fun x hx => hl x (mem_cons_of_mem _ hx)]
      rfl
    · rw [if_neg (by omega), if_neg (by simpa using hlt), if_neg (by simpa using hlt)]
      rfl

end

/-! ## The scoreboard -/

section
variable {w : BlockAckWindow} {size : Nat}

theorem scoreMpdu_valid (h : w.Valid size) (seq : Nat) (hseq : seq < 4096) :
    ∃ w', scoreMpdu w seq = some w' ∧ w'.Valid size := by
  have hsize := h.winSize
  have hhead := h.head
  rw [scoreMpdu, getDistance, if_pos ⟨hseq, h.winStart⟩, bind_some]
  split
  · obtain ⟨w', hw', hvalid, -⟩ := w.mark_eq h (i := (seq + 4096 - w.winStart) % 4096) (by omega)
    exact ⟨w', hw', hvalid⟩
  · split
    · obtain ⟨hvalid, -⟩ := BlockAckWindow.advance_bit h ((seq + 4096 - w.winStart) % 4096 - w.winSize + 1)
      have hsize' := hvalid.winSize
      obtain ⟨w', hw', hvalid', -⟩ := BlockAckWindow.mark_eq hvalid (i := size - 1) (by omega)
      refine ⟨w', ?_, hvalid'⟩
      dsimp only
      rw [hsize']
      exact hw'
    · exact ⟨w, rfl, h⟩

theorem scoreBar_valid (h : w.Valid size) (seq : Nat) (hseq : seq < 4096) :
    ∃ w', scoreBar w seq = some w' ∧ w'.Valid size := by
  have hhead := h.head
  rw [scoreBar, getDistance, if_pos ⟨hseq, h.winStart⟩, bind_some]
  split
  · obtain ⟨hvalid, hmoved, -⟩ := BlockAckWindow.advance_bit h ((seq + 4096 - w.winStart) % 4096)
    refine ⟨_, if_pos ?_, hvalid⟩
    omega
  · split
    · refine ⟨_, rfl, ?_⟩
      rw [BlockAckWindow.reset, show w.window.length = size from h.winSize]
      exact BlockAckWindow.valid_init (by omega) hseq
    · exact ⟨w, rfl, h⟩

end

end RecipientBlockAckAgreement

/-! ## Both -/

namespace BlockAckRecipient

open RecipientBlockAckAgreement Reordering

/-- The agreement stands for the buffer without a wrap. -/
structure Refines (a : RecipientBlockAckAgreement) (r : Reordering) : Prop where
  winStart : a.winStartB = r.winStart % 4096
  winSize : a.winSizeB = r.winSize
  bounds : 0 < r.winSize ∧ r.winSize ≤ 256
  buffered : a.bufferedMpdus = r.buffered.map entry
  numbered : ∀ m ∈ r.buffered, m.sequenceNumber = m.position % 4096
  scoreboard : a.scoreboard.Valid r.winSize

section
variable {a : RecipientBlockAckAgreement} {r : Reordering}

theorem Refines.pass (hstart : a.winStartB = r.winStart % 4096) (hbuffered : a.bufferedMpdus = r.buffered.map entry)
    (hahead : ∀ x ∈ r.buffered, Ahead r.winStart x) (hasc : Ascending r.buffered) {start : Nat} (hlo : r.winStart ≤ start)
    (hhi : start < r.winStart + 2048) : a.passBelowThenRun (start % 4096) = some
      ({ a with bufferedMpdus := (r.moveTo start).1.buffered.map entry, winStartB := (r.moveTo start).1.winStart % 4096 },
        (r.moveTo start).2) := by
  have hrest : ∀ x ∈ r.buffered.dropWhile (·.position < start), Ahead start x := by
    intro x hx
    have hmem := (dropWhile_sublist _).subset hx
    obtain ⟨hseq, -, hlt⟩ := hahead x hmem
    refine ⟨hseq, ?_, by omega⟩
    obtain ⟨-, -, hge⟩ := dropWhile_ascending hasc start
    exact hge x hx
  have hasc' := (dropWhile_ascending hasc start).2.1
  have hold := noOldMpdus_eq hstart hbuffered hahead
  have hbelow := passBelow_eq hlo (by omega) r.buffered hahead
  rw [passBelowThenRun, passBufferedMpdusWithSeqNumberLessThan, if_pos hold, hstart, hbuffered, hbelow, map_some,
    bind_some, passBufferedMpdusUntilFirstLost_eq rfl rfl hrest hasc']
  rfl

variable {out : List WifiMpdu} {m : WifiMpdu}

theorem Refines.ahead (h : Refines a r) (ho : Ordered r out) : ∀ x ∈ r.buffered, Ahead r.winStart x := by
  intro x hx
  obtain ⟨hlo, hhi⟩ := ho.window x hx
  have := h.bounds.2
  exact ⟨h.numbered x hx, by omega, by omega⟩

theorem Refines.old (h : Refines a r) (hnear : Nearby ⟨a, r⟩ (.mpdu m)) (hold : m.position < r.winStart) :
    ∃ a', a.receive (.mpdu m) = some (a', (r.step (.mpdu m)).2) ∧ Refines a' (r.step (.mpdu m)).1 := by
  obtain ⟨hseq, hbehind, -⟩ := hnear
  have hbounds := h.bounds
  have hsize := h.winSize
  dsimp only at hbehind
  obtain ⟨w, hw, hvalid⟩ := scoreMpdu_valid h.scoreboard m.sequenceNumber (by omega)
  have hdistance : getDistance m.sequenceNumber a.winStartB = some (m.position + 4096 - r.winStart) := by
    rw [hseq, h.winStart]
    exact getDistance_behind hold (by omega)
  rw [Reordering.step, if_pos hold, receive, notifyReceivedMpdu, hw, hdistance, bind_some, bind_some,
    if_neg (by omega), if_neg (by omega)]
  exact ⟨_, rfl, { h with scoreboard := hvalid }⟩

theorem Refines.stored (h : Refines a r) (ho : Ordered r out) (hm : Ahead r.winStart m) :
    (∀ x ∈ store m r.buffered, Ahead r.winStart x) ∧
      RecipientBlockAckAgreement.insert a.winStartB m a.bufferedMpdus = (store m r.buffered).map entry := by
  refine ⟨fun x hx => ?_, ?_⟩
  · rcases mem_store hx with rfl | hx
    · exact hm
    · exact h.ahead ho x hx
  · rw [h.winStart, h.buffered]
    exact insert_eq hm (h.ahead ho)

theorem Refines.inside (h : Refines a r) (ho : Ordered r out)
    (hnear : Nearby ⟨a, r⟩ (.mpdu m)) (hlo : r.winStart ≤ m.position) (hhi : m.position < r.winStart + r.winSize) :
    ∃ a', a.receive (.mpdu m) = some (a', (r.step (.mpdu m)).2) ∧ Refines a' (r.step (.mpdu m)).1 := by
  obtain ⟨hseq, -, hnext⟩ := hnear
  dsimp only at hnext
  have hm : Ahead r.winStart m := ⟨hseq, hlo, hnext⟩
  obtain ⟨hahead, hinsert⟩ := h.stored ho hm
  have hsize := h.winSize
  obtain ⟨w, hw, hvalid⟩ := scoreMpdu_valid h.scoreboard m.sequenceNumber (by omega)
  have hdistance : getDistance m.sequenceNumber a.winStartB = some (m.position - r.winStart) := by
    rw [hseq, h.winStart]
    exact getDistance_eq hlo (by omega)
  have hmove := moveTo_of_le (s := { r with buffered := store m r.buffered, inTime := m :: r.inTime }) fun x hx => (hahead x hx).2.1
  have hpass := passBufferedMpdusUntilFirstLost_eq
    (a := { a with scoreboard := w, bufferedMpdus := (store m r.buffered).map entry }) h.winStart rfl hahead (ho.ascending.store m)
  rw [Reordering.step, if_neg (by omega), Nat.max_eq_left (by omega), hmove, receive, notifyReceivedMpdu, hw, hdistance,
    bind_some, bind_some, if_pos (by omega), hinsert, hpass]
  refine ⟨_, rfl, rfl, hsize, h.bounds, rfl, fun x hx => ?_, hvalid⟩
  exact (hahead x ((run_sublist _ _).subset hx)).1

theorem Refines.beyond (h : Refines a r) (ho : Ordered r out)
    (hnear : Nearby ⟨a, r⟩ (.mpdu m)) (hlo : r.winStart + r.winSize ≤ m.position) (hfits : a.winSizeB ≤ m.sequenceNumber + 1) :
    ∃ a', a.receive (.mpdu m) = some (a', (r.step (.mpdu m)).2) ∧ Refines a' (r.step (.mpdu m)).1 := by
  obtain ⟨hseq, -, hnext⟩ := hnear
  dsimp only at hnext
  have hm : Ahead r.winStart m := ⟨hseq, by omega, hnext⟩
  obtain ⟨hahead, hinsert⟩ := h.stored ho hm
  have hsize := h.winSize
  have hbounds := h.bounds
  obtain ⟨w, hw, hvalid⟩ := scoreMpdu_valid h.scoreboard m.sequenceNumber (by omega)
  have hdistance : getDistance m.sequenceNumber a.winStartB = some (m.position - r.winStart) := by
    rw [hseq, h.winStart]
    exact getDistance_eq (by omega) (by omega)
  have hstart : uint16 (m.sequenceNumber - a.winSizeB + 1) = (m.position + 1 - r.winSize) % 4096 := by
    unfold uint16
    omega
  have hpass := Refines.pass (a := { a with scoreboard := w, bufferedMpdus := (store m r.buffered).map entry })
    (r := { r with buffered := store m r.buffered, inTime := m :: r.inTime }) h.winStart rfl hahead (ho.ascending.store m)
    (show r.winStart ≤ m.position + 1 - r.winSize by omega) (by dsimp only; omega)
  rw [Reordering.step, if_neg (by omega), Nat.max_eq_right (by omega), receive, notifyReceivedMpdu, hw, hdistance,
    bind_some, bind_some, if_neg (by omega), if_pos (by omega), hinsert, hstart, hpass]
  exact ⟨_, rfl, rfl, hsize, hbounds, rfl, fun x hx => (hahead x (mem_moveTo hx)).1, hvalid⟩

theorem Refines.wrapped (h : Refines a r) (ho : Ordered r out)
    (hnear : Nearby ⟨a, r⟩ (.mpdu m)) (hlo : r.winStart + r.winSize ≤ m.position) (hwraps : m.sequenceNumber + 1 < a.winSizeB) :
    a.receive (.mpdu m) = none := by
  obtain ⟨hseq, -, hnext⟩ := hnear
  dsimp only at hnext
  have hm : Ahead r.winStart m := ⟨hseq, by omega, hnext⟩
  obtain ⟨-, hinsert⟩ := h.stored ho hm
  have hsize := h.winSize
  obtain ⟨w, hw, -⟩ := scoreMpdu_valid h.scoreboard m.sequenceNumber (by omega)
  have hdistance : getDistance m.sequenceNumber a.winStartB = some (m.position - r.winStart) := by
    rw [hseq, h.winStart]
    exact getDistance_eq (by omega) (by omega)
  have hstart : ¬ uint16 (m.sequenceNumber - a.winSizeB + 1) < 4096 := by
    unfold uint16
    omega
  have hbelow : passBelow a.winStartB (uint16 (m.sequenceNumber - a.winSizeB + 1)) ((store m r.buffered).map entry) = none := by
    cases hl : store m r.buffered with
    | nil =>
      obtain ⟨x, hx, -⟩ := store_position m r.buffered
      rw [hl] at hx
      cases hx
    | cons y l =>
      have hnone : getDistance (uint16 (m.sequenceNumber - a.winSizeB + 1)) a.winStartB = none := if_neg fun hlt => hstart hlt.1
      rw [map_cons, passBelow, hnone]
      cases getDistance (entry y).1 a.winStartB <;> rfl
  rw [receive, notifyReceivedMpdu, hw, hdistance, bind_some, bind_some, if_neg (by omega), if_pos (by omega), hinsert]
  exact passBelowThenRun_none hbelow

theorem Refines.bar (h : Refines a r) (ho : Ordered r out) {ssn position : Nat}
    (hnear : Nearby ⟨a, r⟩ (.bar ssn position)) :
    ∃ a', a.receive (.bar ssn position) = some (a', (r.step (.bar ssn position)).2) ∧
      Refines a' (r.step (.bar ssn position)).1 := by
  obtain ⟨rfl, hbehind, hnext⟩ := hnear
  dsimp only at hbehind hnext
  obtain ⟨w, hw, hvalid⟩ := scoreBar_valid h.scoreboard (position % 4096) (by omega)
  rw [Reordering.step, receive, notifyReceivedBar, hw, h.winStart, bind_some]
  by_cases hmove : r.winStart < position
  · have hpass := Refines.pass (a := { a with scoreboard := w }) h.winStart h.buffered (h.ahead ho) ho.ascending
      (Nat.le_of_lt hmove) hnext
    rw [getDistance_eq (Nat.le_of_lt hmove) (by omega), bind_some, if_pos (by omega), Nat.max_eq_right (by omega),
      ← h.winStart, hpass]
    exact ⟨_, rfl, rfl, h.winSize, h.bounds, rfl, fun x hx => h.numbered x (mem_moveTo hx), hvalid⟩
  · have hdistance : ∃ d, getDistance (position % 4096) (r.winStart % 4096) = some d ∧ ¬ (0 < d ∧ d < 2048) := by
      by_cases heq : position = r.winStart
      · exact ⟨0, by rw [heq, getDistance_eq (Nat.le_refl _) (by omega), Nat.sub_self], by omega⟩
      · exact ⟨_, getDistance_behind (by omega) (by omega), by omega⟩
    obtain ⟨d, hd, hd'⟩ := hdistance
    rw [hd, bind_some, if_neg hd', Nat.max_eq_left (by omega), ho.moveTo_winStart, ← h.winStart]
    exact ⟨_, rfl, { h with scoreboard := hvalid }⟩

end

structure Reordered (s : BlockAckRecipient) (out : List WifiMpdu) : Prop where
  winStartB : s.agreement.winStartB = s.reordering.winStart % 4096
  winSizeB : s.agreement.winSizeB = s.reordering.winSize
  buffered : s.agreement.bufferedMpdus = s.reordering.buffered.map entry
  numbered : ∀ m ∈ s.reordering.buffered, m.sequenceNumber = m.position % 4096
  ordered : Ordered s.reordering out
  /-- The comparator, with the start as it is now, has the keys in order. -/
  comparator : s.agreement.bufferedMpdus.Pairwise fun x y => before s.agreement.winStartB x.1 y.1 = true

structure Inv (s : BlockAckRecipient) (out : List WifiMpdu) : Prop where
  refines : Refines s.agreement s.reordering
  ordered : Ordered s.reordering out

section
variable {s : BlockAckRecipient} {out : List WifiMpdu}

theorem Inv.reordered (h : Inv s out) : Reordered s out := by
  refine ⟨h.refines.winStart, h.refines.winSize, h.refines.buffered, h.refines.numbered, h.ordered, ?_⟩
  rw [h.refines.buffered, pairwise_map]
  refine List.Pairwise.imp_of_mem (fun {x y} hx hy hlt => ?_) h.ordered.ascending
  rw [h.refines.winStart]
  exact (before_eq (h.refines.ahead h.ordered x hx) (h.refines.ahead h.ordered y hy)).trans (decide_eq_true hlt)

/-- What went up ascends, and the window only moves forward. -/
theorem Inv.step (h : Inv s out) : ∀ e : RecipientEvent, Nearby s e → NotWrapped s e →
    ∃ s' o, machine.step s e = some (s', o) ∧ Inv s' (out ++ o) ∧ s.reordering.winStart ≤ s'.reordering.winStart := by
  intro e hnear hfits
  have hsize := h.refines.winSize
  have hstep : ∃ a', s.agreement.receive e = some (a', (s.reordering.step e).2) ∧ Refines a' (s.reordering.step e).1 := by
    cases e with
    | bar ssn position => exact h.refines.bar h.ordered hnear
    | mpdu m =>
      by_cases hold : m.position < s.reordering.winStart
      · exact h.refines.old hnear hold
      · by_cases hin : m.position < s.reordering.winStart + s.reordering.winSize
        · exact h.refines.inside h.ordered hnear (Nat.le_of_not_lt hold) hin
        · exact h.refines.beyond h.ordered hnear (Nat.le_of_not_lt hin) (hfits (by rw [hsize]; exact Nat.le_of_not_lt hin))
  obtain ⟨a', hreceive, hrefines⟩ := hstep
  obtain ⟨hordered, hle⟩ := h.ordered.step e
  exact ⟨_, _, congrArg (Option.map _) hreceive, ⟨hrefines, hordered⟩, hle⟩

theorem Inv.wrapped (h : Inv s out) {e : RecipientEvent} (hnear : Nearby s e) (hwraps : ¬ NotWrapped s e) :
    machine.step s e = none := by
  cases e with
  | bar => exact absurd trivial hwraps
  | mpdu m =>
    simp only [NotWrapped, Classical.not_imp, Nat.not_le, h.refines.winSize] at hwraps
    have hnone := h.refines.wrapped h.ordered hnear hwraps.1 (by rw [h.refines.winSize]; exact hwraps.2)
    exact congrArg (Option.map _) hnone

end

theorem Inv.of_run {winSize position : Nat} (hbounds : 0 < winSize ∧ winSize ≤ 256)
    {tr : List (RecipientEvent × List WifiMpdu)} {s : BlockAckRecipient}
    (hrun : Run machine (fun s e => Nearby s e ∧ NotWrapped s e) (start winSize position) tr s) : Inv s (outputs tr) := by
  refine Run.invariant (fun tr s => Inv s (outputs tr)) ⟨⟨rfl, rfl, hbounds, rfl, by simp [start], ?_⟩, ordered_start ..⟩ ?_ hrun
  · exact BlockAckWindow.valid_init hbounds.1 (Nat.mod_lt _ (by decide))
  · intro tr s e s' o hinv he hstep
    obtain ⟨s₁, o₁, hstep₁, hinv₁, -⟩ := hinv.step e he.1 he.2
    cases hstep₁.symm.trans hstep
    rw [outputs_snoc]
    exact hinv₁

/-- **The reordering buffer.** MPDUs go up in ascending order, each at most once,
and none is left out that arrived before the window moved past it; the window
never moves back, and a call fails just when its new start wraps below zero. -/
theorem mpdus_reordered (winSize position : Nat) (hbounds : 0 < winSize ∧ winSize ≤ 256)
    {tr : List (RecipientEvent × List WifiMpdu)} {s : BlockAckRecipient}
    (hrun : Run machine (fun s e => Nearby s e ∧ NotWrapped s e) (start winSize position) tr s) :
    Reordered s (outputs tr) ∧ ∀ e, Nearby s e → ((machine.step s e).isSome ↔ NotWrapped s e) ∧
      ∀ s' o, machine.step s e = some (s', o) → s.reordering.winStart ≤ s'.reordering.winStart := by
  have hinv := Inv.of_run hbounds hrun
  refine ⟨hinv.reordered, fun e hnear => ?_⟩
  by_cases hfits : NotWrapped s e
  · obtain ⟨s₁, o₁, hstep, -, hle⟩ := hinv.step e hnear hfits
    refine ⟨by simp [hstep, hfits], fun s' o hstep' => ?_⟩
    cases hstep.symm.trans hstep'
    exact hle
  · have hnone := hinv.wrapped hnear hfits
    refine ⟨by simp [hnone, hfits], fun s' o hstep' => ?_⟩
    rw [hnone] at hstep'
    cases hstep'

instance (s : BlockAckRecipient) : (e : RecipientEvent) → Decidable (Nearby s e)
  | .mpdu _ | .bar .. => inferInstanceAs (Decidable (_ ∧ _ ∧ _))

instance (s : BlockAckRecipient) : (e : RecipientEvent) → Decidable (NotWrapped s e)
  | .mpdu _ => inferInstanceAs (Decidable (_ → _))
  | .bar .. => .isTrue trivial

def mpduAt (position : Nat) : RecipientEvent := .mpdu { sequenceNumber := position % 4096, position := position }

/-- MPDUs around the wrap: out of order, again, behind the window; and a request. -/
def aroundWrap : List RecipientEvent :=
  [mpduAt 4095, mpduAt 4097, mpduAt 4095, mpduAt 4094, mpduAt 4101, mpduAt 4096, .bar 7 4103, mpduAt 4103]

theorem aroundWrap_isSome :
    (machine.exec (fun s e => Nearby s e ∧ NotWrapped s e) (start 4 4094) aroundWrap).isSome := by
  decide +kernel

theorem aroundWrap_reordered : ∃ tr s, Run machine (fun s e => Nearby s e ∧ NotWrapped s e) (start 4 4094) tr s ∧
      (outputs tr).map (·.position) = [4094, 4095, 4097, 4101, 4103] ∧ s.agreement.winStartB = 8 ∧ Reordered s (outputs tr) := by
  have hrun := run_of_isSome machine (fun s e => Nearby s e ∧ NotWrapped s e) _ _ aroundWrap_isSome
  exact ⟨_, _, hrun, by decide +kernel, by decide +kernel, (mpdus_reordered _ _ (by decide) hrun).1⟩

/-- **The new start is not taken modulo 4096**: with a window of 64 from 4000 on, an
MPDU with the number 10 makes it 65483. -/
theorem new_start_wraps : ∃ tr s e, Run machine Nearby (start 64 4000) tr s ∧ Nearby s e ∧ machine.step s e = none :=
  ⟨[], start 64 4000, mpduAt 4106, .nil, by decide, by decide +kernel⟩

end BlockAckRecipient

end Ns3
