import Mathlib.Data.List.Perm.Subperm
import Ns3.Wifi.OriginatorBlockAck
import Ns3.Wifi.RecipientSound

/-!
# The block ack exchange in every run

The transmit window starts at the first position that is neither acknowledged
nor passed over, and its bits say which of the positions in it are acknowledged.
The MPDUs in flight are in order, in the window and not acknowledged. The
scoreboard does not start behind the transmit window and has bits only for what
was received; a bitmap is read rightly as long as the end of the transmit window
is not a whole circle ahead of it.
-/

namespace Ns3

open Machine List Option

namespace OriginatorBlockAckAgreement

/-! ## The first open position -/

structure FirstOpen (acked : List Nat) (q r : Nat) : Prop where
  le : q ≤ r
  notMem : r ∉ acked
  before : ∀ p, q ≤ p → p < r → p ∈ acked

theorem FirstOpen.unique {acked : List Nat} {q r r' : Nat} (h : FirstOpen acked q r) (h' : FirstOpen acked q r') : r = r' := by
  rcases Nat.lt_trichotomy r r' with hlt | heq | hlt
  · exact absurd (h'.before r h.le hlt) h.notMem
  · exact heq
  · exact absurd (h.before r' h'.le hlt) h'.notMem

theorem firstOpen_spec {acked : List Nat} : ∀ (n q : Nat), (∃ p, q ≤ p ∧ p ≤ q + n ∧ p ∉ acked) →
    FirstOpen acked q (firstOpen acked n q)
  | 0, q, ⟨p, hle, hlt, hp⟩ => by
    obtain rfl : p = q := by omega
    exact ⟨Nat.le_refl _, hp, fun r hr hr' => absurd hr' (Nat.not_lt.mpr hr)⟩
  | n + 1, q, ⟨p, hle, hlt, hp⟩ => by
    rw [firstOpen]
    by_cases hq : q ∈ acked
    · rw [if_pos hq]
      have hne : p ≠ q := fun heq => hp (heq ▸ hq)
      obtain ⟨hle', hnot, hbefore⟩ := firstOpen_spec n (q + 1) ⟨p, by omega, by omega, hp⟩
      refine ⟨by omega, hnot, fun r hr hr' => ?_⟩
      rcases Nat.eq_or_lt_of_le hr with rfl | hr
      · exact hq
      · exact hbefore r hr hr'
    · rw [if_neg hq]
      exact ⟨Nat.le_refl _, hq, fun r hr hr' => absurd hr' (Nat.not_lt.mpr hr)⟩

theorem exists_open (acked : List Nat) (q : Nat) : ∃ p, q ≤ p ∧ p ≤ q + acked.length ∧ p ∉ acked := by
  by_contra hall
  have hsub : range' q (acked.length + 1) ⊆ acked := fun p hp => by
    obtain ⟨hge, hlt⟩ := mem_range'_1.mp hp
    by_contra hnot
    exact hall ⟨p, hge, by omega, hnot⟩
  have hnodup : (range' q (acked.length + 1)).Nodup := nodup_range'
  have hle := (subperm_of_subset hnodup hsub).length_le
  rw [length_range'] at hle
  omega

theorem start_spec (a : OriginatorBlockAckAgreement) : FirstOpen a.acked a.passed a.start :=
  firstOpen_spec _ _ (exists_open _ _)

theorem start_le {a : OriginatorBlockAckAgreement} {q : Nat} (hle : a.passed ≤ q) (hq : q ∉ a.acked) : a.start ≤ q := by
  by_contra hlt
  exact hq (a.start_spec.before q hle (by omega))

/-! ## The transmit window -/

/-- A window at a position: its bits are the acknowledgments, and none is ahead of it. -/
structure Shows (w : BlockAckWindow) (size position : Nat) (acked : List Nat) : Prop where
  valid : w.Valid size
  winStart : w.winStart = position % 4096
  bits : ∀ i < size, w.bit i = decide (position + i ∈ acked)
  bound : ∀ p ∈ acked, p < position + size

section
variable {w : BlockAckWindow} {size position : Nat} {acked : List Nat}

theorem Shows.advance (h : Shows w size position acked) (count : Nat) : Shows (w.advance count) size (position + count) acked := by
  obtain ⟨hvalid, hstart, hbit⟩ := BlockAckWindow.advance_bit h.valid count
  refine ⟨hvalid, by rw [hstart, h.winStart]; omega, fun i hi => ?_, fun p hp => ?_⟩
  · rw [hbit i hi]
    by_cases hlt : i + count < size
    · rw [if_pos hlt, h.bits _ hlt, Nat.add_assoc, Nat.add_comm count]
    · have hnot : position + count + i ∉ acked := fun hp => by
        have := h.bound _ hp
        omega
      rw [if_neg hlt, decide_eq_false hnot]
  · have := h.bound p hp
    omega

theorem Shows.mark (h : Shows w size position acked) {i : Nat} (hi : i < size) :
    ∃ w', w.mark i = some w' ∧ Shows w' size position ((position + i) :: acked) := by
  obtain ⟨w', hmark, hvalid, hstart, hbit⟩ := BlockAckWindow.mark_eq h.valid hi
  refine ⟨w', hmark, hvalid, hstart.trans h.winStart, fun j hj => ?_, fun p hp => ?_⟩
  · rw [hbit j hj, h.bits j hj]
    simp
  · rcases mem_cons.mp hp with rfl | hp
    · omega
    · exact h.bound p hp

theorem Shows.get (h : Shows w size position acked) (hsize : 0 < size) : w.get 0 = some (decide (position ∈ acked)) := by
  rw [BlockAckWindow.get_eq h.valid hsize, h.bits 0 hsize, Nat.add_zero]

theorem Shows.advanceTxWindow (hsize : 0 < size) : ∀ (rounds : Nat) {w : BlockAckWindow} {position : Nat},
    Shows w size position acked → (∃ p, position ≤ p ∧ p < position + rounds ∧ p ∉ acked) →
    ∃ w' r, advanceTxWindow rounds w = some w' ∧ Shows w' size r acked ∧ FirstOpen acked position r
  | 0, w, position, _, ⟨p, hle, hlt, _⟩ => by omega
  | rounds + 1, w, position, h, ⟨p, hle, hlt, hp⟩ => by
    rw [OriginatorBlockAckAgreement.advanceTxWindow, h.get hsize, Option.bind_some]
    by_cases hmem : position ∈ acked
    · rw [if_pos (decide_eq_true hmem)]
      have hne : p ≠ position := fun heq => hp (heq ▸ hmem)
      obtain ⟨w', r, hloop, hshows, hle', hnot, hbefore⟩ :=
        Shows.advanceTxWindow hsize rounds (h.advance 1) ⟨p, by omega, by omega, hp⟩
      refine ⟨w', r, hloop, hshows, by omega, hnot, fun q hq hq' => ?_⟩
      rcases Nat.eq_or_lt_of_le hq with rfl | hq
      · exact hmem
      · exact hbefore q hq hq'
    · rw [if_neg (by simpa using hmem)]
      exact ⟨w, position, rfl, h, Nat.le_refl _, hmem, fun q hq hq' => absurd hq' (Nat.not_lt.mpr hq)⟩

end

def Placed (a : OriginatorBlockAckAgreement) (size : Nat) : Prop := Shows a.txWindow size a.start a.acked

section
variable {a : OriginatorBlockAckAgreement} {size : Nat}

theorem settle_eq {w : BlockAckWindow} {position : Nat} (hsize : 0 < size) (h : Shows w size position a.acked)
    (hle : a.passed ≤ position) (hbefore : ∀ p, a.passed ≤ p → p < position → p ∈ a.acked) :
    ∃ a', a.settle w = some a' ∧ a'.acked = a.acked ∧ a'.passed = a.passed ∧ a'.Placed size ∧
      FirstOpen a.acked position a'.start := by
  have hopen : position + size ∉ a.acked := fun hp => by
    have := h.bound _ hp
    omega
  have hfuel : w.winSize + 1 = size + 1 := by rw [h.valid.winSize]
  obtain ⟨w', r, hloop, hshows, hle', hnot, hbefore'⟩ :=
    h.advanceTxWindow hsize (w.winSize + 1) ⟨position + size, by omega, by omega, hopen⟩
  have hfirst : FirstOpen a.acked a.passed r := by
    refine ⟨by omega, hnot, fun p hp hp' => ?_⟩
    rcases Nat.lt_or_ge p position with hlt | hge
    · exact hbefore p hp hlt
    · exact hbefore' p hge hp'
  have hstart : ({ a with txWindow := w' } : OriginatorBlockAckAgreement).start = r := (start_spec _).unique hfirst
  have hsettle : a.settle w = some { a with txWindow := w' } := by
    rw [settle, hloop, map_some]
  refine ⟨_, hsettle, rfl, rfl, ?_, ?_⟩
  · rw [Placed, hstart]
    exact hshows
  · rw [hstart]
    exact ⟨hle', hnot, hbefore'⟩

variable {m : WifiMpdu}

theorem Placed.distance (h : a.Placed size) (hseq : m.sequenceNumber = m.position % 4096)
    (hle : a.start ≤ m.position) (hlt : m.position < a.start + 4096) :
    getDistance m.sequenceNumber a.txWindow.winStart = some (m.position - a.start) := by
  rw [hseq, h.winStart]
  exact getDistance_eq hle hlt

theorem Placed.behind (h : a.Placed size) (hseq : m.sequenceNumber = m.position % 4096)
    (hlt : m.position < a.start) (hle : a.start ≤ m.position + 2048) :
    ∃ d, getDistance m.sequenceNumber a.txWindow.winStart = some d ∧ 2048 ≤ d := by
  refine ⟨m.position + 4096 - a.start, ?_, by omega⟩
  rw [hseq, h.winStart]
  exact getDistance_behind hlt (by omega)

/-- What a call leaves behind: the window in its place, with no more acknowledged
or passed over than it says. -/
structure Moved (a a' : OriginatorBlockAckAgreement) (size : Nat) (known : List Nat) (behind : Nat) : Prop where
  placed : a'.Placed size
  acked : a'.acked = known
  passed : a'.passed = behind
  mono : a.start ≤ a'.start
  bound : a'.start ≤ max (a.start + size) behind

theorem Moved.refl (h : a.Placed size) : Moved a a size a.acked a.passed :=
  ⟨h, rfl, rfl, Nat.le_refl _, by omega⟩

theorem notifyTransmittedMpdu_eq (hbounds : 0 < size ∧ size ≤ 256) (h : a.Placed size)
    (hseq : m.sequenceNumber = m.position % 4096) (hle : a.start ≤ m.position) (hlt : m.position < a.start + 2048) :
    ∃ a', a.notifyTransmittedMpdu m = some a' ∧
      Moved a a' size a.acked (if m.position < a.start + size then a.passed else m.position + 1 - size) := by
  have hpassed := a.start_spec.le
  have hw : a.txWindow.winSize = size := h.valid.winSize
  rw [notifyTransmittedMpdu, h.distance hseq hle (by omega), bind_some, if_neg (by omega), hw]
  by_cases hin : m.position < a.start + size
  · rw [if_neg (by omega), if_pos hin]
    exact ⟨a, rfl, Moved.refl h⟩
  · rw [if_pos (by omega), if_neg hin, Nat.max_eq_right (by omega)]
    have hplace : a.start + (m.position - a.start - size + 1) = m.position + 1 - size := by omega
    have hshows := h.advance (m.position - a.start - size + 1)
    rw [hplace] at hshows
    obtain ⟨a', hsettle, hacked, hpassed', hplaced, hfirst⟩ :=
      settle_eq (a := { a with passed := m.position + 1 - size }) hbounds.1 hshows (Nat.le_refl _) fun p hp hp' =>
        absurd hp' (Nat.not_lt.mpr hp)
    refine ⟨a', hsettle, hplaced, hacked, hpassed', ?_, ?_⟩
    · have := hfirst.le
      omega
    · by_contra hfar
      have hlast := hfirst.before (a'.start - 1) (by omega) (by omega)
      have := h.bound _ hlast
      omega

theorem notifyAckedMpdu_eq (hbounds : 0 < size ∧ size ≤ 256) (h : a.Placed size)
    (hseq : m.sequenceNumber = m.position % 4096) (hle : a.start ≤ m.position) (hlt : m.position < a.start + size) :
    ∃ a', a.notifyAckedMpdu m = some a' ∧ Moved a a' size (m.position :: a.acked) a.passed := by
  have hspec := a.start_spec
  obtain ⟨w, hmark, hshows⟩ := h.mark (i := m.position - a.start) (by lia)
  rw [Nat.add_sub_cancel' hle] at hshows
  have hdistance := h.distance hseq hle (by omega)
  obtain ⟨a', hsettle, hacked, hpassed, hplaced, hfirst⟩ :=
    settle_eq (a := { a with acked := m.position :: a.acked }) hbounds.1 hshows hspec.le fun p hp hp' =>
      mem_cons_of_mem _ (hspec.before p hp hp')
  refine ⟨a', ?_, hplaced, hacked, hpassed, hfirst.le, ?_⟩
  · simp only [notifyAckedMpdu, hdistance, bind_some]
    rw [if_neg (by omega), hmark]
    exact hsettle
  · by_contra hfar
    have hlast := hfirst.before (a'.start - 1) (by lia) (by lia)
    have := hshows.bound _ hlast
    omega

theorem notifyDiscardedMpdu_eq (hbounds : 0 < size ∧ size ≤ 256) (h : a.Placed size)
    (hseq : m.sequenceNumber = m.position % 4096) (hle : a.start ≤ m.position) (hlt : m.position < a.start + size) :
    ∃ a', a.notifyDiscardedMpdu m = some a' ∧ Moved a a' size a.acked (m.position + 1) := by
  have hpassed := a.start_spec.le
  have hplace : a.start + (m.position - a.start + 1) = m.position + 1 := by omega
  have hshows := h.advance (m.position - a.start + 1)
  rw [hplace] at hshows
  obtain ⟨a', hsettle, hacked, hpassed', hplaced, hfirst⟩ :=
    settle_eq (a := { a with passed := m.position + 1 }) hbounds.1 hshows (Nat.le_refl _) fun p hp hp' =>
      absurd hp' (Nat.not_lt.mpr hp)
  refine ⟨a', ?_, hplaced, hacked, hpassed', ?_, ?_⟩
  · rw [notifyDiscardedMpdu, h.distance hseq hle (by omega), bind_some, if_neg (by omega),
      Nat.max_eq_right (by omega), hsettle]
  · have := hfirst.le
    omega
  · by_contra hfar
    have hlast := hfirst.before (a'.start - 1) (by omega) (by omega)
    have := h.bound _ hlast
    lia

end

end OriginatorBlockAckAgreement

namespace BlockAckManager

open OriginatorBlockAckAgreement Reordering

/-! ## The MPDUs in flight -/

structure InFlight (a : OriginatorBlockAckAgreement) (size : Nat) (l : List WifiMpdu) : Prop where
  ascending : Ascending l
  numbered : ∀ x ∈ l, x.sequenceNumber = x.position % 4096
  window : ∀ x ∈ l, a.start ≤ x.position ∧ x.position < a.start + size
  notAcked : ∀ x ∈ l, x.position ∉ a.acked

structure Inv (s : BlockAckManager) (size : Nat) : Prop where
  placed : s.agreement.Placed size
  inFlight : InFlight s.agreement size s.inFlight

/-- A call: the invariant, a window that does not move back, and what it
acknowledges. -/
structure Kept (s s' : BlockAckManager) (size : Nat) (new : Nat → Prop) : Prop where
  inv : Inv s' size
  mono : s.agreement.start ≤ s'.agreement.start
  acked : ∀ p ∈ s'.agreement.acked, p ∈ s.agreement.acked ∨ new p

section
variable {s : BlockAckManager} {a a' : OriginatorBlockAckAgreement} {size : Nat} {l l' : List WifiMpdu}

theorem Inv.kept (h : Inv s size) {new : Nat → Prop} : Kept s s size new :=
  ⟨h, Nat.le_refl _, fun _ hp => .inl hp⟩

theorem InFlight.moved {known : List Nat} {behind : Nat} (h : InFlight a size l) (hmoved : Moved a a' size known behind)
    (hsub : l'.Sublist l) (hknown : ∀ x ∈ l', x.position ∉ known) (hbehind : ∀ x ∈ l', behind ≤ x.position) :
    InFlight a' size l' := by
  refine ⟨h.ascending.sublist hsub, fun x hx => h.numbered x (hsub.subset hx), fun x hx => ⟨?_, ?_⟩, fun x hx => ?_⟩
  · apply start_le
    · rw [hmoved.passed]
      exact hbehind x hx
    · rw [hmoved.acked]
      exact hknown x hx
  · have := (h.window x (hsub.subset hx)).2
    have := hmoved.mono
    omega
  · rw [hmoved.acked]
    exact hknown x hx

variable {m mpdu : WifiMpdu} {rest : List WifiMpdu}

theorem insertMpdu_eq {start : Nat} (hbounds : size ≤ 256) (hseq : m.sequenceNumber = m.position % 4096)
    (hlo : start ≤ m.position) (hhi : m.position < start + 2048) : ∀ {l : List WifiMpdu},
    (∀ x ∈ l, x.sequenceNumber = x.position % 4096 ∧ start ≤ x.position ∧ x.position < start + size) →
    insertMpdu (start % 4096) m (m.position - start) l = some none ∨
      insertMpdu (start % 4096) m (m.position - start) l = some (some (store m l))
  | [], _ => .inr rfl
  | x :: l, hl => by
    obtain ⟨hxseq, hxlo, hxhi⟩ := hl x mem_cons_self
    have hsame : m.sequenceNumber = x.sequenceNumber ↔ m.position = x.position := by
      omega
    have hdistance : getDistance x.sequenceNumber (start % 4096) = some (x.position - start) := by
      rw [hxseq]
      exact getDistance_eq hxlo (by omega)
    rw [insertMpdu, store]
    by_cases heq : m.position = x.position
    · rw [if_pos (hsame.mpr heq)]
      exact .inl rfl
    · rw [if_neg (fun h => heq (hsame.mp h)), hdistance, bind_some]
      by_cases hlt : m.position < x.position
      · rw [if_pos (by omega), if_pos hlt]
        exact .inr rfl
      · rw [if_neg (by lia), if_neg hlt, if_pos (by lia)]
        rcases insertMpdu_eq hbounds hseq hlo hhi (fun y hy => hl y (mem_cons_of_mem _ hy)) with hnone | hsome
        · rw [hnone]
          exact .inl rfl
        · rw [hsome]
          exact .inr rfl

theorem Inv.storePacket (hbounds : 0 < size ∧ size ≤ 256) (h : Inv s size)
    (hseq : m.sequenceNumber = m.position % 4096) (hacked : m.position ∉ s.agreement.acked)
    (hlo : s.agreement.start ≤ m.position + 2048) (hhi : m.position < s.agreement.start + 2048)
    (hkeeps : ∀ x ∈ s.inFlight, m.position < x.position + size) :
    ∃ s', s.storePacket m = some s' ∧ Kept s s' size fun _ => False := by
  rcases Nat.lt_or_ge m.position s.agreement.start with hold | hnew
  · obtain ⟨d, hd, hfar⟩ := h.placed.behind hseq hold hlo
    exact ⟨s, by rw [BlockAckManager.storePacket, hd, bind_some, if_pos hfar], h.kept⟩
  · obtain ⟨hascending, hnumbered, hwindow, hnotAcked⟩ := h.inFlight
    rw [BlockAckManager.storePacket, h.placed.distance hseq hnew (by omega), bind_some, if_neg (by omega), h.placed.winStart]
    rcases insertMpdu_eq hbounds.2 hseq hnew hhi (fun x hx => ⟨hnumbered x hx, hwindow x hx⟩) with hnone | hsome
    · rw [hnone]
      exact ⟨s, rfl, h.kept⟩
    · obtain ⟨a', hnotify, hmoved⟩ := notifyTransmittedMpdu_eq hbounds h.placed hseq hnew hhi
      rw [hsome, bind_some, hnotify]
      refine ⟨_, rfl, ⟨hmoved.placed, hascending.store m, ?_, ?_, ?_⟩, hmoved.mono, fun p hp => .inl (hmoved.acked ▸ hp)⟩
      · intro x hx
        rcases mem_store hx with rfl | hx
        · exact hseq
        · exact hnumbered x hx
      · -- no MPDU in flight is left behind, and the new one ends the window at most
        have hpassed := s.agreement.start_spec.le
        have hend : m.position < a'.start + size := by
          have hle := a'.start_spec.le
          have hmono := hmoved.mono
          rw [hmoved.passed] at hle
          split at hle <;> omega
        intro x hx
        refine ⟨start_le ?_ ?_, ?_⟩
        · rw [hmoved.passed]
          rcases mem_store hx with rfl | hx
          · split <;> omega
          · have := hwindow x hx
            have := hkeeps x hx
            split <;> omega
        · rw [hmoved.acked]
          rcases mem_store hx with rfl | hx
          · exact hacked
          · exact hnotAcked x hx
        · rcases mem_store hx with rfl | hx
          · exact hend
          · have := (hwindow x hx).2
            have := hmoved.mono
            dsimp only
            omega
      · intro x hx
        rw [hmoved.acked]
        rcases mem_store hx with rfl | hx
        · exact hacked
        · exact hnotAcked x hx

theorem dropOld_eq (start : Nat) : ∀ {l : List WifiMpdu} (queued : List Nat),
    (∀ x ∈ l, x.sequenceNumber = x.position % 4096 ∧ start ≤ x.position + 2048 ∧ x.position < start + 2048) →
    ∃ queued', dropOld (start % 4096) l queued = some (l.dropWhile (·.position < start), queued')
  | [], queued, _ => ⟨queued, rfl⟩
  | x :: l, queued, hl => by
    obtain ⟨hseq, hlo, hhi⟩ := hl x mem_cons_self
    rw [dropOld, hseq]
    by_cases hold : x.position < start
    · rw [getDistance_behind hold (by omega), bind_some, if_pos (by omega), dropWhile_cons_of_pos (by simpa using hold)]
      exact dropOld_eq start _ fun y hy => hl y (mem_cons_of_mem _ hy)
    · rw [getDistance_eq (by omega) (by omega), bind_some, if_neg (by omega), dropWhile_cons_of_neg (by simpa using hold)]
      exact ⟨queued, rfl⟩

theorem notifyDiscardedMpdu_eq (hbounds : 0 < size ∧ size ≤ 256) (h : s.agreement.Placed size)
    (hseq : m.sequenceNumber = m.position % 4096) (hlo : s.agreement.start ≤ m.position + 2048)
    (hhi : m.position < s.agreement.start + size)
    (hl : ∀ x ∈ s.inFlight, x.sequenceNumber = x.position % 4096 ∧ s.agreement.start ≤ x.position + size ∧
      x.position < s.agreement.start + size) : m.position < s.agreement.start ∧ s.notifyDiscardedMpdu m = some s ∨
      ∃ a' queued, Moved s.agreement a' size s.agreement.acked (m.position + 1) ∧
        s.notifyDiscardedMpdu m = some ⟨a', s.inFlight.dropWhile (·.position < a'.start), queued⟩ := by
  rcases Nat.lt_or_ge m.position s.agreement.start with hold | hnew
  · obtain ⟨d, hd, hfar⟩ := h.behind hseq hold hlo
    exact .inl ⟨hold, by rw [BlockAckManager.notifyDiscardedMpdu, hd, bind_some, if_pos hfar]⟩
  · obtain ⟨a', hnotify, hmoved⟩ := OriginatorBlockAckAgreement.notifyDiscardedMpdu_eq hbounds h hseq hnew hhi
    have hbound := hmoved.bound
    have hmono := hmoved.mono
    obtain ⟨queued, hdrop⟩ := dropOld_eq a'.start s.queued fun x hx => by
      obtain ⟨hxseq, hxlo, hxhi⟩ := hl x hx
      exact ⟨hxseq, by omega, by omega⟩
    refine .inr ⟨a', queued, hmoved, ?_⟩
    rw [BlockAckManager.notifyDiscardedMpdu, h.distance hseq hnew (by omega), bind_some, if_neg (by omega), hnotify,
      bind_some, hmoved.placed.winStart, hdrop, map_some]

theorem Inv.notifyDiscardedMpdu (hbounds : 0 < size ∧ size ≤ 256) (h : Inv s size)
    (hseq : m.sequenceNumber = m.position % 4096) (hlo : s.agreement.start ≤ m.position + 2048)
    (hhi : m.position < s.agreement.start + size) :
    ∃ s', s.notifyDiscardedMpdu m = some s' ∧ Kept s s' size fun _ => False := by
  obtain ⟨hascending, hnumbered, hwindow, hnotAcked⟩ := h.inFlight
  rcases notifyDiscardedMpdu_eq hbounds h.placed hseq hlo hhi fun x hx =>
    ⟨hnumbered x hx, Nat.le_trans (hwindow x hx).1 (Nat.le_add_right ..), (hwindow x hx).2⟩ with ⟨-, hold⟩ | ⟨a', queued, hmoved, hnew⟩
  · exact ⟨s, hold, h.kept⟩
  · have hsub := dropWhile_sublist (l := s.inFlight) (·.position < a'.start)
    refine ⟨_, hnew, ⟨hmoved.placed, ?_⟩, hmoved.mono, fun p hp => .inl (hmoved.acked ▸ hp)⟩
    refine h.inFlight.moved hmoved hsub (fun x hx => hnotAcked x (hsub.subset hx)) fun x hx => ?_
    have hge := (dropWhile_ascending hascending a'.start).2.2 x hx
    have hle := a'.start_spec.le
    rw [hmoved.passed] at hle
    omega

/-- The first MPDU in flight, just before `HandleInFlightMpdu`. -/
structure Front (s : BlockAckManager) (size : Nat) (mpdu : WifiMpdu) (rest : List WifiMpdu) (acknowledged : Bool) : Prop where
  placed : s.agreement.Placed size
  list : s.inFlight = mpdu :: rest
  first : ∀ x ∈ rest, mpdu.position < x.position
  rest : InFlight s.agreement size rest
  numbered : mpdu.sequenceNumber = mpdu.position % 4096
  near : s.agreement.start ≤ mpdu.position + size
  window : mpdu.position < s.agreement.start + size
  toRetransmit : acknowledged = false → s.agreement.start ≤ mpdu.position

theorem Front.expired (hbounds : 0 < size ∧ size ≤ 256) {acknowledged : Bool}
    (h : Front s size mpdu rest acknowledged) : ∃ s', (s.dequeue mpdu.position).notifyDiscardedMpdu mpdu = some s' ∧
      Kept s { s' with inFlight := rest } size (fun _ => False) ∧ (acknowledged = false → s'.inFlight = rest) := by
  have hl : ∀ x ∈ s.inFlight, x.sequenceNumber = x.position % 4096 ∧ s.agreement.start ≤ x.position + size ∧
      x.position < s.agreement.start + size := by
    rw [h.list]
    refine forall_mem_cons.mpr ⟨⟨h.numbered, h.near, h.window⟩, fun x hx => ?_⟩
    have := h.rest.window x hx
    exact ⟨h.rest.numbered x hx, by omega, this.2⟩
  have hnear := h.near
  rcases notifyDiscardedMpdu_eq (s := s.dequeue mpdu.position) hbounds h.placed h.numbered
    (show s.agreement.start ≤ mpdu.position + 2048 by omega) h.window hl with ⟨hlt, hold⟩ | ⟨a', queued, hmoved, hnew⟩
  · refine ⟨_, hold, ⟨⟨h.placed, h.rest⟩, Nat.le_refl _, fun p hp => .inl hp⟩, fun hnot => ?_⟩
    exact absurd (h.toRetransmit hnot) (Nat.not_le.mpr hlt)
  · have hrest : InFlight a' size rest := h.rest.moved hmoved (Sublist.refl _) h.rest.notAcked h.first
    refine ⟨_, hnew, ⟨⟨hmoved.placed, hrest⟩, hmoved.mono, fun p hp => .inl (hmoved.acked ▸ hp)⟩, fun _ => ?_⟩
    have hgone : mpdu.position < a'.start := by
      have hle := a'.start_spec.le
      rw [hmoved.passed] at hle
      omega
    show (s.dequeue mpdu.position).inFlight.dropWhile _ = rest
    rw [show (s.dequeue mpdu.position).inFlight = mpdu :: rest from h.list, dropWhile_cons_of_pos (by simpa using hgone)]
    cases rest with
    | nil => rfl
    | cons x rest =>
      have hx := (hrest.window x mem_cons_self).1
      exact dropWhile_cons_of_neg (by simpa using hx)

theorem Front.handle (hbounds : 0 < size ∧ size ≤ 256) {acknowledged : Bool}
    (h : Front s size mpdu rest acknowledged) (expired : List Nat) :
    (∀ s', handleInFlightMpdu expired acknowledged s mpdu rest = some s' →
      s'.inFlight = rest ∧ Kept s s' size fun _ => False) ∧
    ((acknowledged = true → mpdu.position ∉ expired) → (handleInFlightMpdu expired acknowledged s mpdu rest).isSome) := by
  have hplain : ∀ queued, Kept s { s with queued := queued, inFlight := rest } size fun _ => False := fun queued =>
    ⟨⟨h.placed, h.rest⟩, Nat.le_refl _, fun p hp => .inl hp⟩
  obtain ⟨s₁, hreport, hkept, hlist⟩ := h.expired hbounds
  rw [handleInFlightMpdu]
  by_cases hqueued : mpdu.position ∈ s.queued
  · rw [if_neg (not_not_intro hqueued)]
    cases acknowledged with
    | true =>
      rw [if_pos rfl]
      by_cases hexpired : mpdu.position ∈ expired
      · rw [if_pos hexpired, hreport, bind_some]
        refine ⟨fun s' hs' => ?_, fun hnot => absurd hexpired (hnot rfl)⟩
        split at hs'
        · cases hs'
          exact ⟨rfl, hkept⟩
        · cases hs'
      · rw [if_neg hexpired]
        refine ⟨fun s' hs' => ?_, fun _ => rfl⟩
        cases hs'
        exact ⟨rfl, hplain _⟩
    | false =>
      have hlo := h.toRetransmit rfl
      have hhi := h.window
      rw [if_neg (by decide), h.placed.distance h.numbered hlo (by omega), bind_some, if_neg (by omega)]
      by_cases hexpired : mpdu.position ∈ expired
      · have hsame : ({ s₁ with inFlight := rest } : BlockAckManager) = s₁ := by
          rw [← hlist rfl]
        rw [if_pos hexpired, hreport, bind_some, if_pos (hlist rfl)]
        refine ⟨fun s' hs' => ?_, fun _ => rfl⟩
        cases hs'
        rw [hsame] at hkept
        exact ⟨hlist rfl, hkept⟩
      · rw [if_neg hexpired]
        refine ⟨fun s' hs' => ?_, fun _ => rfl⟩
        cases hs'
        exact ⟨rfl, hplain _⟩
  · rw [if_pos hqueued]
    refine ⟨fun s' hs' => ?_, fun _ => rfl⟩
    cases hs'
    exact ⟨rfl, hplain _⟩

theorem Inv.front (hbounds : 0 < size ∧ size ≤ 256) (h : Inv s size)
    (hl : s.inFlight = mpdu :: rest) (acknowledged : Bool) :
    ∃ a', (if acknowledged then s.agreement.notifyAckedMpdu mpdu else some s.agreement) = some a' ∧
      Front { s with agreement := a' } size mpdu rest acknowledged ∧ s.agreement.start ≤ a'.start ∧
      ∀ p ∈ a'.acked, p ∈ s.agreement.acked ∨ acknowledged = true ∧ p = mpdu.position := by
  obtain ⟨hascending, hnumbered, hwindow, hnotAcked⟩ := h.inFlight
  rw [hl] at hascending hnumbered hwindow hnotAcked
  obtain ⟨hfirst, hrest⟩ := pairwise_cons.mp hascending
  obtain ⟨hlo, hhi⟩ := hwindow mpdu mem_cons_self
  have hseq := hnumbered mpdu mem_cons_self
  have hsub : rest.Sublist s.inFlight := hl ▸ sublist_cons_self mpdu rest
  cases acknowledged with
  | false =>
    refine ⟨s.agreement, rfl, ⟨h.placed, hl, hfirst, ?_, hseq, ?_, hhi, fun _ => hlo⟩, Nat.le_refl _, fun p hp => .inl hp⟩
    · exact h.inFlight.moved (Moved.refl h.placed) hsub (fun x hx => hnotAcked x (mem_cons_of_mem _ hx)) fun x hx =>
        Nat.le_trans s.agreement.start_spec.le (hwindow x (mem_cons_of_mem _ hx)).1
    · dsimp only
      omega
  | true =>
    obtain ⟨a', hnotify, hmoved⟩ := notifyAckedMpdu_eq hbounds h.placed hseq hlo hhi
    have hmono := hmoved.mono
    have hbound := hmoved.bound
    have hpassed := s.agreement.start_spec.le
    refine ⟨a', hnotify, ⟨hmoved.placed, hl, hfirst, ?_, hseq, ?_, ?_, fun hnot => by cases hnot⟩, hmono, fun p hp => ?_⟩
    · refine h.inFlight.moved hmoved hsub (fun x hx hmem => ?_) fun x hx => ?_
      · rcases mem_cons.mp hmem with heq | hmem
        · exact absurd (hfirst x hx) (by omega)
        · exact hnotAcked x (mem_cons_of_mem _ hx) hmem
      · exact Nat.le_trans hpassed (hwindow x (mem_cons_of_mem _ hx)).1
    · dsimp only
      omega
    · dsimp only
      omega
    · rw [hmoved.acked] at hp
      rcases mem_cons.mp hp with rfl | hp
      · exact .inr ⟨rfl, rfl⟩
      · exact .inl hp

theorem Inv.sweep (hbounds : 0 < size ∧ size ≤ 256) (received : WifiMpdu → Option Bool) (expired : List Nat) :
    ∀ {l : List WifiMpdu} {s : BlockAckManager}, Inv s size → s.inFlight = l →
      (∀ s', sweep received expired l s = some s' →
        Kept s s' size fun p => ∃ x ∈ l, x.position = p ∧ received x = some true) ∧
      ((∀ x ∈ l, (received x).isSome ∧ (x.position ∈ expired → received x ≠ some true)) →
        (sweep received expired l s).isSome)
  | [], s, h, _ => by
    refine ⟨fun s' hs' => ?_, fun _ => rfl⟩
    cases hs'
    exact h.kept
  | mpdu :: rest, s, h, hl => by
    cases hreceived : received mpdu with
    | none =>
      have hnone : BlockAckManager.sweep received expired (mpdu :: rest) s = none := by
        rw [BlockAckManager.sweep, hreceived, bind_none]
      refine ⟨fun s' hs' => ?_, fun hall => ?_⟩
      · rw [hnone] at hs'
        cases hs'
      · have := (hall mpdu mem_cons_self).1
        rw [hreceived] at this
        cases this
    | some acknowledged =>
      obtain ⟨a', hnotify, hfront, hmono, hacked⟩ := h.front hbounds hl acknowledged
      obtain ⟨hsound, hdefined⟩ := hfront.handle hbounds expired
      rw [BlockAckManager.sweep, hreceived, bind_some, hnotify, bind_some]
      constructor
      · intro s' hs'
        obtain ⟨s₁, hhandle, hsweep⟩ := bind_eq_some_iff.mp hs'
        obtain ⟨hlist, hkept⟩ := hsound s₁ hhandle
        have hkept' := (Inv.sweep hbounds received expired hkept.inv hlist).1 s' hsweep
        refine ⟨hkept'.inv, Nat.le_trans hmono (Nat.le_trans hkept.mono hkept'.mono), fun p hp => ?_⟩
        rcases hkept'.acked p hp with hp | ⟨x, hx, hxp⟩
        · rcases hkept.acked p hp with hp | hp
          · rcases hacked p hp with hp | ⟨rfl, rfl⟩
            · exact .inl hp
            · exact .inr ⟨mpdu, mem_cons_self, rfl, hreceived⟩
          · exact hp.elim
        · exact .inr ⟨x, mem_cons_of_mem _ hx, hxp⟩
      · intro hall
        have hfresh : acknowledged = true → mpdu.position ∉ expired := by
          rintro rfl hexpired
          exact (hall mpdu mem_cons_self).2 hexpired hreceived
        obtain ⟨s₁, hhandle⟩ := isSome_iff_exists.mp (hdefined hfresh)
        obtain ⟨hlist, hkept⟩ := hsound s₁ hhandle
        rw [hhandle, bind_some]
        exact (Inv.sweep hbounds received expired hkept.inv hlist).2 fun x hx => hall x (mem_cons_of_mem _ hx)

end

end BlockAckManager

end Ns3
