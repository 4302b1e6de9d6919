import Ns3.Rlc.UmReceiver

/-!
# Delivery as soon as it is possible

After a step the PDU that `VR(UR)` stands for is not in the buffer, unless the
buffered numbers go on from `VR(UR)` to 1023 and then at 0: `DoReceivePdu` counts
up to 1024, where it finds nothing, and sets `VR(UR)` to 0. An expiry of the
timer counts with the class of the numbers and has no such case.
-/

namespace Ns3

open SequenceNumber10

namespace LteRlcUmRx

/-- `VR(UR)` stands for a PDU that has not been received. -/
def Delivered (r : LteRlcUmRx) : Prop := r.received r.vrUr.value = false

/-- `VR(UR)` when the window was moved for a PDU with number `x`. -/
def edge (r : LteRlcUmRx) (x : Nat) : Nat :=
  if inWindow r.vrUh.value x then r.vrUr.value
  else if inWindow ((x + 1) % 1024) r.vrUr.value then r.vrUr.value
  else (x + 513) % 1024

/-- With a PDU with number `x` the buffer has all numbers from `VR(UR)` to 1023, and
0 too, which does not fall out of the window. -/
structure WrapsRound (r : LteRlcUmRx) (x : Nat) : Prop where
  run : ∀ k, r.edge x ≤ k → k < 1024 → k = x ∨ r.received k = true
  zero : 0 = x ∨ r.received 0 = true
  kept : inWindow r.vrUh.value x = true ∨ inWindow ((x + 1) % 1024) 0 = true

/-- The step does not lead round from 1023 to a buffered 0. -/
def EndsBeforeWrap (r : LteRlcUmRx) : UmReceiverEvent → Prop
  | .arrive p => ∀ rlcHeader, LteRlcHeader.deserialize p = some rlcHeader →
      r.Discards rlcHeader.sequenceNumber ∨ ¬ r.WrapsRound rlcHeader.sequenceNumber.value
  | .expire => True

section
variable {r r' r₁ r₂ : LteRlcUmRx} {o : List Bytes} {p : Bytes} {sn : SequenceNumber10}

/-! ## The buffer with 0 in it -/

theorem entries_zero (h : r.received 0 = true) : ∃ b es, r.rxBuffer.entries = (0, b) :: es := by
  obtain ⟨b, hb⟩ := Option.isSome_iff_exists.mp h
  obtain ⟨es, hes⟩ := OrdMap.entries_of_least _ hb fun e _ => Nat.zero_le e.1
  exact ⟨b, es, hes⟩

theorem flush_none {q : Nat × Bytes → Bool} (h : r.received 0 = true) (hq : ∀ b, q (0, b) = false) :
    r.rxBuffer.entries.dropWhile q = r.rxBuffer.entries := by
  obtain ⟨b, es, hes⟩ := entries_zero h
  rw [hes, List.dropWhile_cons_of_neg (by simp [hq b])]

theorem flush_zero {q : Nat × Bytes → Bool} (hq : ∀ b, q (0, b) = true)
    (hm : r'.rxBuffer.entries = r.rxBuffer.entries.dropWhile q) : r'.received 0 = false := by
  cases hzero : r'.received 0 with
  | false => rfl
  | true =>
    obtain ⟨b, es, hes⟩ := entries_zero (received_of_dropWhile hm hzero)
    obtain ⟨b', hb'⟩ := received_iff.mp hzero
    have hsorted := r.rxBuffer.sorted
    rw [hes] at hsorted
    rw [hm, hes, List.dropWhile_cons_of_pos (hq b)] at hb'
    have := (List.pairwise_cons.mp hsorted).1 _ ((List.dropWhile_suffix _).subset hb')
    exact absurd this (Nat.lt_irrefl 0)

theorem moveWindow_edge (hr : r.InRange) (hs : sn.value < 1024) (h : r.moveWindow sn = some (r', o)) :
    r'.vrUr.value = r.edge sn.value := by
  obtain ⟨v, m, ra, -, -, -, -, -, hcase⟩ := moveWindow_inv hr hs h
  unfold edge
  by_cases hin : inWindow r.vrUh.value sn.value = true
  · rw [if_pos hin] at hcase ⊢
    rw [hcase.2.2]
  · rw [if_neg hin] at hcase ⊢
    rw [hcase.2.2]
    split <;> rfl

theorem moveWindow_sub (hr : r.InRange) (hs : sn.value < 1024) (h : r.moveWindow sn = some (r', o)) {k : Nat}
    (hk : r'.received k = true) : r.received k = true := by
  obtain ⟨v, m, ra, rfl, -, -, -, -, hcase⟩ := moveWindow_inv hr hs h
  by_cases hin : inWindow r.vrUh.value sn.value = true
  · rw [if_pos hin] at hcase
    rw [received, ← hcase.2.1]
    exact hk
  · rw [if_neg hin] at hcase
    exact received_of_dropWhile hcase.2.1 hk

theorem moveWindow_keeps (hr : r.InRange) (hs : sn.value < 1024) (h : r.moveWindow sn = some (r', o))
    (hzero : r.received 0 = true)
    (hkept : inWindow r.vrUh.value sn.value = true ∨ inWindow ((sn.value + 1) % 1024) 0 = true) :
    r'.rxBuffer.entries = r.rxBuffer.entries := by
  obtain ⟨v, m, ra, rfl, -, -, -, -, hcase⟩ := moveWindow_inv hr hs h
  by_cases hin : inWindow r.vrUh.value sn.value = true
  · rw [if_pos hin] at hcase
    rw [hcase.2.1]
  · rw [if_neg hin] at hcase
    rcases hkept with hkept | hkept
    · exact absurd hkept hin
    · rw [hcase.2.1]
      exact flush_none hzero (by simp [hkept])

theorem moveWindow_zero (hr : r.InRange) (hs : sn.value < 1024) (h : r.moveWindow sn = some (r', o))
    (hzero : r'.received 0 = true) :
    inWindow r.vrUh.value sn.value = true ∨ inWindow ((sn.value + 1) % 1024) 0 = true := by
  obtain ⟨v, m, ra, rfl, -, -, -, -, hcase⟩ := moveWindow_inv hr hs h
  by_cases hin : inWindow r.vrUh.value sn.value = true
  · exact .inl hin
  · rw [if_neg hin] at hcase
    right
    by_contra hout
    rw [flush_zero (by simpa using hout) hcase.2.1] at hzero
    cases hzero

/-! ## The run of buffered numbers -/

theorem advanceVrUr_delivered (hr : r.InRange) (h : r.advanceVrUr = some (r', o)) :
    r'.Delivered ↔ ¬ ((∀ k, r.vrUr.value ≤ k → k < 1024 → r.received k = true) ∧ r.received 0 = true) := by
  rcases advanceVrUr_inv hr h with ⟨hnot, rfl⟩ | ⟨hhas, w, hlt, hle, hw, hrun, hint⟩
  · constructor
    · intro _ hall
      have := hall.1 r'.vrUr.value (Nat.le_refl _) hr.vrUr
      rw [hnot] at this
      cases this
    · exact fun _ => hnot
  · obtain ⟨hshrinks, hend⟩ := reassembleSnInterval_inv _ _ _ hint
    have hvrUr : r'.vrUr.value = w % 1024 := by
      obtain ⟨m, ra, rfl, -⟩ := hshrinks
      rfl
    rcases Nat.lt_or_ge w 1024 with hless | hge
    · constructor
      · intro _ hall
        have := hall.1 w (by omega) hless
        rw [hw] at this
        cases this
      · intro _
        unfold Delivered
        rw [hvrUr, Nat.mod_eq_of_lt hless]
        cases hrec : r'.received w with
        | false => rfl
        | true =>
          have hold : r.received w = true := hshrinks.received hrec
          rw [hw] at hold
          cases hold
    · obtain rfl : w = 1024 := by omega
      have hzero : r'.received 0 = r.received 0 := hend
      unfold Delivered
      rw [hvrUr, hzero]
      constructor
      · intro hnone hall
        rw [hnone] at hall
        cases hall.2
      · intro hnot
        cases hz : r.received 0 with
        | false => rfl
        | true => exact absurd ⟨hrun, hz⟩ hnot

theorem delivered_iff (hr : r.InRange) (hdel : r.Delivered) (h : r.doReceivePdu p = some (r', o)) :
    r'.Delivered ↔ r.EndsBeforeWrap (.arrive p) := by
  obtain ⟨rlcHeader, hd, hcase⟩ := doReceivePdu_inv h
  have hx := deserialize_value_lt hd
  have hends : r.EndsBeforeWrap (.arrive p) ↔
      (r.Discards rlcHeader.sequenceNumber ∨ ¬ r.WrapsRound rlcHeader.sequenceNumber.value) := by
    constructor
    · exact fun hall => hall rlcHeader hd
    · intro hone rlcHeader' hd'
      cases hd.symm.trans hd'
      exact hone
  rw [hends]
  rcases hcase with ⟨hdis, rfl⟩ | ⟨hdis, r₁, r₂, o₁, o₂, hmove, hadv, htimer⟩
  · exact ⟨fun _ => .inl hdis, fun _ => hdel⟩
  · have hplaced := hr.placed hx p
    have hsn : (rlcHeader.sequenceNumber.setModulusBase (r.vrUh.sub windowSize)).value < 1024 := hx
    have hmoved : r₁.InRange := hplaced.moveWindow hsn hmove
    obtain ⟨hvrUr, -, hbuffer, -⟩ := updateReorderingTimer_inv (hmoved.advanceVrUr hadv) htimer
    have hsame : r'.Delivered ↔ r₂.Delivered := by
      unfold Delivered received
      rw [hvrUr, hbuffer]
    have hedge := moveWindow_edge hplaced hsn hmove
    change r₁.vrUr.value = r.edge rlcHeader.sequenceNumber.value at hedge
    rw [hsame, advanceVrUr_delivered hmoved hadv, hedge, or_iff_right hdis]
    refine not_congr ⟨fun hround => ?_, fun hround => ?_⟩
    · obtain ⟨hrun, hzero⟩ := hround
      have hkept := moveWindow_zero hplaced hsn hmove hzero
      exact ⟨fun k hk hk' => received_placed.mp (moveWindow_sub hplaced hsn hmove (hrun k hk hk')),
        received_placed.mp (moveWindow_sub hplaced hsn hmove hzero), hkept⟩
    · have hkeeps := moveWindow_keeps hplaced hsn hmove (received_placed.mpr hround.zero) hround.kept
      have hback : ∀ k, (k = rlcHeader.sequenceNumber.value ∨ r.received k = true) → r₁.received k = true := by
        intro k hk
        obtain ⟨b, hb⟩ := received_iff.mp (received_placed.mpr hk)
        exact received_iff.mpr ⟨b, hkeeps ▸ hb⟩
      exact ⟨fun k hk hk' => hback k (hround.run k hk hk'), hback 0 hround.zero⟩

theorem delivered_expire (h : r.expireReorderingTimer = some (r', o)) : r'.Delivered := by
  obtain ⟨newVrUr, r₁, hnot, -, hint, hstart⟩ := expireReorderingTimer_inv (motive := fun _ => True) trivial
    (fun _ _ _ => trivial) h
  obtain ⟨hshrinks, hend⟩ := reassembleSnInterval_inv _ _ _ hint
  obtain ⟨hvrUr, -, hbuffer, -⟩ := startReorderingTimer_inv hstart
  have hvalue : r'.vrUr = newVrUr := by
    obtain ⟨m, ra, rfl, -⟩ := hshrinks
    exact hvrUr
  unfold Delivered received
  rw [hvalue, hbuffer]
  exact hend.trans hnot

/-! ## Runs -/

/-- `VR(UR)` has not been received, unless the numbers buffered wrap round. -/
theorem delivered_of_run {tr : List (UmReceiverEvent × List Bytes)} (h : machine.Run EndsBeforeWrap {} tr r) :
    r.InRange ∧ r.Delivered := by
  refine h.invariant (fun _ r => r.InRange ∧ r.Delivered) ⟨inRange_init, rfl⟩ ?_
  intro _ r e r' o hinv hends hs
  obtain ⟨hr, hdel⟩ := hinv
  refine ⟨hr.step hs, ?_⟩
  cases e with
  | arrive p => exact (delivered_iff hr hdel hs).mpr hends
  | expire =>
    change (if r.reorderingTimer then r.expireReorderingTimer else none) = some (r', o) at hs
    split at hs
    · exact delivered_expire hs
    · cases hs

/-- **PDUs are delivered as soon as possible** while no run of numbers goes round,
and only then. -/
theorem vrUr_not_received {tr : List (UmReceiverEvent × List Bytes)} (h : machine.Run EndsBeforeWrap {} tr r) :
    r.Delivered ∧ ∀ p r' o, r.doReceivePdu p = some (r', o) → (r'.Delivered ↔ r.EndsBeforeWrap (.arrive p)) := by
  obtain ⟨hr, hdel⟩ := delivered_of_run h
  exact ⟨hdel, fun p r' o hs => delivered_iff hr hdel hs⟩

end

def singlePdu (sn : Nat) : Bytes := [UInt8.ofNat (sn / 256), UInt8.ofNat sn, 7]

instance (r : LteRlcUmRx) (x : Nat) : Decidable (r.WrapsRound x) :=
  decidable_of_iff ((∀ k < 1024, r.edge x ≤ k → k = x ∨ r.received k = true) ∧ _ ∧ _)
    ⟨fun h => ⟨fun k hle hlt => h.1 k hlt hle, h.2.1, h.2.2⟩, fun h => ⟨fun k hlt hle => h.run k hle hlt, h.zero, h.kept⟩⟩

instance (r : LteRlcUmRx) (seqNumber : SequenceNumber10) : Decidable (r.Discards seqNumber) :=
  inferInstanceAs (Decidable (_ = _))

instance (r : LteRlcUmRx) : (e : UmReceiverEvent) → Decidable (r.EndsBeforeWrap e)
  | .arrive p => inferInstanceAs (Decidable (∀ rlcHeader ∈ LteRlcHeader.deserialize p,
      r.Discards rlcHeader.sequenceNumber ∨ ¬ r.WrapsRound rlcHeader.sequenceNumber.value))
  | .expire => .isTrue trivial

/-- `VR(UR)` and `VR(UH)` come to 1023 by an expiry, and 0 is buffered before 1023 arrives. -/
def zeroBuffered : List UmReceiverEvent :=
  [.arrive (singlePdu 500), .arrive (singlePdu 1000), .arrive (singlePdu 1022), .expire, .arrive (singlePdu 0)]

theorem zeroBuffered_waits : ((machine.exec EndsBeforeWrap {} zeroBuffered).any fun s =>
    decide (Machine.outputs s.1 = [[7], [7], [7]] ∧ s.2.received 0 = true ∧
      ((s.2.doReceivePdu (singlePdu 5)).isSome = true ∧ s.2.EndsBeforeWrap (.arrive (singlePdu 5))) ∧
        (s.2.doReceivePdu (singlePdu 1023)).isSome = true ∧ ¬ s.2.EndsBeforeWrap (.arrive (singlePdu 1023)))) = true := by
  decide +kernel

theorem vrUr_not_received_buffered : ∃ tr r, machine.Run EndsBeforeWrap {} tr r ∧ Machine.outputs tr = [[7], [7], [7]] ∧
    r.received 0 = true ∧ r.Delivered ∧ (∃ r' o, r.doReceivePdu (singlePdu 5) = some (r', o) ∧ r'.Delivered) ∧
      ∃ r' o, r.doReceivePdu (singlePdu 1023) = some (r', o) ∧ ¬ r'.Delivered := by
  obtain ⟨tr, r, hrun, hwaits⟩ := Machine.run_of_any machine EndsBeforeWrap zeroBuffered_waits
  obtain ⟨hout, hzero, ⟨hfive, hends⟩, hlast, hwraps⟩ := of_decide_eq_true hwaits
  obtain ⟨hdel, hiff⟩ := vrUr_not_received hrun
  obtain ⟨s, hs⟩ := Option.isSome_iff_exists.mp hfive
  obtain ⟨s', hs'⟩ := Option.isSome_iff_exists.mp hlast
  refine ⟨tr, r, hrun, hout, hzero, hdel, ⟨_, _, hs, (hiff _ _ _ hs).mpr hends⟩, _, _, hs', fun h => ?_⟩
  -- the numbers go round from 1023 to 0
  exact hwraps ((hiff _ _ _ hs').mp h)

/-- The window moves on until `VR(UR)` and `VR(UH)` are 1023; then 0 comes before 1023. -/
def zeroBeforeLast : List UmReceiverEvent :=
  [.arrive (singlePdu 500), .arrive (singlePdu 1000), .arrive (singlePdu 1022), .expire, .arrive (singlePdu 0),
    .arrive (singlePdu 1023)]

theorem zeroBeforeLast_received : ((machine.exec Machine.anyStep {} zeroBeforeLast).any fun s => s.2.received s.2.vrUr.value) = true := by
  decide +kernel

/-- **0 stays behind** when 1023 comes after it. -/
theorem zero_not_delivered : ∃ tr r, machine.Run Machine.anyStep {} tr r ∧ ¬ r.Delivered := by
  obtain ⟨tr, r, hrun, hreceived⟩ := Machine.run_of_any machine Machine.anyStep zeroBeforeLast_received
  refine ⟨tr, r, hrun, fun hdel => ?_⟩
  rw [Delivered, hreceived] at hdel
  cases hdel

end LteRlcUmRx

end Ns3
