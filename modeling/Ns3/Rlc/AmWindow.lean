import Ns3.Rlc.AmRxSound

/-!
# The invariant of the receiving side in acknowledged mode

`Collects P r R MS H X` ties the state of a receiving side to the indices of
its registers. A data PDU whose number stands for an index in the window keeps
it, and so do one whose number is outside, and an expiry of the timer.
-/

namespace Ns3

namespace LteRlcAmRx

open SequenceNumber10

structure Collects (P : Nat → AmPacket → Prop) (r : LteRlcAmRx) (R MS H X : Nat) : Prop where
  vrR : r.vrR = ofIndex R R
  vrMr : r.vrMr = ofIndex (R + 512) R
  vrMs : r.vrMs = ofIndex MS R
  vrH : r.vrH = ofIndex H R
  vrX : r.vrX = ofIndex X R
  lower : R ≤ MS
  middle : MS ≤ H
  upper : H ≤ R + 512
  keys : Buffered 1024 (Entry P) r.rxonBuffer R H
  missing : r.rxonBuffer.find (R % 1024) = none
  missingMs : r.rxonBuffer.find (MS % 1024) = none
  timer : r.reorderingTimer = true → R < X ∧ X ≤ H
  ready : r.reassembly.Ready R

/-- The PDU with index `j` was received: handed on, or buffered. -/
def Got (r : LteRlcAmRx) (R j : Nat) : Prop := j < R ∨ (j < R + 1024 ∧ Has 1024 r.rxonBuffer j)

theorem collects_init (P : Nat → AmPacket → Prop) : Collects P {} 0 0 0 0 where
  vrR := rfl
  vrMr := rfl
  vrMs := rfl
  vrH := rfl
  vrX := rfl
  lower := Nat.le_refl 0
  middle := Nat.le_refl 0
  upper := Nat.zero_le _
  keys := by
    intro k b h
    cases h
  missing := rfl
  missingMs := rfl
  timer := by
    intro h
    cases h
  ready := ⟨rfl, nofun⟩

section
variable {P : Nat → AmPacket → Prop} {r : LteRlcAmRx} {R MS H X i : Nat} {p : AmPacket}

theorem Collects.mono (h : Collects P r R MS H X) (P' : Nat → AmPacket → Prop) (hP : ∀ i p, P i p → P' i p) :
    Collects P' r R MS H X :=
  { h with
    keys := h.keys.mono fun i _ hb => by
      obtain ⟨p, hb, hp, hPp⟩ := hb
      exact ⟨p, hb, hp, hP i p hPp⟩ }

theorem Collects.status (h : Collects P r R MS H X) (requested : Bool) (size : Nat) (prohibit : Bool) :
    Collects P { r with
      statusPduRequested := requested, statusPduBufferSize := size, statusProhibitTimer := prohibit } R MS H X :=
  ⟨h.vrR, h.vrMr, h.vrMs, h.vrH, h.vrX, h.lower, h.middle, h.upper, h.keys, h.missing, h.missingMs, h.timer, h.ready⟩

theorem find_beyond {m : OrdMap Nat PduBuffer} (h : Buffered 1024 (Entry P) m R H) (hH : H ≤ R + 1024) {j : Nat}
    (hRj : R ≤ j) (hHj : H ≤ j) (hj : j < R + 1024) : m.find (j % 1024) = none := by
  cases hf : m.find (j % 1024) with
  | none => rfl
  | some b =>
    have := (h.lookup hRj hj hH hf).1
    omega

theorem placePdu_eq (hbuf : Buffered 1024 (Entry P) r.rxonBuffer R H) (hH : H ≤ R + 512) (hp : p.IsData i)
    (hP : P i p) (hi : R ≤ i) (hi' : i < R + 512) : ∃ m, r.placePdu (i % 1024) p = some { r with rxonBuffer := m } ∧
      Buffered 1024 (Entry P) m R (max H (i + 1)) ∧
      ∀ j, R ≤ j → j < R + 1024 → (Has 1024 m j ↔ Has 1024 r.rxonBuffer j ∨ j = i) := by
  unfold placePdu
  cases hf : r.rxonBuffer.find (i % 1024) with
  | some b =>
    obtain ⟨hiH, q, rfl, -⟩ := hbuf.lookup hi (by omega) (by omega) hf
    refine ⟨r.rxonBuffer, rfl, ?_, fun j hj hj' => ⟨.inl, ?_⟩⟩
    · rw [show max H (i + 1) = H by omega]
      exact hbuf
    · rintro (h | rfl)
      · exact h
      · simp [Has, hf]
  | none =>
    refine ⟨_, rfl, hbuf.insert _ hi (by omega) (by omega) ⟨p, rfl, hp, hP⟩, fun j hj hj' => ?_⟩
    unfold Has
    rw [OrdMap.find_insert]
    split
    · rename_i hk
      have := eq_of_mod_eq hj hj' hi (by omega) hk
      simp [this]
    · rename_i hk
      have hne : j ≠ i := by
        rintro rfl
        exact hk rfl
      simp [hne]

theorem advanceVrMs_eq (hbuf : Buffered 1024 (Entry P) r.rxonBuffer R H) (hMs : r.vrMs = ofIndex MS R)
    (hlo : R ≤ MS) (hmid : MS ≤ H) (hH : H ≤ R + 512) :
    ∃ MS', r.advanceVrMs = some { r with vrMs := ofIndex MS' R } ∧ MS ≤ MS' ∧ MS' ≤ H ∧
      r.rxonBuffer.find (MS' % 1024) = none := by
  have hend : r.received (H % 1024) = false := by
    rw [received_eq hbuf, find_beyond hbuf (by omega) (by omega) (Nat.le_refl H) (by omega)]
    rfl
  obtain ⟨MS', hrun, hle, hle', hmiss⟩ :=
    firstMissing_eq R hend (show H < MS + 1024 by omega) 1025 MS (Nat.le_refl MS) hmid (by omega)
  refine ⟨MS', ?_, hle, hle', by simpa [received_eq hbuf] using hmiss⟩
  rw [advanceVrMs, hMs, ofIndex_value, hrun]

theorem advanceVrR_eq (hR : r.vrR = ofIndex R R) (hMr : r.vrMr = ofIndex (R + 512) R) (hMs : r.vrMs = ofIndex MS R)
    (hH : r.vrH = ofIndex H R) (hX : r.vrX = ofIndex X R) (hlo : R ≤ MS) (hmid : MS ≤ H) (hup : H ≤ R + 512)
    (hbuf : Buffered 1024 (Entry P) r.rxonBuffer R H) (hmiss : r.rxonBuffer.find (MS % 1024) = none)
    (hready : r.reassembly.Ready R) (hi : R ≤ i) (hi' : i < R + 512) (hhas : Has 1024 r.rxonBuffer i)
    (hother : i ≠ R → r.rxonBuffer.find (R % 1024) = none) : ∃ m ra out R', r.advanceVrR (ofIndex i R) = some ({ r with
        rxonBuffer := m, reassembly := ra, vrR := ofIndex R' R', vrMr := ofIndex (R' + 512) R', vrX := ofIndex X R'
        vrMs := ofIndex MS R', vrH := ofIndex H R' }, out) ∧
      R ≤ R' ∧ R' ≤ MS ∧ R' = R + out.length ∧ Cleared 1024 r.rxonBuffer m R R' ∧ m.find (R' % 1024) = none ∧
      ra.Ready R' ∧ Passed P R out ∧ ∀ j, R ≤ j → j < R' → Has 1024 r.rxonBuffer j := by
  unfold advanceVrR
  rw [hR, eq_ofIndex hi (by omega) (Nat.le_refl R) (by omega)]
  by_cases hiR : i = R
  · subst hiR
    have hrec : r.received (i % 1024) = true := by rw [received_eq hbuf]; exact hhas
    obtain ⟨m, ra, out, R', hrun, hle, hle', hlen, hclear, hnone, hready', hpass, hgot⟩ :=
      deliverInSequence_eq (show MS < i + 1024 by omega) (show H ≤ i + 1024 by omega) 1025 r i (Nat.le_refl i) hlo
        (by omega) hR hX hMs hH hbuf hmiss hready
    refine ⟨m, ra, out, R', ?_, hle, hle', hlen, hclear, hnone, hready', hpass, hgot⟩
    simp [hrec, hrun, LteRlcAm.windowSize]
  · refine ⟨r.rxonBuffer, r.reassembly, [], R, ?_, Nat.le_refl R, hlo, rfl, Cleared.refl _ R, hother hiR, hready,
      .nil R, by omega⟩
    simp only [hiR, decide_false, Bool.false_and, Bool.false_eq_true, if_false]
    rw [← hR, ← hMr, ← hX, ← hMs, ← hH]

theorem updateReorderingTimer_eq (hR : r.vrR = ofIndex R R) (hMr : r.vrMr = ofIndex (R + 512) R)
    (hH : r.vrH = ofIndex H R) (hX : r.vrX = ofIndex X R) (hle : R ≤ H) (hup : H ≤ R + 512)
    (hrun : r.reorderingTimer = true → R < X + 512 ∧ X ≤ H) :
    ∃ t X', r.updateReorderingTimer = some { r with reorderingTimer := t, vrX := ofIndex X' R } ∧
      (t = true → R < X' ∧ X' ≤ H) := by
  have hstop := stopReorderingTimer_eq hR hMr hX fun h => by have := hrun h; omega
  have hstart := startReorderingTimer_eq (r := { r with reorderingTimer := r.reorderingTimer && decide (R < X) }) hH hup
    (Nat.le_refl R) hle
  rw [← hR] at hstart
  unfold updateReorderingTimer
  rw [hstop]
  dsimp only
  rw [hstart]
  split
  · rename_i hstart
    exact ⟨true, H, by rw [← hH], fun _ => ⟨hstart.2, Nat.le_refl H⟩⟩
  · refine ⟨r.reorderingTimer && decide (R < X), X, by rw [← hX], fun h => ?_⟩
    obtain ⟨htimer, hRX⟩ := Bool.and_eq_true_iff.mp h
    exact ⟨of_decide_eq_true hRX, (hrun htimer).2⟩

theorem Collects.afterPlacing (h : Collects P r R MS H X) {m : OrdMap Nat PduBuffer}
    (hbuf : Buffered 1024 (Entry P) m R (max H (i + 1))) (hi : R ≤ i) (hi' : i < R + 512)
    (hhas : ∀ j, R ≤ j → j < R + 1024 → (Has 1024 m j ↔ Has 1024 r.rxonBuffer j ∨ j = i)) :
    ∃ r' out MS' X', { r with rxonBuffer := m }.afterPlacing (ofIndex i R) = some (r', out) ∧
      Collects P r' (R + out.length) MS' (max H (i + 1)) X' ∧ Passed P R out ∧
      ∀ j, r'.Got (R + out.length) j ↔ r.Got R j ∨ j = i := by
  have hlo := h.lower
  have hmid := h.middle
  have hup := h.upper
  have hvrH := updateVrH_eq (r := { r with rxonBuffer := m }) h.vrH (by omega) hup hi hi'
  obtain ⟨MS', hvrMs, hMS, hMS', hmiss⟩ := advanceVrMs_eq
    (r := { r with rxonBuffer := m, vrH := ofIndex (max H (i + 1)) R }) hbuf h.vrMs hlo (by omega) (by omega)
  have hother : i ≠ R → m.find (R % 1024) = none := by
    intro hne
    have hnot : ¬ Has 1024 m R := by
      rw [hhas R (Nat.le_refl R) (by omega)]
      simp [Has, h.missing, hne.symm]
    simpa [Has] using hnot
  obtain ⟨m', ra, out, R', hvrR, hR', hR'MS, hlen, hclear, hnone, hready, hpass, hgot⟩ := advanceVrR_eq
    (r := { r with rxonBuffer := m, vrH := ofIndex (max H (i + 1)) R, vrMs := ofIndex MS' R }) h.vrR h.vrMr rfl rfl
    h.vrX (by omega) hMS' (by omega) hbuf hmiss h.ready hi hi' ((hhas i hi (by omega)).mpr (.inr rfl)) hother
  obtain ⟨t, X', htimer, hX'⟩ := updateReorderingTimer_eq (r := { r with
      rxonBuffer := m', reassembly := ra, vrR := ofIndex R' R', vrMr := ofIndex (R' + 512) R', vrX := ofIndex X R'
      vrMs := ofIndex MS' R', vrH := ofIndex (max H (i + 1)) R' }) rfl rfl rfl rfl (by lia) (by lia)
    (fun hrun => by have := h.timer hrun; lia)
  subst hlen
  have hrun : { r with rxonBuffer := m }.afterPlacing (ofIndex i R) = some ({ r with
      rxonBuffer := m', reassembly := ra, vrR := ofIndex (R + out.length) (R + out.length)
      vrMr := ofIndex (R + out.length + 512) (R + out.length), vrX := ofIndex X' (R + out.length)
      vrMs := ofIndex MS' (R + out.length), vrH := ofIndex (max H (i + 1)) (R + out.length)
      reorderingTimer := t }, out) := by
    unfold LteRlcAmRx.afterPlacing
    rw [hvrH]
    dsimp only
    rw [hvrMs]
    dsimp only
    rw [hvrR]
    dsimp only
    rw [htimer]
  refine ⟨_, out, MS', X', hrun, ⟨rfl, rfl, rfl, rfl, rfl, hR'MS, hMS', by omega, hclear.buffered hbuf, hnone, ?_, hX',
    hready⟩, hpass, fun j => ?_⟩
  · rw [hclear.kept_at (by omega) (by omega)]
    exact hmiss
  · -- what was taken out of the buffer was in it, and the rest still is
    unfold Got
    rcases Nat.lt_or_ge j R with hjR | hjR
    · exact ⟨fun _ => .inl (.inl hjR), fun _ => .inl (by omega)⟩
    · rcases Nat.lt_or_ge j (R + out.length) with hjR' | hjR'
      · have := (hhas j hjR (by omega)).mp (hgot j hjR hjR')
        refine ⟨fun _ => ?_, fun _ => .inl hjR'⟩
        exact this.imp (fun hj => .inr ⟨by omega, hj⟩) id
      · have hbig : ∀ j, R + 1024 ≤ j → j < R + out.length + 1024 → ¬ Has 1024 m' j := by
          intro j hj hj'
          have := find_beyond (hclear.buffered hbuf) (by omega) (show R + out.length ≤ j by omega) (by omega) hj'
          simp [Has, this]
        have hkept : j < R + 1024 → (Has 1024 m' j ↔ Has 1024 m j) := by
          intro hj
          unfold Has
          rw [hclear.kept_at hjR' hj]
        constructor
        · rintro (hj | ⟨hj, hjm⟩)
          · omega
          · rcases Nat.lt_or_ge j (R + 1024) with hlt | hge
            · exact ((hhas j hjR hlt).mp ((hkept hlt).mp hjm)).imp (fun hj => .inr ⟨hlt, hj⟩) id
            · exact absurd hjm (hbig j hge hj)
        · rintro ((hj | ⟨hj, hjm⟩) | rfl)
          · omega
          · exact .inr ⟨by omega, (hkept hj).mpr ((hhas j hjR hj).mpr (.inl hjm))⟩
          · exact .inr ⟨by omega, (hkept (by omega)).mpr ((hhas j hjR (by omega)).mpr (.inr rfl))⟩

/-- **Reception.** A data PDU whose number, counted from `VR(R)` on, stands for
the index `i`: it is received if `i` is in the window, and otherwise discarded. -/
theorem Collects.receive (h : Collects P r R MS H X) (hp : p.IsData i) (hP : i < R + 512 → P i p) (hi : R ≤ i)
    (hi' : i < R + 1024) :
    ∃ r' out MS' H' X', r.receiveData p = some (r', out) ∧ Collects P r' (R + out.length) MS' H' X' ∧
      Passed P R out ∧ H' = (if i < R + 512 then max H (i + 1) else H) ∧
      ∀ j, r'.Got (R + out.length) j ↔ r.Got R j ∨ j = i ∧ i < R + 512 := by
  have hseq : p.header.sequenceNumber.setModulusBase r.vrR = ofIndex i R := by
    simp [setModulusBase, h.vrR, hp.2.1, ofIndex]
  -- a poll only asks for a STATUS PDU
  obtain ⟨r₀, hr₀, h₀, hsame⟩ : ∃ r₀ : LteRlcAmRx,
      r₀ = (if p.header.pollingBit = LteRlcAmHeader.STATUS_REPORT_IS_REQUESTED then
        { r with statusPduRequested := true, statusPduBufferSize := 4 } else r) ∧
      Collects P r₀ R MS H X ∧ r₀.rxonBuffer = r.rxonBuffer := by
    refine ⟨_, rfl, ?_, ?_⟩
    · split
      · exact h.status true 4 r.statusProhibitTimer
      · exact h
    · split <;> rfl
  have hgot : ∀ j, r₀.Got R j ↔ r.Got R j := by
    intro j
    unfold Got
    rw [hsame]
  have hinside := isInsideReceivingWindow_eq h₀.vrR h₀.vrMr hi hi' R
  unfold receiveData
  simp only [hseq, ofIndex_value, ← hr₀, hinside, if_pos hp.2.2.1]
  by_cases hin : i < R + 512
  · obtain ⟨m, hplace, hbuf, hhas⟩ := placePdu_eq h₀.keys h₀.upper hp (hP hin) hi hin
    obtain ⟨r', out, MS', X', hrun, hcoll, hpass, hgot'⟩ := h₀.afterPlacing hbuf hi hin hhas
    refine ⟨r', out, MS', _, X', ?_, hcoll, hpass, by rw [if_pos hin], fun j => ?_⟩
    · simp only [hin, decide_true, hplace, hrun]
    · rw [hgot' j, hgot j]
      simp [hin]
  · refine ⟨r₀, [], MS, H, X, ?_, h₀, .nil R, by rw [if_neg hin], fun j => ?_⟩
    · simp only [hin, decide_false]
    · simp [hgot j, hin]

/-- **Expiry.** The timer only moves `VR(MS)`, and asks for a STATUS PDU. -/
theorem Collects.expire (h : Collects P r R MS H X) (htimer : r.reorderingTimer = true) :
    ∃ r' MS' X', r.expireReorderingTimer = some r' ∧ Collects P r' R MS' H X' ∧ r'.rxonBuffer = r.rxonBuffer := by
  obtain ⟨hRX, hXH⟩ := h.timer htimer
  obtain ⟨MS', hvrMs, hXMS, hMSH, hmiss⟩ := advanceVrMs_eq
    (r := { r with reorderingTimer := false, vrMs := r.vrX }) h.keys h.vrX (by omega) hXH h.upper
  have hstart := startReorderingTimer_eq
    (r := { r with reorderingTimer := false, vrMs := ofIndex MS' R }) h.vrH h.upper (show R ≤ MS' by omega) hMSH
  unfold expireReorderingTimer
  rw [hvrMs]
  dsimp only
  rw [hstart]
  by_cases hlt : false = false ∧ MS' < H
  · rw [if_pos hlt]
    refine ⟨_, MS', H, rfl, ?_, rfl⟩
    exact ⟨h.vrR, h.vrMr, rfl, h.vrH, h.vrH, by omega, hMSH, h.upper, h.keys, h.missing, hmiss,
      fun _ => ⟨by omega, Nat.le_refl H⟩, h.ready⟩
  · rw [if_neg hlt]
    refine ⟨_, MS', X, rfl, ?_, rfl⟩
    exact ⟨h.vrR, h.vrMr, rfl, h.vrH, h.vrX, by omega, hMSH, h.upper, h.keys, h.missing, hmiss, nofun, h.ready⟩

end

end LteRlcAmRx

end Ns3
