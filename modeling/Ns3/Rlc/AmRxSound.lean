import Ns3.Lib.RingMap
import Ns3.Rlc.Am

/-!
# Receiving in acknowledged mode

What each step of the receiving side does, in terms of absolute indices. The
registers stand for indices in the 1024 from `VR(R)` on, all with `VR(R)` as
their base, so that comparisons are those of the indices (`Collects`).
-/

namespace Ns3

open SequenceNumber10

/-! ## Reassembly in sequence -/

/-- A data PDU with index `i` whose data field can be cut at its length
indicators. -/
def AmPacket.IsData (p : AmPacket) (i : Nat) : Prop :=
  p.header.isDataPdu = true ∧ p.header.sequenceNumber.value = i % 1024 ∧
    (p.header.resegmentationFlag = LteRlcAmHeader.SEGMENT ∨ p.header.resegmentationFlag = LteRlcAmHeader.PDU) ∧
    (splitSdus p.header.extensionBits p.header.lengthIndicators p.data).isSome

instance (p : AmPacket) (i : Nat) : Decidable (p.IsData i) := inferInstanceAs (Decidable (_ ∧ _ ∧ (_ ∨ _) ∧ _))

/-- The next PDU expected has index `n`, and a segment is kept while one is
waited for. -/
def Reassembly.Ready (r : Reassembly) (n : Nat) : Prop :=
  r.expectedSeqNumber.value = n % 1024 ∧ (r.reassemblingState = .waitingSiSf → r.keepS0.isSome)

theorem splitSdus_ne_nil : ∀ {es lis : List Nat} {data : Bytes} {sdus : List Bytes},
    splitSdus es lis data = some sdus → sdus ≠ []
  | es, lis, data, sdus, h => by
    unfold splitSdus at h
    split at h
    · cases h
      simp
    · split at h
      · split at h
        · obtain ⟨rest, -, rfl⟩ := Option.map_eq_some_iff.mp h
          simp
        · cases h
          simp
      · cases h
    · cases h

namespace Reassembly

variable {r : Reassembly} {fi : Nat}

theorem keepLast_ready (h : r.sdusBuffer ≠ []) :
    ∃ r' sdus, r.keepLast = some (r', sdus) ∧ r'.keepS0.isSome ∧ r'.expectedSeqNumber = r.expectedSeqNumber := by
  unfold keepLast
  rw [List.getLast?_eq_some_getLast h]
  exact ⟨_, _, rfl, rfl, rfl⟩

theorem startOver_ready (h : r.sdusBuffer ≠ []) (hfi : fi < 2) :
    ∃ r' sdus, r.startOver fi = some (r', sdus) ∧ (r'.reassemblingState = .waitingSiSf → r'.keepS0.isSome) ∧
      r'.expectedSeqNumber = r.expectedSeqNumber := by
  match fi, hfi with
  | 0, _ =>
    refine ⟨_, _, rfl, ?_, rfl⟩
    intro hstate
    cases hstate
  | 1, _ =>
    obtain ⟨r', sdus, hkeep, hs0, hsn⟩ := keepLast_ready (r := { r with reassemblingState := .waitingSiSf }) h
    exact ⟨r', sdus, hkeep, fun _ => hs0, hsn⟩

theorem continueSdu_ready (h : r.sdusBuffer ≠ []) (hs0 : r.keepS0.isSome) (fi : Nat) :
    ∃ r' sdus, r.continueSdu fi = some (r', sdus) ∧ r'.keepS0.isSome ∧ r'.expectedSeqNumber = r.expectedSeqNumber := by
  obtain ⟨buffer, state, keepS0, expected⟩ := r
  obtain ⟨s0, rfl⟩ := Option.isSome_iff_exists.mp hs0
  obtain ⟨sn, rest, rfl⟩ := List.exists_cons_of_ne_nil h
  match fi, rest with
  | 0, _ => exact ⟨_, _, rfl, rfl, rfl⟩
  | 1, _ => exact ⟨_, _, rfl, rfl, rfl⟩
  | 2, _ => exact ⟨_, _, rfl, rfl, rfl⟩
  | 3, [] => exact ⟨_, _, rfl, rfl, rfl⟩
  | 3, s :: rest =>
    obtain ⟨r', sdus, hkeep, hs0', hsn⟩ :=
      keepLast_ready (r := ⟨s :: rest, .waitingSiSf, some s0, expected⟩) (by simp)
    exact ⟨r', (s0 ++ sn) :: sdus, by simp [continueSdu, hkeep], hs0', hsn⟩
  | _ + 4, _ => exact ⟨_, _, rfl, rfl, rfl⟩

end Reassembly

namespace LteRlcAmRx

theorem reassembleInSequence_ready {r : Reassembly} (h : r.sdusBuffer ≠ [])
    (hs0 : r.reassemblingState = .waitingSiSf → r.keepS0.isSome) (fi : Nat) :
    ∃ r' sdus, reassembleInSequence r fi = some (r', sdus) ∧
      (r'.reassemblingState = .waitingSiSf → r'.keepS0.isSome) ∧ r'.expectedSeqNumber = r.expectedSeqNumber := by
  unfold reassembleInSequence
  cases hstate : r.reassemblingState with
  | waitingS0Full =>
    dsimp only
    split
    · rename_i hfi
      exact Reassembly.startOver_ready h hfi
    · exact ⟨r, [], rfl, hs0, rfl⟩
  | waitingSiSf =>
    obtain ⟨r', sdus, hcont, hs0', hsn⟩ := Reassembly.continueSdu_ready h (hs0 hstate) fi
    exact ⟨r', sdus, hcont, fun _ => hs0', hsn⟩

theorem reassembleAndDeliver_ready {r : Reassembly} {p : AmPacket} {i : Nat} (h : r.Ready i) (hp : p.IsData i) :
    ∃ r' sdus, reassembleAndDeliver r p = some (r', sdus) ∧ r'.Ready (i + 1) := by
  obtain ⟨-, hnumber, -, hsplit⟩ := hp
  obtain ⟨hexpected, hs0⟩ := h
  obtain ⟨sdus, hsplit⟩ := Option.isSome_iff_exists.mp hsplit
  have hsame : p.header.sequenceNumber.eq r.expectedSeqNumber = true := by simp [SequenceNumber10.eq, hnumber, hexpected]
  have hnote : r.noteSeqNumber p.header.sequenceNumber =
      (false, { r with expectedSeqNumber := r.expectedSeqNumber.incr }) := if_pos hsame
  have hbuf : r.sdusBuffer ++ sdus ≠ [] := by simp [splitSdus_ne_nil hsplit]
  obtain ⟨r', out, hrun, hs0', hsn⟩ := reassembleInSequence_ready
    (r := { r with expectedSeqNumber := r.expectedSeqNumber.incr, sdusBuffer := r.sdusBuffer ++ sdus }) hbuf hs0
    p.header.framingInfo
  refine ⟨r', out, ?_, ?_, hs0'⟩
  · simp only [reassembleAndDeliver, hsplit, hnote]
    exact hrun
  · rw [hsn]
    simp [incr, hexpected, Nat.add_mod]

/-! ## The registers -/

section
variable {r : LteRlcAmRx} {R MS H X i : Nat}

theorem isInsideReceivingWindow_eq (hR : r.vrR = ofIndex R R) (hMr : r.vrMr = ofIndex (R + 512) R) (hi : R ≤ i)
    (hi' : i < R + 1024) (B : Nat) : r.isInsideReceivingWindow (ofIndex i B) = some (decide (i < R + 512), r) := by
  obtain ⟨buffer, vrR, vrMr, vrX, vrMs, vrH, requested, size, reordering, prohibit, reassembly⟩ := r
  obtain rfl : vrR = ofIndex R R := hR
  obtain rfl : vrMr = ofIndex (R + 512) R := hMr
  simp only [isInsideReceivingWindow, setModulusBase_ofIndex]
  rw [le_ofIndex (Nat.le_refl R) (by omega) hi hi', lt_ofIndex hi hi' (by omega) (by omega)]
  simp [hi]

theorem updateVrH_eq (hH : r.vrH = ofIndex H R) (hle : R ≤ H) (hle' : H ≤ R + 512) (hi : R ≤ i) (hi' : i < R + 512) :
    r.updateVrH (ofIndex i R) = some { r with vrH := ofIndex (max H (i + 1)) R } := by
  unfold updateVrH
  rw [hH, ge_ofIndex hi (by omega) hle (by omega)]
  rcases Nat.lt_or_ge i H with hlt | hge
  · obtain ⟨buffer, vrR, vrMr, vrX, vrMs, vrH, requested, size, reordering, prohibit, reassembly⟩ := r
    obtain rfl : vrH = ofIndex H R := hH
    simp [Nat.not_le.mpr hlt, show max H (i + 1) = H by omega]
  · simp [hge, show max H (i + 1) = i + 1 by omega]

theorem firstMissing_eq {received : Nat → Bool} {first w : Nat} (B : Nat) (hw : received (w % 1024) = false)
    (hround : w < first + 1024) : ∀ (fuel a : Nat), first ≤ a → a ≤ w → w - a < fuel →
      ∃ m, firstMissing received (first % 1024) fuel (ofIndex a B) = some (ofIndex m B) ∧ a ≤ m ∧ m ≤ w ∧
        received (m % 1024) = false
  | 0, _, _, _, hfuel => absurd hfuel (Nat.not_lt_zero _)
  | fuel + 1, a, hfirst, haw, hfuel => by
    unfold firstMissing
    rw [ofIndex_value, incr_ofIndex, ofIndex_value]
    cases hrec : received (a % 1024) with
    | false => exact ⟨a, rfl, Nat.le_refl a, haw, hrec⟩
    | true =>
      have hne : a ≠ w := by
        rintro rfl
        rw [hw] at hrec
        cases hrec
      have hnext : first % 1024 ≠ (a + 1) % 1024 := by omega
      obtain ⟨m, hm, ham, hmw, hmiss⟩ :=
        firstMissing_eq B hw hround fuel (a + 1) (by omega) (by omega) (by omega)
      refine ⟨m, ?_, by omega, hmw, hmiss⟩
      rw [if_pos rfl, if_neg hnext, hm]

theorem stopReorderingTimer_eq (hR : r.vrR = ofIndex R R) (hMr : r.vrMr = ofIndex (R + 512) R)
    (hX : r.vrX = ofIndex X R) (hrun : r.reorderingTimer = true → R < X + 512 ∧ X ≤ R + 512) :
    r.stopReorderingTimer = some { r with reorderingTimer := r.reorderingTimer && decide (R < X) } := by
  unfold stopReorderingTimer
  cases htimer : r.reorderingTimer with
  | false =>
    obtain ⟨buffer, vrR, vrMr, vrX, vrMs, vrH, requested, size, reordering, prohibit, reassembly⟩ := r
    obtain rfl : reordering = false := htimer
    rfl
  | true =>
    obtain ⟨hlo, hhi⟩ := hrun htimer
    -- a number behind `VR(R)` stands for one past the end of the window
    obtain ⟨Y, hY, hRY, hYR, hcase⟩ : ∃ Y, r.vrX = ofIndex Y R ∧ R ≤ Y ∧ Y < R + 1024 ∧ (R < X ↔ R < Y ∧ Y ≤ R + 512) := by
      rcases Nat.lt_or_ge X R with hlt | hge
      · exact ⟨X + 1024, by rw [hX, ofIndex_add_period], by omega, by omega, by omega⟩
      · exact ⟨X, hX, hge, by omega, by omega⟩
    have heqR : r.vrX.eq r.vrR = decide (Y = R) := by
      rw [hY, hR, eq_ofIndex hRY hYR (by omega) (by omega)]
    have heqMr : r.vrX.eq r.vrMr = decide (Y = R + 512) := by
      rw [hY, hMr, eq_ofIndex hRY hYR (by omega) (by omega)]
    have hinside : r.isInsideReceivingWindow r.vrX = some (decide (Y < R + 512), r) := by
      rw [hY, isInsideReceivingWindow_eq hR hMr hRY hYR]
    have hstay : (decide (Y < R + 512) || decide (Y = R + 512)) = decide (Y ≤ R + 512) := by
      rw [← Bool.decide_or]
      exact decide_eq_decide.mpr (by omega)
    simp only [heqR, hinside, heqMr, hstay, hcase, Bool.true_and, if_true, decide_eq_true_eq]
    split
    · simp [show ¬ R < Y by omega]
    · simp [show R < Y by omega]

theorem startReorderingTimer_eq {n : Nat} (hH : r.vrH = ofIndex H R) (hH' : H ≤ R + 512) (hn : R ≤ n) (hnH : n ≤ H) :
    r.startReorderingTimer (ofIndex n R) =
      some (if r.reorderingTimer = false ∧ n < H then { r with reorderingTimer := true, vrX := r.vrH } else r) := by
  unfold startReorderingTimer
  cases htimer : r.reorderingTimer with
  | true => simp
  | false =>
    rw [hH, gt_ofIndex (by omega) (by omega) hn (by omega)]
    by_cases hlt : n < H <;> simp [hlt]

end

/-! ## The loop over `VR(R)` -/

/-- A buffered PDU has one segment and is complete. -/
def Entry (P : Nat → AmPacket → Prop) (i : Nat) (b : PduBuffer) : Prop :=
  ∃ p, b = ⟨[p], true⟩ ∧ p.IsData i ∧ P i p

/-- The PDUs passed on have the indices from `n` on. -/
def Passed (P : Nat → AmPacket → Prop) (n : Nat) (out : List (AmPacket × List Bytes)) : Prop :=
  ∀ k o, out[k]? = some o → P (n + k) o.1

section
variable {P : Nat → AmPacket → Prop} {r : LteRlcAmRx} {R MS H X : Nat}

theorem Passed.nil (n : Nat) : Passed P n [] := by
  intro k o h
  simp at h

theorem Passed.cons {n : Nat} {o : AmPacket × List Bytes} {out : List (AmPacket × List Bytes)} (ho : P n o.1)
    (h : Passed P (n + 1) out) : Passed P n (o :: out) := by
  intro k o' hk
  cases k with
  | zero =>
    obtain rfl : o = o' := by simpa using hk
    exact ho
  | succ k =>
    rw [show n + (k + 1) = n + 1 + k by omega]
    exact h k o' (by simpa using hk)

theorem Passed.append {n : Nat} {out out' : List (AmPacket × List Bytes)} (h : Passed P n out)
    (h' : Passed P (n + out.length) out') : Passed P n (out ++ out') := by
  intro k o hk
  rcases Nat.lt_or_ge k out.length with hlt | hge
  · rw [List.getElem?_append_left hlt] at hk
    exact h k o hk
  · rw [List.getElem?_append_right hge] at hk
    have := h' _ o hk
    rwa [show n + out.length + (k - out.length) = n + k by omega] at this

theorem Passed.mono {P' : Nat → AmPacket → Prop} {n : Nat} {out : List (AmPacket × List Bytes)} (h : Passed P n out)
    (hP : ∀ i p, P i p → P' i p) : Passed P' n out :=
  fun k o hk => hP _ _ (h k o hk)

theorem received_eq {lo hi : Nat} (h : Buffered 1024 (Entry P) r.rxonBuffer lo hi) (k : Nat) :
    r.received k = (r.rxonBuffer.find k).isSome := by
  unfold received
  cases hf : r.rxonBuffer.find k with
  | none => rfl
  | some b =>
    obtain ⟨i, -, -, -, p, rfl, -⟩ := h k b hf
    rfl

theorem deliverInSequence_eq {first w H : Nat} (hround : w < first + 1024) (hwidth : H ≤ first + 1024) :
    ∀ (fuel : Nat) (r : LteRlcAmRx) (R : Nat), first ≤ R → R ≤ w → w - R < fuel →
      r.vrR = ofIndex R R → r.vrX = ofIndex X R → r.vrMs = ofIndex MS R → r.vrH = ofIndex H R →
      Buffered 1024 (Entry P) r.rxonBuffer R H → r.rxonBuffer.find (w % 1024) = none → r.reassembly.Ready R →
      ∃ m ra out R', deliverInSequence (first % 1024) fuel r = some ({ r with
          rxonBuffer := m, reassembly := ra, vrR := ofIndex R' R', vrX := ofIndex X R', vrMs := ofIndex MS R',
          vrH := ofIndex H R' }, out) ∧
        R ≤ R' ∧ R' ≤ w ∧ R' = R + out.length ∧ Cleared 1024 r.rxonBuffer m R R' ∧ m.find (R' % 1024) = none ∧
        ra.Ready R' ∧ Passed P R out ∧ ∀ j, R ≤ j → j < R' → Has 1024 r.rxonBuffer j
  | 0, _, _, _, _, hfuel, _, _, _, _, _, _, _ => absurd hfuel (Nat.not_lt_zero _)
  | fuel + 1, r, R, hfirst, hRw, hfuel, hR, hX, hMs, hH, hbuf, hw, hready => by
    have hvalue : r.vrR.value = R % 1024 := by rw [hR, ofIndex_value]
    unfold deliverInSequence
    rw [hvalue]
    cases hf : r.rxonBuffer.find (R % 1024) with
    | none =>
      refine ⟨r.rxonBuffer, r.reassembly, [], R, ?_, Nat.le_refl R, hRw, rfl, Cleared.refl _ R, hf, hready, .nil R,
        by omega⟩
      rw [← hR, ← hX, ← hMs, ← hH]
    | some b =>
      obtain ⟨-, p, rfl, hp, hP⟩ := hbuf.lookup (Nat.le_refl R) (by omega) (by omega) hf
      obtain ⟨ra, sdus, hra, hready'⟩ := reassembleAndDeliver_ready hready hp
      have hne : R ≠ w := by
        rintro rfl
        rw [hw] at hf
        cases hf
      have hclear := Cleared.erase (N := 1024) r.rxonBuffer R
      have hw' : (r.rxonBuffer.erase (R % 1024)).find (w % 1024) = none := by
        rw [hclear.kept_at (by omega) (by omega), hw]
      have hincr : { r with reassembly := ra, rxonBuffer := r.rxonBuffer.erase (R % 1024) }.incrVrR =
          { r with
            reassembly := ra, rxonBuffer := r.rxonBuffer.erase (R % 1024), vrR := ofIndex (R + 1) (R + 1)
            vrX := ofIndex X (R + 1), vrMs := ofIndex MS (R + 1), vrH := ofIndex H (R + 1) } := by
        simp [incrVrR, hR, hX, hMs, hH]
      obtain ⟨m, ra', out, R', hrun, hRR', hR'w, hlen, hclear', hnone, hready'', hpass, hhas⟩ :=
        deliverInSequence_eq hround hwidth fuel { r with
          reassembly := ra, rxonBuffer := r.rxonBuffer.erase (R % 1024), vrR := ofIndex (R + 1) (R + 1)
          vrX := ofIndex X (R + 1), vrMs := ofIndex MS (R + 1), vrH := ofIndex H (R + 1) }
          (R + 1) (by omega) (by omega) (by omega) rfl rfl rfl rfl (hclear.buffered hbuf) hw' hready'
      have hround' : first % 1024 ≠ (R + 1) % 1024 := by omega
      refine ⟨m, ra', (p, sdus) :: out, R', ?_, by omega, hR'w, by simp [hlen]; omega,
        hclear.trans hclear' (by omega) hRR', hnone, hready'', .cons hP hpass, fun j hj hj' => ?_⟩
      · simp only [hra, hincr, ofIndex_value, if_neg hround', hrun]
      · rcases Nat.eq_or_lt_of_le hj with rfl | hlt
        · simp [Has, hf]
        · obtain ⟨b, hb⟩ := Option.isSome_iff_exists.mp (hhas j hlt hj')
          simp [Has, hclear.sub hb]

end

end LteRlcAmRx

end Ns3
