import Ns3.Rlc.AmRxSound

/-!
# Transmitting in acknowledged mode

`Keeps t A S` ties the transmitting side to the indices of `VT(A)` and `VT(S)`:
a slot in use holds the PDU with an index from `A` up to `S`. A transmission
keeps what is held and adds the new PDU; a STATUS PDU takes away what it
acknowledges, when the index it acknowledges is not behind `A`.
-/

namespace Ns3

open SequenceNumber10 LteRlcAmHeader

/-! ## The PDUs built -/

theorem AmPacket.IsData.repoll {p : AmPacket} {i : Nat} (h : p.IsData i) (pollingBit : Nat) :
    (AmPacket.addHeader (p.header.setPollingBit pollingBit) p.data).IsData i := by
  obtain ⟨hkind, hnumber, hflag, hsplit⟩ := h
  refine ⟨hkind, ?_, hflag, hsplit⟩
  simp [AmPacket.addHeader, setPollingBit, SequenceNumber10.ofValue, hnumber]

namespace LteRlcAmTx

theorem buildHeader_isData {kept : Option Bytes} {q : List TxPdu} {d : DataField} {c : Content}
    (hd : Filled kept q d c) {sn : SequenceNumber10} {i : Nat} (hsn : sn.value = i % 1024) (framingInfo : Nat)
    (isRequested : Bool) :
    (AmPacket.addHeader (buildHeader d sn framingInfo isRequested) (d.segments.map TxPdu.pdu).flatten).IsData i := by
  simp only [buildHeader, foldl_pushExtensionBit _ (setDataPdu {}) rfl,
    foldl_pushLengthIndicator]
  refine ⟨rfl, ?_, .inr rfl, ?_⟩
  · simp [AmPacket.addHeader, setPollingBit, setFramingInfo,
      setSegmentOffset, setLastSegmentFlag, setResegmentationFlag,
      setSequenceNumber, SequenceNumber10.ofValue, hsn]
  · have hsplits := hd.splits
    simp [AmPacket.addHeader, setPollingBit, setFramingInfo,
      setSegmentOffset, setLastSegmentFlag, setResegmentationFlag,
      setSequenceNumber, setDataPdu, hsplits]

/-! ## The invariant -/

def Slot (t : LteRlcAmTx) (k : Nat) (p : AmPacket) : Prop :=
  (t.txedBuffer k).pdu = some p ∨ (t.retxBuffer k).pdu = some p

def Holds (t : LteRlcAmTx) (k : Nat) : Prop := ∃ p, t.Slot k p

structure Keeps (t : LteRlcAmTx) (A S : Nat) : Prop where
  vtA : t.vtA = ofIndex A A
  vtMs : t.vtMs = ofIndex (A + 512) A
  vtS : t.vtS = ofIndex S A
  lower : A ≤ S
  upper : S ≤ A + 512
  slots : ∀ k p, t.Slot k p → ∃ i, A ≤ i ∧ i < S ∧ i % 1024 = k ∧ p.IsData i
  queue : ∃ kept, Queue kept t.txonBuffer
  size : t.txonBufferSize = sizes t.txonBuffer % 4294967296

theorem keeps_init (maxTxBufferSize : Nat) (alwaysBigEnough : Bool) :
    Keeps { maxTxBufferSize := maxTxBufferSize, txOpportunityForRetxAlwaysBigEnough := alwaysBigEnough } 0 0 where
  vtA := rfl
  vtMs := rfl
  vtS := rfl
  lower := Nat.le_refl 0
  upper := Nat.zero_le _
  slots := by
    rintro k p (h | h) <;> cases h
  queue := ⟨none, rfl⟩
  size := rfl

/-- The registers stand for the indices of `VT(A)` and `VT(S)`. -/
structure Registers (t : LteRlcAmTx) (A S : Nat) : Prop where
  vtA : t.vtA = ofIndex A A
  vtMs : t.vtMs = ofIndex (A + 512) A
  vtS : t.vtS = ofIndex S A
  lower : A ≤ S
  upper : S ≤ A + 512

variable {t t' : LteRlcAmTx} {A S : Nat}

theorem Keeps.registers (h : Keeps t A S) : Registers t A S :=
  ⟨h.vtA, h.vtMs, h.vtS, h.lower, h.upper⟩

/-- Registers and transmission buffer are unchanged. -/
structure Frame (t t' : LteRlcAmTx) : Prop where
  vtA : t'.vtA = t.vtA
  vtMs : t'.vtMs = t.vtMs
  vtS : t'.vtS = t.vtS
  txonBuffer : t'.txonBuffer = t.txonBuffer
  txonBufferSize : t'.txonBufferSize = t.txonBufferSize

section
variable {t t' t'' : LteRlcAmTx} {A S : Nat}

theorem Frame.refl (t : LteRlcAmTx) : Frame t t := ⟨rfl, rfl, rfl, rfl, rfl⟩

theorem Frame.trans (h : Frame t t') (h' : Frame t' t'') : Frame t t'' :=
  ⟨h'.vtA.trans h.vtA, h'.vtMs.trans h.vtMs, h'.vtS.trans h.vtS, h'.txonBuffer.trans h.txonBuffer,
    h'.txonBufferSize.trans h.txonBufferSize⟩

theorem Registers.frame (h : Registers t A S) (hf : Frame t t') : Registers t' A S :=
  ⟨hf.vtA.trans h.vtA, hf.vtMs.trans h.vtMs, hf.vtS.trans h.vtS, h.lower, h.upper⟩

theorem Registers.advanceVtA (h : Registers t A S) (hlt : A < S) : Registers t.advanceVtA (A + 1) S where
  vtA := by simp [LteRlcAmTx.advanceVtA, h.vtA]
  vtMs := by simp [LteRlcAmTx.advanceVtA, h.vtA, LteRlcAm.windowSize]
  vtS := by simp [LteRlcAmTx.advanceVtA, h.vtA, h.vtS]
  lower := hlt
  upper := by have := h.upper; omega

theorem Keeps.frame (h : Keeps t A S) (hf : Frame t t') (hslots : ∀ k p, t'.Slot k p → t.Slot k p) :
    Keeps t' A S :=
  { h.registers.frame hf with
    slots := fun k p hk => h.slots k p (hslots k p hk)
    queue := hf.txonBuffer ▸ h.queue
    size := by rw [hf.txonBufferSize, hf.txonBuffer, h.size] }

theorem Keeps.store (h : Keeps t A S) {p : Bytes} (hp : p ≠ []) : Keeps (t.storePdcpPdu p) A S := by
  unfold storePdcpPdu
  split
  · obtain ⟨kept, hq⟩ := h.queue
    refine { h with queue := ⟨kept, hq.snoc hp⟩, size := ?_ }
    simp only [h.size, add32_mod_left, sizes_snoc, TxPdu.size]
  · exact h

theorem storePdcpPdu_slot (t : LteRlcAmTx) (p : Bytes) (k : Nat) (q : AmPacket) :
    (t.storePdcpPdu p).Slot k q ↔ t.Slot k q := by
  unfold storePdcpPdu
  split <;> rfl

theorem pollIf_slot (t : LteRlcAmTx) (isRequested : Bool) (k : Nat) (q : AmPacket) :
    (t.pollIf isRequested).Slot k q ↔ t.Slot k q := by
  cases isRequested <;> rfl

theorem Keeps.pollIf (h : Keeps t A S) (isRequested : Bool) : Keeps (t.pollIf isRequested) A S := by
  cases isRequested
  · exact h
  · exact h.frame ⟨rfl, rfl, rfl, rfl, rfl⟩ fun _ _ => id

end

/-! ## Moving and clearing slots -/

section
variable {t : LteRlcAmTx} {A S : Nat}

theorem moveToRetx_slot_of {sn k : Nat} {p : AmPacket} (h : (t.moveToRetx sn).Slot k p) : t.Slot k p := by
  unfold moveToRetx at h
  split at h
  · exact h
  · unfold Slot at h ⊢
    by_cases hk : k = sn
    · subst hk
      simpa using Or.inl h
    · simpa [hk] using h

theorem moveToRetx_holds (t : LteRlcAmTx) (sn k : Nat) : (t.moveToRetx sn).Holds k ↔ t.Holds k := by
  refine ⟨fun h => h.imp fun _ => moveToRetx_slot_of, ?_⟩
  unfold moveToRetx
  split
  · exact id
  · rename_i q hq
    unfold Holds Slot
    by_cases hk : k = sn
    · subst hk
      rintro -
      exact ⟨q, by simp [hq]⟩
    · simp [hk]

theorem moveToRetx_frame (t : LteRlcAmTx) (sn : Nat) : Frame t (t.moveToRetx sn) := by
  unfold moveToRetx
  split
  · exact .refl t
  · exact ⟨rfl, rfl, rfl, rfl, rfl⟩

theorem Keeps.moveToRetx (h : Keeps t A S) (sn : Nat) : Keeps (t.moveToRetx sn) A S :=
  h.frame (moveToRetx_frame t sn) fun _ _ => moveToRetx_slot_of

variable {t' : LteRlcAmTx} {sn : Nat}

theorem nackPdu_eq (h : t.nackPdu sn = some t') : t' = t.moveToRetx sn := by
  unfold nackPdu at h
  dsimp only at h
  split at h
  · exact (Option.some.inj h).symm
  · cases h

theorem clearTxed_frame (h : t.clearTxed sn = some t') : Frame t t' := by
  unfold clearTxed at h
  split at h
  · cases h
    exact .refl t
  · split at h
    · cases h
    · cases h
      exact ⟨rfl, rfl, rfl, rfl, rfl⟩

theorem clearRetx_frame (t : LteRlcAmTx) (sn : Nat) : Frame t (t.clearRetx sn) := by
  unfold clearRetx
  split
  · exact .refl t
  · exact ⟨rfl, rfl, rfl, rfl, rfl⟩

theorem ackPdu_slot (h : t.ackPdu sn = some t') (k : Nat) (p : AmPacket) :
    t'.Slot k p ↔ t.Slot k p ∧ k ≠ sn := by
  obtain ⟨t₁, hclear, rfl⟩ := Option.map_eq_some_iff.mp h
  have htxed : (t₁.txedBuffer sn).pdu = none ∧ (∀ k, k ≠ sn → t₁.txedBuffer k = t.txedBuffer k) ∧
      t₁.retxBuffer = t.retxBuffer := by
    unfold clearTxed at hclear
    split at hclear
    · rename_i hnone
      cases hclear
      exact ⟨hnone, fun _ _ => rfl, rfl⟩
    · split at hclear
      · cases hclear
      · cases hclear
        exact ⟨by simp, fun k hk => by simp [hk], rfl⟩
  obtain ⟨hself, hother, hretx⟩ := htxed
  have hretx' : ((t₁.clearRetx sn).retxBuffer sn).pdu = none ∧
      (∀ k, k ≠ sn → (t₁.clearRetx sn).retxBuffer k = t₁.retxBuffer k) ∧
      (t₁.clearRetx sn).txedBuffer = t₁.txedBuffer := by
    unfold clearRetx
    split
    · rename_i hnone
      exact ⟨hnone, fun _ _ => rfl, rfl⟩
    · exact ⟨by simp, fun k hk => by simp [hk], rfl⟩
  obtain ⟨hself', hother', htxed'⟩ := hretx'
  unfold Slot
  by_cases hk : k = sn
  · subst hk
    simp [htxed', hself, hself']
  · simp [hk, htxed', hother k hk, hother' k hk, hretx]

theorem ackPdu_frame (ht : t.ackPdu sn = some t') : Frame t t' := by
  obtain ⟨t₁, hclear, rfl⟩ := Option.map_eq_some_iff.mp ht
  exact (clearTxed_frame hclear).trans (clearRetx_frame t₁ sn)

theorem Keeps.ackPdu (h : Keeps t A S) (ht : t.ackPdu sn = some t') : Keeps t' A S :=
  h.frame (ackPdu_frame ht) fun k p hk => ((ackPdu_slot ht k p).mp hk).1

theorem Keeps.advanceVtA (h : Keeps t A S) (hlt : A < S) (hempty : ¬ t.Holds (A % 1024)) :
    Keeps t.advanceVtA (A + 1) S := by
  refine { h.registers.advanceVtA hlt with slots := fun k p hk => ?_, queue := h.queue, size := h.size }
  obtain ⟨i, hi, hi', rfl, hp⟩ := h.slots k p hk
  have hne : i ≠ A := by
    rintro rfl
    exact hempty ⟨p, hk⟩
  exact ⟨i, by omega, hi', rfl, hp⟩

end

/-! ## STATUS PDUs -/

/-- A STATUS PDU that acknowledges up to `ack` acknowledges the PDU with index `i`. -/
def Acks (rlcAmHeader : LteRlcAmHeader) (ack i : Nat) : Prop := i < ack ∧ i % 1024 ∉ rlcAmHeader.nackSnList

theorem cancelPoll_holds (t : LteRlcAmTx) (sn k : Nat) : (t.cancelPoll sn).Holds k ↔ t.Holds k := Iff.rfl

theorem Keeps.cancelPoll (h : Keeps t A S) (sn : Nat) : Keeps (t.cancelPoll sn) A S :=
  h.frame ⟨rfl, rfl, rfl, rfl, rfl⟩ fun _ _ => id

theorem ackPdu_holds {sn : Nat} (h : t.ackPdu sn = some t') (k : Nat) :
    t'.Holds k ↔ t.Holds k ∧ k ≠ sn := by
  unfold Holds
  simp only [ackPdu_slot h]
  exact exists_and_right

/-- A round of the loop over the numbers up to `ack`: it ends, a PDU is reported missing,
or one is acknowledged, the first outstanding one or another. -/
inductive Round (rlcAmHeader : LteRlcAmHeader) (ack fuel : Nat) (t : LteRlcAmTx) (A S n : Nat) :
    Bool → LteRlcAmTx → Prop
  | stop {incrementVtA : Bool} (hstop : ¬ (n < ack ∧ n < S)) : Round rlcAmHeader ack fuel t A S n incrementVtA t
  | nack {incrementVtA : Bool} {t₁ t' : LteRlcAmTx} (hlt : n < ack) (hltS : n < S)
      (hnack : (t.cancelPoll (n % 1024)).nackPdu (n % 1024) = some t₁)
      (hrest : reportLoop rlcAmHeader fuel t₁ (ofIndex (n + 1) A) (ofIndex ack A) false = some t') :
      Round rlcAmHeader ack fuel t A S n incrementVtA t'
  | ackFirst {t₁ t' : LteRlcAmTx} (hlt : n < ack) (hltS : n < S) (hacked : n % 1024 ∉ rlcAmHeader.nackSnList)
      (hack : (t.cancelPoll (n % 1024)).ackPdu (n % 1024) = some t₁)
      (hrest : reportLoop rlcAmHeader fuel t₁.advanceVtA (ofIndex (n + 1) (A + 1)) (ofIndex ack (A + 1)) true = some t') :
      Round rlcAmHeader ack fuel t A S n true t'
  | ackLater {t₁ t' : LteRlcAmTx} (hlt : n < ack) (hltS : n < S) (hacked : n % 1024 ∉ rlcAmHeader.nackSnList)
      (hack : (t.cancelPoll (n % 1024)).ackPdu (n % 1024) = some t₁)
      (hrest : reportLoop rlcAmHeader fuel t₁ (ofIndex (n + 1) A) (ofIndex ack A) false = some t') :
      Round rlcAmHeader ack fuel t A S n false t'

section
variable {t t' : LteRlcAmTx} {A S ack n : Nat} {rlcAmHeader : LteRlcAmHeader}

theorem Registers.reportLoop_round (h : Registers t A S) (hack : ack ≤ S) (hAn : A ≤ n) (hn : n ≤ ack) {fuel : Nat}
    {incrementVtA : Bool} (hinc : incrementVtA = true → n = A)
    (hrun : reportLoop rlcAmHeader (fuel + 1) t (ofIndex n A) (ofIndex ack A) incrementVtA = some t') :
    Round rlcAmHeader ack fuel t A S n incrementVtA t' := by
  have hlo := h.lower
  have hup := h.upper
  unfold LteRlcAmTx.reportLoop at hrun
  rw [h.vtS, lt_ofIndex hAn (by omega) (by omega) (by omega), lt_ofIndex hAn (by omega) hlo (by omega),
    andAlso_some, ofIndex_value, incr_ofIndex] at hrun
  split at hrun
  · cases hrun
  · rename_i hcond
    cases hrun
    exact .stop (by simpa using hcond)
  · rename_i hcond
    obtain ⟨hlt, hltS⟩ : n < ack ∧ n < S := by simpa using hcond
    dsimp only at hrun
    split at hrun
    · cases hrun
    · split at hrun
      · cases hrun
      · rename_i t₁ hnack
        exact .nack hlt hltS hnack hrun
    · rename_i hpresent
      have hacked : n % 1024 ∉ rlcAmHeader.nackSnList := by
        unfold isNackPresent at hpresent
        split at hpresent
        · exact of_decide_eq_false (Option.some.inj hpresent)
        · cases hpresent
      split at hrun
      · cases hrun
      · rename_i t₁ hackPdu
        cases incrementVtA with
        | true =>
          obtain rfl := hinc rfl
          have hframe : Frame t t₁ := (⟨rfl, rfl, rfl, rfl, rfl⟩ : Frame t (t.cancelPoll _)).trans (ackPdu_frame hackPdu)
          have hadv := (h.frame hframe).advanceVtA hltS
          rw [if_pos rfl, hadv.vtA, setModulusBase_ofIndex, setModulusBase_ofIndex, incr_ofIndex] at hrun
          exact .ackFirst hlt hltS hacked hackPdu hrun
        | false =>
          exact .ackLater hlt hltS hacked hackPdu hrun

theorem Registers.receiveStatus_eq (h : Registers t A S) (hsn : rlcAmHeader.ackSn.value = ack % 1024) :
    t.receiveStatus rlcAmHeader = reportLoop rlcAmHeader 1025 t (ofIndex A A) (ofIndex ack A) true := by
  have hsame : { t with
      vtA := t.vtA.setModulusBase t.vtA, vtS := t.vtS.setModulusBase (t.vtA.setModulusBase t.vtA)
      vtMs := t.vtMs.setModulusBase (t.vtA.setModulusBase t.vtA) } = t := by
    rw [h.vtA, h.vtS, h.vtMs]
    simp only [setModulusBase_ofIndex]
    rw [← h.vtA, ← h.vtMs, ← h.vtS]
  have hackSn : rlcAmHeader.ackSn.setModulusBase (t.vtA.setModulusBase t.vtA) = ofIndex ack A := by
    simp [setModulusBase, h.vtA, hsn, ofIndex]
  unfold LteRlcAmTx.receiveStatus
  simp only [hsame, hackSn]
  rw [h.vtA, setModulusBase_ofIndex]

end

/-- What a STATUS PDU does: `VT(A)` moves to `A'` and slots are emptied, both
only over what it acknowledges. -/
structure Acked (rlcAmHeader : LteRlcAmHeader) (ack : Nat) (t t' : LteRlcAmTx) (A A' S : Nat) : Prop where
  keeps : Keeps t' A' S
  lower : A ≤ A'
  passed : ∀ i, A ≤ i → i < A' → Acks rlcAmHeader ack i
  held : ∀ i, A ≤ i → i < S → t.Holds (i % 1024) → t'.Holds (i % 1024) ∨ Acks rlcAmHeader ack i
  sub : ∀ k, t'.Holds k → t.Holds k

theorem Keeps.reportLoop {rlcAmHeader : LteRlcAmHeader} {ack S : Nat} (hack : ack ≤ S) :
    ∀ (fuel : Nat) (t : LteRlcAmTx) (A n : Nat) (incrementVtA : Bool) (t' : LteRlcAmTx), Keeps t A S → A ≤ n → n ≤ ack →
      (incrementVtA = true → n = A) →
      reportLoop rlcAmHeader fuel t (ofIndex n A) (ofIndex ack A) incrementVtA = some t' →
      ∃ A', Acked rlcAmHeader ack t t' A A' S
  | 0, _, _, _, _, _, _, _, _, _, hrun => by cases hrun
  | fuel + 1, t, A, n, incrementVtA, t', h, hAn, hn, hinc, hrun => by
    have hup := h.upper
    have hpoll := h.cancelPoll (n % 1024)
    have hsame : ∀ i, A ≤ i → i < S → n < S → i % 1024 = n % 1024 → i = n := fun i hi hi' hltS hmod =>
      eq_of_mod_eq hi (by omega) hAn (by omega) hmod
    cases h.registers.reportLoop_round hack hAn hn hinc hrun with
    | stop => exact ⟨A, h, Nat.le_refl A, by omega, fun i _ _ hi => .inl hi, fun _ => id⟩
    | nack hlt hltS hnack hrest =>
      obtain rfl := nackPdu_eq hnack
      obtain ⟨A', hkeeps, hAA', hacked, hheld, hsub⟩ := Keeps.reportLoop hack fuel _ A (n + 1) false t'
        (hpoll.moveToRetx (n % 1024)) (by omega) hlt nofun hrest
      have hholds : ∀ k, ((t.cancelPoll (n % 1024)).moveToRetx (n % 1024)).Holds k ↔ t.Holds k := fun k => by
        rw [moveToRetx_holds, cancelPoll_holds]
      exact ⟨A', hkeeps, hAA', hacked, fun i hi hi' hi'' => hheld i hi hi' ((hholds _).mpr hi''),
        fun k hk => (hholds k).mp (hsub k hk)⟩
    | ackFirst hlt hltS hnot hackPdu hrest =>
      obtain rfl := hinc rfl
      have hholds₁ := ackPdu_holds hackPdu
      have hadv := (hpoll.ackPdu hackPdu).advanceVtA hltS (by simp [hholds₁])
      obtain ⟨A', hkeeps, hAA', hacked, hheld, hsub⟩ := Keeps.reportLoop hack fuel _ (n + 1) (n + 1) true t' hadv
        (Nat.le_refl _) hlt (fun _ => rfl) hrest
      refine ⟨A', hkeeps, by omega, fun i hi hi' => ?_, fun i hi hi' hi'' => ?_, fun k hk =>
        ((hholds₁ k).mp (hsub k hk)).1⟩
      · rcases Nat.eq_or_lt_of_le hi with rfl | hi
        · exact ⟨hlt, hnot⟩
        · exact hacked i hi hi'
      · rcases Nat.eq_or_lt_of_le hi with rfl | hi
        · exact .inr ⟨hlt, hnot⟩
        · refine hheld i hi hi' ((hholds₁ _).mpr ⟨hi'', fun hmod => ?_⟩)
          omega
    | ackLater hlt hltS hnot hackPdu hrest =>
      have hholds₁ := ackPdu_holds hackPdu
      obtain ⟨A', hkeeps, hAA', hacked, hheld, hsub⟩ := Keeps.reportLoop hack fuel _ A (n + 1) false t'
        (hpoll.ackPdu hackPdu) (by omega) hlt nofun hrest
      refine ⟨A', hkeeps, hAA', hacked, fun i hi hi' hi'' => ?_, fun k hk => ((hholds₁ k).mp (hsub k hk)).1⟩
      by_cases hin : i = n
      · exact .inr (hin ▸ ⟨hlt, hnot⟩)
      · exact hheld i hi hi' ((hholds₁ _).mpr ⟨hi'', fun hmod => hin (hsame i hi hi' hltS hmod)⟩)

/-- **Acknowledgement.** A STATUS PDU that is not behind `VT(A)`, or that comes
when nothing is outstanding, takes away what it acknowledges and no more. -/
theorem Keeps.receiveStatus {A S ack : Nat} {rlcAmHeader : LteRlcAmHeader} (h : Keeps t A S)
    (hsn : rlcAmHeader.ackSn.value = ack % 1024) (hack : A ≤ ack ∨ A = S) (hackS : ack ≤ S)
    (ht : t.receiveStatus rlcAmHeader = some t') : ∃ A', Acked rlcAmHeader ack t t' A A' S := by
  rw [h.registers.receiveStatus_eq hsn] at ht
  rcases hack with hack | rfl
  · exact Keeps.reportLoop hackS 1025 t A A true t' h (Nat.le_refl A) hack (fun _ => rfl) ht
  · have hlt : (ofIndex A A).lt (ofIndex A A) = some false := by
      rw [lt_ofIndex (Nat.le_refl A) (by omega) (Nat.le_refl A) (by omega)]
      simp
    unfold LteRlcAmTx.reportLoop at ht
    rw [h.vtS, hlt] at ht
    split at ht
    · cases ht
    · cases ht
      exact ⟨A, h, Nat.le_refl A, by omega, by omega, fun _ => id⟩
    · rename_i hcond
      unfold andAlso at hcond
      split at hcond <;> cases hcond

section
variable {P : LteRlcAmTx → Prop} (hmove : ∀ t n, P t → P (t.moveToRetx (n % 1024)))
include hmove

theorem moveAllToRetx_keeps {A : Nat} : ∀ (fuel : Nat) (t : LteRlcAmTx) (n : Nat) (t' : LteRlcAmTx), P t →
    moveAllToRetx fuel t (ofIndex n A) = some t' → P t' ∧ ∀ k, t'.Holds k ↔ t.Holds k
  | 0, _, _, _, _, hrun => by cases hrun
  | fuel + 1, t, n, t', h, hrun => by
    unfold LteRlcAmTx.moveAllToRetx at hrun
    split at hrun
    · cases hrun
    · cases hrun
      exact ⟨h, fun _ => Iff.rfl⟩
    · rw [ofIndex_value, incr_ofIndex] at hrun
      obtain ⟨hkeeps, hholds⟩ := moveAllToRetx_keeps fuel _ (n + 1) t' (hmove t n h) hrun
      exact ⟨hkeeps, fun k => (hholds k).trans (moveToRetx_holds t (n % 1024) k)⟩

theorem expirePollRetransmitTimer_keeps {t t' : LteRlcAmTx} {A : Nat} (hvtA : t.vtA = ofIndex A A)
    (h : P { t with pollRetransmitTimer := false, pollRetransmitTimerJustExpired := true })
    (ht : t.expirePollRetransmitTimer = some t') : P t' ∧ ∀ k, t'.Holds k ↔ t.Holds k := by
  unfold LteRlcAmTx.expirePollRetransmitTimer at ht
  dsimp only at ht
  split at ht
  · split at ht
    · obtain ⟨hkeeps, hholds⟩ := moveAllToRetx_keeps hmove 1025 _ A t' h (by rw [← hvtA]; exact ht)
      exact ⟨hkeeps, hholds⟩
    · cases ht
      exact ⟨h, fun _ => Iff.rfl⟩
  · cases ht

end

theorem Keeps.expirePollRetransmitTimer (h : Keeps t A S)
    (ht : t.expirePollRetransmitTimer = some t') : Keeps t' A S ∧ ∀ k, t'.Holds k ↔ t.Holds k :=
  expirePollRetransmitTimer_keeps (P := fun t => Keeps t A S) (fun _ n hkeeps => hkeeps.moveToRetx (n % 1024)) h.vtA
    (h.frame ⟨rfl, rfl, rfl, rfl, rfl⟩ fun _ _ => id) ht

/-! ## Transmission opportunities -/

theorem firstRetx_eq (hS : t.vtS = ofIndex S A) (hup : S ≤ A + 512) :
    ∀ (fuel n : Nat) (sn : SequenceNumber10) (p : AmPacket), A ≤ n → n ≤ S →
      t.firstRetx fuel (ofIndex n A) = some (sn, p) →
      ∃ i, n ≤ i ∧ i < S ∧ sn.value = i % 1024 ∧ (t.retxBuffer (i % 1024)).pdu = some p
  | 0, _, _, _, _, _, hrun => by cases hrun
  | fuel + 1, n, sn, p, hAn, hnS, hrun => by
    unfold firstRetx at hrun
    rw [hS, lt_ofIndex hAn (by omega) (by omega) (by omega), ofIndex_value, incr_ofIndex] at hrun
    split at hrun
    · cases hrun
    · cases hrun
    · rename_i hlt
      have hlt : n < S := by simpa using hlt
      split at hrun
      · rename_i packet hpdu
        cases hrun
        exact ⟨n, Nat.le_refl n, hlt, rfl, hpdu⟩
      · obtain ⟨i, hi, hi', hsn, hpdu⟩ := firstRetx_eq hS hup fuel (n + 1) sn p (by omega) hlt hrun
        exact ⟨i, by omega, hi', hsn, hpdu⟩

section
variable {t t' : LteRlcAmTx} {A S bytes : Nat} {out : List AmPacket}

theorem Registers.retransmit_inv (h : Registers t A S) (ht : t.retransmit bytes = some (t', out)) :
    t' = t ∧ out = [] ∨ ∃ i packet, A ≤ i ∧ i < S ∧ (t.retxBuffer (i % 1024)).pdu = some packet ∧
      t.retransmitPdu (i % 1024) packet = some (t', out) := by
  unfold LteRlcAmTx.retransmit at ht
  split at ht
  · split at ht
    · cases ht
    · rename_i sn packet hfirst
      rw [h.vtA] at hfirst
      obtain ⟨i, hi, hi', hsn, hpdu⟩ := firstRetx_eq h.vtS h.upper 1025 A sn packet (Nat.le_refl A) h.lower hfirst
      rw [hsn] at ht
      split at ht
      · exact .inr ⟨i, packet, hi, hi', hpdu, ht⟩
      · cases ht
        exact .inl ⟨rfl, rfl⟩
  · cases ht

theorem Registers.transmitPdu_inv (h : Registers t A S) {d : DataField} (ht : t.transmitPdu d = some (t', out)) :
    S < A + 512 ∧ ∃ (framingInfo : Nat) (isRequested : Bool) (pdus bytes : Nat),
      let packet := AmPacket.addHeader (buildHeader d t.vtS framingInfo isRequested) (d.segments.map TxPdu.pdu).flatten
      let next := pollIf { t with
          vtS := t.vtS.incr, txonBuffer := d.txBuffer, txonBufferSize := d.txBufferSize, pduWithoutPoll := pdus
          byteWithoutPoll := bytes } isRequested
      out = [packet] ∧ t' = { next with
        txedBuffer := Function.update next.txedBuffer (S % 1024) ⟨some packet, 0⟩
        txedBufferSize := add32 next.txedBufferSize packet.size } := by
  have hlo := h.lower
  have hup := h.upper
  have hvalue : t.vtS.value = S % 1024 := by rw [h.vtS, ofIndex_value]
  unfold LteRlcAmTx.transmitPdu at ht
  dsimp only at ht
  split at ht
  · rename_i framingInfo hbelow _ _
    have hlt : S < A + 512 := by
      rw [h.vtS, h.vtMs, lt_ofIndex hlo (by omega) (by omega) (by omega)] at hbelow
      simpa using hbelow
    split at ht
    · cases ht
    · rename_i isRequested _
      split at ht
      · cases ht
      · cases ht
        rw [hvalue]
        exact ⟨hlt, framingInfo, isRequested, _, _, rfl, rfl⟩
  · cases ht

theorem transmitNew_inv (ht : t.transmitNew bytes = some (t', out)) :
    t' = t ∧ out = [] ∨ ∃ firstSegment txonBuffer, 7 ≤ bytes ∧ t.txonBuffer = firstSegment :: txonBuffer ∧
      t.transmitPdu (fillDataField firstSegment txonBuffer (sub32 t.txonBufferSize firstSegment.size) (bytes - 4) 1) =
        some (t', out) := by
  unfold LteRlcAmTx.transmitNew at ht
  split at ht
  · cases ht
  · rename_i hbytes
    split at ht
    · split at ht
      · cases ht
        exact .inl ⟨rfl, rfl⟩
      · split at ht
        · cases ht
          exact .inl ⟨rfl, rfl⟩
        · rename_i firstSegment txonBuffer hbuf
          exact .inr ⟨firstSegment, txonBuffer, Nat.le_of_not_lt hbytes, hbuf, ht⟩
    · cases ht

theorem transmit_inv (ht : t.transmit bytes = some (t', out)) :
    t' = t ∧ out = [] ∨ t.retransmit bytes = some (t', out) ∨ t.transmitNew bytes = some (t', out) := by
  unfold LteRlcAmTx.transmit at ht
  split at ht
  · exact .inr (.inl ht)
  · split at ht
    · exact .inr (.inr ht)
    · cases ht
      exact .inl ⟨rfl, rfl⟩

end

/-- What a transmission opportunity does: nothing, a retransmission, or the
PDU with index `S`. -/
structure Sent (t t' : LteRlcAmTx) (out : List AmPacket) (A S S' : Nat) : Prop where
  keeps : Keeps t' A S'
  lower : S ≤ S'
  upper : S' ≤ S + 1
  data : ∀ p ∈ out, ∃ i, A ≤ i ∧ i < S' ∧ p.IsData i
  held : ∀ k, t'.Holds k ↔ t.Holds k ∨ S < S' ∧ k = S % 1024

section
variable {t t' : LteRlcAmTx} {A S : Nat} {out : List AmPacket}

theorem Keeps.idle (h : Keeps t A S) : Sent t t [] A S S where
  keeps := h
  lower := Nat.le_refl S
  upper := Nat.le_succ S
  data := by simp
  held := by simp

theorem Keeps.retransmitPdu (h : Keeps t A S) {i : Nat} {packet : AmPacket} (hi : A ≤ i) (hi' : i < S)
    (hpdu : (t.retxBuffer (i % 1024)).pdu = some packet)
    (ht : t.retransmitPdu (i % 1024) packet = some (t', out)) : Sent t t' out A S S := by
  have hdata : packet.IsData i := by
    obtain ⟨j, hj, hj', hmod, hp⟩ := h.slots _ packet (.inr hpdu)
    have hup := h.upper
    obtain rfl := eq_of_mod_eq hj (show j < A + 1024 by omega) hi (by omega) hmod
    exact hp
  unfold LteRlcAmTx.retransmitPdu at ht
  split at ht
  · cases ht
  · rename_i isRequested hpoll
    cases ht
    have hslot : ∀ k p, (t.pollIf isRequested).Slot k p ↔ t.Slot k p := pollIf_slot t isRequested
    have hretx : ((t.pollIf isRequested).retxBuffer (i % 1024)).pdu = some packet := by
      cases isRequested <;> exact hpdu
    refine ⟨(h.pollIf isRequested).frame ⟨rfl, rfl, rfl, rfl, rfl⟩ ?_, Nat.le_refl S, Nat.le_succ S, ?_, fun k => ?_⟩
    · intro k p hk
      by_cases hkey : k = i % 1024
      · subst hkey
        have : packet = p := by simpa [Slot] using hk
        exact .inr (this ▸ hretx)
      · simpa [Slot, hkey] using hk
    · intro p hp
      obtain rfl := List.mem_singleton.mp hp
      exact ⟨i, hi, hi', hdata.repoll _⟩
    · simp only [Nat.lt_irrefl, false_and, or_false]
      by_cases hkey : k = i % 1024
      · subst hkey
        exact ⟨fun _ => ⟨packet, .inr hpdu⟩, fun _ => ⟨packet, .inl (by simp)⟩⟩
      · refine exists_congr fun p => ?_
        rw [← hslot k p]
        simp [Slot, hkey]

variable {bytes : Nat}

theorem Keeps.retransmit (h : Keeps t A S) (ht : t.retransmit bytes = some (t', out)) :
    Sent t t' out A S S := by
  rcases h.registers.retransmit_inv ht with ⟨rfl, rfl⟩ | ⟨i, packet, hi, hi', hpdu, ht⟩
  · exact h.idle
  · exact h.retransmitPdu hi hi' hpdu ht

theorem Keeps.put (h : Keeps t A S) {i : Nat} {packet : AmPacket} (hi : A ≤ i) (hi' : i < S) (hp : packet.IsData i)
    (retxCount size : Nat) :
    Keeps { t with
      txedBuffer := Function.update t.txedBuffer (i % 1024) ⟨some packet, retxCount⟩, txedBufferSize := size } A S := by
  refine { h with slots := fun k p hk => ?_ }
  by_cases hkey : k = i % 1024
  · subst hkey
    rcases hk with hk | hk
    · obtain rfl : packet = p := by simpa using hk
      exact ⟨i, hi, hi', rfl, hp⟩
    · exact h.slots _ p (.inr hk)
  · exact h.slots k p (by simpa [Slot, hkey] using hk)

theorem put_holds (t : LteRlcAmTx) (sn : Nat) (packet : AmPacket) (retxCount size k : Nat) :
    Holds { t with
      txedBuffer := Function.update t.txedBuffer sn ⟨some packet, retxCount⟩, txedBufferSize := size } k ↔
      t.Holds k ∨ k = sn := by
  by_cases hkey : k = sn
  · subst hkey
    exact ⟨fun _ => .inr rfl, fun _ => ⟨packet, .inl (by simp)⟩⟩
  · simp [Holds, Slot, hkey]

theorem pollIf_holds (t : LteRlcAmTx) (isRequested : Bool) (k : Nat) : (t.pollIf isRequested).Holds k ↔ t.Holds k :=
  exists_congr fun p => pollIf_slot t isRequested k p

theorem Keeps.next (h : Keeps t A S) (hlt : S < A + 512) {kept : Option Bytes} {q : List TxPdu} (hq : Queue kept q)
    {size : Nat} (hsize : size = sizes q % 4294967296) (pdus bytes : Nat) : Keeps { t with
      vtS := t.vtS.incr, txonBuffer := q, txonBufferSize := size, pduWithoutPoll := pdus, byteWithoutPoll := bytes } A (S + 1) := by
  have hlo := h.lower
  refine ⟨h.vtA, h.vtMs, by rw [h.vtS, incr_ofIndex], by omega, hlt, fun k p hk => ?_, ⟨kept, hq⟩, hsize⟩
  obtain ⟨i, hi, hi', hmod, hp⟩ := h.slots k p hk
  exact ⟨i, hi, by omega, hmod, hp⟩

theorem Keeps.transmitPdu (h : Keeps t A S) {kept : Option Bytes} {d : DataField} {c : Content}
    (hd : Filled kept t.txonBuffer d c) (hsize : d.txBufferSize = sizes d.txBuffer % 4294967296)
    (ht : t.transmitPdu d = some (t', out)) : Sent t t' out A S (S + 1) := by
  have hlo := h.lower
  have hvalue : t.vtS.value = S % 1024 := by rw [h.vtS, ofIndex_value]
  obtain ⟨hlt, framingInfo, isRequested, pdus, bytes, rfl, rfl⟩ := h.registers.transmitPdu_inv ht
  have hdata := buildHeader_isData hd hvalue framingInfo isRequested
  have hnext := h.next hlt hd.queue hsize pdus bytes
  refine ⟨(hnext.pollIf isRequested).put hlo (Nat.lt_succ_self S) hdata 0 _, Nat.le_succ S, Nat.le_refl _, ?_, fun k => ?_⟩
  · intro p hp
    obtain rfl := List.mem_singleton.mp hp
    exact ⟨S, hlo, Nat.lt_succ_self S, hdata⟩
  · rw [put_holds, pollIf_holds]
    simp [Holds, Slot]

theorem Keeps.transmitNew (h : Keeps t A S) (ht : t.transmitNew bytes = some (t', out)) :
    ∃ S', Sent t t' out A S S' := by
  rcases transmitNew_inv ht with ⟨rfl, rfl⟩ | ⟨firstSegment, txonBuffer, hbytes, hbuf, ht⟩
  · exact ⟨S, h.idle⟩
  · obtain ⟨kept, hq⟩ := h.queue
    rw [hbuf] at hq
    have hsize : sub32 t.txonBufferSize firstSegment.size = sizes txonBuffer % 4294967296 := by
      rw [h.size, hbuf, sizes_cons, Nat.add_comm, sub32_add]
    obtain ⟨c, hd⟩ := fillDataField_filled txonBuffer kept firstSegment _ (bytes - 4) 1 hq (by omega)
    exact ⟨S + 1, h.transmitPdu (hbuf ▸ hd) (fillDataField_size hsize firstSegment (bytes - 4) 1) ht⟩

/-- **Transmission.** -/
theorem Keeps.transmit (h : Keeps t A S) (ht : t.transmit bytes = some (t', out)) :
    ∃ S', Sent t t' out A S S' := by
  rcases transmit_inv ht with ⟨rfl, rfl⟩ | ht | ht
  · exact ⟨S, h.idle⟩
  · exact ⟨S, h.retransmit ht⟩
  · exact h.transmitNew ht

end

end LteRlcAmTx

end Ns3
