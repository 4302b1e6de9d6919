import Mathlib.Algebra.BigOperators.Group.Finset.Piecewise
import Ns3.Rlc.AmTxSound

/-!
# The books of the transmitting side

Between three buffers PDUs move in five places, each of which updates the
32-bit sizes by hand. `Books t A S` says that the sizes are those of the
packets stored, modulo `2 ^ 32`, that no number is in both retransmission
buffers, and that only the numbers from `VT(A)` up to `VT(S)` are in use.
-/

namespace Ns3

open SequenceNumber10 LteRlcAmHeader Option

namespace LteRlcAmTx

def slotSize (v : RetxPdu) : Nat := (v.pdu.map AmPacket.size).getD 0

/-- The sizes of the packets in a buffer of 1024 slots. -/
def stored (buffer : Nat → RetxPdu) : Nat := ∑ k ∈ Finset.range 1024, slotSize (buffer k)

@[simp] theorem slotSize_some (p : AmPacket) (n : Nat) : slotSize ⟨some p, n⟩ = p.size := rfl

@[simp] theorem slotSize_none (n : Nat) : slotSize ⟨none, n⟩ = 0 := rfl

variable {v : RetxPdu}

theorem slotSize_of_some {p : AmPacket} (h : v.pdu = some p) : slotSize v = p.size := by
  simp [slotSize, h]

theorem slotSize_of_none (h : v.pdu = none) : slotSize v = 0 := by
  simp [slotSize, h]

theorem stored_update (buffer : Nat → RetxPdu) {k : Nat} (hk : k < 1024) (v : RetxPdu) :
    stored (Function.update buffer k v) + slotSize (buffer k) = stored buffer + slotSize v := by
  have hmem : k ∈ Finset.range 1024 := Finset.mem_range.mpr hk
  have hrest : ∑ j ∈ (Finset.range 1024).erase k, slotSize (Function.update buffer k v j) =
      ∑ j ∈ (Finset.range 1024).erase k, slotSize (buffer j) := by
    refine Finset.sum_congr rfl fun j hj => ?_
    rw [Function.update_of_ne (Finset.ne_of_mem_erase hj)]
  unfold stored
  rw [← Finset.add_sum_erase _ _ hmem, ← Finset.add_sum_erase (Finset.range 1024) _ hmem, hrest, Function.update_self]
  omega

theorem exists_of_stored_pos {buffer : Nat → RetxPdu} (h : 0 < stored buffer) : ∃ k p, (buffer k).pdu = some p := by
  obtain ⟨k, -, hk⟩ := Finset.exists_ne_zero_of_sum_ne_zero (Nat.ne_of_gt h)
  cases hp : (buffer k).pdu with
  | none => exact absurd (slotSize_of_none hp) hk
  | some p => exact ⟨k, p, hp⟩

theorem stored_clear (buffer : Nat → RetxPdu) {k : Nat} (hk : k < 1024) (hv : v.pdu = none) :
    stored (Function.update buffer k v) ≤ stored buffer := by
  have := stored_update buffer hk v
  rw [slotSize_of_none hv] at this
  omega

/-- The bytes of the PDUs sent and not acknowledged. -/
def unacked (t : LteRlcAmTx) : Nat := stored t.txedBuffer + stored t.retxBuffer

/-- Nothing is added to the bytes not acknowledged, nor to the packets not sent. -/
def Lessens (t t' : LteRlcAmTx) : Prop := t'.unacked ≤ t.unacked ∧ t'.txonBuffer = t.txonBuffer

theorem Lessens.refl (t : LteRlcAmTx) : Lessens t t := ⟨Nat.le_refl _, rfl⟩

theorem Lessens.trans {t t' t'' : LteRlcAmTx} (h : Lessens t t') (h' : Lessens t' t'') : Lessens t t'' :=
  ⟨h'.1.trans h.1, h'.2.trans h.2⟩

structure Books (t : LteRlcAmTx) (A S : Nat) : Prop where
  vtA : t.vtA = ofIndex A A
  vtMs : t.vtMs = ofIndex (A + 512) A
  vtS : t.vtS = ofIndex S A
  lower : A ≤ S
  upper : S ≤ A + 512
  inside : ∀ k, t.Holds k → ∃ i, A ≤ i ∧ i < S ∧ i % 1024 = k
  exclusive : ∀ k, (t.txedBuffer k).pdu = none ∨ (t.retxBuffer k).pdu = none
  txed : t.txedBufferSize = stored t.txedBuffer % 4294967296
  retx : t.retxBufferSize = stored t.retxBuffer % 4294967296
  txon : t.txonBufferSize = sizes t.txonBuffer % 4294967296

theorem books_init (maxTxBufferSize : Nat) (alwaysBigEnough : Bool) :
    Books { maxTxBufferSize := maxTxBufferSize, txOpportunityForRetxAlwaysBigEnough := alwaysBigEnough } 0 0 where
  vtA := rfl
  vtMs := rfl
  vtS := rfl
  lower := Nat.le_refl 0
  upper := Nat.zero_le _
  inside := by
    rintro k ⟨p, h | h⟩ <;> cases h
  exclusive _ := .inl rfl
  txed := by simp [stored]
  retx := by simp [stored]
  txon := rfl

section
variable {t t' : LteRlcAmTx} {A S sn : Nat}

theorem Books.registers (h : Books t A S) : Registers t A S := ⟨h.vtA, h.vtMs, h.vtS, h.lower, h.upper⟩

theorem Books.frame (h : Books t A S) (hf : Frame t t') (hholds : ∀ k, t'.Holds k → t.Holds k)
    (hexclusive : ∀ k, (t'.txedBuffer k).pdu = none ∨ (t'.retxBuffer k).pdu = none)
    (htxed : t'.txedBufferSize = stored t'.txedBuffer % 4294967296)
    (hretx : t'.retxBufferSize = stored t'.retxBuffer % 4294967296) : Books t' A S :=
  { h.registers.frame hf with
    inside := fun k hk => h.inside k (hholds k hk)
    exclusive := hexclusive
    txed := htxed
    retx := hretx
    txon := by rw [hf.txonBufferSize, hf.txonBuffer, h.txon] }

theorem Books.moveToRetx (h : Books t A S) (hsn : sn < 1024) : Books (t.moveToRetx sn) A S := by
  have hholds : ∀ k, (t.moveToRetx sn).Holds k → t.Holds k := fun k => (moveToRetx_holds t sn k).mp
  have hframe := moveToRetx_frame t sn
  unfold LteRlcAmTx.moveToRetx at hholds hframe ⊢
  cases hpdu : (t.txedBuffer sn).pdu with
  | none => exact h
  | some packet =>
    simp only [hpdu] at hholds hframe ⊢
    have hnone : (t.retxBuffer sn).pdu = none := (h.exclusive sn).resolve_left (by simp [hpdu])
    have htxed := stored_update t.txedBuffer hsn {}
    have hretx := stored_update t.retxBuffer hsn (t.txedBuffer sn)
    rw [slotSize_of_some hpdu] at htxed hretx
    rw [slotSize_of_none hnone] at hretx
    refine h.frame hframe hholds (fun k => ?_) ?_ ?_
    · by_cases hk : k = sn
      · simp [hk]
      · simpa [hk] using h.exclusive k
    · rw [slotSize_none, Nat.add_zero] at htxed
      simp only [h.txed, ← htxed, sub32_add]
    · rw [Nat.add_zero] at hretx
      simp only [h.retx, hretx, add32_mod_left]

theorem Books.moveToRetx_lessens (h : Books t A S) (hsn : sn < 1024) : Lessens t (t.moveToRetx sn) := by
  refine ⟨?_, (moveToRetx_frame t sn).txonBuffer⟩
  unfold LteRlcAmTx.moveToRetx
  cases hpdu : (t.txedBuffer sn).pdu with
  | none => exact Nat.le_refl _
  | some packet =>
    have htxed := stored_update t.txedBuffer hsn {}
    have hretx := stored_update t.retxBuffer hsn (t.txedBuffer sn)
    rw [slotSize_of_none ((h.exclusive sn).resolve_left (by simp [hpdu]))] at hretx
    rw [slotSize_none] at htxed
    simp only [unacked]
    omega

theorem clearTxed_unacked (hsn : sn < 1024) (ht : t.clearTxed sn = some t') : t'.unacked ≤ t.unacked := by
  unfold LteRlcAmTx.clearTxed at ht
  split at ht
  · cases ht
    exact Nat.le_refl _
  · split at ht
    · cases ht
    · cases ht
      exact Nat.add_le_add_right (stored_clear t.txedBuffer hsn rfl) _

theorem clearRetx_unacked (hsn : sn < 1024) : (t.clearRetx sn).unacked ≤ t.unacked := by
  unfold LteRlcAmTx.clearRetx
  split
  · exact Nat.le_refl _
  · exact Nat.add_le_add_left (stored_clear t.retxBuffer hsn rfl) _

theorem ackPdu_lessens (hsn : sn < 1024) (ht : t.ackPdu sn = some t') : Lessens t t' := by
  refine ⟨?_, (ackPdu_frame ht).txonBuffer⟩
  obtain ⟨t₁, hclear, rfl⟩ := map_eq_some_iff.mp ht
  exact (clearRetx_unacked hsn).trans (clearTxed_unacked hsn hclear)

theorem Books.clearTxed (h : Books t A S) (hsn : sn < 1024) (ht : t.clearTxed sn = some t') : Books t' A S := by
  unfold LteRlcAmTx.clearTxed at ht
  split at ht
  · cases ht
    exact h
  · rename_i packet hpdu
    split at ht
    · cases ht
    · cases ht
      have htxed := stored_update t.txedBuffer hsn ⟨none, (t.txedBuffer sn).retxCount⟩
      rw [slotSize_of_some hpdu, slotSize_none, Nat.add_zero] at htxed
      refine h.frame ⟨rfl, rfl, rfl, rfl, rfl⟩ (fun k => ?_) (fun k => ?_) ?_ h.retx
      · rintro ⟨p, hp⟩
        by_cases hk : k = sn
        · exact ⟨packet, .inl (hk ▸ hpdu)⟩
        · exact ⟨p, by simpa [Slot, hk] using hp⟩
      · by_cases hk : k = sn
        · simp [hk]
        · simpa [hk] using h.exclusive k
      · simp only [h.txed, ← htxed, sub32_add]

theorem Books.clearRetx (h : Books t A S) (hsn : sn < 1024) : Books (t.clearRetx sn) A S := by
  unfold LteRlcAmTx.clearRetx
  split
  · exact h
  · rename_i packet hpdu
    have hretx := stored_update t.retxBuffer hsn {}
    rw [slotSize_of_some hpdu, slotSize_none, Nat.add_zero] at hretx
    refine h.frame ⟨rfl, rfl, rfl, rfl, rfl⟩ (fun k => ?_) (fun k => ?_) h.txed ?_
    · rintro ⟨p, hp⟩
      by_cases hk : k = sn
      · exact ⟨packet, .inr (hk ▸ hpdu)⟩
      · exact ⟨p, by simpa [Slot, hk] using hp⟩
    · by_cases hk : k = sn
      · simp [hk]
      · simpa [hk] using h.exclusive k
    · simp only [h.retx, ← hretx, sub32_add]

theorem Books.ackPdu (h : Books t A S) (hsn : sn < 1024) (ht : t.ackPdu sn = some t') : Books t' A S := by
  obtain ⟨t₁, hclear, rfl⟩ := map_eq_some_iff.mp ht
  exact (h.clearTxed hsn hclear).clearRetx hsn

theorem Books.advanceVtA (h : Books t A S) (hlt : A < S) (hempty : ¬ t.Holds (A % 1024)) :
    Books t.advanceVtA (A + 1) S := by
  refine { h.registers.advanceVtA hlt with
    inside := fun k hk => ?_, exclusive := h.exclusive, txed := h.txed, retx := h.retx, txon := h.txon }
  obtain ⟨i, hi, hi', rfl⟩ := h.inside k hk
  have hne : i ≠ A := by
    rintro rfl
    exact hempty hk
  exact ⟨i, by omega, hi', rfl⟩

theorem Books.cancelPoll (h : Books t A S) (sn : Nat) : Books (t.cancelPoll sn) A S :=
  h.frame ⟨rfl, rfl, rfl, rfl, rfl⟩ (fun _ => id) h.exclusive h.txed h.retx

theorem Books.pollIf (h : Books t A S) (isRequested : Bool) : Books (t.pollIf isRequested) A S := by
  cases isRequested
  · exact h
  · exact h.frame ⟨rfl, rfl, rfl, rfl, rfl⟩ (fun _ => id) h.exclusive h.txed h.retx

@[simp] theorem pollIf_txedBuffer (t : LteRlcAmTx) (isRequested : Bool) :
    (t.pollIf isRequested).txedBuffer = t.txedBuffer := by
  cases isRequested <;> rfl

@[simp] theorem pollIf_retxBuffer (t : LteRlcAmTx) (isRequested : Bool) :
    (t.pollIf isRequested).retxBuffer = t.retxBuffer := by
  cases isRequested <;> rfl

theorem Books.store (h : Books t A S) (p : Bytes) : Books (t.storePdcpPdu p) A S := by
  unfold storePdcpPdu
  split
  · refine { h with txon := ?_ }
    simp only [h.txon, add32_mod_left, sizes_snoc, TxPdu.size]
  · exact h

/-! ## STATUS PDUs -/

theorem nackPdu_holds {t₁ : LteRlcAmTx} (ht : t.nackPdu sn = some t₁) : t₁.Holds sn := by
  unfold LteRlcAmTx.nackPdu at ht
  dsimp only at ht
  split at ht
  · rename_i hsome
    cases ht
    obtain ⟨p, hp⟩ := isSome_iff_exists.mp hsome
    exact ⟨p, .inr hp⟩
  · cases ht

theorem Books.reportLoop {rlcAmHeader : LteRlcAmHeader} {ack S : Nat} (hack : ack ≤ S) :
    ∀ (fuel : Nat) (t : LteRlcAmTx) (A n : Nat) (incrementVtA : Bool) (t' : LteRlcAmTx), Books t A S → A ≤ n → n ≤ ack →
      (if incrementVtA then n = A else A < n ∧ t.Holds (A % 1024)) →
      reportLoop rlcAmHeader fuel t (ofIndex n A) (ofIndex ack A) incrementVtA = some t' → ∃ A', Books t' A' S ∧
        (t'.Holds (A' % 1024) ∨ A' = ack ∧ ∀ i, A ≤ i → i < ack → i % 1024 ∉ rlcAmHeader.nackSnList) ∧
        (∀ i, ack ≤ i → i < S → t.Holds (i % 1024) → t'.Holds (i % 1024)) ∧ Lessens t t'
  | 0, _, _, _, _, _, _, _, _, _, hrun => by cases hrun
  | fuel + 1, t, A, n, incrementVtA, t', h, hAn, hn, hinc, hrun => by
    have hup := h.upper
    have hsn : n % 1024 < 1024 := Nat.mod_lt _ (by omega)
    have hbooks := h.cancelPoll (n % 1024)
    have hother : ∀ i, A ≤ i → i < S → n < S → i ≠ n → i % 1024 ≠ n % 1024 := fun i hi hi' hltS hne hmod =>
      hne (eq_of_mod_eq hi (by omega) hAn (by omega) hmod)
    have hfirst : incrementVtA = true → n = A := fun htrue => by rwa [if_pos htrue] at hinc
    cases h.registers.reportLoop_round hack hAn hn hfirst hrun with
    | stop hstop =>
      refine ⟨A, h, ?_, fun _ _ _ => id, .refl t⟩
      cases incrementVtA with
      | false => exact .inl hinc.2
      | true =>
        have hnA : n = A := hinc
        exact .inr ⟨by omega, by omega⟩
    | nack hlt hltS hnack hrest =>
      -- it is held from here on, and `VT(A)` stays
      have hself := nackPdu_holds hnack
      obtain rfl := nackPdu_eq hnack
      have hholds : ∀ k, ((t.cancelPoll (n % 1024)).moveToRetx (n % 1024)).Holds k ↔ t.Holds k := fun k => by
        rw [moveToRetx_holds, cancelPoll_holds]
      have hhead : ((t.cancelPoll (n % 1024)).moveToRetx (n % 1024)).Holds (A % 1024) := by
        cases incrementVtA with
        | false => exact (hholds _).mpr hinc.2
        | true =>
          obtain rfl : n = A := hinc
          exact hself
      obtain ⟨A', hbooks', hstop, hstay, hless⟩ := Books.reportLoop hack fuel _ A (n + 1) false t'
        (hbooks.moveToRetx hsn) (by omega) hlt ⟨by omega, hhead⟩ hrest
      exact ⟨A', hbooks', hstop, fun i hi hi' hheld => hstay i hi hi' ((hholds _).mpr hheld),
        (hbooks.moveToRetx_lessens hsn).trans hless⟩
    | @ackFirst t₁ _ hlt hltS hnot hackPdu hrest =>
      obtain rfl : n = A := hinc
      have hholds₁ := ackPdu_holds hackPdu
      have hstay₁ : ∀ i, ack ≤ i → i < S → t.Holds (i % 1024) → t₁.Holds (i % 1024) := fun i hi hi' hheld =>
        (hholds₁ _).mpr ⟨hheld, hother i (by omega) hi' hltS (by omega)⟩
      have hless₁ : Lessens (t.cancelPoll (n % 1024)) t₁ := ackPdu_lessens hsn hackPdu
      have hadv := (hbooks.ackPdu hsn hackPdu).advanceVtA hltS (by simp [hholds₁])
      obtain ⟨A', hbooks', hstop, hstay, hless⟩ := Books.reportLoop hack fuel _ (n + 1) (n + 1) true t' hadv
        (Nat.le_refl _) hlt rfl hrest
      refine ⟨A', hbooks', hstop.imp id fun hnone => ⟨hnone.1, fun i hi hi' => ?_⟩, fun i hi hi' hheld =>
        hstay i hi hi' (hstay₁ i hi hi' hheld), hless₁.trans hless⟩
      rcases Nat.eq_or_lt_of_le hi with rfl | hi
      · exact hnot
      · exact hnone.2 i hi hi'
    | @ackLater t₁ _ hlt hltS hnot hackPdu hrest =>
      obtain ⟨hAn', hheldA⟩ : A < n ∧ t.Holds (A % 1024) := hinc
      have hholds₁ := ackPdu_holds hackPdu
      have hstay₁ : ∀ i, ack ≤ i → i < S → t.Holds (i % 1024) → t₁.Holds (i % 1024) := fun i hi hi' hheld =>
        (hholds₁ _).mpr ⟨hheld, hother i (by omega) hi' hltS (by omega)⟩
      have hless₁ : Lessens (t.cancelPoll (n % 1024)) t₁ := ackPdu_lessens hsn hackPdu
      have hhead : t₁.Holds (A % 1024) :=
        (hholds₁ _).mpr ⟨hheldA, hother A (Nat.le_refl A) (by omega) hltS (Nat.ne_of_lt hAn')⟩
      obtain ⟨A', hbooks', hstop, hstay, hless⟩ := Books.reportLoop hack fuel _ A (n + 1) false t'
        (hbooks.ackPdu hsn hackPdu) (by omega) hlt ⟨by omega, hhead⟩ hrest
      exact ⟨A', hbooks', hstop, fun i hi hi' hheld => hstay i hi hi' (hstay₁ i hi hi' hheld), hless₁.trans hless⟩

theorem Books.receiveStatus {ack : Nat} {rlcAmHeader : LteRlcAmHeader} (h : Books t A S)
    (hsn : rlcAmHeader.ackSn.value = ack % 1024) (hA : A ≤ ack) (hS : ack ≤ S)
    (ht : t.receiveStatus rlcAmHeader = some t') : ∃ A', Books t' A' S ∧
      (t'.Holds (A' % 1024) ∨ A' = ack ∧ ∀ i, A ≤ i → i < ack → i % 1024 ∉ rlcAmHeader.nackSnList) ∧
      (∀ i, ack ≤ i → i < S → t.Holds (i % 1024) → t'.Holds (i % 1024)) ∧ Lessens t t' := by
  rw [h.registers.receiveStatus_eq hsn] at ht
  exact Books.reportLoop hS 1025 t A A true t' h (Nat.le_refl A) hA rfl ht

/-! ## The poll timer -/

theorem Books.expirePollRetransmitTimer (h : Books t A S) (ht : t.expirePollRetransmitTimer = some t') :
    (Books t' A S ∧ Lessens t t') ∧ ∀ k, t'.Holds k ↔ t.Holds k := by
  refine expirePollRetransmitTimer_keeps (P := fun t' => Books t' A S ∧ Lessens t t') ?_ h.vtA
    ⟨h.frame ⟨rfl, rfl, rfl, rfl, rfl⟩ (fun _ => id) h.exclusive h.txed h.retx, Nat.le_refl _, rfl⟩ ht
  rintro t₁ n ⟨hbooks, hless⟩
  have hn : n % 1024 < 1024 := Nat.mod_lt n (by omega)
  exact ⟨hbooks.moveToRetx hn, hless.trans (hbooks.moveToRetx_lessens hn)⟩

/-! ## Transmission opportunities -/

variable {i bytes : Nat} {out : List AmPacket}

theorem firstRetx_isSome (hS : t.vtS = ofIndex S A) (hup : S ≤ A + 512) (hi : i < S)
    (hpdu : (t.retxBuffer (i % 1024)).pdu.isSome) :
    ∀ (fuel n : Nat), A ≤ n → n ≤ i → i < n + fuel → (t.firstRetx fuel (ofIndex n A)).isSome
  | 0, _, _, _, _ => by omega
  | fuel + 1, n, hAn, hni, hfuel => by
    unfold firstRetx
    rw [hS, lt_ofIndex hAn (by omega) (by omega) (by omega), decide_eq_true (show n < S by omega), ofIndex_value,
      incr_ofIndex]
    dsimp only
    split
    · rfl
    · rename_i hnone
      have hne : n ≠ i := by
        rintro rfl
        rw [hnone] at hpdu
        cases hpdu
      exact firstRetx_isSome hS hup hi hpdu fuel (n + 1) (by omega) (by omega) (by omega)

/-- **The assertion on retransmissions.** -/
theorem Books.firstRetx (h : Books t A S) (hsize : 0 < t.retxBufferSize) : A < S ∧ (t.firstRetx 1025 t.vtA).isSome := by
  rw [h.retx] at hsize
  obtain ⟨k, p, hp⟩ := exists_of_stored_pos (Nat.lt_of_lt_of_le hsize (Nat.mod_le _ _))
  obtain ⟨i, hi, hi', rfl⟩ := h.inside k ⟨p, .inr hp⟩
  have hup := h.upper
  refine ⟨by omega, ?_⟩
  rw [h.vtA]
  exact firstRetx_isSome h.vtS hup hi' (by simp [hp]) 1025 A (Nat.le_refl A) hi (by omega)

theorem Books.put (h : Books t A S) (hi : A ≤ i) (hi' : i < S) (hempty : ¬ t.Holds (i % 1024))
    (packet : AmPacket) (retxCount : Nat) : Books { t with
      txedBuffer := Function.update t.txedBuffer (i % 1024) ⟨some packet, retxCount⟩
      txedBufferSize := add32 t.txedBufferSize packet.size } A S := by
  have htxed := stored_update t.txedBuffer (Nat.mod_lt i (show 0 < 1024 by omega)) ⟨some packet, retxCount⟩
  have hfree : (t.txedBuffer (i % 1024)).pdu = none ∧ (t.retxBuffer (i % 1024)).pdu = none := by
    constructor
    · exact eq_none_iff_forall_ne_some.mpr fun p hp => hempty ⟨p, .inl hp⟩
    · exact eq_none_iff_forall_ne_some.mpr fun p hp => hempty ⟨p, .inr hp⟩
  rw [slotSize_of_none hfree.1, slotSize_some, Nat.add_zero] at htxed
  refine { h with inside := fun k hk => ?_, exclusive := fun k => ?_, txed := ?_ }
  · rcases (put_holds t (i % 1024) packet retxCount _ k).mp hk with hk | rfl
    · exact h.inside k hk
    · exact ⟨i, hi, hi', rfl⟩
  · by_cases hk : k = i % 1024
    · simp [hk, hfree.2]
    · simpa [hk] using h.exclusive k
  · simp only [h.txed, htxed, add32_mod_left]

theorem Books.retransmitPdu (h : Books t A S) {packet : AmPacket} (hi : A ≤ i)
    (hi' : i < S) (hpdu : (t.retxBuffer (i % 1024)).pdu = some packet)
    (ht : t.retransmitPdu (i % 1024) packet = some (t', out)) :
    Books t' A S ∧ (∀ k, t.Holds k → t'.Holds k) ∧ t'.unacked = t.unacked ∧ t'.txonBuffer = t.txonBuffer := by
  have hsn : i % 1024 < 1024 := Nat.mod_lt i (by omega)
  have hfree := (h.exclusive (i % 1024)).resolve_right (by simp [hpdu])
  unfold LteRlcAmTx.retransmitPdu at ht
  split at ht
  · cases ht
  · rename_i isRequested _
    cases ht
    have hpdu' : ((t.pollIf isRequested).retxBuffer (i % 1024)).pdu = some packet := by rwa [pollIf_retxBuffer]
    -- clearing the slot of the PDU, and then putting it back with those transmitted
    have hclear := (h.pollIf isRequested).clearRetx hsn
    have hnone : ((t.pollIf isRequested).txedBuffer (i % 1024)).pdu = none := by rwa [pollIf_txedBuffer]
    unfold LteRlcAmTx.clearRetx at hclear
    rw [hpdu'] at hclear
    have hempty : ¬ Holds { t.pollIf isRequested with
        retxBuffer := Function.update (t.pollIf isRequested).retxBuffer (i % 1024) {}
        retxBufferSize := sub32 (t.pollIf isRequested).retxBufferSize packet.size } (i % 1024) := by
      rintro ⟨p, hp | hp⟩
      · rw [hnone] at hp
        cases hp
      · simp at hp
    refine ⟨hclear.put hi hi' hempty packet _, fun k hk => ?_, ?_, ?_⟩
    · by_cases hkey : k = i % 1024
      · exact ⟨packet, .inl (by simp [hkey])⟩
      · refine ((pollIf_holds t isRequested k).mpr hk).imp fun p hp => ?_
        simpa [Slot, hkey] using hp
    · have htxed := stored_update t.txedBuffer hsn ⟨some packet, (t.retxBuffer (i % 1024)).retxCount + 1⟩
      have hretx := stored_update t.retxBuffer hsn {}
      rw [slotSize_of_none hfree, slotSize_some] at htxed
      rw [slotSize_of_some hpdu, slotSize_none] at hretx
      simp only [unacked, pollIf_txedBuffer, pollIf_retxBuffer]
      omega
    · cases isRequested <;> rfl

theorem Books.retransmit (h : Books t A S) (ht : t.retransmit bytes = some (t', out)) :
    Books t' A S ∧ (∀ k, t.Holds k → t'.Holds k) ∧ t'.unacked = t.unacked ∧ t'.txonBuffer = t.txonBuffer := by
  rcases h.registers.retransmit_inv ht with ⟨rfl, -⟩ | ⟨i, packet, hi, hi', hpdu, ht⟩
  · exact ⟨h, fun _ => id, rfl, rfl⟩
  · exact h.retransmitPdu hi hi' hpdu ht

theorem packet_size_le (d : DataField) (sn : SequenceNumber10) (framingInfo : Nat) (isRequested : Bool) :
    (AmPacket.addHeader (buildHeader d sn framingInfo isRequested) (d.segments.map TxPdu.pdu).flatten).size ≤
      dataSize d.extensionBits.length + sizes d.segments := by
  have hlength : (AmPacket.addHeader (buildHeader d sn framingInfo isRequested)
      (d.segments.map TxPdu.pdu).flatten).header.headerLength = dataSize d.extensionBits.length := by
    simp only [buildHeader, foldl_pushExtensionBit _ (setDataPdu {}) rfl, foldl_pushLengthIndicator]
    simp [AmPacket.addHeader, setPollingBit, setFramingInfo,
      setSegmentOffset, setLastSegmentFlag, setResegmentationFlag, setSequenceNumber, setDataPdu]
  have hdata : (d.segments.map TxPdu.pdu).flatten.length = sizes d.segments := by
    rw [List.length_flatten, List.map_map]
    rfl
  refine Nat.add_le_add ?_ (Nat.le_of_eq hdata)
  rw [getSerializedSize, hlength]
  exact Nat.mod_le _ _

/-- A PDU and its header take no more than the opportunity. -/
theorem fillDataField_takes (q : List TxPdu) (first : TxPdu) (size : Nat) (hbytes : 4 ≤ bytes) :
    dataSize (fillDataField first q size (bytes - 4) 1).extensionBits.length +
      sizes (fillDataField first q size (bytes - 4) 1).segments ≤ bytes := by
  have hbits := fillDataField_bits q first size (bytes - 4) 1
  have hfits := fillDataField_fits q first size (bytes - 4) 1
  rw [indicatorBytes_eq] at hfits
  unfold dataSize
  omega

theorem Books.transmitPdu (h : Books t A S) {d : DataField}
    (hd : d.txBufferSize = sizes d.txBuffer % 4294967296) (ht : t.transmitPdu d = some (t', out)) :
    Books t' A (S + 1) ∧ (∀ k, t.Holds k ∨ k = S % 1024 → t'.Holds k) ∧
      t'.unacked ≤ t.unacked + (dataSize d.extensionBits.length + sizes d.segments) ∧ t'.txonBuffer = d.txBuffer := by
  have hlo := h.lower
  obtain ⟨hlt, framingInfo, isRequested, pdus, bytes, -, rfl⟩ := h.registers.transmitPdu_inv ht
  have hnext : Books { t with
      vtS := t.vtS.incr, txonBuffer := d.txBuffer, txonBufferSize := d.txBufferSize, pduWithoutPoll := pdus
      byteWithoutPoll := bytes } A (S + 1) := by
    refine ⟨h.vtA, h.vtMs, by rw [h.vtS, incr_ofIndex], by omega, hlt, fun k hk => ?_, h.exclusive, h.txed, h.retx, hd⟩
    obtain ⟨i, hi, hi', hmod⟩ := h.inside k hk
    exact ⟨i, hi, by omega, hmod⟩
  have hfree : ¬ t.Holds (S % 1024) := by
    intro hk
    obtain ⟨i, hi, hi', hmod⟩ := h.inside _ hk
    omega
  refine ⟨(hnext.pollIf isRequested).put hlo (Nat.lt_succ_self S) ?_ _ 0, fun k hk => ?_, ?_, ?_⟩
  · rw [pollIf_holds]
    exact hfree
  · rw [put_holds, pollIf_holds]
    exact hk
  · have htxed := stored_update t.txedBuffer (Nat.mod_lt S (show 0 < 1024 by omega)) ⟨some
      (AmPacket.addHeader (buildHeader d t.vtS framingInfo isRequested) (d.segments.map TxPdu.pdu).flatten), 0⟩
    have hsize := packet_size_le d t.vtS framingInfo isRequested
    have hnone := eq_none_iff_forall_ne_some.mpr fun p hp => hfree ⟨p, .inl hp⟩
    rw [slotSize_of_none hnone, slotSize_some, Nat.add_zero] at htxed
    have hadded := Nat.add_le_add_left hsize (stored t.txedBuffer + stored t.retxBuffer)
    rw [Nat.add_right_comm, ← htxed] at hadded
    simp only [unacked, pollIf_txedBuffer, pollIf_retxBuffer]
    exact hadded
  · cases isRequested <;> rfl

/-- **Transmission.** -/
theorem Books.transmit (h : Books t A S) (ht : t.transmit bytes = some (t', out)) :
    ∃ S', Books t' A S' ∧ (∀ i, i < S' → (i < S → t.Holds (i % 1024)) → t'.Holds (i % 1024)) ∧
      t'.unacked ≤ t.unacked + bytes ∧ sizes t'.txonBuffer ≤ sizes t.txonBuffer := by
  have hidle : ∃ S', Books t A S' ∧ (∀ i, i < S' → (i < S → t.Holds (i % 1024)) → t.Holds (i % 1024)) ∧
      t.unacked ≤ t.unacked + bytes ∧ sizes t.txonBuffer ≤ sizes t.txonBuffer :=
    ⟨S, h, fun i hi hk => hk hi, Nat.le_add_right _ _, Nat.le_refl _⟩
  rcases transmit_inv ht with ⟨rfl, -⟩ | ht | ht
  · exact hidle
  · obtain ⟨hbooks, hholds, hsame, hbuf⟩ := h.retransmit ht
    refine ⟨S, hbooks, fun i hi hk => hholds _ (hk hi), ?_, ?_⟩
    · rw [hsame]
      exact Nat.le_add_right _ _
    · rw [hbuf]
  · rcases transmitNew_inv ht with ⟨rfl, -⟩ | ⟨firstSegment, txonBuffer, hbytes, hbuf, ht⟩
    · exact hidle
    · have hsize : sub32 t.txonBufferSize firstSegment.size = sizes txonBuffer % 4294967296 := by
        rw [h.txon, hbuf, sizes_cons, Nat.add_comm, sub32_add]
      obtain ⟨hbooks, hholds, hless, hrest⟩ := h.transmitPdu (fillDataField_size hsize firstSegment (bytes - 4) 1) ht
      have htakes := fillDataField_takes txonBuffer firstSegment (sub32 t.txonBufferSize firstSegment.size)
        (show 4 ≤ bytes by omega)
      refine ⟨S + 1, hbooks, fun i hi hk => hholds _ ?_, hless.trans (Nat.add_le_add_left htakes _), ?_⟩
      · rcases Nat.lt_succ_iff_lt_or_eq.mp hi with hi | rfl
        · exact .inl (hk hi)
        · exact .inr rfl
      · rw [hrest, hbuf]
        exact (fillDataField_leaves txonBuffer firstSegment _ _ 1).sizes_le

end

end LteRlcAmTx

end Ns3
