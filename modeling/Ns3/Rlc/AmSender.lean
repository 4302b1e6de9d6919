import Ns3.Lib.Machine
import Ns3.Rlc.AmBooks

/-!
# The transmitting side in acknowledged mode, over whole runs

An entity is served with packets, transmission opportunities, timers and PDUs
of its peer in any order. Its STATUS PDUs acknowledge a number of the window
and report missing only what is held. The registers, the slots and the sizes
of the buffers then stay consistent, and a PDU to retransmit is always found.

A STATUS PDU that stops at a number acknowledged before leaves `VT(A)` there,
at a PDU that is not held. `Stops` excludes it. The sizes are 32-bit words: in
bytes they are the sums of what is stored as long as these are below `2 ^ 32`.
-/

namespace Ns3

open Machine SequenceNumber10 LteRlcAmTx Option

inductive AmSenderEvent where
  | transmitPdcpPdu (p : Bytes)
  | transmitPdcpPdu2 (p : Bytes)
  | txOpportunity (bytes : Nat)
  | receivePdu (p : AmPacket)
  | expirePollRetransmit
  | expireReordering
  | expireStatusProhibit

namespace AmSender

/-- A handler of a timer runs only while the timer does. -/
def machine : Machine LteRlcAm AmSenderEvent AmPacket where
  step e
    | .transmitPdcpPdu p => some (e.doTransmitPdcpPdu p, [])
    | .transmitPdcpPdu2 p => some (e.doTransmitPdcpPdu2 p, [])
    | .txOpportunity bytes => e.doNotifyTxOpportunity bytes
    | .receivePdu p => (e.doReceivePdu p).map fun r => (r.1, [])
    | .expirePollRetransmit =>
      if e.tx.pollRetransmitTimer then e.expirePollRetransmitTimer.map fun e => (e, []) else none
    | .expireReordering => if e.rx.reorderingTimer then e.expireReorderingTimer.map fun e => (e, []) else none
    | .expireStatusProhibit => if e.rx.statusProhibitTimer then some (e.expireStatusProhibitTimer, []) else none

def isHeld (t : LteRlcAmTx) (k : Nat) : Bool := (t.txedBuffer k).pdu.isSome || (t.retxBuffer k).pdu.isSome

/-- The number is one of those from `VT(A)` on that come before `sn`. -/
def isBefore (t : LteRlcAmTx) (k : Nat) (sn : SequenceNumber10) : Prop :=
  k < 1024 ∧ SequenceNumber10.lt ⟨k, t.vtA.value⟩ (sn.setModulusBase t.vtA) = some true

instance (t : LteRlcAmTx) (k : Nat) (sn : SequenceNumber10) : Decidable (isBefore t k sn) :=
  inferInstanceAs (Decidable (_ ∧ _))

/-- The STATUS PDU acknowledges up to a number from `VT(A)` to `VT(S)` and
reports missing, below it, only PDUs not acknowledged yet. -/
def Truthful (t : LteRlcAmTx) (h : LteRlcAmHeader) : Prop :=
  h.isStatusPdu = true ∧ h.ackSn.value < 1024 ∧ (h.ackSn.setModulusBase t.vtA).le t.vtS = some true ∧
    ∀ k ∈ h.nackSnList, isBefore t k h.ackSn → isHeld t k = true

/-- It reports a PDU missing, or acknowledges all that was sent, or stops at a
PDU that is held. -/
def Stops (t : LteRlcAmTx) (h : LteRlcAmHeader) : Prop :=
  (∃ k ∈ h.nackSnList, isBefore t k h.ackSn) ∨ h.ackSn.eq t.vtS = true ∨ isHeld t h.ackSn.value = true

instance (t : LteRlcAmTx) (h : LteRlcAmHeader) : Decidable (Truthful t h) :=
  inferInstanceAs (Decidable (_ ∧ _ ∧ _ ∧ _))

instance (t : LteRlcAmTx) (h : LteRlcAmHeader) : Decidable (Stops t h) :=
  inferInstanceAs (Decidable (_ ∨ _ ∨ _))

def OnStatus (C : LteRlcAmTx → LteRlcAmHeader → Prop) (e : LteRlcAm) : AmSenderEvent → Prop
  | .receivePdu p => p.header.isControlPdu = true → C e.tx p.header
  | _ => True

def Served : LteRlcAm → AmSenderEvent → Prop := OnStatus Truthful

def ServedInOrder : LteRlcAm → AmSenderEvent → Prop := OnStatus fun t h => Truthful t h ∧ Stops t h

instance (e : LteRlcAm) : (a : AmSenderEvent) → Decidable (Served e a)
  | .receivePdu _ => inferInstanceAs (Decidable (_ → Truthful _ _))
  | .transmitPdcpPdu _ | .transmitPdcpPdu2 _ | .txOpportunity _ | .expirePollRetransmit | .expireReordering
  | .expireStatusProhibit => .isTrue trivial

instance (e : LteRlcAm) : (a : AmSenderEvent) → Decidable (ServedInOrder e a)
  | .receivePdu _ => inferInstanceAs (Decidable (_ → Truthful _ _ ∧ Stops _ _))
  | .transmitPdcpPdu _ | .transmitPdcpPdu2 _ | .txOpportunity _ | .expirePollRetransmit | .expireReordering
  | .expireStatusProhibit => .isTrue trivial

/-- The registers, the slots and the sizes, modulo `2 ^ 32`, agree; all
comparisons count from `VT(A)`. -/
structure Consistent (t : LteRlcAmTx) : Prop where
  base : t.vtA.modulusBase = t.vtA.value ∧ t.vtS.modulusBase = t.vtA.value
  lower : t.vtA.le t.vtS = some true
  upper : t.vtS.le t.vtMs = some true
  window : t.vtMs = t.vtA.add 512
  notBoth : ∀ k, (t.txedBuffer k).pdu = none ∨ (t.retxBuffer k).pdu = none
  first : t.vtA.lt t.vtS = some true →
    xor (t.txedBuffer t.vtA.value).pdu.isSome (t.retxBuffer t.vtA.value).pdu.isSome = true
  others : ∀ k, ¬ isBefore t k t.vtS → (t.txedBuffer k).pdu = none ∧ (t.retxBuffer k).pdu = none
  txedSize : t.txedBufferSize = stored t.txedBuffer % 4294967296
  retxSize : t.retxBufferSize = stored t.retxBuffer % 4294967296
  txonSize : t.txonBufferSize = sizes t.txonBuffer % 4294967296
  retxFound : 0 < t.retxBufferSize → t.vtA.lt t.vtS = some true ∧ (t.firstRetx 1025 t.vtA).isSome

/-- The three sizes are the sums of the sizes of the packets stored. -/
structure Counted (t : LteRlcAmTx) : Prop where
  txed : t.txedBufferSize = stored t.txedBuffer
  retx : t.retxBufferSize = stored t.retxBuffer
  txon : t.txonBufferSize = sizes t.txonBuffer

/-- A packet accepted and a PDU as long as the opportunity leave the sizes
below `2 ^ 32`. -/
def WithinBounds (e : LteRlcAm) : AmSenderEvent → Prop
  | .transmitPdcpPdu p | .transmitPdcpPdu2 p =>
    add32 e.tx.txonBufferSize p.length ≤ e.tx.maxTxBufferSize ∨ e.tx.maxTxBufferSize = 0 →
      e.tx.txonBufferSize + p.length < 4294967296
  | .txOpportunity bytes => e.tx.txedBufferSize + e.tx.retxBufferSize + bytes < 4294967296
  | _ => True

instance (e : LteRlcAm) : (a : AmSenderEvent) → Decidable (WithinBounds e a)
  | .transmitPdcpPdu _ | .transmitPdcpPdu2 _ => inferInstanceAs (Decidable (_ → _))
  | .txOpportunity _ => inferInstanceAs (Decidable (_ < _))
  | .receivePdu _ | .expirePollRetransmit | .expireReordering | .expireStatusProhibit => .isTrue trivial

/-! ## Every step -/

inductive TxStep (t : LteRlcAmTx) : AmSenderEvent → LteRlcAmTx → Prop
  | store (p : Bytes) : TxStep t (.transmitPdcpPdu p) (t.storePdcpPdu p)
  | store2 (p : Bytes) : TxStep t (.transmitPdcpPdu2 p) (t.storePdcpPdu p)
  | idle (a : AmSenderEvent) : TxStep t a t
  | transmit {bytes : Nat} {t' : LteRlcAmTx} {out : List AmPacket} (htx : t.transmit bytes = some (t', out)) :
      TxStep t (.txOpportunity bytes) t'
  | status {p : AmPacket} {t' : LteRlcAmTx} (hcontrol : p.header.isControlPdu = true)
      (htx : t.receiveStatus p.header = some t') : TxStep t (.receivePdu p) t'
  | poll {t' : LteRlcAmTx} (htx : t.expirePollRetransmitTimer = some t') : TxStep t .expirePollRetransmit t'

section
variable {t : LteRlcAmTx} {A S : Nat}

theorem isHeld_iff (t : LteRlcAmTx) (k : Nat) : isHeld t k = true ↔ t.Holds k := by
  simp only [isHeld, Bool.or_eq_true, isSome_iff_exists]
  exact exists_or.symm

theorem isBefore_iff (h : Books t A S) {k j : Nat} {sn : SequenceNumber10} (hsn : sn.value = j % 1024) (hj : A ≤ j)
    (hj' : j < A + 1024) : isBefore t k sn ↔ ∃ i, A ≤ i ∧ i < j ∧ i % 1024 = k := by
  have hj'' : sn.setModulusBase t.vtA = ofIndex j A := by simp [setModulusBase, hsn, h.vtA, ofIndex]
  have hindex : ∀ i, i % 1024 = k → (⟨k, t.vtA.value⟩ : SequenceNumber10) = ofIndex i A := by
    rintro i rfl
    simp [h.vtA, ofIndex]
  constructor
  · rintro ⟨hk, hlt⟩
    have hmod : indexFrom A k % 1024 = k := by rw [indexFrom_mod, Nat.mod_eq_of_lt hk]
    rw [hindex _ hmod, hj'', lt_ofIndex (le_indexFrom A k) (indexFrom_lt A k) hj hj'] at hlt
    exact ⟨indexFrom A k, le_indexFrom A k, by simpa using hlt, hmod⟩
  · rintro ⟨i, hi, hi', rfl⟩
    refine ⟨Nat.mod_lt i (by omega), ?_⟩
    rw [hindex i rfl, hj'', lt_ofIndex hi (by omega) hj hj']
    simpa using hi'

/-- The books are kept, and the PDU at `VT(A)` is held. -/
def Inv (t : LteRlcAmTx) : Prop := ∃ A S, Books t A S ∧ (A < S → t.Holds (A % 1024))

theorem Inv.consistent (h : Inv t) : Consistent t := by
  obtain ⟨A, S, h, hfirst⟩ := h
  have hlo := h.lower
  have hup := h.upper
  have hlt : t.vtA.lt t.vtS = some (decide (A < S)) := by
    rw [h.vtA, h.vtS, lt_ofIndex (Nat.le_refl A) (by omega) hlo (by omega)]
  have hvalue : t.vtA.value = A % 1024 := by rw [h.vtA, ofIndex_value]
  refine ⟨?_, ?_, ?_, ?_, h.exclusive, ?_, ?_, h.txed, h.retx, h.txon, ?_⟩
  · simp [h.vtA, h.vtS, ofIndex]
  · rw [h.vtA, h.vtS, le_ofIndex (Nat.le_refl A) (by omega) hlo (by omega)]
    simpa using hlo
  · rw [h.vtS, h.vtMs, le_ofIndex hlo (by omega) (by omega) (by omega)]
    simpa using hup
  · rw [h.vtMs, h.vtA, add_ofIndex]
  · intro hvt
    rw [hlt] at hvt
    obtain ⟨p, hp⟩ := hfirst (by simpa using hvt)
    rw [hvalue]
    rcases hp with hp | hp
    · have hnone := (h.exclusive (A % 1024)).resolve_left (by simp [hp])
      simp [hp, hnone]
    · have hnone := (h.exclusive (A % 1024)).resolve_right (by simp [hp])
      simp [hp, hnone]
  · intro k hk
    rw [isBefore_iff h (by rw [h.vtS, ofIndex_value]) hlo (by omega)] at hk
    constructor
    · exact eq_none_iff_forall_ne_some.mpr fun p hp => hk (h.inside k ⟨p, .inl hp⟩)
    · exact eq_none_iff_forall_ne_some.mpr fun p hp => hk (h.inside k ⟨p, .inr hp⟩)
  · intro hsize
    obtain ⟨hAS, hfound⟩ := h.firstRetx hsize
    exact ⟨by rw [hlt, decide_eq_true hAS], hfound⟩

theorem Inv.counted_iff (h : Inv t) : Counted t ↔
    stored t.txedBuffer < 4294967296 ∧ stored t.retxBuffer < 4294967296 ∧ sizes t.txonBuffer < 4294967296 := by
  obtain ⟨A, S, h, -⟩ := h
  obtain ⟨htxed, hretx, htxon⟩ : _ ∧ _ ∧ _ := ⟨h.txed, h.retx, h.txon⟩
  constructor
  · rintro ⟨htxed', hretx', htxon'⟩
    omega
  · rintro ⟨htxed', hretx', htxon'⟩
    exact ⟨by omega, by omega, by omega⟩

/-- The sums stay below `2 ^ 32`, whatever is moved between the buffers. -/
def Bounded (t : LteRlcAmTx) : Prop := t.unacked < 4294967296 ∧ sizes t.txonBuffer < 4294967296

theorem Bounded.counted (hb : Bounded t) (h : Inv t) : Counted t := by
  refine h.counted_iff.mpr ⟨?_, ?_, hb.2⟩
  · exact (Nat.le_add_right _ _).trans_lt hb.1
  · exact (Nat.le_add_left _ _).trans_lt hb.1

variable {t' : LteRlcAmTx}

theorem Bounded.lessen (hb : Bounded t) (hless : Lessens t t') : Bounded t' :=
  ⟨hless.1.trans_lt hb.1, hless.2 ▸ hb.2⟩

theorem Inv.store (h : Inv t) (p : Bytes) : Inv (t.storePdcpPdu p) := by
  obtain ⟨A, S, h, hfirst⟩ := h
  refine ⟨A, S, h.store p, fun hlt => (hfirst hlt).imp fun q hq => ?_⟩
  rw [storePdcpPdu_slot]
  exact hq

theorem Inv.transmit {bytes : Nat} {out : List AmPacket} (h : Inv t) (ht : t.transmit bytes = some (t', out)) :
    Inv t' ∧ t'.unacked ≤ t.unacked + bytes ∧ sizes t'.txonBuffer ≤ sizes t.txonBuffer := by
  obtain ⟨A, S, h, hfirst⟩ := h
  obtain ⟨S', h', hheld, hless⟩ := h.transmit ht
  exact ⟨⟨A, S', h', fun hlt => hheld A hlt hfirst⟩, hless⟩

theorem Inv.expirePollRetransmitTimer (h : Inv t) (ht : t.expirePollRetransmitTimer = some t') :
    Inv t' ∧ Lessens t t' := by
  obtain ⟨A, S, h, hfirst⟩ := h
  obtain ⟨⟨h', hless⟩, hheld⟩ := h.expirePollRetransmitTimer ht
  exact ⟨⟨A, S, h', fun hlt => (hheld _).mpr (hfirst hlt)⟩, hless⟩

theorem Inv.receiveStatus {rlcAmHeader : LteRlcAmHeader} (h : Inv t)
    (htruthful : Truthful t rlcAmHeader) (hstops : Stops t rlcAmHeader)
    (ht : t.receiveStatus rlcAmHeader = some t') : Inv t' ∧ Lessens t t' := by
  obtain ⟨A, S, h, hfirst⟩ := h
  obtain ⟨-, hvalue, hle, -⟩ := htruthful
  have hlo := h.lower
  have hup := h.upper
  have hsn : rlcAmHeader.ackSn.value = indexFrom A rlcAmHeader.ackSn.value % 1024 := by
    rw [indexFrom_mod, Nat.mod_eq_of_lt hvalue]
  have hA := le_indexFrom A rlcAmHeader.ackSn.value
  have hA' := indexFrom_lt A rlcAmHeader.ackSn.value
  generalize indexFrom A rlcAmHeader.ackSn.value = ack at hsn hA hA'
  have hS : ack ≤ S := by
    have hack : rlcAmHeader.ackSn.setModulusBase t.vtA = ofIndex ack A := by simp [setModulusBase, hsn, h.vtA, ofIndex]
    rw [hack, h.vtS, le_ofIndex hA hA' hlo (by omega)] at hle
    simpa using hle
  obtain ⟨A', h', hend, hstay, hless⟩ := h.receiveStatus hsn hA hS ht
  refine ⟨⟨A', S, h', fun hlt => ?_⟩, hless⟩
  rcases hend with hheld | ⟨rfl, hnone⟩
  · exact hheld
  · rcases hstops with ⟨k, hk, hbefore⟩ | heq | hheld
    · obtain ⟨i, hi, hi', rfl⟩ := (isBefore_iff h hsn hA hA').mp hbefore
      exact absurd hk (hnone i hi hi')
    · have hmod : A' % 1024 = S % 1024 := by
        have : rlcAmHeader.ackSn.value = t.vtS.value := by simpa [SequenceNumber10.eq] using heq
        rw [← hsn, this, h.vtS, ofIndex_value]
      omega
    · rw [isHeld_iff, hsn] at hheld
      exact hstay A' (Nat.le_refl A') hlt hheld

end

variable {a : AmSenderEvent} {e : LteRlcAm}

theorem step_tx {e e' : LteRlcAm} {o : List AmPacket} (hstep : machine.step e a = some (e', o)) :
    TxStep e.tx a e'.tx := by
  cases a with
  | transmitPdcpPdu p =>
    cases hstep
    exact .store p
  | transmitPdcpPdu2 p =>
    cases hstep
    exact .store2 p
  | txOpportunity bytes =>
    simp only [machine, LteRlcAm.doNotifyTxOpportunity] at hstep
    split at hstep
    · cases hstep
    · split at hstep
      · split at hstep
        · cases hstep
        · cases hstep
          exact .idle _
      · split at hstep
        · cases hstep
        · rename_i tx out htx
          cases hstep
          exact .transmit htx
  | receivePdu p =>
    obtain ⟨r, hr, hs⟩ := map_eq_some_iff.mp hstep
    cases hs
    unfold LteRlcAm.doReceivePdu at hr
    split at hr
    · split at hr
      · cases hr
      · cases hr
        exact .idle _
    · split at hr
      · rename_i hcontrol
        split at hr
        · cases hr
        · rename_i tx htx
          cases hr
          exact .status hcontrol htx
      · cases hr
        exact .idle _
  | expirePollRetransmit =>
    simp only [machine] at hstep
    split at hstep
    · obtain ⟨e₁, he₁, hs⟩ := map_eq_some_iff.mp hstep
      cases hs
      unfold LteRlcAm.expirePollRetransmitTimer at he₁
      split at he₁
      · cases he₁
      · rename_i tx htx
        cases he₁
        exact .poll htx
    · cases hstep
  | expireReordering =>
    simp only [machine] at hstep
    split at hstep
    · obtain ⟨e₁, he₁, hs⟩ := map_eq_some_iff.mp hstep
      cases hs
      unfold LteRlcAm.expireReorderingTimer at he₁
      split at he₁
      · cases he₁
      · cases he₁
        exact .idle _
    · cases hstep
  | expireStatusProhibit =>
    simp only [machine] at hstep
    split at hstep
    · cases hstep
      exact .idle _
    · cases hstep

/-- STATUS PDUs served in order keep the registers consistent. -/
theorem Inv.step {t' : LteRlcAmTx} (h : Inv e.tx) (hserved : ServedInOrder e a)
    (hstep : TxStep e.tx a t') : Inv t' := by
  cases hstep with
  | store p | store2 p => exact h.store p
  | idle => exact h
  | transmit htx => exact (h.transmit htx).1
  | status hcontrol htx => exact (h.receiveStatus (hserved hcontrol).1 (hserved hcontrol).2 htx).1
  | poll htx => exact (h.expirePollRetransmitTimer htx).1

theorem Bounded.store {t : LteRlcAmTx} (hb : Bounded t) (h : Inv t) {p : Bytes}
    (hp : add32 t.txonBufferSize p.length ≤ t.maxTxBufferSize ∨ t.maxTxBufferSize = 0 →
      t.txonBufferSize + p.length < 4294967296) : Bounded (t.storePdcpPdu p) := by
  unfold storePdcpPdu
  split
  · rename_i hroom
    refine ⟨hb.1, ?_⟩
    rw [sizes_snoc, ← (hb.counted h).txon]
    exact hp hroom
  · exact hb

theorem Bounded.step {t' : LteRlcAmTx} (hb : Bounded e.tx) (h : Inv e.tx)
    (hserved : ServedInOrder e a) (hwithin : WithinBounds e a) (hstep : TxStep e.tx a t') : Bounded t' := by
  cases hstep with
  | store p | store2 p => exact hb.store h hwithin
  | idle => exact hb
  | transmit htx =>
    obtain ⟨-, hunacked, hsizes⟩ := h.transmit htx
    have hcounted := hb.counted h
    simp only [WithinBounds, hcounted.txed, hcounted.retx] at hwithin
    exact ⟨hunacked.trans_lt hwithin, hsizes.trans_lt hb.2⟩
  | status hcontrol htx => exact hb.lessen (h.receiveStatus (hserved hcontrol).1 (hserved hcontrol).2 htx).2
  | poll htx => exact hb.lessen (h.expirePollRetransmitTimer htx).2

/-! ## Every run -/

def start (maxTxBufferSize : Nat) (alwaysBigEnough : Bool) : LteRlcAm :=
  { tx := { maxTxBufferSize := maxTxBufferSize, txOpportunityForRetxAlwaysBigEnough := alwaysBigEnough } }

section
variable {maxTxBufferSize : Nat} {alwaysBigEnough : Bool} {tr : List (AmSenderEvent × List AmPacket)} {e : LteRlcAm}

theorem inv_of_run (hrun : Run machine ServedInOrder (start maxTxBufferSize alwaysBigEnough) tr e) : Inv e.tx := by
  refine Run.invariant (fun _ e => Inv e.tx) ?_ ?_ hrun
  · exact ⟨0, 0, books_init maxTxBufferSize alwaysBigEnough, fun hlt => absurd hlt (Nat.lt_irrefl 0)⟩
  · intro tr e a e' o hinv hserved hstep
    exact hinv.step hserved (step_tx hstep)

/-- The sums of the sizes stay below `2 ^ 32`, so none of them wraps. -/
theorem bounded_of_run (hrun : Run machine (fun e a => ServedInOrder e a ∧ WithinBounds e a)
    (start maxTxBufferSize alwaysBigEnough) tr e) : Inv e.tx ∧ Bounded e.tx := by
  refine Run.invariant (fun _ e => Inv e.tx ∧ Bounded e.tx) ?_ ?_ hrun
  · refine ⟨⟨0, 0, books_init maxTxBufferSize alwaysBigEnough, fun hlt => absurd hlt (Nat.lt_irrefl 0)⟩, ?_⟩
    simp [Bounded, unacked, stored, start, sizes]
  · rintro tr e a e' o ⟨hinv, hb⟩ ⟨hserved, hwithin⟩ hstep
    have htx := step_tx hstep
    exact ⟨hinv.step hserved htx, hb.step hinv hserved hwithin htx⟩

end

/-- **Consistency.** In every run in which no STATUS PDU stops at a PDU that was
acknowledged before, registers, slots and sizes agree in every state. The sizes
are the sums of what is stored exactly while these are below `2 ^ 32`, which
they are as long as nothing that goes past it is accepted or offered. -/
theorem consistent_of_run (maxTxBufferSize : Nat) (alwaysBigEnough : Bool)
    {tr : List (AmSenderEvent × List AmPacket)} {e : LteRlcAm}
    (h : Run machine ServedInOrder (start maxTxBufferSize alwaysBigEnough) tr e) : Consistent e.tx ∧ (Counted e.tx ↔
        stored e.tx.txedBuffer < 4294967296 ∧ stored e.tx.retxBuffer < 4294967296 ∧ sizes e.tx.txonBuffer < 4294967296) ∧
      (Run machine (fun e a => ServedInOrder e a ∧ WithinBounds e a) (start maxTxBufferSize alwaysBigEnough) tr e →
        Counted e.tx) := by
  refine ⟨(inv_of_run h).consistent, (inv_of_run h).counted_iff, fun hrun => ?_⟩
  obtain ⟨hinv, hb⟩ := bounded_of_run hrun
  exact hb.counted hinv

/-- A STATUS PDU with its ACK_SN and NACK_SNs. -/
def status (ackSn : Nat) (nackSnList : List Nat) : AmSenderEvent :=
  .receivePdu ⟨{ LteRlcAmHeader.setControlPdu {} LteRlcAmHeader.STATUS_PDU with
    ackSn := .ofValue ackSn, nackSnList := nackSnList }, []⟩

def send (p : Bytes) : List AmSenderEvent := [.transmitPdcpPdu p, .txOpportunity 100]

/-- Three PDUs are sent; the first is reported missing, retransmitted, and
acknowledged with what follows. -/
def firstMissed : List AmSenderEvent :=
  send [1] ++ send [2] ++ send [3] ++ [status 3 [0], .txOpportunity 100, .expirePollRetransmit, status 1 [0], status 3 []]

theorem firstMissed_isSome : (machine.exec (fun e a => ServedInOrder e a ∧ WithinBounds e a) (start 10240 false)
    firstMissed).isSome := by
  decide +kernel

theorem first_missed_consistent : ∃ tr e, Run machine ServedInOrder (start 10240 false) tr e ∧
    e.tx.vtA.value = 3 ∧ Consistent e.tx ∧ Counted e.tx := by
  have hrun := run_of_isSome machine _ _ _ firstMissed_isSome
  obtain ⟨hconsistent, -, hcounted⟩ := consistent_of_run 10240 false (hrun.mono fun _ _ h => h.1)
  exact ⟨_, _, hrun.mono fun _ _ h => h.1, by decide +kernel, hconsistent, hcounted hrun⟩

/-- The first PDU is acknowledged alone, after those that follow it. -/
def firstAckedAlone : List AmSenderEvent := send [1] ++ send [2] ++ send [3] ++ [status 3 [0], status 1 []]

theorem firstAckedAlone_empty : ((machine.exec Served (start 10240 false) firstAckedAlone).any fun r =>
    r.2.tx.vtA.lt r.2.tx.vtS = some true && !isHeld r.2.tx r.2.tx.vtA.value) = true := by
  decide +kernel

/-- **`VT(A)` stays at a PDU acknowledged before**, which neither buffer holds. -/
theorem first_acked_alone : ∃ tr e, Run machine Served (start 10240 false) tr e ∧ ¬ Consistent e.tx := by
  obtain ⟨tr, e, hrun, hempty⟩ := run_of_any machine Served firstAckedAlone_empty
  rw [Bool.and_eq_true, decide_eq_true_eq] at hempty
  obtain ⟨hlt, hnot⟩ := hempty
  refine ⟨tr, e, hrun, fun hconsistent => ?_⟩
  have hone := hconsistent.first hlt
  have hheld : isHeld e.tx e.tx.vtA.value = false := by simpa using hnot
  simp only [isHeld, Bool.or_eq_false_iff] at hheld
  rw [hheld.1, hheld.2] at hone
  cases hone

end AmSender

end Ns3
