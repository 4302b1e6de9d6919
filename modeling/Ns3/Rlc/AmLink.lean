import Ns3.Lib.Machine
import Ns3.Rlc.Am

/-!
# Two entities and the channel between them

Both entities take packets, transmission opportunities and timer expiries in
any order. The channel loses, repeats, delays and reorders: a PDU once sent
can be received at any later time, any number of times. For each direction the
system keeps track of the absolute indices that the 10-bit numbers stand for.
-/

namespace Ns3

open SequenceNumber10

/-- Whether a data PDU that arrives now is placed in the reception buffer. -/
def LteRlcAmRx.places (r : LteRlcAmRx) (p : AmPacket) : Bool :=
  match r.isInsideReceivingWindow (p.header.sequenceNumber.setModulusBase r.vrR) with
  | some (true, _) => (r.rxonBuffer.find p.header.sequenceNumber.value).isNone
  | _ => false

/-- One direction: the data PDUs ever sent and the STATUS PDUs ever sent back,
each with the index of its SN or ACK_SN, the indices placed in the reception
buffer, and those of `VT(A)`, `VT(S)` and `VR(R)`. -/
structure AmDirection where
  data : List (Nat × AmPacket) := []
  status : List (Nat × AmPacket) := []
  placed : List Nat := []
  vtA : Nat := 0
  vtS : Nat := 0
  vrR : Nat := 0

namespace AmDirection

/-- The registers only move forward, by less than 1024 at once. -/
def followTx (d : AmDirection) (t : LteRlcAmTx) : AmDirection :=
  { d with vtA := indexFrom d.vtA t.vtA.value, vtS := indexFrom d.vtS t.vtS.value }

def followRx (d : AmDirection) (r : LteRlcAmRx) : AmDirection := { d with vrR := indexFrom d.vrR r.vrR.value }

def sendData (d : AmDirection) (out : List AmPacket) : AmDirection :=
  { d with data := d.data ++ out.map fun p => (indexFrom d.vtA p.header.sequenceNumber.value, p) }

def sendStatus (d : AmDirection) (out : List AmPacket) : AmDirection :=
  { d with status := d.status ++ out.map fun p => (indexFrom d.vrR p.header.ackSn.value, p) }

def place (d : AmDirection) (i : Nat) (isPlaced : Bool) : AmDirection :=
  if isPlaced then { d with placed := i :: d.placed } else d

end AmDirection

structure AmLink where
  a : LteRlcAm := {}
  b : LteRlcAm := {}
  ab : AmDirection := {}
  ba : AmDirection := {}

inductive AmEvent where
  | transmitPdcpPdu (p : Bytes)
  | transmitPdcpPdu2 (p : Bytes)
  | txOpportunity (bytes : Nat)
  | receiveData (k : Nat)
  | receiveStatus (k : Nat)
  | expireReordering
  | expirePollRetransmit
  | expireStatusProhibit

inductive AmSide where
  | a
  | b

namespace AmLink

def swap (s : AmLink) : AmLink := ⟨s.b, s.a, s.ba, s.ab⟩

def received (out : List (AmPacket × List Bytes)) : List Bytes := out.flatMap Prod.snd

/-- An event at the first entity. PDCP PDUs have a header and are never empty. -/
def stepA (s : AmLink) : AmEvent → Option (AmLink × List Bytes)
  | .transmitPdcpPdu p => if p = [] then none else some ({ s with a := s.a.doTransmitPdcpPdu p }, [])
  | .transmitPdcpPdu2 p => if p = [] then none else some ({ s with a := s.a.doTransmitPdcpPdu2 p }, [])
  | .txOpportunity bytes =>
    match s.a.doNotifyTxOpportunity bytes with
    | none => none
    | some (a, out) =>
      some ({ s with
        a := a
        ab := (s.ab.followTx a.tx).sendData (out.filter fun p => p.header.isDataPdu)
        ba := s.ba.sendStatus (out.filter fun p => p.header.isControlPdu) }, [])
  | .receiveData k =>
    match s.ba.data[k]? with
    | none => none
    | some (i, p) =>
      match s.a.doReceivePdu p with
      | none => none
      | some (a, out) =>
        some ({ s with a := a, ba := (s.ba.place i (s.a.rx.places p)).followRx a.rx }, received out)
  | .receiveStatus k =>
    match s.ab.status[k]? with
    | none => none
    | some (_, p) =>
      match s.a.doReceivePdu p with
      | none => none
      | some (a, out) => some ({ s with a := a, ab := s.ab.followTx a.tx }, received out)
  | .expireReordering =>
    if s.a.rx.reorderingTimer then s.a.expireReorderingTimer.map fun a => ({ s with a := a }, []) else none
  | .expirePollRetransmit =>
    if s.a.tx.pollRetransmitTimer then s.a.expirePollRetransmitTimer.map fun a => ({ s with a := a }, []) else none
  | .expireStatusProhibit =>
    if s.a.rx.statusProhibitTimer then some ({ s with a := s.a.expireStatusProhibitTimer }, []) else none

def machine : Machine AmLink (AmSide × AmEvent) Bytes where
  step s
    | (.a, e) => s.stepA e
    | (.b, e) => (s.swap.stepA e).map fun r => (r.1.swap, r.2)

/-- The PDU with index `i` is no longer kept: it is behind `VT(A)`, or in none
of the buffers. -/
def Discarded (t : LteRlcAmTx) (d : AmDirection) (i : Nat) : Prop :=
  i < d.vtA ∨ ((t.txedBuffer (i % 1024)).pdu = none ∧ (t.retxBuffer (i % 1024)).pdu = none)

instance (t : LteRlcAmTx) (d : AmDirection) (i : Nat) : Decidable (Discarded t d i) :=
  inferInstanceAs (Decidable (_ ∨ (_ ∧ _)))

/-- Every PDU sent and discarded has been placed by the peer. -/
def NoneLost (t : LteRlcAmTx) (d : AmDirection) : Prop := ∀ i < d.vtS, Discarded t d i → i ∈ d.placed

instance (t : LteRlcAmTx) (d : AmDirection) : Decidable (NoneLost t d) :=
  inferInstanceAs (Decidable (∀ i < d.vtS, Discarded t d i → i ∈ d.placed))

/-- At the first entity, a data PDU whose number is in the receiving window is
not behind `VR(R)`, and a STATUS PDU does not acknowledge an index behind
`VT(A)` while PDUs are outstanding. -/
def TimelyA (s : AmLink) : AmEvent → Prop
  | .receiveData k => ∀ e ∈ s.ba.data[k]?, s.ba.vrR ≤ e.1 ∨ s.ba.vrR + 512 ≤ indexFrom s.ba.vrR e.1
  | .receiveStatus k => ∀ e ∈ s.ab.status[k]?, s.ab.vtA ≤ e.1 ∨ s.ab.vtA = s.ab.vtS
  | _ => True

instance (s : AmLink) : (e : AmEvent) → Decidable (s.TimelyA e)
  | .transmitPdcpPdu _ => .isTrue trivial
  | .transmitPdcpPdu2 _ => .isTrue trivial
  | .txOpportunity _ => .isTrue trivial
  | .receiveData k => inferInstanceAs (Decidable (∀ e ∈ s.ba.data[k]?, _ ≤ e.1 ∨ _ ≤ indexFrom _ e.1))
  | .receiveStatus k => inferInstanceAs (Decidable (∀ e ∈ s.ab.status[k]?, _ ≤ e.1 ∨ _ = _))
  | .expireReordering => .isTrue trivial
  | .expirePollRetransmit => .isTrue trivial
  | .expireStatusProhibit => .isTrue trivial

def Timely (s : AmLink) : AmSide × AmEvent → Prop
  | (.a, e) => s.TimelyA e
  | (.b, e) => s.swap.TimelyA e

instance (s : AmLink) : (e : AmSide × AmEvent) → Decidable (s.Timely e)
  | (.a, e) => inferInstanceAs (Decidable (s.TimelyA e))
  | (.b, e) => inferInstanceAs (Decidable (s.swap.TimelyA e))

end AmLink

end Ns3
