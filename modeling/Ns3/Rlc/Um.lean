import Ns3.Lib.Loop
import Ns3.Lib.OrdMap
import Ns3.Rlc.Reassembly

/-!
# `LteRlcUm`

The unacknowledged-mode RLC entity: its transmitting side fills PDUs from the
transmission buffer, its receiving side reorders the PDUs in a window of 512
sequence numbers and reassembles their SDUs. No method uses members of both
sides, so each side is a state of its own.

Buffer status reports, traces and time stamps are left out. A step with no
result is a failed assertion or undefined behaviour.
-/

namespace Ns3

/-! ## Transmitting side -/

structure LteRlcUmTx where
  maxTxBufferSize : Nat := 10 * 1024 * 2
  txBuffer : List TxPdu := []
  txBufferSize : Nat := 0
  sequenceNumber : SequenceNumber10 := .ofValue 0
  ncArqAddTop : Nat := 0
  toogleFlagRlc : Bool := false
  noDataFlagRlc : Bool := false

namespace LteRlcUmTx

/-- The body of `DoTransmitPdcpPdu` and `DoTransmitPdcpPdu2`. -/
def storePdcpPdu (s : LteRlcUmTx) (p : Bytes) : LteRlcUmTx :=
  if add32 s.txBufferSize p.length ≤ s.maxTxBufferSize then
    let pdu : TxPdu := ⟨p, .fullSdu⟩
    { s with
      txBuffer :=
        if s.ncArqAddTop = 1 then
          if s.txBufferSize ≠ 0 then s.txBuffer.take 1 ++ pdu :: s.txBuffer.drop 1 else pdu :: s.txBuffer
        else s.txBuffer ++ [pdu]
      txBufferSize := add32 s.txBufferSize p.length }
  else s

def doTransmitPdcpPdu (s : LteRlcUmTx) (p : Bytes) : LteRlcUmTx := s.storePdcpPdu p

def doTransmitPdcpPdu2 (s : LteRlcUmTx) (p : Bytes) : LteRlcUmTx := s.storePdcpPdu p

/-- The header and the data field together. The tag with the time is for the
bytes of the header from the second one on, and `AddByteTag` aborts when its
range ends before it begins. -/
def buildPdu (sequenceNumber : SequenceNumber10) (d : DataField) : Option Bytes :=
  match framingInfoOf d.segments with
  | none => none
  | some framingInfo =>
    let rlcHeader := d.extensionBits.foldl LteRlcHeader.pushExtensionBit {}
    let rlcHeader := d.lengthIndicators.foldl LteRlcHeader.pushLengthIndicator rlcHeader
    let rlcHeader := (rlcHeader.setSequenceNumber sequenceNumber).setFramingInfo framingInfo
    if rlcHeader.getSerializedSize < 1 then none else rlcHeader.addHeader (d.segments.map TxPdu.pdu).flatten

def transmitPdu (s : LteRlcUmTx) (d : DataField) : Option (LteRlcUmTx × List Bytes) :=
  match buildPdu s.sequenceNumber d with
  | none => none
  | some packet =>
    some ({ s with
      txBuffer := d.txBuffer
      txBufferSize := d.txBufferSize
      sequenceNumber := s.sequenceNumber.incr }, [packet])

def doNotifyTxOpportunity (s : LteRlcUmTx) (bytes : Nat) : Option (LteRlcUmTx × List Bytes) :=
  if bytes ≤ 2 then some (s, [])
  else
    match s.txBuffer with
    | [] => some (s, [])
    | firstSegment :: txBuffer =>
      s.transmitPdu (fillDataField firstSegment txBuffer (sub32 s.txBufferSize firstSegment.size) (bytes - 2) 1)

/-- The bytes given on to the other RLC entity, and the flag that offers them. -/
def remainAfter (flag : Nat) (isCut : Bool) (nextSegmentSize : Nat) : Nat × Bool :=
  if isCut then (if flag = 2 then 2 else 0, false)
  else if nextSegmentSize ≤ 4 then (0, false)
  else (nextSegmentSize, true)

/-- The overload with a flag: one SDU or segment in each PDU. It also returns
what remains of the opportunity. -/
def doNotifyTxOpportunityFlag (s : LteRlcUmTx) (bytes flag : Nat) : Option (LteRlcUmTx × List Bytes × Nat) :=
  let s := { s with toogleFlagRlc := false, noDataFlagRlc := false }
  if bytes ≤ 4 then some (s, [], if flag = 0 then 0 else 2)
  else
    match s.txBuffer with
    | [] => some ({ s with toogleFlagRlc := true, noDataFlagRlc := true }, [], bytes + 4)
    | firstSegment :: txBuffer =>
      -- an empty packet never enters the loop, so there is no data field
      if firstSegment.size = 0 then none
      else
        let nextSegmentSize := bytes - 2
        let isCut := decide (firstSegment.size > nextSegmentSize ∨ firstSegment.size > 2047)
        let d :=
          if isCut then cutToFit firstSegment txBuffer (sub32 s.txBufferSize firstSegment.size) nextSegmentSize
          else takeLast firstSegment txBuffer (sub32 s.txBufferSize firstSegment.size) nextSegmentSize
        let remain := remainAfter flag isCut d.nextSegmentSize
        match s.transmitPdu d with
        | none => none
        | some (s, out) => some ({ s with toogleFlagRlc := remain.2 }, out, remain.1)

end LteRlcUmTx

/-! ## Receiving side -/

structure LteRlcUmRx where
  rxBuffer : OrdMap Nat Bytes := .empty
  vrUr : SequenceNumber10 := .ofValue 0
  vrUx : SequenceNumber10 := .ofValue 0
  vrUh : SequenceNumber10 := .ofValue 0
  /-- `m_reorderingTimer.IsRunning ()`. -/
  reorderingTimer : Bool := false
  reassembly : Reassembly := {}

namespace LteRlcUmRx

def windowSize : Nat := 512

/-- Sets the base of `vrUh` too. -/
def isInsideReorderingWindow (r : LteRlcUmRx) (seqNumber : SequenceNumber10) : Option (Bool × LteRlcUmRx) :=
  let vrUh := r.vrUh.setModulusBase (r.vrUh.sub windowSize)
  let seqNumber := seqNumber.setModulusBase (vrUh.sub windowSize)
  match andAlso ((vrUh.sub windowSize).le seqNumber) (seqNumber.lt vrUh) with
  | none => none
  | some inside => some (inside, { r with vrUh := vrUh })

def reassembleAndDeliver (r : Reassembly) (packet : Bytes) : Option (Reassembly × List Bytes) :=
  match LteRlcHeader.removeHeader packet with
  | none => none
  | some (rlcHeader, data) =>
    match splitSdus rlcHeader.extensionBits rlcHeader.lengthIndicators data with
    | none => none
    | some sdus =>
      let (expectedSnLost, r) := r.noteSeqNumber rlcHeader.sequenceNumber
      let r := { r with sdusBuffer := r.sdusBuffer ++ sdus }
      match expectedSnLost, r.reassemblingState with
      | false, .waitingS0Full => r.startOver rlcHeader.framingInfo
      | false, .waitingSiSf => r.continueSdu rlcHeader.framingInfo
      | true, .waitingS0Full => r.startOver rlcHeader.framingInfo
      | true, .waitingSiSf => { r with keepS0 := none }.startOver rlcHeader.framingInfo

/-- Reassembles a buffered packet and takes it out of the buffer. -/
def release (r : LteRlcUmRx) (sn : Nat) (packet : Bytes) : Option (LteRlcUmRx × List Bytes) :=
  match reassembleAndDeliver r.reassembly packet with
  | none => none
  | some (reassembly, sdus) => some ({ r with reassembly := reassembly, rxBuffer := r.rxBuffer.erase sn }, sdus)

/-- `ReassembleOutsideWindow` over the entries from the smallest key on: it
stops at the first one inside the window. -/
def reassembleOutsideWindow : List (Nat × Bytes) → LteRlcUmRx → Option (LteRlcUmRx × List Bytes)
  | [], r => some (r, [])
  | e :: entries, r =>
    match r.isInsideReorderingWindow (.ofValue e.1) with
    | none => none
    | some (true, r) => some (r, [])
    | some (false, r) =>
      match r.release e.1 e.2 with
      | none => none
      | some (r, sdus) =>
        match reassembleOutsideWindow entries r with
        | none => none
        | some (r, more) => some (r, sdus ++ more)

def reassembleSnInterval : Nat → SequenceNumber10 → SequenceNumber10 → LteRlcUmRx → Option (LteRlcUmRx × List Bytes)
  | 0, _, _, _ => none
  | fuel + 1, reassembleSn, highSeqNumber, r =>
    match reassembleSn.lt highSeqNumber with
    | none => none
    | some false => some (r, [])
    | some true =>
      match r.rxBuffer.find reassembleSn.value with
      | none => reassembleSnInterval fuel reassembleSn.incr highSeqNumber r
      | some packet =>
        match r.release reassembleSn.value packet with
        | none => none
        | some (r, sdus) =>
          match reassembleSnInterval fuel reassembleSn.incr highSeqNumber r with
          | none => none
          | some (r, more) => some (r, sdus ++ more)

def received (r : LteRlcUmRx) (sn : Nat) : Bool := (r.rxBuffer.find sn).isSome

/-- Whether a PDU is discarded: received before, or before `VR(UR)`. -/
def isDiscarded (r : LteRlcUmRx) (seqNumber : SequenceNumber10) : Option Bool :=
  orElse (andAlso (andAlso (r.vrUr.lt seqNumber) (seqNumber.lt r.vrUh)) (some (r.received seqNumber.value)))
    (andAlso ((r.vrUh.sub windowSize).le seqNumber) (seqNumber.lt r.vrUr))

/-- The steps for a PDU placed outside of the reordering window. -/
def moveWindow (r : LteRlcUmRx) (seqNumber : SequenceNumber10) : Option (LteRlcUmRx × List Bytes) :=
  match r.isInsideReorderingWindow seqNumber with
  | none => none
  | some (true, r) => some (r, [])
  | some (false, r) =>
    let r := { r with vrUh := seqNumber.add 1 }
    match reassembleOutsideWindow r.rxBuffer.entries r with
    | none => none
    | some (r, sdus) =>
      match r.isInsideReorderingWindow r.vrUr with
      | none => none
      | some (true, r) => some (r, sdus)
      | some (false, r) => some ({ r with vrUr := r.vrUh.sub windowSize }, sdus)

/-- `VR(UR)` moves to the first number not received, in 16 bits: the loop does
not go round from 1023 to 0. -/
def advanceVrUr (r : LteRlcUmRx) : Option (LteRlcUmRx × List Bytes) :=
  if r.received r.vrUr.value then
    match loopWhile r.received (fun v => (v + 1) % 65536) 65537 ((r.vrUr.value + 1) % 65536) with
    | none => none
    | some newVrUr =>
      let oldVrUr := r.vrUr
      let r := { r with vrUr := r.vrUr.assign newVrUr }
      reassembleSnInterval 1025 oldVrUr r.vrUr r
  else some (r, [])

/-- Starts the timer, unless it runs, when `VR(UH)` is ahead of `VR(UR)`. -/
def startReorderingTimer (r : LteRlcUmRx) : Option LteRlcUmRx :=
  if r.reorderingTimer then some r
  else
    match r.vrUh.gt r.vrUr with
    | none => none
    | some true => some { r with reorderingTimer := true, vrUx := r.vrUh }
    | some false => some r

def updateReorderingTimer (r : LteRlcUmRx) : Option LteRlcUmRx :=
  let vrUr := r.vrUr.setModulusBase (r.vrUh.sub windowSize)
  let vrUx := r.vrUx.setModulusBase (r.vrUh.sub windowSize)
  let vrUh := r.vrUh.setModulusBase (r.vrUh.sub windowSize)
  let r := { r with vrUr := vrUr, vrUx := vrUx, vrUh := vrUh }
  let stopped : Option LteRlcUmRx :=
    if r.reorderingTimer then
      match r.vrUx.le r.vrUr with
      | none => none
      | some true => some { r with reorderingTimer := false }
      | some false =>
        match r.isInsideReorderingWindow r.vrUx with
        | none => none
        | some (inside, r) => some { r with reorderingTimer := inside || r.vrUx.eq r.vrUh }
    else some r
  match stopped with
  | none => none
  | some r => r.startReorderingTimer

/-- The actions when a PDU was placed in the reception buffer. -/
def afterPlacing (r : LteRlcUmRx) (seqNumber : SequenceNumber10) : Option (LteRlcUmRx × List Bytes) :=
  match r.moveWindow seqNumber with
  | none => none
  | some (r, flushed) =>
    match r.advanceVrUr with
    | none => none
    | some (r, sdus) =>
      match r.updateReorderingTimer with
      | none => none
      | some r => some (r, flushed ++ sdus)

def doReceivePdu (r : LteRlcUmRx) (p : Bytes) : Option (LteRlcUmRx × List Bytes) :=
  match LteRlcHeader.deserialize p with
  | none => none
  | some rlcHeader =>
    let base := r.vrUh.sub windowSize
    let seqNumber := rlcHeader.sequenceNumber.setModulusBase base
    let r := { r with vrUr := r.vrUr.setModulusBase base, vrUh := r.vrUh.setModulusBase base }
    match r.isDiscarded seqNumber with
    | none => none
    | some true => some (r, [])
    | some false => { r with rxBuffer := r.rxBuffer.insert seqNumber.value p }.afterPlacing seqNumber

/-- Runs when the timer fires, which is then no longer running. -/
def expireReorderingTimer (r : LteRlcUmRx) : Option (LteRlcUmRx × List Bytes) :=
  let r := { r with reorderingTimer := false }
  match loopWhile (fun sn : SequenceNumber10 => r.received sn.value) SequenceNumber10.incr 1025 r.vrUx with
  | none => none
  | some newVrUr =>
    let oldVrUr := r.vrUr
    let r := { r with vrUr := newVrUr }
    match reassembleSnInterval 1025 oldVrUr r.vrUr r with
    | none => none
    | some (r, sdus) =>
      match r.startReorderingTimer with
      | none => none
      | some r => some (r, sdus)

end LteRlcUmRx

end Ns3
