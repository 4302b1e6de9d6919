import Mathlib.Logic.Function.Basic
import Ns3.Lib.Loop
import Ns3.Lib.OrdMap
import Ns3.Rlc.AmHeader
import Ns3.Rlc.Reassembly

/-!
# `LteRlcAm`

The acknowledged-mode RLC entity. Its transmitting side keeps every PDU until
a STATUS PDU of the peer acknowledges it; its receiving side collects PDUs in
a window of 512 sequence numbers, hands them on in sequence and reports the
missing ones. The two sides meet in the methods of the SAPs: a transmission
opportunity serves the STATUS PDU of the receiving side first, and a received
STATUS PDU goes to the transmitting side.

Buffer status reports, traces and time stamps are left out. A step with no
result is a failed assertion or undefined behaviour.
-/

namespace Ns3

open LteRlcAmHeader

namespace LteRlcAm

def windowSize : Nat := 512
def pollPdu : Nat := 1
def pollByte : Nat := 50

end LteRlcAm

/-! ## Transmitting side -/

structure RetxPdu where
  pdu : Option AmPacket := none
  retxCount : Nat := 0

structure LteRlcAmTx where
  maxTxBufferSize : Nat := 10 * 1024
  txOpportunityForRetxAlwaysBigEnough : Bool := false
  txonBuffer : List TxPdu := []
  txonBufferSize : Nat := 0
  /-- A vector of 1024 slots, like `retxBuffer`; the index is always a sequence number. -/
  txedBuffer : Nat → RetxPdu := fun _ => {}
  txedBufferSize : Nat := 0
  retxBuffer : Nat → RetxPdu := fun _ => {}
  retxBufferSize : Nat := 0
  vtA : SequenceNumber10 := .ofValue 0
  vtMs : SequenceNumber10 := .ofValue 512
  vtS : SequenceNumber10 := .ofValue 0
  pollSn : SequenceNumber10 := .ofValue 0
  pduWithoutPoll : Nat := 0
  byteWithoutPoll : Nat := 0
  /-- `m_pollRetransmitTimer.IsRunning ()`. -/
  pollRetransmitTimer : Bool := false
  pollRetransmitTimerJustExpired : Bool := false

namespace LteRlcAmTx

open LteRlcAm (windowSize pollPdu pollByte)

/-- The body of `DoTransmitPdcpPdu` and `DoTransmitPdcpPdu2`. -/
def storePdcpPdu (t : LteRlcAmTx) (p : Bytes) : LteRlcAmTx :=
  if add32 t.txonBufferSize p.length ≤ t.maxTxBufferSize ∨ t.maxTxBufferSize = 0 then
    { t with txonBuffer := t.txonBuffer ++ [⟨p, .fullSdu⟩], txonBufferSize := add32 t.txonBufferSize p.length }
  else t

/-- The polling bit is set: the counters and the poll timer start again. -/
def poll (t : LteRlcAmTx) : LteRlcAmTx :=
  { t with
    pollRetransmitTimerJustExpired := false
    pduWithoutPoll := 0
    byteWithoutPoll := 0
    pollSn := t.vtS.sub 1
    pollRetransmitTimer := true }

def pollIf (t : LteRlcAmTx) (isRequested : Bool) : LteRlcAmTx := if isRequested then t.poll else t

def pollingBitOf (isRequested : Bool) : Nat :=
  if isRequested then STATUS_REPORT_IS_REQUESTED else STATUS_REPORT_NOT_REQUESTED

/-! ### Retransmission -/

/-- The loop from `VT(A)` to the first PDU considered for retransmission; the
assertion after it says that there is one. -/
def firstRetx (t : LteRlcAmTx) : Nat → SequenceNumber10 → Option (SequenceNumber10 × AmPacket)
  | 0, _ => none
  | fuel + 1, sn =>
    match sn.lt t.vtS with
    | none => none
    | some false => none
    | some true =>
      match (t.retxBuffer sn.value).pdu with
      | some packet => some (sn, packet)
      | none => firstRetx t fuel sn.incr

def retxNeedsPoll (t : LteRlcAmTx) (packet : AmPacket) : Option Bool :=
  orElse (orElse (some (t.txonBuffer.isEmpty && t.retxBufferSize = packet.size)) (t.vtS.ge t.vtMs))
    (some t.pollRetransmitTimerJustExpired)

/-- The header is rebuilt for what is sent; the copy moved back to the
transmitted PDUs keeps the old one. -/
def retransmitPdu (t : LteRlcAmTx) (sn : Nat) (packet : AmPacket) : Option (LteRlcAmTx × List AmPacket) :=
  match t.retxNeedsPoll packet with
  | none => none
  | some isRequested =>
    let t := t.pollIf isRequested
    let rlcAmHeader := packet.header.setPollingBit (pollingBitOf isRequested)
    some ({ t with
      txedBuffer := Function.update t.txedBuffer sn ⟨some packet, (t.retxBuffer sn).retxCount + 1⟩
      txedBufferSize := add32 t.txedBufferSize packet.size
      retxBuffer := Function.update t.retxBuffer sn {}
      retxBufferSize := sub32 t.retxBufferSize packet.size }, [.addHeader rlcAmHeader packet.data])

def retransmit (t : LteRlcAmTx) (bytes : Nat) : Option (LteRlcAmTx × List AmPacket) :=
  match t.vtA.lt t.vtS with
  | some true =>
    match t.firstRetx 1025 t.vtA with
    | none => none
    | some (sn, packet) =>
      if packet.size ≤ bytes ∨ t.txOpportunityForRetxAlwaysBigEnough then t.retransmitPdu sn.value packet
      else some (t, [])
  | _ => none

/-! ### New PDUs -/

def needsPoll (t : LteRlcAmTx) : Option Bool :=
  orElse
    (orElse (some (decide (t.pduWithoutPoll ≥ pollPdu) || decide (t.byteWithoutPoll ≥ pollByte) ||
      (t.txonBuffer.isEmpty && t.retxBufferSize = 0))) (t.vtS.ge t.vtMs))
    (some t.pollRetransmitTimerJustExpired)

def buildHeader (d : DataField) (sequenceNumber : SequenceNumber10) (framingInfo : Nat) (isRequested : Bool) :
    LteRlcAmHeader :=
  let h := d.extensionBits.foldl pushExtensionBit (setDataPdu {})
  let h := d.lengthIndicators.foldl pushLengthIndicator h
  let h := (h.setSequenceNumber sequenceNumber).setResegmentationFlag PDU
  let h := (h.setLastSegmentFlag LAST_PDU_SEGMENT).setSegmentOffset 0
  (h.setFramingInfo framingInfo).setPollingBit (pollingBitOf isRequested)

/-- The PDU takes the number `VT(S)`, which must be inside the transmitting
window, and is kept with the transmitted PDUs. -/
def transmitPdu (t : LteRlcAmTx) (d : DataField) : Option (LteRlcAmTx × List AmPacket) :=
  let sequenceNumber := t.vtS
  let t := { t with vtS := t.vtS.incr, txonBuffer := d.txBuffer, txonBufferSize := d.txBufferSize }
  match sequenceNumber.lt t.vtMs, sequenceNumber.ge t.vtA, framingInfoOf d.segments with
  | some true, some true, some framingInfo =>
    let data := (d.segments.map TxPdu.pdu).flatten
    let t := { t with pduWithoutPoll := t.pduWithoutPoll + 1, byteWithoutPoll := t.byteWithoutPoll + data.length }
    match t.needsPoll with
    | none => none
    | some isRequested =>
      let t := t.pollIf isRequested
      let rlcAmHeader := buildHeader d sequenceNumber framingInfo isRequested
      -- `AddByteTag` refuses the bytes from 1 to 0
      if rlcAmHeader.getSerializedSize < 1 then none
      else
        let packet := AmPacket.addHeader rlcAmHeader data
        some ({ t with
          txedBuffer := Function.update t.txedBuffer sequenceNumber.value ⟨some packet, 0⟩
          txedBufferSize := add32 t.txedBufferSize packet.size }, [packet])
  | _, _, _ => none

def transmitNew (t : LteRlcAmTx) (bytes : Nat) : Option (LteRlcAmTx × List AmPacket) :=
  if bytes < 7 then none
  else
    match t.vtS.le t.vtMs with
    | some true =>
      if t.vtS.eq t.vtMs then some (t, [])
      else
        match t.txonBuffer with
        | [] => some (t, [])
        | firstSegment :: txonBuffer =>
          t.transmitPdu (fillDataField firstSegment txonBuffer (sub32 t.txonBufferSize firstSegment.size) (bytes - 4) 1)
    | _ => none

/-- A transmission opportunity when there is no STATUS PDU to send. -/
def transmit (t : LteRlcAmTx) (bytes : Nat) : Option (LteRlcAmTx × List AmPacket) :=
  if t.retxBufferSize > 0 then t.retransmit bytes
  else if t.txonBufferSize > 0 then t.transmitNew bytes
  else some (t, [])

/-! ### Acknowledgements -/

def moveToRetx (t : LteRlcAmTx) (sn : Nat) : LteRlcAmTx :=
  match (t.txedBuffer sn).pdu with
  | none => t
  | some packet =>
    { t with
      retxBuffer := Function.update t.retxBuffer sn (t.txedBuffer sn)
      retxBufferSize := add32 t.retxBufferSize packet.size
      txedBuffer := Function.update t.txedBuffer sn {}
      txedBufferSize := sub32 t.txedBufferSize packet.size }

def nackPdu (t : LteRlcAmTx) (sn : Nat) : Option LteRlcAmTx :=
  let t := t.moveToRetx sn
  if (t.retxBuffer sn).pdu.isSome then some t else none

/-- Clears the slot of the transmitted PDUs; its counter stays. -/
def clearTxed (t : LteRlcAmTx) (sn : Nat) : Option LteRlcAmTx :=
  match (t.txedBuffer sn).pdu with
  | none => some t
  | some packet =>
    if (t.retxBuffer sn).pdu.isSome then none
    else
      some { t with
        txedBuffer := Function.update t.txedBuffer sn { t.txedBuffer sn with pdu := none }
        txedBufferSize := sub32 t.txedBufferSize packet.size }

def clearRetx (t : LteRlcAmTx) (sn : Nat) : LteRlcAmTx :=
  match (t.retxBuffer sn).pdu with
  | none => t
  | some packet =>
    { t with
      retxBuffer := Function.update t.retxBuffer sn {}
      retxBufferSize := sub32 t.retxBufferSize packet.size }

def ackPdu (t : LteRlcAmTx) (sn : Nat) : Option LteRlcAmTx := (t.clearTxed sn).map fun t => t.clearRetx sn

def cancelPoll (t : LteRlcAmTx) (sn : Nat) : LteRlcAmTx :=
  { t with pollRetransmitTimer := t.pollRetransmitTimer && sn ≠ t.pollSn.value }

/-- `VT(A)` goes on by one; the comparisons count from it. -/
def advanceVtA (t : LteRlcAmTx) : LteRlcAmTx :=
  let vtA := t.vtA.incr
  let vtMs := vtA.add windowSize
  { t with
    vtA := vtA.setModulusBase vtA
    vtMs := vtMs.setModulusBase vtA
    vtS := t.vtS.setModulusBase vtA }

/-- The loop over the numbers that a STATUS PDU reports, `sn` the next one. -/
def reportLoop (rlcAmHeader : LteRlcAmHeader) :
    Nat → LteRlcAmTx → SequenceNumber10 → SequenceNumber10 → Bool → Option LteRlcAmTx
  | 0, _, _, _, _ => none
  | fuel + 1, t, sn, ackSn, incrementVtA =>
    match andAlso (sn.lt ackSn) (sn.lt t.vtS) with
    | none => none
    | some false => some t
    | some true =>
      let t := t.cancelPoll sn.value
      match rlcAmHeader.isNackPresent sn with
      | none => none
      | some true =>
        match t.nackPdu sn.value with
        | none => none
        | some t => reportLoop rlcAmHeader fuel t sn.incr ackSn false
      | some false =>
        match t.ackPdu sn.value with
        | none => none
        | some t =>
          if incrementVtA then
            let t := t.advanceVtA
            reportLoop rlcAmHeader fuel t (sn.setModulusBase t.vtA).incr (ackSn.setModulusBase t.vtA) true
          else reportLoop rlcAmHeader fuel t sn.incr ackSn false

def receiveStatus (t : LteRlcAmTx) (rlcAmHeader : LteRlcAmHeader) : Option LteRlcAmTx :=
  let vtA := t.vtA.setModulusBase t.vtA
  let t := { t with vtA := vtA, vtS := t.vtS.setModulusBase vtA, vtMs := t.vtMs.setModulusBase vtA }
  reportLoop rlcAmHeader 1025 t t.vtA (rlcAmHeader.ackSn.setModulusBase vtA) true

/-- The loop that moves every PDU from `sn` up to `VT(S)`. -/
def moveAllToRetx : Nat → LteRlcAmTx → SequenceNumber10 → Option LteRlcAmTx
  | 0, _, _ => none
  | fuel + 1, t, sn =>
    match sn.lt t.vtS with
    | none => none
    | some false => some t
    | some true => moveAllToRetx fuel (t.moveToRetx sn.value) sn.incr

def expirePollRetransmitTimer (t : LteRlcAmTx) : Option LteRlcAmTx :=
  let t := { t with pollRetransmitTimer := false, pollRetransmitTimerJustExpired := true }
  match t.vtS.le t.vtMs with
  | some true =>
    if (t.txonBufferSize = 0 ∧ t.retxBufferSize = 0) ∨ t.vtS.eq t.vtMs then moveAllToRetx 1025 t t.vtA
    else some t
  | _ => none

end LteRlcAmTx

/-! ## Receiving side -/

structure PduBuffer where
  byteSegments : List AmPacket := []
  pduComplete : Bool := false

structure LteRlcAmRx where
  rxonBuffer : OrdMap Nat PduBuffer := .empty
  vrR : SequenceNumber10 := .ofValue 0
  vrMr : SequenceNumber10 := .ofValue 512
  vrX : SequenceNumber10 := .ofValue 0
  vrMs : SequenceNumber10 := .ofValue 0
  vrH : SequenceNumber10 := .ofValue 0
  statusPduRequested : Bool := false
  statusPduBufferSize : Nat := 0
  /-- `m_reorderingTimer.IsRunning ()`. -/
  reorderingTimer : Bool := false
  /-- `m_statusProhibitTimer.IsRunning ()`. -/
  statusProhibitTimer : Bool := false
  reassembly : Reassembly := {}

namespace LteRlcAmRx

open LteRlcAm (windowSize)

/-- Sets the bases of `VR(R)` and `VR(MR)` too. -/
def isInsideReceivingWindow (r : LteRlcAmRx) (seqNumber : SequenceNumber10) : Option (Bool × LteRlcAmRx) :=
  let vrR := r.vrR.setModulusBase r.vrR
  let vrMr := r.vrMr.setModulusBase vrR
  let seqNumber := seqNumber.setModulusBase vrR
  match andAlso (vrR.le seqNumber) (seqNumber.lt vrMr) with
  | none => none
  | some inside => some (inside, { r with vrR := vrR, vrMr := vrMr })

/-- The transitions when nothing was lost; from `WAITING_S0_FULL` a PDU that
begins inside an SDU is an error and changes nothing. -/
def reassembleInSequence (r : Reassembly) (framingInfo : Nat) : Option (Reassembly × List Bytes) :=
  match r.reassemblingState with
  | .waitingS0Full => if framingInfo < 2 then r.startOver framingInfo else some (r, [])
  | .waitingSiSf => r.continueSdu framingInfo

def reassembleAndDeliver (r : Reassembly) (packet : AmPacket) : Option (Reassembly × List Bytes) :=
  match splitSdus packet.header.extensionBits packet.header.lengthIndicators packet.data with
  | none => none
  | some sdus =>
    let (expectedSnLost, r) := r.noteSeqNumber packet.header.sequenceNumber
    let r := { r with sdusBuffer := r.sdusBuffer ++ sdus }
    match expectedSnLost, r.reassemblingState with
    | false, _ => reassembleInSequence r packet.header.framingInfo
    | true, .waitingS0Full => r.startOver packet.header.framingInfo
    | true, .waitingSiSf => { r with keepS0 := none }.startOver packet.header.framingInfo

def received (r : LteRlcAmRx) (sn : Nat) : Bool :=
  match r.rxonBuffer.find sn with
  | none => false
  | some b => b.pduComplete

/-- Places a PDU, unless one with its number was received before. -/
def placePdu (r : LteRlcAmRx) (sn : Nat) (p : AmPacket) : Option LteRlcAmRx :=
  match r.rxonBuffer.find sn with
  | some b => if b.byteSegments.length = 1 then some r else none
  | none => some { r with rxonBuffer := r.rxonBuffer.insert sn ⟨[p], true⟩ }

/-- The first number from `sn` on that was not received. Coming back to
`first` is asserted not to happen. -/
def firstMissing (received : Nat → Bool) (first : Nat) : Nat → SequenceNumber10 → Option SequenceNumber10
  | 0, _ => none
  | fuel + 1, sn =>
    if received sn.value then
      if first = sn.incr.value then none else firstMissing received first fuel sn.incr
    else some sn

def advanceVrMs (r : LteRlcAmRx) : Option LteRlcAmRx :=
  match firstMissing r.received r.vrMs.value 1025 r.vrMs with
  | none => none
  | some vrMs => some { r with vrMs := vrMs }

/-- `VR(R)` goes on by one; the comparisons count from it. -/
def incrVrR (r : LteRlcAmRx) : LteRlcAmRx :=
  let vrR := r.vrR.incr
  { r with
    vrR := vrR.setModulusBase vrR
    vrX := r.vrX.setModulusBase vrR
    vrMs := r.vrMs.setModulusBase vrR
    vrH := r.vrH.setModulusBase vrR }

/-- The loop that reassembles the PDUs received in sequence, each with the
SDUs it completes. -/
def deliverInSequence (firstVrR : Nat) : Nat → LteRlcAmRx → Option (LteRlcAmRx × List (AmPacket × List Bytes))
  | 0, _ => none
  | fuel + 1, r =>
    match r.rxonBuffer.find r.vrR.value with
    | none => some (r, [])
    | some ⟨_, false⟩ => some (r, [])
    | some ⟨byteSegments, true⟩ =>
      match byteSegments with
      | [packet] =>
        match reassembleAndDeliver r.reassembly packet with
        | none => none
        | some (reassembly, sdus) =>
          let r := { r with reassembly := reassembly, rxonBuffer := r.rxonBuffer.erase r.vrR.value }.incrVrR
          if firstVrR = r.vrR.value then none
          else
            match deliverInSequence firstVrR fuel r with
            | none => none
            | some (r, more) => some (r, (packet, sdus) :: more)
      | _ => none

def advanceVrR (r : LteRlcAmRx) (seqNumber : SequenceNumber10) : Option (LteRlcAmRx × List (AmPacket × List Bytes)) :=
  if seqNumber.eq r.vrR && r.received seqNumber.value then
    match deliverInSequence r.vrR.value 1025 r with
    | none => none
    | some (r, out) => some ({ r with vrMr := r.vrR.add windowSize }, out)
  else some (r, [])

def stopReorderingTimer (r : LteRlcAmRx) : Option LteRlcAmRx :=
  if r.reorderingTimer then
    if r.vrX.eq r.vrR then some { r with reorderingTimer := false }
    else
      match r.isInsideReceivingWindow r.vrX with
      | none => none
      | some (inside, r) => some { r with reorderingTimer := inside || r.vrX.eq r.vrMr }
  else some r

/-- Starts the timer, unless it runs, when `VR(H)` is ahead of `sn`. -/
def startReorderingTimer (r : LteRlcAmRx) (sn : SequenceNumber10) : Option LteRlcAmRx :=
  if r.reorderingTimer then some r
  else
    match r.vrH.gt sn with
    | none => none
    | some true => some { r with reorderingTimer := true, vrX := r.vrH }
    | some false => some r

def updateReorderingTimer (r : LteRlcAmRx) : Option LteRlcAmRx :=
  match r.stopReorderingTimer with
  | none => none
  | some r => r.startReorderingTimer r.vrR

def updateVrH (r : LteRlcAmRx) (seqNumber : SequenceNumber10) : Option LteRlcAmRx :=
  match seqNumber.ge r.vrH with
  | none => none
  | some true => some { r with vrH := seqNumber.add 1 }
  | some false => some r

/-- The actions when a PDU was placed in the reception buffer, which also run
when it was there before. -/
def afterPlacing (r : LteRlcAmRx) (seqNumber : SequenceNumber10) : Option (LteRlcAmRx × List (AmPacket × List Bytes)) :=
  match r.updateVrH seqNumber with
  | none => none
  | some r =>
    match r.advanceVrMs with
    | none => none
    | some r =>
      match r.advanceVrR seqNumber with
      | none => none
      | some (r, out) =>
        match r.updateReorderingTimer with
        | none => none
        | some r => some (r, out)

/-- A data PDU; segments of PDUs are not told from whole ones. -/
def receiveData (r : LteRlcAmRx) (p : AmPacket) : Option (LteRlcAmRx × List (AmPacket × List Bytes)) :=
  let seqNumber := p.header.sequenceNumber.setModulusBase r.vrR
  if p.header.resegmentationFlag = SEGMENT ∨ p.header.resegmentationFlag = PDU then
    let r :=
      if p.header.pollingBit = STATUS_REPORT_IS_REQUESTED then
        { r with statusPduRequested := true, statusPduBufferSize := 4 }
      else r
    match r.isInsideReceivingWindow seqNumber with
    | none => none
    | some (false, r) => some (r, [])
    | some (true, r) =>
      match r.placePdu seqNumber.value p with
      | none => none
      | some r => r.afterPlacing seqNumber
  else none

/-- Runs when the timer fires, which is then no longer running. -/
def expireReorderingTimer (r : LteRlcAmRx) : Option LteRlcAmRx :=
  match { r with reorderingTimer := false, vrMs := r.vrX }.advanceVrMs with
  | none => none
  | some r =>
    match r.startReorderingTimer r.vrMs with
    | none => none
    | some r => some { r with statusPduRequested := true }

/-! ### STATUS PDUs -/

/-- The loop that reports missing PDUs as long as there is room. -/
def nackLoop (r : LteRlcAmRx) (bytes : Nat) :
    Nat → SequenceNumber10 → LteRlcAmHeader → Option (SequenceNumber10 × LteRlcAmHeader)
  | 0, _, _ => none
  | fuel + 1, sn, rlcAmHeader =>
    match sn.lt r.vrMs with
    | none => none
    | some false => some (sn, rlcAmHeader)
    | some true =>
      match rlcAmHeader.oneMoreNackWouldFitIn bytes with
      | none => none
      | some false => some (sn, rlcAmHeader)
      | some true =>
        if r.received sn.value then nackLoop r bytes fuel sn.incr rlcAmHeader
        else
          match rlcAmHeader.pushNack sn.value with
          | none => none
          | some rlcAmHeader => nackLoop r bytes fuel sn.incr rlcAmHeader

/-- The loop to the next number not received and not reported. -/
def ackLoop (r : LteRlcAmRx) : Nat → SequenceNumber10 → Option SequenceNumber10
  | 0, _ => none
  | fuel + 1, sn =>
    match andAlso (sn.lt r.vrMs) (some (r.received sn.value)) with
    | none => none
    | some false => some sn
    | some true => ackLoop r fuel sn.incr

def buildStatusPdu (r : LteRlcAmRx) (bytes : Nat) : Option AmPacket :=
  match r.nackLoop bytes 1025 r.vrR (setControlPdu {} STATUS_PDU) with
  | none => none
  | some (sn, rlcAmHeader) =>
    match r.ackLoop 1025 sn with
    | none => none
    | some sn =>
      match sn.le r.vrMs with
      | some true => some (.addHeader (rlcAmHeader.setAckSn sn) [])
      | _ => none

def sendStatusPdu (r : LteRlcAmRx) (bytes : Nat) : Option (LteRlcAmRx × List AmPacket) :=
  if bytes < r.statusPduBufferSize then none
  else
    match r.buildStatusPdu bytes with
    | none => none
    | some packet =>
      some ({ r with statusPduRequested := false, statusPduBufferSize := 0, statusProhibitTimer := true }, [packet])

end LteRlcAmRx

/-! ## The entity -/

structure LteRlcAm where
  tx : LteRlcAmTx := {}
  rx : LteRlcAmRx := {}

namespace LteRlcAm

def doTransmitPdcpPdu (e : LteRlcAm) (p : Bytes) : LteRlcAm := { e with tx := e.tx.storePdcpPdu p }

def doTransmitPdcpPdu2 (e : LteRlcAm) (p : Bytes) : LteRlcAm := { e with tx := e.tx.storePdcpPdu p }

def doNotifyTxOpportunity (e : LteRlcAm) (bytes : Nat) : Option (LteRlcAm × List AmPacket) :=
  if bytes < 4 then none
  else if e.rx.statusPduRequested && !e.rx.statusProhibitTimer then
    match e.rx.sendStatusPdu bytes with
    | none => none
    | some (rx, out) => some ({ e with rx := rx }, out)
  else
    match e.tx.transmit bytes with
    | none => none
    | some (tx, out) => some ({ e with tx := tx }, out)

/-- Returns the PDUs reassembled, each with the SDUs delivered for it. -/
def doReceivePdu (e : LteRlcAm) (p : AmPacket) : Option (LteRlcAm × List (AmPacket × List Bytes)) :=
  if p.header.isDataPdu then
    match e.rx.receiveData p with
    | none => none
    | some (rx, out) => some ({ e with rx := rx }, out)
  else if p.header.isControlPdu then
    match e.tx.receiveStatus p.header with
    | none => none
    | some tx => some ({ e with tx := tx }, [])
  else some (e, [])

def expireReorderingTimer (e : LteRlcAm) : Option LteRlcAm :=
  match e.rx.expireReorderingTimer with
  | none => none
  | some rx => some { e with rx := rx }

def expirePollRetransmitTimer (e : LteRlcAm) : Option LteRlcAm :=
  match e.tx.expirePollRetransmitTimer with
  | none => none
  | some tx => some { e with tx := tx }

/-- The handler does nothing; the timer is no longer running. -/
def expireStatusProhibitTimer (e : LteRlcAm) : LteRlcAm :=
  { e with rx := { e.rx with statusProhibitTimer := false } }

end LteRlcAm

end Ns3
