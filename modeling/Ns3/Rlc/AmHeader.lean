import Ns3.Rlc.RlcHeader

/-!
# `LteRlcAmHeader`

The header of an acknowledged-mode PDU: of a data PDU, or of a STATUS PDU with
the numbers it acknowledges and those it reports missing. An RLC PDU is kept
as its header and its data field; a header read from a packet has the
sequence numbers of the one written, with base 0.
-/

namespace Ns3

structure LteRlcAmHeader where
  headerLength : Nat := 0
  dataControlBit : Nat := 0xff
  resegmentationFlag : Nat := 0xff
  pollingBit : Nat := 0xff
  framingInfo : Nat := 0xff
  sequenceNumber : SequenceNumber10 := .ofValue 0xfffa
  lastSegmentFlag : Nat := 0xff
  segmentOffset : Nat := 0xffff
  extensionBits : List Nat := []
  lengthIndicators : List Nat := []
  controlPduType : Nat := 0xff
  ackSn : SequenceNumber10 := .ofValue 0xffff
  nackSnList : List Nat := []
  deriving DecidableEq

namespace LteRlcAmHeader

def CONTROL_PDU : Nat := 0
def DATA_PDU : Nat := 1
def STATUS_PDU : Nat := 0
def PDU : Nat := 0
def SEGMENT : Nat := 1
def STATUS_REPORT_NOT_REQUESTED : Nat := 0
def STATUS_REPORT_IS_REQUESTED : Nat := 1
def LAST_PDU_SEGMENT : Nat := 1

def setDataPdu (h : LteRlcAmHeader) : LteRlcAmHeader := { h with headerLength := 4, dataControlBit := DATA_PDU }

def setControlPdu (h : LteRlcAmHeader) (controlPduType : Nat) : LteRlcAmHeader :=
  { h with headerLength := 2, dataControlBit := CONTROL_PDU, controlPduType := controlPduType }

def isDataPdu (h : LteRlcAmHeader) : Bool := h.dataControlBit = DATA_PDU

def isControlPdu (h : LteRlcAmHeader) : Bool := h.dataControlBit = CONTROL_PDU

theorem isDataPdu_of_isControlPdu {h : LteRlcAmHeader} (hc : h.isControlPdu = true) : h.isDataPdu = false := by
  have hbit : h.dataControlBit = CONTROL_PDU := of_decide_eq_true hc
  simp [isDataPdu, hbit, CONTROL_PDU, DATA_PDU]

theorem isControlPdu_of_isDataPdu {h : LteRlcAmHeader} (hd : h.isDataPdu = true) : h.isControlPdu = false := by
  have hbit : h.dataControlBit = DATA_PDU := of_decide_eq_true hd
  simp [isControlPdu, hbit, CONTROL_PDU, DATA_PDU]

def setFramingInfo (h : LteRlcAmHeader) (framingInfo : Nat) : LteRlcAmHeader :=
  { h with framingInfo := framingInfo &&& 0x03 }

def setSequenceNumber (h : LteRlcAmHeader) (sequenceNumber : SequenceNumber10) : LteRlcAmHeader :=
  { h with sequenceNumber := sequenceNumber }

def setResegmentationFlag (h : LteRlcAmHeader) (resegFlag : Nat) : LteRlcAmHeader :=
  { h with resegmentationFlag := resegFlag &&& 0x01 }

def setPollingBit (h : LteRlcAmHeader) (pollingBit : Nat) : LteRlcAmHeader :=
  { h with pollingBit := pollingBit &&& 0x01 }

def setLastSegmentFlag (h : LteRlcAmHeader) (lsf : Nat) : LteRlcAmHeader :=
  { h with lastSegmentFlag := lsf &&& 0x01 }

def setSegmentOffset (h : LteRlcAmHeader) (segmentOffset : Nat) : LteRlcAmHeader :=
  { h with segmentOffset := segmentOffset &&& 0x7FFF }

def setAckSn (h : LteRlcAmHeader) (ackSn : SequenceNumber10) : LteRlcAmHeader := { h with ackSn := ackSn }

def pushExtensionBit (h : LteRlcAmHeader) (extensionBit : Nat) : LteRlcAmHeader :=
  let extensionBits := h.extensionBits ++ [extensionBit]
  { h with
    extensionBits := extensionBits
    headerLength :=
      if extensionBits.length > 1 then
        if extensionBits.length % 2 = 1 then h.headerLength + 1 else h.headerLength + 2
      else h.headerLength }

def dataSize (n : Nat) : Nat := n - 1 + 4 + n / 2

theorem foldl_pushExtensionBit (es : List Nat) : ∀ h : LteRlcAmHeader,
    h.headerLength = dataSize h.extensionBits.length → es.foldl pushExtensionBit h =
      { h with extensionBits := h.extensionBits ++ es, headerLength := dataSize (h.extensionBits.length + es.length) } := by
  induction es with
  | nil =>
    intro h hsize
    simp [← hsize]
  | cons e es ih =>
    intro h hsize
    have hnext : (h.pushExtensionBit e).headerLength = dataSize (h.pushExtensionBit e).extensionBits.length := by
      simp only [pushExtensionBit, hsize, List.length_append, List.length_singleton, dataSize]
      split
      · split <;> lia
      · lia
    rw [List.foldl_cons, ih _ hnext]
    simp [pushExtensionBit, Nat.add_comm, Nat.add_left_comm]

def pushLengthIndicator (h : LteRlcAmHeader) (lengthIndicator : Nat) : LteRlcAmHeader :=
  { h with lengthIndicators := h.lengthIndicators ++ [lengthIndicator] }

theorem foldl_pushLengthIndicator (lis : List Nat) : ∀ h : LteRlcAmHeader,
    lis.foldl pushLengthIndicator h = { h with lengthIndicators := h.lengthIndicators ++ lis } := by
  induction lis with
  | nil => intro h; simp
  | cons li lis ih =>
    intro h
    rw [List.foldl_cons, ih]
    simp [pushLengthIndicator]

/-- The assertion of the methods for STATUS PDUs. -/
def isStatusPdu (h : LteRlcAmHeader) : Bool := h.isControlPdu && h.controlPduType = STATUS_PDU

/-- The size is passed as a 16-bit value. -/
def oneMoreNackWouldFitIn (h : LteRlcAmHeader) (bytes : Nat) : Option Bool :=
  if h.isStatusPdu then
    some (decide (if h.nackSnList.length % 2 = 0 then h.headerLength < bytes % 65536
      else h.headerLength + 1 < bytes % 65536))
  else none

def pushNack (h : LteRlcAmHeader) (nack : Nat) : Option LteRlcAmHeader :=
  if h.isStatusPdu then
    let nackSnList := h.nackSnList ++ [nack]
    some { h with
      nackSnList := nackSnList
      headerLength := if nackSnList.length % 2 = 0 then h.headerLength + 1 else h.headerLength + 2 }
  else none

def isNackPresent (h : LteRlcAmHeader) (nack : SequenceNumber10) : Option Bool :=
  if h.isStatusPdu then some (decide (nack.value ∈ h.nackSnList)) else none

/-- `m_headerLength` has 16 bits, and all that is done to it is adding 1, 2 or 3. -/
def getSerializedSize (h : LteRlcAmHeader) : Nat := h.headerLength % 65536

end LteRlcAmHeader

structure AmPacket where
  header : LteRlcAmHeader
  data : Bytes
  deriving DecidableEq

namespace AmPacket

def size (p : AmPacket) : Nat := p.header.getSerializedSize + p.data.length

/-- `AddHeader`: what is read back has no base. A header of 65536 bytes or more
is written over the beginning of the data field, which is not shown here. -/
def addHeader (h : LteRlcAmHeader) (data : Bytes) : AmPacket :=
  ⟨{ h with
      sequenceNumber := .ofValue h.sequenceNumber.value
      ackSn := .ofValue h.ackSn.value }, data⟩

end AmPacket

end Ns3
