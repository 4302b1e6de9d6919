import Ns3.Internet.SequenceNumber32
import Ns3.Internet.TcpOption
import Ns3.Lib.BitField

/-!
# `TcpHeader`

The header and its options, with the loop that reads them back. The loop ends
when the option space is used up or an option does not fit it; it is given up
after a number of rounds, since an option of an unknown kind with the size 0
takes no space.
-/

namespace Ns3

/-- What the checksum covers beside the bytes: the addresses and the protocol. -/
structure TcpPseudoHeader where
  source : Bytes
  destination : Bytes
  isIpv4 : Bool
  protocol : UInt8
  deriving DecidableEq

/-- `m_calcChecksum` is on when there is something to cover. -/
structure TcpHeader where
  sourcePort : UInt16 := 0
  destinationPort : UInt16 := 0
  sequenceNumber : UInt32 := 0
  ackNumber : UInt32 := 0
  length : Nat := 5
  flags : UInt8 := 0
  windowSize : UInt16 := 0xffff
  urgentPointer : UInt16 := 0
  options : List TcpOption := []
  optionsLen : Nat := 0
  calcChecksum : Option TcpPseudoHeader := none
  goodChecksum : Bool := true
  deriving DecidableEq

namespace TcpHeader

open TcpOption

def maxOptionsLen : Nat := 40

def getLength (h : TcpHeader) : Nat := h.length

def optionsSize (options : List TcpOption) : Nat := (options.map getSerializedSize).sum

def calculateHeaderLength (h : TcpHeader) : Nat :=
  let len := 20 + optionsSize h.options
  let len := if len % 4 ≠ 0 then len + (4 - len % 4) else len
  len / 4 % 256

def getSerializedSize (h : TcpHeader) : Nat := h.calculateHeaderLength * 4

def appendOption (h : TcpHeader) (option : TcpOption) : TcpHeader × Bool :=
  if h.optionsLen + option.getSerializedSize ≤ maxOptionsLen then
    if !isKindKnown option.getKind then (h, false)
    else if option.getKind ≠ END then
      let optionsLen := h.optionsLen + option.getSerializedSize
      ({ h with options := h.options ++ [option], optionsLen := optionsLen, length := (20 + 3 + optionsLen) / 4 }, true)
    else (h, true)
  else (h, false)

/-! ## The checksum -/

/-- The words of `CalculateIpChecksum`, the low byte first. -/
def sumWords : Bytes → Nat
  | [] => 0
  | [byte] => byte.toNat
  | byte0 :: byte1 :: bytes => byte0.toNat + 256 * byte1.toNat + sumWords bytes

/-- `while (sum >> 16)`; a sum of 32 bits takes at most two rounds. -/
def foldCarry : Nat → Nat → Nat
  | 0, sum => sum
  | rounds + 1, sum => if sum / 65536 ≠ 0 then foldCarry rounds (sum % 65536 + sum / 65536) else sum

def calculateIpChecksum (bytes : Bytes) (size initialChecksum : Nat) : Nat :=
  65535 - foldCarry 32 (initialChecksum + sumWords (bytes.take size))

def calculateHeaderChecksum (p : TcpPseudoHeader) (size : Nat) : Nat :=
  let fields := if p.isIpv4 then [0, p.protocol] ++ writeHton 2 size
    else [0, 0] ++ writeHton 2 size ++ [0, 0, 0, p.protocol]
  let hdrSize := if p.isIpv4 then 12 else 40
  65535 - calculateIpChecksum (p.source ++ p.destination ++ fields) hdrSize 0

/-! ## The bytes of a header -/

def serializeOptions (options : List TcpOption) : Bytes :=
  (options.map serialize).flatten ++ List.replicate ((4 - optionsSize options % 4) % 4) END

def serializeWith (h : TcpHeader) (checksum : Nat) : Bytes :=
  writeHton 2 h.sourcePort.toNat ++ writeHton 2 h.destinationPort.toNat ++ writeHton 4 h.sequenceNumber.toNat ++
    writeHton 4 h.ackNumber.toNat ++ writeHton 2 ((h.getLength <<< 12) ||| h.flags.toNat) ++ writeHton 2 h.windowSize.toNat ++
    leBytes 2 checksum ++ writeHton 2 h.urgentPointer.toNat ++ serializeOptions h.options

def serialize (h : TcpHeader) (payload : Bytes) : Bytes :=
  match h.calcChecksum with
  | none => h.serializeWith 0
  | some p =>
    let bytes := h.serializeWith 0 ++ payload
    let size := uint16 bytes.length
    h.serializeWith (calculateIpChecksum bytes size (calculateHeaderChecksum p size))

/-- The loop over the options: those that are accepted, and the bytes they take. -/
def optionsLoop : Nat → Bytes → Nat → Option (List TcpOption × Nat)
  | 0, _, optionLen => if optionLen = 0 then some ([], 0) else none
  | rounds + 1, bytes, optionLen =>
    if optionLen = 0 then some ([], 0)
    else
      (TcpOption.deserialize bytes).bind fun (op, optionSize) =>
        -- the option did not deserialize correctly, or exceeds the option space
        if optionSize ≠ op.getSerializedSize then some ([], 0)
        else if optionLen < optionSize then some ([], 0)
        else if op.getKind = END then if optionLen ≤ bytes.length then some ([op], optionLen) else none
        else
          (optionsLoop rounds (bytes.drop optionSize) (optionLen - optionSize)).map fun (options, optionsLen) =>
            (op :: options, optionSize + optionsLen)

def deserialize (rounds : Nat) (h : TcpHeader) (bytes : Bytes) : Option (TcpHeader × Nat) :=
  (readNtoh 2 bytes).bind fun (sourcePort, i) =>
    (readNtoh 2 i).bind fun (destinationPort, i) =>
      (readNtoh 4 i).bind fun (sequenceNumber, i) =>
        (readNtoh 4 i).bind fun (ackNumber, i) =>
          (readNtoh 2 i).bind fun (field, i) =>
            (readNtoh 2 i).bind fun (windowSize, i) =>
              (readBytes 2 i).bind fun (_, i) =>
                (readNtoh 2 i).bind fun (urgentPointer, i) =>
                  let h := { h with
                    sourcePort := UInt16.ofNat sourcePort
                    destinationPort := UInt16.ofNat destinationPort
                    sequenceNumber := UInt32.ofNat sequenceNumber
                    ackNumber := UInt32.ofNat ackNumber
                    flags := UInt8.ofNat (field &&& 0xff)
                    length := field >>> 12
                    windowSize := UInt16.ofNat windowSize
                    urgentPointer := UInt16.ofNat urgentPointer
                    options := []
                    optionsLen := 0 }
                  let optionLen := uint32 (((field >>> 12 : Nat) - 5) * 4)
                  if optionLen > maxOptionsLen then some (h, 20)
                  else
                    (optionsLoop rounds i optionLen).map fun (options, optionsLen) =>
                      let h := { h with options := options, optionsLen := optionsLen }
                      let goodChecksum := match h.calcChecksum with
                        | none => h.goodChecksum
                        | some p => calculateIpChecksum bytes (uint16 bytes.length)
                            (calculateHeaderChecksum p (uint16 bytes.length)) = 0
                      ({ h with goodChecksum := goodChecksum }, h.getSerializedSize)

def appendOptions (h : TcpHeader) (options : List TcpOption) : TcpHeader := options.foldl (fun h op => (h.appendOption op).1) h

end TcpHeader

end Ns3
