import Ns3.Lib.ByteReader
import Ns3.Internet.Ipv4Address

/-!
# `MessageHeader`

The messages of OLSR and their bytes. The body of a message is read by the size
that its header announces; the body of a HELLO is a list of link messages, each
with a size of its own. Sizes that go into a message are numbers, those that are
read from one have the widths of the source.
-/

namespace Ns3

open ByteReader (word check)

inductive MessageType where
  | HELLO_MESSAGE
  | TC_MESSAGE
  | MID_MESSAGE
  | HNA_MESSAGE
  deriving DecidableEq

def MessageType.value : MessageType → Nat
  | .HELLO_MESSAGE => 1
  | .TC_MESSAGE => 2
  | .MID_MESSAGE => 3
  | .HNA_MESSAGE => 4

def MessageType.ofValue : Nat → MessageType
  | 1 => .HELLO_MESSAGE
  | 2 => .TC_MESSAGE
  | 3 => .MID_MESSAGE
  | _ => .HNA_MESSAGE

def IPV4_ADDRESS_SIZE : Nat := 4
def OLSR_MSG_HEADER_SIZE : Nat := 12

def writeU8 (x : UInt8) : List UInt8 := writeHton 1 x.toNat

def writeAddress (a : Ipv4Address) : List UInt8 := writeHton 4 a.val

namespace MessageHeader

def readU8 : ByteReader UInt8 := do
  let x ← word 1
  pure (UInt8.ofNat x)

def readU16 : ByteReader UInt16 := do
  let x ← word 2
  pure (UInt16.ofNat x)

def readAddress : ByteReader Ipv4Address := do
  let x ← word 4
  pure (Fin.ofNat 4294967296 x)

theorem shortens_readU8 : readU8.Shortens := (ByteReader.shortens_word Nat.one_pos).bind _

theorem shortens_readAddress : readAddress.Shortens := (ByteReader.shortens_word (by decide)).bind _

/-! ## MID -/

structure Mid where
  interfaceAddresses : List Ipv4Address
  deriving DecidableEq

namespace Mid

def getSerializedSize (m : Mid) : Nat := m.interfaceAddresses.length * IPV4_ADDRESS_SIZE

def serialize (m : Mid) : List UInt8 := m.interfaceAddresses.flatMap writeAddress

def deserialize (messageSize : UInt32) : ByteReader (Mid × Nat) := do
  check (messageSize.toNat % IPV4_ADDRESS_SIZE = 0)
  let interfaceAddresses ← readAddress.times (messageSize.toNat / IPV4_ADDRESS_SIZE)
  pure (⟨interfaceAddresses⟩, getSerializedSize ⟨interfaceAddresses⟩)

end Mid

/-! ## HELLO -/

structure LinkMessage where
  linkCode : UInt8
  neighborInterfaceAddresses : List Ipv4Address
  deriving DecidableEq

structure Hello where
  hTime : UInt8
  willingness : UInt8
  linkMessages : List LinkMessage
  deriving DecidableEq

namespace LinkMessage

def size (lm : LinkMessage) : Nat := 4 + IPV4_ADDRESS_SIZE * lm.neighborInterfaceAddresses.length

def serialize (lm : LinkMessage) : List UInt8 :=
  writeU8 lm.linkCode ++ (writeU8 0 ++ (writeHton 2 lm.size ++ lm.neighborInterfaceAddresses.flatMap writeAddress))

/-- The loop over the addresses, from `n` down to 0. A negative `n` does not get there. -/
def deserializeNeighbors (n : Int) : ByteReader (List Ipv4Address) :=
  ByteReader.loop (fun n => n = 0) (fun n => do let address ← readAddress; pure (address, n - 1))
    (fun _ => shortens_readAddress.bind _) n

/-- A link message, and `helloSizeLeft` after it. -/
def deserialize (helloSizeLeft : UInt16) : ByteReader (LinkMessage × UInt16) := do
  check (helloSizeLeft ≥ 4)
  let linkCode ← readU8
  let _ ← readU8
  let lmSize ← word 2
  check ((lmSize - 4 : Int).tmod IPV4_ADDRESS_SIZE = 0)
  let neighborInterfaceAddresses ← deserializeNeighbors ((lmSize - 4 : Int).tdiv IPV4_ADDRESS_SIZE)
  pure (⟨linkCode, neighborInterfaceAddresses⟩, helloSizeLeft - UInt16.ofNat lmSize)

theorem shortens_deserialize (helloSizeLeft : UInt16) : (deserialize helloSizeLeft).Shortens :=
  (shortens_readU8.bind _).check

end LinkMessage

namespace Hello

def getSerializedSize (m : Hello) : Nat := 4 + (m.linkMessages.map LinkMessage.size).sum

def serialize (m : Hello) : List UInt8 :=
  writeHton 2 0 ++ (writeU8 m.hTime ++ (writeU8 m.willingness ++ m.linkMessages.flatMap LinkMessage.serialize))

/-- The loop `while (helloSizeLeft)`. -/
def deserializeLinks (helloSizeLeft : UInt16) : ByteReader (List LinkMessage) :=
  ByteReader.loop (fun helloSizeLeft => helloSizeLeft = 0) LinkMessage.deserialize LinkMessage.shortens_deserialize helloSizeLeft

def deserialize (messageSize : UInt32) : ByteReader (Hello × Nat) := do
  check (messageSize ≥ 4)
  let _ ← word 2
  let hTime ← readU8
  let willingness ← readU8
  let linkMessages ← deserializeLinks (messageSize.toUInt16 - 4)
  pure (⟨hTime, willingness, linkMessages⟩, messageSize.toNat)

end Hello

/-! ## TC -/

structure Tc where
  ansn : UInt16
  neighborAddresses : List Ipv4Address
  deriving DecidableEq

namespace Tc

def getSerializedSize (m : Tc) : Nat := 4 + m.neighborAddresses.length * IPV4_ADDRESS_SIZE

def serialize (m : Tc) : List UInt8 :=
  writeHton 2 m.ansn.toNat ++ (writeHton 2 0 ++ m.neighborAddresses.flatMap writeAddress)

def deserialize (messageSize : UInt32) : ByteReader (Tc × Nat) := do
  check (messageSize ≥ 4)
  let ansn ← readU16
  let _ ← word 2
  check ((messageSize - 4).toNat % IPV4_ADDRESS_SIZE = 0)
  let neighborAddresses ← readAddress.times ((messageSize - 4).toNat / IPV4_ADDRESS_SIZE)
  pure (⟨ansn, neighborAddresses⟩, messageSize.toNat)

end Tc

/-! ## HNA -/

structure Association where
  address : Ipv4Address
  mask : Ipv4Address
  deriving DecidableEq

structure Hna where
  associations : List Association
  deriving DecidableEq

def Association.serialize (a : Association) : List UInt8 := writeAddress a.address ++ writeAddress a.mask

def Association.deserialize : ByteReader Association := do
  let address ← readAddress
  let mask ← readAddress
  pure ⟨address, mask⟩

namespace Hna

def getSerializedSize (m : Hna) : Nat := 2 * m.associations.length * IPV4_ADDRESS_SIZE

def serialize (m : Hna) : List UInt8 := m.associations.flatMap Association.serialize

def deserialize (messageSize : UInt32) : ByteReader (Hna × Nat) := do
  check (messageSize.toNat % (IPV4_ADDRESS_SIZE * 2) = 0)
  let associations ← Association.deserialize.times (messageSize.toNat / IPV4_ADDRESS_SIZE / 2)
  pure (⟨associations⟩, messageSize.toNat)

end Hna

/-! ## The message -/

/-- `m_message`, of which a header uses the one of its type. -/
inductive Message where
  | mid (m : Mid)
  | hello (m : Hello)
  | tc (m : Tc)
  | hna (m : Hna)
  deriving DecidableEq

namespace Message

def messageType : Message → MessageType
  | .mid _ => .MID_MESSAGE
  | .hello _ => .HELLO_MESSAGE
  | .tc _ => .TC_MESSAGE
  | .hna _ => .HNA_MESSAGE

def getSerializedSize : Message → Nat
  | .mid m => m.getSerializedSize
  | .hello m => m.getSerializedSize
  | .tc m => m.getSerializedSize
  | .hna m => m.getSerializedSize

def serialize : Message → List UInt8
  | .mid m => m.serialize
  | .hello m => m.serialize
  | .tc m => m.serialize
  | .hna m => m.serialize

def deserialize (messageType : MessageType) (messageSize : UInt32) : ByteReader (Message × Nat) :=
  match messageType with
  | .MID_MESSAGE => do
    let r ← Mid.deserialize messageSize
    pure (.mid r.1, r.2)
  | .HELLO_MESSAGE => do
    let r ← Hello.deserialize messageSize
    pure (.hello r.1, r.2)
  | .TC_MESSAGE => do
    let r ← Tc.deserialize messageSize
    pure (.tc r.1, r.2)
  | .HNA_MESSAGE => do
    let r ← Hna.deserialize messageSize
    pure (.hna r.1, r.2)

end Message

end MessageHeader

open MessageHeader (Message)

structure MessageHeader where
  m_vTime : UInt8
  m_messageSize : UInt16
  m_originatorAddress : Ipv4Address
  m_timeToLive : UInt8
  m_hopCount : UInt8
  m_messageSequenceNumber : UInt16
  m_message : Message
  deriving DecidableEq

namespace MessageHeader

def getMessageType (h : MessageHeader) : MessageType := h.m_message.messageType

def getSerializedSize (h : MessageHeader) : Nat := OLSR_MSG_HEADER_SIZE + h.m_message.getSerializedSize

/-- The size written is the one computed, not `m_messageSize`. -/
def serialize (h : MessageHeader) : List UInt8 :=
  writeHton 1 h.getMessageType.value ++ (writeU8 h.m_vTime ++ (writeHton 2 h.getSerializedSize ++
    (writeAddress h.m_originatorAddress ++ (writeU8 h.m_timeToLive ++ (writeU8 h.m_hopCount ++
      (writeHton 2 h.m_messageSequenceNumber.toNat ++ h.m_message.serialize))))))

/-- What comes after the message type. -/
def deserializeAs (messageType : MessageType) : ByteReader (MessageHeader × Nat) := do
  let vTime ← readU8
  let messageSize ← readU16
  let originatorAddress ← readAddress
  let timeToLive ← readU8
  let hopCount ← readU8
  let messageSequenceNumber ← readU16
  let r ← Message.deserialize messageType (messageSize.toUInt32 - 12)
  pure (⟨vTime, messageSize, originatorAddress, timeToLive, hopCount, messageSequenceNumber, r.1⟩, OLSR_MSG_HEADER_SIZE + r.2)

def deserialize : ByteReader (MessageHeader × Nat) := do
  let messageType ← word 1
  check (messageType ≥ MessageType.HELLO_MESSAGE.value ∧ messageType ≤ MessageType.HNA_MESSAGE.value)
  deserializeAs (.ofValue messageType)

end MessageHeader

end Ns3
