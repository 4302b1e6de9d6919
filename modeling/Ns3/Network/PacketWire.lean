import Ns3.Lib.ByteStore
import Ns3.Network.ByteTagList

/-!
# The bytes of a packet

`Serialize` and `Deserialize` of packets and of their five parts. Each part is
written behind a word with its length, which counts the word itself. Sizes and
lengths are unsigned 32-bit values. A serializer that returns 0 (or fails its
assertion) ends with `Except.error`; a deserializer whose assertion fails has no
result.

A part holds what its own walks give: a metadata object is its list of items
from `m_head` to `m_tail`, a buffer is the bytes on both sides of its zero
area, a byte tag list its records.
-/

namespace Ns3

/-- The registry of types: `GetHash`, `GetName` and the lookups. -/
structure TypeIds where
  hash : TypeId → Nat
  lookupByHash : Nat → TypeId
  name : TypeId → Bytes
  lookupByName : Bytes → TypeId

abbrev Memory := Nat → UInt8

/-! ## `NixVector` -/

structure NixVector where
  used : Nat := 0
  currentVectorBitSize : Nat := 0
  totalBitSize : Nat := 0
  nixVector : List Nat := []
  deriving DecidableEq

namespace NixVector

def getSerializedSize (nix : NixVector) : Nat := (4 + 4 + 4 + 4 * nix.nixVector.length) % 4294967296

def serialize (nix : NixVector) (buffer maxSize : Nat) : Except Writes Writes := do
  let c ← Cursor.putWord maxSize nix.used { p := buffer }
  let c ← c.putWord maxSize nix.currentVectorBitSize
  let c ← c.putWord maxSize nix.totalBitSize
  let c ← nix.nixVector.foldlM (fun c j => c.putWord maxSize j) c
  return c.out

def readWords (memory : Memory) (p : Nat) : Nat → Option (List Nat)
  | 0 => some []
  | sizeCheck + 4 => (readWords memory (p + 4) sizeCheck).map (loadWord memory p 4 :: ·)
  | _ => none

def deserialize (memory : Memory) (buffer size : Nat) : Option NixVector := do
  let sizeCheck := sub32 size 4
  guard (sizeCheck ≥ 4 ∧ sizeCheck - 4 ≥ 4 ∧ sizeCheck - 8 ≥ 4)
  let words ← readWords memory (buffer + 12) (sizeCheck - 12)
  return ⟨loadWord memory buffer 4, loadWord memory (buffer + 4) 4, loadWord memory (buffer + 8) 4, words⟩

end NixVector

/-! ## Tags -/

def wordOfInt (x : Int) : Nat := (x % 4294967296).toNat

namespace ByteTagList

def getSerializedSize (l : ByteTagList) : Nat :=
  l.beginAll.foldl (fun size item => add32 size (4 + 3 * 4 + pad4 item.tag.data.length)) 4

/-- One round of the loop of `Serialize`; `*numberOfTags` counts the rounds done. -/
def serializeItem (ids : TypeIds) (buffer maxSize : Nat) (item : ByteTag) (s : Cursor × Nat) :
    Except Writes (Cursor × Nat) := do
  let c ← s.1.putWord maxSize (ids.hash item.tag.tid)
  let c ← c.putWord maxSize item.tag.data.length
  let c ← c.putWord maxSize (wordOfInt item.start)
  let c ← c.putWord maxSize (wordOfInt item.stop)
  let c ← c.put maxSize item.tag.data
  return ({ c with out := c.out ++ storeAt buffer (leBytes 4 (s.2 + 1)) }, s.2 + 1)

def serialize (ids : TypeIds) (l : ByteTagList) (buffer maxSize : Nat) : Except Writes Writes := do
  let c ← Cursor.putWord maxSize 0 { p := buffer }
  let s ← l.beginAll.foldlM (fun s item => serializeItem ids buffer maxSize item s) (c, 0)
  return s.1.out

/-- The loop of `Deserialize`, for as many tags as there are left. -/
def deserializeLoop (ids : TypeIds) (memory : Memory) : Nat → Nat → Nat → ByteTagList → Option ByteTagList
  | 0, _, sizeCheck, l => if sizeCheck = 0 then some l else none
  | n + 1, p, sizeCheck, l => do
    guard (sizeCheck ≥ 4 ∧ sizeCheck - 4 ≥ 4 ∧ sizeCheck - 8 ≥ 4 ∧ sizeCheck - 12 ≥ 4)
    let bufferSize := loadWord memory (p + 4) 4
    guard (sizeCheck - 16 ≥ bufferSize)
    let tag : Tag := ⟨ids.lookupByHash (loadWord memory p 4), load memory (p + 16) bufferSize⟩
    deserializeLoop ids memory n (p + 16 + pad4 bufferSize) (sub32 (sizeCheck - 16) (pad4 bufferSize))
      (l.add tag (int32 (loadWord memory (p + 8) 4)) (int32 (loadWord memory (p + 12) 4)))

def deserialize (ids : TypeIds) (memory : Memory) (buffer size : Nat) : Option ByteTagList := do
  let sizeCheck := sub32 size 4
  guard (sizeCheck ≥ 4)
  deserializeLoop ids memory (loadWord memory buffer 4) (buffer + 4) (sizeCheck - 4) {}

end ByteTagList

namespace PacketTagList

def getSerializedSize (tags : List Tag) : Nat :=
  tags.foldl (fun size tag => add32 size (4 + 4 + pad4 tag.data.length)) 4

def serializeTag (ids : TypeIds) (buffer maxSize : Nat) (tag : Tag) (s : Cursor × Nat) :
    Except Writes (Cursor × Nat) := do
  let c ← s.1.putWord maxSize tag.data.length
  let c ← c.putWord maxSize (ids.hash tag.tid)
  let c ← c.put maxSize tag.data
  return ({ c with out := c.out ++ storeAt buffer (leBytes 4 (s.2 + 1)) }, s.2 + 1)

def serialize (ids : TypeIds) (tags : List Tag) (buffer maxSize : Nat) : Except Writes Writes := do
  let c ← Cursor.putWord maxSize 0 { p := buffer }
  let s ← tags.foldlM (fun s tag => serializeTag ids buffer maxSize tag s) (c, 0)
  return s.1.out

def deserializeLoop (ids : TypeIds) (memory : Memory) : Nat → Nat → Nat → Option (List Tag)
  | 0, _, sizeCheck => if sizeCheck = 0 then some [] else none
  | n + 1, p, sizeCheck => do
    guard (sizeCheck ≥ 4 ∧ sizeCheck - 4 ≥ 4)
    let tagSize := loadWord memory p 4
    -- the assertion of `CreateTagData`
    guard (tagSize < 4294967295)
    guard (sizeCheck - 8 ≥ tagSize)
    let tag : Tag := ⟨ids.lookupByHash (loadWord memory (p + 4) 4), load memory (p + 8) tagSize⟩
    let tags ← deserializeLoop ids memory n (p + 8 + pad4 tagSize) (sub32 (sizeCheck - 8) (pad4 tagSize))
    return tag :: tags

def deserialize (ids : TypeIds) (memory : Memory) (buffer size : Nat) : Option (List Tag) := do
  let sizeCheck := sub32 size 4
  guard (sizeCheck ≥ 4)
  deserializeLoop ids memory (loadWord memory buffer 4) (buffer + 4) (sizeCheck - 4)

end PacketTagList

/-! ## `PacketMetadata` -/

/-- `SmallItem` and `ExtraItem` as `ReadItems` gives them. -/
structure MetadataItem where
  typeUid : Nat
  size : Nat
  chunkUid : Nat
  fragmentStart : Nat
  fragmentEnd : Nat
  packetUid : Nat
  deriving DecidableEq

structure PacketMetadata where
  packetUid : Nat := 0
  items : List MetadataItem := []
  deriving DecidableEq

namespace MetadataItem

/-- The type, without the bit that says whether the item is a big one. -/
def uid (item : MetadataItem) : TypeId := item.typeUid / 2

def isBig (item : MetadataItem) : Nat := item.typeUid % 2

/-- An item as `AddBig` stores and `ReadItems` reads it: it is a big one, and four bytes
of `packetUid` are kept, the last of them with its sign. -/
def big (item : MetadataItem) : MetadataItem :=
  let low := item.packetUid % 4294967296
  { item with
    typeUid := if item.typeUid % 2 = 1 then item.typeUid else item.typeUid + 1
    packetUid := if low < 2147483648 then low else 18446744069414584320 + low }

end MetadataItem

namespace PacketMetadata

/-- `m_enable` is the switch of the whole subsystem. -/
def getSerializedSize (ids : TypeIds) (enable : Bool) (m : PacketMetadata) : Nat :=
  if !enable then 8
  else m.items.foldl (fun totalSize item =>
    add32 (add32 totalSize (if item.uid = 0 then 4 else 4 + (ids.name item.uid).length))
      (1 + 4 + 2 + 4 + 4 + 8)) 8

/-- `AddToRaw`: room is counted from the start of the metadata. -/
def addToRaw (start maxSize : Nat) (data : List UInt8) (c : Cursor) : Except Writes Cursor :=
  if (c.p + data.length - start) % 4294967296 > maxSize then .error c.out
  else .ok { c with p := c.p + data.length, out := c.out ++ storeAt c.p data }

def serializeItem (ids : TypeIds) (start maxSize : Nat) (c : Cursor) (item : MetadataItem) : Except Writes Cursor := do
  let c ←
    if item.uid ≠ 0 then do
      let uidString := ids.name item.uid
      let c ← addToRaw start maxSize (leBytes 4 uidString.length) c
      addToRaw start maxSize uidString c
    else
      addToRaw start maxSize (leBytes 4 0) c
  let c ← addToRaw start maxSize (leBytes 1 item.isBig) c
  let c ← addToRaw start maxSize (leBytes 4 item.size) c
  let c ← addToRaw start maxSize (leBytes 2 item.chunkUid) c
  let c ← addToRaw start maxSize (leBytes 4 item.fragmentStart) c
  let c ← addToRaw start maxSize (leBytes 4 item.fragmentEnd) c
  addToRaw start maxSize (leBytes 8 item.packetUid) c

def serialize (ids : TypeIds) (m : PacketMetadata) (buffer maxSize : Nat) : Except Writes Writes := do
  let c ← addToRaw buffer maxSize (leBytes 8 m.packetUid) { p := buffer }
  let c ← m.items.foldlM (serializeItem ids buffer maxSize) c
  if (c.p - buffer) % 4294967296 = maxSize then .ok c.out else .error c.out

/-- `ReadFromRaw`; it gives a null pointer when the value is not all inside. -/
def readFromRaw (memory : Memory) (start maxSize n p : Nat) : Option (Nat × Nat) :=
  if (p + n - start) % 4294967296 > maxSize then none else some (loadWord memory p n, p + n)

/-- One round of the loop of `Deserialize`: the item, where the next one begins, and
`desSize`. -/
def deserializeItem (ids : TypeIds) (memory : Memory) (start size p desSize : Nat) :
    Option (MetadataItem × Nat × Nat) := do
  let (uidStringSize, p) ← readFromRaw memory start size 4 p
  -- the name is read byte by byte; the last of them decides whether there is room
  guard ((p + uidStringSize - start) % 4294967296 ≤ size)
  let uid := if uidStringSize = 0 then 0 else ids.lookupByName (load memory p uidStringSize)
  let (isBig, p) ← readFromRaw memory start size 1 (p + uidStringSize)
  let (itemSize, p) ← readFromRaw memory start size 4 p
  let (chunkUid, p) ← readFromRaw memory start size 2 p
  let (fragmentStart, p) ← readFromRaw memory start size 4 p
  let (fragmentEnd, p) ← readFromRaw memory start size 4 p
  let (packetUid, p) ← readFromRaw memory start size 8 p
  let item : MetadataItem := ⟨2 * uid ||| isBig, itemSize, chunkUid, fragmentStart, fragmentEnd, packetUid⟩
  return (item.big, p, sub32 desSize (4 + uidStringSize + 1 + 4 + 2 + 4 + 4 + 8))

/-- The loop; every round reads at least 27 of the `size` bytes. -/
def deserializeLoop (ids : TypeIds) (memory : Memory) (start size : Nat) : Nat → Nat → Nat → Option (List MetadataItem)
  | _, _, 0 => some []
  | 0, _, _ => none
  | fuel + 1, p, desSize => do
    let (item, p, desSize) ← deserializeItem ids memory start size p desSize
    let items ← deserializeLoop ids memory start size fuel p desSize
    return item :: items

def deserialize (ids : TypeIds) (memory : Memory) (buffer size : Nat) : Option PacketMetadata := do
  let (packetUid, p) ← readFromRaw memory buffer size 8 buffer
  let items ← deserializeLoop ids memory buffer size size p (sub32 (sub32 size 4) 8)
  return ⟨packetUid, items⟩

end PacketMetadata

/-! ## `Buffer` -/

/-- The bytes before the zero area, its length, and the bytes after it. -/
structure BufferContent where
  dataStart : Bytes := []
  zeroSize : Nat := 0
  dataEnd : Bytes := []
  deriving DecidableEq

namespace BufferContent

def bytes (b : BufferContent) : Bytes := b.dataStart ++ List.replicate b.zeroSize 0 ++ b.dataEnd

def getSerializedSize (b : BufferContent) : Nat :=
  add32 (add32 12 (pad4 b.dataStart.length)) (pad4 b.dataEnd.length)

def serialize (b : BufferContent) (buffer maxSize : Nat) : Except Writes Writes := do
  let c ← Cursor.putWord maxSize b.zeroSize { p := buffer }
  let c ← c.putWord maxSize b.dataStart.length
  let c ← c.put maxSize b.dataStart
  let c ← c.putWord maxSize b.dataEnd.length
  let c ← c.put maxSize b.dataEnd
  return c.out

def deserialize (memory : Memory) (buffer size : Nat) : Option BufferContent := do
  let sizeCheck := sub32 size 4
  guard (sizeCheck ≥ 4 ∧ sizeCheck - 4 ≥ 4)
  let dataStartLength := loadWord memory (buffer + 4) 4
  let sizeCheck := sizeCheck - 8
  guard (sizeCheck ≥ dataStartLength)
  let sizeCheck := sub32 sizeCheck (pad4 dataStartLength)
  let p := buffer + 8 + pad4 dataStartLength
  guard (sizeCheck ≥ 4)
  let dataEndLength := loadWord memory p 4
  let sizeCheck := sizeCheck - 4
  guard (sizeCheck ≥ dataEndLength)
  guard (sub32 sizeCheck (pad4 dataEndLength) = 0)
  return ⟨load memory (buffer + 8) dataStartLength, loadWord memory buffer 4, load memory (p + 4) dataEndLength⟩

end BufferContent

/-! ## `Packet` -/

structure WirePacket where
  buffer : BufferContent := {}
  byteTagList : ByteTagList := {}
  packetTagList : List Tag := []
  metadata : PacketMetadata := {}
  nixVector : Option NixVector := none
  deriving DecidableEq

namespace WirePacket

section
variable (ids : TypeIds) (enable : Bool)

def getSerializedSize (packet : WirePacket) : Nat :=
  let size := match packet.nixVector with
    | some nix => add32 (pad4 nix.getSerializedSize) 4
    | none => 4
  let size := add32 (add32 size (pad4 (PacketTagList.getSerializedSize packet.packetTagList))) 4
  let size := add32 (add32 size (pad4 packet.byteTagList.getSerializedSize)) 4
  let size := add32 (add32 size (pad4 (packet.metadata.getSerializedSize ids enable))) 4
  add32 (add32 size (pad4 packet.buffer.getSerializedSize)) 4

/-- One part of `Serialize`. Only the size of the part is counted: neither the word
in front of it nor the bytes up to the next multiple of four. -/
def putPart (maxSize partSize : Nat) (serialize : Nat → Nat → Except Writes Writes) (c : Cursor) :
    Except Writes Cursor :=
  if add32 c.size partSize ≤ maxSize then
    let out := c.out ++ storeAt c.p (leBytes 4 (partSize + 4))
    match serialize (c.p + 4) partSize with
    | .ok ws => .ok ⟨c.p + 4 + pad4 partSize, add32 c.size partSize, out ++ ws⟩
    | .error ws => .error (out ++ ws)
  else
    .error c.out

def serializeNix (maxSize : Nat) (nixVector : Option NixVector) (c : Cursor) : Except Writes Cursor :=
  match nixVector with
  | some nix => putPart maxSize nix.getSerializedSize nix.serialize c
  | none => c.putWord maxSize 4

def serialize (packet : WirePacket) (buffer maxSize : Nat) : Except Writes Writes := do
  let c ← serializeNix maxSize packet.nixVector { p := buffer }
  let c ← putPart maxSize packet.byteTagList.getSerializedSize (packet.byteTagList.serialize ids) c
  let c ← putPart maxSize (PacketTagList.getSerializedSize packet.packetTagList)
    (PacketTagList.serialize ids packet.packetTagList) c
  let c ← putPart maxSize (packet.metadata.getSerializedSize ids enable) (packet.metadata.serialize ids) c
  let c ← putPart maxSize packet.buffer.getSerializedSize packet.buffer.serialize c
  return c.out

end

/-- One part of `Deserialize`: what it holds, where the next one begins, and what is left
of `size`. -/
def getPart {α : Type} (memory : Memory) (deserialize : Nat → Nat → Option α) (p size : Nat) :
    Option (α × Nat × Nat) := do
  let partSize := loadWord memory p 4
  guard (size ≥ partSize)
  let part ← deserialize (p + 4) partSize
  return (part, p + 4 + pad4 (sub32 partSize 4), size - partSize)

def deserializeNix (memory : Memory) (p size : Nat) : Option (Option NixVector × Nat × Nat) := do
  let nixSize := loadWord memory p 4
  guard (size ≥ nixSize)
  if nixSize > 4 then
    let nix ← NixVector.deserialize memory (p + 4) nixSize
    return (some nix, p + 4 + pad4 (nixSize - 4), size - nixSize)
  else
    return (none, p + 4, size - nixSize)

/-- The result says whether `size` is used up. -/
def deserialize (ids : TypeIds) (memory : Memory) (buffer size : Nat) : Option (Bool × WirePacket) := do
  let (nixVector, p, size) ← deserializeNix memory buffer size
  let (byteTagList, p, size) ← getPart memory (ByteTagList.deserialize ids memory) p size
  let (packetTagList, p, size) ← getPart memory (PacketTagList.deserialize ids memory) p size
  let (metadata, p, size) ← getPart memory (PacketMetadata.deserialize ids memory) p size
  let (content, _, size) ← getPart memory (BufferContent.deserialize memory) p size
  return (size = 0, ⟨content, byteTagList, packetTagList, metadata, nixVector⟩)

end WirePacket

end Ns3
