import Ns3.Network.PacketTagList

/-!
# `ByteTagList`

Byte tags with the interval of bytes each covers. Intervals are stored with
an offset that moves when bytes are added or removed in front (`m_adjustment`),
in signed 32-bit arithmetic. What is stored of one tag is a record of its own;
the shared memory of the records is the subject of another module.
-/

namespace Ns3

def int32 (x : Int) : Int := Int.bmod x 4294967296

def INT32_MAX : Int := 2147483647
def INT32_MIN : Int := -2147483648
def OFFSET_MAX : Int := INT32_MAX

/-- A tag and an interval: as stored, relative to the offset; as an iterator's `Item`,
in bytes of the packet. -/
structure ByteTag where
  tag : Tag
  start : Int
  stop : Int
  deriving DecidableEq

structure ByteTagList where
  minStart : Int := INT32_MAX
  maxEnd : Int := INT32_MIN
  adjustment : Int := 0
  tags : List ByteTag := []
  deriving DecidableEq

namespace ByteTagList

def adjust (l : ByteTagList) (adjustment : Int) : ByteTagList :=
  { l with adjustment := int32 (l.adjustment + adjustment) }

def add (l : ByteTagList) (tag : Tag) (start stop : Int) : ByteTagList :=
  let first := int32 (start - l.adjustment)
  let last := int32 (stop - l.adjustment)
  { l with
    tags := l.tags ++ [⟨tag, first, last⟩]
    minStart := if first < l.minStart then first else l.minStart
    maxEnd := if last > l.maxEnd then last else l.maxEnd }

/-- One round of `PrepareForNext`, and `Next` on what it finds. -/
def item (adjustment offsetStart offsetEnd : Int) (t : ByteTag) : Option ByteTag :=
  let nextStart := int32 (t.start + adjustment)
  let nextEnd := int32 (t.stop + adjustment)
  if nextStart ≥ offsetEnd ∨ nextEnd ≤ offsetStart then none
  else some ⟨t.tag, max nextStart offsetStart, min nextEnd offsetEnd⟩

def begin (l : ByteTagList) (offsetStart offsetEnd : Int) : List ByteTag :=
  l.tags.filterMap (item l.adjustment offsetStart offsetEnd)

def beginAll (l : ByteTagList) : List ByteTag := l.begin 0 OFFSET_MAX

/-- The loop of `AddAtEnd`; its own `m_maxEnd` moves too, but is given up with the old
list. -/
def cutAtEnd (appendOffset : Int) (items : List ByteTag) : ByteTagList :=
  items.foldl (fun l t =>
    if t.start ≥ appendOffset then l
    else l.add t.tag t.start (if t.stop > appendOffset then appendOffset else t.stop)) {}

def addAtEnd (l : ByteTagList) (appendOffset : Int) : ByteTagList :=
  if l.maxEnd ≤ int32 (appendOffset - l.adjustment) then l else cutAtEnd appendOffset l.beginAll

def cutAtStart (prependOffset : Int) (items : List ByteTag) : ByteTagList :=
  items.foldl (fun l t =>
    if t.stop ≤ prependOffset then l
    else l.add t.tag (if t.start < prependOffset then prependOffset else t.start) t.stop) {}

def addAtStart (l : ByteTagList) (prependOffset : Int) : ByteTagList :=
  if l.minStart ≥ int32 (prependOffset - l.adjustment) then l else cutAtStart prependOffset l.beginAll

end ByteTagList

end Ns3
