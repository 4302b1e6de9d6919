import Ns3.Internet.Ipv6ExtensionHeader

/-!
# Extension headers in every fragment

Hop-by-hop and routing headers, and the destination options before a routing
header, go into every fragment. `GetFragments` takes them off the front of the
packet one after the other and puts them before each fragment in that order,
each one before those that are there. What they take is summed in bytes of
eight bits.
-/

namespace Ns3

open Ipv6Header

/-- `Ipv6ExtensionLooseRoutingHeader`; the addresses are 16 bytes each. -/
structure LooseRoutingHeader where
  nextHeader : UInt8
  m_length : UInt8
  m_typeRouting : UInt8
  m_segmentsLeft : UInt8
  m_routersAddress : Bytes
  deriving DecidableEq

namespace LooseRoutingHeader

def getSerializedSize (h : LooseRoutingHeader) : Nat := 8 + h.m_routersAddress.length

def serialize (h : LooseRoutingHeader) : Bytes :=
  [h.nextHeader, UInt8.ofNat (h.m_routersAddress.length / 16 * 2), h.m_typeRouting, h.m_segmentsLeft, 0, 0, 0, 0] ++
    h.m_routersAddress

def deserialize (bytes : Bytes) : Option LooseRoutingHeader :=
  (readU8 bytes).bind fun (nextHeader, i) =>
    (readU8 i).bind fun (m_length, i) =>
      (readU8 i).bind fun (m_typeRouting, i) =>
        (readU8 i).bind fun (m_segmentsLeft, i) =>
          (readBytes 4 i).bind fun (_, i) =>
            (readBytes (m_length.toNat / 2 * 16) i).map fun (m_routersAddress, _) =>
              ⟨nextHeader, m_length, m_typeRouting, m_segmentsLeft, m_routersAddress⟩

end LooseRoutingHeader

inductive UnfragmentableHeader where
  | HOP_BY_HOP (h : OptionsHeader)
  | ROUTING (h : LooseRoutingHeader)
  | DESTINATION (h : OptionsHeader)
  deriving DecidableEq

namespace UnfragmentableHeader

/-- The value that stands before it in a field of the next header. -/
def kind : UnfragmentableHeader → UInt8
  | .HOP_BY_HOP _ => IPV6_EXT_HOP_BY_HOP
  | .ROUTING _ => IPV6_EXT_ROUTING
  | .DESTINATION _ => IPV6_EXT_DESTINATION

def nextHeader : UnfragmentableHeader → UInt8
  | .HOP_BY_HOP h => h.nextHeader
  | .ROUTING h => h.nextHeader
  | .DESTINATION h => h.nextHeader

def setNextHeader (nextHeader : UInt8) : UnfragmentableHeader → UnfragmentableHeader
  | .HOP_BY_HOP h => .HOP_BY_HOP { h with nextHeader := nextHeader }
  | .ROUTING h => .ROUTING { h with nextHeader := nextHeader }
  | .DESTINATION h => .DESTINATION { h with nextHeader := nextHeader }

def getLength : UnfragmentableHeader → Nat
  | .HOP_BY_HOP h => extensionLength h.m_length
  | .ROUTING h => extensionLength h.m_length
  | .DESTINATION h => extensionLength h.m_length

def serialize : UnfragmentableHeader → Bytes
  | .HOP_BY_HOP h => h.serialize
  | .ROUTING h => h.serialize
  | .DESTINATION h => h.serialize

def remove (kind : UInt8) (p : Bytes) : Option (UnfragmentableHeader × Bytes) :=
  if kind = IPV6_EXT_HOP_BY_HOP then
    (OptionsHeader.deserialize p).map fun h => (.HOP_BY_HOP h, p.drop h.getSerializedSize)
  else if kind = IPV6_EXT_ROUTING then
    (LooseRoutingHeader.deserialize p).map fun h => (.ROUTING h, p.drop h.getSerializedSize)
  else (OptionsHeader.deserialize p).map fun h => (.DESTINATION h, p.drop h.getSerializedSize)

end UnfragmentableHeader

namespace Ipv6UnfragmentablePart

open Ipv6ExtensionFragment (moreHeader fragmentLoop)

/-- The headers, the last one with the fragment header behind it; what was behind it, and what is left of the packet. -/
def removeHeaders : Nat → UInt8 → Bytes → Option (List UnfragmentableHeader × UInt8 × Bytes)
  | 0, _, _ => none
  | rounds + 1, nextHeader, p =>
    if moreHeader p nextHeader then
      (UnfragmentableHeader.remove nextHeader p).bind fun (h, p) =>
        if moreHeader p h.nextHeader then
          (removeHeaders rounds h.nextHeader p).map fun (unfragmentablePart, rest) => (h :: unfragmentablePart, rest)
        else some ([h.setNextHeader IPV6_EXT_FRAGMENTATION], h.nextHeader, p)
    else some ([], nextHeader, p)

/-- `extensionHeaderLength` has eight bits. -/
def unfragmentablePartSize (unfragmentablePart : List UnfragmentableHeader) : Nat :=
  (unfragmentablePart.map fun h => h.getLength % 256).sum

def addHeaders (unfragmentablePart : List UnfragmentableHeader) (fragment : Bytes) : Bytes :=
  unfragmentablePart.foldl (fun fragment h => h.serialize ++ fragment) fragment

/-- What the loop adds to a fragment and its fragment header. -/
def finish (unfragmentablePart : List UnfragmentableHeader) (f : Ipv6Packet) : Ipv6Packet :=
  (addHeaders unfragmentablePart f.1,
    { f.2 with payloadLength := UInt16.ofNat (addHeaders unfragmentablePart f.1).length })

def getFragments (packet : Bytes) (ipv6Header : Ipv6Header) (maxFragmentSize : Nat) (identification : UInt32) :
    Option (List Ipv6Packet) :=
  (removeHeaders (packet.length + 1) ipv6Header.nextHeader packet).bind fun (unfragmentablePart, nextHeader, p) =>
    let ipv6Header :=
      if unfragmentablePart = [] then { ipv6Header with nextHeader := IPV6_EXT_FRAGMENTATION } else ipv6Header
    (fragmentLoop p ipv6Header nextHeader identification
      (uint32 (maxFragmentSize - ipv6Header.getSerializedSize - unfragmentablePartSize unfragmentablePart - 8))
      (p.length + 1) {} 0).map fun fragments => fragments.map (finish unfragmentablePart)

end Ipv6UnfragmentablePart

end Ns3
