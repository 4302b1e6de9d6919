import Ns3.Internet.Ipv4Fragmentation
import Ns3.Lib.NetOrder
import Ns3.Lib.OrdMap

/-!
# The classification of packets to bearers

A template has a list of filters, and a packet goes to the bearer of the last
template that has a filter for its addresses, ports and type of service. Only
the first fragment of a datagram has the ports; they are kept for the others
until the last one was classified. IPv6 packets, which leave no trace, are left
out.
-/

namespace Ns3

/-! ## Templates -/

inductive Direction where
  | DOWNLINK
  | UPLINK
  | BIDIRECTIONAL
  deriving DecidableEq

def Direction.value : Direction → Nat
  | .DOWNLINK => 1
  | .UPLINK => 2
  | .BIDIRECTIONAL => 3

structure PacketFilter where
  precedence : UInt8 := 255
  direction : Direction := .BIDIRECTIONAL
  remoteAddress : UInt32 := 0x66666666
  remoteMask : UInt32 := 0
  localAddress : UInt32 := 0x66666666
  localMask : UInt32 := 0
  remotePortStart : Nat := 0
  remotePortEnd : Nat := 65535
  localPortStart : Nat := 0
  localPortEnd : Nat := 65535
  typeOfService : UInt8 := 0
  typeOfServiceMask : UInt8 := 0
  deriving DecidableEq

def isMatch (mask a b : UInt32) : Bool := a &&& mask = b &&& mask

/-- What a filter looks at; ports are local, then remote. -/
structure PacketInfo where
  direction : Direction
  remoteAddress : UInt32
  localAddress : UInt32
  ports : Nat × Nat
  tos : UInt8
  deriving DecidableEq

def PacketFilter.Matches (f : PacketFilter) (p : PacketInfo) : Bool :=
  p.direction.value &&& f.direction.value ≠ 0 && isMatch f.remoteMask f.remoteAddress p.remoteAddress &&
    isMatch f.localMask f.localAddress p.localAddress && (f.remotePortStart ≤ p.ports.2 && p.ports.2 ≤ f.remotePortEnd) &&
    (f.localPortStart ≤ p.ports.1 && p.ports.1 ≤ f.localPortEnd) &&
    p.tos &&& f.typeOfServiceMask = f.typeOfService &&& f.typeOfServiceMask

structure EpcTft where
  filters : List PacketFilter := []
  deriving DecidableEq

namespace EpcTft

/-- Behind the filters whose precedence is not larger. -/
def insert (f : PacketFilter) : List PacketFilter → List PacketFilter
  | [] => [f]
  | g :: filters => if g.precedence ≤ f.precedence then g :: insert f filters else f :: g :: filters

/-- The template and the number of the filter; there are at most 16. -/
def add (t : EpcTft) (f : PacketFilter) : Option (EpcTft × Nat) :=
  if t.filters.length ≥ 16 then none else some (⟨insert f t.filters⟩, t.filters.length)

def Matches (t : EpcTft) (p : PacketInfo) : Bool := t.filters.any fun f => f.Matches p

end EpcTft

/-! ## The classifier -/

abbrev ClassifiedKey := UInt32 × UInt32 × UInt8 × UInt16

structure ClassifiedPacket where
  direction : Direction
  tos : UInt8
  packet : Ipv4Packet
  deriving DecidableEq

structure EpcTftClassifier where
  tftMap : OrdMap Nat EpcTft
  classifiedIpv4Fragments : ClassifiedKey → Option (Nat × Nat) := fun _ => none

namespace ClassifiedPacket

def header (p : ClassifiedPacket) : Ipv4Header := p.packet.2

def payload (p : ClassifiedPacket) : Bytes := p.packet.1

def fragmentKey (p : ClassifiedPacket) : ClassifiedKey :=
  (p.header.source, p.header.destination, p.header.protocol, p.header.identification)

/-- The size of a UDP or TCP header without options. -/
def headerSize (p : ClassifiedPacket) : Option Nat :=
  if p.header.protocol = 17 then some 8 else if p.header.protocol = 6 then some 20 else none

def hasPorts (p : ClassifiedPacket) : Bool := p.headerSize.any fun size => size ≤ p.header.payloadSize

def readPorts (p : ClassifiedPacket) : Nat × Nat :=
  let sourcePort := ofNtoh (p.payload.take 2)
  let destinationPort := ofNtoh ((p.payload.drop 2).take 2)
  if p.direction = .UPLINK then (sourcePort, destinationPort) else (destinationPort, sourcePort)

/-- Past the assertion, that the other direction is `DOWNLINK`. -/
def info (p : ClassifiedPacket) (ports : Nat × Nat) : PacketInfo where
  direction := p.direction
  remoteAddress := if p.direction = .UPLINK then p.header.destination else p.header.source
  localAddress := if p.direction = .UPLINK then p.header.source else p.header.destination
  ports := ports
  tos := p.tos

end ClassifiedPacket

namespace EpcTftClassifier

/-- A UE has at most 16 bearers. -/
def add (s : EpcTftClassifier) (tft : EpcTft) (id : Nat) : Option EpcTftClassifier :=
  let tftMap := s.tftMap.insert id tft
  if tftMap.entries.length ≤ 16 then some { s with tftMap := tftMap } else none

def store (s : EpcTftClassifier) (key : ClassifiedKey) (ports : Option (Nat × Nat)) : EpcTftClassifier :=
  { s with classifiedIpv4Fragments := Function.update s.classifiedIpv4Fragments key ports }

def findPorts (s : EpcTftClassifier) (p : ClassifiedPacket) : (Nat × Nat) × EpcTftClassifier :=
  if p.header.fragmentOffset = 0 then
    if p.hasPorts then
      (p.readPorts, if p.header.isLastFragment then s else s.store p.fragmentKey (some p.readPorts))
    else ((0, 0), s)
  else
    match s.classifiedIpv4Fragments p.fragmentKey with
    | some ports => (ports, if p.header.isLastFragment then s.store p.fragmentKey none else s)
    | none => ((0, 0), s)

/-- From the last template on; 0 for no match. -/
def bearer (s : EpcTftClassifier) (p : PacketInfo) : Nat :=
  match s.tftMap.entries.reverse.find? fun e => e.2.Matches p with
  | some e => e.1
  | none => 0

def classify (s : EpcTftClassifier) (p : ClassifiedPacket) : Nat × EpcTftClassifier :=
  (s.bearer (p.info (s.findPorts p).1), (s.findPorts p).2)

end EpcTftClassifier

end Ns3
