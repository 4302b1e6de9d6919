import Ns3.Internet.Ipv6Autoconf

/-!
# HC1 compression

`SixLowPanHc1` with its bytes, `CompressLowPanHc1` and what undoes it. The
second byte of the header tells which parts of the addresses are inline.
-/

namespace Ns3

open Ipv6Header

/-- Which of the prefix and the interface identifier are inline. -/
inductive LowPanHc1Addr where
  | HC1_PIII
  | HC1_PIIC
  | HC1_PCII
  | HC1_PCIC
  deriving DecidableEq

namespace LowPanHc1Addr

def value : LowPanHc1Addr → Nat
  | HC1_PIII => 0
  | HC1_PIIC => 1
  | HC1_PCII => 2
  | HC1_PCIC => 3

def ofValue : Nat → LowPanHc1Addr
  | 0 => HC1_PIII
  | 1 => HC1_PIIC
  | 2 => HC1_PCII
  | _ => HC1_PCIC

end LowPanHc1Addr

inductive LowPanHc1NextHeader where
  | HC1_NC
  | HC1_UDP
  | HC1_ICMP
  | HC1_TCP
  deriving DecidableEq

namespace LowPanHc1NextHeader

def value : LowPanHc1NextHeader → Nat
  | HC1_NC => 0
  | HC1_UDP => 1
  | HC1_ICMP => 2
  | HC1_TCP => 3

def ofValue : Nat → LowPanHc1NextHeader
  | 0 => HC1_NC
  | 1 => HC1_UDP
  | 2 => HC1_ICMP
  | _ => HC1_TCP

end LowPanHc1NextHeader

def Ipv6Header.IPV6_TCP : UInt8 := 6

def Ipv6Header.IPV6_ICMPV6 : UInt8 := 58

/-- A prefix and an interface identifier are eight bytes each. -/
structure SixLowPanHc1 where
  m_srcCompression : LowPanHc1Addr
  m_dstCompression : LowPanHc1Addr
  m_tcflCompression : Bool
  m_nextHeaderCompression : LowPanHc1NextHeader
  m_hc2HeaderPresent : Bool
  m_hopLimit : UInt8
  m_srcPrefix : Bytes := []
  m_srcInterface : Bytes := []
  m_dstPrefix : Bytes := []
  m_dstInterface : Bytes := []
  m_trafficClass : UInt8 := 0
  m_flowLabel : Nat := 0
  m_nextHeader : UInt8

namespace SixLowPanHc1

open LowPanHc1Addr LowPanHc1NextHeader

def LOWPAN_HC1 : UInt8 := 0x42

def addrSize : LowPanHc1Addr → Nat
  | HC1_PIII => 16
  | HC1_PIIC => 8
  | HC1_PCII => 8
  | HC1_PCIC => 0

def getSerializedSize (h : SixLowPanHc1) : Nat :=
  3 + addrSize h.m_srcCompression + addrSize h.m_dstCompression + (if h.m_tcflCompression then 0 else 4) +
    (if h.m_nextHeaderCompression = HC1_NC then 1 else 0)

def encoding (h : SixLowPanHc1) : Nat :=
  (((h.m_srcCompression.value <<< 2 ||| h.m_dstCompression.value) <<< 1 ||| h.m_tcflCompression.toNat) <<< 2 |||
    h.m_nextHeaderCompression.value) <<< 1 ||| h.m_hc2HeaderPresent.toNat

def addrBytes (mode : LowPanHc1Addr) (prefixPart interfacePart : Bytes) : Bytes :=
  match mode with
  | HC1_PIII => prefixPart ++ interfacePart
  | HC1_PIIC => prefixPart
  | HC1_PCII => interfacePart
  | HC1_PCIC => []

def tcflBytes (h : SixLowPanHc1) : Bytes := if h.m_tcflCompression then [] else h.m_trafficClass :: leBytes 3 h.m_flowLabel

/-- Compressed transport headers abort. -/
def serialize (h : SixLowPanHc1) : Option Bytes :=
  if h.m_hc2HeaderPresent then none
  else
    some ([LOWPAN_HC1, UInt8.ofNat h.encoding, h.m_hopLimit] ++ addrBytes h.m_srcCompression h.m_srcPrefix h.m_srcInterface ++
      addrBytes h.m_dstCompression h.m_dstPrefix h.m_dstInterface ++ h.tcflBytes ++
        if h.m_nextHeaderCompression = HC1_NC then [h.m_nextHeader] else [])

def readAddr (mode : LowPanHc1Addr) (bytes : Bytes) : Option ((Bytes × Bytes) × Bytes) :=
  match mode with
  | HC1_PIII => (readBytes 8 bytes).bind fun (prefixPart, bytes) =>
      (readBytes 8 bytes).map fun (interfacePart, bytes) => ((prefixPart, interfacePart), bytes)
  | HC1_PIIC => (readBytes 8 bytes).map fun (prefixPart, bytes) => ((prefixPart, []), bytes)
  | HC1_PCII => (readBytes 8 bytes).map fun (interfacePart, bytes) => (([], interfacePart), bytes)
  | HC1_PCIC => some (([], []), bytes)

def readTcfl (tcflCompression : Bool) (bytes : Bytes) : Option ((UInt8 × Nat) × Bytes) :=
  if tcflCompression then some ((0, 0), bytes)
  else
    (readU8 bytes).bind fun (trafficClass, bytes) =>
      (readBytes 3 bytes).map fun (temp, bytes) => ((trafficClass, ofLeBytes temp), bytes)

def readNextHeader (mode : LowPanHc1NextHeader) (bytes : Bytes) : Option UInt8 :=
  match mode with
  | HC1_NC => (readU8 bytes).map Prod.fst
  | HC1_TCP => some IPV6_TCP
  | HC1_UDP => some IPV6_UDP
  | HC1_ICMP => some IPV6_ICMPV6

/-- `Deserialize`, and the size it returns; given up at another dispatch, which leaves the fields
without values. -/
def deserialize (bytes : Bytes) : Option (SixLowPanHc1 × Nat) :=
  (readU8 bytes).bind fun (dispatch, bytes) =>
    if dispatch ≠ LOWPAN_HC1 then none
    else
      (readU8 bytes).bind fun (encoding, bytes) =>
        (readU8 bytes).bind fun (hopLimit, bytes) =>
          let srcCompression := LowPanHc1Addr.ofValue (encoding.toNat >>> 6)
          let dstCompression := LowPanHc1Addr.ofValue ((encoding.toNat >>> 4) &&& 0x3)
          let tcflCompression := (encoding.toNat >>> 3) &&& 0x1 ≠ 0
          let nextHeaderCompression := LowPanHc1NextHeader.ofValue ((encoding.toNat >>> 1) &&& 0x3)
          let hc2HeaderPresent := encoding.toNat &&& 0x1 ≠ 0
          (readAddr srcCompression bytes).bind fun (src, bytes) =>
            (readAddr dstCompression bytes).bind fun (dst, bytes) =>
              (readTcfl tcflCompression bytes).bind fun (tcfl, bytes) =>
                (readNextHeader nextHeaderCompression bytes).bind fun nextHeader =>
                  if hc2HeaderPresent then none
                  else
                    let h : SixLowPanHc1 :=
                      ⟨srcCompression, dstCompression, tcflCompression, nextHeaderCompression, hc2HeaderPresent, hopLimit, src.1, src.2,
                        dst.1, dst.2, tcfl.1, tcfl.2, nextHeader⟩
                    some (h, h.getSerializedSize)

def nextHeaderMode (nextHeader : UInt8) : LowPanHc1NextHeader :=
  if nextHeader = IPV6_UDP then HC1_UDP
  else if nextHeader = IPV6_TCP then HC1_TCP
  else if nextHeader = IPV6_ICMPV6 then HC1_ICMP
  else HC1_NC

/-! ## Compression -/

/-- How an address goes, given the one made from the link-layer address. -/
def addrMode (addr : Ipv6Address) (mac : MacAddress) : LowPanHc1Addr :=
  let isSame := addr.bytes.drop 8 = (Ipv6Address.makeAutoconfiguredLinkLocalAddress mac).bytes.drop 8
  if addr.isLinkLocal ∧ isSame then HC1_PCIC
  else if addr.isLinkLocal then HC1_PCII
  else if isSame then HC1_PIIC
  else HC1_PIII

def ofIpv6Header (ipHeader : Ipv6Header) (src dst : MacAddress) : SixLowPanHc1 where
  m_srcCompression := addrMode ipHeader.source src
  m_dstCompression := addrMode ipHeader.destination dst
  m_tcflCompression := ipHeader.flowLabel = 0 ∧ ipHeader.trafficClass = 0
  m_nextHeaderCompression := nextHeaderMode ipHeader.nextHeader
  m_hc2HeaderPresent := false
  m_hopLimit := ipHeader.hopLimit
  m_srcPrefix := ipHeader.source.bytes.take 8
  m_srcInterface := ipHeader.source.bytes.drop 8
  m_dstPrefix := ipHeader.destination.bytes.take 8
  m_dstInterface := ipHeader.destination.bytes.drop 8
  m_trafficClass := ipHeader.trafficClass
  m_flowLabel := ipHeader.flowLabel.toNat
  m_nextHeader := ipHeader.nextHeader

/-- An address that is made again; the bytes of `stack` are in the array before. Making an address
from a prefix aborts when it comes to `::`. -/
def toAddress (stack : Bytes) (mode : LowPanHc1Addr) (prefixPart interfacePart : Bytes) (mac : MacAddress) : Option Ipv6Address :=
  match mode with
  | HC1_PIII => some (.ofBytes (prefixPart ++ interfacePart))
  | HC1_PIIC =>
    let addr : Ipv6Address := .ofBytes (prefixPart ++ mac.interfaceId)
    if addr = .getAny then none else some addr
  | HC1_PCII => some (.ofBytes ([0xfe, 0x80] ++ stack.take 6 ++ interfacePart))
  | HC1_PCIC => some (.makeAutoconfiguredLinkLocalAddress mac)

def toIpv6Header (stack : Bytes) (encoding : SixLowPanHc1) (payloadLength : UInt16) (src dst : MacAddress) : Option Ipv6Header :=
  (toAddress stack encoding.m_srcCompression encoding.m_srcPrefix encoding.m_srcInterface src).bind fun source =>
    (toAddress stack encoding.m_dstCompression encoding.m_dstPrefix encoding.m_dstInterface dst).map fun destination =>
      { trafficClass := if encoding.m_tcflCompression then 0 else encoding.m_trafficClass
        flowLabel := if encoding.m_tcflCompression then 0 else BitVec.ofNat 20 encoding.m_flowLabel
        payloadLength := payloadLength
        nextHeader := encoding.m_nextHeader
        hopLimit := encoding.m_hopLimit
        source := source
        destination := destination }

def compressLowPanHc1 (src dst : MacAddress) (packet : Bytes) : Option (Bytes × Nat) :=
  (initial.deserialize packet).bind fun (ipHeader, size) =>
    if size = 0 then some (packet, 0)
    else (ofIpv6Header ipHeader src dst).serialize.map fun hc1Header => (hc1Header ++ packet.drop size, size)

def decompressLowPanHc1 (stack : Bytes) (src dst : MacAddress) (packet : Bytes) : Option Bytes :=
  (deserialize packet).bind fun (encoding, size) =>
    let packet := packet.drop size
    (toIpv6Header stack encoding (UInt16.ofNat packet.length) src dst).map fun ipHeader => ipHeader.serialize ++ packet

end SixLowPanHc1

end Ns3
