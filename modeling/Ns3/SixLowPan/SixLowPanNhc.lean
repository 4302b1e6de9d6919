import Ns3.Internet.Ipv6Header
import Ns3.Internet.TcpHeader

/-!
# `SixLowPanNhcExtension` and `SixLowPanUdpNhcExtension`

The compressed extension headers and UDP headers with their bytes, and
`UdpHeader` itself.
-/

namespace Ns3

open List

/-! ## Extension headers -/

/-- `m_nhcExtensionHeader` is the dispatch 1110, the kind and whether a compressed header follows. -/
structure SixLowPanNhcExtension where
  m_nhcExtensionHeader : UInt8
  m_nhcNextHeader : UInt8 := 0
  m_nhcBlob : Bytes := []

namespace SixLowPanNhcExtension

def EID_HOPBYHOP_OPTIONS_H : Nat := 0
def EID_ROUTING_H : Nat := 1
def EID_FRAGMENTATION_H : Nat := 2
def EID_DESTINATION_OPTIONS_H : Nat := 3
def EID_IPv6_H : Nat := 7

def extensionHeader (eid : Nat) (nh : Bool) : UInt8 := UInt8.ofNat (0xE0 ||| (eid <<< 1) ||| nh.toNat)

def getEid (h : SixLowPanNhcExtension) : Nat := (h.m_nhcExtensionHeader.toNat >>> 1) &&& 0x7

def getNh (h : SixLowPanNhcExtension) : Bool := h.m_nhcExtensionHeader.toNat &&& 0x01 ≠ 0

def getSerializedSize (h : SixLowPanNhcExtension) : Nat := 2 + (if !h.getNh then 1 else 0) + h.m_nhcBlob.length

def serialize (h : SixLowPanNhcExtension) : Bytes :=
  [h.m_nhcExtensionHeader] ++ (if !h.getNh then [h.m_nhcNextHeader] else []) ++ [UInt8.ofNat h.m_nhcBlob.length] ++ h.m_nhcBlob

def deserialize (bytes : Bytes) : Option (SixLowPanNhcExtension × Nat) :=
  (readU8 bytes).bind fun (m_nhcExtensionHeader, i) =>
    let nh := getNh { m_nhcExtensionHeader := m_nhcExtensionHeader }
    (if !nh then readU8 i else some (0, i)).bind fun (m_nhcNextHeader, i) =>
      (readU8 i).bind fun (m_nhcBlobLength, i) =>
        (readBytes m_nhcBlobLength.toNat i).map fun (m_nhcBlob, _) =>
          let h : SixLowPanNhcExtension := ⟨m_nhcExtensionHeader, m_nhcNextHeader, m_nhcBlob⟩
          (h, h.getSerializedSize)

theorem deserialize_serialize (h : SixLowPanNhcExtension) (hnext : h.getNh = true → h.m_nhcNextHeader = 0)
    (hblob : h.m_nhcBlob.length < 256) (rest : Bytes) :
    deserialize (h.serialize ++ rest) = some (h, h.getSerializedSize) := by
  have hlength : (UInt8.ofNat h.m_nhcBlob.length).toNat = h.m_nhcBlob.length := by
    rw [UInt8.toNat_ofNat']
    omega
  have hnh : getNh { m_nhcExtensionHeader := h.m_nhcExtensionHeader } = h.getNh := rfl
  simp only [deserialize, serialize, append_assoc, cons_append, nil_append, readU8_cons, Option.bind_some, hnh]
  cases hgetNh : h.getNh with
  | true =>
    simp only [Bool.not_true, Bool.false_eq_true, if_false, nil_append, Option.bind_some, readU8_cons, hlength, readBytes_append,
      Option.map_some, ← hnext hgetNh]
  | false =>
    simp only [Bool.not_false, if_true, cons_append, nil_append, Option.bind_some, readU8_cons, hlength, readBytes_append,
      Option.map_some]

theorem length_serialize (h : SixLowPanNhcExtension) : h.serialize.length = h.getSerializedSize := by
  rw [serialize, getSerializedSize]
  cases h.getNh with
  | true => simp only [Bool.not_true, Bool.false_eq_true, if_false, length_append, length_cons, length_nil]
  | false => simp only [Bool.not_false, if_true, length_append, length_cons, length_nil]

end SixLowPanNhcExtension

/-! ## UDP headers -/

/-- The checksum is the number read with the low byte first. -/
structure UdpHeader where
  sourcePort : UInt16 := 0xfffd
  destinationPort : UInt16 := 0xfffd
  payloadSize : UInt16 := 0
  checksum : UInt16 := 0
  /-- The pseudo header, where checksums are calculated. -/
  calcChecksum : Option TcpPseudoHeader := none
  deriving DecidableEq

namespace UdpHeader

def getSerializedSize (_ : UdpHeader) : Nat := 8

/-- `CalculateHeaderChecksum` is that of `TcpHeader` on IPv6. -/
def calculateHeaderChecksum (p : TcpPseudoHeader) (size : Nat) : Nat := TcpHeader.calculateHeaderChecksum p size

def serializeWith (h : UdpHeader) (payload : Bytes) (checksum : Nat) : Bytes :=
  writeHton 2 h.sourcePort.toNat ++ writeHton 2 h.destinationPort.toNat ++
    writeHton 2 (if h.payloadSize = 0 then 8 + payload.length else h.payloadSize.toNat) ++ leBytes 2 checksum

def serialize (h : UdpHeader) (payload : Bytes) : Bytes :=
  if h.checksum = 0 then
    match h.calcChecksum with
    | none => h.serializeWith payload 0
    | some p =>
      let size := uint16 (8 + payload.length)
      h.serializeWith payload
        (TcpHeader.calculateIpChecksum (h.serializeWith payload 0 ++ payload) size (calculateHeaderChecksum p size))
  else h.serializeWith payload h.checksum.toNat

/-- `Deserialize` into a header that does not calculate checksums. -/
def deserialize (bytes : Bytes) : Option (UdpHeader × Nat) :=
  (readNtoh 2 bytes).bind fun (sourcePort, i) =>
    (readNtoh 2 i).bind fun (destinationPort, i) =>
      (readNtoh 2 i).bind fun (length, i) =>
        (readBytes 2 i).map fun (checksum, _) =>
          let h : UdpHeader :=
            { sourcePort := UInt16.ofNat sourcePort
              destinationPort := UInt16.ofNat destinationPort
              payloadSize := UInt16.ofNat length - 8
              checksum := UInt16.ofNat (ofLeBytes checksum) }
          (h, h.getSerializedSize)

end UdpHeader

inductive Ports where
  | PORTS_INLINE
  | PORTS_ALL_SRC_LAST_DST
  | PORTS_LAST_SRC_ALL_DST
  | PORTS_LAST_SRC_LAST_DST
  deriving DecidableEq

namespace Ports

def value : Ports → Nat
  | PORTS_INLINE => 0
  | PORTS_ALL_SRC_LAST_DST => 1
  | PORTS_LAST_SRC_ALL_DST => 2
  | PORTS_LAST_SRC_LAST_DST => 3

def ofValue : Nat → Ports
  | 0 => PORTS_INLINE
  | 1 => PORTS_ALL_SRC_LAST_DST
  | 2 => PORTS_LAST_SRC_ALL_DST
  | _ => PORTS_LAST_SRC_LAST_DST

end Ports

/-- `m_baseFormat` is the dispatch 11110, whether the checksum is left out, and the form of the ports. -/
structure SixLowPanUdpNhcExtension where
  m_baseFormat : UInt8
  m_checksum : UInt16 := 0
  m_srcPort : UInt16 := 0
  m_dstPort : UInt16 := 0

namespace SixLowPanUdpNhcExtension

open Ports

def baseFormat (c : Bool) (ports : Ports) : UInt8 := UInt8.ofNat (0xF0 ||| (c.toNat <<< 2) ||| ports.value)

def getC (h : SixLowPanUdpNhcExtension) : Bool := (h.m_baseFormat.toNat >>> 2) &&& 0x1 ≠ 0

def getPorts (h : SixLowPanUdpNhcExtension) : Ports := .ofValue (h.m_baseFormat.toNat &&& 0x3)

def portsSize : Ports → Nat
  | PORTS_INLINE => 4
  | PORTS_ALL_SRC_LAST_DST => 3
  | PORTS_LAST_SRC_ALL_DST => 3
  | PORTS_LAST_SRC_LAST_DST => 1

def getSerializedSize (h : SixLowPanUdpNhcExtension) : Nat := 1 + (if !h.getC then 2 else 0) + portsSize h.getPorts

def portsBytes (h : SixLowPanUdpNhcExtension) : Bytes :=
  match h.getPorts with
  | PORTS_INLINE => writeHton 2 h.m_srcPort.toNat ++ writeHton 2 h.m_dstPort.toNat
  | PORTS_ALL_SRC_LAST_DST => writeHton 2 h.m_srcPort.toNat ++ [UInt8.ofNat (h.m_dstPort.toNat &&& 0xff)]
  | PORTS_LAST_SRC_ALL_DST => [UInt8.ofNat (h.m_srcPort.toNat &&& 0xff)] ++ writeHton 2 h.m_dstPort.toNat
  | PORTS_LAST_SRC_LAST_DST => [UInt8.ofNat (((h.m_srcPort.toNat &&& 0xf) <<< 4) ||| (h.m_dstPort.toNat &&& 0xf))]

def serialize (h : SixLowPanUdpNhcExtension) : Bytes :=
  [h.m_baseFormat] ++ h.portsBytes ++ if !h.getC then leBytes 2 h.m_checksum.toNat else []

def readPorts (ports : Ports) (bytes : Bytes) : Option ((UInt16 × UInt16) × Bytes) :=
  match ports with
  | PORTS_INLINE => (readNtoh 2 bytes).bind fun (src, i) => (readNtoh 2 i).map fun (dst, i) => ((UInt16.ofNat src, UInt16.ofNat dst), i)
  | PORTS_ALL_SRC_LAST_DST =>
    (readNtoh 2 bytes).bind fun (src, i) => (readU8 i).map fun (dst, i) => ((UInt16.ofNat src, UInt16.ofNat dst.toNat), i)
  | PORTS_LAST_SRC_ALL_DST =>
    (readU8 bytes).bind fun (src, i) => (readNtoh 2 i).map fun (dst, i) => ((UInt16.ofNat src.toNat, UInt16.ofNat dst), i)
  | PORTS_LAST_SRC_LAST_DST =>
    (readU8 bytes).map fun (temp, i) => ((UInt16.ofNat (temp.toNat >>> 4), UInt16.ofNat (temp.toNat &&& 0xf)), i)

def deserialize (bytes : Bytes) : Option (SixLowPanUdpNhcExtension × Nat) :=
  (readU8 bytes).bind fun (m_baseFormat, i) =>
    let read : SixLowPanUdpNhcExtension := { m_baseFormat := m_baseFormat }
    (readPorts read.getPorts i).bind fun ((m_srcPort, m_dstPort), i) =>
      (if !read.getC then (readBytes 2 i).map fun (checksum, _) => UInt16.ofNat (ofLeBytes checksum) else some 0).map fun m_checksum =>
        let h : SixLowPanUdpNhcExtension := ⟨m_baseFormat, m_checksum, m_srcPort, m_dstPort⟩
        (h, h.getSerializedSize)

end SixLowPanUdpNhcExtension

end Ns3
