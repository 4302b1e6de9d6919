import Ns3.Internet.Ipv6Autoconf
import Ns3.Internet.Ipv6ExtensionHeader
import Ns3.Lib.OrdMap
import Ns3.SixLowPan.SixLowPanIphc
import Ns3.SixLowPan.SixLowPanNhc

/-!
# IPHC and NHC compression

`CompressLowPanIphc`, `CompressLowPanNhc`, `CompressLowPanUdpNhc` and what
undoes them, on the bytes of a packet. The headers that are nested call each
other; they are given up after a number of rounds, and where the code aborts or
reads past the end of the packet.
-/

namespace Ns3

open SixLowPanNhcExtension Ipv6Header

structure ContextEntry where
  contextPrefix : Ipv6Prefix
  compressionAllowed : Bool
  validLifetime : Int
  deriving DecidableEq

structure SixLowPanNetDevice where
  m_contextTable : OrdMap (Fin 16) ContextEntry
  now : Int
  m_omitUdpChecksum : Bool
  checksumEnabled : Bool

namespace SixLowPanNetDevice

open TrafficClassFlowLabel Hlim HeaderCompression Ports SixLowPanIphc

/-! ## Contexts -/

def findUnicastCompressionContext (d : SixLowPanNetDevice) (address : Ipv6Address) : Option (Fin 16 × ContextEntry) :=
  d.m_contextTable.entries.find? fun (_, context) =>
    context.compressionAllowed ∧ d.now < context.validLifetime ∧ address.hasPrefix context.contextPrefix

/-- The only form is `ffXX:XXLL:PPPP:PPPP:PPPP:PPPP:XXXX:XXXX`. -/
def findMulticastCompressionContext (d : SixLowPanNetDevice) (address : Ipv6Address) : Option (Fin 16 × ContextEntry) :=
  d.m_contextTable.entries.find? fun (_, context) =>
    context.compressionAllowed ∧ d.now < context.validLifetime ∧ context.contextPrefix.prefixLength ≤ 64 ∧
      address.bytes.getD 3 0 = context.contextPrefix.prefixLength ∧
        (address.bytes.drop 4).take 8 = context.contextPrefix.address.bytes.take 8

def cleanPrefix (address : Ipv6Address) (p : Ipv6Prefix) : Ipv6Address :=
  let bytesToClean := p.prefixLength.toNat / 8
  let bitsToClean := p.prefixLength.toNat % 8
  let cleaned := List.replicate bytesToClean 0 ++ address.bytes.drop bytesToClean
  .ofBytes (if bitsToClean ≠ 0 then cleaned.modify bytesToClean (· &&& UInt8.ofNat ((1 <<< bitsToClean) - 1)) else cleaned)

def overridePrefix (p : Ipv6Prefix) (address : Bytes) : Bytes :=
  let bytesToCopy := p.prefixLength.toNat / 8
  let bitsToCopy := p.prefixLength.toNat % 8
  let copied := p.address.bytes.take bytesToCopy ++ address.drop bytesToCopy
  if bitsToCopy ≠ 0 then
    let addressBitMask := UInt8.ofNat ((1 <<< (8 - bitsToCopy)) - 1)
    copied.modify bytesToCopy fun byte => (p.address.bytes.getD bytesToCopy 0 &&& ~~~addressBitMask) ||| (byte &&& addressBitMask)
  else copied

/-! ## Compressing addresses -/

/-- The first 14 bytes of `fe80::ff:fe00:1`. -/
def unicastAddrChecker : Bytes := [0xfe, 0x80, 0, 0, 0, 0, 0, 0, 0, 0, 0, 0xff, 0xfe, 0]

/-- The first 15 bytes of `ff02::1`. -/
def multicastAddrChecker : Bytes := [0xff, 0x02, 0, 0, 0, 0, 0, 0, 0, 0, 0, 0, 0, 0, 0]

def compressStateful (addr : Ipv6Address) (mac : MacAddress) (context : ContextEntry) : HeaderCompression × Bytes :=
  if Ipv6Address.makeAutoconfiguredAddress mac context.contextPrefix = addr then (HC_COMPR_0, [])
  else
    let cleaned := (cleanPrefix addr context.contextPrefix).bytes
    if (cleaned.drop 8).take 6 = [0, 0, 0, 0xff, 0xfe, 0] then (HC_COMPR_16, cleaned.drop 14) else (HC_COMPR_64, cleaned.drop 8)

def compressStateless (addr : Ipv6Address) (mac : MacAddress) : HeaderCompression × Bytes :=
  if addr = .makeAutoconfiguredLinkLocalAddress mac then (HC_COMPR_0, [])
  else if addr.bytes.take 14 = unicastAddrChecker then (HC_COMPR_16, addr.bytes.drop 14)
  else if addr.isLinkLocal then (HC_COMPR_64, addr.bytes.drop 8)
  else (HC_INLINE, addr.bytes)

def compressMulticast (addr : Ipv6Address) : HeaderCompression × Bytes :=
  if addr.bytes.take 15 = multicastAddrChecker then (HC_COMPR_0, addr.bytes.drop 15)
  else if addr.bytes.head? = some 0xff ∧ (addr.bytes.drop 2).take 11 = List.replicate 11 0 then
    (HC_COMPR_16, (addr.bytes.drop 1).take 1 ++ addr.bytes.drop 13)
  else if addr.bytes.head? = some 0xff ∧ (addr.bytes.drop 2).take 9 = List.replicate 9 0 then
    (HC_COMPR_64, (addr.bytes.drop 1).take 1 ++ addr.bytes.drop 11)
  else (HC_INLINE, addr.bytes)

/-- The source address; the unspecified one goes as a stateful mode. -/
def setSource (d : SixLowPanNetDevice) (h : SixLowPanIphc) (srcAddr : Ipv6Address) (src : MacAddress) : SixLowPanIphc :=
  if srcAddr = .getAny then { h with modes := { h.modes with sam := HC_INLINE, sac := true } }
  else
    match d.findUnicastCompressionContext srcAddr with
    | some (contextId, context) =>
      let (sam, part) := compressStateful srcAddr src context
      { h with
        modes := { h.modes with sac := true, sam := sam, cid := h.modes.cid || contextId ≠ 0 }
        m_srcdstContextId := h.m_srcdstContextId ||| UInt8.ofNat (contextId.val <<< 4)
        m_srcInlinePart := part }
    | none =>
      let (sam, part) := compressStateless srcAddr src
      { h with modes := { h.modes with sam := sam }, m_srcInlinePart := part }

def setDestination (d : SixLowPanNetDevice) (h : SixLowPanIphc) (dstAddr : Ipv6Address) (dst : MacAddress) : SixLowPanIphc :=
  if !dstAddr.isMulticast then
    match d.findUnicastCompressionContext dstAddr with
    | some (contextId, context) =>
      let (dam, part) := compressStateful dstAddr dst context
      { h with
        modes := { h.modes with dac := true, dam := dam, cid := h.modes.cid || contextId ≠ 0 }
        m_srcdstContextId := h.m_srcdstContextId ||| UInt8.ofNat (contextId.val &&& 0xf)
        m_dstInlinePart := part }
    | none =>
      let (dam, part) := compressStateless dstAddr dst
      { h with modes := { h.modes with dam := dam }, m_dstInlinePart := part }
  else
    match d.findMulticastCompressionContext dstAddr with
    | some (contextId, _) =>
      { h with
        modes := { h.modes with m := true, dac := true, dam := HC_INLINE, cid := h.modes.cid || contextId ≠ 0 }
        m_srcdstContextId := h.m_srcdstContextId ||| UInt8.ofNat (contextId.val &&& 0xf)
        m_dstInlinePart := (dstAddr.bytes.drop 1).take 2 ++ dstAddr.bytes.drop 12 }
    | none =>
      let (dam, part) := compressMulticast dstAddr
      { h with modes := { h.modes with m := true, dam := dam }, m_dstInlinePart := part }

def setTf (h : SixLowPanIphc) (flowLabel : BitVec 20) (trafficClass : UInt8) : SixLowPanIphc :=
  let ecn := BitVec.ofNat 2 ((trafficClass.toNat &&& 0xc0) >>> 6)
  let dscp := BitVec.ofNat 6 (trafficClass.toNat &&& 0x3f)
  if flowLabel = 0 ∧ trafficClass = 0 then { h with modes := { h.modes with tf := TF_ELIDED } }
  else if flowLabel ≠ 0 ∧ trafficClass ≠ 0 then
    { h with modes := { h.modes with tf := TF_FULL }, m_ecn := ecn, m_dscp := dscp, m_flowLabel := flowLabel }
  else if flowLabel = 0 ∧ trafficClass ≠ 0 then
    { h with modes := { h.modes with tf := TF_FL_ELIDED }, m_ecn := ecn, m_dscp := dscp }
  else { h with modes := { h.modes with tf := TF_DSCP_ELIDED }, m_ecn := ecn, m_flowLabel := flowLabel }

def setHlim (h : SixLowPanIphc) (hopLimit : UInt8) : SixLowPanIphc :=
  if hopLimit = 1 then { h with modes := { h.modes with hlim := HLIM_COMPR_1 } }
  else if hopLimit = 0x40 then { h with modes := { h.modes with hlim := HLIM_COMPR_64 } }
  else if hopLimit = 0xff then { h with modes := { h.modes with hlim := HLIM_COMPR_255 } }
  else { h with modes := { h.modes with hlim := HLIM_INLINE }, m_hopLimit := hopLimit }

/-- No address can be `::` that is made from a link-layer address. -/
def autoconfigurationAborts (d : SixLowPanNetDevice) (addr : Ipv6Address) (mac : MacAddress) : Bool :=
  match d.findUnicastCompressionContext addr with
  | some (_, context) => Ipv6Address.makeAutoconfiguredAddress mac context.contextPrefix = .getAny
  | none => false

/-- Does `MakeAutoconfiguredAddress` abort for an address of a header? -/
def addressesAbort (d : SixLowPanNetDevice) (ipHeader : Ipv6Header) (src dst : MacAddress) : Bool :=
  ipHeader.source ≠ .getAny && d.autoconfigurationAborts ipHeader.source src ||
    !ipHeader.destination.isMulticast && d.autoconfigurationAborts ipHeader.destination dst

/-- The compressed header of one that was read; `nh` tells whether the header behind is compressed. -/
def iphcHeader (d : SixLowPanNetDevice) (ipHeader : Ipv6Header) (nh : Bool) (src dst : MacAddress) : SixLowPanIphc :=
  let h : SixLowPanIphc := setTf {} ipHeader.flowLabel ipHeader.trafficClass
  let h := { h with modes := { h.modes with nh := nh }, m_nextHeader := if nh then 0 else ipHeader.nextHeader }
  let h := setHlim h ipHeader.hopLimit
  let h := d.setSource h ipHeader.source src
  d.setDestination h ipHeader.destination dst

/-! ## Compressing headers -/

def canCompressLowPanNhc (nextHeader : UInt8) : Bool :=
  nextHeader = IPV6_UDP || nextHeader = IPV6_EXT_HOP_BY_HOP || nextHeader = IPV6_EXT_ROUTING ||
    nextHeader = IPV6_EXT_FRAGMENTATION || nextHeader = IPV6_IPV6

def udpPorts (srcPort dstPort : Nat) : Ports :=
  if srcPort >>> 4 = 0xf0b ∧ dstPort >>> 4 = 0xf0b then PORTS_LAST_SRC_LAST_DST
  else if srcPort >>> 8 = 0xf0 ∧ dstPort >>> 8 ≠ 0xf0 then PORTS_LAST_SRC_ALL_DST
  else if srcPort >>> 8 ≠ 0xf0 ∧ dstPort >>> 8 = 0xf0 then PORTS_ALL_SRC_LAST_DST
  else PORTS_INLINE

def compressLowPanUdpNhc (packet : Bytes) (omitChecksum : Bool) : Option (Bytes × Nat) :=
  (UdpHeader.deserialize packet).map fun (udpHeader, size) =>
    let ports := udpPorts udpHeader.sourcePort.toNat udpHeader.destinationPort.toNat
    -- a header that does not calculate checksums has a good one
    let udpNhcHeader : SixLowPanUdpNhcExtension :=
      ⟨SixLowPanUdpNhcExtension.baseFormat omitChecksum ports, udpHeader.checksum, udpHeader.sourcePort, udpHeader.destinationPort⟩
    (udpNhcHeader.serialize ++ packet.drop size, size)

/-- The header behind: the packet, whether it was compressed, and its size. -/
def compressNextHeader (d : SixLowPanNetDevice) (compressIphc : Bytes → Option (Bytes × Nat))
    (compressNhc : Bytes → UInt8 → Option (Bytes × Nat)) (packet : Bytes) (nextHeader : UInt8) : Option (Bytes × Bool × Nat) :=
  if canCompressLowPanNhc nextHeader then
    if nextHeader = IPV6_UDP then
      (compressLowPanUdpNhc packet d.m_omitUdpChecksum).map fun (packet, size) => (packet, true, size)
    else if nextHeader = IPV6_IPV6 then (compressIphc packet).map fun (packet, size) => (packet, true, size)
    -- the compression might fail due to the size of the extension header
    else (compressNhc packet nextHeader).map fun (packet, sizeNhc) => (packet, sizeNhc ≠ 0, sizeNhc)
  else some (packet, false, 0)

/-- An extension header of one of the kinds, with what compresses the header behind it. -/
def compressExtension (c : ExtensionClass) (eid : Nat) (compressNext : Bytes → UInt8 → Option (Bytes × Bool × Nat)) (packet : Bytes) :
    Option (Bytes × Nat) :=
  (c.deserialize packet).bind fun (header, size) =>
    if 0xff ≤ c.getLength header then some (packet, 0)
    else
      let nextHeader := c.getNextHeader header
      (compressNext (packet.drop size) nextHeader).bind fun (packet, nh, sizeNext) =>
        let blob := (c.serialize header).drop 2
        if blob.length < 255 then
          let nhcHeader : SixLowPanNhcExtension :=
            ⟨extensionHeader eid nh, if nh then 0 else nextHeader, blob⟩
          some (nhcHeader.serialize ++ packet, size + sizeNext)
        else none

mutual

def compressLowPanIphc (d : SixLowPanNetDevice) (src dst : MacAddress) : Nat → Bytes → Option (Bytes × Nat)
  | 0, _ => none
  | rounds + 1, packet =>
    (initial.deserialize packet).bind fun (ipHeader, size) =>
      if size = 0 then some (packet, 0)
      else
        (compressNextHeader d (d.compressLowPanIphc src dst rounds) (d.compressLowPanNhc src dst rounds) (packet.drop size)
          ipHeader.nextHeader).bind fun (packet, nh, sizeNext) =>
            if d.addressesAbort ipHeader src dst then none
            else ((d.iphcHeader ipHeader nh src dst).addTo packet).map fun packet => (packet, size + sizeNext)

def compressLowPanNhc (d : SixLowPanNetDevice) (src dst : MacAddress) : Nat → Bytes → UInt8 → Option (Bytes × Nat)
  | 0, _, _ => none
  | rounds + 1, packet, headerType =>
    let compressNext := compressNextHeader d (d.compressLowPanIphc src dst rounds) (d.compressLowPanNhc src dst rounds)
    if headerType = IPV6_EXT_HOP_BY_HOP then
      compressExtension Ipv6ExtensionHopByHopHeader EID_HOPBYHOP_OPTIONS_H compressNext packet
    else if headerType = IPV6_EXT_ROUTING then
      compressExtension Ipv6ExtensionRoutingHeader EID_ROUTING_H compressNext packet
    else if headerType = IPV6_EXT_FRAGMENTATION then
      compressExtension fragmentHeaderClass EID_FRAGMENTATION_H compressNext packet
    else if headerType = IPV6_EXT_DESTINATION then
      compressExtension Ipv6ExtensionDestinationHeader EID_DESTINATION_OPTIONS_H compressNext packet
    else none

end

/-! ## Decompressing addresses -/

/-- The context that a header names, unless the packet is dropped. -/
def contextOf (d : SixLowPanNetDevice) (contextId : Fin 16) : Option ContextEntry :=
  match d.m_contextTable.find contextId with
  | some context => if context.validLifetime < d.now then none else some context
  | none => none

def decompressStateful (sam : HeaderCompression) (part : Bytes) (mac : MacAddress) (context : ContextEntry) : Ipv6Address :=
  let address :=
    match sam with
    | HC_COMPR_64 => List.replicate 8 0 ++ inlineBytes 8 part
    | HC_COMPR_16 => List.replicate 11 0 ++ [0xff, 0xfe, 0] ++ inlineBytes 2 part
    | _ => (Ipv6Address.makeAutoconfiguredLinkLocalAddress mac).bytes
  .ofBytes (overridePrefix context.contextPrefix address)

def decompressStateless (sam : HeaderCompression) (part : Bytes) (mac : MacAddress) : Ipv6Address :=
  match sam with
  | HC_INLINE => .ofBytes (inlineBytes 16 part)
  | HC_COMPR_64 => .ofBytes (Ipv6Address.linkLocalPrefix ++ inlineBytes 8 part)
  | HC_COMPR_16 => .ofBytes (unicastAddrChecker ++ inlineBytes 2 part)
  | HC_COMPR_0 => .makeAutoconfiguredLinkLocalAddress mac

def decompressMulticast (dam : HeaderCompression) (part : Bytes) : Ipv6Address :=
  match dam with
  | HC_INLINE => .ofBytes (inlineBytes 16 part)
  | HC_COMPR_64 => .ofBytes ([0xff] ++ inlineBytes 1 part ++ List.replicate 9 0 ++ (inlineBytes 6 part).drop 1)
  | HC_COMPR_16 => .ofBytes ([0xff] ++ inlineBytes 1 part ++ List.replicate 11 0 ++ (inlineBytes 4 part).drop 1)
  | HC_COMPR_0 => .ofBytes (multicastAddrChecker ++ inlineBytes 1 part)

/-- The source address, unless the packet is dropped. -/
def getSource (d : SixLowPanNetDevice) (h : SixLowPanIphc) (src : MacAddress) : Option Ipv6Address :=
  if h.modes.sac then
    if h.modes.sam = HC_INLINE then some .getAny
    else (d.contextOf h.getSrcContextId).map fun context => decompressStateful h.modes.sam h.m_srcInlinePart src context
  else some (decompressStateless h.modes.sam h.m_srcInlinePart src)

/-- The destination address, unless the packet is dropped; reserved codes abort. -/
def getDestination (d : SixLowPanNetDevice) (h : SixLowPanIphc) (dst : MacAddress) : Option (Option Ipv6Address) :=
  if h.modes.dac then
    if (h.modes.dam = HC_INLINE) ≠ (h.modes.m = true) then none
    else
      some <| (d.contextOf h.getDstContextId).map fun context =>
        if !h.modes.m then decompressStateful h.modes.dam h.m_dstInlinePart dst context
        else
          .ofBytes ([0xff] ++ inlineBytes 2 h.m_dstInlinePart ++ [context.contextPrefix.prefixLength] ++
            context.contextPrefix.address.bytes.take 8 ++ (inlineBytes 6 h.m_dstInlinePart).drop 2)
  else if !h.modes.m then some (some (decompressStateless h.modes.dam h.m_dstInlinePart dst))
  else some (some (decompressMulticast h.modes.dam h.m_dstInlinePart))

def getTf (h : SixLowPanIphc) : UInt8 × BitVec 20 :=
  match h.modes.tf with
  | TF_FULL => (UInt8.ofNat ((h.m_ecn.toNat <<< 6) ||| h.m_dscp.toNat), h.m_flowLabel &&& 0xfff)
  | TF_DSCP_ELIDED => (UInt8.ofNat (h.m_ecn.toNat <<< 2), h.m_flowLabel)
  | TF_FL_ELIDED => (UInt8.ofNat ((h.m_ecn.toNat <<< 6) ||| h.m_dscp.toNat), 0)
  | TF_ELIDED => (0, 0)

/-! ## Decompressing headers -/

inductive NhcDispatch where
  | LOWPAN_NHC
  | LOWPAN_UDPNHC
  | LOWPAN_NHCUNSUPPORTED
  deriving DecidableEq

def getNhcDispatchType (dispatch : UInt8) : NhcDispatch :=
  if 0xE0 ≤ dispatch ∧ dispatch ≤ 0xEF then .LOWPAN_NHC
  else if 0xF0 ≤ dispatch ∧ dispatch ≤ 0xF7 then .LOWPAN_UDPNHC
  else .LOWPAN_NHCUNSUPPORTED

def decompressLowPanUdpNhc (d : SixLowPanNetDevice) (packet : Bytes) (saddr daddr : Ipv6Address) : Option Bytes :=
  (SixLowPanUdpNhcExtension.deserialize packet).map fun (encoding, size) =>
    let packet := packet.drop size
    let (sourcePort, destinationPort) :=
      match encoding.getPorts with
      | PORTS_INLINE => (encoding.m_srcPort, encoding.m_dstPort)
      | PORTS_ALL_SRC_LAST_DST => (encoding.m_srcPort, 0xf0 ||| (0xf000 ||| encoding.m_dstPort))
      | PORTS_LAST_SRC_ALL_DST => (0xf0 ||| (0xf000 ||| encoding.m_srcPort), encoding.m_dstPort)
      | PORTS_LAST_SRC_LAST_DST => (0xf0b ||| (0xf0b0 ||| encoding.m_srcPort), 0xf0b ||| (0xf0b0 ||| encoding.m_dstPort))
    let udpHeader : UdpHeader := { sourcePort := sourcePort, destinationPort := destinationPort }
    let udpHeader :=
      if d.checksumEnabled then
        if encoding.getC then { udpHeader with calcChecksum := some ⟨saddr.bytes, daddr.bytes, false, IPV6_UDP⟩ }
        else { udpHeader with checksum := encoding.m_checksum }
      else udpHeader
    udpHeader.serialize packet ++ packet

/-- The header behind, with what decompresses an extension header: the packet, the kind of the
header and whether the packet is dropped. -/
def decompressNextHeader (d : SixLowPanNetDevice) (decompressNhc : Bytes → Option (Bytes × UInt8 × Bool)) (packet : Bytes)
    (srcAddress dstAddress : Ipv6Address) : Option (Bytes × UInt8 × Bool) :=
  if getNhcDispatchType (packet.headD 0) = .LOWPAN_UDPNHC then
    (d.decompressLowPanUdpNhc packet srcAddress dstAddress).map fun packet => (packet, IPV6_UDP, false)
  else decompressNhc packet

/-- An extension header of one of the kinds; `length` is the second byte for a size. That the
packet behind is dropped is not looked at. -/
def decompressExtension (c : ExtensionClass) (padding : Nat → Bytes) (length : Nat → UInt8) (encoding : SixLowPanNhcExtension)
    (decompressNext : Bytes → Option (Bytes × UInt8 × Bool)) (packet : Bytes) : Option Bytes :=
  (if encoding.getNh then (decompressNext packet).map fun (packet, nextHeader, _) => (packet, nextHeader)
    else some (packet, encoding.m_nhcNextHeader)).bind fun (packet, nextHeader) =>
      let blobSize := encoding.m_nhcBlob.length
      let blob := encoding.m_nhcBlob ++ padding blobSize
      (c.deserialize ([nextHeader, length (blob.length + 2)] ++ blob)).map fun (header, _) => c.serialize header ++ packet

def optionPadding (blobSize : Nat) : Bytes :=
  let paddingSize := if (blobSize + 2) % 8 > 0 then 8 - (blobSize + 2) % 8 else 0
  if paddingSize = 0 then [] else if paddingSize = 1 then [0]
  else [1, UInt8.ofNat (paddingSize - 2)] ++ List.replicate (paddingSize - 2) 0

/-- The length in units of eight bytes, without the first. -/
def lengthField (size : Nat) : UInt8 := UInt8.ofNat (size >>> 3) - 1

mutual

def decompressLowPanIphc (d : SixLowPanNetDevice) (src dst : MacAddress) : Nat → Bytes → Option (Bytes × Bool)
  | 0, _ => none
  | rounds + 1, packet =>
    (SixLowPanIphc.deserialize packet).bind fun (encoding, size) =>
      let packet := packet.drop size
      match d.getSource encoding src with
      | none => some (packet, true)
      | some source =>
        (d.getDestination encoding dst).bind fun
          | none => some (packet, true)
          | some destination =>
            (if encoding.modes.nh then
              d.decompressNextHeader (d.decompressLowPanNhc src dst rounds source destination) packet source destination
            else some (packet, encoding.m_nextHeader, false)).map fun
              | (packet, _, true) => (packet, true)
              | (packet, nextHeader, false) =>
                let (trafficClass, flowLabel) := getTf encoding
                let ipHeader : Ipv6Header :=
                  ⟨trafficClass, flowLabel, UInt16.ofNat packet.length, nextHeader, encoding.m_hopLimit, source, destination⟩
                (ipHeader.serialize ++ packet, false)

def decompressLowPanNhc (d : SixLowPanNetDevice) (src dst : MacAddress) :
    Nat → Ipv6Address → Ipv6Address → Bytes → Option (Bytes × UInt8 × Bool)
  | 0, _, _, _ => none
  | rounds + 1, srcAddress, dstAddress, packet =>
    (SixLowPanNhcExtension.deserialize packet).bind fun (encoding, size) =>
      let packet := packet.drop size
      let decompressNext := fun packet =>
        d.decompressNextHeader (d.decompressLowPanNhc src dst rounds srcAddress dstAddress) packet srcAddress dstAddress
      if encoding.getEid = EID_HOPBYHOP_OPTIONS_H then
        (decompressExtension Ipv6ExtensionHopByHopHeader optionPadding lengthField encoding decompressNext packet).map fun packet =>
          (packet, IPV6_EXT_HOP_BY_HOP, false)
      else if encoding.getEid = EID_ROUTING_H then
        (decompressExtension Ipv6ExtensionRoutingHeader (fun _ => []) lengthField encoding decompressNext packet).map fun packet =>
          (packet, IPV6_EXT_ROUTING, false)
      else if encoding.getEid = EID_FRAGMENTATION_H then
        (decompressExtension fragmentHeaderClass (fun _ => []) (fun _ => 0) encoding decompressNext packet).map fun packet =>
          (packet, IPV6_EXT_FRAGMENTATION, false)
      else if encoding.getEid = EID_DESTINATION_OPTIONS_H then
        (decompressExtension Ipv6ExtensionDestinationHeader optionPadding lengthField encoding decompressNext packet).map fun packet =>
          (packet, IPV6_EXT_DESTINATION, false)
      else if encoding.getEid = EID_IPv6_H then
        (d.decompressLowPanIphc src dst rounds packet).map fun (packet, drop) =>
          if drop then (packet, 0, true) else (packet, IPV6_IPV6, false)
      else none

end

end SixLowPanNetDevice

end Ns3
