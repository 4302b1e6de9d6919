import Ns3.SixLowPan.StatefulAddress

/-!
# Compressed chains of headers

What comes back of the headers behind an IPv6 header, from the last to the
first. Hop-by-hop options and fragment headers come back as they were. A
routing header comes back with another length, and a UDP header with the
checksum that the receiver makes.
-/

namespace Ns3

open SixLowPanUdpNhcExtension Ipv6Header UdpHeader List Option

/-- The headers behind an IPv6 header, and the rest of the packet. -/
inductive Chain where
  | other (nextHeader : UInt8) (payload : Bytes)
  | udp (sourcePort destinationPort checksum : UInt16) (payload : Bytes)
  | hopByHop (options : Bytes) (next : Chain)
  | routing (typeRouting segmentsLeft : UInt8) (data : Bytes) (next : Chain)
  | fragment (offset : UInt16) (identification : UInt32) (next : Chain)
  | ipv6 (ipHeader : Ipv6Header) (next : Chain)

namespace Chain

open SixLowPanNetDevice

def nextHeader : Chain → UInt8
  | other nextHeader _ => nextHeader
  | udp .. => IPV6_UDP
  | hopByHop .. => IPV6_EXT_HOP_BY_HOP
  | routing .. => IPV6_EXT_ROUTING
  | fragment .. => IPV6_EXT_FRAGMENTATION
  | ipv6 .. => IPV6_IPV6

def bytes : Chain → Bytes
  | other _ payload => payload
  | udp sourcePort destinationPort checksum payload =>
    serializeWith { sourcePort := sourcePort, destinationPort := destinationPort } payload checksum.toNat ++ payload
  | hopByHop options next => [next.nextHeader, lengthField (options.length + 2)] ++ options ++ next.bytes
  | routing typeRouting segmentsLeft data next =>
    [next.nextHeader, lengthField (data.length + 4), typeRouting, segmentsLeft] ++ data ++ next.bytes
  | fragment offset identification next =>
    Ipv6ExtensionFragmentHeader.serialize ⟨next.nextHeader, offset.toNat, identification⟩ ++ next.bytes
  | ipv6 ipHeader next => ipHeader.serialize ++ next.bytes

/-- Extension headers of a multiple of eight bytes, at most 254 of them behind the length, ports
that are sent inline and inner headers that tell what follows. -/
def Formed : Chain → Prop
  | other nextHeader _ => canCompressLowPanNhc nextHeader = false
  | udp sourcePort destinationPort _ _ => udpPorts sourcePort.toNat destinationPort.toNat = .PORTS_INLINE
  | hopByHop options next => (options.length + 2) % 8 = 0 ∧ options.length ≤ 254 ∧ next.Formed
  | routing _ _ data next => (data.length + 4) % 8 = 0 ∧ data.length + 2 ≤ 254 ∧ next.Formed
  | fragment _ _ next => next.Formed
  | ipv6 ipHeader next =>
    ipHeader.nextHeader = next.nextHeader ∧ ipHeader.payloadLength.toNat = next.bytes.length ∧ next.Formed

def depth : Chain → Nat
  | other .. => 0
  | udp .. => 0
  | hopByHop _ next => next.depth + 1
  | routing _ _ _ next => next.depth + 1
  | fragment _ _ next => next.depth + 1
  | ipv6 _ next => next.depth + 1

/-- The compressor comes to no IPv6 packet; it stops at a header that is too long. -/
def NoIpv6 : Chain → Prop
  | other .. => True
  | udp .. => True
  | hopByHop options next => 0xff ≤ options.length + 2 ∨ next.NoIpv6
  | routing .. => True
  | fragment _ _ next => next.NoIpv6
  | ipv6 .. => False

end Chain

namespace SixLowPanNetDevice

open Ports SixLowPanNhcExtension

def udpChecksum (saddr daddr : Ipv6Address) (sourcePort destinationPort : UInt16) (payload : Bytes) : Nat :=
  let size := uint16 (8 + payload.length)
  TcpHeader.calculateIpChecksum
    (serializeWith { sourcePort := sourcePort, destinationPort := destinationPort } payload 0 ++ payload) size
    (calculateHeaderChecksum ⟨saddr.bytes, daddr.bytes, false, IPV6_UDP⟩ size)

/-- A checksum is 0 where there are none, and the one that is calculated where it is left out. -/
def ChecksumKept (d : SixLowPanNetDevice) (saddr daddr : Ipv6Address) (sourcePort destinationPort checksum : UInt16) (payload : Bytes) :
    Prop :=
  if d.checksumEnabled then
    d.m_omitUdpChecksum = true → UInt16.ofNat (udpChecksum saddr daddr sourcePort destinationPort payload) = checksum
  else checksum = 0

/-- The headers that the compressor comes to are no IPv6 and no routing headers, and a UDP header
keeps its checksum. -/
def Keeps (d : SixLowPanNetDevice) (saddr daddr : Ipv6Address) : Chain → Prop
  | .other .. => True
  | .udp sourcePort destinationPort checksum payload => d.ChecksumKept saddr daddr sourcePort destinationPort checksum payload
  | .hopByHop options next => 0xff ≤ options.length + 2 ∨ d.Keeps saddr daddr next
  | .routing _ _ data _ => 0xff ≤ data.length + 4
  | .fragment _ _ next => d.Keeps saddr daddr next
  | .ipv6 .. => False

/-- A header compressed and decompressed, with the kind that is told of it. -/
def back (d : SixLowPanNetDevice) (src dst : MacAddress) (saddr daddr : Ipv6Address) (rounds : Nat) (packet : Bytes) (kind : UInt8) :
    Option (Bytes × UInt8 × Bool) :=
  (d.compressNextHeader (d.compressLowPanIphc src dst rounds) (d.compressLowPanNhc src dst rounds) packet kind).bind
    fun (packet, nh, _) =>
      if nh then d.decompressNextHeader (d.decompressLowPanNhc src dst rounds saddr daddr) packet saddr daddr
      else some (packet, kind, false)

/-! ## Extension headers -/

section
variable {d : SixLowPanNetDevice} {src dst : MacAddress} {saddr daddr : Ipv6Address}

theorem extensionHeader_fields {eid : Nat} (heid : eid < 4) (nh : Bool) :
    getNh { m_nhcExtensionHeader := extensionHeader eid nh } = nh ∧ getEid { m_nhcExtensionHeader := extensionHeader eid nh } = eid ∧
      getNhcDispatchType (extensionHeader eid nh) = .LOWPAN_NHC := by
  have hall : ∀ eid < 4, ∀ nh : Bool, getNh { m_nhcExtensionHeader := extensionHeader eid nh } = nh ∧
      getEid { m_nhcExtensionHeader := extensionHeader eid nh } = eid ∧
        getNhcDispatchType (extensionHeader eid nh) = .LOWPAN_NHC := by
    decide
  exact hall eid heid nh

/-- What the compressor and the decompressor do with a kind of extension headers. -/
structure IsKind (kind : UInt8) (eid : Nat) (c : ExtensionClass) (padding : Nat → Bytes) (length : Nat → UInt8) : Prop where
  eid_lt : eid < 4
  compressed : canCompressLowPanNhc kind = true ∧ kind ≠ IPV6_UDP ∧ kind ≠ IPV6_IPV6
  compress : ∀ (d : SixLowPanNetDevice) (src dst : MacAddress) (rounds : Nat) (packet : Bytes),
    d.compressLowPanNhc src dst (rounds + 1) packet kind =
      compressExtension c eid (d.compressNextHeader (d.compressLowPanIphc src dst rounds) (d.compressLowPanNhc src dst rounds)) packet
  decompress : ∀ (d : SixLowPanNetDevice) (src dst : MacAddress) (rounds : Nat) (saddr daddr : Ipv6Address)
    (encoding : SixLowPanNhcExtension) (size : Nat) (packet : Bytes), SixLowPanNhcExtension.deserialize packet = some (encoding, size) →
      encoding.getEid = eid → d.decompressLowPanNhc src dst (rounds + 1) saddr daddr packet =
        (decompressExtension c padding length encoding
          (fun packet => d.decompressNextHeader (d.decompressLowPanNhc src dst rounds saddr daddr) packet saddr daddr)
            (packet.drop size)).map fun packet => (packet, kind, false)

theorem hopByHopKind : IsKind IPV6_EXT_HOP_BY_HOP EID_HOPBYHOP_OPTIONS_H Ipv6ExtensionHopByHopHeader optionPadding
    lengthField where
  eid_lt := by decide
  compressed := by decide
  compress d src dst rounds packet := by
    rw [compressLowPanNhc, if_pos rfl]
  decompress d src dst rounds saddr daddr encoding size packet hread heid := by
    rw [decompressLowPanNhc, hread, bind_some]
    simp only [heid, if_true]

theorem routingKind : IsKind IPV6_EXT_ROUTING EID_ROUTING_H Ipv6ExtensionRoutingHeader (fun _ => []) lengthField where
  eid_lt := by decide
  compressed := by decide
  compress d src dst rounds packet := by
    rw [compressLowPanNhc, if_neg (by decide), if_pos rfl]
  decompress d src dst rounds saddr daddr encoding size packet hread heid := by
    rw [decompressLowPanNhc, hread, bind_some]
    simp only [heid, if_neg (show EID_ROUTING_H ≠ EID_HOPBYHOP_OPTIONS_H by decide), if_true]

theorem fragmentKind : IsKind IPV6_EXT_FRAGMENTATION EID_FRAGMENTATION_H fragmentHeaderClass (fun _ => [])
    (fun _ => 0) where
  eid_lt := by decide
  compressed := by decide
  compress d src dst rounds packet := by
    rw [compressLowPanNhc, if_neg (by decide), if_neg (by decide), if_pos rfl]
  decompress d src dst rounds saddr daddr encoding size packet hread heid := by
    rw [decompressLowPanNhc, hread, bind_some]
    simp only [heid, if_neg (show EID_FRAGMENTATION_H ≠ EID_HOPBYHOP_OPTIONS_H by decide),
      if_neg (show EID_FRAGMENTATION_H ≠ EID_ROUTING_H by decide), if_true]

section
variable {kind : UInt8} {eid : Nat} {c : ExtensionClass} {padding : Nat → Bytes} {length : Nat → UInt8} {rounds : Nat} {packet : Bytes}
  {header : c.Header} {size : Nat}

theorem IsKind.back_long (hkind : IsKind kind eid c padding length) (hread : c.deserialize packet = some (header, size))
    (hlong : 0xff ≤ c.getLength header) : d.back src dst saddr daddr (rounds + 1) packet kind = some (packet, kind, false) := by
  obtain ⟨hcan, hudp, hip⟩ := hkind.compressed
  have hcompress : d.compressLowPanNhc src dst (rounds + 1) packet kind = some (packet, 0) := by
    rw [hkind.compress, compressExtension, hread, bind_some]
    simp only [if_pos hlong]
  rw [back, compressNextHeader, if_pos hcan, if_neg hudp, if_neg hip, hcompress]
  rfl

theorem IsKind.back_eq (hkind : IsKind kind eid c padding length) (hread : c.deserialize packet = some (header, size))
    {rest : Bytes} (hrest : packet.drop size = rest) (hshort : c.getLength header < 0xff) (hsize : 0 < size) (hblob : ((c.serialize header).drop 2).length < 255)
    (frame : UInt8 → Bytes)
    (hframe : ∀ nextHeader, let blob := (c.serialize header).drop 2 ++ padding ((c.serialize header).drop 2).length
      (c.deserialize ([nextHeader, length (blob.length + 2)] ++ blob)).map (fun r => c.serialize r.1) = some (frame nextHeader)) :
    d.back src dst saddr daddr (rounds + 1) packet kind =
      (d.back src dst saddr daddr rounds rest (c.getNextHeader header)).map fun (packet, nextHeader, _) =>
        (frame nextHeader ++ packet, kind, false) := by
  obtain ⟨hcan, hudp, hip⟩ := hkind.compressed
  rw [back, compressNextHeader, if_pos hcan, if_neg hudp, if_neg hip, hkind.compress, compressExtension, hread, bind_some]
  simp only [if_neg (Nat.not_le.mpr hshort), if_pos hblob, hrest]
  rw [back]
  cases hnext : d.compressNextHeader (d.compressLowPanIphc src dst rounds) (d.compressLowPanNhc src dst rounds) rest
      (c.getNextHeader header) with
  | none => rfl
  | some next =>
    obtain ⟨behind, nh, sizeNext⟩ := next
    obtain ⟨hgetNh, hgetEid, hdispatch⟩ := extensionHeader_fields hkind.eid_lt nh
    let encoding : SixLowPanNhcExtension :=
      ⟨extensionHeader eid nh, if nh then 0 else c.getNextHeader header, (c.serialize header).drop 2⟩
    have hwritten : SixLowPanNhcExtension.deserialize (encoding.serialize ++ behind) = some (encoding, encoding.getSerializedSize) := by
      refine SixLowPanNhcExtension.deserialize_serialize encoding (fun hnh => ?_) (Nat.lt_trans hblob (by decide)) behind
      have hset : nh = true := hgetNh.symm.trans hnh
      exact if_pos hset
    have hbehind : (encoding.serialize ++ behind).drop encoding.getSerializedSize = behind :=
      drop_left' (SixLowPanNhcExtension.length_serialize encoding)
    have hhead : (encoding.serialize ++ behind).headD 0 = extensionHeader eid nh := rfl
    have hnonzero : (size + sizeNext ≠ 0) = True := eq_true (Nat.ne_of_gt (Nat.add_pos_left hsize _))
    simp only [bind_some, map_some, hnonzero, decide_true, if_true]
    show d.decompressNextHeader _ (encoding.serialize ++ behind) saddr daddr = _
    rw [decompressNextHeader, hhead, hdispatch, if_neg (by decide), hkind.decompress d src dst rounds saddr daddr _ _ _ hwritten hgetEid,
      hbehind, decompressExtension, show encoding.getNh = nh from hgetNh]
    have hrebuilt : ∀ nextHeader, (c.deserialize ([nextHeader, length ((encoding.m_nhcBlob ++ padding encoding.m_nhcBlob.length).length + 2)] ++
        (encoding.m_nhcBlob ++ padding encoding.m_nhcBlob.length))).map (fun r => c.serialize r.1) = some (frame nextHeader) := hframe
    cases nh with
    | false =>
      simp only [Bool.false_eq_true, if_false, bind_some, map_some]
      obtain ⟨r, hr, hserialize⟩ := map_eq_some_iff.mp (hrebuilt (c.getNextHeader header))
      simp only [encoding, Bool.false_eq_true, if_false, hr, map_some, hserialize]
    | true =>
      simp only [if_true]
      cases hdec : d.decompressNextHeader (d.decompressLowPanNhc src dst rounds saddr daddr) behind saddr daddr with
      | none => rfl
      | some found =>
        obtain ⟨found, nextHeader, drop⟩ := found
        obtain ⟨r, hr, hserialize⟩ := map_eq_some_iff.mp (hrebuilt nextHeader)
        simp only [map_some, bind_some, encoding, hr, hserialize]

end

theorem lengthField_toNat {size : Nat} (hunits : size % 8 = 0) (hpos : 0 < size) (hle : size ≤ 256) :
    (lengthField size).toNat = size / 8 - 1 := by
  have hsize : (UInt8.ofNat (size >>> 3)).toNat = size / 8 := by
    rw [Nat.shiftRight_eq_div_pow, UInt8.toNat_ofNat']
    omega
  have hone : (1 : UInt8) ≤ UInt8.ofNat (size >>> 3) := by
    rw [UInt8.le_iff_toNat_le, hsize]
    show 1 ≤ size / 8
    omega
  rw [lengthField, UInt8.toNat_sub_of_le _ _ hone, hsize]
  rfl

theorem extensionLength_lengthField {size : Nat} (hunits : size % 8 = 0) (hpos : 0 < size) (hle : size ≤ 256) :
    extensionLength (lengthField size) = size := by
  rw [extensionLength_eq, lengthField_toNat hunits hpos hle]
  omega

section
variable {options : Bytes} {rounds : Nat} {next : Chain}

theorem options_sized (hunits : (options.length + 2) % 8 = 0) (hle : options.length ≤ 254) (nextHeader : UInt8) :
    OptionsHeader.Sized ⟨nextHeader, lengthField (options.length + 2), options⟩ :=
  ⟨(extensionLength_lengthField hunits (Nat.succ_pos _) (by omega)).symm⟩

theorem hopByHop_read (hunits : (options.length + 2) % 8 = 0) (hle : options.length ≤ 254) :
    Ipv6ExtensionHopByHopHeader.deserialize (Chain.hopByHop options next).bytes =
      some (⟨next.nextHeader, lengthField (options.length + 2), options⟩, options.length + 2) := by
  have hsized := options_sized hunits hle next.nextHeader
  have hread := hsized.deserialize_serialize next.bytes
  rw [hsized.serialize_eq] at hread
  have hsize := hsized.getSerializedSize_eq
  rw [hsized.serialize_eq] at hsize
  show Option.map _ (OptionsHeader.deserialize (_ ++ options ++ next.bytes)) = _
  rw [hread, map_some, hsize]
  rfl

theorem back_hopByHop (hunits : (options.length + 2) % 8 = 0) (hle : options.length ≤ 254) (hshort : options.length + 2 < 0xff) :
    d.back src dst saddr daddr (rounds + 1) (Chain.hopByHop options next).bytes IPV6_EXT_HOP_BY_HOP =
      (d.back src dst saddr daddr rounds next.bytes next.nextHeader).map fun (packet, nextHeader, _) =>
        ([nextHeader, lengthField (options.length + 2)] ++ options ++ packet, IPV6_EXT_HOP_BY_HOP, false) := by
  have hsized := options_sized hunits hle next.nextHeader
  have hblob : (Ipv6ExtensionHopByHopHeader.serialize ⟨next.nextHeader, lengthField (options.length + 2), options⟩).drop 2 = options :=
    congrArg (drop 2) hsized.serialize_eq
  have hlength : Ipv6ExtensionHopByHopHeader.getLength ⟨next.nextHeader, lengthField (options.length + 2), options⟩ < 0xff := by
    show extensionLength (lengthField (options.length + 2)) < 0xff
    rwa [extensionLength_lengthField hunits (Nat.succ_pos _) (by omega)]
  have hframe : ∀ nextHeader, ((Ipv6ExtensionHopByHopHeader.deserialize
      ([nextHeader, lengthField ((options ++ optionPadding options.length).length + 2)] ++ (options ++ optionPadding options.length))).map
        fun r => Ipv6ExtensionHopByHopHeader.serialize r.1) = some ([nextHeader, lengthField (options.length + 2)] ++ options) := by
    intro nextHeader
    have hback := options_sized hunits hle nextHeader
    have hpad : optionPadding options.length = [] := by
      rw [optionPadding, hunits]
      rfl
    have hread := hback.deserialize_serialize []
    rw [hback.serialize_eq, append_nil] at hread
    rw [hpad, append_nil]
    show Option.map _ (Option.map _ (OptionsHeader.deserialize _)) = _
    rw [hread]
    exact congrArg some hback.serialize_eq
  exact hopByHopKind.back_eq (hopByHop_read hunits hle) (drop_left' rfl) hlength (Nat.succ_pos _) (by rw [hblob]; omega) _
    (by rw [hblob]; exact hframe)

end

section
variable {offset : UInt16} {identification : UInt32} {rounds : Nat} {next : Chain}

variable (offset identification) in
theorem fragment_read (nextHeader : UInt8) (rest : Bytes) :
    fragmentHeaderClass.deserialize (Ipv6ExtensionFragmentHeader.serialize ⟨nextHeader, offset.toNat, identification⟩ ++ rest) =
      some (⟨nextHeader, offset.toNat, identification⟩, 8) := by
  have hread := Ipv6ExtensionFragmentHeader.deserialize_serialize ⟨nextHeader, offset.toNat, identification⟩ offset.toNat_lt rest
  exact congrArg (Option.map fun h => (h, h.getSerializedSize)) hread

theorem back_fragment :
    d.back src dst saddr daddr (rounds + 1) (Chain.fragment offset identification next).bytes IPV6_EXT_FRAGMENTATION =
      (d.back src dst saddr daddr rounds next.bytes next.nextHeader).map fun (packet, nextHeader, _) =>
        (Ipv6ExtensionFragmentHeader.serialize ⟨nextHeader, offset.toNat, identification⟩ ++ packet,
          IPV6_EXT_FRAGMENTATION, false) := by
  have hframe : ∀ nextHeader, let blob := (Ipv6ExtensionFragmentHeader.serialize ⟨next.nextHeader, offset.toNat, identification⟩).drop 2 ++ []
      (fragmentHeaderClass.deserialize ([nextHeader, 0] ++ blob)).map (fun r => fragmentHeaderClass.serialize r.1) =
        some (Ipv6ExtensionFragmentHeader.serialize ⟨nextHeader, offset.toNat, identification⟩) := by
    intro nextHeader
    have hread := fragment_read offset identification nextHeader []
    exact congrArg (Option.map fun r => fragmentHeaderClass.serialize r.1) hread
  have hblob : ((fragmentHeaderClass.serialize ⟨next.nextHeader, offset.toNat, identification⟩).drop 2).length = 6 := rfl
  exact fragmentKind.back_eq (fragment_read offset identification next.nextHeader next.bytes)
    (drop_left' (Ipv6ExtensionFragmentHeader.length_serialize _)) (show extensionLength 0 < 0xff by decide) (by decide) (by rw [hblob]; decide) _ hframe

end

section
variable {typeRouting segmentsLeft : UInt8} {data : Bytes} {rounds : Nat} {next : Chain}

theorem routing_read : Ipv6ExtensionRoutingHeader.deserialize (Chain.routing typeRouting segmentsLeft data next).bytes =
    some (⟨next.nextHeader, lengthField (data.length + 4), typeRouting, segmentsLeft⟩, 4) := rfl

variable (d src dst saddr daddr typeRouting segmentsLeft rounds next) in
theorem back_routing (hunits : (data.length + 4) % 8 = 0) (hshort : data.length + 4 < 0xff) :
    ∃ behind : Option (Bytes × UInt8 × Bool), d.back src dst saddr daddr (rounds + 1) (Chain.routing typeRouting segmentsLeft data next).bytes
      IPV6_EXT_ROUTING = behind.map fun (packet, nextHeader, _) =>
        ([nextHeader, 255, typeRouting, segmentsLeft] ++ packet, IPV6_EXT_ROUTING, false) := by
  have hlength : Ipv6ExtensionRoutingHeader.getLength ⟨next.nextHeader, lengthField (data.length + 4), typeRouting, segmentsLeft⟩ < 0xff := by
    show extensionLength (lengthField (data.length + 4)) < 0xff
    rwa [extensionLength_lengthField hunits (Nat.succ_pos _) (by omega)]
  have hfield : lengthField 4 = 255 := by decide
  refine ⟨_, routingKind.back_eq routing_read rfl hlength (by decide) (show 2 < 255 by decide)
    (fun nextHeader => [nextHeader, 255, typeRouting, segmentsLeft]) fun nextHeader => ?_⟩
  rw [← hfield]
  rfl

end

/-! ## UDP headers -/

section
variable {sourcePort destinationPort checksum : UInt16} {payload : Bytes}

theorem toNat_word (x : UInt16) : x.toNat % 256 ^ 2 = x.toNat := Nat.mod_eq_of_lt x.toNat_lt

theorem udp_read : UdpHeader.deserialize (Chain.udp sourcePort destinationPort checksum payload).bytes =
    some ({ sourcePort := sourcePort
            destinationPort := destinationPort
            payloadSize := UInt16.ofNat ((8 + payload.length) % 256 ^ 2) - 8
            checksum := checksum }, 8) := by
  simp only [UdpHeader.deserialize, Chain.bytes, serializeWith, if_true, append_assoc, readNtoh_writeHton, bind_some,
    readBytes_of_length (length_leBytes 2 checksum.toNat), map_some, ofLeBytes_leBytes, toNat_word, UInt16.ofNat_toNat,
    UdpHeader.getSerializedSize]

def inlineUdp (omitChecksum : Bool) (sourcePort destinationPort checksum : UInt16) : SixLowPanUdpNhcExtension :=
  ⟨baseFormat omitChecksum PORTS_INLINE, checksum, sourcePort, destinationPort⟩

variable (sourcePort destinationPort checksum) in
theorem inlineUdp_fields (omitChecksum : Bool) : (inlineUdp omitChecksum sourcePort destinationPort checksum).getC = omitChecksum ∧
    (inlineUdp omitChecksum sourcePort destinationPort checksum).getPorts = PORTS_INLINE ∧
      getNhcDispatchType (baseFormat omitChecksum PORTS_INLINE) = .LOWPAN_UDPNHC := by
  have hall : ∀ omitChecksum : Bool,
      let h : SixLowPanUdpNhcExtension := { m_baseFormat := baseFormat omitChecksum PORTS_INLINE }
      h.getC = omitChecksum ∧ h.getPorts = PORTS_INLINE ∧ getNhcDispatchType h.m_baseFormat = .LOWPAN_UDPNHC := by
    decide
  exact hall omitChecksum

theorem inlineUdp_serialize (omitChecksum : Bool) : (inlineUdp omitChecksum sourcePort destinationPort checksum).serialize =
    [baseFormat omitChecksum PORTS_INLINE] ++
      (writeHton 2 sourcePort.toNat ++ writeHton 2 destinationPort.toNat) ++ if omitChecksum then [] else leBytes 2 checksum.toNat := by
  obtain ⟨hc, hports, _⟩ := inlineUdp_fields sourcePort destinationPort checksum omitChecksum
  rw [SixLowPanUdpNhcExtension.serialize, portsBytes, hc, hports]
  cases omitChecksum <;> rfl

theorem inlineUdp_read (omitChecksum : Bool) :
    SixLowPanUdpNhcExtension.deserialize ((inlineUdp omitChecksum sourcePort destinationPort checksum).serialize ++ payload) =
      some (inlineUdp omitChecksum sourcePort destinationPort (if omitChecksum then 0 else checksum),
        (inlineUdp omitChecksum sourcePort destinationPort checksum).serialize.length) := by
  obtain ⟨hc, hports⟩ : ({ m_baseFormat := baseFormat omitChecksum PORTS_INLINE } :
      SixLowPanUdpNhcExtension).getC = omitChecksum ∧ ({ m_baseFormat := baseFormat omitChecksum PORTS_INLINE } :
        SixLowPanUdpNhcExtension).getPorts = PORTS_INLINE :=
    ⟨(inlineUdp_fields 0 0 0 omitChecksum).1, (inlineUdp_fields 0 0 0 omitChecksum).2.1⟩
  have hsize : ∀ checksum, (inlineUdp omitChecksum sourcePort destinationPort checksum).getSerializedSize =
      (inlineUdp omitChecksum sourcePort destinationPort checksum).serialize.length := by
    intro checksum
    obtain ⟨hc, hports, _⟩ := inlineUdp_fields sourcePort destinationPort checksum omitChecksum
    rw [inlineUdp_serialize, SixLowPanUdpNhcExtension.getSerializedSize, hc, hports]
    cases omitChecksum <;> simp [portsSize]
  rw [← hsize, inlineUdp_serialize]
  cases omitChecksum with
  | true =>
    simp only [SixLowPanUdpNhcExtension.deserialize, append_assoc, cons_append, nil_append, readU8_cons,
      bind_some, hc, hports, readPorts, readNtoh_writeHton, map_some, toNat_word,
      UInt16.ofNat_toNat, Bool.not_true, Bool.false_eq_true, if_false, if_true]
    rfl
  | false =>
    simp only [SixLowPanUdpNhcExtension.deserialize, append_assoc, cons_append, nil_append, readU8_cons,
      bind_some, hc, hports, readPorts, readNtoh_writeHton, map_some, toNat_word,
      UInt16.ofNat_toNat, Bool.not_false, Bool.false_eq_true, if_false, if_true,
      readBytes_of_length (length_leBytes 2 checksum.toNat), ofLeBytes_leBytes]
    rfl

def checksumBack (d : SixLowPanNetDevice) (saddr daddr : Ipv6Address) (sourcePort destinationPort checksum : UInt16) (payload : Bytes) :
    Nat :=
  if d.checksumEnabled then
    if d.m_omitUdpChecksum then udpChecksum saddr daddr sourcePort destinationPort payload else checksum.toNat
  else 0

theorem back_udp (hports : udpPorts sourcePort.toNat destinationPort.toNat = PORTS_INLINE) (rounds : Nat) :
    d.back src dst saddr daddr rounds (Chain.udp sourcePort destinationPort checksum payload).bytes IPV6_UDP =
      some (serializeWith { sourcePort := sourcePort, destinationPort := destinationPort } payload
        (d.checksumBack saddr daddr sourcePort destinationPort checksum payload) ++ payload, IPV6_UDP, false) := by
  have hcompress : compressLowPanUdpNhc (Chain.udp sourcePort destinationPort checksum payload).bytes d.m_omitUdpChecksum =
      some ((inlineUdp d.m_omitUdpChecksum sourcePort destinationPort checksum).serialize ++ payload, 8) := by
    have hbehind : (Chain.udp sourcePort destinationPort checksum payload).bytes.drop 8 = payload := drop_left' (by
      simp [serializeWith])
    rw [compressLowPanUdpNhc, udp_read, map_some]
    simp only [hbehind, hports]
    rfl
  obtain ⟨hc, hinline, hdispatch⟩ := inlineUdp_fields sourcePort destinationPort (if d.m_omitUdpChecksum then 0 else checksum)
    d.m_omitUdpChecksum
  have hhead : ((inlineUdp d.m_omitUdpChecksum sourcePort destinationPort checksum).serialize ++ payload).headD 0 =
      baseFormat d.m_omitUdpChecksum PORTS_INLINE := rfl
  rw [back, compressNextHeader, if_pos (by decide), if_pos rfl, hcompress, map_some, bind_some]
  simp only [if_true]
  rw [decompressNextHeader, hhead, if_pos hdispatch, decompressLowPanUdpNhc, inlineUdp_read, map_some, map_some]
  simp only [hc, hinline, drop_left' rfl]
  have hheader : ∀ x y : Bytes, x = y → some (x ++ payload, IPV6_UDP, false) = some (y ++ payload, IPV6_UDP, false) :=
    fun x y h => by rw [h]
  refine hheader _ _ ?_
  rw [checksumBack]
  cases d.checksumEnabled with
  | false => rfl
  | true =>
    simp only [if_true]
    cases d.m_omitUdpChecksum with
    | true => rfl
    | false =>
      by_cases hzero : checksum = 0
      · subst hzero
        rfl
      · simp only [UdpHeader.serialize, Bool.false_eq_true, if_false, inlineUdp, if_neg hzero]
        rfl

theorem checksumBack_eq_iff : UInt16.ofNat (d.checksumBack saddr daddr sourcePort destinationPort checksum payload) = checksum ↔
    d.ChecksumKept saddr daddr sourcePort destinationPort checksum payload := by
  rw [checksumBack, ChecksumKept]
  cases d.checksumEnabled with
  | false => exact eq_comm
  | true =>
    cases d.m_omitUdpChecksum with
    | true => simp
    | false => simp

theorem serializeWith_eq_iff {h : UdpHeader} {x : Nat} :
    h.serializeWith payload x ++ payload = h.serializeWith payload checksum.toNat ++ payload ↔ UInt16.ofNat x = checksum := by
  have hword : leBytes 2 x = leBytes 2 checksum.toNat ↔ UInt16.ofNat x = checksum := by
    constructor
    · intro hbytes
      have hvalue := congrArg ofLeBytes hbytes
      rw [ofLeBytes_leBytes, ofLeBytes_leBytes, toNat_word] at hvalue
      refine UInt16.toNat_inj.mp (Eq.trans ?_ hvalue)
      exact UInt16.toNat_ofNat'
    · intro hvalue
      have hback := leBytes_ofLeBytes (leBytes 2 x)
      rw [length_leBytes, ofLeBytes_leBytes] at hback
      rw [← hvalue]
      exact hback.symm
  rw [append_cancel_right_eq, serializeWith, serializeWith, append_cancel_left_eq, hword]

end

/-! ## Chains -/

theorem framed_ne {rest : Bytes} {behind : Option (Bytes × UInt8 × Bool)} {kind : UInt8} (frame : UInt8 → Bytes) (kept : UInt8)
    (hlength : ∀ nextHeader, (frame nextHeader).length = (frame kept).length)
    (hlost : ∀ packet nextHeader drop, behind = some (packet, nextHeader, drop) → packet ≠ rest)
    {packet : Bytes} {nextHeader : UInt8} {drop : Bool}
    (h : (behind.map fun (packet, nextHeader, _) => (frame nextHeader ++ packet, kind, false)) = some (packet, nextHeader, drop)) :
    packet ≠ frame kept ++ rest := by
  obtain ⟨⟨inner, innerNext, innerDrop⟩, hbehind, heq⟩ := map_eq_some_iff.mp h
  obtain rfl : frame innerNext ++ inner = packet := congrArg Prod.fst heq
  intro hsame
  exact hlost _ _ _ hbehind (append_inj hsame (hlength innerNext)).2

theorem back_spec {chain : Chain} (hformed : chain.Formed) {rounds : Nat} (hrounds : chain.depth ≤ rounds) :
    (d.Keeps saddr daddr chain →
      d.back src dst saddr daddr rounds chain.bytes chain.nextHeader = some (chain.bytes, chain.nextHeader, false)) ∧
    (chain.NoIpv6 → ¬d.Keeps saddr daddr chain → ∀ packet nextHeader drop,
      d.back src dst saddr daddr rounds chain.bytes chain.nextHeader = some (packet, nextHeader, drop) → packet ≠ chain.bytes) := by
  induction chain generalizing rounds with
  | other nextHeader payload =>
    refine ⟨fun _ => ?_, fun _ hlost => absurd trivial hlost⟩
    rw [back, Chain.nextHeader, compressNextHeader, show canCompressLowPanNhc nextHeader = false from hformed]
    rfl
  | udp sourcePort destinationPort checksum payload =>
    rw [Chain.nextHeader, back_udp hformed]
    refine ⟨fun hkept => ?_, fun _ hlost packet nextHeader drop h => ?_⟩
    · exact congrArg (fun x => some (x, IPV6_UDP, false)) (serializeWith_eq_iff.mpr (checksumBack_eq_iff.mpr hkept))
    · obtain rfl := congrArg Prod.fst (Option.some.inj h)
      exact fun hsame => hlost (checksumBack_eq_iff.mp (serializeWith_eq_iff.mp hsame))
  | hopByHop options next ih =>
    obtain ⟨hunits, hle, hnext⟩ := hformed
    obtain ⟨rounds, rfl⟩ := Nat.exists_eq_add_one_of_ne_zero (Nat.ne_of_gt (Nat.zero_lt_of_lt hrounds))
    obtain ⟨hkeeps, hloses⟩ := ih hnext (Nat.le_of_succ_le_succ hrounds)
    rw [Chain.nextHeader]
    by_cases hlong : 0xff ≤ options.length + 2
    · refine ⟨fun _ => ?_, fun _ hlost => absurd (.inl hlong) hlost⟩
      refine hopByHopKind.back_long (hopByHop_read hunits hle) ?_
      show 0xff ≤ extensionLength (lengthField (options.length + 2))
      rwa [extensionLength_lengthField hunits (Nat.succ_pos _) (by omega)]
    · rw [back_hopByHop hunits hle (Nat.lt_of_not_le hlong)]
      refine ⟨fun hkept => ?_, fun hno hlost packet nextHeader drop h => ?_⟩
      · rw [hkeeps (hkept.resolve_left hlong)]
        rfl
      · exact framed_ne (fun nextHeader => [nextHeader, lengthField (options.length + 2)] ++ options) next.nextHeader (fun _ => rfl) (hloses (hno.resolve_left hlong) fun hkept => hlost (.inr hkept)) h
  | routing typeRouting segmentsLeft data next _ =>
    obtain ⟨hunits, hle, _⟩ := hformed
    obtain ⟨rounds, rfl⟩ := Nat.exists_eq_add_one_of_ne_zero (Nat.ne_of_gt (Nat.zero_lt_of_lt hrounds))
    rw [Chain.nextHeader]
    refine ⟨fun hlong => ?_, fun _ hlost packet nextHeader drop h => ?_⟩
    · refine routingKind.back_long routing_read ?_
      show 0xff ≤ extensionLength (lengthField (data.length + 4))
      rwa [extensionLength_lengthField hunits (Nat.succ_pos _) (by omega)]
    · obtain ⟨behind, hback⟩ := back_routing d src dst saddr daddr typeRouting segmentsLeft rounds next hunits (Nat.lt_of_not_le hlost)
      rw [hback] at h
      obtain ⟨⟨inner, innerNext, innerDrop⟩, _, heq⟩ := map_eq_some_iff.mp h
      obtain rfl := congrArg Prod.fst heq
      intro hsame
      have hfield : (255 : UInt8) = lengthField (data.length + 4) := (List.cons.inj (List.cons.inj hsame).2).1
      have hvalue := congrArg UInt8.toNat hfield
      rw [lengthField_toNat hunits (Nat.succ_pos _) (by omega)] at hvalue
      have : (255 : UInt8).toNat = 255 := rfl
      omega
  | fragment offset identification next ih =>
    obtain ⟨rounds, rfl⟩ := Nat.exists_eq_add_one_of_ne_zero (Nat.ne_of_gt (Nat.zero_lt_of_lt hrounds))
    obtain ⟨hkeeps, hloses⟩ := ih hformed (Nat.le_of_succ_le_succ hrounds)
    rw [Chain.nextHeader, back_fragment]
    refine ⟨fun hkept => ?_, fun hno hlost packet nextHeader drop h => ?_⟩
    · rw [hkeeps hkept]
      rfl
    · exact framed_ne (fun nextHeader => Ipv6ExtensionFragmentHeader.serialize ⟨nextHeader, offset.toNat, identification⟩) next.nextHeader
        (fun _ => by rw [Ipv6ExtensionFragmentHeader.length_serialize, Ipv6ExtensionFragmentHeader.length_serialize]) (hloses hno hlost) h
  | ipv6 ipHeader next _ => exact ⟨False.elim, fun hno => hno.elim⟩

/-- What is compressed and decompressed is the packet, and it is not dropped. -/
def Lossless (d : SixLowPanNetDevice) (src dst : MacAddress) (rounds : Nat) (packet : Bytes) : Prop :=
  ((d.compressLowPanIphc src dst rounds packet).bind fun r => d.decompressLowPanIphc src dst rounds r.1) = some (packet, false)

structure PacketKept (d : SixLowPanNetDevice) (src dst : MacAddress) (ipHeader : Ipv6Header) (chain : Chain) : Prop where
  flowLabel : ipHeader.flowLabel = 0
  source : ipHeader.source ≠ .getAny → d.KeepsUnicast ipHeader.source src
  destination : ipHeader.destination.isMulticast = false → d.KeepsUnicast ipHeader.destination dst
  chain : d.Keeps ipHeader.source ipHeader.destination chain

section
variable {ipHeader : Ipv6Header} {chain : Chain} {rounds : Nat}

theorem compressed_back (hnone : d.NoMulticastContext ipHeader.destination) (hnext : ipHeader.nextHeader = chain.nextHeader)
    {source destination : Ipv6Address} (hsource : d.sourceBack ipHeader.source src = some source)
    (hdestination : d.destinationBack ipHeader.destination dst = some destination) :
    ((d.compressLowPanIphc src dst (rounds + 1) (ipHeader.serialize ++ chain.bytes)).bind fun r =>
      d.decompressLowPanIphc src dst (rounds + 1) r.1) =
      (d.back src dst source destination rounds chain.bytes chain.nextHeader).map fun
        | (packet, _, true) => (packet, true)
        | (packet, nextHeader, false) =>
          (({ ipHeader with
              flowLabel := 0
              payloadLength := UInt16.ofNat packet.length
              nextHeader := nextHeader
              source := source
              destination := destination } : Ipv6Header).serialize ++ packet, false) := by
  rw [compressLowPanIphc_eq hnone (not_addressesAbort hsource hdestination), back, hnext]
  cases hcompress : d.compressNextHeader (d.compressLowPanIphc src dst rounds) (d.compressLowPanNhc src dst rounds) chain.bytes
      chain.nextHeader with
  | none => rfl
  | some compressed =>
    obtain ⟨packet, nh, size⟩ := compressed
    have hdecompress := decompressLowPanIphc_eq { ipHeader with flowLabel := 0 } rfl hnone hsource hdestination rounds nh packet
    rw [hnext] at hdecompress
    exact hdecompress

theorem not_lossless_of_drop (hnone : d.NoMulticastContext ipHeader.destination)
    (hlost : d.sourceBack ipHeader.source src = none ∨ d.destinationBack ipHeader.destination dst = none) :
    ¬d.Lossless src dst (rounds + 1) (ipHeader.serialize ++ chain.bytes) := by
  cases hset : d.addressesAbort ipHeader src dst with
  | true =>
    rw [Lossless, compressLowPanIphc_of_aborts hset]
    exact nofun
  | false =>
    rw [Lossless, compressLowPanIphc_eq hnone hset]
    cases d.compressNextHeader (d.compressLowPanIphc src dst rounds) (d.compressLowPanNhc src dst rounds) chain.bytes
        ipHeader.nextHeader with
    | none => exact nofun
    | some compressed =>
      obtain ⟨packet, nh, size⟩ := compressed
      have hdrop := decompressLowPanIphc_drop { ipHeader with flowLabel := 0 } rfl hnone hset hlost rounds nh packet
      intro h
      have hsame := hdrop.symm.trans h
      exact Bool.noConfusion (congrArg Prod.snd (Option.some.inj hsame))

/-- Where no multicast context is used and no IPv6 packet is compressed behind the header, a packet
comes back exactly if it has no flow label, its addresses survive their contexts, the compressor
comes to no routing header and the UDP checksum is the one that the receiver makes. -/
theorem nhc_lossless_iff (hnone : d.NoMulticastContext ipHeader.destination) (hno : chain.NoIpv6)
    (hnext : ipHeader.nextHeader = chain.nextHeader) (hlength : ipHeader.payloadLength.toNat = chain.bytes.length)
    (hformed : chain.Formed) (hrounds : chain.depth < rounds) :
    d.Lossless src dst rounds (ipHeader.serialize ++ chain.bytes) ↔ d.PacketKept src dst ipHeader chain := by
  obtain ⟨rounds, rfl⟩ := Nat.exists_eq_add_one_of_ne_zero (Nat.ne_of_gt (Nat.zero_lt_of_lt hrounds))
  have hdepth := Nat.le_of_lt_succ hrounds
  constructor
  · intro hlossless
    cases hsource : d.sourceBack ipHeader.source src with
    | none => exact absurd hlossless (not_lossless_of_drop hnone (.inl hsource))
    | some source =>
      cases hdestination : d.destinationBack ipHeader.destination dst with
      | none => exact absurd hlossless (not_lossless_of_drop hnone (.inr hdestination))
      | some destination =>
        rw [Lossless, compressed_back hnone hnext hsource hdestination] at hlossless
        obtain ⟨⟨packet, nextHeader, drop⟩, hback, heq⟩ := map_eq_some_iff.mp hlossless
        cases drop with
        | true => exact Bool.noConfusion (congrArg Prod.snd heq)
        | false =>
          obtain ⟨hheader, hpacket⟩ := append_inj (congrArg Prod.fst heq) (by
            rw [Ipv6Header.length_serialize, Ipv6Header.length_serialize]
            rfl)
          have hfields := serialize_injective hheader
          obtain rfl : source = ipHeader.source := congrArg Ipv6Header.source hfields
          obtain rfl : destination = ipHeader.destination := congrArg Ipv6Header.destination hfields
          have hchain : d.Keeps ipHeader.source ipHeader.destination chain := by
            by_contra hlost
            exact (back_spec hformed hdepth).2 hno hlost _ _ _ hback hpacket
          exact ⟨(congrArg flowLabel hfields).symm, sourceBack_iff_keepsUnicast.mp hsource,
            destinationBack_iff_keepsUnicast.mp hdestination, hchain⟩
  · intro hkept
    have hsize : UInt16.ofNat chain.bytes.length = ipHeader.payloadLength := by
      rw [← hlength, UInt16.ofNat_toNat]
    rw [Lossless, compressed_back hnone hnext (sourceBack_iff_keepsUnicast.mpr hkept.source)
      (destinationBack_iff_keepsUnicast.mpr hkept.destination), (back_spec hformed hdepth).1 hkept.chain]
    simp only [map_some, hsize, ← hnext, ← hkept.flowLabel]

end

end

/-! ## A packet in a packet -/

def udpBehindOptions : Chain := .hopByHop [0, 0, 0, 0, 0, 0] (.udp 9 9 0x1234 [1, 2, 3])

def headerOf (chain : Chain) : Ipv6Header :=
  { labelled 0 with
    payloadLength := UInt16.ofNat chain.bytes.length
    nextHeader := chain.nextHeader }

theorem nhc_lossless_udpBehindOptions :
    plainDevice.Lossless plainMac plainMac 2 ((headerOf udpBehindOptions).serialize ++ udpBehindOptions.bytes) ↔
      plainDevice.PacketKept plainMac plainMac (headerOf udpBehindOptions) udpBehindOptions :=
  nhc_lossless_iff (noMulticastContext_of_empty rfl _) (.inr trivial) rfl rfl ⟨rfl, by decide, rfl⟩ (by decide)

def packetInPacket : Chain := .ipv6 (labelled 0) (.other 59 [])

/-- The inner header is taken for a routing header. -/
theorem packetInPacket_lost :
    ¬plainDevice.Lossless plainMac plainMac 3 ((headerOf packetInPacket).serialize ++ packetInPacket.bytes) := by
  rw [Lossless]
  decide +kernel

end SixLowPanNetDevice

end Ns3
