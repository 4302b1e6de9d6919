import Ns3.SixLowPan.SixLowPanHc1

/-!
# HC1, there and back

The compressed header comes back with the parts that were sent. An address
is made again from them, with two exceptions: six bytes of an address whose
prefix alone is left out are read without having been written, and no
address is made when it would be `::`.
-/

namespace Ns3

open Ipv6Address List Option

namespace SixLowPanHc1

open LowPanHc1Addr LowPanHc1NextHeader

/-! ## The bytes of the compressed header -/

def partsBack (mode : LowPanHc1Addr) (prefixPart interfacePart : Bytes) : Bytes × Bytes :=
  match mode with
  | HC1_PIII => (prefixPart, interfacePart)
  | HC1_PIIC => (prefixPart, [])
  | HC1_PCII => ([], interfacePart)
  | HC1_PCIC => ([], [])

theorem readAddr_addrBytes (mode : LowPanHc1Addr) {prefixPart interfacePart : Bytes} (hpre : prefixPart.length = 8)
    (hinterface : interfacePart.length = 8) (rest : Bytes) :
    readAddr mode (addrBytes mode prefixPart interfacePart ++ rest) = some (partsBack mode prefixPart interfacePart, rest) := by
  cases mode with
  | HC1_PIII => simp [readAddr, addrBytes, partsBack, readBytes_of_length hpre, readBytes_of_length hinterface]
  | HC1_PIIC => simp [readAddr, addrBytes, partsBack, readBytes_of_length hpre]
  | HC1_PCII => simp [readAddr, addrBytes, partsBack, readBytes_of_length hinterface]
  | HC1_PCIC => rfl

theorem length_addrBytes (mode : LowPanHc1Addr) {prefixPart interfacePart : Bytes} (hpre : prefixPart.length = 8)
    (hinterface : interfacePart.length = 8) : (addrBytes mode prefixPart interfacePart).length = addrSize mode := by
  cases mode with
  | HC1_PIII => simp [addrBytes, addrSize, hpre, hinterface]
  | HC1_PIIC => simp [addrBytes, addrSize, hpre]
  | HC1_PCII => simp [addrBytes, addrSize, hinterface]
  | HC1_PCIC => rfl

theorem encoding_fields (h : SixLowPanHc1) (hhc2 : h.m_hc2HeaderPresent = false) :
    LowPanHc1Addr.ofValue ((UInt8.ofNat h.encoding).toNat >>> 6) = h.m_srcCompression ∧
      LowPanHc1Addr.ofValue (((UInt8.ofNat h.encoding).toNat >>> 4) &&& 0x3) = h.m_dstCompression ∧
      decide (((UInt8.ofNat h.encoding).toNat >>> 3) &&& 0x1 ≠ 0) = h.m_tcflCompression ∧
      LowPanHc1NextHeader.ofValue (((UInt8.ofNat h.encoding).toNat >>> 1) &&& 0x3) = h.m_nextHeaderCompression ∧
      decide ((UInt8.ofNat h.encoding).toNat &&& 0x1 ≠ 0) = false := by
  unfold encoding
  rw [hhc2]
  cases h.m_srcCompression <;> cases h.m_dstCompression <;> cases h.m_tcflCompression <;>
    cases h.m_nextHeaderCompression <;> decide

def received (h : SixLowPanHc1) : SixLowPanHc1 :=
  { h with
    m_srcPrefix := (partsBack h.m_srcCompression h.m_srcPrefix h.m_srcInterface).1
    m_srcInterface := (partsBack h.m_srcCompression h.m_srcPrefix h.m_srcInterface).2
    m_dstPrefix := (partsBack h.m_dstCompression h.m_dstPrefix h.m_dstInterface).1
    m_dstInterface := (partsBack h.m_dstCompression h.m_dstPrefix h.m_dstInterface).2
    m_trafficClass := if h.m_tcflCompression then 0 else h.m_trafficClass
    m_flowLabel := if h.m_tcflCompression then 0 else h.m_flowLabel }

/-- A header as `CompressLowPanHc1` fills it. -/
structure Filled (h : SixLowPanHc1) : Prop where
  srcPrefix : h.m_srcPrefix.length = 8
  srcInterface : h.m_srcInterface.length = 8
  dstPrefix : h.m_dstPrefix.length = 8
  dstInterface : h.m_dstInterface.length = 8
  flowLabel : h.m_flowLabel < 2 ^ 24
  nextHeader : h.m_nextHeaderCompression = nextHeaderMode h.m_nextHeader
  hc2 : h.m_hc2HeaderPresent = false

variable {h : SixLowPanHc1}

theorem Filled.serialize_some (hf : h.Filled) : ∃ bytes, h.serialize = some bytes ∧ bytes.length = h.getSerializedSize := by
  refine ⟨_, if_neg (by simp [hf.hc2]), ?_⟩
  simp only [length_append, length_cons, length_nil, length_addrBytes _ hf.srcPrefix hf.srcInterface,
    length_addrBytes _ hf.dstPrefix hf.dstInterface, tcflBytes, getSerializedSize]
  cases h.m_tcflCompression <;> cases h.m_nextHeaderCompression <;> simp

theorem readTcfl_tcflBytes (hf : h.Filled) (rest : Bytes) : readTcfl h.m_tcflCompression (h.tcflBytes ++ rest) =
    some ((if h.m_tcflCompression then 0 else h.m_trafficClass, if h.m_tcflCompression then 0 else h.m_flowLabel), rest) := by
  unfold readTcfl tcflBytes
  cases h.m_tcflCompression with
  | true => rfl
  | false =>
    have hlabel : h.m_flowLabel % 256 ^ 3 = h.m_flowLabel := Nat.mod_eq_of_lt hf.flowLabel
    simp only [Bool.false_eq_true, if_false, cons_append, readU8_cons, bind_some,
      readBytes_of_length (length_leBytes 3 h.m_flowLabel), map_some, ofLeBytes_leBytes, hlabel]

theorem readNextHeader_eq (nextHeader : UInt8) (rest : Bytes) : readNextHeader (nextHeaderMode nextHeader)
    ((if nextHeaderMode nextHeader = HC1_NC then [nextHeader] else []) ++ rest) = some nextHeader := by
  unfold nextHeaderMode
  by_cases hudp : nextHeader = Ipv6Header.IPV6_UDP
  · simp [hudp, readNextHeader]
  · by_cases htcp : nextHeader = Ipv6Header.IPV6_TCP
    · rw [if_neg hudp, if_pos htcp, htcp]
      rfl
    · by_cases hicmp : nextHeader = Ipv6Header.IPV6_ICMPV6
      · rw [if_neg hudp, if_neg htcp, if_pos hicmp, hicmp]
        rfl
      · simp [hudp, htcp, hicmp, readNextHeader]

/-- **The header comes back with what was sent**, from all its bytes and no more. -/
theorem Filled.deserialize_serialize (hf : h.Filled) {bytes : Bytes} (hbytes : h.serialize = some bytes) (rest : Bytes) :
    deserialize (bytes ++ rest) = some (h.received, bytes.length) := by
  obtain ⟨bytes', hbytes', hlength⟩ := hf.serialize_some
  cases hbytes'.symm.trans hbytes
  rw [hlength]
  rw [serialize, if_neg (by simp [hf.hc2])] at hbytes
  cases hbytes
  obtain ⟨hsrc, hdst, htcfl, hnext, hhc2⟩ := encoding_fields h hf.hc2
  have hread := readNextHeader_eq h.m_nextHeader rest
  rw [← hf.nextHeader] at hread
  simp only [deserialize, append_assoc, cons_append, nil_append, readU8_cons, bind_some, hsrc, hdst, hnext,
    readAddr_addrBytes _ hf.srcPrefix hf.srcInterface, readAddr_addrBytes _ hf.dstPrefix hf.dstInterface]
  rw [if_neg (fun hne => hne rfl)]
  simp only [htcfl, readTcfl_tcflBytes hf, bind_some, hread, if_neg (of_decide_eq_false hhc2), hhc2, ← hf.hc2]
  rfl

/-! ## The addresses that come back -/

/-- A link-local address has the interface identifier of the link-layer address, and `::` has another one. -/
def AddressKept (addr : Ipv6Address) (mac : MacAddress) : Prop :=
  (addr.bytes.take 8 = linkLocalPrefix → addr.bytes.drop 8 = mac.interfaceId) ∧
    (addr.bytes.drop 8 = mac.interfaceId → addr ≠ .getAny)

def addressBack (stack : Bytes) (addr : Ipv6Address) (mac : MacAddress) : Option Ipv6Address :=
  let parts := partsBack (addrMode addr mac) (addr.bytes.take 8) (addr.bytes.drop 8)
  toAddress stack (addrMode addr mac) parts.1 parts.2 mac

theorem bytes_linkLocal (mac : MacAddress) :
    (makeAutoconfiguredLinkLocalAddress mac).bytes = linkLocalPrefix ++ mac.interfaceId :=
  bytes_ofBytes (by simp [linkLocalPrefix])

theorem addrMode_spec (addr : Ipv6Address) (mac : MacAddress) :
    match addrMode addr mac with
    | HC1_PIII => addr.bytes.take 8 ≠ linkLocalPrefix ∧ addr.bytes.drop 8 ≠ mac.interfaceId
    | HC1_PIIC => addr.bytes.take 8 ≠ linkLocalPrefix ∧ addr.bytes.drop 8 = mac.interfaceId
    | HC1_PCII => addr.bytes.take 8 = linkLocalPrefix ∧ addr.bytes.drop 8 ≠ mac.interfaceId
    | HC1_PCIC => addr.bytes.take 8 = linkLocalPrefix ∧ addr.bytes.drop 8 = mac.interfaceId := by
  have hdrop : (makeAutoconfiguredLinkLocalAddress mac).bytes.drop 8 = mac.interfaceId := by
    rw [bytes_linkLocal]
    exact drop_left' rfl
  unfold addrMode
  rw [hdrop]
  by_cases hlocal : addr.isLinkLocal = true
  · have htake : addr.bytes.take 8 = linkLocalPrefix := of_decide_eq_true hlocal
    by_cases hsame : addr.bytes.drop 8 = mac.interfaceId
    · simp [hlocal, hsame, htake]
    · simp [hlocal, hsame, htake]
  · have htake : addr.bytes.take 8 ≠ linkLocalPrefix := fun h => hlocal (decide_eq_true h)
    by_cases hsame : addr.bytes.drop 8 = mac.interfaceId
    · simp [hlocal, hsame, htake]
    · simp [hlocal, hsame, htake]

theorem addressBack_eq (stack : Bytes) (addr : Ipv6Address) (mac : MacAddress) (hkept : AddressKept addr mac) :
    addressBack stack addr mac = some addr := by
  obtain ⟨hlocal, hmade⟩ := hkept
  have hspec := addrMode_spec addr mac
  have hwhole : addr.bytes.take 8 ++ addr.bytes.drop 8 = addr.bytes := take_append_drop 8 addr.bytes
  unfold addressBack
  cases hmode : addrMode addr mac with
  | HC1_PIII =>
    simp only [partsBack, toAddress, Option.some.injEq]
    exact ofBytes_eq hwhole
  | HC1_PIIC =>
    rw [hmode] at hspec
    have haddr : ofBytes (addr.bytes.take 8 ++ mac.interfaceId) = addr :=
      ofBytes_eq (by rw [← hspec.2, hwhole])
    simp only [partsBack, toAddress, haddr, if_neg (hmade hspec.2)]
  | HC1_PCII =>
    rw [hmode] at hspec
    exact absurd (hlocal hspec.1) hspec.2
  | HC1_PCIC =>
    rw [hmode] at hspec
    simp only [toAddress, Option.some.injEq]
    exact ofBytes_eq (by rw [← hspec.1, ← hspec.2, hwhole])

theorem AddressKept.of_back {addr : Ipv6Address} {mac : MacAddress}
    (h : ∀ stack : Bytes, stack.length = 16 → addressBack stack addr mac = some addr) : AddressKept addr mac := by
  have hspec := addrMode_spec addr mac
  have hback := h (replicate 16 1) length_replicate
  cases hmode : addrMode addr mac with
  | HC1_PIII =>
    rw [hmode] at hspec
    exact ⟨fun hlocal => absurd hlocal hspec.1, fun hsame => absurd hsame hspec.2⟩
  | HC1_PIIC =>
    rw [hmode] at hspec
    refine ⟨fun hlocal => absurd hlocal hspec.1, fun _ hany => ?_⟩
    have hmade : ofBytes (addr.bytes.take 8 ++ mac.interfaceId) = .getAny := by
      rw [← hspec.2, take_append_drop, ← hany]
      exact ofBytes_eq rfl
    simp only [addressBack, hmode, partsBack, toAddress, hmade, if_true] at hback
    cases hback
  | HC1_PCII =>
    rw [hmode] at hspec
    simp only [addressBack, hmode, partsBack, toAddress, Option.some.injEq] at hback
    -- a byte that the array held shows in the address
    have hbytes := congrArg (fun a : Ipv6Address => a.bytes.take 8) hback
    simp only at hspec hbytes
    rw [hspec.1, bytes_ofBytes (by simp), take_left' (by simp)] at hbytes
    exact absurd hbytes (by decide)
  | HC1_PCIC =>
    rw [hmode] at hspec
    refine ⟨fun _ => hspec.2, fun _ hany => ?_⟩
    have hprefix := hspec.1
    rw [hany] at hprefix
    exact absurd hprefix (by decide)

/-! ## The packet that comes back -/

/-- An IPv6 packet compressed and decompressed comes back as it was, whatever the arrays held before. -/
def Lossless (src dst : MacAddress) (packet : Bytes) : Prop :=
  ∃ compressed, compressLowPanHc1 src dst packet = some (compressed, 40) ∧
    ∀ stack : Bytes, stack.length = 16 → decompressLowPanHc1 stack src dst compressed = some packet

variable (src dst : MacAddress) (ipHeader : Ipv6Header) (payload : Bytes)

theorem ofIpv6Header_filled : (ofIpv6Header ipHeader src dst).Filled where
  srcPrefix := by simp [ofIpv6Header]
  srcInterface := by simp [ofIpv6Header]
  dstPrefix := by simp [ofIpv6Header]
  dstInterface := by simp [ofIpv6Header]
  flowLabel := Nat.lt_trans ipHeader.flowLabel.isLt (by decide)
  nextHeader := rfl
  hc2 := rfl

theorem compressLowPanHc1_eq : ∃ bytes, (ofIpv6Header { ipHeader with flowLabel := 0 } src dst).serialize = some bytes ∧
    compressLowPanHc1 src dst (ipHeader.serialize ++ payload) = some (bytes ++ payload, 40) := by
  obtain ⟨bytes, hbytes, -⟩ := (ofIpv6Header_filled src dst { ipHeader with flowLabel := 0 }).serialize_some
  refine ⟨bytes, hbytes, ?_⟩
  have hbehind : (ipHeader.serialize ++ payload).drop 40 = payload := drop_left' (Ipv6Header.length_serialize ipHeader)
  rw [compressLowPanHc1, Ipv6Header.deserialize_serialize, bind_some]
  simp only [hbytes, hbehind]
  rfl

theorem toIpv6Header_received (stack : Bytes) (length : UInt16) :
    toIpv6Header stack (ofIpv6Header { ipHeader with flowLabel := 0 } src dst).received length src dst =
      (addressBack stack ipHeader.source src).bind fun source =>
        (addressBack stack ipHeader.destination dst).map fun destination =>
          { ipHeader with flowLabel := 0, payloadLength := length, source := source, destination := destination } := by
  have htcfl : (ofIpv6Header { ipHeader with flowLabel := 0 } src dst).m_tcflCompression = decide (ipHeader.trafficClass = 0) := by
    simp [ofIpv6Header]
  have hclass : ∀ c : Bool, c = decide (ipHeader.trafficClass = 0) →
      (if c then 0 else if c then 0 else ipHeader.trafficClass) = ipHeader.trafficClass := by
    intro c hc
    cases c with
    | false => rfl
    | true => exact (of_decide_eq_true hc.symm).symm
  have hlabel : ∀ c : Bool, (if c then 0 else BitVec.ofNat 20 (if c then 0 else (0 : BitVec 20).toNat)) = 0 := by
    intro c
    cases c <;> rfl
  have hheader : ∀ source destination : Ipv6Address,
      ({ trafficClass := if (ofIpv6Header { ipHeader with flowLabel := 0 } src dst).m_tcflCompression then 0 else
            if (ofIpv6Header { ipHeader with flowLabel := 0 } src dst).m_tcflCompression then 0 else ipHeader.trafficClass
         flowLabel := if (ofIpv6Header { ipHeader with flowLabel := 0 } src dst).m_tcflCompression then 0 else
            BitVec.ofNat 20 (if (ofIpv6Header { ipHeader with flowLabel := 0 } src dst).m_tcflCompression then 0 else
              (0 : BitVec 20).toNat)
         payloadLength := length
         nextHeader := ipHeader.nextHeader
         hopLimit := ipHeader.hopLimit
         source := source
         destination := destination } : Ipv6Header) =
        { ipHeader with flowLabel := 0, payloadLength := length, source := source, destination := destination } := by
    intro source destination
    rw [hclass _ htcfl, hlabel]
  exact congrArg (Option.bind _) (funext fun source => congrArg (fun f => Option.map f _) (funext fun destination =>
    hheader source destination))

theorem decompressLowPanHc1_eq (stack : Bytes) {bytes : Bytes}
    (hbytes : (ofIpv6Header { ipHeader with flowLabel := 0 } src dst).serialize = some bytes) :
    decompressLowPanHc1 stack src dst (bytes ++ payload) =
      (addressBack stack ipHeader.source src).bind fun source =>
        (addressBack stack ipHeader.destination dst).map fun destination =>
          Ipv6Header.serialize { ipHeader with
            flowLabel := 0
            payloadLength := UInt16.ofNat payload.length
            source := source
            destination := destination } ++ payload := by
  rw [decompressLowPanHc1, (ofIpv6Header_filled src dst _).deserialize_serialize hbytes, bind_some]
  simp only [drop_left' rfl, toIpv6Header_received]
  cases addressBack stack ipHeader.source src with
  | none => rfl
  | some source => simp [Function.comp_def]

theorem Lossless.kept (h : Lossless src dst (ipHeader.serialize ++ payload)) :
    ipHeader.flowLabel = 0 ∧ ipHeader.payloadLength = UInt16.ofNat payload.length ∧
      AddressKept ipHeader.source src ∧ AddressKept ipHeader.destination dst := by
  obtain ⟨compressed, hcompressed, hback⟩ := h
  obtain ⟨bytes, hbytes, heq⟩ := compressLowPanHc1_eq src dst ipHeader payload
  obtain rfl : bytes ++ payload = compressed := congrArg Prod.fst (Option.some.inj (heq.symm.trans hcompressed))
  have hheader : ∀ stack : Bytes, stack.length = 16 → addressBack stack ipHeader.source src = some ipHeader.source ∧
      addressBack stack ipHeader.destination dst = some ipHeader.destination ∧ ipHeader.flowLabel = 0 ∧
        ipHeader.payloadLength = UInt16.ofNat payload.length := by
    intro stack hstack
    have hsome := hback stack hstack
    rw [decompressLowPanHc1_eq src dst ipHeader payload stack hbytes] at hsome
    obtain ⟨source, hsource, hsome⟩ := bind_eq_some_iff.mp hsome
    obtain ⟨destination, hdestination, hsame⟩ := map_eq_some_iff.mp hsome
    have hfields := Ipv6Header.serialize_injective (append_cancel_right hsame)
    rw [hsource, hdestination, ← hfields]
    exact ⟨rfl, rfl, rfl, rfl⟩
  have hone := hheader (replicate 16 0) length_replicate
  exact ⟨hone.2.2.1, hone.2.2.2, .of_back fun stack hstack => (hheader stack hstack).1,
    .of_back fun stack hstack => (hheader stack hstack).2.1⟩

/-- **HC1 is lossless** just when the flow label is 0, the length field is right, and both
addresses can be made again. -/
theorem hc1_lossless_iff : Lossless src dst (ipHeader.serialize ++ payload) ↔
    ipHeader.flowLabel = 0 ∧ ipHeader.payloadLength = UInt16.ofNat payload.length ∧
      AddressKept ipHeader.source src ∧ AddressKept ipHeader.destination dst := by
  constructor
  · intro h
    exact h.kept
  · intro ⟨hlabel, hlength, hsource, hdestination⟩
    obtain ⟨bytes, hbytes, heq⟩ := compressLowPanHc1_eq src dst ipHeader payload
    refine ⟨bytes ++ payload, heq, fun stack _ => ?_⟩
    rw [decompressLowPanHc1_eq src dst ipHeader payload stack hbytes, addressBack_eq stack _ _ hsource,
      addressBack_eq stack _ _ hdestination, ← hlabel, ← hlength]
    rfl

/-- A packet from `fe80::1` to the address of the receiver. -/
def shortSource : Ipv6Header where
  trafficClass := 0
  flowLabel := 0
  payloadLength := 1
  nextHeader := 59
  hopLimit := 64
  source := .ofBytes [0xfe, 0x80, 0, 0, 0, 0, 0, 0, 0, 0, 0, 0, 0, 0, 0, 1]
  destination := .makeAutoconfiguredLinkLocalAddress (.mac16 #v[0, 2])

/-- **Six bytes of the address are what the array held.** -/
theorem short_source_lost : ¬ Lossless (.mac16 #v[0, 1]) (.mac16 #v[0, 2]) (shortSource.serialize ++ [7]) := by
  intro h
  have hsame := h.kept.2.2.1.1 (by decide)
  exact absurd hsame (by decide)

end SixLowPanHc1

end Ns3
