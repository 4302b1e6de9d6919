import Ns3.SixLowPan.CompressionSizes
import Ns3.SixLowPan.StatefulAddress

/-!
# IPHC with contexts

Two devices that share a table of contexts. A header that is made by one of
them is read by the other one with the addresses that the contexts keep. What
is sent of a multicast address with a context takes ten bytes more than the
size of the header counts.
-/

namespace Ns3

open List Option

/-! ## The bytes that are read -/

namespace SixLowPanIphc

open TrafficClassFlowLabel Hlim HeaderCompression

/-- The first bytes are read, all of them and no others. -/
structure ReadsExactly (bytes : Bytes) (n : Nat) : Prop where
  enough : (deserialize (bytes.take n)).isSome = true
  needed : ∀ m < n, deserialize (bytes.take m) = none

variable {x : IphcModes} {bytes rest : Bytes} {v : UInt8}

theorem readCid_length (h : readCid x bytes = some (v, rest)) :
    bytes.length = (if x.cid then 1 else 0) + rest.length := by
  rw [readCid] at h
  cases hcid : x.cid with
  | true =>
    rw [hcid, if_pos rfl] at h
    rw [readU8_length h, if_pos rfl, Nat.add_comm]
  | false =>
    rw [hcid] at h
    cases h
    exact (Nat.zero_add _).symm

theorem readNh_length (h : readNh x bytes = some (v, rest)) :
    bytes.length = (if !x.nh then 1 else 0) + rest.length := by
  rw [readNh] at h
  cases hnh : x.nh with
  | true =>
    rw [hnh] at h
    cases h
    exact (Nat.zero_add _).symm
  | false =>
    rw [hnh] at h
    exact (readU8_length h).trans (Nat.add_comm _ _)

theorem readHlim_length (h : readHlim x bytes = some (v, rest)) :
    bytes.length = (if x.hlim = HLIM_INLINE then 1 else 0) + rest.length := by
  rw [readHlim] at h
  cases hhlim : x.hlim with
  | HLIM_INLINE =>
    rw [hhlim] at h
    exact (readU8_length h).trans (Nat.add_comm _ _)
  | _ =>
    rw [hhlim] at h
    cases h
    exact (Nat.zero_add _).symm

theorem readTf_length {v : BitVec 2 × BitVec 6 × BitVec 20} (h : readTf x bytes = some (v, rest)) :
    bytes.length = tfSize x.tf + rest.length := by
  rw [readTf] at h
  cases htf : x.tf with
  | TF_FULL =>
    rw [htf] at h
    obtain ⟨⟨temp, rest'⟩, hread, heq⟩ := map_eq_some_iff.mp h
    cases heq
    exact (readBytes_length hread).1
  | TF_DSCP_ELIDED =>
    rw [htf] at h
    obtain ⟨⟨temp, rest'⟩, hread, heq⟩ := map_eq_some_iff.mp h
    cases heq
    exact (readBytes_length hread).1
  | TF_FL_ELIDED =>
    rw [htf] at h
    obtain ⟨⟨temp, rest'⟩, hread, heq⟩ := map_eq_some_iff.mp h
    cases heq
    exact (readU8_length hread).trans (Nat.add_comm _ _)
  | TF_ELIDED =>
    rw [htf] at h
    cases h
    exact (Nat.zero_add _).symm

theorem readSize_le {x : SixLowPanIphc} {n : Nat} (h : deserialize bytes = some (x, n)) :
    ∃ v rest, readNtoh 2 bytes = some (v, rest) ∧ readSize (IphcModes.ofBaseFormat v) ≤ bytes.length := by
  obtain ⟨⟨v, i⟩, hv, h⟩ := bind_eq_some_iff.mp h
  obtain ⟨⟨ids, i₁⟩, hcid, h⟩ := bind_eq_some_iff.mp h
  obtain ⟨⟨tf, i₂⟩, htf, h⟩ := bind_eq_some_iff.mp h
  obtain ⟨⟨next, i₃⟩, hnh, h⟩ := bind_eq_some_iff.mp h
  obtain ⟨⟨hops, i₄⟩, hhlim, h⟩ := bind_eq_some_iff.mp h
  obtain ⟨⟨src, i₅⟩, hsrc, h⟩ := bind_eq_some_iff.mp h
  obtain ⟨⟨dst, i₆⟩, hdst, -⟩ := map_eq_some_iff.mp h
  refine ⟨v, i, hv, ?_⟩
  have hlength := readNtoh_length hv
  have hcid' := readCid_length hcid
  have htf' := readTf_length htf
  have hnh' := readNh_length hnh
  have hhlim' := readHlim_length hhlim
  have hsrc' := (readBytes_length hsrc).1
  have hdst' := (readBytes_length hdst).1
  rw [readSize]
  omega

section
variable (h : SixLowPanIphc)

theorem deserialize_take (rest : Bytes) {m : Nat} (hm : m < readSize h.modes) : deserialize ((h.serialize ++ rest).take m) = none := by
  cases hread : deserialize ((h.serialize ++ rest).take m) with
  | none => rfl
  | some r =>
    obtain ⟨v, behind, hv, hsize⟩ := readSize_le hread
    have hlength := readNtoh_length hv
    rw [length_take, length_append, length_serialize_eq] at hlength
    have hlt := h.modes.baseFormat_fields.1
    have hfront : (h.serialize ++ rest).take m =
        writeHton 2 h.modes.baseFormat ++ ((h.serialize ++ rest).drop 2).take (m - 2) := by
      have htwo : (h.serialize ++ rest).take 2 = writeHton 2 h.modes.baseFormat := by
        simp only [serialize, append_assoc]
        exact take_left' (length_writeHton _ _)
      have hsplit : (2 + (m - 2)) = m := by omega
      rw [← htwo, ← take_add, hsplit]
    rw [hfront, readNtoh_writeHton, Nat.mod_eq_of_lt (by simpa using hlt)] at hv
    cases hv
    rw [IphcModes.ofBaseFormat_baseFormat, length_take] at hsize
    omega

theorem readsExactly_iff (rest : Bytes) : ReadsExactly (h.serialize ++ rest) h.getSerializedSize ↔ dstSize h.modes = dstWritten h.modes := by
  have hsize : h.getSerializedSize + dstWritten h.modes = readSize h.modes + dstSize h.modes := by
    rw [getSerializedSize, readSize]
    omega
  constructor
  · intro hexact
    by_contra hne
    by_cases hless : dstSize h.modes < dstWritten h.modes
    · have henough := hexact.enough
      rw [deserialize_take h rest (by omega)] at henough
      cases henough
    · have hnone := hexact.needed (readSize h.modes) (by omega)
      have htake : (h.serialize ++ rest).take (readSize h.modes) = h.serialize ++ [] := by
        rw [append_nil, ← length_serialize_eq]
        exact take_left
      rw [htake, deserialize_serialize] at hnone
      cases hnone
  · intro hdst
    have hread : h.getSerializedSize = readSize h.modes := by omega
    have htake : (h.serialize ++ rest).take (readSize h.modes) = h.serialize ++ [] := by
      rw [append_nil, ← length_serialize_eq]
      exact take_left
    rw [hread]
    refine ⟨?_, fun m hm => deserialize_take h rest hm⟩
    rw [htake, deserialize_serialize]
    rfl

end

end SixLowPanIphc

namespace SixLowPanNetDevice

open TrafficClassFlowLabel Hlim HeaderCompression SixLowPanIphc

/-! ## Which addresses have a context -/

/-- Two devices that share a table in which no context has expired. -/
structure SharedContexts (d e : SixLowPanNetDevice) : Prop where
  table : e.m_contextTable = d.m_contextTable
  valid : ∀ contextId context, d.m_contextTable.find contextId = some context →
    d.now < context.validLifetime ∧ e.now < context.validLifetime

section
variable {d e : SixLowPanNetDevice} {a : Ipv6Address} {mac : MacAddress} {h : SixLowPanIphc}

theorem setTf_frame (flowLabel : BitVec 20) (trafficClass : UInt8) : ∃ tf ecn dscp label, setTf {} flowLabel trafficClass =
    { modes := { tf := tf }, m_ecn := ecn, m_dscp := dscp, m_flowLabel := label } := by
  rw [setTf]
  simp only
  split
  · exact ⟨_, _, _, _, rfl⟩
  · split
    · exact ⟨_, _, _, _, rfl⟩
    · split
      · exact ⟨_, _, _, _, rfl⟩
      · exact ⟨_, _, _, _, rfl⟩

theorem sac_setSource (hsac : h.modes.sac = false) (a : Ipv6Address) (mac : MacAddress) :
    (d.setSource h a mac).modes.sac = (decide (a = .getAny) || (d.findUnicastCompressionContext a).isSome) := by
  rw [setSource]
  by_cases hany : a = .getAny
  · rw [if_pos hany, decide_eq_true hany]
    rfl
  · rw [if_neg hany, decide_eq_false hany, Bool.false_or]
    cases d.findUnicastCompressionContext a with
    | none => exact hsac
    | some found => rfl

theorem dac_setSource (h : SixLowPanIphc) (a : Ipv6Address) (mac : MacAddress) : (d.setSource h a mac).modes.dac = h.modes.dac := by
  rw [setSource]
  split
  · rfl
  · cases d.findUnicastCompressionContext a with
    | none => rfl
    | some found => rfl

theorem modes_setDestination (hdac : h.modes.dac = false) (a : Ipv6Address) (mac : MacAddress) :
    (d.setDestination h a mac).modes.sac = h.modes.sac ∧ (d.setDestination h a mac).modes.dac =
      if a.isMulticast then (d.findMulticastCompressionContext a).isSome else (d.findUnicastCompressionContext a).isSome := by
  rw [setDestination]
  cases hmulti : a.isMulticast with
  | true =>
    cases d.findMulticastCompressionContext a with
    | none => exact ⟨rfl, hdac⟩
    | some found => exact ⟨rfl, rfl⟩
  | false =>
    cases d.findUnicastCompressionContext a with
    | none => exact ⟨rfl, hdac⟩
    | some found => exact ⟨rfl, rfl⟩

theorem modes_iphcHeader (ipHeader : Ipv6Header) (nh : Bool) (src dst : MacAddress) :
    (d.iphcHeader ipHeader nh src dst).modes.sac =
      (decide (ipHeader.source = .getAny) || (d.findUnicastCompressionContext ipHeader.source).isSome) ∧
    (d.iphcHeader ipHeader nh src dst).modes.dac = if ipHeader.destination.isMulticast
      then (d.findMulticastCompressionContext ipHeader.destination).isSome
      else (d.findUnicastCompressionContext ipHeader.destination).isSome := by
  obtain ⟨tf, ecn, dscp, label, htf⟩ := setTf_frame ipHeader.flowLabel ipHeader.trafficClass
  obtain ⟨hlim, inline, hhlim, -⟩ := setHlim_spec ipHeader.hopLimit
  rw [iphcHeader, htf]
  simp only
  rw [hhlim _ rfl]
  refine ⟨(modes_setDestination ?_ _ _).1.trans (sac_setSource rfl _ _), (modes_setDestination ?_ _ _).2⟩
  · exact dac_setSource _ _ _
  · exact dac_setSource _ _ _

theorem dstSize_iphcHeader_ne {ipHeader : Ipv6Header} {found : Fin 16 × ContextEntry} (hmulti : ipHeader.destination.isMulticast = true)
    (hcontext : d.findMulticastCompressionContext ipHeader.destination = some found) (nh : Bool) (src dst : MacAddress) :
    dstSize (d.iphcHeader ipHeader nh src dst).modes ≠ dstWritten (d.iphcHeader ipHeader nh src dst).modes := by
  have hset (h : SixLowPanIphc) : dstSize (d.setDestination h ipHeader.destination dst).modes = 6 ∧
      dstWritten (d.setDestination h ipHeader.destination dst).modes = 16 := by
    rw [setDestination, hmulti, hcontext]
    exact ⟨rfl, rfl⟩
  rw [iphcHeader, (hset _).1, (hset _).2]
  decide

/-! ## The addresses that come back -/

section
variable (hshared : d.SharedContexts e)
include hshared

theorem contextOf_shared (contextId : Fin 16) : e.contextOf contextId = d.contextOf contextId := by
  rw [contextOf, contextOf, hshared.table]
  cases hfind : d.m_contextTable.find contextId with
  | none => rfl
  | some context =>
    obtain ⟨hnow, hnow'⟩ := hshared.valid contextId context hfind
    simp only [if_neg (not_lt_of_gt hnow), if_neg (not_lt_of_gt hnow')]

theorem getSource_shared (x : SixLowPanIphc) (src : MacAddress) : e.getSource x src = d.getSource x src := by
  rw [getSource, getSource, contextOf_shared hshared]

theorem getDestination_shared (x : SixLowPanIphc) (dst : MacAddress) : e.getDestination x dst = d.getDestination x dst := by
  rw [getDestination, getDestination, contextOf_shared hshared]

end

theorem unicastBack_iff (hset : d.autoconfigurationAborts a mac = false) : d.unicastBack a mac = some a ↔
    ∀ contextId context, d.findUnicastCompressionContext a = some (contextId, context) → ContextKeeps context.contextPrefix mac a := by
  rw [unicastBack_iff_keepsUnicast]
  constructor
  · intro hkeeps contextId context hfound
    exact (hkeeps contextId context hfound).2
  · intro hall contextId context hfound
    rw [autoconfigurationAborts, hfound] at hset
    exact ⟨of_decide_eq_false hset, hall contextId context hfound⟩

/-- The addresses of a header that are compressed with a context come back, and the header is read as it was written. -/
def Rebuilt (d e : SixLowPanNetDevice) (ipHeader : Ipv6Header) (nh : Bool) (src dst : MacAddress) (packet : Bytes) : Prop :=
  ∃ compressed x size, (d.iphcHeader ipHeader nh src dst).addTo packet = some compressed ∧
    SixLowPanIphc.deserialize compressed = some (x, size) ∧ ReadsExactly compressed size ∧ compressed.drop size = packet ∧
      (x.modes.sac = true → e.getSource x src = some ipHeader.source) ∧
        (x.modes.dac = true → e.getDestination x dst = some (some ipHeader.destination))

/-- What the contexts must leave of the addresses of a header. -/
structure ContextsKeep (d : SixLowPanNetDevice) (ipHeader : Ipv6Header) (src dst : MacAddress) : Prop where
  source : ipHeader.source ≠ .getAny → ∀ contextId context,
    d.findUnicastCompressionContext ipHeader.source = some (contextId, context) → ContextKeeps context.contextPrefix src ipHeader.source
  destination : ipHeader.destination.isMulticast = false → ∀ contextId context,
    d.findUnicastCompressionContext ipHeader.destination = some (contextId, context) →
      ContextKeeps context.contextPrefix dst ipHeader.destination
  multicast : d.NoMulticastContext ipHeader.destination

section
variable {ipHeader : Ipv6Header} {nh : Bool} {src dst : MacAddress} {packet : Bytes}

theorem not_rebuilt (hcontext : ¬d.NoMulticastContext ipHeader.destination) : ¬Rebuilt d e ipHeader nh src dst packet := by
  obtain ⟨hmulti, hfound⟩ := Classical.not_imp.mp hcontext
  obtain ⟨found, hfound⟩ := ne_none_iff_exists'.mp hfound
  have hne := dstSize_iphcHeader_ne hmulti hfound nh src dst
  intro hrebuilt
  obtain ⟨compressed, x, size, hadd, hread, hexact, -⟩ := hrebuilt
  rw [addTo] at hadd
  obtain ⟨-, hcompressed⟩ := ite_none_right_eq_some.mp hadd
  cases hcompressed
  rw [deserialize_serialize] at hread
  cases hread
  exact hne ((readsExactly_iff _ _).mp hexact)

/-- What is compressed with contexts comes back exactly where the contexts keep the addresses. -/
theorem rebuilt_iff (hshared : d.SharedContexts e) (hset : d.addressesAbort ipHeader src dst = false) (nh : Bool) (packet : Bytes) :
    Rebuilt d e ipHeader nh src dst packet ↔ ContextsKeep d ipHeader src dst := by
  by_cases hnone : d.NoMulticastContext ipHeader.destination
  · obtain ⟨hsrc, hdst⟩ := not_aborts hset
    obtain ⟨tf, ecn, dscp, label, htf⟩ := setTf_frame ipHeader.flowLabel ipHeader.trafficClass
    obtain ⟨x, heq, -, hsource, hdestination, -, -, -, hsize⟩ := iphcHeader_fields hnone nh hset htf
    have hmodes := modes_iphcHeader (d := d) ipHeader nh src dst
    have hadd := addTo_eq (h := x) (length_serialize x hsize) packet
    rw [Rebuilt, heq, hadd]
    rw [heq] at hmodes
    constructor
    · intro hrebuilt
      obtain ⟨compressed, y, size, hcompressed, hread, -, -, hsac, hdac⟩ := hrebuilt
      cases hcompressed
      rw [deserialize_serialize] at hread
      cases hread
      rw [getSource_shared hshared, hsource] at hsac
      rw [getDestination_shared hshared, hdestination] at hdac
      refine ⟨fun hany contextId context hfound => ?_, fun hmulti contextId context hfound => ?_, hnone⟩
      · have hback := hsac (by rw [received, hmodes.1, hfound]; simp)
        rw [sourceBack, if_neg hany] at hback
        exact (unicastBack_iff (hsrc hany)).mp hback contextId context hfound
      · have hback := hdac (by rw [received, hmodes.2, hmulti, hfound]; rfl)
        rw [destinationBack, hmulti] at hback
        exact (unicastBack_iff (hdst hmulti)).mp (Option.some.inj hback) contextId context hfound
    · intro hkeep
      refine ⟨_, x.received, x.getSerializedSize, rfl, deserialize_serialize .., (readsExactly_iff _ _).mpr hsize,
        drop_left' (length_serialize x hsize), fun _ => ?_, fun _ => ?_⟩
      · rw [getSource_shared hshared, hsource, sourceBack]
        by_cases hany : ipHeader.source = .getAny
        · rw [if_pos hany]
        · rw [if_neg hany]
          exact (unicastBack_iff (hsrc hany)).mpr (hkeep.source hany)
      · rw [getDestination_shared hshared, hdestination, destinationBack]
        cases hmulti : ipHeader.destination.isMulticast with
        | true => rfl
        | false => exact congrArg some ((unicastBack_iff (hdst hmulti)).mpr (hkeep.destination hmulti))
  · constructor
    · intro hrebuilt
      exact absurd hrebuilt (not_rebuilt hnone)
    · intro hkeep
      exact absurd hkeep.multicast hnone

end

end

/-! ## Two contexts -/

def contextDevice (prefixLength : UInt8) : SixLowPanNetDevice where
  m_contextTable := OrdMap.empty.insert 3
    ⟨⟨.ofBytes [0x20, 0x01, 0x0d, 0xb8], prefixLength⟩, true, 10⟩
  now := 0
  m_omitUdpChecksum := false
  checksumEnabled := true

theorem contextDevice_shared (prefixLength : UInt8) : (contextDevice prefixLength).SharedContexts (contextDevice prefixLength) := by
  refine ⟨rfl, fun contextId context hfind => ?_⟩
  rw [contextDevice, OrdMap.find_insert, OrdMap.find_empty] at hfind
  obtain ⟨-, hcontext⟩ := ite_none_right_eq_some.mp hfind
  cases hcontext
  have hvalid : (0 : Int) < 10 := by decide
  exact ⟨hvalid, hvalid⟩

def fromPrefix (subnet : UInt8) : Ipv6Header where
  trafficClass := 0
  flowLabel := 0
  payloadLength := 0
  nextHeader := 59
  hopLimit := 64
  source := .ofBytes [0x20, 0x01, 0x0d, 0xb8, 0, 0, 0, subnet, 0, 0, 0, 0, 0, 0, 0, 5]
  destination := .ofBytes (multicastAddrChecker ++ [1])

theorem fullPrefix_rebuilt : Rebuilt (contextDevice 64) (contextDevice 64) (fromPrefix 0) false plainMac plainMac [] := by
  refine (rebuilt_iff (contextDevice_shared 64) (by decide) false []).mpr ⟨fun _ contextId context hfound => ?_, fun hmulti => ?_, ?_⟩
  · have hcontext : (contextDevice 64).findUnicastCompressionContext (fromPrefix 0).source =
        some (3, ⟨⟨.ofBytes [0x20, 0x01, 0x0d, 0xb8], 64⟩, true, 10⟩) := by decide
    rw [hcontext] at hfound
    obtain ⟨rfl, rfl⟩ := Prod.mk.inj (Option.some.inj hfound)
    exact ⟨by decide, fun i hi hle => absurd hi (not_lt_of_ge hle), fun _ _ _ _ _ hbits => absurd rfl hbits⟩
  · cases hmulti
  · intro _
    decide

/-- The subnet between a prefix of 32 bits and the interface identifier is lost. -/
theorem subnet_lost : (contextDevice 32).SharedContexts (contextDevice 32) ∧
    (contextDevice 32).addressesAbort (fromPrefix 1) plainMac plainMac = false ∧
      ¬Rebuilt (contextDevice 32) (contextDevice 32) (fromPrefix 1) false plainMac plainMac [] := by
  refine ⟨contextDevice_shared 32, by decide, fun hrebuilt => ?_⟩
  obtain ⟨compressed, x, size, hadd, hread, -, -, hsac, -⟩ := hrebuilt
  have hother : (((contextDevice 32).iphcHeader (fromPrefix 1) false plainMac plainMac).addTo []).bind (fun compressed =>
      (SixLowPanIphc.deserialize compressed).map fun r =>
        (r.1.modes.sac, (contextDevice 32).getSource r.1 plainMac)) = some (true, some (fromPrefix 0).source) := by
    decide
  rw [hadd, bind_some, hread, map_some] at hother
  obtain ⟨hstateful, hsource⟩ := Prod.mk.inj (Option.some.inj hother)
  rw [hsac hstateful] at hsource
  exact absurd hsource (by decide)

end SixLowPanNetDevice

end Ns3
