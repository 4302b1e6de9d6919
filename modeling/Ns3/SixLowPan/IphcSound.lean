import Ns3.SixLowPan.Compression

/-!
# IPHC without contexts

Where no context matches an address, each field of a header is read back from
the compressed header as it was when the compressor read it. The compressor
reads no flow label.
-/

namespace Ns3

open Ipv6Address List Option

namespace SixLowPanNetDevice

open TrafficClassFlowLabel Hlim HeaderCompression SixLowPanIphc

/-! ## Addresses -/

section
variable (a : Ipv6Address) (mac : MacAddress)

def unicastSize : HeaderCompression → Nat
  | HC_INLINE => 16
  | HC_COMPR_64 => 8
  | HC_COMPR_16 => 2
  | HC_COMPR_0 => 0

def multicastSize : HeaderCompression → Nat
  | HC_INLINE => 16
  | HC_COMPR_64 => 6
  | HC_COMPR_16 => 4
  | HC_COMPR_0 => 1

theorem length_drop_bytes (n : Nat) : (a.bytes.drop n).length = 16 - n := by
  rw [length_drop, a.length_bytes]

theorem decompressStateless_compressStateless : decompressStateless (compressStateless a mac).1
      (inlineBytes (unicastSize (compressStateless a mac).1) (compressStateless a mac).2) mac = a := by
  rw [compressStateless]
  by_cases hmac : a = .makeAutoconfiguredLinkLocalAddress mac
  · rw [if_pos hmac]
    exact hmac.symm
  · rw [if_neg hmac]
    by_cases hchecker : a.bytes.take 14 = unicastAddrChecker
    · rw [if_pos hchecker]
      have hpart := inlineBytes_eq (length_drop_bytes a 14)
      simp only [decompressStateless, unicastSize, hpart]
      refine ofBytes_eq ?_
      rw [← hchecker, take_append_drop]
    · rw [if_neg hchecker]
      by_cases hlocal : a.isLinkLocal = true
      · rw [if_pos hlocal]
        have hpart := inlineBytes_eq (length_drop_bytes a 8)
        have hprefix : a.bytes.take 8 = linkLocalPrefix := of_decide_eq_true hlocal
        simp only [decompressStateless, unicastSize, hpart]
        refine ofBytes_eq ?_
        rw [← hprefix, take_append_drop]
      · rw [if_neg hlocal]
        simp only [decompressStateless, unicastSize, inlineBytes_eq a.length_bytes]
        exact ofBytes_eq rfl

theorem bytes_pieces (n : Nat) :
    a.bytes = a.bytes.take 1 ++ (a.bytes.drop 1).take 1 ++ (a.bytes.drop 2).take n ++ a.bytes.drop (2 + n) := by
  have htail : (a.bytes.drop 2).take n ++ a.bytes.drop (2 + n) = a.bytes.drop 2 := by
    rw [← drop_drop, take_append_drop]
  have hsecond : (a.bytes.drop 1).take 1 ++ a.bytes.drop 2 = a.bytes.drop 1 := by
    rw [show (2 : Nat) = 1 + 1 from rfl, ← drop_drop, take_append_drop]
  rw [append_assoc, htail, append_assoc, hsecond, take_append_drop]

theorem take_one_of_multicast (h : a.isMulticast = true) : a.bytes.take 1 = [0xff] := by
  have hhead : a.bytes.head? = some 0xff := of_decide_eq_true h
  cases hbytes : a.bytes with
  | nil =>
    rw [hbytes] at hhead
    cases hhead
  | cons byte bytes =>
    rw [hbytes] at hhead
    rw [Option.some.inj hhead]
    rfl

theorem decompressMulticast_compressMulticast (hmulti : a.isMulticast = true) :
    decompressMulticast (compressMulticast a).1
      (inlineBytes (multicastSize (compressMulticast a).1) (compressMulticast a).2) = a := by
  have hone := take_one_of_multicast a hmulti
  have hsecond : ((a.bytes.drop 1).take 1).length = 1 := by
    rw [length_take, length_drop_bytes]
    rfl
  rw [compressMulticast]
  by_cases hchecker : a.bytes.take 15 = multicastAddrChecker
  · rw [if_pos hchecker]
    have hpart := inlineBytes_eq (length_drop_bytes a 15)
    simp only [decompressMulticast, multicastSize, hpart]
    refine ofBytes_eq ?_
    rw [← hchecker, take_append_drop]
  · rw [if_neg hchecker]
    -- a mode with `n` zeros behind the second byte
    have hpieces : ∀ n, n ≤ 14 → (a.bytes.drop 2).take n = replicate n 0 →
        ofBytes ([0xff] ++ inlineBytes 1 ((a.bytes.drop 1).take 1 ++ a.bytes.drop (2 + n)) ++ replicate n 0 ++
          ((a.bytes.drop 1).take 1 ++ a.bytes.drop (2 + n)).drop 1) = a := by
      intro n hn hzeros
      refine ofBytes_eq ?_
      have hfirst : inlineBytes 1 ((a.bytes.drop 1).take 1 ++ a.bytes.drop (2 + n)) = (a.bytes.drop 1).take 1 := by
        rw [inlineBytes, append_assoc]
        exact take_left' hsecond
      rw [hfirst, drop_left' hsecond, ← hone, ← hzeros]
      exact (bytes_pieces a n).symm
    have hlength : ∀ n, n ≤ 14 → ((a.bytes.drop 1).take 1 ++ a.bytes.drop (2 + n)).length = 15 - n := by
      intro n hn
      rw [length_append, hsecond, length_drop_bytes]
      omega
    by_cases heleven : a.bytes.head? = some 0xff ∧ (a.bytes.drop 2).take 11 = replicate 11 0
    · rw [if_pos heleven]
      have hpart := inlineBytes_eq (hlength 11 (by decide))
      simp only [decompressMulticast, multicastSize]
      rw [hpart, hpart]
      exact hpieces 11 (by decide) heleven.2
    · rw [if_neg heleven]
      by_cases hnine : a.bytes.head? = some 0xff ∧ (a.bytes.drop 2).take 9 = replicate 9 0
      · rw [if_pos hnine]
        have hpart := inlineBytes_eq (hlength 9 (by decide))
        simp only [decompressMulticast, multicastSize]
        rw [hpart, hpart]
        exact hpieces 9 (by decide) hnine.2
      · rw [if_neg hnine]
        simp only [decompressMulticast, multicastSize, inlineBytes_eq a.length_bytes]
        exact ofBytes_eq rfl

end

/-! ## The fields -/

section
variable {d : SixLowPanNetDevice} {h x : SixLowPanIphc}

def unicastBack (d : SixLowPanNetDevice) (a : Ipv6Address) (mac : MacAddress) : Option Ipv6Address :=
  match d.findUnicastCompressionContext a with
  | none => some a
  | some (contextId, context) =>
    if makeAutoconfiguredAddress mac context.contextPrefix = .getAny then none
    else
      (d.contextOf contextId).map fun known =>
        let (mode, part) := compressStateful a mac context
        decompressStateful mode (inlineBytes (unicastSize mode) part) mac known

def sourceBack (d : SixLowPanNetDevice) (a : Ipv6Address) (src : MacAddress) : Option Ipv6Address :=
  if a = .getAny then some a else d.unicastBack a src

/-- What comes back of a destination for which no multicast context is found. -/
def destinationBack (d : SixLowPanNetDevice) (a : Ipv6Address) (dst : MacAddress) : Option Ipv6Address :=
  if a.isMulticast then some a else d.unicastBack a dst

def NoMulticastContext (d : SixLowPanNetDevice) (destination : Ipv6Address) : Prop :=
  destination.isMulticast = true → d.findMulticastCompressionContext destination = none

theorem setTf_spec (trafficClass : UInt8) : ∃ tf ecn dscp,
    setTf {} 0 trafficClass = { modes := { tf := tf }, m_ecn := ecn, m_dscp := dscp } ∧
      ∀ x : SixLowPanIphc, x.modes.tf = tf → (tf ≠ TF_ELIDED → x.m_ecn = ecn) →
        (tf ≠ TF_ELIDED ∧ tf ≠ TF_DSCP_ELIDED → x.m_dscp = dscp) → getTf x = (trafficClass, 0) := by
  have hlt := trafficClass.toNat_lt
  rw [setTf]
  by_cases hzero : trafficClass = 0
  · rw [if_pos ⟨rfl, hzero⟩]
    refine ⟨TF_ELIDED, 0, 0, rfl, fun x htf _ _ => ?_⟩
    rw [getTf, htf, hzero]
  · rw [if_neg fun h => hzero h.2, if_neg fun h => h.1 rfl, if_pos ⟨rfl, hzero⟩]
    refine ⟨TF_FL_ELIDED, _, _, rfl, fun x htf hecn hdscp => ?_⟩
    have hhigh : (trafficClass.toNat &&& 0xc0) >>> 6 = trafficClass.toNat / 2 ^ 6 % 2 ^ 2 := field_get _ 2 6 rfl
    have hlow : trafficClass.toNat &&& 0x3f = trafficClass.toNat % 2 ^ 6 := Nat.and_two_pow_sub_one_eq_mod _ 6
    rw [getTf, htf]
    simp only [hecn (by decide), hdscp (by decide), hhigh, hlow, BitVec.toNat_ofNat, Nat.shiftLeft_eq]
    rw [or_eq_add 6 (by omega) (by omega)]
    refine congrArg₂ Prod.mk (UInt8.toNat_inj.mp ?_) rfl
    rw [UInt8.toNat_ofNat']
    omega

theorem setHlim_spec (hopLimit : UInt8) : ∃ hlim, ∃ inline, (∀ h : SixLowPanIphc, h.m_hopLimit = 0 →
    setHlim h hopLimit = { h with modes := { h.modes with hlim := hlim }, m_hopLimit := inline }) ∧
      ∀ x : SixLowPanIphc, x.modes.hlim = hlim → x.m_hopLimit = inline → x.received.m_hopLimit = hopLimit := by
  by_cases hone : hopLimit = 1
  · refine ⟨HLIM_COMPR_1, 0, fun h hzero => ?_, fun x hx _ => ?_⟩
    · rw [setHlim, if_pos hone, ← hzero]
    · rw [received, hx, hone]
  · by_cases hsixtyFour : hopLimit = 0x40
    · refine ⟨HLIM_COMPR_64, 0, fun h hzero => ?_, fun x hx _ => ?_⟩
      · rw [setHlim, if_neg hone, if_pos hsixtyFour, ← hzero]
      · rw [received, hx, hsixtyFour]
    · by_cases hmax : hopLimit = 0xff
      · refine ⟨HLIM_COMPR_255, 0, fun h hzero => ?_, fun x hx _ => ?_⟩
        · rw [setHlim, if_neg hone, if_neg hsixtyFour, if_pos hmax, ← hzero]
        · rw [received, hx, hmax]
      · refine ⟨HLIM_INLINE, hopLimit, fun h _ => ?_, fun x hx hinline => ?_⟩
        · rw [setHlim, if_neg hone, if_neg hsixtyFour, if_neg hmax]
        · rw [received, hx]
          exact hinline

theorem compressStateful_ne_inline (a : Ipv6Address) (mac : MacAddress) (context : ContextEntry) :
    (compressStateful a mac context).1 ≠ HC_INLINE := by
  rw [compressStateful]
  by_cases hauto : makeAutoconfiguredAddress mac context.contextPrefix = a
  · rw [if_pos hauto]
    exact nofun
  · rw [if_neg hauto]
    by_cases hshort : ((cleanPrefix a context.contextPrefix).bytes.drop 8).take 6 = [0, 0, 0, 0xff, 0xfe, 0]
    · simp only [if_pos hshort]
      exact nofun
    · simp only [if_neg hshort]
      exact nofun

theorem srcSize_eq {x : IphcModes} (h : x.sac = false ∨ x.sam ≠ HC_INLINE) : srcSize x = unicastSize x.sam := by
  rw [srcSize]
  cases hsam : x.sam with
  | HC_INLINE =>
    rw [h.resolve_right fun hne => hne hsam]
    rfl
  | _ => rfl

theorem dstWritten_eq (x : IphcModes) : dstWritten x = if x.m then multicastSize x.dam else unicastSize x.dam := by
  rw [dstWritten]
  cases x.m <;> cases x.dam <;> rfl

theorem dstSize_eq {x : IphcModes} (h : x.dac = false ∨ x.m = false ∧ x.dam ≠ HC_INLINE) : dstSize x = dstWritten x := by
  rw [dstSize, dstWritten]
  cases h with
  | inl hdac =>
    rw [hdac]
    cases x.m <;> cases x.dam <;> rfl
  | inr hstateful =>
    rw [hstateful.1]
    cases hdam : x.dam with
    | HC_INLINE => exact absurd hdam hstateful.2
    | _ => rfl

theorem contextIds_read (sid did : Fin 16) (x : SixLowPanIphc) (hcid : x.modes.cid = (decide (sid ≠ 0) || decide (did ≠ 0)))
    (hids : x.m_srcdstContextId = UInt8.ofNat (sid.val <<< 4) ||| UInt8.ofNat (did.val &&& 0xf)) :
    x.received.getSrcContextId = sid ∧ x.received.getDstContextId = did := by
  have hread : ∀ s t : Fin 16,
      let ids := if (decide (s ≠ 0) || decide (t ≠ 0)) = true then UInt8.ofNat (s.val <<< 4) ||| UInt8.ofNat (t.val &&& 0xf) else 0
      Fin.ofNat 16 (ids.toNat >>> 4) = s ∧ Fin.ofNat 16 (ids.toNat &&& 0xf) = t := by
    decide +kernel
  rw [getSrcContextId, getDstContextId, received, hcid, hids]
  exact hread sid did

theorem unicastBack_of_found {a : Ipv6Address} {mac : MacAddress} {contextId : Fin 16} {context : ContextEntry}
    (hcontext : d.findUnicastCompressionContext a = some (contextId, context)) (hset : d.autoconfigurationAborts a mac = false) :
    d.unicastBack a mac = (d.contextOf contextId).map fun known => decompressStateful (compressStateful a mac context).1
        (inlineBytes (unicastSize (compressStateful a mac context).1) (compressStateful a mac context).2) mac known := by
  rw [autoconfigurationAborts, hcontext] at hset
  rw [unicastBack, hcontext]
  exact if_neg (of_decide_eq_false hset)

theorem setSource_spec (d : SixLowPanNetDevice) (a : Ipv6Address) (src : MacAddress) :
    ∃ (contextId : Fin 16) (sac : Bool) (sam : HeaderCompression) (part : Bytes),
      (∀ h : SixLowPanIphc, h.modes.sac = false → h.m_srcInlinePart = [] → d.setSource h a src = { h with
          modes := { h.modes with sac := sac, sam := sam, cid := h.modes.cid || contextId ≠ 0 }
          m_srcdstContextId := h.m_srcdstContextId ||| UInt8.ofNat (contextId.val <<< 4)
          m_srcInlinePart := part }) ∧
      ∀ x : SixLowPanIphc, x.modes.sac = sac → x.modes.sam = sam → x.m_srcInlinePart = part →
        x.received.getSrcContextId = contextId → (a ≠ .getAny → d.autoconfigurationAborts a src = false) →
          d.getSource x.received src = d.sourceBack a src := by
  have hnone : ∀ ids : UInt8, ids ||| UInt8.ofNat ((0 : Fin 16).val <<< 4) = ids := fun ids => UInt8.or_zero
  by_cases hany : a = .getAny
  · refine ⟨0, true, HC_INLINE, [], fun h _ hpart => ?_, fun x hsac hsam _ _ _ => ?_⟩
    · rw [setSource, if_pos hany, ← hpart, hnone]
      simp
    · rw [getSource, received, hsac, if_pos rfl, hsam, if_pos rfl, sourceBack, if_pos hany, hany]
  · cases hcontext : d.findUnicastCompressionContext a with
    | none =>
      refine ⟨0, false, (compressStateless a src).1, (compressStateless a src).2, fun h hsac _ => ?_,
        fun x hsac hsam hpart _ _ => ?_⟩
      · rw [setSource, if_neg hany, hcontext, ← hsac, hnone]
        simp
      · rw [sourceBack, if_neg hany, unicastBack, hcontext]
        simp only [getSource, received, hsac, Bool.false_eq_true, if_false, srcSize_eq (.inl hsac), hsam, hpart,
          decompressStateless_compressStateless]
    | some found =>
      obtain ⟨contextId, context⟩ := found
      have hinline := compressStateful_ne_inline a src context
      refine ⟨contextId, true, (compressStateful a src context).1, (compressStateful a src context).2, fun h _ _ => ?_,
        fun x hsac hsam hpart hid hset => ?_⟩
      · rw [setSource, if_neg hany, hcontext]
      · rw [sourceBack, if_neg hany, unicastBack_of_found hcontext (hset hany), getSource, hid]
        simp only [received, hsac, if_true, hsam, if_neg hinline, srcSize_eq (.inr (hsam ▸ hinline)), hpart]

theorem setDestination_spec {a : Ipv6Address} (hnone : d.NoMulticastContext a) (dst : MacAddress) :
    ∃ (contextId : Fin 16) (m dac : Bool) (dam : HeaderCompression) (part : Bytes), (dac = false ∨ m = false ∧ dam ≠ HC_INLINE) ∧
      (∀ h : SixLowPanIphc, h.modes.m = false → h.modes.dac = false → d.setDestination h a dst = { h with
          modes := { h.modes with m := m, dac := dac, dam := dam, cid := h.modes.cid || contextId ≠ 0 }
          m_srcdstContextId := h.m_srcdstContextId ||| UInt8.ofNat (contextId.val &&& 0xf)
          m_dstInlinePart := part }) ∧
      ∀ x : SixLowPanIphc, x.modes.m = m → x.modes.dac = dac → x.modes.dam = dam → x.m_dstInlinePart = part →
        x.received.getDstContextId = contextId → (a.isMulticast = false → d.autoconfigurationAborts a dst = false) →
          d.getDestination x.received dst = some (d.destinationBack a dst) := by
  have hzero : ∀ ids : UInt8, ids ||| UInt8.ofNat ((0 : Fin 16).val &&& 0xf) = ids := fun ids => UInt8.or_zero
  cases hmulti : a.isMulticast with
  | true =>
    refine ⟨0, true, false, (compressMulticast a).1, (compressMulticast a).2, .inl rfl, fun h _ hdac => ?_,
      fun x hm hdac hdam hpart _ _ => ?_⟩
    · rw [setDestination, hmulti, hnone hmulti, ← hdac, hzero]
      simp
    · rw [destinationBack, hmulti]
      simp only [getDestination, received, hdac, Bool.false_eq_true, if_false, hm, Bool.not_true, dstWritten_eq, if_true, hdam, hpart,
        decompressMulticast_compressMulticast a hmulti]
  | false =>
    cases hcontext : d.findUnicastCompressionContext a with
    | none =>
      refine ⟨0, false, false, (compressStateless a dst).1, (compressStateless a dst).2, .inl rfl, fun h hm hdac => ?_,
        fun x hm hdac hdam hpart _ _ => ?_⟩
      · simp [setDestination, hmulti, hcontext, hm, hdac]
      · rw [destinationBack, hmulti, unicastBack, hcontext]
        simp only [getDestination, received, hdac, Bool.false_eq_true, if_false, hm, Bool.not_false, dstWritten_eq, if_true, hdam,
          hpart, decompressStateless_compressStateless]
    | some found =>
      obtain ⟨contextId, context⟩ := found
      have hinline := compressStateful_ne_inline a dst context
      refine ⟨contextId, false, true, (compressStateful a dst context).1, (compressStateful a dst context).2, .inr ⟨rfl, hinline⟩,
        fun h hm _ => ?_, fun x hm hdac hdam hpart hid hset => ?_⟩
      · simp [setDestination, hmulti, hcontext, hm]
      · rw [destinationBack, hmulti, unicastBack_of_found hcontext (hset rfl), getDestination, hid]
        simp [received, hdac, hdam, hinline, hm, dstWritten_eq, hpart]

structure ReadsBack (d : SixLowPanNetDevice) (ipHeader : Ipv6Header) (nh : Bool) (src dst : MacAddress) (x : SixLowPanIphc) : Prop where
  source : d.getSource x src = d.sourceBack ipHeader.source src
  destination : d.getDestination x dst = some (d.destinationBack ipHeader.destination dst)
  tf : getTf x = (ipHeader.trafficClass, 0)
  hlim : x.m_hopLimit = ipHeader.hopLimit
  next : x.modes.nh = nh
  nextHeader : nh = false → x.m_nextHeader = ipHeader.nextHeader

theorem not_aborts {ipHeader : Ipv6Header} {src dst : MacAddress} (hset : d.addressesAbort ipHeader src dst = false) :
    (ipHeader.source ≠ .getAny → d.autoconfigurationAborts ipHeader.source src = false) ∧
      (ipHeader.destination.isMulticast = false → d.autoconfigurationAborts ipHeader.destination dst = false) := by
  simp only [addressesAbort, Bool.or_eq_false_iff, Bool.and_eq_false_iff, decide_eq_false_iff_not, Bool.not_eq_eq_eq_not,
    Bool.not_false] at hset
  refine ⟨fun hne => hset.1.resolve_left fun hany => hany hne, fun hmulti => hset.2.resolve_left fun h => ?_⟩
  rw [hmulti] at h
  cases h

theorem iphcHeader_fields {ipHeader : Ipv6Header} (hnone : d.NoMulticastContext ipHeader.destination) (nh : Bool) {src dst : MacAddress}
    (hset : d.addressesAbort ipHeader src dst = false) {tf : TrafficClassFlowLabel} {ecn : BitVec 2} {dscp : BitVec 6}
    {label : BitVec 20} (htf : setTf {} ipHeader.flowLabel ipHeader.trafficClass =
      { modes := { tf := tf }, m_ecn := ecn, m_dscp := dscp, m_flowLabel := label }) :
    ∃ x, d.iphcHeader ipHeader nh src dst = x ∧ (x.modes.tf = tf ∧ x.m_ecn = ecn ∧ x.m_dscp = dscp) ∧
      d.getSource x.received src = d.sourceBack ipHeader.source src ∧
      d.getDestination x.received dst = some (d.destinationBack ipHeader.destination dst) ∧
      x.received.m_hopLimit = ipHeader.hopLimit ∧ x.modes.nh = nh ∧ (nh = false → x.received.m_nextHeader = ipHeader.nextHeader) ∧
      dstSize x.modes = dstWritten x.modes := by
  obtain ⟨hlim, inline, hhlim, hgetHlim⟩ := setHlim_spec ipHeader.hopLimit
  obtain ⟨sid, sac, sam, srcPart, hsource, hgetSource⟩ := setSource_spec d ipHeader.source src
  obtain ⟨did, m, dac, dam, dstPart, hstateful, hdestination, hgetDestination⟩ := setDestination_spec hnone dst
  obtain ⟨hsrc, hdst⟩ := not_aborts hset
  have heq : d.iphcHeader ipHeader nh src dst =
      ⟨⟨tf, nh, hlim, decide (sid ≠ 0) || decide (did ≠ 0), sac, sam, m, dac, dam⟩,
        UInt8.ofNat (sid.val <<< 4) ||| UInt8.ofNat (did.val &&& 0xf), ecn, dscp, label, if nh then 0 else ipHeader.nextHeader, inline,
        srcPart, dstPart⟩ := by
    rw [iphcHeader, htf]
    rw [hhlim _ rfl, hsource _ rfl rfl, hdestination _ rfl rfl]
    simp
  have hids := contextIds_read sid did
  refine ⟨_, heq, ⟨rfl, rfl, rfl⟩, hgetSource _ rfl rfl rfl (hids _ rfl rfl).1 hsrc,
    hgetDestination _ rfl rfl rfl rfl (hids _ rfl rfl).2 hdst, hgetHlim _ rfl rfl, rfl, fun hnh => ?_, dstSize_eq hstateful⟩
  rw [hnh]
  rfl

theorem iphcHeader_readsBack (ipHeader : Ipv6Header) (hlabel : ipHeader.flowLabel = 0) (hnone : d.NoMulticastContext ipHeader.destination)
    (nh : Bool) (src dst : MacAddress) (hset : d.addressesAbort ipHeader src dst = false) :
    d.ReadsBack ipHeader nh src dst (d.iphcHeader ipHeader nh src dst).received ∧
      (d.iphcHeader ipHeader nh src dst).serialize.length = (d.iphcHeader ipHeader nh src dst).getSerializedSize := by
  obtain ⟨tf, ecn, dscp, htf, hgetTf⟩ := setTf_spec ipHeader.trafficClass
  have hread : setTf {} ipHeader.flowLabel ipHeader.trafficClass =
      { modes := { tf := tf }, m_ecn := ecn, m_dscp := dscp, m_flowLabel := 0 } := by
    rw [hlabel]
    exact htf
  obtain ⟨x, heq, ⟨htf', hecn, hdscp⟩, hsource, hdestination, hhlim, hnext, hnextHeader, hsize⟩ :=
    iphcHeader_fields hnone nh hset hread
  rw [heq]
  refine ⟨⟨hsource, hdestination, hgetTf _ htf' (fun hne => ?_) (fun hne => ?_), hhlim, hnext, hnextHeader⟩, length_serialize _ hsize⟩
  · rw [received, htf', if_neg hne, hecn]
  · rw [received, htf', if_neg (not_or.mpr hne), hdscp]

end

/-! ## Packets -/

section
variable {d : SixLowPanNetDevice} {ipHeader : Ipv6Header} {src dst : MacAddress}

theorem not_addressesAbort {source destination : Ipv6Address} (hsource : d.sourceBack ipHeader.source src = some source)
    (hdestination : d.destinationBack ipHeader.destination dst = some destination) : d.addressesAbort ipHeader src dst = false := by
  have hback : ∀ {a b : Ipv6Address} {mac : MacAddress}, d.unicastBack a mac = some b → d.autoconfigurationAborts a mac = false := by
    intro a b mac hunicast
    rw [unicastBack] at hunicast
    rw [autoconfigurationAborts]
    cases hcontext : d.findUnicastCompressionContext a with
    | none => rfl
    | some found =>
      rw [hcontext] at hunicast
      simp only at hunicast
      split at hunicast
      · cases hunicast
      · exact decide_eq_false ‹_›
  rw [addressesAbort, Bool.or_eq_false_iff, Bool.and_eq_false_iff, Bool.and_eq_false_iff]
  constructor
  · by_cases hany : ipHeader.source = .getAny
    · exact .inl (decide_eq_false (not_not_intro hany))
    · rw [sourceBack, if_neg hany] at hsource
      exact .inr (hback hsource)
  · cases hmulti : ipHeader.destination.isMulticast with
    | true => exact .inl rfl
    | false =>
      rw [destinationBack, hmulti] at hdestination
      exact .inr (hback hdestination)

theorem compressLowPanIphc_of_aborts (hset : d.addressesAbort ipHeader src dst = true) (rounds : Nat) (payload : Bytes) :
    d.compressLowPanIphc src dst (rounds + 1) (ipHeader.serialize ++ payload) = none := by
  have hread : d.addressesAbort { ipHeader with flowLabel := 0 } src dst = true := hset
  rw [compressLowPanIphc, Ipv6Header.deserialize_serialize, bind_some]
  simp only [OfNat.ofNat_ne_zero, if_false, hread, if_true]
  exact bind_fun_none _

theorem compressLowPanIphc_eq (hnone : d.NoMulticastContext ipHeader.destination)
    (hset : d.addressesAbort ipHeader src dst = false) (rounds : Nat) (payload : Bytes) :
    d.compressLowPanIphc src dst (rounds + 1) (ipHeader.serialize ++ payload) =
      (compressNextHeader d (d.compressLowPanIphc src dst rounds) (d.compressLowPanNhc src dst rounds) payload
        ipHeader.nextHeader).map fun (packet, nh, sizeNext) =>
          ((d.iphcHeader { ipHeader with flowLabel := 0 } nh src dst).serialize ++ packet, 40 + sizeNext) := by
  have hdrop : (ipHeader.serialize ++ payload).drop 40 = payload := drop_left' ipHeader.length_serialize
  have hadd : ∀ nh packet, (d.iphcHeader { ipHeader with flowLabel := 0 } nh src dst).addTo packet =
      some ((d.iphcHeader { ipHeader with flowLabel := 0 } nh src dst).serialize ++ packet) :=
    fun nh packet => addTo_eq _ (iphcHeader_readsBack { ipHeader with flowLabel := 0 } rfl hnone nh src dst hset).2 packet
  have hread : d.addressesAbort { ipHeader with flowLabel := 0 } src dst = false := hset
  rw [compressLowPanIphc, Ipv6Header.deserialize_serialize, bind_some]
  simp only [hdrop, OfNat.ofNat_ne_zero, if_false, hread, Bool.false_eq_true, hadd, map_some]
  exact (map_eq_bind ..).symm

variable (ipHeader) in
theorem decompressLowPanIphc_eq (hlabel : ipHeader.flowLabel = 0) (hnone : d.NoMulticastContext ipHeader.destination)
    {source destination : Ipv6Address} (hsource : d.sourceBack ipHeader.source src = some source)
    (hdestination : d.destinationBack ipHeader.destination dst = some destination) (rounds : Nat) (nh : Bool) (packet : Bytes) :
    d.decompressLowPanIphc src dst (rounds + 1) ((d.iphcHeader ipHeader nh src dst).serialize ++ packet) =
      (if nh then d.decompressNextHeader (d.decompressLowPanNhc src dst rounds source destination) packet source destination
        else some (packet, ipHeader.nextHeader, false)).map fun
          | (packet, _, true) => (packet, true)
          | (packet, nextHeader, false) =>
            (({ ipHeader with
                payloadLength := UInt16.ofNat packet.length
                nextHeader := nextHeader
                source := source
                destination := destination } : Ipv6Header).serialize ++ packet, false) := by
  obtain ⟨hback, hlength⟩ := iphcHeader_readsBack _ hlabel hnone nh src dst (not_addressesAbort hsource hdestination)
  have hdrop : ((d.iphcHeader ipHeader nh src dst).serialize ++ packet).drop (d.iphcHeader ipHeader nh src dst).getSerializedSize =
      packet := drop_left' hlength
  rw [decompressLowPanIphc, SixLowPanIphc.deserialize_serialize, bind_some]
  simp only [hdrop, hback.source, hback.destination, hsource, hdestination, bind_some, hback.next, hback.tf, hback.hlim]
  cases nh with
  | true =>
    rw [← hlabel]
    exact rfl
  | false => simp only [Bool.false_eq_true, if_false, map_some, hback.nextHeader rfl, ← hlabel]

variable (ipHeader) in
theorem decompressLowPanIphc_drop (hlabel : ipHeader.flowLabel = 0) (hnone : d.NoMulticastContext ipHeader.destination)
    (hset : d.addressesAbort ipHeader src dst = false)
    (hlost : d.sourceBack ipHeader.source src = none ∨ d.destinationBack ipHeader.destination dst = none) (rounds : Nat) (nh : Bool)
    (packet : Bytes) :
    d.decompressLowPanIphc src dst (rounds + 1) ((d.iphcHeader ipHeader nh src dst).serialize ++ packet) = some (packet, true) := by
  obtain ⟨hback, hlength⟩ := iphcHeader_readsBack _ hlabel hnone nh src dst hset
  have hdrop : ((d.iphcHeader ipHeader nh src dst).serialize ++ packet).drop (d.iphcHeader ipHeader nh src dst).getSerializedSize =
      packet := drop_left' hlength
  rw [decompressLowPanIphc, SixLowPanIphc.deserialize_serialize, bind_some]
  simp only [hdrop, hback.source, hback.destination]
  cases hsource : d.sourceBack ipHeader.source src with
  | none => rfl
  | some source =>
    rw [hlost.resolve_left (by rw [hsource]; exact nofun)]
    rfl

/-! ## No contexts -/

section
variable (hempty : d.m_contextTable = .empty) (a : Ipv6Address)
include hempty

theorem findUnicast_of_empty : d.findUnicastCompressionContext a = none := by
  rw [findUnicastCompressionContext, hempty]
  rfl

theorem findMulticast_of_empty : d.findMulticastCompressionContext a = none := by
  rw [findMulticastCompressionContext, hempty]
  rfl

theorem noMulticastContext_of_empty : d.NoMulticastContext a := fun _ => findMulticast_of_empty hempty a

theorem unicastBack_of_empty (mac : MacAddress) : d.unicastBack a mac = some a := by
  rw [unicastBack, findUnicast_of_empty hempty]

theorem sourceBack_of_empty (mac : MacAddress) : d.sourceBack a mac = some a := by
  rw [sourceBack, unicastBack_of_empty hempty, ite_self]

theorem destinationBack_of_empty (mac : MacAddress) : d.destinationBack a mac = some a := by
  rw [destinationBack, unicastBack_of_empty hempty, ite_self]

end

theorem not_addressesAbort_of_empty (hempty : d.m_contextTable = .empty) (ipHeader : Ipv6Header) :
    d.addressesAbort ipHeader src dst = false :=
  not_addressesAbort (sourceBack_of_empty hempty _ _) (destinationBack_of_empty hempty _ _)

theorem iphcHeader_congr {e : SixLowPanNetDevice} (hd : d.m_contextTable = .empty) (he : e.m_contextTable = .empty)
    (ipHeader : Ipv6Header) (nh : Bool) : d.iphcHeader ipHeader nh src dst = e.iphcHeader ipHeader nh src dst := by
  have hsource : ∀ h a, d.setSource h a src = e.setSource h a src := by
    intro h a
    rw [setSource, setSource, findUnicast_of_empty hd, findUnicast_of_empty he]
  have hdestination : ∀ h a, d.setDestination h a dst = e.setDestination h a dst := by
    intro h a
    rw [setDestination, setDestination, findUnicast_of_empty hd, findUnicast_of_empty he, findMulticast_of_empty hd,
      findMulticast_of_empty he]
  rw [iphcHeader, iphcHeader]
  simp only [hsource, hdestination]

section
variable {e : SixLowPanNetDevice} {rounds : Nat} {payload : Bytes} (hd : d.m_contextTable = .empty) (he : e.m_contextTable = .empty)
  (hrounds : 0 < rounds) (hnext : canCompressLowPanNhc ipHeader.nextHeader = false)

variable (src dst) in
include hd hrounds hnext in
theorem compressLowPanIphc_plain : d.compressLowPanIphc src dst rounds (ipHeader.serialize ++ payload) =
      some ((d.iphcHeader { ipHeader with flowLabel := 0 } false src dst).serialize ++ payload, 40) := by
  obtain ⟨rounds, rfl⟩ := Nat.exists_eq_add_one_of_ne_zero (Nat.ne_of_gt hrounds)
  have hcompress : compressNextHeader d (d.compressLowPanIphc src dst rounds) (d.compressLowPanNhc src dst rounds) payload
      ipHeader.nextHeader = some (payload, false, 0) := by
    rw [compressNextHeader, hnext]
    rfl
  rw [compressLowPanIphc_eq (noMulticastContext_of_empty hd _) (not_addressesAbort_of_empty hd _), hcompress, map_some]

variable (src dst) in
include he hrounds in
theorem decompressLowPanIphc_plain (hlength : ipHeader.payloadLength.toNat = payload.length) :
    e.decompressLowPanIphc src dst rounds ((e.iphcHeader { ipHeader with flowLabel := 0 } false src dst).serialize ++ payload) =
      some ({ ipHeader with flowLabel := 0 }.serialize ++ payload, false) := by
  obtain ⟨rounds, rfl⟩ := Nat.exists_eq_add_one_of_ne_zero (Nat.ne_of_gt hrounds)
  have hsize : UInt16.ofNat payload.length = ipHeader.payloadLength := by
    rw [← hlength, UInt16.ofNat_toNat]
  rw [decompressLowPanIphc_eq _ rfl (noMulticastContext_of_empty he _) (sourceBack_of_empty he _ _) (destinationBack_of_empty he _ _)]
  simp only [Bool.false_eq_true, if_false, map_some, hsize]

end

/-- Compression without contexts loses the flow label of a header and nothing else. -/
theorem iphc_lossless_iff {e : SixLowPanNetDevice} (hd : d.m_contextTable = .empty) (he : e.m_contextTable = .empty) {rounds : Nat}
    (hrounds : 0 < rounds) (payload : Bytes) (hlength : ipHeader.payloadLength.toNat = payload.length)
    (hnext : canCompressLowPanNhc ipHeader.nextHeader = false) : (∃ compressed : SixLowPanIphc,
      d.compressLowPanIphc src dst rounds (ipHeader.serialize ++ payload) = some (compressed.serialize ++ payload, 40) ∧
        compressed.serialize.length = compressed.getSerializedSize ∧
          e.decompressLowPanIphc src dst rounds (compressed.serialize ++ payload) = some (ipHeader.serialize ++ payload, false)) ↔
      ipHeader.flowLabel = 0 := by
  have hcompress : d.compressLowPanIphc src dst rounds (ipHeader.serialize ++ payload) = _ :=
    compressLowPanIphc_plain src dst hd hrounds hnext
  rw [iphcHeader_congr hd he] at hcompress
  have hback := decompressLowPanIphc_plain src dst he hrounds hlength
  constructor
  · intro ⟨compressed, hcompressed, _, hdecompress⟩
    rw [hcompress] at hcompressed
    have hsame := congrArg Prod.fst (Option.some.inj hcompressed)
    rw [← show _ = compressed.serialize ++ payload from hsame, hback] at hdecompress
    have hbytes := congrArg Prod.fst (Option.some.inj hdecompress)
    exact congrArg Ipv6Header.flowLabel (Ipv6Header.serialize_injective (append_cancel_right hbytes)).symm
  · intro hlabel
    have hsame : { ipHeader with flowLabel := 0 } = ipHeader := by
      rw [← hlabel]
    rw [hsame] at hcompress hback
    exact ⟨_, hcompress, (iphcHeader_readsBack _ hlabel (noMulticastContext_of_empty he _) false src dst
      (not_addressesAbort_of_empty he _)).2, hback⟩

end

/-! ## A flow label -/

/-- A device without contexts that sends its checksums. -/
def plainDevice : SixLowPanNetDevice where
  m_contextTable := .empty
  now := 0
  m_omitUdpChecksum := false
  checksumEnabled := true

def labelled (label : BitVec 20) : Ipv6Header where
  trafficClass := 0x28
  flowLabel := label
  payloadLength := 0
  nextHeader := 59
  hopLimit := 64
  source := .ofBytes (unicastAddrChecker ++ [0, 7])
  destination := .ofBytes (multicastAddrChecker ++ [0xfb])

def plainMac : MacAddress := .mac48 #v[0, 0, 0, 0, 0, 1]

theorem iphc_lossless_unlabelled : (∃ compressed : SixLowPanIphc,
      plainDevice.compressLowPanIphc plainMac plainMac 1 ((labelled 0).serialize ++ []) = some (compressed.serialize ++ [], 40) ∧
        compressed.serialize.length = compressed.getSerializedSize ∧
          plainDevice.decompressLowPanIphc plainMac plainMac 1 (compressed.serialize ++ []) =
            some ((labelled 0).serialize ++ [], false)) ↔ (labelled 0).flowLabel = 0 :=
  iphc_lossless_iff rfl rfl (by decide) [] rfl (by decide)

/-- The packet with the flow label 1 comes back with another one. -/
theorem labelled_lost :
    ((plainDevice.compressLowPanIphc plainMac plainMac 1 ((labelled 1).serialize ++ [])).bind fun r =>
      plainDevice.decompressLowPanIphc plainMac plainMac 1 r.1) ≠ some ((labelled 1).serialize ++ [], false) := by
  rw [compressLowPanIphc_plain plainMac plainMac rfl (by decide) (by decide), bind_some,
    decompressLowPanIphc_plain plainMac plainMac rfl (by decide) rfl]
  intro h
  have hbytes := congrArg Prod.fst (Option.some.inj h)
  have hlabel := congrArg Ipv6Header.flowLabel (Ipv6Header.serialize_injective (append_cancel_right hbytes))
  revert hlabel
  decide

end SixLowPanNetDevice

end Ns3
