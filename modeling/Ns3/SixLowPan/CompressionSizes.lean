import Ns3.SixLowPan.Compression
import Ns3.SixLowPan.SixLowPanHc1

/-!
# Sizes of compressed packets

What a compressor takes off a packet was in it, and the headers that stand for
it are at most twice as long.
-/

namespace Ns3

open SixLowPanUdpNhcExtension List Option

/-- `size` bytes of a packet were taken off, and `p` is what was made of it. -/
structure Took (packet p : Bytes) (size : Nat) : Prop where
  inside : size ≤ packet.length
  kept : packet.length ≤ p.length + size
  short : p.length ≤ packet.length + size

theorem Took.refl (packet : Bytes) : Took packet packet 0 := ⟨Nat.zero_le _, Nat.le_refl _, Nat.le_refl _⟩

variable {bytes rest packet : Bytes} {size : Nat}

theorem readU8_length {b : UInt8} (h : readU8 bytes = some (b, rest)) : bytes.length = rest.length + 1 := by
  cases bytes with
  | nil => cases h
  | cons c bytes =>
    cases h
    rfl

theorem readBytes_length {bytes x rest : Bytes} {n : Nat} (h : readBytes n bytes = some (x, rest)) :
    bytes.length = n + rest.length ∧ x.length = n := by
  obtain ⟨rfl, hx⟩ := readBytes_eq_some.mp h
  rw [length_append, hx]
  exact ⟨rfl, rfl⟩

theorem readNtoh_length {n x : Nat} (h : readNtoh n bytes = some (x, rest)) : bytes.length = n + rest.length := by
  obtain ⟨⟨x, rest⟩, hread, heq⟩ := map_eq_some_iff.mp h
  cases heq
  exact (readBytes_length hread).1

theorem Ipv6Header.size_deserialize {old h : Ipv6Header} (hread : old.deserialize packet = some (h, size)) :
    size = 0 ∨ size = 40 ∧ 40 ≤ packet.length := by
  obtain ⟨⟨vTcFl, i⟩, hv, hread⟩ := bind_eq_some_iff.mp hread
  have hi := readNtoh_length hv
  simp only at hread
  split at hread
  · cases hread
    exact .inl rfl
  · obtain ⟨⟨_, j⟩, hj, hread⟩ := bind_eq_some_iff.mp hread
    obtain ⟨⟨_, k⟩, hk, hread⟩ := bind_eq_some_iff.mp hread
    obtain ⟨⟨_, l⟩, hl, hread⟩ := bind_eq_some_iff.mp hread
    obtain ⟨⟨_, m⟩, hm, hread⟩ := bind_eq_some_iff.mp hread
    obtain ⟨⟨_, n⟩, hn, hread⟩ := map_eq_some_iff.mp hread
    cases hread
    have haddress : ∀ {bytes rest : Bytes} {a : Ipv6Address}, readAddress bytes = some (a, rest) → bytes.length = rest.length + 16 := by
      intro bytes rest a h
      rw [readAddress] at h
      split at h
      · cases h
        rw [length_drop]
        omega
      · cases h
    have hj := readNtoh_length hj
    have hk := readU8_length hk
    have hl := readU8_length hl
    have hm := haddress hm
    have hn := haddress hn
    dsimp only at hi hj hk hl hm hn
    exact .inr ⟨rfl, by omega⟩

theorem UdpHeader.size_deserialize {h : UdpHeader} (hread : UdpHeader.deserialize packet = some (h, size)) :
    size = 8 ∧ 8 ≤ packet.length := by
  obtain ⟨⟨_, i⟩, hi, hread⟩ := bind_eq_some_iff.mp hread
  obtain ⟨⟨_, j⟩, hj, hread⟩ := bind_eq_some_iff.mp hread
  obtain ⟨⟨_, k⟩, hk, hread⟩ := bind_eq_some_iff.mp hread
  obtain ⟨⟨_, l⟩, hl, hread⟩ := map_eq_some_iff.mp hread
  cases hread
  have hi := readNtoh_length hi
  have hj := readNtoh_length hj
  have hk := readNtoh_length hk
  have hl := (readBytes_length hl).1
  exact ⟨rfl, by omega⟩

/-- The headers of a class are in the packet, and are as long as they tell. -/
def ExtensionClass.Inside (c : ExtensionClass) : Prop :=
  ∀ {packet : Bytes} {h : c.Header} {size : Nat}, c.deserialize packet = some (h, size) →
    size ≤ packet.length ∧ (c.serialize h).length = size ∧ 4 ≤ size

theorem hopByHop_inside : Ipv6ExtensionHopByHopHeader.Inside := by
  intro packet h size hread
  obtain ⟨g, hg, heq⟩ := map_eq_some_iff.mp hread
  cases heq
  obtain ⟨⟨nextHeader, i⟩, hi, hg⟩ := bind_eq_some_iff.mp hg
  obtain ⟨⟨m_length, j⟩, hj, hg⟩ := bind_eq_some_iff.mp hg
  obtain ⟨⟨data, k⟩, hk, rfl⟩ := map_eq_some_iff.mp hg
  have hi := readU8_length hi
  have hj := readU8_length hj
  obtain ⟨hk, hdata⟩ := readBytes_length hk
  have hlength := extensionLength_eq m_length
  have hsized : OptionsHeader.Sized ⟨nextHeader, m_length, data⟩ := ⟨by simp only; omega⟩
  have hsize : OptionsHeader.getSerializedSize ⟨nextHeader, m_length, data⟩ = 2 + data.length := by
    rw [OptionsHeader.getSerializedSize, hsized.calculatePad_eq]
    rfl
  refine ⟨hsize.trans_le ?_, hsized.getSerializedSize_eq.symm, hsize.ge.trans' ?_⟩
  · omega
  · omega

theorem fragmentHeader_inside : fragmentHeaderClass.Inside := by
  intro packet h size hread
  obtain ⟨g, hg, heq⟩ := map_eq_some_iff.mp hread
  obtain ⟨-, rfl⟩ := Prod.mk.inj heq
  obtain ⟨⟨_, i⟩, hi, hg⟩ := bind_eq_some_iff.mp hg
  obtain ⟨⟨_, j⟩, hj, hg⟩ := bind_eq_some_iff.mp hg
  obtain ⟨⟨_, k⟩, hk, hg⟩ := bind_eq_some_iff.mp hg
  obtain ⟨⟨_, l⟩, hl, -⟩ := map_eq_some_iff.mp hg
  have hi := readU8_length hi
  have hj := readU8_length hj
  have hk := readNtoh_length hk
  have hl := readNtoh_length hl
  refine ⟨?_, Ipv6ExtensionFragmentHeader.length_serialize g, (by decide : 4 ≤ 8)⟩
  rw [Ipv6ExtensionFragmentHeader.getSerializedSize]
  omega

theorem routingHeader_inside : Ipv6ExtensionRoutingHeader.Inside := by
  intro packet h size hread
  obtain ⟨g, hg, heq⟩ := map_eq_some_iff.mp hread
  obtain ⟨-, rfl⟩ := Prod.mk.inj heq
  obtain ⟨⟨_, i⟩, hi, hg⟩ := bind_eq_some_iff.mp hg
  obtain ⟨⟨_, j⟩, hj, hg⟩ := bind_eq_some_iff.mp hg
  obtain ⟨⟨_, k⟩, hk, hg⟩ := bind_eq_some_iff.mp hg
  obtain ⟨⟨_, l⟩, hl, -⟩ := map_eq_some_iff.mp hg
  have hi := readU8_length hi
  have hj := readU8_length hj
  have hk := readU8_length hk
  have hl := readU8_length hl
  refine ⟨?_, rfl, Nat.le_refl 4⟩
  rw [RoutingHeader.getSerializedSize]
  omega

theorem SixLowPanUdpNhcExtension.length_serialize_le (h : SixLowPanUdpNhcExtension) : h.serialize.length ≤ 7 := by
  have hports : h.portsBytes.length ≤ 4 := by
    rw [portsBytes]
    split <;> simp
  have hchecksum : (if !h.getC then leBytes 2 h.m_checksum.toNat else []).length ≤ 2 := by
    split <;> simp
  simp only [serialize, length_append, length_cons, length_nil]
  omega

theorem SixLowPanNhcExtension.length_serialize_le (h : SixLowPanNhcExtension) : h.serialize.length ≤ 3 + h.m_nhcBlob.length := by
  have hnext : (if !h.getNh then 1 else 0) ≤ 1 := by
    split <;> omega
  rw [length_serialize, getSerializedSize]
  omega

namespace SixLowPanNetDevice

/-- What a compressor of a header does, with the rest of what it returns. -/
def Takes {α : Type} (packet : Bytes) (r : Option (Bytes × α)) (size : α → Nat) : Prop := ∀ p x, r = some (p, x) → Took packet p (size x)

theorem compressUdp_takes (packet : Bytes) (omitChecksum : Bool) : Takes packet (compressLowPanUdpNhc packet omitChecksum) id := by
  intro p size hcompress
  obtain ⟨⟨h, n⟩, hread, heq⟩ := map_eq_some_iff.mp hcompress
  cases heq
  obtain ⟨rfl, hle⟩ := UdpHeader.size_deserialize hread
  have hshort := length_serialize_le
    ⟨baseFormat omitChecksum (udpPorts h.sourcePort.toNat h.destinationPort.toNat), h.checksum,
      h.sourcePort, h.destinationPort⟩
  refine ⟨hle, ?_, ?_⟩
  · rw [length_append, length_drop]
    simp only [id]
    omega
  · rw [length_append, length_drop]
    omega

section
variable {d : SixLowPanNetDevice} {compressIphc : Bytes → Option (Bytes × Nat)} {compressNhc : Bytes → UInt8 → Option (Bytes × Nat)}

theorem compressNext_takes (hiphc : ∀ packet, Takes packet (compressIphc packet) id)
    (hnhc : ∀ packet t, Takes packet (compressNhc packet t) id) (packet : Bytes) (t : UInt8) :
    Takes packet (compressNextHeader d compressIphc compressNhc packet t) Prod.snd := by
  intro p x hcompress
  rw [compressNextHeader] at hcompress
  split at hcompress
  · split at hcompress
    · obtain ⟨⟨q, size⟩, hudp, heq⟩ := map_eq_some_iff.mp hcompress
      obtain ⟨rfl, rfl⟩ := Prod.mk.inj heq
      exact compressUdp_takes packet d.m_omitUdpChecksum q size hudp
    · split at hcompress
      · obtain ⟨⟨q, size⟩, hinner, heq⟩ := map_eq_some_iff.mp hcompress
        obtain ⟨rfl, rfl⟩ := Prod.mk.inj heq
        exact hiphc packet q size hinner
      · obtain ⟨⟨q, size⟩, hinner, heq⟩ := map_eq_some_iff.mp hcompress
        obtain ⟨rfl, rfl⟩ := Prod.mk.inj heq
        exact hnhc packet t q size hinner
  · cases hcompress
    exact Took.refl packet

theorem compressExtension_takes {c : ExtensionClass} (hinside : c.Inside) (eid : Nat)
    {compressNext : Bytes → UInt8 → Option (Bytes × Bool × Nat)} (hnext : ∀ packet t, Takes packet (compressNext packet t) Prod.snd)
    (packet : Bytes) : Takes packet (compressExtension c eid compressNext packet) id := by
  intro p size hcompress
  obtain ⟨⟨header, n⟩, hread, hcompress⟩ := bind_eq_some_iff.mp hcompress
  obtain ⟨hn, hserialize, hfour⟩ := hinside hread
  simp only at hcompress
  split at hcompress
  · cases hcompress
    exact Took.refl packet
  · obtain ⟨⟨q, nh, sizeNext⟩, hq, hcompress⟩ := bind_eq_some_iff.mp hcompress
    obtain ⟨hle, hge, hshort⟩ := hnext _ _ q (nh, sizeNext) hq
    split at hcompress
    · cases hcompress
      have hheader : (SixLowPanNhcExtension.serialize ⟨SixLowPanNhcExtension.extensionHeader eid nh,
          if nh then 0 else c.getNextHeader header, (c.serialize header).drop 2⟩).length ≤ n + 1 := by
        refine (SixLowPanNhcExtension.length_serialize_le _).trans ?_
        rw [length_drop, hserialize]
        omega
      simp only [length_drop] at hle hge hshort
      refine ⟨?_, ?_, ?_⟩
      · simp only [id]
        omega
      · rw [length_append]
        simp only [id]
        omega
      · rw [length_append]
        simp only [id]
        omega
    · cases hcompress

end

end SixLowPanNetDevice

namespace SixLowPanIphc

theorem length_inline_le (size : Nat) (part : Bytes) : (inlineBytes size part).length ≤ size := by
  rw [inlineBytes, length_take]
  exact Nat.min_le_left _ _

theorem sizes_le (x : IphcModes) : tfSize x.tf ≤ 4 ∧ srcSize x ≤ 16 ∧ dstSize x ≤ 16 ∧ dstWritten x ≤ 16 := by
  refine ⟨?_, ?_, ?_, ?_⟩
  · rw [tfSize.eq_def]
    split <;> omega
  · rw [srcSize]
    repeat' split
    all_goals omega
  · rw [dstSize]
    repeat' split
    all_goals omega
  · rw [dstWritten]
    repeat' split
    all_goals omega

theorem length_serialize_bounds (h : SixLowPanIphc) :
    2 ≤ h.serialize.length ∧ h.serialize.length ≤ 41 ∧ 2 ≤ h.getSerializedSize ∧ h.getSerializedSize ≤ 41 := by
  obtain ⟨htf, hsrc, hdst, hwritten⟩ := sizes_le h.modes
  have hcidBytes : h.cidBytes.length ≤ 1 := by
    rw [cidBytes]
    split <;> simp
  have htfBytes : h.tfBytes.length ≤ 4 := by
    rw [tfBytes]
    split <;> simp
  have hnhBytes : h.nhBytes.length ≤ 1 := by
    rw [nhBytes]
    split <;> simp
  have hhlimBytes : h.hlimBytes.length ≤ 1 := by
    rw [hlimBytes]
    split <;> simp
  have hsrcBytes := length_inline_le (srcSize h.modes) h.m_srcInlinePart
  have hdstBytes := length_inline_le (dstWritten h.modes) h.m_dstInlinePart
  have hcid : (if h.modes.cid then 1 else 0) ≤ 1 := by
    split <;> omega
  have hnh : (if !h.modes.nh then 1 else 0) ≤ 1 := by
    split <;> omega
  have hhlim : (if h.modes.hlim = .HLIM_INLINE then 1 else 0) ≤ 1 := by
    split <;> omega
  rw [getSerializedSize]
  simp only [serialize, length_append, length_writeHton]
  omega

theorem length_addTo {h : SixLowPanIphc} {packet p : Bytes} (hadd : h.addTo packet = some p) :
    packet.length < p.length ∧ p.length ≤ packet.length + 41 := by
  obtain ⟨hserialize, hserialize', hsize, hsize'⟩ := h.length_serialize_bounds
  rw [addTo] at hadd
  split at hadd
  · cases hadd
    rw [length_append, length_drop]
    omega
  · cases hadd

end SixLowPanIphc

namespace SixLowPanNetDevice

section
variable (d : SixLowPanNetDevice) (src dst : MacAddress)

/-- A header that is taken off leaves at least a byte. -/
def TakesMore (packet : Bytes) (r : Option (Bytes × Nat)) : Prop :=
  ∀ p size, r = some (p, size) → size ≠ 0 → packet.length < p.length + size

theorem compress_takes : ∀ rounds : Nat, (∀ packet, Takes packet (d.compressLowPanIphc src dst rounds packet) id ∧
      TakesMore packet (d.compressLowPanIphc src dst rounds packet)) ∧
    ∀ packet t, Takes packet (d.compressLowPanNhc src dst rounds packet t) id
  | 0 => by
    refine ⟨fun packet => ⟨fun p size h => ?_, fun p size h => ?_⟩, fun packet t p size h => ?_⟩
    · cases h
    · cases h
    · cases h
  | rounds + 1 => by
    obtain ⟨hiphc, hnhc⟩ := compress_takes rounds
    have hnext := compressNext_takes (d := d) (fun packet => (hiphc packet).1) hnhc
    have hboth : ∀ packet p size, d.compressLowPanIphc src dst (rounds + 1) packet = some (p, size) →
        Took packet p size ∧ (size ≠ 0 → packet.length < p.length + size) := by
      intro packet p size h
      obtain ⟨⟨ipHeader, n⟩, hread, h⟩ := bind_eq_some_iff.mp h
      have hn := Ipv6Header.size_deserialize hread
      simp only at h
      split at h
      · cases h
        exact ⟨Took.refl packet, fun hne => absurd rfl hne⟩
      · obtain ⟨⟨q, nh, sizeNext⟩, hq, h⟩ := bind_eq_some_iff.mp h
        obtain ⟨hle, hge, hshort⟩ := hnext _ _ q (nh, sizeNext) hq
        obtain ⟨_, h⟩ := ite_none_left_eq_some.mp h
        obtain ⟨r, hr, heq⟩ := map_eq_some_iff.mp h
        cases heq
        obtain ⟨hmore, hfew⟩ := SixLowPanIphc.length_addTo hr
        simp only [length_drop] at hle hge hshort hmore hfew
        dsimp only
        exact ⟨⟨by omega, by omega, by omega⟩, fun _ => by omega⟩
    refine ⟨fun packet => ⟨fun p size h => (hboth packet p size h).1, fun p size h => (hboth packet p size h).2⟩, ?_⟩
    intro packet t p size h
    rw [compressLowPanNhc] at h
    split at h
    · exact compressExtension_takes hopByHop_inside _ hnext packet p size h
    · split at h
      · exact compressExtension_takes routingHeader_inside _ hnext packet p size h
      · split at h
        · exact compressExtension_takes fragmentHeader_inside _ hnext packet p size h
        · split at h
          · exact compressExtension_takes hopByHop_inside _ hnext packet p size h
          · cases h

end

end SixLowPanNetDevice

theorem SixLowPanHc1.length_serialize {h : SixLowPanHc1} (hserialize : h.serialize = some bytes)
    (hsrc : h.m_srcPrefix.length = 8 ∧ h.m_srcInterface.length = 8) (hdst : h.m_dstPrefix.length = 8 ∧ h.m_dstInterface.length = 8) :
    0 < bytes.length ∧ bytes.length ≤ 40 := by
  have haddr : ∀ (mode : LowPanHc1Addr) {x y : Bytes}, x.length = 8 ∧ y.length = 8 → (addrBytes mode x y).length ≤ 16 := by
    intro mode x y hxy
    cases mode with
    | HC1_PIII => simp [addrBytes, hxy.1, hxy.2]
    | HC1_PIIC => simp [addrBytes, hxy.1]
    | HC1_PCII => simp [addrBytes, hxy.2]
    | HC1_PCIC => simp [addrBytes]
  have hsrc := haddr h.m_srcCompression hsrc
  have hdst := haddr h.m_dstCompression hdst
  have htcfl : h.tcflBytes.length ≤ 4 := by
    rw [tcflBytes]
    split <;> simp
  have hnext : (if h.m_nextHeaderCompression = .HC1_NC then [h.m_nextHeader] else []).length ≤ 1 := by
    split <;> simp
  rw [serialize] at hserialize
  split at hserialize
  · cases hserialize
  · cases hserialize
    simp only [length_append, length_cons, length_nil]
    omega

theorem SixLowPanHc1.compress_takes {src dst : MacAddress} {packet p : Bytes}
    (h : SixLowPanHc1.compressLowPanHc1 src dst packet = some (p, size)) :
    Took packet p size ∧ (size ≠ 0 → packet.length < p.length + size) := by
  obtain ⟨⟨ipHeader, n⟩, hread, h⟩ := bind_eq_some_iff.mp h
  have hn := Ipv6Header.size_deserialize hread
  simp only at h
  split at h
  · cases h
    exact ⟨Took.refl packet, fun hne => absurd rfl hne⟩
  · rename_i hread'
    obtain ⟨rfl, hforty⟩ := hn.resolve_left hread'
    obtain ⟨bytes, hbytes, heq⟩ := map_eq_some_iff.mp h
    cases heq
    have hhalves : ∀ a : Ipv6Address, (a.bytes.take 8).length = 8 ∧ (a.bytes.drop 8).length = 8 := fun a => by
      simp [a.length_bytes]
    obtain ⟨hpos, hshort⟩ := length_serialize hbytes (hhalves ipHeader.source) (hhalves ipHeader.destination)
    refine ⟨⟨hforty, ?_, ?_⟩, fun _ => ?_⟩
    · rw [length_append, length_drop]
      omega
    · rw [length_append, length_drop]
      omega
    · rw [length_append, length_drop]
      omega

end Ns3
