import Ns3.SixLowPan.NhcSound

/-!
# Compressed UDP ports

Three of the four forms of the ports send their low bits only. The
decompressor shifts the constant it puts them under by as many bits as were
sent and keeps the unshifted constant beside it, so that bits are set that
the port does not have.
-/

namespace Ns3

open SixLowPanUdpNhcExtension List Option

namespace SixLowPanNetDevice

open Ports

def sentPorts (ports : Ports) (src dst : UInt16) : UInt16 × UInt16 :=
  match ports with
  | PORTS_INLINE => (src, dst)
  | PORTS_ALL_SRC_LAST_DST => (src, UInt16.ofNat (dst.toNat &&& 0xff))
  | PORTS_LAST_SRC_ALL_DST => (UInt16.ofNat (src.toNat &&& 0xff), dst)
  | PORTS_LAST_SRC_LAST_DST => (UInt16.ofNat (src.toNat &&& 0xf), UInt16.ofNat (dst.toNat &&& 0xf))

def rebuiltPorts (ports : Ports) (src dst : UInt16) : UInt16 × UInt16 :=
  match ports with
  | PORTS_INLINE => (src, dst)
  | PORTS_ALL_SRC_LAST_DST => (src, 0xf0 ||| (0xf000 ||| dst))
  | PORTS_LAST_SRC_ALL_DST => (0xf0 ||| (0xf000 ||| src), dst)
  | PORTS_LAST_SRC_LAST_DST => (0xf0b ||| (0xf0b0 ||| src), 0xf0b ||| (0xf0b0 ||| dst))

def portsBack (src dst : UInt16) : UInt16 × UInt16 :=
  let ports := udpPorts src.toNat dst.toNat
  rebuiltPorts ports (sentPorts ports src dst).1 (sentPorts ports src dst).2

/-! ## One port -/

theorem shiftRight_eight {p : UInt16} (h : p.toNat >>> 8 = 0xf0) : ∃ k < 256, p.toNat = 0xf000 + k := by
  have hlt := p.toNat_lt
  rw [Nat.shiftRight_eq_div_pow] at h
  exact ⟨p.toNat - 0xf000, by omega, by omega⟩

theorem shiftRight_four {p : UInt16} (h : p.toNat >>> 4 = 0xf0b) : ∃ k < 16, p.toNat = 0xf0b0 + k := by
  have hlt := p.toNat_lt
  rw [Nat.shiftRight_eq_div_pow] at h
  exact ⟨p.toNat - 0xf0b0, by omega, by omega⟩

theorem rebuilt_eight {p : UInt16} (h : p.toNat >>> 8 = 0xf0) :
    0xf0 ||| (0xf000 ||| UInt16.ofNat (p.toNat &&& 0xff)) = p ↔ 0xf0f0 ≤ p.toNat := by
  obtain ⟨k, hk, hp⟩ := shiftRight_eight h
  have hlow : p.toNat &&& 0xff = k := by
    rw [Nat.and_two_pow_sub_one_eq_mod p.toNat 8, hp]
    omega
  have hall : ∀ k < 256, 0xf0 ||| (0xf000 ||| k) = 0xf000 + k ↔ 0xf0 ≤ k := by decide +kernel
  rw [hlow, ← UInt16.toNat_inj, UInt16.toNat_or, UInt16.toNat_or, UInt16.toNat_ofNat', hp, Nat.mod_eq_of_lt (by omega)]
  exact (hall k hk).trans (by omega)

theorem rebuilt_four {p : UInt16} (h : p.toNat >>> 4 = 0xf0b) :
    0xf0b ||| (0xf0b0 ||| UInt16.ofNat (p.toNat &&& 0xf)) ≠ p := by
  obtain ⟨k, hk, hp⟩ := shiftRight_four h
  have hlow : p.toNat &&& 0xf = k := by
    rw [Nat.and_two_pow_sub_one_eq_mod p.toNat 4, hp]
    omega
  have hall : ∀ k < 16, 0xf0b ||| (0xf0b0 ||| k) ≠ 0xf0b0 + k := by decide
  rw [hlow, Ne, ← UInt16.toNat_inj, UInt16.toNat_or, UInt16.toNat_or, UInt16.toNat_ofNat', hp, Nat.mod_eq_of_lt (by omega)]
  exact hall k hk

/-! ## Both ports -/

/-- Not both ports send four bits, and one that sends eight has the upper four of them set. -/
def PortsKept (src dst : Nat) : Prop :=
  ¬ (src >>> 4 = 0xf0b ∧ dst >>> 4 = 0xf0b) ∧ (src >>> 8 = 0xf0 → dst >>> 8 ≠ 0xf0 → 0xf0f0 ≤ src) ∧
    (dst >>> 8 = 0xf0 → src >>> 8 ≠ 0xf0 → 0xf0f0 ≤ dst)

theorem portsBack_eq_iff (src dst : UInt16) : portsBack src dst = (src, dst) ↔ PortsKept src.toNat dst.toNat := by
  unfold portsBack udpPorts PortsKept
  by_cases hfour : src.toNat >>> 4 = 0xf0b ∧ dst.toNat >>> 4 = 0xf0b
  · simp only [hfour, and_self, if_true, sentPorts, rebuiltPorts, not_true, false_and, iff_false]
    intro heq
    exact rebuilt_four hfour.1 (congrArg Prod.fst heq)
  · simp only [hfour, if_false, not_false_eq_true, true_and]
    by_cases hsrc : src.toNat >>> 8 = 0xf0
    · by_cases hdst : dst.toNat >>> 8 = 0xf0
      · simp [hsrc, hdst, sentPorts, rebuiltPorts]
      · have hback := rebuilt_eight hsrc
        simpa [hsrc, hdst, sentPorts, rebuiltPorts, Prod.ext_iff] using hback
    · by_cases hdst : dst.toNat >>> 8 = 0xf0
      · have hback := rebuilt_eight hdst
        simpa [hsrc, hdst, sentPorts, rebuiltPorts, Prod.ext_iff] using hback
      · simp [hsrc, hdst, sentPorts, rebuiltPorts]

/-! ## The bytes of the compressed header -/

section
variable (src dst : UInt16)

theorem nibbles (x y : Nat) (hx : x < 16) (hy : y < 16) :
    (UInt8.ofNat ((x <<< 4) ||| y)).toNat >>> 4 = x ∧ (UInt8.ofNat ((x <<< 4) ||| y)).toNat &&& 0xf = y := by
  have hall : ∀ x < 16, ∀ y < 16,
      (UInt8.ofNat ((x <<< 4) ||| y)).toNat >>> 4 = x ∧ (UInt8.ofNat ((x <<< 4) ||| y)).toNat &&& 0xf = y := by
    decide +kernel
  exact hall x hx y hy

theorem toNat_lowByte (x : Nat) : (UInt8.ofNat (x &&& 0xff)).toNat = x &&& 0xff := by
  rw [UInt8.toNat_ofNat', Nat.and_two_pow_sub_one_eq_mod x 8]
  omega

theorem readPorts_portsBytes {h : SixLowPanUdpNhcExtension} (rest : Bytes) :
    readPorts h.getPorts (h.portsBytes ++ rest) =
      some (sentPorts h.getPorts h.m_srcPort h.m_dstPort, rest) := by
  unfold portsBytes
  cases h.getPorts with
  | PORTS_INLINE =>
    simp only [readPorts, append_assoc, readNtoh_writeHton, toNat_word, bind_some,
      map_some, UInt16.ofNat_toNat, sentPorts]
  | PORTS_ALL_SRC_LAST_DST =>
    simp only [readPorts, append_assoc, readNtoh_writeHton, toNat_word, bind_some,
      map_some, UInt16.ofNat_toNat, cons_append, nil_append, readU8_cons, toNat_lowByte, sentPorts]
  | PORTS_LAST_SRC_ALL_DST =>
    simp only [readPorts, readNtoh_writeHton, toNat_word, bind_some,
      map_some, UInt16.ofNat_toNat, cons_append, nil_append, readU8_cons, toNat_lowByte, sentPorts]
  | PORTS_LAST_SRC_LAST_DST =>
    have hlow : ∀ p : UInt16, p.toNat &&& 0xf < 16 := fun p => by
      rw [Nat.and_two_pow_sub_one_eq_mod p.toNat 4]
      omega
    obtain ⟨hsrc, hdst⟩ := nibbles _ _ (hlow h.m_srcPort) (hlow h.m_dstPort)
    simp only [readPorts, cons_append, nil_append, readU8_cons, map_some, hsrc, hdst,
      sentPorts]

def udpNhcHeader (omitChecksum : Bool) (src dst checksum : UInt16) : SixLowPanUdpNhcExtension :=
  ⟨baseFormat omitChecksum (udpPorts src.toNat dst.toNat), checksum, src, dst⟩

theorem baseFormat_fields (c : Bool) (ports : Ports) {h : SixLowPanUdpNhcExtension}
    (hformat : h.m_baseFormat = baseFormat c ports) : h.getC = c ∧ h.getPorts = ports := by
  unfold getC getPorts
  rw [hformat]
  cases c <;> cases ports <;> exact ⟨by decide, by decide⟩

theorem udpNhc_length (h : SixLowPanUdpNhcExtension) : h.serialize.length = h.getSerializedSize := by
  unfold serialize getSerializedSize portsBytes
  cases h.getC <;> cases h.getPorts <;> simp [portsSize]

/-- **What is read of a compressed header**: all its bytes and no more, the ports as they
were sent, and the checksum where it was. -/
theorem udpNhc_read (c : Bool) (checksum : UInt16) (payload : Bytes) :
    deserialize ((udpNhcHeader c src dst checksum).serialize ++ payload) =
      some (⟨baseFormat c (udpPorts src.toNat dst.toNat), if c then 0 else checksum,
        (sentPorts (udpPorts src.toNat dst.toNat) src dst).1, (sentPorts (udpPorts src.toNat dst.toNat) src dst).2⟩,
        (udpNhcHeader c src dst checksum).serialize.length) := by
  have hfields := fun (h : SixLowPanUdpNhcExtension) hformat =>
    baseFormat_fields c (udpPorts src.toNat dst.toNat) (h := h) hformat
  have hread := fun rest => readPorts_portsBytes (h := udpNhcHeader c src dst checksum) rest
  rw [udpNhc_length]
  obtain ⟨hc, hports⟩ := hfields (udpNhcHeader c src dst checksum) rfl
  rw [hports] at hread
  rw [serialize, hc]
  simp only [deserialize, append_assoc, cons_append, nil_append, readU8_cons,
    bind_some, (hfields { m_baseFormat := (udpNhcHeader c src dst checksum).m_baseFormat } rfl).1,
    (hfields { m_baseFormat := (udpNhcHeader c src dst checksum).m_baseFormat } rfl).2, hread]
  cases c with
  | true =>
    simp only [Bool.not_true, Bool.false_eq_true, if_false, map_some]
    rfl
  | false =>
    simp only [udpNhcHeader, Bool.not_false, if_true, readBytes_of_length (length_leBytes 2 checksum.toNat), map_some,
      ofLeBytes_leBytes, toNat_word, UInt16.ofNat_toNat]
    rfl

/-! ## Compressed and decompressed -/

variable (d : SixLowPanNetDevice) (saddr daddr : Ipv6Address) (checksum : UInt16) (payload : Bytes)

def udpPacket (checksum : Nat) : Bytes :=
  UdpHeader.serializeWith { sourcePort := src, destinationPort := dst } payload checksum ++ payload

theorem udpPacket_read (x : Nat) : UdpHeader.deserialize (udpPacket src dst payload x) =
    some ({ sourcePort := src
            destinationPort := dst
            payloadSize := UInt16.ofNat ((8 + payload.length) % 256 ^ 2) - 8
            checksum := UInt16.ofNat (x % 256 ^ 2) }, 8) := by
  simp only [UdpHeader.deserialize, udpPacket, UdpHeader.serializeWith, if_true, append_assoc, readNtoh_writeHton,
    bind_some, readBytes_of_length (length_leBytes 2 x), map_some, ofLeBytes_leBytes, toNat_word,
    UInt16.ofNat_toNat, UdpHeader.getSerializedSize]

theorem udpPacket_drop (x : Nat) : (udpPacket src dst payload x).drop 8 = payload :=
  drop_left' (by simp [UdpHeader.serializeWith])

theorem compressLowPanUdpNhc_eq (omitChecksum : Bool) :
    compressLowPanUdpNhc (udpPacket src dst payload checksum.toNat) omitChecksum =
      some ((udpNhcHeader omitChecksum src dst checksum).serialize ++ payload, 8) := by
  rw [compressLowPanUdpNhc, udpPacket_read, map_some]
  simp only [udpPacket_drop, toNat_word, UInt16.ofNat_toNat]
  rfl

def checksumMade : Nat :=
  if d.checksumEnabled then
    if d.m_omitUdpChecksum then udpChecksum saddr daddr (portsBack src dst).1 (portsBack src dst).2 payload
    else checksum.toNat
  else 0

theorem decompressLowPanUdpNhc_eq :
    d.decompressLowPanUdpNhc ((udpNhcHeader d.m_omitUdpChecksum src dst checksum).serialize ++ payload) saddr daddr =
      some (udpPacket (portsBack src dst).1 (portsBack src dst).2 payload
        (checksumMade src dst d saddr daddr checksum payload)) := by
  have hheader : ∀ (ports : UInt16 × UInt16),
      (if d.checksumEnabled then
        if d.m_omitUdpChecksum then
          ({ sourcePort := ports.1
             destinationPort := ports.2
             calcChecksum := some ⟨saddr.bytes, daddr.bytes, false, Ipv6Header.IPV6_UDP⟩ } : UdpHeader)
        else { sourcePort := ports.1, destinationPort := ports.2, checksum := if d.m_omitUdpChecksum then 0 else checksum }
      else { sourcePort := ports.1, destinationPort := ports.2 }).serialize payload ++ payload =
        udpPacket ports.1 ports.2 payload (if d.checksumEnabled then
          if d.m_omitUdpChecksum then udpChecksum saddr daddr ports.1 ports.2 payload else checksum.toNat else 0) := by
    intro ports
    rw [udpPacket, append_cancel_right_eq]
    cases d.checksumEnabled with
    | false => rfl
    | true =>
      cases d.m_omitUdpChecksum with
      | true => rfl
      | false =>
        by_cases hzero : checksum = 0
        · subst hzero
          rfl
        · simp only [if_true, Bool.false_eq_true, if_false, UdpHeader.serialize, if_neg hzero]
          rfl
  obtain ⟨hc, hports⟩ := baseFormat_fields d.m_omitUdpChecksum (udpPorts src.toNat dst.toNat)
    (h := ⟨baseFormat d.m_omitUdpChecksum (udpPorts src.toNat dst.toNat),
      if d.m_omitUdpChecksum then 0 else checksum, (sentPorts (udpPorts src.toNat dst.toNat) src dst).1,
      (sentPorts (udpPorts src.toNat dst.toNat) src dst).2⟩) rfl
  rw [decompressLowPanUdpNhc, udpNhc_read, map_some]
  simp only [hc, hports, drop_left' rfl, checksumMade, ← hheader]
  unfold portsBack
  cases udpPorts src.toNat dst.toNat <;> rfl

/-- The ports, the checksum that is sent and the payload come back, from the bytes that
were written and no more. -/
def UdpKept : Prop :=
  ∃ (sent encoding : SixLowPanUdpNhcExtension) (rebuilt : Bytes) (udpHeader : UdpHeader),
    compressLowPanUdpNhc (udpPacket src dst payload checksum.toNat) d.m_omitUdpChecksum = some (sent.serialize ++ payload, 8) ∧
      deserialize (sent.serialize ++ payload) = some (encoding, sent.serialize.length) ∧
      d.decompressLowPanUdpNhc (sent.serialize ++ payload) saddr daddr = some rebuilt ∧
      UdpHeader.deserialize rebuilt = some (udpHeader, 8) ∧ (udpHeader.sourcePort, udpHeader.destinationPort) = (src, dst) ∧
      (sent.getC = false → udpHeader.checksum = checksum) ∧ rebuilt.drop 8 = payload

theorem checksumMade_eq_iff (hinline : d.m_omitUdpChecksum = false) :
    UInt16.ofNat (checksumMade src dst d saddr daddr checksum payload % 256 ^ 2) = checksum ↔
      (d.checksumEnabled = false → checksum = 0) := by
  unfold checksumMade
  cases d.checksumEnabled with
  | false => exact ⟨fun h _ => h.symm, fun h => (h rfl).symm⟩
  | true => simp [hinline]

variable {src dst d saddr daddr checksum payload}

theorem UdpKept.kept (h : UdpKept src dst d saddr daddr checksum payload) :
    PortsKept src.toNat dst.toNat ∧ (d.m_omitUdpChecksum = false → d.checksumEnabled = false → checksum = 0) := by
  obtain ⟨sent, encoding, rebuilt, udpHeader, hsent, -, hback, hread, hports, hchecksum, -⟩ := h
  have hbytes : sent.serialize ++ payload = (udpNhcHeader d.m_omitUdpChecksum src dst checksum).serialize ++ payload :=
    congrArg Prod.fst (Option.some.inj (hsent.symm.trans (compressLowPanUdpNhc_eq src dst checksum payload _)))
  rw [hbytes, decompressLowPanUdpNhc_eq] at hback
  cases hback
  rw [udpPacket_read] at hread
  obtain rfl : _ = udpHeader := congrArg Prod.fst (Option.some.inj hread)
  refine ⟨(portsBack_eq_iff src dst).1 hports, fun hinline => ?_⟩
  -- the first byte tells whether the checksum was sent
  have hformat : sent.m_baseFormat = baseFormat d.m_omitUdpChecksum (udpPorts src.toNat dst.toNat) :=
    (List.cons.inj hbytes).1
  have hc : sent.getC = false := by rw [(baseFormat_fields _ _ hformat).1, hinline]
  exact (checksumMade_eq_iff src dst d saddr daddr checksum payload hinline).1 (hchecksum hc)

variable (src dst d saddr daddr checksum payload)

theorem udpKept_iff : UdpKept src dst d saddr daddr checksum payload ↔
    PortsKept src.toNat dst.toNat ∧ (d.m_omitUdpChecksum = false → d.checksumEnabled = false → checksum = 0) := by
  constructor
  · intro h
    exact h.kept
  · intro ⟨hports, hchecksum⟩
    refine ⟨udpNhcHeader d.m_omitUdpChecksum src dst checksum, _, _, _, compressLowPanUdpNhc_eq src dst checksum payload _,
      udpNhc_read src dst _ checksum payload, decompressLowPanUdpNhc_eq src dst d saddr daddr checksum payload,
      udpPacket_read _ _ payload _, (portsBack_eq_iff src dst).2 hports, fun hinline => ?_, udpPacket_drop _ _ payload _⟩
    rw [(baseFormat_fields _ _ (h := udpNhcHeader d.m_omitUdpChecksum src dst checksum) rfl).1] at hinline
    exact (checksumMade_eq_iff src dst d saddr daddr checksum payload hinline).2 (hchecksum hinline)

end

/-- Ports that fit in four bits: both come back with the bits of `0xf0b` beside their own. -/
theorem low_ports_changed : ¬ UdpKept 0xf0b1 0xf0b2 plainDevice ⟨List.replicate 16 0, rfl⟩ ⟨List.replicate 16 0, rfl⟩ 0x1234 [7] := by
  intro h
  exact h.kept.1.1 ⟨by decide, by decide⟩

end SixLowPanNetDevice

end Ns3
