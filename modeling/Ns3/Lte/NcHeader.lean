import Ns3.Lib.OrdMap

/-!
# PDCP packets in network-coding and copy mode

A packet below the NC header is an SDU (`seqTs udp ipv4` on a payload) or the
zero bytes of a status report. `NcHeader` has the field values its constructor
gives; a received PDU is a header on top of a packet.
-/

namespace Ns3

structure SeqTsHeader where
  seq : Nat
  ts : Nat
  deriving DecidableEq

structure Sdu where
  /-- The 20 bytes of an IPv4 header without options. -/
  ipv4 : List UInt8
  udpPorts : List UInt8
  udpLength : UInt16
  udpChecksum : UInt16
  seqTs : SeqTsHeader
  payload : List UInt8
  deriving DecidableEq

inductive Packet where
  | sdu (s : Sdu)
  | zeros (n : Nat)
  deriving DecidableEq

/-- An IPv4 header read and written again has no reserved flag and, as
`m_calcChecksum` is false, no checksum. -/
def readdIpv4 (ipv4 : List UInt8) : List UInt8 := ((ipv4.modify 6 (· &&& 0x7f)).set 10 0).set 11 0

/-- `RemoveHeader` of IPv4, UDP and SeqTs followed by `AddHeader` of the same
three in reverse order. `UdpHeader::Deserialize` takes the 8 bytes of the header
off the length, and `Serialize` writes what is left, or the size of the
datagram when that is 0. -/
def Packet.readdHeaders : Packet → Packet
  | .sdu s =>
    let payloadSize := s.udpLength - 8
    .sdu { s with
      ipv4 := readdIpv4 s.ipv4
      udpLength := if payloadSize = 0 then UInt16.ofNat (20 + s.payload.length) else payloadSize }
  | .zeros n => .zeros n

namespace Packet

/-- A datagram as UDP sends it, with its size in the UDP header. -/
def IsDatagram : Packet → Prop
  | .sdu s => s.udpLength.toNat = 20 + s.payload.length
  | .zeros _ => False

/-- The packet without what adding its headers again may change. -/
def core : Packet → Packet
  | .sdu s => .sdu { s with ipv4 := readdIpv4 s.ipv4, udpLength := 0 }
  | .zeros n => .zeros n

/-- The headers added again are those removed: the size of the datagram is 8
modulo `2 ^ 16`, which is too long for a packet. -/
def Stays : Packet → Prop
  | .sdu s => readdIpv4 s.ipv4 = s.ipv4 ∧ s.udpLength = 8 ∧ UInt16.ofNat (20 + s.payload.length) = 8
  | .zeros _ => True

theorem readdIpv4_readdIpv4 (ipv4 : List UInt8) : readdIpv4 (readdIpv4 ipv4) = readdIpv4 ipv4 := by
  have hmask : ∀ b : UInt8, b &&& 0x7f &&& 0x7f = b &&& 0x7f := fun b => by
    rw [UInt8.and_assoc]
    rfl
  refine List.ext_getElem? fun i => ?_
  simp only [readdIpv4, List.getElem?_set, List.getElem?_modify, List.length_set, List.length_modify]
  by_cases h6 : i = 6
  · subst h6
    simp only [Nat.reduceEqDiff, if_false, if_true, Option.map_eq_map, Option.map_map, Function.comp_def, hmask]
  · grind

@[simp] theorem core_readdHeaders (p : Packet) : p.readdHeaders.core = p.core := by
  cases p with
  | zeros n => rfl
  | sdu s => simp only [readdHeaders, core, readdIpv4_readdIpv4]

theorem readdHeaders_eq_iff (p : Packet) : p.readdHeaders = p ↔ p.Stays := by
  cases p with
  | zeros n => exact iff_of_true rfl trivial
  | sdu s =>
    obtain ⟨ipv4, udpPorts, udpLength, udpChecksum, seqTs, payload⟩ := s
    have hzero : udpLength - 8 = 0 ↔ udpLength = 8 := by grind
    simp only [readdHeaders, Stays, Packet.sdu.injEq, Sdu.mk.injEq, true_and, and_true, and_congr_right_iff]
    intro _
    split
    · rename_i h
      rw [hzero] at h
      simp [h]
    · rename_i h
      rw [hzero] at h
      simp only [h, false_and, iff_false]
      intro hsame
      grind

/-- **The length falls short by 8** bytes each time the headers of a datagram
are added again. -/
theorem IsDatagram.readdHeaders {p : Packet} (h : p.IsDatagram) :
    ¬ p.readdHeaders.IsDatagram ∧ ¬ p.readdHeaders.readdHeaders.IsDatagram := by
  cases p with
  | zeros n => exact h.elim
  | sdu s =>
    have hfall : ∀ (l : UInt16) (m : Nat), l.toNat = 9 + m → l - 8 ≠ 0 ∧ (l - 8).toNat = 1 + m := by
      intro l m hl
      have hle : (8 : UInt16) ≤ l := by
        rw [UInt16.le_iff_toNat_le, hl]
        exact Nat.le_trans (by decide) (Nat.le_add_right 9 m)
      have hsub := UInt16.toNat_sub_of_le l 8 hle
      rw [hl, show (8 : UInt16).toNat = 8 from rfl] at hsub
      refine ⟨fun h0 => ?_, by omega⟩
      rw [h0, show (0 : UInt16).toNat = 0 from rfl] at hsub
      omega
    have hlen : s.udpLength.toNat = 9 + (11 + s.payload.length) := by
      rw [h]
      omega
    obtain ⟨hne, honce⟩ := hfall _ _ hlen
    obtain ⟨hne', htwice⟩ := hfall _ (3 + s.payload.length) (honce.trans (by omega))
    simp only [Packet.readdHeaders, IsDatagram, if_neg hne, if_neg hne']
    omega

end Packet

def datagram (n : Nat) : Packet :=
  .sdu {
    ipv4 := [0x45, 0, 0, 40, 0, 0, 0, 0, 64, 17, 0, 0, 10, 0, 0, 1, 10, 0, 0, 2]
    udpPorts := [0xc0, 0, 0, 9]
    udpLength := 20
    udpChecksum := 0
    seqTs := ⟨n, 0⟩
    payload := [] }

theorem datagram_isDatagram (n : Nat) : (datagram n).IsDatagram := rfl

structure NcHeader where
  dorC : Nat := 0
  polling : Nat := 0
  rank : Nat := 0
  groupnum : Nat := 0
  sn : Nat := 255
  israwpacket : Nat := 0
  coeff : Nat := 0
  deriving DecidableEq

structure NcPdu where
  header : NcHeader
  packet : Packet
  deriving DecidableEq

/-- `ncPara`: a packet of a group with its coding coefficients. The redundancy
entries of the sender have no packet (a null pointer). -/
structure NcPara where
  p : Option Packet := none
  coff : List Nat := []
  israwpacket : Nat := 0
  sn : Nat := 255
  deriving DecidableEq

/-- The 64 coefficient bits, most significant first. -/
def coeffBits (coeff : Nat) : List Nat :=
  (List.range 64).map fun k => (coeff >>> (63 - k)) &&& 1

/-- The coefficient drawn for a redundancy or ARQ packet: one `rand()%2` for
each of the `n` originals, from the top bit down. -/
def randCoeff (n : Nat) (rand : Nat → Nat) : Nat :=
  (List.range n).foldl (fun coeff i => coeff ||| ((rand i % 2) <<< (63 - i))) 0

/-- What the scheduler calls when a status-report timer expires: the method,
the group and the report it was scheduled with. -/
inductive StatusTimer where
  | ncExpire (groupnum : Nat) (p : NcPdu)
  | copyExpire (groupnum : Nat) (p : NcPdu)
  deriving DecidableEq

/-- `l[i] ++`, undefined outside the array. -/
def bumpAt (l : List Nat) (i k : Nat) : Option (List Nat) :=
  match l[i]? with
  | some x => some (l.set i (x + k))
  | none => none

theorem bumpAt_length {l l' : List Nat} {i k : Nat} (h : bumpAt l i k = some l') : l'.length = l.length := by
  unfold bumpAt at h
  split at h
  · rw [← Option.some.inj h, List.length_set]
  · cases h

/-- A loop `while (cond (v)) v++`, cut after `n` rounds. -/
def skipWhile (cond : Nat → Bool) : Nat → Nat → Nat
  | 0, v => v
  | n + 1, v => if cond v then skipWhile cond n (v + 1) else v

theorem skipWhile_spec (cond : Nat → Bool) : ∀ n v, v ≤ skipWhile cond n v ∧
    ∀ g, v ≤ g → g < skipWhile cond n v → cond g = true
  | 0, v => ⟨Nat.le_refl v, fun g hle hlt => absurd hlt (Nat.not_lt.mpr hle)⟩
  | n + 1, v => by
    unfold skipWhile
    split
    · rename_i hv
      obtain ⟨hle, hcond⟩ := skipWhile_spec cond n (v + 1)
      refine ⟨by omega, fun g hvg hg => ?_⟩
      rcases Nat.eq_or_lt_of_le hvg with rfl | hlt
      · exact hv
      · exact hcond g hlt hg
    · exact ⟨Nat.le_refl v, fun g hle hlt => absurd hlt (Nat.not_lt.mpr hle)⟩

end Ns3
