import Ns3.Lib.BitField
import Ns3.Lib.NetOrder
import Ns3.Rlc.RlcHeader

/-!
# `Ipv6Header`

The fixed header and its bytes. The flow label is kept in a field of 20 bits;
`Deserialize` masks the other twelve bits of the first word, so that a header
that was read has the flow label 0.
-/

namespace Ns3

structure Ipv6Address where
  bytes : Bytes
  length_bytes : bytes.length = 16
  deriving DecidableEq

attribute [simp] Ipv6Address.length_bytes

theorem Ipv6Address.ext_bytes {a b : Ipv6Address} (h : a.bytes = b.bytes) : a = b := by
  cases a
  cases b
  congr

structure Ipv6Header where
  trafficClass : UInt8
  flowLabel : BitVec 20
  payloadLength : UInt16
  nextHeader : UInt8
  hopLimit : UInt8
  source : Ipv6Address
  destination : Ipv6Address
  deriving DecidableEq

namespace Ipv6Header

def IPV6_EXT_HOP_BY_HOP : UInt8 := 0
def IPV6_UDP : UInt8 := 17
def IPV6_IPV6 : UInt8 := 41
def IPV6_EXT_ROUTING : UInt8 := 43
def IPV6_EXT_FRAGMENTATION : UInt8 := 44
def IPV6_EXT_DESTINATION : UInt8 := 60

def getSerializedSize (_ : Ipv6Header) : Nat := 40

/-- The first word: version, traffic class and flow label. -/
def vTcFl (h : Ipv6Header) : Nat := (6 <<< 28) ||| (h.trafficClass.toNat <<< 20) ||| h.flowLabel.toNat

def serialize (h : Ipv6Header) : Bytes :=
  writeHton 4 h.vTcFl ++ writeHton 2 h.payloadLength.toNat ++ [h.nextHeader, h.hopLimit] ++ h.source.bytes ++
    h.destination.bytes

def readAddress (bytes : Bytes) : Option (Ipv6Address × Bytes) :=
  if h : 16 ≤ bytes.length then some (⟨bytes.take 16, by rw [List.length_take, Nat.min_eq_left h]⟩, bytes.drop 16) else none

/-- `Deserialize` into a header, and the size it returns; another version is refused. -/
def deserialize (h : Ipv6Header) (bytes : Bytes) : Option (Ipv6Header × Nat) :=
  (readNtoh 4 bytes).bind fun (vTcFl, bytes) =>
    if vTcFl >>> 28 ≠ 6 then some (h, 0)
    else
      (readNtoh 2 bytes).bind fun (payloadLength, bytes) =>
        (readU8 bytes).bind fun (nextHeader, bytes) =>
          (readU8 bytes).bind fun (hopLimit, bytes) =>
            (readAddress bytes).bind fun (source, bytes) =>
              (readAddress bytes).map fun (destination, _) =>
                ({ trafficClass := UInt8.ofNat ((vTcFl >>> 20) &&& 0x000000ff)
                   flowLabel := BitVec.ofNat 20 (vTcFl &&& 0xfff00000)
                   payloadLength := UInt16.ofNat payloadLength
                   nextHeader := nextHeader
                   hopLimit := hopLimit
                   source := source
                   destination := destination }, h.getSerializedSize)

@[simp] theorem length_serialize (h : Ipv6Header) : h.serialize.length = h.getSerializedSize := by
  simp [serialize, getSerializedSize]

theorem vTcFl_eq (h : Ipv6Header) : h.vTcFl = 6 * 2 ^ 28 + h.trafficClass.toNat * 2 ^ 20 + h.flowLabel.toNat := by
  have htc := h.trafficClass.toNat_lt
  have hfl := h.flowLabel.isLt
  have hhigh : 6 * 2 ^ 28 ||| h.trafficClass.toNat * 2 ^ 20 = 6 * 2 ^ 28 + h.trafficClass.toNat * 2 ^ 20 :=
    or_eq_add 28 (by omega) (by omega)
  rw [vTcFl, Nat.shiftLeft_eq, Nat.shiftLeft_eq, hhigh, or_eq_add 20 (by omega) hfl]

theorem readAddress_append (a : Ipv6Address) (rest : Bytes) : readAddress (a.bytes ++ rest) = some (a, rest) := by
  have hle : 16 ≤ (a.bytes ++ rest).length := by
    rw [List.length_append, a.length_bytes]
    omega
  have htake : (a.bytes ++ rest).take 16 = a.bytes := by
    rw [← a.length_bytes, List.take_left]
  have hdrop : (a.bytes ++ rest).drop 16 = rest := by
    rw [← a.length_bytes, List.drop_left]
  rw [readAddress, dif_pos hle]
  simp only [hdrop, Option.some.injEq, Prod.mk.injEq, and_true]
  exact Ipv6Address.ext_bytes htake

theorem deserialize_serialize (h old : Ipv6Header) (rest : Bytes) :
    old.deserialize (h.serialize ++ rest) = some ({ h with flowLabel := 0 }, 40) := by
  have htc := h.trafficClass.toNat_lt
  have hfl := h.flowLabel.isLt
  have hword : h.vTcFl < 2 ^ 32 := by
    rw [vTcFl_eq]
    omega
  have hversion : h.vTcFl >>> 28 = 6 := by
    rw [vTcFl_eq, Nat.shiftRight_eq_div_pow]
    omega
  have hclass : (h.vTcFl >>> 20) &&& 0x000000ff = h.trafficClass.toNat := by
    rw [field_high _ 8 20 (by decide), vTcFl_eq]
    omega
  have hlabel : BitVec.ofNat 20 (h.vTcFl &&& 0xfff00000) = 0 := by
    refine BitVec.eq_of_toNat_eq ?_
    have hmask : h.vTcFl &&& 0xfff00000 = h.vTcFl / 2 ^ 20 % 2 ^ 12 * 2 ^ 20 := and_field _ 12 20
    rw [hmask, BitVec.toNat_ofNat, Nat.mul_mod_left]
    rfl
  have hlength := h.payloadLength.toNat_lt
  simp only [deserialize, serialize, List.append_assoc, readNtoh_writeHton, Option.bind_some]
  rw [Nat.mod_eq_of_lt (a := h.vTcFl) (by simpa using hword), if_neg (by rw [hversion]; simp)]
  simp only [Option.bind_some, List.cons_append, List.nil_append, readU8_cons, readAddress_append,
    Option.map_some, hclass, hlabel, UInt8.ofNat_toNat, getSerializedSize]
  rw [Nat.mod_eq_of_lt (by simpa using hlength), UInt16.ofNat_toNat]

theorem serialize_injective {h g : Ipv6Header} (hbytes : h.serialize = g.serialize) : h = g := by
  have hfields : { h with flowLabel := 0 } = { g with flowLabel := 0 } := by
    have hread := deserialize_serialize h g []
    rw [hbytes, deserialize_serialize] at hread
    exact (congrArg Prod.fst (Option.some.inj hread)).symm
  have hword : ∀ x : Ipv6Header, (readNtoh 4 x.serialize).map Prod.fst = some x.vTcFl := by
    intro x
    have htc := x.trafficClass.toNat_lt
    have hfl := x.flowLabel.isLt
    have hlt : x.vTcFl < 256 ^ 4 := by
      rw [x.vTcFl_eq]
      omega
    rw [serialize]
    simp only [List.append_assoc, readNtoh_writeHton, Option.map_some, Nat.mod_eq_of_lt hlt]
  have hwords := hword h
  rw [hbytes, hword, Option.some.injEq, vTcFl_eq, vTcFl_eq] at hwords
  cases h
  cases g
  simp only [mk.injEq, true_and] at hfields
  obtain ⟨rfl, rfl, rfl, rfl, rfl, rfl⟩ := hfields
  obtain rfl := BitVec.eq_of_toNat_eq (Nat.add_left_cancel hwords)
  rfl

end Ipv6Header

end Ns3
