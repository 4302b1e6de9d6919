import Ns3.Internet.Ipv4Fragmentation
import Mathlib.Data.List.Nodup
import Ns3.Internet.Ipv6Header

/-!
# Fragmentation of IPv6 packets

`GetFragments` cuts a packet that begins with no unfragmentable header into
pieces, each behind a fragment header. `m_offset` of that header is the offset
of the piece, a multiple of eight bytes, and the flag that more pieces follow.

`Cut` is what is made of the payload: all pieces but the last have a positive
multiple of eight bytes, and each begins where the one before it ends.
-/

namespace Ns3

open List

structure Ipv6ExtensionFragmentHeader where
  nextHeader : UInt8 := 0
  offset : Nat := 0
  identification : UInt32 := 0
  deriving DecidableEq

namespace Ipv6ExtensionFragmentHeader

def setOffset (h : Ipv6ExtensionFragmentHeader) (offset : Nat) : Ipv6ExtensionFragmentHeader :=
  { h with offset := (h.offset &&& 1) ||| (offset &&& 0xfff8) }

def getOffset (h : Ipv6ExtensionFragmentHeader) : Nat := h.offset &&& 0xfffe

def setMoreFragment (h : Ipv6ExtensionFragmentHeader) (moreFragment : Bool) : Ipv6ExtensionFragmentHeader :=
  { h with offset := if moreFragment then h.offset ||| 1 else h.offset &&& 0xfffe }

def getMoreFragment (h : Ipv6ExtensionFragmentHeader) : Bool := h.offset &&& 1 ≠ 0

def getSerializedSize (_ : Ipv6ExtensionFragmentHeader) : Nat := 8

def serialize (h : Ipv6ExtensionFragmentHeader) : Bytes :=
  [h.nextHeader, 0] ++ writeHton 2 h.offset ++ writeHton 4 h.identification.toNat

def deserialize (bytes : Bytes) : Option Ipv6ExtensionFragmentHeader :=
  (readU8 bytes).bind fun (nextHeader, bytes) =>
    (readU8 bytes).bind fun (_, bytes) =>
      (readNtoh 2 bytes).bind fun (offset, bytes) =>
        (readNtoh 4 bytes).map fun (identification, _) => ⟨nextHeader, offset, UInt32.ofNat identification⟩

end Ipv6ExtensionFragmentHeader

abbrev Ipv6Packet := Bytes × Ipv6Header

namespace Ipv6ExtensionFragment

open Ipv6Header

/-- Does a packet begin with a header that is in every fragment? -/
def moreHeader (packet : Bytes) (nextHeader : UInt8) : Bool :=
  nextHeader = IPV6_EXT_HOP_BY_HOP || nextHeader = IPV6_EXT_ROUTING ||
    (nextHeader = IPV6_EXT_DESTINATION && packet.head? = some IPV6_EXT_ROUTING)

/-- The loop of `GetFragments`, given up after as many rounds as the packet has bytes. -/
def fragmentLoop (p : Bytes) (ipv6Header : Ipv6Header) (nextHeader : UInt8) (identification : UInt32)
    (maxFragmentablePartSize : Nat) : Nat → Ipv6ExtensionFragmentHeader → Nat → Option (List Ipv6Packet)
  | 0, _, _ => none
  | rounds + 1, fragmentHeader, offset =>
    let moreFragment := decide (p.length > uint32 (offset + maxFragmentablePartSize))
    let currentFragmentablePartSize :=
      if moreFragment then maxFragmentablePartSize - maxFragmentablePartSize % 8 else uint32 (p.length - offset)
    let fragmentHeader := { ({ fragmentHeader with nextHeader := nextHeader }.setOffset offset).setMoreFragment moreFragment with
      identification := identification }
    let fragment := fragmentHeader.serialize ++ (p.drop offset).take currentFragmentablePartSize
    let listed : Ipv6Packet := (fragment, { ipv6Header with payloadLength := UInt16.ofNat fragment.length })
    if moreFragment then
      (fragmentLoop p ipv6Header nextHeader identification maxFragmentablePartSize rounds fragmentHeader
        (uint16 (offset + currentFragmentablePartSize))).map fun rest => listed :: rest
    else some [listed]

/-- Packets that begin with an unfragmentable header are left out. -/
def getFragments (packet : Bytes) (ipv6Header : Ipv6Header) (maxFragmentSize : Nat) (identification : UInt32) :
    Option (List Ipv6Packet) :=
  if moreHeader packet ipv6Header.nextHeader then none
  else
    fragmentLoop packet { ipv6Header with nextHeader := IPV6_EXT_FRAGMENTATION } ipv6Header.nextHeader identification
      (uint32 (maxFragmentSize - ipv6Header.getSerializedSize - 8)) (packet.length + 1) {} 0

end Ipv6ExtensionFragment

/-! ## Fragment headers -/

namespace Ipv6ExtensionFragmentHeader

def headerOf (nextHeader : UInt8) (identification : UInt32) (offset : Nat) (moreFragment : Bool) : Ipv6ExtensionFragmentHeader :=
  ⟨nextHeader, offset + moreFragment.toNat, identification⟩

section
variable {offset : Nat}

theorem offset_set (h : Ipv6ExtensionFragmentHeader) (haligned : offset % 8 = 0) (hlt : offset < 65536) (moreFragment : Bool) :
    ((h.setOffset offset).setMoreFragment moreFragment).offset = offset + moreFragment.toNat := by
  have hmask : offset &&& 0xfff8 = offset := by
    have hfield : offset &&& 0xfff8 = offset / 2 ^ 3 % 2 ^ 13 * 2 ^ 3 := and_field offset 13 3
    rw [hfield]
    lia
  have hbit : h.offset &&& 1 < 2 ^ 3 := by
    rw [Nat.and_one_is_mod]
    omega
  have hkept : (h.setOffset offset).offset = offset ||| (h.offset &&& 1) := by
    rw [setOffset, hmask, Nat.or_comm]
  cases moreFragment with
  | true =>
    have hone : (h.offset &&& 1) ||| 1 = 1 := by
      rw [Nat.and_one_is_mod]
      obtain hzero | hodd := Nat.mod_two_eq_zero_or_one h.offset
      · rw [hzero]
        rfl
      · rw [hodd]
        rfl
    simp only [setMoreFragment, if_true, hkept, Nat.or_assoc, hone]
    exact or_eq_add 3 haligned (by decide)
  | false =>
    have hfield : (offset + (h.offset &&& 1)) &&& 0xfffe = (offset + (h.offset &&& 1)) / 2 ^ 1 % 2 ^ 15 * 2 ^ 1 := and_field _ 15 1
    simp only [setMoreFragment, Bool.false_eq_true, if_false, hkept]
    rw [or_eq_add 3 haligned hbit, hfield, Nat.and_one_is_mod]
    simp only [Bool.toNat_false]
    lia

theorem getOffset_headerOf (nextHeader : UInt8) (identification : UInt32) (haligned : offset % 8 = 0) (hlt : offset < 65536)
    (moreFragment : Bool) : (headerOf nextHeader identification offset moreFragment).getOffset = offset := by
  have hfield : (offset + moreFragment.toNat) &&& 0xfffe = (offset + moreFragment.toNat) / 2 ^ 1 % 2 ^ 15 * 2 ^ 1 := and_field _ 15 1
  have hbit := moreFragment.toNat_lt
  rw [getOffset, headerOf]
  simp only [hfield]
  lia

theorem getMoreFragment_headerOf (nextHeader : UInt8) (identification : UInt32) (haligned : offset % 8 = 0)
    (moreFragment : Bool) : (headerOf nextHeader identification offset moreFragment).getMoreFragment = moreFragment := by
  rw [getMoreFragment, headerOf]
  simp only [Nat.and_one_is_mod]
  cases moreFragment with
  | true => exact decide_eq_true (by simp only [Bool.toNat_true]; omega)
  | false => exact decide_eq_false (by simp only [Bool.toNat_false]; omega)

@[simp] theorem length_serialize (h : Ipv6ExtensionFragmentHeader) : h.serialize.length = 8 := by
  simp [serialize]

theorem deserialize_serialize (h : Ipv6ExtensionFragmentHeader) (hlt : h.offset < 65536) (rest : Bytes) :
    deserialize (h.serialize ++ rest) = some h := by
  have hword := h.identification.toNat_lt
  simp only [deserialize, serialize, append_assoc, cons_append, nil_append, readU8_cons, readNtoh_writeHton,
    Option.bind_some, Option.map_some]
  rw [Nat.mod_eq_of_lt (by simpa using hlt), Nat.mod_eq_of_lt (by simpa using hword), UInt32.ofNat_toNat]

end

end Ipv6ExtensionFragmentHeader

/-! ## Pieces of a payload -/

structure Ipv6Piece where
  bytes : Bytes
  offset : Nat
  more : Bool
  deriving DecidableEq

inductive Cut (payload : Bytes) : Nat → List Ipv6Piece → Prop
  | last {offset : Nat} : offset < payload.length ∨ offset = 0 → Cut payload offset [⟨payload.drop offset, offset, false⟩]
  | more {offset n : Nat} {rest : List Ipv6Piece} : 0 < n → n % 8 = 0 → offset + n < payload.length → Cut payload (offset + n) rest →
      Cut payload offset (⟨(payload.drop offset).take n, offset, true⟩ :: rest)

namespace Cut

variable {payload : Bytes} {offset : Nat} {pieces : List Ipv6Piece} {x y : Ipv6Piece}

theorem bounds (h : Cut payload offset pieces) (hx : x ∈ pieces) :
    offset ≤ x.offset ∧ x.offset + x.bytes.length ≤ max offset payload.length := by
  induction h with
  | last hin =>
    obtain rfl := mem_singleton.mp hx
    simp only [length_drop]
    omega
  | more hpos haligned hlt _ ih =>
    rcases mem_cons.mp hx with rfl | hx
    · simp only [length_take, length_drop]
      omega
    · obtain ⟨hlo, hhi⟩ := ih hx
      omega

theorem aligned (h : Cut payload offset pieces) (hoffset : offset % 8 = 0) (hx : x ∈ pieces) : x.offset % 8 = 0 := by
  induction h with
  | last hin =>
    obtain rfl := mem_singleton.mp hx
    exact hoffset
  | more hpos haligned hlt _ ih =>
    rcases mem_cons.mp hx with rfl | hx
    · exact hoffset
    · exact ih (by omega) hx

theorem increasing (h : Cut payload offset pieces) : pieces.Pairwise fun x y => x.offset < y.offset := by
  induction h with
  | last hin => exact pairwise_singleton _ _
  | more hpos haligned hlt hrest ih =>
    refine pairwise_cons.mpr ⟨fun y hy => ?_, ih⟩
    have hle := (hrest.bounds hy).1
    simp only
    omega

theorem offset_inj (h : Cut payload offset pieces) (hx : x ∈ pieces) (hy : y ∈ pieces) (heq : x.offset = y.offset) : x = y := by
  have hnodup : (pieces.map Ipv6Piece.offset).Nodup := pairwise_map.mpr (h.increasing.imp ne_of_lt)
  exact inj_on_of_nodup_map hnodup hx hy heq

theorem eq_of_nil (h : Cut [] 0 pieces) (hx : x ∈ pieces) (hy : y ∈ pieces) : x = y := by
  have hoffset : ∀ w ∈ pieces, w.offset = 0 := fun w hw => by
    have hbounds := (h.bounds hw).2
    simpa using Nat.le_trans (Nat.le_add_right _ _) hbounds
  exact h.offset_inj hx hy ((hoffset x hx).trans (hoffset y hy).symm)

theorem more_iff (h : Cut payload offset pieces) (hle : offset ≤ payload.length) (hx : x ∈ pieces) :
    x.more = true ↔ x.offset + x.bytes.length < payload.length := by
  induction h with
  | last hin =>
    obtain rfl := mem_singleton.mp hx
    simp only [length_drop]
    constructor
    · intro hmore
      cases hmore
    · intro hlt
      omega
  | more hpos haligned hlt _ ih =>
    rcases mem_cons.mp hx with rfl | hx
    · simp only [length_take, length_drop, true_iff]
      omega
    · exact ih (by omega) hx

theorem bytes (h : Cut payload offset pieces) : (pieces.map Ipv6Piece.bytes).flatten = payload.drop offset := by
  induction h with
  | last hin => simp
  | more hpos haligned hlt _ ih =>
    rw [map_cons, flatten_cons, ih, ← drop_drop, take_append_drop]

theorem exists_last (h : Cut payload offset pieces) : ∃ x ∈ pieces, x.more = false := by
  induction h with
  | last hin => exact ⟨_, mem_cons_self, rfl⟩
  | more hpos haligned hlt _ ih =>
    obtain ⟨x, hx, hmore⟩ := ih
    exact ⟨x, mem_cons_of_mem _ hx, hmore⟩

theorem exists_first (h : Cut payload offset pieces) : ∃ x ∈ pieces, x.offset = offset := by
  cases h with
  | last hin => exact ⟨_, mem_cons_self, rfl⟩
  | more hpos haligned hlt hrest => exact ⟨_, mem_cons_self, rfl⟩

theorem lt_last (h : Cut payload offset pieces) (hle : offset ≤ payload.length) (hx : x ∈ pieces) (hlast : x.more = false)
    (hy : y ∈ pieces) (hne : y ≠ x) : y.offset < x.offset ∧ y.more = true := by
  induction h with
  | last hin =>
    obtain rfl := mem_singleton.mp hx
    exact absurd (mem_singleton.mp hy) hne
  | more hpos haligned hlt hrest ih =>
    rcases mem_cons.mp hx with rfl | hx
    · cases hlast
    · rcases mem_cons.mp hy with rfl | hy
      · have hlow := (hrest.bounds hx).1
        exact ⟨by simp only; omega, rfl⟩
      · exact ih (by omega) hx hy

end Cut

namespace Ipv6ExtensionFragment

open Ipv6Header
open Ipv6ExtensionFragmentHeader (headerOf offset_set)

def packetOf (h : Ipv6Header) (identification : UInt32) (x : Ipv6Piece) : Ipv6Packet :=
  ((headerOf h.nextHeader identification x.offset x.more).serialize ++ x.bytes,
    { h with nextHeader := IPV6_EXT_FRAGMENTATION, payloadLength := UInt16.ofNat (8 + x.bytes.length) })

section
variable {payload : Bytes} {size : Nat}

theorem fragmentLoop_spec (h : Ipv6Header) (identification : UInt32) (hbound : payload.length ≤ 65535) (hpos : 8 ≤ size) :
    ∀ (rounds : Nat) (fragmentHeader : Ipv6ExtensionFragmentHeader) (offset : Nat), payload.length < rounds + offset →
      offset < payload.length ∨ offset = 0 → offset % 8 = 0 → offset + size < 4294967296 →
      ∃ pieces, fragmentLoop payload { h with nextHeader := IPV6_EXT_FRAGMENTATION } h.nextHeader identification size rounds
          fragmentHeader offset = some (pieces.map (packetOf h identification)) ∧
        Cut payload offset pieces ∧ ∀ x ∈ pieces, x.bytes.length ≤ size ∧ (x.more = true → x.bytes.length = size - size % 8)
  | 0, _, offset, hrounds, hin, _, _ => by omega
  | rounds + 1, fragmentHeader, offset, hrounds, hin, haligned, hsum => by
    have hsum' : uint32 (offset + size) = offset + size := uint32_add hsum
    have hrest : uint32 (payload.length - offset) = payload.length - offset := uint32_sub (by omega) (by omega)
    have hheader : ∀ moreFragment : Bool,
        { ({ fragmentHeader with nextHeader := h.nextHeader }.setOffset offset).setMoreFragment moreFragment with
          identification := identification } = headerOf h.nextHeader identification offset moreFragment := fun moreFragment => by
      have hoffset := offset_set { fragmentHeader with nextHeader := h.nextHeader } haligned (by omega) moreFragment
      rw [headerOf, ← hoffset]
      rfl
    rw [fragmentLoop, hsum', hrest]
    by_cases hmore : payload.length > offset + size
    · have hn : offset + (size - size % 8) < 65536 := by lia
      obtain ⟨rest, hloop, hcut, hfits⟩ := fragmentLoop_spec h identification hbound hpos rounds
        (headerOf h.nextHeader identification offset true) (offset + (size - size % 8)) (by omega) (by omega) (by omega) (by omega)
      have hlength : ((payload.drop offset).take (size - size % 8)).length = size - size % 8 := by
        rw [length_take, length_drop]
        lia
      have hnext : uint16 (offset + (size - size % 8) : Nat) = offset + (size - size % 8) := Ipv4L3Protocol.uint16_of_lt hn
      push_cast at hnext
      simp only [decide_eq_true hmore, if_true, hheader, length_append, Ipv6ExtensionFragmentHeader.length_serialize]
      rw [hnext, hloop]
      refine ⟨⟨(payload.drop offset).take (size - size % 8), offset, true⟩ :: rest, rfl, .more (by lia) (by lia) (by lia) hcut,
        forall_mem_cons.mpr ⟨⟨?_, fun _ => hlength⟩, hfits⟩⟩
      rw [hlength]
      exact Nat.sub_le _ _
    · have hlength : (payload.drop offset).take (payload.length - offset) = payload.drop offset :=
        take_of_length_le (by rw [length_drop])
      simp only [decide_eq_false hmore, Bool.false_eq_true, if_false, hheader, length_append,
        Ipv6ExtensionFragmentHeader.length_serialize, hlength]
      refine ⟨[⟨payload.drop offset, offset, false⟩], rfl, .last hin, forall_mem_singleton.mpr ⟨?_, ?_⟩⟩
      · rw [length_drop]
        omega
      · intro h
        cases h

theorem getFragments_spec (h : Ipv6Header) (identification : UInt32) (hbound : payload.length ≤ 65527)
    (hplain : moreHeader payload h.nextHeader = false) {maxFragmentSize : Nat} (hlo : 56 ≤ maxFragmentSize)
    (hhi : maxFragmentSize < 4294967296) :
    ∃ pieces, getFragments payload h maxFragmentSize identification = some (pieces.map (packetOf h identification)) ∧
      Cut payload 0 pieces ∧ ∀ f ∈ pieces.map (packetOf h identification), h.getSerializedSize + f.1.length ≤ maxFragmentSize := by
  have hpos : 8 ≤ maxFragmentSize - 48 := by omega
  have hsize : uint32 (maxFragmentSize - h.getSerializedSize - 8) = maxFragmentSize - 48 := by
    have hsub : uint32 (maxFragmentSize - 48) = maxFragmentSize - 48 := uint32_sub (b := 48) (by omega) hhi
    rw [getSerializedSize, ← hsub]
    congr 1
    omega
  obtain ⟨pieces, hloop, hcut, hfits⟩ := fragmentLoop_spec h identification (hbound.trans (by decide)) hpos
    (payload.length + 1) {} 0 (by omega) (.inr rfl) rfl (by omega)
  refine ⟨pieces, by rw [getFragments, hplain, hsize]; exact hloop, hcut, fun f hf => ?_⟩
  obtain ⟨x, hx, rfl⟩ := List.mem_map.mp hf
  have hle := (hfits x hx).1
  simp only [packetOf, length_append, Ipv6ExtensionFragmentHeader.length_serialize, getSerializedSize]
  omega

end

end Ipv6ExtensionFragment

end Ns3
