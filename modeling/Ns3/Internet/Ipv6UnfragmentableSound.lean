import Ns3.Internet.Ipv6UnfragmentablePart
import Mathlib.Algebra.Order.BigOperators.Group.List
import Mathlib.Algebra.Order.Ring.Nat

/-!
# The headers of the fragments

The headers are put back in the order they were taken off, so that more than
one of them come out in reverse, the one that names the fragment header first.
The size of a header of 256 bytes or more loses its high bits, and fragments
become longer than they may be.
-/

namespace Ns3

open Ipv6Header List Option

namespace LooseRoutingHeader

/-- A header whose addresses fill it. -/
structure Sized (h : LooseRoutingHeader) : Prop where
  even : h.m_length.toNat % 2 = 0
  size : h.m_routersAddress.length = h.m_length.toNat / 2 * 16

variable {h : LooseRoutingHeader}

theorem Sized.serialize_eq (hsized : h.Sized) : h.serialize =
    [h.nextHeader, h.m_length, h.m_typeRouting, h.m_segmentsLeft, 0, 0, 0, 0] ++ h.m_routersAddress := by
  have hlength : h.m_routersAddress.length / 16 * 2 = h.m_length.toNat := by
    have heven := hsized.even
    rw [hsized.size]
    omega
  rw [serialize, hlength, UInt8.ofNat_toNat]

theorem Sized.length_serialize (hsized : h.Sized) : h.serialize.length = extensionLength h.m_length := by
  have heven := hsized.even
  rw [hsized.serialize_eq, extensionLength_eq, length_append, hsized.size]
  simp only [length_cons, length_nil]
  omega

theorem Sized.getSerializedSize_eq (hsized : h.Sized) : h.getSerializedSize = h.serialize.length := by
  rw [hsized.serialize_eq, length_append]
  rfl

theorem Sized.deserialize_serialize (hsized : h.Sized) (rest : Bytes) : deserialize (h.serialize ++ rest) = some h := by
  rw [hsized.serialize_eq, deserialize]
  simp only [cons_append, nil_append, readU8_cons, bind_some]
  have hzeros : [(0 : UInt8), 0, 0, 0].length = 4 := rfl
  have hreserved := readBytes_of_length hzeros (h.m_routersAddress ++ rest)
  simp only [cons_append, nil_append] at hreserved
  rw [hreserved, bind_some, readBytes_of_length hsized.size]
  rfl

end LooseRoutingHeader

theorem OptionsHeader.Sized.length_serialize {h : OptionsHeader} (hsized : h.Sized) :
    h.serialize.length = extensionLength h.m_length := by
  have hsize := hsized.size
  rw [hsized.serialize_eq, length_append]
  simp only [length_cons, length_nil]
  omega

namespace UnfragmentableHeader

def Sized : UnfragmentableHeader → Prop
  | .HOP_BY_HOP h => h.Sized
  | .ROUTING h => h.Sized
  | .DESTINATION h => h.Sized

variable {h : UnfragmentableHeader}

theorem sized_setNextHeader (hsized : h.Sized) (nextHeader : UInt8) : (h.setNextHeader nextHeader).Sized := by
  cases h with
  | HOP_BY_HOP h => exact ⟨hsized.size⟩
  | ROUTING h => exact ⟨hsized.even, hsized.size⟩
  | DESTINATION h => exact ⟨hsized.size⟩

theorem length_serialize (hsized : h.Sized) : h.serialize.length = h.getLength := by
  cases h with
  | HOP_BY_HOP h => exact OptionsHeader.Sized.length_serialize hsized
  | ROUTING h => exact LooseRoutingHeader.Sized.length_serialize hsized
  | DESTINATION h => exact OptionsHeader.Sized.length_serialize hsized

theorem head_serialize (hsized : h.Sized) : ∃ bytes, h.serialize = h.nextHeader :: bytes := by
  cases h with
  | HOP_BY_HOP h => exact ⟨_, OptionsHeader.Sized.serialize_eq hsized⟩
  | ROUTING h => exact ⟨_, LooseRoutingHeader.Sized.serialize_eq hsized⟩
  | DESTINATION h => exact ⟨_, OptionsHeader.Sized.serialize_eq hsized⟩

theorem remove_serialize (hsized : h.Sized) (rest : Bytes) : remove h.kind (h.serialize ++ rest) = some (h, rest) := by
  cases h with
  | HOP_BY_HOP h =>
    have hread := OptionsHeader.Sized.deserialize_serialize hsized rest
    simp [remove, kind, serialize, hread, OptionsHeader.Sized.getSerializedSize_eq hsized]
  | ROUTING h =>
    have hread := LooseRoutingHeader.Sized.deserialize_serialize hsized rest
    have hne : IPV6_EXT_ROUTING ≠ IPV6_EXT_HOP_BY_HOP := by decide
    simp [remove, kind, serialize, hread, LooseRoutingHeader.Sized.getSerializedSize_eq hsized, hne]
  | DESTINATION h =>
    have hread := OptionsHeader.Sized.deserialize_serialize hsized rest
    have hne : IPV6_EXT_DESTINATION ≠ IPV6_EXT_HOP_BY_HOP := by decide
    have hne' : IPV6_EXT_DESTINATION ≠ IPV6_EXT_ROUTING := by decide
    simp [remove, kind, serialize, hread, OptionsHeader.Sized.getSerializedSize_eq hsized, hne, hne']

theorem length_pos (hsized : h.Sized) : 8 ≤ h.serialize.length := by
  rw [length_serialize hsized]
  cases h with
  | HOP_BY_HOP h => simp only [getLength, extensionLength_eq]; omega
  | ROUTING h => simp only [getLength, extensionLength_eq]; omega
  | DESTINATION h => simp only [getLength, extensionLength_eq]; omega

@[simp] theorem nextHeader_setNextHeader (nextHeader : UInt8) : (h.setNextHeader nextHeader).nextHeader = nextHeader := by
  cases h <;> rfl

@[simp] theorem getLength_setNextHeader (nextHeader : UInt8) : (h.setNextHeader nextHeader).getLength = h.getLength := by
  cases h <;> rfl

theorem kind_ne (h : UnfragmentableHeader) : h.kind ≠ IPV6_EXT_FRAGMENTATION := by
  cases h with
  | HOP_BY_HOP h => exact (by decide : IPV6_EXT_HOP_BY_HOP ≠ IPV6_EXT_FRAGMENTATION)
  | ROUTING h => exact (by decide : IPV6_EXT_ROUTING ≠ IPV6_EXT_FRAGMENTATION)
  | DESTINATION h => exact (by decide : IPV6_EXT_DESTINATION ≠ IPV6_EXT_FRAGMENTATION)

end UnfragmentableHeader

namespace Ipv6UnfragmentablePart

open Ipv6ExtensionFragment
open Ipv6ExtensionFragmentHeader (headerOf)

/-- Headers at the front of a packet, each named by the one before it. The last one names what can be cut. -/
def Chained (rest : Bytes) : UInt8 → List UnfragmentableHeader → UInt8 → Prop
  | nextHeader, [], final => nextHeader = final ∧ moreHeader rest final = false
  | nextHeader, h :: hs, final => nextHeader = h.kind ∧ h.Sized ∧
      (h.kind = IPV6_EXT_DESTINATION → h.nextHeader = IPV6_EXT_ROUTING) ∧ Chained rest h.nextHeader hs final

/-- The headers, where the last one names the fragment header. -/
def named : List UnfragmentableHeader → List UnfragmentableHeader
  | [] => []
  | [h] => [h.setNextHeader IPV6_EXT_FRAGMENTATION]
  | h :: h' :: hs => h :: named (h' :: hs)

def serialized (hs : List UnfragmentableHeader) : Bytes := hs.flatMap UnfragmentableHeader.serialize

structure Kept (ipv6Header : Ipv6Header) (hs : List UnfragmentableHeader) (final : UInt8) (maxFragmentSize : Nat)
    (f : Ipv6Packet) : Prop where
  bytes : ∃ (fragmentHeader : Ipv6ExtensionFragmentHeader) (data : Bytes), fragmentHeader.nextHeader = final ∧
    f.1 = serialized (named hs) ++ (fragmentHeader.serialize ++ data)
  nextHeader : f.2.nextHeader = if hs = [] then IPV6_EXT_FRAGMENTATION else ipv6Header.nextHeader
  fits : f.2.getSerializedSize + f.1.length ≤ maxFragmentSize

section
variable {rest : Bytes} {nextHeader final : UInt8} {hs : List UnfragmentableHeader}

theorem Chained.sized : ∀ {nextHeader : UInt8} {hs : List UnfragmentableHeader}, Chained rest nextHeader hs final → ∀ h ∈ hs, h.Sized
  | _, [], _ => fun _ hmem => nomatch hmem
  | _, _ :: _, ⟨_, hsized, _, hchained⟩ => List.forall_mem_cons.mpr ⟨hsized, hchained.sized⟩

theorem Chained.moreHeader_eq (hchained : Chained rest nextHeader hs final) :
    moreHeader (serialized hs ++ rest) nextHeader = !hs.isEmpty := by
  cases hs with
  | nil =>
    obtain ⟨rfl, hmore⟩ := hchained
    exact hmore
  | cons h hs =>
    obtain ⟨rfl, hsized, hrouting, -⟩ := hchained
    cases h with
    | HOP_BY_HOP h => rfl
    | ROUTING h => rfl
    | DESTINATION h =>
      obtain ⟨bytes, hbytes⟩ := UnfragmentableHeader.head_serialize hsized
      have hhead : (serialized (.DESTINATION h :: hs) ++ rest).head? = some IPV6_EXT_ROUTING := by
        rw [serialized, flatMap_cons, hbytes, hrouting rfl]
        rfl
      simp [moreHeader, UnfragmentableHeader.kind, hhead]

theorem removeHeaders_chained : ∀ {rounds : Nat} {nextHeader : UInt8} {hs : List UnfragmentableHeader}, hs.length < rounds →
    Chained rest nextHeader hs final → removeHeaders rounds nextHeader (serialized hs ++ rest) = some (named hs, final, rest)
  | rounds + 1, nextHeader, [], _, hchained => by
    have hmore := hchained.moreHeader_eq
    obtain ⟨rfl, -⟩ := hchained
    rw [removeHeaders, hmore]
    rfl
  | rounds + 1, nextHeader, h :: hs, hrounds, hchained => by
    have hmore := hchained.moreHeader_eq
    obtain ⟨rfl, hsized, -, hchained⟩ := hchained
    have hbytes : serialized (h :: hs) ++ rest = h.serialize ++ (serialized hs ++ rest) := by
      rw [serialized, flatMap_cons, append_assoc]
      rfl
    have hrest := hchained.moreHeader_eq
    rw [removeHeaders, hmore, hbytes, UnfragmentableHeader.remove_serialize hsized]
    simp only [isEmpty_cons, Bool.not_false, if_true, bind_some, hrest]
    cases hs with
    | nil =>
      obtain ⟨heq, -⟩ := hchained
      rw [← heq]
      rfl
    | cons h' hs =>
      rw [removeHeaders_chained (Nat.lt_of_succ_lt_succ hrounds) hchained]
      rfl

theorem addHeaders_eq (hs : List UnfragmentableHeader) (fragment : Bytes) : addHeaders hs fragment = serialized hs.reverse ++ fragment := by
  induction hs generalizing fragment with
  | nil => rfl
  | cons h hs ih =>
    rw [addHeaders, foldl_cons, ← addHeaders, ih, reverse_cons, serialized, serialized, flatMap_append, append_assoc]
    simp

/-! ## Sizes -/

theorem length_serialized (hsized : ∀ h ∈ hs, h.Sized) : (serialized hs).length = (hs.map UnfragmentableHeader.getLength).sum := by
  induction hs with
  | nil => rfl
  | cons h hs ih =>
    obtain ⟨hh, hhs⟩ := forall_mem_cons.mp hsized
    rw [serialized, flatMap_cons, length_append, ← serialized, ih hhs, UnfragmentableHeader.length_serialize hh,
      map_cons, sum_cons]

theorem map_getLength_named : ∀ hs : List UnfragmentableHeader,
    (named hs).map UnfragmentableHeader.getLength = hs.map UnfragmentableHeader.getLength
  | [] => rfl
  | [h] => by simp [named]
  | h :: h' :: hs => by
    rw [named, List.map_cons, map_getLength_named (h' :: hs)]
    rfl

theorem sized_named : ∀ {hs : List UnfragmentableHeader}, (∀ h ∈ hs, h.Sized) → ∀ h ∈ named hs, h.Sized
  | [], _ => fun _ hmem => nomatch hmem
  | [h], hsized => by
    have hh := hsized h mem_cons_self
    exact forall_mem_singleton.mpr (UnfragmentableHeader.sized_setNextHeader hh _)
  | h :: h' :: hs, hsized => by
    obtain ⟨hh, hhs⟩ := forall_mem_cons.mp hsized
    exact forall_mem_cons.mpr ⟨hh, sized_named hhs⟩

theorem unfragmentablePartSize_named (hs : List UnfragmentableHeader) :
    unfragmentablePartSize (named hs) = (hs.map fun h => h.getLength % 256).sum := by
  have heq := congrArg (List.map (· % 256)) (map_getLength_named hs)
  simp only [List.map_map] at heq
  exact congrArg sum heq

theorem unfragmentablePartSize_le (hsized : ∀ h ∈ hs, h.Sized) : unfragmentablePartSize (named hs) ≤ (serialized hs).length := by
  rw [unfragmentablePartSize_named, length_serialized hsized]
  exact sum_le_sum fun h _ => Nat.mod_le _ _

theorem length_le_serialized (hsized : ∀ h ∈ hs, h.Sized) : hs.length ≤ (serialized hs).length := by
  induction hs with
  | nil => exact le_refl _
  | cons h hs ih =>
    obtain ⟨hh, hhs⟩ := forall_mem_cons.mp hsized
    have hpos := UnfragmentableHeader.length_pos hh
    have hle := ih hhs
    rw [serialized, flatMap_cons, length_append, ← serialized, length_cons]
    omega

/-! ## Fragments -/

theorem fragmentLoop_header (p : Bytes) (ipv6Header : Ipv6Header) (other nextHeader : UInt8) (identification : UInt32) (size : Nat) :
    ∀ (rounds : Nat) (fragmentHeader : Ipv6ExtensionFragmentHeader) (offset : Nat),
      fragmentLoop p ipv6Header nextHeader identification size rounds fragmentHeader offset =
        (fragmentLoop p { ipv6Header with nextHeader := other } nextHeader identification size rounds fragmentHeader offset).map
          fun fragments => fragments.map fun f => (f.1, { f.2 with nextHeader := ipv6Header.nextHeader })
  | 0, _, _ => rfl
  | rounds + 1, fragmentHeader, offset => by
    simp only [fragmentLoop]
    split
    · rw [fragmentLoop_header p ipv6Header other nextHeader identification size rounds, Option.map_map, Option.map_map]
      rfl
    · rfl

/-- A piece behind the headers, as they are put before it. -/
def fragmentOf (ipv6Header : Ipv6Header) (hs : List UnfragmentableHeader) (final : UInt8) (identification : UInt32)
    (x : Ipv6Piece) : Ipv6Packet :=
  finish (named hs) ((headerOf final identification x.offset x.more).serialize ++ x.bytes,
    { ipv6Header with nextHeader := if hs = [] then IPV6_EXT_FRAGMENTATION else ipv6Header.nextHeader })

@[simp] theorem named_eq_nil : named hs = [] ↔ hs = [] := by
  match hs with
  | [] => simp [named]
  | [h] => simp [named]
  | h :: h' :: hs => simp [named]

theorem listedHeader_eq (ipv6Header : Ipv6Header) (hs : List UnfragmentableHeader) :
    (if hs = [] then { ipv6Header with nextHeader := IPV6_EXT_FRAGMENTATION } else ipv6Header) =
      { ipv6Header with nextHeader := if hs = [] then IPV6_EXT_FRAGMENTATION else ipv6Header.nextHeader } := by
  split <;> rfl

theorem getFragments_spec (ipv6Header : Ipv6Header) (identification : UInt32) {maxFragmentSize : Nat}
    (hchained : Chained rest ipv6Header.nextHeader hs final) (hbound : (serialized hs ++ rest).length ≤ 65535)
    (hroom : 40 + (serialized hs).length + 8 + 8 ≤ maxFragmentSize) (hmax : maxFragmentSize < 4294967296) :
    ∃ pieces, getFragments (serialized hs ++ rest) ipv6Header maxFragmentSize identification =
        some (pieces.map (fragmentOf ipv6Header hs final identification)) ∧ Cut rest 0 pieces ∧
      ∀ x ∈ pieces, x.bytes.length ≤ maxFragmentSize - 48 - unfragmentablePartSize (named hs) ∧ (x.more = true →
        x.bytes.length = maxFragmentSize - 48 - unfragmentablePartSize (named hs) -
          (maxFragmentSize - 48 - unfragmentablePartSize (named hs)) % 8) := by
  have hle := unfragmentablePartSize_le hchained.sized
  have hrounds := length_le_serialized hchained.sized
  simp only [length_append] at hbound
  generalize hsum : unfragmentablePartSize (named hs) = sum at hle ⊢
  have hsize (h : Ipv6Header) : uint32 (maxFragmentSize - h.getSerializedSize - sum - 8) = maxFragmentSize - 48 - sum := by
    have hsub : uint32 ((maxFragmentSize : Int) - (48 + sum : Nat)) = maxFragmentSize - (48 + sum) := uint32_sub (by omega) hmax
    rw [Nat.sub_sub, ← hsub, getSerializedSize]
    congr 1
    omega
  have hpos : 8 ≤ maxFragmentSize - 48 - sum := by omega
  obtain ⟨pieces, hloop, hcut, hfits⟩ := fragmentLoop_spec { ipv6Header with nextHeader := final } identification
    (by omega : rest.length ≤ 65535) hpos (rest.length + 1) {} 0 (by omega) (.inr rfl) rfl (by omega)
  refine ⟨pieces, ?_, hcut, hfits⟩
  rw [getFragments, removeHeaders_chained (by rw [length_append]; omega) hchained, bind_some]
  simp only [named_eq_nil, hsum, listedHeader_eq]
  rw [hsize, fragmentLoop_header rest _ IPV6_EXT_FRAGMENTATION, hloop, map_some, map_some, List.map_map, List.map_map]
  rfl

theorem bytes_fragmentOf (ipv6Header : Ipv6Header) (identification : UInt32) (x : Ipv6Piece) :
    (fragmentOf ipv6Header hs final identification x).1 =
      serialized (named hs).reverse ++ ((headerOf final identification x.offset x.more).serialize ++ x.bytes) :=
  addHeaders_eq _ _

theorem length_fragmentOf (hsized : ∀ h ∈ hs, h.Sized) (ipv6Header : Ipv6Header) (final : UInt8) (identification : UInt32) (x : Ipv6Piece) :
    (fragmentOf ipv6Header hs final identification x).1.length = (serialized hs).length + (8 + x.bytes.length) := by
  have hreverse : ∀ h ∈ (named hs).reverse, h.Sized := fun h hmem => sized_named hsized h (mem_reverse.mp hmem)
  rw [bytes_fragmentOf, length_append, length_serialized hreverse, map_reverse, sum_reverse, map_getLength_named,
    length_serialized hsized, length_append, Ipv6ExtensionFragmentHeader.length_serialize]

section
variable {ipv6Header : Ipv6Header} {identification : UInt32} {maxFragmentSize : Nat} {x : Ipv6Piece}

theorem kept_fragmentOf (hsized : ∀ h ∈ hs, h.Sized) (hone : hs.length ≤ 1) :
    Kept ipv6Header hs final maxFragmentSize (fragmentOf ipv6Header hs final identification x) ↔
      48 + (serialized hs).length + x.bytes.length ≤ maxFragmentSize := by
  have hlength := length_fragmentOf hsized ipv6Header final identification x
  have hreverse : (named hs).reverse = named hs := by
    match hs, hone with
    | [], _ => rfl
    | [h], _ => rfl
  constructor
  · intro hkept
    have hfits := hkept.fits
    rw [hlength, getSerializedSize] at hfits
    omega
  · intro hle
    refine ⟨⟨headerOf final identification x.offset x.more, x.bytes, rfl, ?_⟩, rfl, ?_⟩
    · rw [bytes_fragmentOf, hreverse]
    · rw [hlength, getSerializedSize]
      omega

theorem exists_named : ∀ {hs : List UnfragmentableHeader}, hs ≠ [] →
    ∃ init h, h ∈ hs ∧ named hs = init ++ [h.setNextHeader IPV6_EXT_FRAGMENTATION]
  | [], hne => absurd rfl hne
  | [h], _ => ⟨[], h, List.mem_cons_self, rfl⟩
  | h :: h' :: hs, _ => by
    obtain ⟨init, last, hmem, heq⟩ := exists_named (cons_ne_nil h' hs)
    exact ⟨h :: init, last, mem_cons_of_mem _ hmem, congrArg (h :: ·) heq⟩

theorem head_fragmentOf (hsized : ∀ h ∈ hs, h.Sized) (hne : hs ≠ []) (ipv6Header : Ipv6Header) (final : UInt8)
    (identification : UInt32) (x : Ipv6Piece) :
    (fragmentOf ipv6Header hs final identification x).1.head? = some IPV6_EXT_FRAGMENTATION := by
  obtain ⟨init, last, hmem, hnamed⟩ := exists_named hne
  have hlast := UnfragmentableHeader.sized_setNextHeader (hsized last hmem) IPV6_EXT_FRAGMENTATION
  obtain ⟨bytes, hbytes⟩ := UnfragmentableHeader.head_serialize hlast
  rw [bytes_fragmentOf, hnamed, reverse_append, reverse_singleton, serialized, singleton_append, flatMap_cons,
    hbytes, UnfragmentableHeader.nextHeader_setNextHeader]
  rfl

theorem not_kept_fragmentOf (hchained : Chained rest nextHeader hs final) (hmany : 2 ≤ hs.length) (ipv6Header : Ipv6Header)
    (identification : UInt32) (maxFragmentSize : Nat) (x : Ipv6Piece) :
    ¬Kept ipv6Header hs final maxFragmentSize (fragmentOf ipv6Header hs final identification x) := by
  intro hkept
  obtain ⟨fragmentHeader, data, -, hkeptBytes⟩ := hkept.bytes
  match hs, hmany with
  | h :: h' :: hs, _ =>
    have hfront := head_fragmentOf hchained.sized (cons_ne_nil h _) ipv6Header final identification x
    obtain ⟨-, hsized, -, hnext, -⟩ := hchained
    obtain ⟨bytes, hbytes⟩ := UnfragmentableHeader.head_serialize hsized
    rw [hkeptBytes, named, serialized, flatMap_cons, hbytes] at hfront
    have hname : h.nextHeader = IPV6_EXT_FRAGMENTATION := Option.some.inj hfront
    exact UnfragmentableHeader.kind_ne h' (hnext.symm.trans hname)

end

theorem fits_iff (hsized : ∀ h ∈ hs, h.Sized) (hone : hs.length ≤ 1) {pieces : List Ipv6Piece} {maxFragmentSize : Nat}
    (hroom : 40 + (serialized hs).length + 8 + 8 ≤ maxFragmentSize) (hcut : Cut rest 0 pieces)
    (hfits : ∀ x ∈ pieces, x.bytes.length ≤ maxFragmentSize - 48 - unfragmentablePartSize (named hs) ∧ (x.more = true →
      x.bytes.length = maxFragmentSize - 48 - unfragmentablePartSize (named hs) -
        (maxFragmentSize - 48 - unfragmentablePartSize (named hs)) % 8)) :
    (∀ x ∈ pieces, 48 + (serialized hs).length + x.bytes.length ≤ maxFragmentSize) ↔
      hs = [] ∨ ∃ h, hs = [h] ∧ (h.getLength < 256 ∨ 48 + h.getLength + rest.length ≤ maxFragmentSize) := by
  rw [unfragmentablePartSize_named] at hfits
  rw [length_serialized hsized] at hroom ⊢
  match hs, hone with
  | [], _ =>
    simp only [map_nil, sum_nil, true_or, iff_true] at hfits hroom ⊢
    intro x hx
    have hle := (hfits x hx).1
    omega
  | [h], _ =>
    have height : h.getLength % 8 = 0 := by
      cases h with
      | HOP_BY_HOP h => simp only [UnfragmentableHeader.getLength, extensionLength_eq]; omega
      | ROUTING h => simp only [UnfragmentableHeader.getLength, extensionLength_eq]; omega
      | DESTINATION h => simp only [UnfragmentableHeader.getLength, extensionLength_eq]; omega
    simp only [map_cons, map_nil, sum_cons, sum_nil, Nat.add_zero] at hfits hroom ⊢
    constructor
    · intro hall
      obtain ⟨x, hx, hoffset⟩ := hcut.exists_first
      have hle := hall x hx
      have hmore := hcut.more_iff (Nat.zero_le _) hx
      have hwhole := (hcut.bounds hx).2
      refine .inr ⟨h, rfl, ?_⟩
      by_cases hlast : x.more = true
      · have hfull := (hfits x hx).2 hlast
        omega
      · have hrest : ¬x.offset + x.bytes.length < rest.length := fun hlt => hlast (hmore.mpr hlt)
        omega
    · intro hcase x hx
      obtain hnil | ⟨h', heq, hshort⟩ := hcase
      · cases hnil
      · cases heq
        have hle := (hfits x hx).1
        have hwhole := (hcut.bounds hx).2
        omega

/-- The fragments of a packet keep its headers when there is at most one of them, and either it has fewer than
256 bytes or the packet fits into one fragment. -/
theorem kept_iff (ipv6Header : Ipv6Header) (identification : UInt32) {maxFragmentSize : Nat}
    (hchained : Chained rest ipv6Header.nextHeader hs final) (hbound : (serialized hs ++ rest).length ≤ 65535)
    (hroom : 40 + (serialized hs).length + 8 + 8 ≤ maxFragmentSize) (hmax : maxFragmentSize < 4294967296) :
    ∃ fragments, getFragments (serialized hs ++ rest) ipv6Header maxFragmentSize identification = some fragments ∧
      ((∀ f ∈ fragments, Kept ipv6Header hs final maxFragmentSize f) ↔
        hs = [] ∨ ∃ h, hs = [h] ∧ (h.getLength < 256 ∨ 48 + h.getLength + rest.length ≤ maxFragmentSize)) := by
  obtain ⟨pieces, heq, hcut, hfits⟩ := getFragments_spec ipv6Header identification hchained hbound hroom hmax
  refine ⟨_, heq, ?_⟩
  rw [List.forall_mem_map]
  by_cases hone : hs.length ≤ 1
  · rw [← fits_iff hchained.sized hone hroom hcut hfits]
    simp only [kept_fragmentOf hchained.sized hone]
  · obtain ⟨x, hx, -⟩ := hcut.exists_last
    have hnot := not_kept_fragmentOf hchained (by omega) ipv6Header identification maxFragmentSize x
    constructor
    · intro hall
      exact absurd (hall x hx) hnot
    · intro hcase
      obtain rfl | ⟨h, rfl, -⟩ := hcase
      · exact absurd (Nat.zero_le 1) hone
      · exact absurd (le_refl 1) hone

def sampleHeader : Ipv6Header := ⟨0, 0, 0, IPV6_EXT_HOP_BY_HOP, 64, ⟨List.replicate 16 0, rfl⟩, ⟨List.replicate 16 0, rfl⟩⟩

def sampleOptions (nextHeader : UInt8) : UnfragmentableHeader := .HOP_BY_HOP ⟨nextHeader, 0, List.replicate 6 0⟩

def sampleRouting : UnfragmentableHeader := .ROUTING ⟨17, 2, 0, 1, List.replicate 16 0⟩

/-- One header and data in three fragments. -/
theorem one_header_kept : ∃ fragments,
    getFragments (serialized [sampleOptions 17] ++ List.replicate 20 7) sampleHeader 64 5 = some fragments ∧
      ((∀ f ∈ fragments, Kept sampleHeader [sampleOptions 17] 17 64 f) ↔ [sampleOptions 17] = [] ∨
        ∃ h, [sampleOptions 17] = [h] ∧ (h.getLength < 256 ∨ 48 + h.getLength + (List.replicate 20 (7 : UInt8)).length ≤ 64)) :=
  kept_iff sampleHeader 5 ⟨rfl, ⟨rfl⟩, fun heq => absurd heq (by decide), rfl, rfl⟩ (by decide) (by decide) (by decide)

/-- A routing header behind hop-by-hop options comes out before them. -/
theorem two_headers_reversed : ∃ fragments,
    getFragments (serialized [sampleOptions IPV6_EXT_ROUTING, sampleRouting] ++ [1, 2, 3, 4]) sampleHeader 1280 5 = some fragments ∧
      ∃ f ∈ fragments, ¬Kept sampleHeader [sampleOptions IPV6_EXT_ROUTING, sampleRouting] 17 1280 f := by
  have hchained : Chained [1, 2, 3, 4] sampleHeader.nextHeader [sampleOptions IPV6_EXT_ROUTING, sampleRouting] 17 :=
    ⟨rfl, ⟨rfl⟩, fun heq => absurd heq (by decide), rfl, ⟨rfl, rfl⟩, fun heq => absurd heq (by decide), rfl, rfl⟩
  obtain ⟨pieces, heq, hcut, -⟩ := getFragments_spec sampleHeader 5 hchained (by decide) (by decide)
    (by decide : 1280 < 4294967296)
  obtain ⟨x, hx, -⟩ := hcut.exists_last
  exact ⟨_, heq, _, List.mem_map_of_mem hx, not_kept_fragmentOf hchained (by decide) _ _ _ x⟩

end

end Ipv6UnfragmentablePart

end Ns3
