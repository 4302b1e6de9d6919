import Ns3.Internet.Ipv6Fragmentation

/-!
# Extension headers

The classes of the extension headers of IPv6 with their bytes. The routing
header is its first four bytes only, so that its data stays in the packet.
-/

namespace Ns3

structure ExtensionClass where
  Header : Type
  /-- `Deserialize`, and the size it returns. -/
  deserialize : Bytes → Option (Header × Nat)
  serialize : Header → Bytes
  getNextHeader : Header → UInt8
  getLength : Header → Nat

def extensionLength (m_length : UInt8) : Nat := (m_length.toNat + 1) <<< 3

/-! ## Options -/

structure OptionsHeader where
  nextHeader : UInt8
  m_length : UInt8
  m_optionData : Bytes
  deriving DecidableEq

namespace OptionsHeader

def calculatePad (h : OptionsHeader) : Nat := (8 - (h.m_optionData.length + 2) % 8) % 8

def getSerializedSize (h : OptionsHeader) : Nat := 2 + (h.m_optionData.length + h.calculatePad)

/-- Options without content, of a size. -/
def padBytes (fill : Nat) : Bytes :=
  match fill with
  | 0 => []
  | 1 => [0]
  | _ => [1, UInt8.ofNat (fill - 2)] ++ List.replicate (fill - 2) 0

def serialize (h : OptionsHeader) : Bytes :=
  [h.nextHeader, UInt8.ofNat ((h.getSerializedSize >>> 3) - 1)] ++ h.m_optionData ++ padBytes h.calculatePad

def deserialize (bytes : Bytes) : Option OptionsHeader :=
  (readU8 bytes).bind fun (nextHeader, i) =>
    (readU8 i).bind fun (m_length, i) =>
      (readBytes (extensionLength m_length - 2) i).map fun (m_optionData, _) => ⟨nextHeader, m_length, m_optionData⟩

end OptionsHeader

def Ipv6ExtensionHopByHopHeader : ExtensionClass where
  Header := OptionsHeader
  deserialize bytes := (OptionsHeader.deserialize bytes).map fun h => (h, h.getSerializedSize)
  serialize := OptionsHeader.serialize
  getNextHeader := OptionsHeader.nextHeader
  getLength h := extensionLength h.m_length

def Ipv6ExtensionDestinationHeader : ExtensionClass := Ipv6ExtensionHopByHopHeader

/-! ## Fragments and routing -/

/-- The field of the length of a fragment header is always 0. -/
def fragmentHeaderClass : ExtensionClass where
  Header := Ipv6ExtensionFragmentHeader
  deserialize bytes := (Ipv6ExtensionFragmentHeader.deserialize bytes).map fun h => (h, h.getSerializedSize)
  serialize := Ipv6ExtensionFragmentHeader.serialize
  getNextHeader := Ipv6ExtensionFragmentHeader.nextHeader
  getLength _ := extensionLength 0

structure RoutingHeader where
  nextHeader : UInt8
  m_length : UInt8
  m_typeRouting : UInt8
  m_segmentsLeft : UInt8
  deriving DecidableEq

namespace RoutingHeader

def getSerializedSize (_ : RoutingHeader) : Nat := 4

def serialize (h : RoutingHeader) : Bytes := [h.nextHeader, h.m_length, h.m_typeRouting, h.m_segmentsLeft]

def deserialize (bytes : Bytes) : Option RoutingHeader :=
  (readU8 bytes).bind fun (nextHeader, i) =>
    (readU8 i).bind fun (m_length, i) =>
      (readU8 i).bind fun (m_typeRouting, i) =>
        (readU8 i).map fun (m_segmentsLeft, _) => ⟨nextHeader, m_length, m_typeRouting, m_segmentsLeft⟩

end RoutingHeader

def Ipv6ExtensionRoutingHeader : ExtensionClass where
  Header := RoutingHeader
  deserialize bytes := (RoutingHeader.deserialize bytes).map fun h => (h, h.getSerializedSize)
  serialize := RoutingHeader.serialize
  getNextHeader := RoutingHeader.nextHeader
  getLength h := extensionLength h.m_length

/-! ## Headers that are read back -/

/-- An options header of a multiple of eight bytes, written and read. -/
structure OptionsHeader.Sized (h : OptionsHeader) : Prop where
  size : h.m_optionData.length + 2 = extensionLength h.m_length

section
variable {h : OptionsHeader}

theorem extensionLength_eq (m_length : UInt8) : extensionLength m_length = 8 * m_length.toNat + 8 := by
  rw [extensionLength, Nat.shiftLeft_eq]
  omega

theorem OptionsHeader.Sized.calculatePad_eq (hsized : h.Sized) : h.calculatePad = 0 := by
  have hsize := hsized.size
  rw [extensionLength_eq] at hsize
  rw [calculatePad]
  omega

theorem OptionsHeader.Sized.serialize_eq (hsized : h.Sized) : h.serialize = [h.nextHeader, h.m_length] ++ h.m_optionData := by
  have hsize := hsized.size
  rw [extensionLength_eq] at hsize
  have hlength : UInt8.ofNat ((h.getSerializedSize >>> 3) - 1) = h.m_length := by
    have hunits : (h.getSerializedSize >>> 3) - 1 = h.m_length.toNat := by
      rw [getSerializedSize, hsized.calculatePad_eq, Nat.shiftRight_eq_div_pow]
      omega
    rw [hunits, UInt8.ofNat_toNat]
  rw [serialize, hsized.calculatePad_eq, hlength]
  exact List.append_nil _

theorem OptionsHeader.Sized.getSerializedSize_eq (hsized : h.Sized) : h.getSerializedSize = h.serialize.length := by
  rw [hsized.serialize_eq, getSerializedSize, hsized.calculatePad_eq]
  simp only [List.length_append, List.length_cons, List.length_nil]
  omega

theorem OptionsHeader.Sized.deserialize_serialize (hsized : h.Sized) (rest : Bytes) :
    OptionsHeader.deserialize (h.serialize ++ rest) = some h := by
  have hdata : h.m_optionData.length = extensionLength h.m_length - 2 := by
    have hsize := hsized.size
    omega
  rw [hsized.serialize_eq, deserialize]
  simp only [List.cons_append, List.nil_append, readU8_cons, Option.bind_some, readBytes_of_length hdata, Option.map_some]

end

end Ns3
