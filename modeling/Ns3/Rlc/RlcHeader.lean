import Ns3.Lib.BitField
import Ns3.Rlc.SequenceNumber10

/-!
# `LteRlcHeader`

The header of an unacknowledged-mode RLC PDU and its bytes: a fixed part of
two bytes, then the extension bits and length indicators, two of each in three
bytes. A read past the end of the packet, or an iterator past the end of a
list, has no result.
-/

namespace Ns3

open List

abbrev Bytes := List UInt8

structure LteRlcHeader where
  headerLength : Nat := 0
  framingInfo : Nat := 0xff
  sequenceNumber : SequenceNumber10 := SequenceNumber10.ofValue 0xfffa
  extensionBits : List Nat := []
  lengthIndicators : List Nat := []
  deriving DecidableEq

namespace LteRlcHeader

def FIRST_BYTE : Nat := 0x00
def NO_FIRST_BYTE : Nat := 0x02
def LAST_BYTE : Nat := 0x00
def NO_LAST_BYTE : Nat := 0x01
def DATA_FIELD_FOLLOWS : Nat := 0
def E_LI_FIELDS_FOLLOWS : Nat := 1

def setFramingInfo (h : LteRlcHeader) (framingInfo : Nat) : LteRlcHeader :=
  { h with framingInfo := framingInfo &&& 0x03 }

def setSequenceNumber (h : LteRlcHeader) (sequenceNumber : SequenceNumber10) : LteRlcHeader :=
  { h with sequenceNumber := sequenceNumber }

/-- The length after one more extension bit makes `size` of them. -/
def lengthWith (size headerLength : Nat) : Nat :=
  if size = 1 then 2 else if size % 2 = 1 then headerLength + 1 else headerLength + 2

def pushExtensionBit (h : LteRlcHeader) (extensionBit : Nat) : LteRlcHeader :=
  { h with
    extensionBits := h.extensionBits ++ [extensionBit]
    headerLength := lengthWith (h.extensionBits.length + 1) h.headerLength }

def pushLengthIndicator (h : LteRlcHeader) (lengthIndicator : Nat) : LteRlcHeader :=
  { h with lengthIndicators := h.lengthIndicators ++ [lengthIndicator] }

/-- `m_headerLength` has 16 bits, and all that is done to it is adding 1 or 2. -/
def getSerializedSize (h : LteRlcHeader) : Nat := h.headerLength % 65536

def oddByte (oddE oddLi : Nat) : UInt8 := UInt8.ofNat (((oddE <<< 7) &&& 0x80) ||| ((oddLi >>> 4) &&& 0x7f))

def sharedByte (oddLi evenE evenLi : Nat) : UInt8 :=
  UInt8.ofNat (((oddLi <<< 4) &&& 0xf0) ||| ((evenE <<< 3) &&& 0x08) ||| ((evenLi >>> 8) &&& 0x07))

/-- The loop over the extension bits after the first and the length indicators. -/
def serializeLi : List Nat → List Nat → Bytes
  | oddE :: evenE :: es, oddLi :: evenLi :: lis =>
    oddByte oddE oddLi :: sharedByte oddLi evenE evenLi :: UInt8.ofNat (evenLi &&& 0xff) :: serializeLi es lis
  | oddE :: _, oddLi :: _ => [oddByte oddE oddLi, UInt8.ofNat ((oddLi <<< 4) &&& 0xf0)]
  | _, _ => []

def serialize (h : LteRlcHeader) : Option Bytes :=
  match h.extensionBits with
  | [] => none
  | e :: es =>
    some (UInt8.ofNat (((h.framingInfo <<< 3) &&& 0x18) ||| ((e <<< 2) &&& 0x04) |||
        ((h.sequenceNumber.value >>> 8) &&& 0x03)) ::
      UInt8.ofNat (h.sequenceNumber.value &&& 0xff) :: serializeLi es h.lengthIndicators)

/-- The loop `while (moreLiFields)`: extension bits, length indicators and the
bytes read. -/
def deserializeLi : Bytes → Option (List Nat × List Nat × Nat)
  | byte1 :: byte2 :: bytes =>
    let oddE := (byte1.toNat &&& 0x80) >>> 7
    let oddLi := ((byte1.toNat &&& 0x7f) <<< 4) ||| ((byte2.toNat &&& 0xf0) >>> 4)
    if oddE = E_LI_FIELDS_FOLLOWS then
      match bytes with
      | [] => none
      | byte3 :: bytes =>
        let evenE := (byte2.toNat &&& 0x08) >>> 3
        let evenLi := ((byte2.toNat &&& 0x07) <<< 8) ||| (byte3.toNat &&& 0xff)
        if evenE = E_LI_FIELDS_FOLLOWS then
          (deserializeLi bytes).map fun r => (oddE :: evenE :: r.1, oddLi :: evenLi :: r.2.1, r.2.2 + 3)
        else some ([oddE, evenE], [oddLi, evenLi], 3)
    else some ([oddE], [oddLi], 2)
  | _ => none

def deserialize : Bytes → Option LteRlcHeader
  | byte1 :: byte2 :: bytes =>
    let framingInfo := (byte1.toNat &&& 0x18) >>> 3
    let sequenceNumber := SequenceNumber10.ofValue (((byte1.toNat &&& 0x03) <<< 8) ||| byte2.toNat)
    let extensionBit := (byte1.toNat &&& 0x04) >>> 2
    if extensionBit = DATA_FIELD_FOLLOWS then some ⟨2, framingInfo, sequenceNumber, [extensionBit], []⟩
    else (deserializeLi bytes).map fun r => ⟨2 + r.2.2, framingInfo, sequenceNumber, extensionBit :: r.1, r.2.1⟩
  | _ => none

/-- `AddHeader`: room for the serialized size is made in front of the packet, and
`Serialize` writes from there on, over the packet where it needs more room. -/
def addHeader (h : LteRlcHeader) (packet : Bytes) : Option Bytes :=
  match h.serialize with
  | none => none
  | some bytes =>
    if h.getSerializedSize ≤ bytes.length ∧ bytes.length ≤ h.getSerializedSize + packet.length then
      some (bytes ++ packet.drop (bytes.length - h.getSerializedSize))
    else none

def removeHeader (packet : Bytes) : Option (LteRlcHeader × Bytes) :=
  (deserialize packet).map fun h => (h, packet.drop h.getSerializedSize)

/-! ## The bytes of the fields -/

theorem oddByte_toNat {e li : Nat} (he : e < 2) (hli : li < 2048) : (oddByte e li).toNat = e * 128 + li / 16 := by
  have h1 : (e <<< 7) &&& 0x80 = e * 128 := by
    rw [field_put e 1 7 (by decide)]
    omega
  have h2 : (li >>> 4) &&& 0x7f = li / 16 := by
    rw [field_high li 7 4 (by decide)]
    omega
  rw [oddByte, h1, h2, or_eq_add 7 (by omega) (by omega), UInt8.toNat_ofNat', Nat.mod_eq_of_lt (by omega)]

theorem sharedByte_toNat (oddLi : Nat) {e li : Nat} (he : e < 2) (hli : li < 2048) :
    (sharedByte oddLi e li).toNat = oddLi % 16 * 16 + e * 8 + li / 256 := by
  have h1 : (oddLi <<< 4) &&& 0xf0 = oddLi % 16 * 16 := field_put oddLi 4 4 (by decide)
  have h2 : (e <<< 3) &&& 0x08 = e * 8 := by
    rw [field_put e 1 3 (by decide)]
    omega
  have h3 : (li >>> 8) &&& 0x07 = li / 256 := by
    rw [field_high li 3 8 (by decide)]
    omega
  have h4 : (oddLi % 16 * 16) ||| (e * 8) = oddLi % 16 * 16 + e * 8 := or_eq_add 4 (by omega) (by omega)
  rw [sharedByte, h1, h2, h3, h4, or_eq_add 3 (by omega) (by omega), UInt8.toNat_ofNat', Nat.mod_eq_of_lt (by omega)]

theorem lowByte_toNat (x : Nat) : (UInt8.ofNat (x &&& 0xff)).toNat = x % 256 := by
  rw [UInt8.toNat_ofNat', Nat.and_two_pow_sub_one_eq_mod x 8]
  omega

theorem paddedByte_toNat (oddLi : Nat) : (UInt8.ofNat ((oddLi <<< 4) &&& 0xf0)).toNat = oddLi % 16 * 16 := by
  rw [UInt8.toNat_ofNat', field_put oddLi 4 4 (by decide)]
  omega

/-! ## Round trip of the length indicators -/

def extensionBitsFor (n : Nat) : List Nat := List.replicate n E_LI_FIELDS_FOLLOWS ++ [DATA_FIELD_FOLLOWS]

theorem extensionBitsFor_succ (n : Nat) : extensionBitsFor (n + 1) = E_LI_FIELDS_FOLLOWS :: extensionBitsFor n := rfl

theorem odd_read {e li x : Nat} (he : e < 2) (hli : li < 2048) {byte : UInt8} (hx : x < 16)
    (hb : byte.toNat = li % 16 * 16 + x) : ((oddByte e li).toNat &&& 0x80) >>> 7 = e ∧
      (((oddByte e li).toNat &&& 0x7f) <<< 4 ||| (byte.toNat &&& 0xf0) >>> 4) = li := by
  rw [oddByte_toNat he hli, field_get _ 1 7 (by decide), hb, field_get _ 4 4 (by decide),
    Nat.and_two_pow_sub_one_eq_mod _ 7, Nat.shiftLeft_eq, or_eq_add 4 (by omega) (by omega)]
  omega

theorem even_read (oddLi : Nat) {e li : Nat} (he : e < 2) (hli : li < 2048) :
    ((sharedByte oddLi e li).toNat &&& 0x08) >>> 3 = e ∧
      (((sharedByte oddLi e li).toNat &&& 0x07) <<< 8 ||| ((UInt8.ofNat (li &&& 0xff)).toNat &&& 0xff)) = li := by
  rw [sharedByte_toNat oddLi he hli, field_get _ 1 3 (by decide), lowByte_toNat, Nat.and_two_pow_sub_one_eq_mod _ 3,
    Nat.and_two_pow_sub_one_eq_mod _ 8, Nat.shiftLeft_eq, or_eq_add 8 (by omega) (by omega)]
  omega

@[simp] theorem extensionBitsFor_length (n : Nat) : (extensionBitsFor n).length = n + 1 := by
  simp [extensionBitsFor]

theorem serializeLi_length : ∀ (li : Nat) (lis : List Nat),
    (serializeLi (extensionBitsFor lis.length) (li :: lis)).length = lis.length + 1 + (lis.length + 2) / 2
  | _, [] => rfl
  | _, [_] => by simp [serializeLi, extensionBitsFor]
  | _, _ :: l3 :: lis => by
    have ih := serializeLi_length l3 lis
    simp only [length_cons, extensionBitsFor_succ, serializeLi, ih]
    omega

theorem deserializeLi_serializeLi (rest : Bytes) : ∀ (li : Nat) (lis : List Nat), (∀ x ∈ li :: lis, x < 2048) →
    deserializeLi (serializeLi (extensionBitsFor lis.length) (li :: lis) ++ rest) =
      some (extensionBitsFor lis.length, li :: lis, lis.length + 1 + (lis.length + 2) / 2)
  | li, [], h => by
    obtain ⟨hE, hLi⟩ := odd_read (e := 0) (x := 0) (by decide) (h li (by simp)) (by decide) (paddedByte_toNat li)
    change deserializeLi (oddByte 0 li :: UInt8.ofNat ((li <<< 4) &&& 0xf0) :: rest) = _
    unfold deserializeLi
    simp only [hE, hLi]
    rfl
  | li, [l2], h => by
    have h2 : l2 < 2048 := h l2 (by simp)
    obtain ⟨hE, hLi⟩ := odd_read (e := 1) (x := 0 * 8 + l2 / 256) (by decide) (h li (by simp)) (by omega)
      (by rw [sharedByte_toNat li (e := 0) (by decide) h2]; omega)
    obtain ⟨hE2, hLi2⟩ := even_read li (e := 0) (by decide) h2
    change deserializeLi (oddByte 1 li :: sharedByte li 0 l2 :: UInt8.ofNat (l2 &&& 0xff) :: rest) = _
    unfold deserializeLi
    simp only [hE, hLi, hE2, hLi2]
    simp [extensionBitsFor, E_LI_FIELDS_FOLLOWS, DATA_FIELD_FOLLOWS]
  | li, l2 :: l3 :: lis, h => by
    have h2 : l2 < 2048 := h l2 (by simp)
    have ih := deserializeLi_serializeLi rest l3 lis fun x hx => h x (by simp_all)
    obtain ⟨hE, hLi⟩ := odd_read (e := 1) (x := 1 * 8 + l2 / 256) (by decide) (h li (by simp)) (by omega)
      (by rw [sharedByte_toNat li (e := 1) (by decide) h2]; omega)
    obtain ⟨hE2, hLi2⟩ := even_read li (e := 1) (by decide) h2
    change deserializeLi (oddByte 1 li :: sharedByte li 1 l2 :: UInt8.ofNat (l2 &&& 0xff) ::
      (serializeLi (extensionBitsFor lis.length) (l3 :: lis) ++ rest)) = _
    unfold deserializeLi
    simp only [hE, hLi, hE2, hLi2, ih, E_LI_FIELDS_FOLLOWS, if_true, Option.map_some, length_cons,
      extensionBitsFor_succ, Option.some.injEq, Prod.mk.injEq, true_and]
    omega

/-! ## Headers as the sender builds them -/

def sizeFor : Nat → Nat
  | 0 => 0
  | n + 1 => n + 2 + (n + 1) / 2

theorem lengthWith_sizeFor (n : Nat) : lengthWith (n + 1) (sizeFor n) = sizeFor (n + 1) := by
  cases n with
  | zero => rfl
  | succ n =>
    simp only [lengthWith, sizeFor]
    split
    · omega
    · split <;> omega

structure Built (h : LteRlcHeader) : Prop where
  framing : h.framingInfo < 4
  number : h.sequenceNumber.value < 1024
  extension : h.extensionBits = extensionBitsFor h.lengthIndicators.length
  lengths : ∀ li ∈ h.lengthIndicators, li < 2048
  size : h.headerLength = sizeFor h.extensionBits.length

section
variable {h : LteRlcHeader}

theorem firstByte_toNat {e : Nat} (hf : h.framingInfo < 4) (he : e < 2) (hn : h.sequenceNumber.value < 1024) :
    (UInt8.ofNat (((h.framingInfo <<< 3) &&& 0x18) ||| ((e <<< 2) &&& 0x04) |||
        ((h.sequenceNumber.value >>> 8) &&& 0x03))).toNat =
      h.framingInfo * 8 + e * 4 + h.sequenceNumber.value / 256 := by
  have h1 : (h.framingInfo <<< 3) &&& 0x18 = h.framingInfo * 8 := by
    rw [field_put _ 2 3 (by decide)]
    omega
  have h2 : (e <<< 2) &&& 0x04 = e * 4 := by
    rw [field_put _ 1 2 (by decide)]
    omega
  have h3 : (h.sequenceNumber.value >>> 8) &&& 0x03 = h.sequenceNumber.value / 256 := by
    rw [field_high _ 2 8 (by decide)]
    omega
  have h4 : (h.framingInfo * 8) ||| (e * 4) = h.framingInfo * 8 + e * 4 := or_eq_add 3 (by omega) (by omega)
  rw [h1, h2, h3, h4, or_eq_add 2 (by omega) (by omega), UInt8.toNat_ofNat', Nat.mod_eq_of_lt (by omega)]

theorem fixed_read {x y : UInt8} {fi e sn : Nat} (hf : fi < 4) (he : e < 2) (hn : sn < 1024)
    (hx : x.toNat = fi * 8 + e * 4 + sn / 256) (hy : y.toNat = sn % 256) :
    (x.toNat &&& 0x18) >>> 3 = fi ∧ (x.toNat &&& 0x04) >>> 2 = e ∧ (((x.toNat &&& 0x03) <<< 8) ||| y.toNat) = sn := by
  rw [hx, hy, field_get _ 2 3 (by decide), field_get _ 1 2 (by decide), Nat.and_two_pow_sub_one_eq_mod _ 2,
    Nat.shiftLeft_eq, or_eq_add 8 (by omega) (by omega)]
  refine ⟨?_, ?_, ?_⟩ <;> omega

theorem Built.serialize_length (hb : h.Built) : ∃ bytes, h.serialize = some bytes ∧ bytes.length = h.headerLength := by
  have hext := hb.extension
  have hsize := hb.size
  unfold serialize
  cases hl : h.lengthIndicators with
  | nil =>
    rw [hl] at hext
    rw [hext] at hsize
    rw [hext, hsize]
    exact ⟨_, rfl, rfl⟩
  | cons li lis =>
    rw [hl, length_cons, extensionBitsFor_succ] at hext
    rw [hext] at hsize
    rw [hext, hsize]
    refine ⟨_, rfl, ?_⟩
    simp only [length_cons, serializeLi_length, sizeFor, extensionBitsFor_length]
    omega

/-- **Round trip.** `Deserialize` of what `Serialize` wrote, whatever follows,
is the header, its sequence number with the base of a new one. -/
theorem Built.deserialize_serialize (hb : h.Built) {bytes : Bytes} (hs : h.serialize = some bytes) (rest : Bytes) :
    deserialize (bytes ++ rest) = some { h with sequenceNumber := .ofValue h.sequenceNumber.value } := by
  have hext := hb.extension
  have hsize := hb.size
  obtain ⟨headerLength, fi, sn, es, lis⟩ := h
  simp only at hext hsize
  have hlow := lowByte_toNat sn.value
  cases lis with
  | nil =>
    rw [hext] at hs hsize
    obtain ⟨hF, hE, hN⟩ := fixed_read hb.framing (e := 0) (by decide) hb.number
      (firstByte_toNat hb.framing (by decide) hb.number) hlow
    cases hs
    rw [cons_append, cons_append, deserialize]
    simp only [DATA_FIELD_FOLLOWS, hF, hE, hN, if_true, hext, hsize]
    rfl
  | cons li lis =>
    rw [length_cons, extensionBitsFor_succ] at hext
    rw [hext] at hs hsize
    obtain ⟨hF, hE, hN⟩ := fixed_read hb.framing (e := 1) (by decide) hb.number
      (firstByte_toNat hb.framing (by decide) hb.number) hlow
    cases hs
    rw [cons_append, cons_append, deserialize]
    simp only [E_LI_FIELDS_FOLLOWS, DATA_FIELD_FOLLOWS, hF, hE, hN, hext, hsize,
      deserializeLi_serializeLi rest li lis hb.lengths]
    simp [sizeFor]
    omega

theorem foldl_pushExtensionBit (es : List Nat) : ∀ h : LteRlcHeader, h.headerLength = sizeFor h.extensionBits.length →
    es.foldl pushExtensionBit h =
      { h with extensionBits := h.extensionBits ++ es, headerLength := sizeFor (h.extensionBits.length + es.length) } := by
  induction es with
  | nil =>
    intro h hsize
    simp [← hsize]
  | cons e es ih =>
    intro h hsize
    have hnext : (h.pushExtensionBit e).headerLength = sizeFor (h.pushExtensionBit e).extensionBits.length := by
      simp [pushExtensionBit, hsize, lengthWith_sizeFor]
    rw [foldl_cons, ih _ hnext]
    simp [pushExtensionBit, Nat.add_comm, Nat.add_left_comm]

theorem foldl_pushLengthIndicator (lis : List Nat) : ∀ h : LteRlcHeader,
    lis.foldl pushLengthIndicator h = { h with lengthIndicators := h.lengthIndicators ++ lis } := by
  induction lis with
  | nil => intro h; simp
  | cons li lis ih =>
    intro h
    rw [foldl_cons, ih]
    simp [pushLengthIndicator]

/-- A header of 65536 bytes or more lies over the beginning of the packet. -/
theorem Built.addHeader_eq (hb : h.Built) (packet : Bytes)
    (hroom : h.headerLength ≤ h.getSerializedSize + packet.length) : ∃ bytes, h.serialize = some bytes ∧
      bytes.length = h.headerLength ∧
      h.addHeader packet = some (bytes ++ packet.drop (h.headerLength - h.getSerializedSize)) := by
  obtain ⟨bytes, hs, hlen⟩ := hb.serialize_length
  have hle : h.getSerializedSize ≤ h.headerLength := Nat.mod_le _ _
  refine ⟨bytes, hs, hlen, ?_⟩
  rw [← hlen] at hroom hle ⊢
  simp [addHeader, hs, hroom, hle]

theorem Built.removeHeader_addHeader (hb : h.Built) (hshort : h.headerLength < 65536) (packet : Bytes) :
    ∃ bytes, h.addHeader packet = some bytes ∧
      removeHeader bytes = some ({ h with sequenceNumber := .ofValue h.sequenceNumber.value }, packet) := by
  have hsize : h.getSerializedSize = h.headerLength := Nat.mod_eq_of_lt hshort
  obtain ⟨bytes, hs, hlen, hadd⟩ := hb.addHeader_eq packet (by omega)
  rw [hsize, Nat.sub_self, drop_zero] at hadd
  refine ⟨bytes ++ packet, hadd, ?_⟩
  have hdrop : (bytes ++ packet).drop (h.headerLength % 65536) = packet := by
    rw [Nat.mod_eq_of_lt hshort]
    exact drop_left' hlen
  simp [removeHeader, hb.deserialize_serialize hs, getSerializedSize, hdrop]

end

/-! ## The serialized size of 16 bits -/

/-- The header of a PDU as `LteRlcUm` builds it, with a length indicator for each
SDU or segment but the last. -/
def build (sequenceNumber : SequenceNumber10) (framingInfo : Nat) (lengthIndicators : List Nat) : LteRlcHeader :=
  let h := (extensionBitsFor lengthIndicators.length).foldl pushExtensionBit {}
  let h := lengthIndicators.foldl pushLengthIndicator h
  (h.setFramingInfo framingInfo).setSequenceNumber sequenceNumber

/-- `Serialize` writes as many bytes as the serialized size says, and
`Deserialize` of them and any payload finds the same fields and returns that size. -/
def RoundTrips (h : LteRlcHeader) : Prop :=
  ∃ bytes, h.serialize = some bytes ∧ bytes.length = h.getSerializedSize ∧
    ∀ payload, ∃ h', deserialize (bytes ++ payload) = some h' ∧ h'.framingInfo = h.framingInfo ∧
      h'.sequenceNumber.value = h.sequenceNumber.value ∧ h'.extensionBits = h.extensionBits ∧
      h'.lengthIndicators = h.lengthIndicators ∧ h'.getSerializedSize = h.getSerializedSize

section
variable {sequenceNumber : SequenceNumber10} {framingInfo : Nat} {lengthIndicators : List Nat}

theorem build_built (hsn : sequenceNumber.value < 1024) (hfi : framingInfo < 4)
    (hli : ∀ li ∈ lengthIndicators, li < 2048) : Built (build sequenceNumber framingInfo lengthIndicators) := by
  have hmask : framingInfo &&& 0x03 = framingInfo := by
    rw [Nat.and_two_pow_sub_one_eq_mod _ 2]
    exact Nat.mod_eq_of_lt hfi
  simp only [build, foldl_pushExtensionBit _ {} rfl, foldl_pushLengthIndicator, setFramingInfo, setSequenceNumber, hmask]
  exact ⟨hfi, hsn, by simp, hli, by simp⟩

theorem build_headerLength (hsn : sequenceNumber.value < 1024) (hfi : framingInfo < 4)
    (hli : ∀ li ∈ lengthIndicators, li < 2048) : (build sequenceNumber framingInfo lengthIndicators).headerLength =
      lengthIndicators.length + 2 + (lengthIndicators.length + 1) / 2 := by
  have hb := build_built hsn hfi hli
  rw [hb.size, hb.extension, extensionBitsFor_length]
  simp only [build, foldl_pushExtensionBit _ {} rfl, foldl_pushLengthIndicator, setFramingInfo, setSequenceNumber,
    nil_append, sizeFor]

/-- **Round trip.** The codec of every header of up to 43689 extension bits; the
header with one more has 65536 bytes. -/
theorem build_roundTrips (hsn : sequenceNumber.value < 1024) (hfi : framingInfo < 4)
    (hli : ∀ li ∈ lengthIndicators, li < 2048) (hlength : lengthIndicators.length < 43689) :
    RoundTrips (build sequenceNumber framingInfo lengthIndicators) := by
  have hb := build_built hsn hfi hli
  have hsize := build_headerLength hsn hfi hli
  obtain ⟨bytes, hs, hlen⟩ := hb.serialize_length
  refine ⟨bytes, hs, ?_, fun payload => ⟨_, hb.deserialize_serialize hs payload, rfl, ?_, rfl, rfl, rfl⟩⟩
  · rw [hlen, getSerializedSize, Nat.mod_eq_of_lt (by omega)]
  · exact Nat.mod_eq_of_lt hb.number

theorem length_of_roundTrips (hsn : sequenceNumber.value < 1024) (hfi : framingInfo < 4)
    (hli : ∀ li ∈ lengthIndicators, li < 2048) (h : RoundTrips (build sequenceNumber framingInfo lengthIndicators)) :
    lengthIndicators.length < 43689 := by
  obtain ⟨bytes, hs, hlen, -⟩ := h
  obtain ⟨bytes', hs', hlen'⟩ := (build_built hsn hfi hli).serialize_length
  cases hs.symm.trans hs'
  rw [hlen', getSerializedSize, build_headerLength hsn hfi hli] at hlen
  omega

end

theorem build_roundTrips_three : RoundTrips (build (.ofValue 1023) 2 [2047, 1, 300]) :=
  build_roundTrips (by decide) (by decide) (by decide) (by decide)

/-- **The size of 16 bits overflows** at 43690 extension bits: it is 0. -/
theorem build_not_roundTrips : ¬ ∀ lengthIndicators : List Nat, (∀ li ∈ lengthIndicators, li < 2048) →
    RoundTrips (build (.ofValue 0) 0 lengthIndicators) := by
  intro hall
  have hli : ∀ li ∈ replicate 43689 1, li < 2048 := fun li hli => by
    rw [eq_of_mem_replicate hli]
    decide
  have hlt := length_of_roundTrips (by decide) (by decide) hli (hall _ hli)
  rw [length_replicate] at hlt
  exact absurd hlt (Nat.lt_irrefl 43689)

end LteRlcHeader

end Ns3
