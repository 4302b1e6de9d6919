import Mathlib.Data.Nat.Cast.Order.Ring
import Mathlib.Data.Nat.SuccPred
import Ns3.Lib.BitStream

/-!
# Fields of bits, put into bytes and taken out again

`BitSerializer` collects fields of any width and pads them to whole bytes;
`BitDeserializer` hands the fields back. The padding always adds something,
eight bits where none are missing, the size check of the second `getBytes`
aborts for the buffers it should accept, and `getBits` adds the bits up in
one byte. `roundTrips_iff` says for which fields the two still agree.
-/

namespace Ns3

open List

namespace BitFields

open BitStream

abbrev Octet := BitVec 8

/-- `tmp <<= 1; tmp |= bit`, in a `uint8_t`. -/
def shiftIn (tmp : Octet) (bit : Bool) : Octet := (tmp <<< 1) ||| (BitVec.ofBool bit).setWidth 8

/-! ## The serializer -/

structure BitSerializer where
  blob : List Bool
  padsAtEnd : Bool

namespace BitSerializer

def create : BitSerializer := { blob := [], padsAtEnd := true }

def insertPaddingAtEnd (s : BitSerializer) (padAtEnd : Bool) : BitSerializer := { s with padsAtEnd := padAtEnd }

def padding (s : BitSerializer) : Nat := 8 - s.blob.length % 8

def padAtStart (s : BitSerializer) : BitSerializer :=
  { s with blob := List.replicate s.padding false ++ s.blob }

def padAtEnd (s : BitSerializer) : BitSerializer :=
  { s with blob := s.blob ++ List.replicate s.padding false }

def pad (s : BitSerializer) : BitSerializer := if s.padsAtEnd then s.padAtEnd else s.padAtStart

/-- The loop of `pushBits`: the mask goes down one bit a turn. -/
def maskLoop (value mask : BitVec 64) : Nat → List Bool
  | 0 => []
  | turns + 1 => (value &&& mask != 0) :: maskLoop value (mask >>> 1) turns

def pushBits (s : BitSerializer) (value : BitVec 64) (significantBits : Nat) : BitSerializer :=
  { s with blob := s.blob ++ maskLoop value (1#64 <<< (significantBits - 1)) significantBits }

/-- The loop of both `getBytes`, eight bits a turn. It ends at the end of the
blob, which the padding has brought to a multiple of eight. -/
def groupBytes : List Bool → List Octet
  | b₀ :: b₁ :: b₂ :: b₃ :: b₄ :: b₅ :: b₆ :: b₇ :: rest =>
    [b₀, b₁, b₂, b₃, b₄, b₅, b₆, b₇].foldl shiftIn 0 :: groupBytes rest
  | _ => []

def getBytes (s : BitSerializer) : List Octet × BitSerializer :=
  (groupBytes s.pad.blob, { s.pad with blob := [] })

/-- `buffer[resultLen] = tmp; resultLen++`, with a `uint8_t resultLen`; `none`
is a write behind the buffer. -/
def writeLoop : List Octet → Nat → List Octet → Option (Nat × List Octet)
  | [], resultLen, buffer => some (resultLen, buffer)
  | tmp :: rest, resultLen, buffer =>
    if resultLen < buffer.length then writeLoop rest ((resultLen + 1) % 2 ^ 8) (buffer.set resultLen tmp) else none

/-- The `getBytes` that fills a buffer of `size` bytes, `none` where it
aborts. The product is taken in 32 bits. -/
def getBytesInto (s : BitSerializer) (buffer : List Octet) (size : Nat) : Option (Nat × List Octet × BitSerializer) :=
  if s.pad.blob.length ≤ 8 * size % 2 ^ 32 then none
  else (writeLoop (groupBytes s.pad.blob) 0 buffer).map fun r => (r.1, r.2, { s.pad with blob := [] })

end BitSerializer

/-! ## The deserializer -/

structure BitDeserializer where
  blob : List Bool
  bytesBlob : List Octet
  deserializing : Bool

namespace BitDeserializer

def create : BitDeserializer := { blob := [], bytesBlob := [], deserializing := false }

/-- `none` where it aborts. -/
def pushBytes (d : BitDeserializer) (bytes : List Octet) : Option BitDeserializer :=
  if d.deserializing then none else some { d with bytesBlob := d.bytesBlob ++ bytes }

/-- The eight masks of `prepareDeserialization`. -/
def octetBits (byte : Octet) : List Bool :=
  [byte &&& 0x80 != 0, byte &&& 0x40 != 0, byte &&& 0x20 != 0, byte &&& 0x10 != 0,
    byte &&& 0x8 != 0, byte &&& 0x4 != 0, byte &&& 0x2 != 0, byte &&& 0x1 != 0]

def prepareDeserialization (d : BitDeserializer) : BitDeserializer :=
  if d.deserializing then d
  else { d with deserializing := true, blob := d.blob ++ d.bytesBlob.flatMap octetBits }

/-- The result is built in a `uint8_t` and widened on return; `none` where
it aborts. -/
def getBits (d : BitDeserializer) (size : Nat) : Option (BitVec 64 × BitDeserializer) :=
  let d := d.prepareDeserialization
  if size > 64 then none
  else if size > d.blob.length then none
  else some (((d.blob.take size).foldl shiftIn 0).setWidth 64, { d with blob := d.blob.drop size })

end BitDeserializer

/-! ## What is pushed and what comes back -/

/-- A value and the number of its bits that count. -/
abbrev Field := BitVec 64 × Nat

/-- The fields the callers may push: one to 64 bits, and none above them. -/
def Field.Fits (f : Field) : Prop := 1 ≤ f.2 ∧ f.2 ≤ 64 ∧ f.1.toNat < 2 ^ f.2

def serializer (padAtEnd : Bool) (fields : List Field) : BitSerializer :=
  fields.foldl (fun s f => s.pushBits f.1 f.2) (BitSerializer.create.insertPaddingAtEnd padAtEnd)

def totalBits (fields : List Field) : Nat := (fields.map Prod.snd).sum

def neededBytes (fields : List Field) : Nat := (totalBits fields + 7) / 8

def getAll : BitDeserializer → List Nat → Option (List (BitVec 64))
  | _, [] => some []
  | d, size :: sizes => (d.getBits size).bind fun r => (getAll r.2 sizes).map (r.1 :: ·)

def readBack (bytes : List Octet) (fields : List Field) : Option (List (BitVec 64)) :=
  (BitDeserializer.create.pushBytes bytes).bind fun d => getAll d (fields.map Prod.snd)

/-- Both `getBytes` give the bytes that are needed, and padded at the end
these give the values back. -/
structure RoundTrips (padAtEnd : Bool) (fields : List Field) (buffer : List Octet) : Prop where
  bytes : (serializer padAtEnd fields).getBytes.1.length = neededBytes fields
  values : padAtEnd = true →
    readBack (serializer padAtEnd fields).getBytes.1 fields = some (fields.map Prod.fst)
  buffered : neededBytes fields ≤ 255 → neededBytes fields ≤ buffer.length →
    ∃ filled rest, (serializer padAtEnd fields).getBytesInto buffer buffer.length =
        some (neededBytes fields, filled, rest) ∧
      (padAtEnd = true → readBack (filled.take (neededBytes fields)) fields = some (fields.map Prod.fst))

/-! ## One byte at a time -/

theorem getLsbD_shiftIn (tmp : Octet) (bit : Bool) (i : Nat) (hi : i < 8) :
    (shiftIn tmp bit).getLsbD i = if i = 0 then bit else tmp.getLsbD (i - 1) := by
  unfold shiftIn
  cases i with
  | zero => simp
  | succ i =>
    have hi' : i < 8 := by omega
    simp [hi, BitVec.getLsbD_eq_getElem hi']

theorem getLsbD_foldl_shiftIn {n : Nat} (x : BitVec n) (tmp : Octet) (k i : Nat) (hi : i < 8) :
    ((lowBits x k).foldl shiftIn tmp).getLsbD i = if i < k then x.getLsbD i else tmp.getLsbD (i - k) := by
  induction k generalizing tmp with
  | zero => simp [lowBits]
  | succ k ih =>
    rw [lowBits, foldl_cons, ih, getLsbD_shiftIn _ _ _ (by omega)]
    rcases Nat.lt_trichotomy i k with h | h | h
    · have h' : i < k + 1 := by omega
      simp only [h, h', if_true]
    · subst h
      simp
    · have hk : ¬ i < k := by omega
      have hk' : ¬ i < k + 1 := by omega
      have hne : i - k ≠ 0 := by omega
      simp only [hk, hk', hne, if_false]
      congr 1

theorem foldl_shiftIn_bits (x : Octet) : (bits x).foldl shiftIn 0 = x := by
  refine BitVec.eq_of_getLsbD_eq fun i hi => ?_
  rw [bits, getLsbD_foldl_shiftIn x 0 8 i hi, if_pos hi]

theorem bits_foldl_shiftIn {bs : List Bool} (h : bs.length = 8) : bits (bs.foldl shiftIn 0) = bs := by
  have hy : bits (fill (0 : Octet) 8 bs) = bs := by
    have hf := lowBits_fill (0 : Octet) bs (by omega)
    rwa [h] at hf
  have hx := foldl_shiftIn_bits (fill (0 : Octet) 8 bs)
  rw [hy] at hx
  rw [hx, hy]

theorem foldl_shiftIn_lowBits {f : Field} (hf : f.Fits) :
    (((lowBits f.1 f.2).foldl shiftIn 0).setWidth 64).toNat = f.1.toNat % 2 ^ 8 := by
  have hb : (lowBits f.1 f.2).foldl shiftIn 0 = f.1.setWidth 8 := by
    refine BitVec.eq_of_getLsbD_eq fun i hi => ?_
    rw [getLsbD_foldl_shiftIn _ _ _ _ hi, BitVec.getLsbD_setWidth]
    by_cases h : i < f.2
    · simp [h, hi]
    · have hz : f.1.getLsbD i = false :=
        Nat.testBit_lt_two_pow (Nat.lt_of_lt_of_le hf.2.2 (Nat.pow_le_pow_right (by simp) (by omega)))
      simp [h, hz]
  rw [hb]
  simp
  omega

theorem octetBits_eq (byte : Octet) : BitDeserializer.octetBits byte = bits byte := by
  have h := fun (k : Nat) (hk : k < 8) => and_mask_ne_zero byte hk
  have hb : bits byte = (range 8).map fun k => byte.getMsbD k := by
    simp [bits, lowBits, BitVec.getMsbD, range_succ]
  rw [hb]
  simp only [range_succ, range_zero, nil_append, cons_append, map_cons, map_nil]
  rw [← h 0 (by omega), ← h 1 (by omega), ← h 2 (by omega), ← h 3 (by omega), ← h 4 (by omega),
    ← h 5 (by omega), ← h 6 (by omega), ← h 7 (by omega)]
  rfl

/-! ## The serializer's bytes -/

theorem stream_groupBytes (bs : List Bool) (h : bs.length % 8 = 0) : stream (BitSerializer.groupBytes bs) = bs := by
  induction bs using BitSerializer.groupBytes.induct with
  | case1 b₀ b₁ b₂ b₃ b₄ b₅ b₆ b₇ rest ih =>
    simp only [length_cons] at h
    rw [BitSerializer.groupBytes, stream_cons, ih (by omega), bits_foldl_shiftIn rfl]
    rfl
  | case2 bs hne =>
    match bs, h, hne with
    | [], _, _ => rfl
    | b₀ :: b₁ :: b₂ :: b₃ :: b₄ :: b₅ :: b₆ :: b₇ :: rest, _, hne => exact (hne _ _ _ _ _ _ _ _ _ rfl).elim

theorem groupBytes_length (bs : List Bool) (h : bs.length % 8 = 0) :
    8 * (BitSerializer.groupBytes bs).length = bs.length := by
  rw [← stream_length, stream_groupBytes bs h]

theorem and_mask (value : BitVec 64) {k : Nat} (hk : k < 64) : (value &&& 1#64 <<< k != 0) = value.getLsbD k := by
  have hbit : ∀ i < 64, (value &&& 1#64 <<< k).getLsbD i = (value.getLsbD k && decide (i = k)) := by
    intro i hi
    rw [BitVec.getLsbD_and, BitVec.getLsbD_shiftLeft, BitVec.getLsbD_one]
    by_cases h : i = k
    · subst h
      simp [hi]
    · have hne : ¬ (¬ i < k ∧ i - k = 0) := by omega
      simp only [h, decide_false, Bool.and_false]
      by_cases hlt : i < k
      · simp [hlt]
      · have hz : i - k ≠ 0 := by omega
        simp [hz]
  cases hv : value.getLsbD k with
  | false =>
    have hzero : value &&& 1#64 <<< k = 0 := by
      refine BitVec.eq_of_getLsbD_eq fun i hi => ?_
      rw [hbit i hi, hv]
      simp
    simp [hzero]
  | true =>
    have hone := hbit k hk
    simp only [bne_iff_ne, ne_eq]
    intro hzero
    rw [hzero, hv] at hone
    simp at hone

theorem maskLoop_eq (value : BitVec 64) (k : Nat) (hk : k < 64) :
    BitSerializer.maskLoop value (1#64 <<< k) (k + 1) = lowBits value (k + 1) := by
  induction k with
  | zero =>
    rw [BitSerializer.maskLoop, and_mask value hk]
    rfl
  | succ k ih =>
    have hshift : (1#64 <<< (k + 1)) >>> 1 = 1#64 <<< k := by
      refine BitVec.eq_of_getLsbD_eq fun i hi => ?_
      rw [BitVec.getLsbD_ushiftRight, BitVec.getLsbD_shiftLeft, BitVec.getLsbD_shiftLeft]
      by_cases h : i < k
      · simp [h]
        omega
      · have h1 : 1 + i - (k + 1) = i - k := by omega
        simp [h, hi, h1]
        omega
    rw [BitSerializer.maskLoop, hshift, ih (by omega), and_mask value hk]
    rfl

theorem serializer_from (s : BitSerializer) (fields : List Field) (hf : ∀ f ∈ fields, f.Fits) :
    fields.foldl (fun s f => s.pushBits f.1 f.2) s =
      { s with blob := s.blob ++ fields.flatMap fun f => lowBits f.1 f.2 } := by
  induction fields generalizing s with
  | nil => simp
  | cons f fields ih =>
    have hfits := hf f (by simp)
    have hbits : BitSerializer.maskLoop f.1 (1#64 <<< (f.2 - 1)) f.2 = lowBits f.1 f.2 := by
      obtain ⟨k, hk⟩ : ∃ k, f.2 = k + 1 := ⟨f.2 - 1, by have := hfits.1; omega⟩
      rw [hk, Nat.add_sub_cancel]
      exact maskLoop_eq f.1 k (by have := hfits.2.1; omega)
    rw [foldl_cons, ih _ fun g hg => hf g (by simp [hg])]
    simp [BitSerializer.pushBits, hbits]

theorem serializer_eq (padAtEnd : Bool) (fields : List Field) (hf : ∀ f ∈ fields, f.Fits) : serializer padAtEnd fields =
      { blob := fields.flatMap fun f => lowBits f.1 f.2, padsAtEnd := padAtEnd } := by
  rw [serializer, serializer_from _ fields hf]
  simp [BitSerializer.create, BitSerializer.insertPaddingAtEnd]

theorem blob_length (fields : List Field) : (fields.flatMap fun f => lowBits f.1 f.2).length = totalBits fields := by
  simp [totalBits, length_flatMap]

theorem pad_length (s : BitSerializer) : s.pad.blob.length = 8 * (s.blob.length / 8 + 1) := by
  unfold BitSerializer.pad BitSerializer.padAtEnd BitSerializer.padAtStart BitSerializer.padding
  split
  · simp only [length_append, length_replicate]
    omega
  · simp only [length_append, length_replicate]
    omega

theorem getBytes_length (s : BitSerializer) : s.getBytes.1.length = s.blob.length / 8 + 1 := by
  have hpad := pad_length s
  have hgroup := groupBytes_length s.pad.blob (by omega)
  simp only [BitSerializer.getBytes]
  omega

theorem stream_getBytes {s : BitSerializer} (hs : s.padsAtEnd = true) :
    stream s.getBytes.1 = s.blob ++ List.replicate s.padding false := by
  have hpad := pad_length s
  simp only [BitSerializer.getBytes]
  rw [stream_groupBytes _ (by omega)]
  simp [BitSerializer.pad, hs, BitSerializer.padAtEnd]

theorem writeLoop_eq (bytes : List Octet) (resultLen : Nat) (buffer : List Octet)
    (hlen : resultLen + bytes.length ≤ buffer.length) (hround : resultLen + bytes.length < 2 ^ 8) :
    BitSerializer.writeLoop bytes resultLen buffer = some (resultLen + bytes.length,
      buffer.take resultLen ++ bytes ++ buffer.drop (resultLen + bytes.length)) := by
  induction bytes generalizing resultLen buffer with
  | nil => simp [BitSerializer.writeLoop]
  | cons tmp rest ih =>
    simp only [length_cons] at hlen hround
    rw [BitSerializer.writeLoop, if_pos (by omega), Nat.mod_eq_of_lt (by omega), ih _ _ (by simp; omega) (by omega)]
    have htake : (buffer.set resultLen tmp).take (resultLen + 1) = buffer.take resultLen ++ [tmp] := by
      rw [take_set, take_add_one, getElem?_eq_getElem (by omega)]
      rw [set_append_right _ _ (by rw [length_take]; omega)]
      simp [Nat.min_eq_left (by omega : resultLen ≤ buffer.length)]
    have hdrop : (buffer.set resultLen tmp).drop (resultLen + 1 + rest.length) =
        buffer.drop (resultLen + 1 + rest.length) := by
      rw [drop_set_of_lt (by omega)]
    rw [htake, hdrop]
    have hsum : resultLen + (tmp :: rest).length = resultLen + 1 + rest.length := by
      simp only [length_cons]
      omega
    rw [hsum]
    simp

/-! ## What the deserializer makes of them -/

theorem getBits_of_append {d : BitDeserializer} (hd : d.deserializing = true) {bs rest : List Bool}
    (hblob : d.blob = bs ++ rest) (hsize : bs.length ≤ 64) :
    d.getBits bs.length = some ((bs.foldl shiftIn 0).setWidth 64, { d with blob := rest }) := by
  have hle : ¬ bs.length > d.blob.length := by
    rw [hblob, length_append]
    omega
  have hnot : ¬ bs.length > 64 := by omega
  simp only [BitDeserializer.getBits, BitDeserializer.prepareDeserialization, hd, if_true, hnot, hle, if_false]
  simp [hblob]

theorem getAll_eq {fields : List Field} (hf : ∀ f ∈ fields, f.Fits) (d : BitDeserializer) (rest : List Bool)
    (hd : d.deserializing = true) (hblob : d.blob = (fields.flatMap fun f => lowBits f.1 f.2) ++ rest) :
    getAll d (fields.map Prod.snd) = some (fields.map fun f => ((lowBits f.1 f.2).foldl shiftIn 0).setWidth 64) := by
  induction fields generalizing d with
  | nil => rfl
  | cons f fields ih =>
    have hfits := hf f (by simp)
    rw [flatMap_cons, append_assoc] at hblob
    have hget := getBits_of_append hd hblob (by rw [lowBits_length]; exact hfits.2.1)
    rw [lowBits_length] at hget
    rw [map_cons, getAll, hget, Option.bind_some,
      ih (fun g hg => hf g (by simp [hg])) { d with blob := (fields.flatMap fun f => lowBits f.1 f.2) ++ rest } hd rfl]
    rfl

theorem getAll_prepareDeserialization (d : BitDeserializer) (sizes : List Nat) :
    getAll d sizes = getAll d.prepareDeserialization sizes := by
  have hidem : d.prepareDeserialization.prepareDeserialization = d.prepareDeserialization := by
    unfold BitDeserializer.prepareDeserialization
    cases hd : d.deserializing <;> simp [hd]
  cases sizes with
  | nil => rfl
  | cons size sizes => simp only [getAll, BitDeserializer.getBits, hidem]

theorem readBack_eq {fields : List Field} (hf : ∀ f ∈ fields, f.Fits) {bytes : List Octet} {rest : List Bool}
    (hbytes : stream bytes = (fields.flatMap fun f => lowBits f.1 f.2) ++ rest) : readBack bytes fields =
      some (fields.map fun f => ((lowBits f.1 f.2).foldl shiftIn 0).setWidth 64) := by
  have hbits : (fun byte => BitDeserializer.octetBits byte) = fun byte : Octet => bits byte := by
    funext byte
    exact octetBits_eq byte
  have hpush : BitDeserializer.create.pushBytes bytes =
      some { blob := [], bytesBlob := bytes, deserializing := false } := by
    simp [BitDeserializer.pushBytes, BitDeserializer.create]
  rw [readBack, hpush, Option.bind_some, getAll_prepareDeserialization]
  apply getAll_eq hf _ rest
  · simp [BitDeserializer.prepareDeserialization]
  · rw [← hbytes]
    simp [BitDeserializer.prepareDeserialization, stream, hbits]

theorem readBack_iff {fields : List Field} (hf : ∀ f ∈ fields, f.Fits) {bytes : List Octet} {rest : List Bool}
    (hbytes : stream bytes = (fields.flatMap fun f => lowBits f.1 f.2) ++ rest) :
    readBack bytes fields = some (fields.map Prod.fst) ↔ ∀ f ∈ fields, f.1.toNat < 2 ^ 8 := by
  rw [readBack_eq hf hbytes, Option.some_inj, map_inj_left]
  constructor
  · intro h f hmem
    have heq := congrArg BitVec.toNat (h f hmem)
    rw [foldl_shiftIn_lowBits (hf f hmem)] at heq
    omega
  · intro h f hmem
    apply BitVec.eq_of_toNat_eq
    rw [foldl_shiftIn_lowBits (hf f hmem)]
    exact Nat.mod_eq_of_lt (h f hmem)

/-! ## When the two agree -/

theorem getBytesInto_eq {s : BitSerializer} {buffer : List Octet} (hfit : s.blob.length / 8 + 1 ≤ buffer.length)
    (hround : s.blob.length / 8 + 1 ≤ 255) (hsmall : 8 * buffer.length % 2 ^ 32 < 8 * (s.blob.length / 8 + 1)) :
    ∃ filled rest, s.getBytesInto buffer buffer.length = some (s.blob.length / 8 + 1, filled, rest) ∧
      filled.take (s.blob.length / 8 + 1) = s.getBytes.1 := by
  have hlen := getBytes_length s
  have hwrite := writeLoop_eq s.getBytes.1 0 buffer (by omega) (by omega)
  rw [hlen, Nat.zero_add] at hwrite
  refine ⟨s.getBytes.1 ++ buffer.drop (s.blob.length / 8 + 1), { s.pad with blob := [] }, ?_, ?_⟩
  · rw [BitSerializer.getBytesInto, if_neg (by rw [pad_length]; omega)]
    simp only [BitSerializer.getBytes] at hwrite
    rw [hwrite]
    simp [BitSerializer.getBytes]
  · rw [← hlen, take_left']
    rfl

theorem roundTrips_iff (padAtEnd : Bool) (fields : List Field) (buffer : List Octet) (hf : ∀ f ∈ fields, f.Fits) :
    RoundTrips padAtEnd fields buffer ↔ totalBits fields % 8 ≠ 0 ∧ (padAtEnd = true → ∀ f ∈ fields, f.1.toNat < 2 ^ 8) ∧
        (neededBytes fields ≤ 255 → neededBytes fields ≤ buffer.length →
          8 * buffer.length % 2 ^ 32 < 8 * neededBytes fields) := by
  have hs := serializer_eq padAtEnd fields hf
  have hblob : (serializer padAtEnd fields).blob.length = totalBits fields := by rw [hs, blob_length]
  have hlen := getBytes_length (serializer padAtEnd fields)
  have hpad := pad_length (serializer padAtEnd fields)
  rw [hblob] at hlen hpad
  have hback : padAtEnd = true → (readBack (serializer padAtEnd fields).getBytes.1 fields = some (fields.map Prod.fst) ↔
      ∀ f ∈ fields, f.1.toNat < 2 ^ 8) := by
    intro hend
    have hstream := stream_getBytes (s := serializer padAtEnd fields) (by rw [hs]; exact hend)
    rw [hs] at hstream ⊢
    exact readBack_iff hf hstream
  constructor
  · intro h
    have hbytes := h.bytes
    have hmod : totalBits fields % 8 ≠ 0 := by
      rw [hlen, neededBytes] at hbytes
      omega
    refine ⟨hmod, fun hend => (hback hend).1 (h.values hend), fun hround hfit => ?_⟩
    obtain ⟨filled, rest, hinto, -⟩ := h.buffered hround hfit
    rw [BitSerializer.getBytesInto] at hinto
    -- the abort is the only way to fail
    split at hinto
    · cases hinto
    · next hlarge =>
      rw [hpad] at hlarge
      rw [← hbytes, hlen]
      omega
  · intro ⟨hmod, hvalues, hsmall⟩
    have hneeded : neededBytes fields = totalBits fields / 8 + 1 := by
      rw [neededBytes]
      omega
    refine ⟨by rw [hlen, hneeded], fun hend => (hback hend).2 (hvalues hend), fun hround hfit => ?_⟩
    have hinto := @getBytesInto_eq (serializer padAtEnd fields) buffer
    rw [hblob, ← hneeded] at hinto
    obtain ⟨filled, rest, heq, htake⟩ := hinto hfit hround (hsmall hround hfit)
    refine ⟨filled, rest, heq, fun hend => ?_⟩
    rw [htake]
    exact (hback hend).2 (hvalues hend)

/-- The fields of the module's own test fill two bytes, but not through a buffer of two. -/
theorem two_bytes_aborted : ¬ RoundTrips true [(0x55#64, 7), (0x7#64, 3), (0x0#64, 2)] [0, 0] := by
  have hf : ∀ f ∈ [((0x55#64, 7) : Field), (0x7#64, 3), (0x0#64, 2)], Field.Fits f := by
    intro f hmem
    simp only [mem_cons, not_mem_nil, or_false] at hmem
    obtain rfl | rfl | rfl := hmem <;> exact ⟨by decide, by decide, by decide⟩
  rw [roundTrips_iff true _ [0, 0] hf]
  intro ⟨_, _, hsmall⟩
  exact absurd (hsmall (by decide) (by decide)) (by decide)

/-- Eight bits take two bytes, so that a byte is never one byte. -/
theorem whole_byte_padded : ¬ RoundTrips true [(0xab#64, 8)] [0] := by
  intro h
  exact absurd h.bytes (by decide)

end BitFields

end Ns3
