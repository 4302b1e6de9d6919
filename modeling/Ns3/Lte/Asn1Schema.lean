import Mathlib.Tactic.Linarith
import Ns3.Lte.Asn1Sound

/-!
# A schema of fields through `Asn1Header`

A header is a list of fields, written by one `Serialize` call each and read
into one output variable each. What comes back is what was written, except in
the variables whose constraint leaves a single value: `DeserializeInteger`
returns there without writing to them.
-/

namespace Ns3

open BitStream List

namespace Asn1Header

/-- A field and its constraint, as the arguments of its calls give it. -/
inductive FieldType where
  | bitstring (n : Nat)
  | boolean
  | sequence (n : Nat) (isExtensionMarkerPresent : Bool)
  | sequenceOf (nMax nMin : Int)
  | enum (numElems : Int)
  | choice (numOptions : Int) (isExtensionMarkerPresent : Bool)
  | integer (nmin nmax : Int)
deriving DecidableEq

namespace FieldType

@[reducible] def Value : FieldType → Type
  | bitstring n => BitVec n
  | boolean => Bool
  | sequence n _ => BitVec n
  | sequenceOf _ _ => Int
  | enum _ => Int
  | choice _ _ => Int
  | integer _ _ => Int

def width : FieldType → Nat
  | bitstring n => n
  | boolean => 1
  | sequence n isExtensionMarkerPresent => isExtensionMarkerPresent.toNat + n
  | sequenceOf nMax nMin => requiredBits (nMax - nMin + 1)
  | enum numElems => requiredBits numElems
  | choice numOptions isExtensionMarkerPresent => isExtensionMarkerPresent.toNat + requiredBits numOptions
  | integer nmin nmax => requiredBits (nmax - nmin + 1)

/-- The constraint leaves one value. -/
def SingleValue : FieldType → Prop
  | bitstring _ => False
  | boolean => False
  | sequence _ _ => False
  | sequenceOf nMax nMin => nMin = nMax
  | enum numElems => numElems = 1
  | choice numOptions _ => numOptions = 1
  | integer nmin nmax => nmin = nmax

end FieldType

/-- A field with a value: one that is written, or what an output variable
holds. -/
structure Field where
  type : FieldType
  value : type.Value

def InRange (n nmin nmax : Int) : Prop := nmin ≤ n ∧ n ≤ nmax ∧ nmax - nmin + 1 ≤ 2 ^ 20

namespace Field

/-- The value meets its constraint. The widest bitset the headers use has 32
bits. -/
def Admitted : Field → Prop
  | ⟨.bitstring n, _⟩ => n < 256
  | ⟨.boolean, _⟩ => True
  | ⟨.sequence n _, _⟩ => n < 256
  | ⟨.sequenceOf nMax nMin, numElems⟩ => InRange numElems nMin nMax
  | ⟨.enum numElems, selectedElem⟩ => InRange selectedElem 0 (numElems - 1)
  | ⟨.choice numOptions _, selectedOption⟩ => InRange selectedOption 0 (numOptions - 1)
  | ⟨.integer nmin nmax, n⟩ => InRange n nmin nmax

def serialize : Field → Asn1Header → Option Asn1Header
  | ⟨.bitstring _, data⟩, h => some (serializeBitstring data h)
  | ⟨.boolean, value⟩, h => some (serializeBoolean value h)
  | ⟨.sequence _ isExtensionMarkerPresent, mask⟩, h => some (serializeSequence mask isExtensionMarkerPresent h)
  | ⟨.sequenceOf nMax nMin, numElems⟩, h => serializeSequenceOf numElems nMax nMin h
  | ⟨.enum numElems, selectedElem⟩, h => serializeEnum numElems selectedElem h
  | ⟨.choice numOptions isExtensionMarkerPresent, selectedOption⟩, h =>
    serializeChoice numOptions selectedOption isExtensionMarkerPresent h
  | ⟨.integer nmin nmax, n⟩, h => serializeInteger n nmin nmax h

/-- What a call leaves in an output variable of the given type. -/
def store (t : FieldType) :
    Option (t.Value × Asn1Header × List (BitVec 8)) → Option (Field × Asn1Header × List (BitVec 8)) :=
  Option.map fun r => (⟨t, r.1⟩, r.2)

def deserialize (var : Field) (h : Asn1Header) (bIterator : List (BitVec 8)) :
    Option (Field × Asn1Header × List (BitVec 8)) :=
  match var with
  | ⟨.bitstring n, data⟩ => store (.bitstring n) (deserializeBitstring data h bIterator)
  | ⟨.boolean, _⟩ => store .boolean (deserializeBoolean h bIterator)
  | ⟨.sequence n isExtensionMarkerPresent, mask⟩ =>
    store (.sequence n isExtensionMarkerPresent) (deserializeSequence mask isExtensionMarkerPresent h bIterator)
  | ⟨.sequenceOf nMax nMin, numElems⟩ =>
    store (.sequenceOf nMax nMin) (deserializeSequenceOf numElems nMax nMin h bIterator)
  | ⟨.enum numElems, selectedElem⟩ => store (.enum numElems) (deserializeEnum numElems selectedElem h bIterator)
  | ⟨.choice numOptions isExtensionMarkerPresent, selectedOption⟩ =>
    store (.choice numOptions isExtensionMarkerPresent)
      (deserializeChoice numOptions isExtensionMarkerPresent selectedOption h bIterator)
  | ⟨.integer nmin nmax, n⟩ => store (.integer nmin nmax) (deserializeInteger n nmin nmax h bIterator)

end Field

def serializeFields : List Field → Asn1Header → Option Asn1Header
  | [], h => some h
  | f :: fs, h => do serializeFields fs (← f.serialize h)

def preSerialize (fields : List Field) : Option Asn1Header :=
  (serializeFields fields new).map finalizeSerialization

def deserializeFields : List Field → Asn1Header → List (BitVec 8) → Option (List Field × Asn1Header × List (BitVec 8))
  | [], h, bIterator => some ([], h, bIterator)
  | var :: vars, h, bIterator => do
    let (f, h, bIterator) ← var.deserialize h bIterator
    let (fs, h, bIterator) ← deserializeFields vars h bIterator
    some (f :: fs, h, bIterator)

/-- The fields are written to whole octets, and reading into the variables
`vars` with the header `r` uses these octets up and gives the fields back. -/
def RoundTrips (fields vars : List Field) (r : Asn1Header) (tail : List (BitVec 8)) : Prop :=
  ∃ w, preSerialize fields = some w ∧
    w.serializationResult.length = ((fields.map (·.type.width)).sum + 7) / 8 ∧
    ∃ r', deserializeFields vars r (w.serializationResult ++ tail) = some (fields, r', tail)

/-! ## Integers -/

variable {range n nmin nmax : Int} {h : Asn1Header} {bs rest : List Bool} {bIterator : List (BitVec 8)}
  {e : Bool}

theorem requiredBits_pos (h : 1 < range) : 1 ≤ requiredBits range := by
  exact Nat.clog_pos (by omega) (by omega)

theorem requiredBits_le (h : range ≤ 2 ^ 20) : requiredBits range ≤ 20 := by
  exact Nat.clog_le_of_le_pow (by omega)

theorem requiredBits_eq_zero (h : range ≤ 1) : requiredBits range = 0 := by
  exact Nat.clog_of_right_le_one (by omega) 2

def integerBits (n nmin nmax : Int) : List Bool := bits (BitVec.ofInt (requiredBits (nmax - nmin + 1)) (n - nmin))

theorem toNat_ofInt_sub (hr : InRange n nmin nmax) :
    ((BitVec.ofInt (requiredBits (nmax - nmin + 1)) (n - nmin)).toNat : Int) = n - nmin := by
  obtain ⟨h1, h2, -⟩ := hr
  have hle : (nmax - nmin + 1).toNat ≤ 2 ^ requiredBits (nmax - nmin + 1) := Nat.le_pow_clog (by omega) _
  have hlt : n - nmin < ((2 ^ requiredBits (nmax - nmin + 1) : Nat) : Int) := by omega
  rw [BitVec.toNat_ofInt, Int.toNat_of_nonneg (Int.emod_nonneg _ (by positivity)), Int.emod_eq_of_lt (by omega) hlt]

theorem integerBits_single (h : nmax - nmin + 1 ≤ 1) : integerBits n nmin nmax = [] := by
  apply eq_nil_of_length_eq_zero
  rw [integerBits, bits_length, requiredBits_eq_zero h]

theorem serializeInteger_written (hw : Written h bs) (hr : InRange n nmin nmax) :
    ∃ h', serializeInteger n nmin nmax h = some h' ∧ Written h' (bs ++ integerBits n nmin nmax) := by
  unfold serializeInteger
  rw [if_pos ⟨by linarith [hr.1], hr.2.1⟩]
  by_cases h1 : nmax - nmin + 1 ≤ 1
  · exact ⟨h, if_pos h1, by simpa [integerBits_single h1] using hw⟩
  · have hb := requiredBits_le hr.2.2
    refine ⟨_, (if_neg h1).trans (if_pos ⟨requiredBits_pos (by omega), hb⟩), ?_⟩
    exact serializeBitset_written hw _ (by omega)

theorem deserializeInteger_spec
    (var : Int) (hr : InRange n nmin nmax) (hu : Unread h bIterator (integerBits n nmin nmax ++ rest)) :
    ∃ h' it, deserializeInteger var nmin nmax h bIterator = some (if nmin = nmax then var else n, h', it) ∧
      Unread h' it rest := by
  have hle : ¬nmax < nmin := by linarith [hr.1, hr.2.1]
  unfold deserializeInteger
  rw [if_neg hle]
  by_cases h1 : nmin = nmax
  · subst h1
    rw [integerBits_single (by omega)] at hu
    exact ⟨h, bIterator, by simp, hu⟩
  · have hb := requiredBits_le hr.2.2
    have hp : 1 ≤ requiredBits (nmax - nmin + 1) := requiredBits_pos (by omega)
    obtain ⟨h', it, he, hu'⟩ := deserializeBitset_spec 0 _ hu
    refine ⟨h', it, ?_, hu'⟩
    simp only
    rw [if_neg (by omega), if_pos ⟨hp, hb⟩, he, if_neg h1]
    simp only [Option.bind_eq_bind, Option.bind_some, toNat_ofInt_sub hr, Int.sub_add_cancel]

/-! ## Markers and booleans -/

def markerBits (isExtensionMarkerPresent : Bool) : List Bool := if isExtensionMarkerPresent then [false] else []

theorem bits_ofBool (value : Bool) : bits (BitVec.ofBool value) = [value] := by
  cases value <;> rfl

theorem serializeBoolean_written (hw : Written h bs) (value : Bool) :
    Written (serializeBoolean value h) (bs ++ [value]) := by
  rw [← bits_ofBool]
  exact serializeBitset_written hw _ (by omega)

theorem marker_written (hw : Written h bs) (e : Bool) :
    Written (if e then serializeBoolean false h else h) (bs ++ markerBits e) := by
  cases e with
  | false => simpa [markerBits] using hw
  | true => exact serializeBoolean_written hw false

theorem deserializeBoolean_spec {value : Bool} (hu : Unread h bIterator (value :: rest)) :
    ∃ h' it, deserializeBoolean h bIterator = some (value, h', it) ∧ Unread h' it rest := by
  obtain ⟨h', it, he, hu'⟩ := deserializeBitset_spec (0 : BitVec 1) (BitVec.ofBool value)
    (by rw [bits_ofBool]; exact hu)
  refine ⟨h', it, ?_, hu'⟩
  rw [deserializeBoolean, he]
  cases value <;> rfl

theorem skipMarker_spec (hu : Unread h bIterator (markerBits e ++ rest)) :
    ∃ h' it, skipMarker e h bIterator = some (h', it) ∧ Unread h' it rest := by
  cases e with
  | false => exact ⟨h, bIterator, rfl, hu⟩
  | true =>
    obtain ⟨h', it, he, hu'⟩ := deserializeBoolean_spec hu
    exact ⟨h', it, by simp [skipMarker, he], hu'⟩

theorem deserializeSequence_spec {n : Nat} (data mask : BitVec n)
    (hu : Unread h bIterator (markerBits e ++ bits mask ++ rest)) :
    ∃ h' it, deserializeSequence data e h bIterator = some (mask, h', it) ∧ Unread h' it rest := by
  rw [append_assoc] at hu
  obtain ⟨h₁, it₁, he₁, hu₁⟩ := skipMarker_spec hu
  obtain ⟨h', it, he, hu'⟩ := deserializeBitset_spec data mask hu₁
  exact ⟨h', it, by simp [deserializeSequence, he₁, he], hu'⟩

theorem deserializeChoice_spec
    {selectedOption numOptions : Int} (var : Int) (hr : InRange selectedOption 0 (numOptions - 1))
    (hu : Unread h bIterator (markerBits e ++ integerBits selectedOption 0 (numOptions - 1) ++ rest)) :
    ∃ h' it, deserializeChoice numOptions e var h bIterator =
        some (if 0 = numOptions - 1 then var else selectedOption, h', it) ∧ Unread h' it rest := by
  rw [append_assoc] at hu
  obtain ⟨h₁, it₁, he₁, hu₁⟩ := skipMarker_spec hu
  obtain ⟨h', it, he, hu'⟩ := deserializeInteger_spec var hr hu₁
  exact ⟨h', it, by simp [deserializeChoice, he₁, he], hu'⟩

/-! ## One field -/

namespace Field

def wire : Field → List Bool
  | ⟨.bitstring _, data⟩ => bits data
  | ⟨.boolean, value⟩ => [value]
  | ⟨.sequence _ isExtensionMarkerPresent, mask⟩ => markerBits isExtensionMarkerPresent ++ bits mask
  | ⟨.sequenceOf nMax nMin, numElems⟩ => integerBits numElems nMin nMax
  | ⟨.enum numElems, selectedElem⟩ => integerBits selectedElem 0 (numElems - 1)
  | ⟨.choice numOptions isExtensionMarkerPresent, selectedOption⟩ =>
    markerBits isExtensionMarkerPresent ++ integerBits selectedOption 0 (numOptions - 1)
  | ⟨.integer nmin nmax, n⟩ => integerBits n nmin nmax

theorem wire_length (f : Field) : f.wire.length = f.type.width := by
  obtain ⟨t, v⟩ := f
  have hm : ∀ e : Bool, (markerBits e).length = e.toNat := by decide
  cases t with
  | bitstring n => exact bits_length _
  | boolean => rfl
  | sequence n e => exact length_append.trans (congrArg₂ (· + ·) (hm e) (bits_length _))
  | choice numOptions e => simp [wire, FieldType.width, integerBits, hm]
  | sequenceOf nMax nMin => simp [wire, FieldType.width, integerBits]
  | enum numElems => simp [wire, FieldType.width, integerBits]
  | integer nmin nmax => simp [wire, FieldType.width, integerBits]

theorem serialize_written {h : Asn1Header} {bs : List Bool} (hw : Written h bs) {f : Field} (hf : f.Admitted) :
    ∃ h', f.serialize h = some h' ∧ Written h' (bs ++ f.wire) := by
  obtain ⟨t, v⟩ := f
  cases t with
  | bitstring n => exact ⟨_, rfl, serializeBitset_written hw v hf⟩
  | boolean => exact ⟨_, rfl, serializeBoolean_written hw v⟩
  | sequence n e =>
    have h1 := serializeBitset_written (marker_written hw e) v hf
    rw [append_assoc] at h1
    exact ⟨_, rfl, h1⟩
  | sequenceOf nMax nMin => exact serializeInteger_written hw hf
  | enum numElems => exact serializeInteger_written hw hf
  | choice numOptions e =>
    have hm := marker_written hw e
    by_cases h2 : numOptions < 2
    · refine ⟨_, if_pos h2, ?_⟩
      have hz : integerBits v 0 (numOptions - 1) = [] := integerBits_single (by omega)
      simpa [wire, hz] using hm
    · obtain ⟨h', he, hw'⟩ := serializeInteger_written hm hf
      rw [append_assoc] at hw'
      exact ⟨h', (if_neg h2).trans he, hw'⟩
  | integer nmin nmax => exact serializeInteger_written hw hf

theorem same_iff {t : FieldType} (var v : t.Value) {single : Prop} [Decidable single] :
    (⟨t, if single then var else v⟩ : Field) = ⟨t, v⟩ ↔ (single → (⟨t, var⟩ : Field) = ⟨t, v⟩) := by
  by_cases h : single
  · simp [h]
  · simp [h]

theorem deserialize_spec {h : Asn1Header} {bIterator : List (BitVec 8)} {rest : List Bool} {var f : Field}
    (ht : var.type = f.type) (hf : f.Admitted) (hu : Unread h bIterator (f.wire ++ rest)) :
    ∃ g h' it, var.deserialize h bIterator = some (g, h', it) ∧ Unread h' it rest ∧
      (g = f ↔ (f.type.SingleValue → var = f)) := by
  obtain ⟨t, v⟩ := f
  obtain ⟨t', var⟩ := var
  obtain rfl : t' = t := ht
  cases t' with
  | bitstring n =>
    obtain ⟨h', it, he, hu'⟩ := deserializeBitset_spec var v hu
    exact ⟨⟨.bitstring n, v⟩, h', it, congrArg (store (.bitstring n)) he, hu', by simp [FieldType.SingleValue]⟩
  | boolean =>
    obtain ⟨h', it, he, hu'⟩ := deserializeBoolean_spec hu
    exact ⟨⟨.boolean, v⟩, h', it, congrArg (store .boolean) he, hu', by simp [FieldType.SingleValue]⟩
  | sequence n e =>
    obtain ⟨h', it, he, hu'⟩ := deserializeSequence_spec var v hu
    exact ⟨⟨.sequence n e, v⟩, h', it, congrArg (store (.sequence n e)) he, hu', by simp [FieldType.SingleValue]⟩
  | sequenceOf nMax nMin =>
    obtain ⟨h', it, he, hu'⟩ := deserializeInteger_spec var hf hu
    exact ⟨_, h', it, congrArg (store (.sequenceOf nMax nMin)) he, hu', same_iff _ _⟩
  | enum numElems =>
    obtain ⟨h', it, he, hu'⟩ := deserializeInteger_spec var hf hu
    refine ⟨_, h', it, congrArg (store (.enum numElems)) he, hu', (same_iff _ _).trans ?_⟩
    simp only [FieldType.SingleValue, show (0 = numElems - 1) ↔ numElems = 1 from by omega]
  | choice numOptions e =>
    obtain ⟨h', it, he, hu'⟩ := deserializeChoice_spec var hf hu
    refine ⟨_, h', it, congrArg (store (.choice numOptions e)) he, hu', (same_iff _ _).trans ?_⟩
    simp only [FieldType.SingleValue, show (0 = numOptions - 1) ↔ numOptions = 1 from by omega]
  | integer nmin nmax =>
    obtain ⟨h', it, he, hu'⟩ := deserializeInteger_spec var hf hu
    exact ⟨_, h', it, congrArg (store (.integer nmin nmax)) he, hu', same_iff _ _⟩

end Field

/-! ## The whole header -/

theorem serializeFields_written (fields : List Field) : ∀ {h : Asn1Header} {bs : List Bool}, Written h bs →
    (∀ f ∈ fields, f.Admitted) →
    ∃ h', serializeFields fields h = some h' ∧ Written h' (bs ++ fields.flatMap Field.wire) := by
  induction fields with
  | nil =>
    intro h bs hw _
    exact ⟨h, rfl, by simpa using hw⟩
  | cons f fs ih =>
    intro h bs hw hf
    obtain ⟨h₁, he₁, hw₁⟩ := f.serialize_written hw (hf f (by simp))
    obtain ⟨h', he, hw'⟩ := ih hw₁ fun g hg => hf g (by simp [hg])
    refine ⟨h', by simp [serializeFields, he₁, he], ?_⟩
    rwa [append_assoc] at hw'

/-- The variables that can hold one value only hold it already. -/
def SingleValuesHeld (vars fields : List Field) : Prop :=
  List.Forall₂ (fun var f => f.type.SingleValue → var = f) vars fields

theorem deserializeFields_spec (fields : List Field) : ∀ {vars : List Field} {h : Asn1Header}
    {bIterator : List (BitVec 8)} {rest : List Bool}, vars.map (·.type) = fields.map (·.type) →
    (∀ f ∈ fields, f.Admitted) → Unread h bIterator (fields.flatMap Field.wire ++ rest) →
    ∃ out h' it, deserializeFields vars h bIterator = some (out, h', it) ∧ Unread h' it rest ∧
      (out = fields ↔ SingleValuesHeld vars fields) := by
  induction fields with
  | nil =>
    intro vars h it rest ht _ hu
    obtain rfl : vars = [] := by simpa using ht
    exact ⟨[], h, it, rfl, hu, by simp [SingleValuesHeld]⟩
  | cons f fs ih =>
    intro vars h it rest ht hf hu
    cases vars with
    | nil => simp at ht
    | cons var vars =>
      simp only [map_cons, List.cons.injEq] at ht
      rw [flatMap_cons, append_assoc] at hu
      obtain ⟨g, h₁, it₁, he₁, hu₁, hg⟩ := Field.deserialize_spec ht.1 (hf f (by simp)) hu
      obtain ⟨out, h', it', he, hu', hout⟩ := ih ht.2 (fun g hg => hf g (by simp [hg])) hu₁
      refine ⟨g :: out, h', it', by simp [deserializeFields, he₁, he], hu', ?_⟩
      rw [List.cons.injEq, hg, hout]
      simp [SingleValuesHeld]

theorem flatMap_wire_length (fields : List Field) :
    (fields.flatMap Field.wire).length = (fields.map (·.type.width)).sum := by
  simp [length_flatMap, Field.wire_length]

theorem deserializeFields_preSerialize {fields vars : List Field} (hf : ∀ f ∈ fields, f.Admitted)
    (ht : vars.map (·.type) = fields.map (·.type)) {r : Asn1Header} (hr : r.numSerializationPendingBits = 0)
    (tail : List (BitVec 8)) : ∃ w, preSerialize fields = some w ∧
      w.serializationResult.length = ((fields.map (·.type.width)).sum + 7) / 8 ∧
      ∃ out r', deserializeFields vars r (w.serializationResult ++ tail) = some (out, r', tail) ∧
        (out = fields ↔ SingleValuesHeld vars fields) := by
  obtain ⟨h, he, hw⟩ := serializeFields_written fields written_new hf
  obtain ⟨k, hk, hs⟩ := finalizeSerialization_stream hw
  have hlen := congrArg List.length hs
  simp only [stream_length, nil_append, length_append, flatMap_wire_length, length_replicate] at hlen
  refine ⟨finalizeSerialization h, by simp [preSerialize, he], by omega, ?_⟩
  have hu := unread_start hr ((finalizeSerialization h).serializationResult ++ tail)
  rw [stream_append, hs, nil_append, append_assoc] at hu
  obtain ⟨out, r', it, hd, hu', hout⟩ := deserializeFields_spec fields ht hf hu
  -- the zeros at the end stay in the register, so the octets left are `tail`
  have hit : it = tail := by
    have hl := hu'.octets
    obtain ⟨-, hb⟩ := hu'
    have hlb := congrArg List.length hb
    simp only [length_append, length_replicate, stream_length] at hl hlb
    obtain ⟨-, hst⟩ := append_inj hb (by rw [length_replicate]; omega)
    exact (stream_injective hst).symm
  rw [hit] at hd
  exact ⟨out, r', hd, hout⟩

/-- The fields come back exactly when each variable that can hold one value
only holds it already. -/
theorem fields_roundTrip_iff {fields vars : List Field} (hf : ∀ f ∈ fields, f.Admitted)
    (ht : vars.map (·.type) = fields.map (·.type)) {r : Asn1Header} (hr : r.numSerializationPendingBits = 0)
    (tail : List (BitVec 8)) : RoundTrips fields vars r tail ↔ SingleValuesHeld vars fields := by
  obtain ⟨w, hw, hl, out, r', hd, hout⟩ := deserializeFields_preSerialize hf ht hr tail
  rw [← hout]
  constructor
  · rintro ⟨w', hw', -, r'', hd'⟩
    obtain rfl : w = w' := Option.some.inj (hw.symm.trans hw')
    have := hd.symm.trans hd'
    simp only [Option.some.injEq, Prod.mk.injEq] at this
    exact this.1
  · rintro rfl
    exact ⟨w, hw, hl, r', hd⟩

theorem roundTrips_straddling :
    RoundTrips [⟨.boolean, true⟩, ⟨.integer 3 1000, (700 : Int)⟩, ⟨.choice 1 true, (0 : Int)⟩, ⟨.bitstring 10, 0x2a5#10⟩]
      [⟨.boolean, false⟩, ⟨.integer 3 1000, (0 : Int)⟩, ⟨.choice 1 true, (0 : Int)⟩, ⟨.bitstring 10, 0#10⟩] new [] := by
  refine (fields_roundTrip_iff ?_ (by rfl) (by rfl) []).mpr ?_
  · simp [Field.Admitted, InRange]
  · simp [SingleValuesHeld, FieldType.SingleValue]

/-- The only number of elements there can be, read into a variable that holds
another one. -/
theorem sequenceOf_single_lost : (∀ f ∈ [(⟨.sequenceOf 1 1, (1 : Int)⟩ : Field)], f.Admitted) ∧
      ¬RoundTrips [⟨.sequenceOf 1 1, (1 : Int)⟩] [⟨.sequenceOf 1 1, (0 : Int)⟩] new [] := by
  refine ⟨by simp [Field.Admitted, InRange], ?_⟩
  rintro ⟨w, -, -, r', hd⟩
  have hread : deserializeFields [⟨.sequenceOf 1 1, (0 : Int)⟩] new (w.serializationResult ++ []) =
      some ([⟨.sequenceOf 1 1, (0 : Int)⟩], new, w.serializationResult ++ []) := rfl
  have hne := congrArg Prod.fst (Option.some.inj (hread.symm.trans hd))
  have hval : (0 : Int) = 1 := eq_of_heq (Field.mk.inj (List.cons.inj hne).1).2
  exact absurd hval (by decide)

end Asn1Header

end Ns3
