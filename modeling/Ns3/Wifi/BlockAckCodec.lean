import Mathlib.Data.Nat.Bitwise
import Mathlib.Data.Nat.SuccPred
import Mathlib.Tactic.IntervalCases
import Ns3.Wifi.CtrlBAckResponseHeader

/-!
# Block ack frames read back

A header of the Basic, Compressed or Multi-STA variant is written in the bytes
its type says, and what is read of them is the header, but for what an entry has
no field for. The answers for sequence numbers are the same on both sides. Of a
Basic block ack there is no answer for whole packets, and an all-ack entry
answers for every packet.
-/

namespace Ns3.CtrlHeaders

open BlockAckType

namespace BaInfoInstance

/-- The AID of stations that are not associated. -/
def Unassociated (v : Variant) (e : BaInfoInstance) : Prop := v = .MULTI_STA ∧ e.getAid11 = 2045

instance (v : Variant) (e : BaInfoInstance) : Decidable (e.Unassociated v) := inferInstanceAs (Decidable (_ ∧ _))

/-- The ack type and the TID that stand for all packets. -/
def AllAck (v : Variant) (e : BaInfoInstance) : Prop := v = .MULTI_STA ∧ e.getAckType = true ∧ e.getTidInfo = 14

instance (v : Variant) (e : BaInfoInstance) : Decidable (e.AllAck v) := inferInstanceAs (Decidable (_ ∧ _))

/-- A bitmap of its length, from a sequence number of 12 bits on. -/
structure Filled (e : BaInfoInstance) (n : Nat) : Prop where
  bitmapLen : e.bitmapLen = n
  length : e.bitmap.length = n
  startingSeq : e.startingSeq < 4096

inductive Subfield (e : BaInfoInstance) : Prop
  | unassociated (haid : e.getAid11 = 2045) (hlen : e.bitmapLen = 8)
  | acknowledgment (haid : e.getAid11 ≠ 2045) (hcontext : ¬ (e.getAckType = false ∧ e.getTidInfo < 8)) (hlen : e.bitmapLen = 0)
      (hbitmap : e.bitmap = []) (hstart : e.startingSeq < 4096)
  | blockAck (n : Nat) (haid : e.getAid11 ≠ 2045) (hcontext : e.getAckType = false ∧ e.getTidInfo < 8)
      (hn : n = 4 ∨ n = 8 ∨ n = 16 ∨ n = 32) (hfilled : e.Filled n)

structure Recovered (v : Variant) (e e' : BaInfoInstance) : Prop where
  bitmapLen : e'.bitmapLen = e.bitmapLen
  aidTidInfo : v = .MULTI_STA → e'.aidTidInfo = e.aidTidInfo
  bitmap : ¬ e.Unassociated v → e'.bitmap = e.bitmap
  startingSeq : ¬ e.Unassociated v → e'.startingSeq = e.startingSeq ∨ e.bitmapLen = 0 ∧ e'.startingSeq = 0
  ra : e.Unassociated v → e'.ra = e.ra

/-! ## The starting sequence control -/

theorem sequenceControl_eq {s f : Nat} (hs : s < 4096) (hf : f < 16) : ((s <<< 4) &&& 0xfff0) ||| f = s * 16 + f := by
  have hmask : (s <<< 4) &&& 0xfff0 = s * 16 := by
    rw [show 0xfff0 = (2 ^ 12 - 1) * 2 ^ 4 by decide, field_put s 12 4 rfl]
    omega
  rw [hmask]
  exact or_eq_add 4 (by omega) hf

theorem sequenceControl_fields {s f c : Nat} (hs : s < 4096) (hf : f < 16) (hc : c = s * 16 + f) :
    (c >>> 4) &&& 0x0fff = s ∧ c &&& 0x0001 = f % 2 ∧ (c >>> 3) &&& 0x0001 = f / 8 ∧ (c >>> 1) &&& 0x0003 = f / 2 % 4 := by
  subst hc
  refine ⟨?_, ?_, ?_, ?_⟩
  · rw [field_high _ 12 4 (by decide)]
    omega
  · rw [Nat.and_two_pow_sub_one_eq_mod _ 1]
    omega
  · rw [field_high _ 1 3 (by decide)]
    omega
  · rw [field_high _ 2 1 (by decide)]
    omega

variable {e : BaInfoInstance} {n : Nat}

theorem Filled.control (he : e.Filled n) (hn : 0 < n) (v : Variant)
    (hf : e.fragmentNumber v < 16) : e.getStartingSequenceControl v = some (e.startingSeq * 16 + e.fragmentNumber v) := by
  have hlength := he.length
  rw [getStartingSequenceControl, if_neg (by omega), sequenceControl_eq he.startingSeq hf]

theorem setStartingSequenceControl_multiSta (e₀ : BaInfoInstance)
    (hn : n = 4 ∨ n = 8 ∨ n = 16 ∨ n = 32) (he : e.Filled n) : ∃ c, e.getStartingSequenceControl .MULTI_STA = some c ∧ c < 65536 ∧
      e₀.setStartingSequenceControl .MULTI_STA c =
        some { e₀ with bitmapLen := n, bitmap := List.replicate n 0, startingSeq := e.startingSeq } := by
  have hs := he.startingSeq
  have hfragment : e.fragmentNumber .MULTI_STA = if n = 16 then 2 else if n = 32 then 4 else if n = 4 then 6 else 0 := by
    rw [fragmentNumber, he.bitmapLen]
  have hf : e.fragmentNumber .MULTI_STA < 16 := by
    rw [hfragment]
    rcases hn with rfl | rfl | rfl | rfl <;> decide
  obtain ⟨hseq, hlow, hhigh, hlength⟩ := sequenceControl_fields hs hf rfl
  refine ⟨_, he.control (by omega) _ hf, by omega, ?_⟩
  simp only [setStartingSequenceControl, hseq, hlow, hhigh, hlength]
  rw [hfragment]
  rcases hn with rfl | rfl | rfl | rfl <;> rfl

theorem setStartingSequenceControl_compressed (e₀ : BaInfoInstance) (hn : n = 8 ∨ n = 32) (he : e.Filled n) :
    ∃ c, e.getStartingSequenceControl .COMPRESSED = some c ∧ c < 65536 ∧
      e₀.setStartingSequenceControl .COMPRESSED c = some { cleared n with startingSeq := e.startingSeq } := by
  have hs := he.startingSeq
  have hfragment : e.fragmentNumber .COMPRESSED = if n = 32 then 4 else 0 := by rw [fragmentNumber, he.bitmapLen]
  have hf : e.fragmentNumber .COMPRESSED < 16 := by
    rw [hfragment]
    rcases hn with rfl | rfl <;> decide
  obtain ⟨hseq, hlow, hhigh, hlength⟩ := sequenceControl_fields hs hf rfl
  refine ⟨_, he.control (by omega) _ hf, by omega, ?_⟩
  simp only [setStartingSequenceControl, hseq, hlow, hhigh, hlength]
  rw [hfragment]
  rcases hn with rfl | rfl <;> rfl

theorem setStartingSequenceControl_basic (e₀ : BaInfoInstance) (hn : 0 < n) (he : e.Filled n) :
    ∃ c, e.getStartingSequenceControl .BASIC = some c ∧ c < 65536 ∧
      e₀.setStartingSequenceControl .BASIC c = some { e₀ with startingSeq := e.startingSeq } := by
  have hs := he.startingSeq
  have hnone : e.fragmentNumber .BASIC = 0 := rfl
  have hf : e.fragmentNumber .BASIC < 16 := by omega
  refine ⟨_, he.control hn .BASIC hf, by omega, ?_⟩
  simp only [setStartingSequenceControl, (sequenceControl_fields hs hf rfl).1]

theorem deserializeBitmap_append {bitmap : Bytes} (hlength : bitmap.length = e.bitmapLen) (rest : Bytes) :
    e.deserializeBitmap (bitmap ++ rest) = some ({ e with bitmap := bitmap }, rest) := by
  rw [deserializeBitmap, readBytes_of_length hlength, Option.map_some]

end BaInfoInstance

namespace CtrlBAckResponseHeader

open BaInfoInstance

/-! ## The Per AID TID Info subfields -/

def infoSize (bitmapLen : Nat) : Nat := 2 + (if 0 < bitmapLen then 2 else 0) + bitmapLen

theorem aidTidInfo_read {e : BaInfoInstance} (h : e.aidTidInfo < 65536) (rest : Bytes) :
    readLsbtoh 2 (leBytes 2 e.aidTidInfo ++ rest) = some (e.aidTidInfo, rest) := by
  rw [readLsbtoh_leBytes, Nat.mod_eq_of_lt (show e.aidTidInfo < 256 ^ 2 from h)]

theorem info_roundTrip {e : BaInfoInstance} (haidTidInfo : e.aidTidInfo < 65536) (he : e.Subfield) :
    ∃ bytes e', serializeInfo e = some bytes ∧ bytes.length = infoSize e.bitmapLen ∧
      (∀ rest, deserializeInfo (bytes ++ rest) = some (e', rest)) ∧ e.Recovered .MULTI_STA e' := by
  cases he with
  | unassociated haid hlen =>
    refine ⟨_, { aidTidInfo := e.aidTidInfo, ra := e.ra, bitmapLen := 8 }, if_neg (not_not.mpr haid), ?_, fun rest => ?_, ?_⟩
    · rw [hlen]
      simp [infoSize]
    · have haid' : (BaInfoInstance.getAid11 { aidTidInfo := e.aidTidInfo }) = 2045 := haid
      have hra : e.ra.val % 256 ^ 6 = e.ra.val := Nat.mod_eq_of_lt e.ra.isLt
      rw [deserializeInfo, List.append_assoc, aidTidInfo_read haidTidInfo, Option.bind_some]
      simp only [haid', ne_eq, not_true_eq_false, if_false, List.append_assoc, readLsbtoh_leBytes, Option.bind_some,
        readNtoh_writeHton, hra]
      simp
    · exact ⟨hlen.symm, fun _ => rfl, fun hnot => absurd ⟨rfl, haid⟩ hnot, fun hnot => absurd ⟨rfl, haid⟩ hnot, fun _ => rfl⟩
  | acknowledgment haid hcontext hlen hbitmap hstart =>
    have hbytes : serializeInfo e = some (leBytes 2 e.aidTidInfo) := by
      rw [serializeInfo, if_pos haid, hbitmap]
      rfl
    refine ⟨_, { aidTidInfo := e.aidTidInfo }, hbytes, ?_, fun rest => ?_, ?_⟩
    · rw [hlen, length_leBytes]
      rfl
    · rw [deserializeInfo, aidTidInfo_read haidTidInfo, Option.bind_some]
      have haid' : (BaInfoInstance.getAid11 { aidTidInfo := e.aidTidInfo }) ≠ 2045 := haid
      simp only [if_pos haid']
      exact if_neg hcontext
    · exact ⟨hlen.symm, fun _ => rfl, fun _ => hbitmap.symm, fun _ => .inr ⟨hlen, rfl⟩, fun hnot => absurd hnot.2 haid⟩
  | blockAck n haid hcontext hn hfilled =>
    obtain ⟨c, hget, hc, hset⟩ := setStartingSequenceControl_multiSta { aidTidInfo := e.aidTidInfo } hn hfilled
    have hlength := hfilled.length
    have hbytes : serializeInfo e = some (leBytes 2 e.aidTidInfo ++ (leBytes 2 c ++ e.bitmap)) := by
      rw [serializeInfo, if_pos haid, if_pos (by omega), hget]
      rfl
    refine ⟨_, { aidTidInfo := e.aidTidInfo, bitmapLen := n, bitmap := e.bitmap, startingSeq := e.startingSeq }, hbytes, ?_,
      fun rest => ?_, ?_⟩
    · rw [hfilled.bitmapLen, infoSize, if_pos (by omega)]
      simp [hlength]
      omega
    · rw [deserializeInfo, List.append_assoc, aidTidInfo_read haidTidInfo, Option.bind_some]
      have haid' : (BaInfoInstance.getAid11 { aidTidInfo := e.aidTidInfo }) ≠ 2045 := haid
      have hcontext' : (BaInfoInstance.getAckType { aidTidInfo := e.aidTidInfo }) = false ∧
          (BaInfoInstance.getTidInfo { aidTidInfo := e.aidTidInfo }) < 8 := hcontext
      simp only [if_pos haid', if_pos hcontext', List.append_assoc, readLsbtoh_leBytes, Option.bind_some,
        Nat.mod_eq_of_lt (show c < 256 ^ 2 from hc), hset]
      exact deserializeBitmap_append hlength rest
    · exact ⟨hfilled.bitmapLen.symm, fun _ => rfl, fun _ => rfl, fun _ => .inl rfl, fun hnot => absurd hnot.2 haid⟩

theorem infos_roundTrip : ∀ {l : List BaInfoInstance}, (∀ e ∈ l, e.aidTidInfo < 65536 ∧ e.Subfield) →
    ∃ parts l', l.mapM serializeInfo = some parts ∧ parts.flatten.length = (l.map fun e => infoSize e.bitmapLen).sum ∧
      (∀ rounds, parts.flatten.length ≤ rounds → deserializeInfos rounds parts.flatten = some l') ∧
      List.Forall₂ (Recovered .MULTI_STA) l l'
  | [], _ => ⟨[], [], rfl, rfl, fun rounds _ => by cases rounds <;> rfl, .nil⟩
  | e :: l, h => by
    obtain ⟨haidTidInfo, he⟩ := h e List.mem_cons_self
    obtain ⟨bytes, e', hbytes, hsize, hread, hrecovered⟩ := info_roundTrip haidTidInfo he
    obtain ⟨parts, l', hparts, hsizes, hreads, hall⟩ := infos_roundTrip fun x hx => h x (List.mem_cons_of_mem _ hx)
    refine ⟨bytes :: parts, e' :: l', ?_, ?_, fun rounds hrounds => ?_, .cons hrecovered hall⟩
    · rw [List.mapM_cons, hbytes, hparts]
      rfl
    · rw [List.flatten_cons, List.length_append, hsize, hsizes, List.map_cons, List.sum_cons]
    · have htwo : 2 ≤ bytes.length := by
        rw [hsize, infoSize]
        omega
      rw [List.flatten_cons, List.length_append] at hrounds
      obtain ⟨rounds, rfl⟩ : ∃ n, rounds = n + 1 := ⟨rounds - 1, by omega⟩
      have hne : bytes ++ parts.flatten ≠ [] := by
        intro hnil
        rw [(List.append_eq_nil_iff.mp hnil).1] at htwo
        simp at htwo
      rw [List.flatten_cons, deserializeInfos, if_neg hne, hread, Option.bind_some]
      simp only [hreads rounds (by omega), Option.map_some]

/-! ## The control field -/

theorem control_read {h : CtrlBAckResponseHeader} (hv : h.variant = .BASIC ∨ h.variant = .COMPRESSED) (htid : h.tidInfo < 16) :
    h.getBaControl < 65536 ∧ (decide (h.getBaControl &&& 0x01 = 1)) = h.baAckPolicy ∧
      variantOf h.getBaControl = some h.variant ∧ (h.getBaControl >>> 12) &&& 0x0f = h.tidInfo := by
  have hnot : h.variant ≠ .MULTI_STA := by rcases hv with hv | hv <;> simp [hv]
  rw [getBaControl, if_neg hnot]
  generalize h.baAckPolicy = policy
  generalize h.tidInfo = tid at htid ⊢
  rcases hv with hv | hv
  · rw [hv]
    interval_cases tid <;> cases policy <;> decide
  · rw [hv]
    interval_cases tid <;> cases policy <;> decide

theorem control_read_multiSta {h : CtrlBAckResponseHeader} (hv : h.variant = .MULTI_STA) :
    h.getBaControl < 65536 ∧ (decide (h.getBaControl &&& 0x01 = 1)) = h.baAckPolicy ∧
      variantOf h.getBaControl = some .MULTI_STA := by
  rw [getBaControl, if_pos hv, hv]
  cases h.baAckPolicy <;> decide

/-- The headers of the three variants with what their fields can hold. -/
inductive WellFormed (h : CtrlBAckResponseHeader) : Prop
  | basic (e : BaInfoInstance) (hv : h.variant = .BASIC) (htid : h.tidInfo < 16) (hinfo : h.baInfo = [e]) (hfilled : e.Filled 128)
  | compressed (n : Nat) (e : BaInfoInstance) (hv : h.variant = .COMPRESSED) (htid : h.tidInfo < 16) (hinfo : h.baInfo = [e])
      (hn : n = 8 ∨ n = 32) (hfilled : e.Filled n)
  | multiSta (hv : h.variant = .MULTI_STA) (hall : ∀ e ∈ h.baInfo, e.aidTidInfo < 65536 ∧ e.Subfield)

structure Recovers (h h' : CtrlBAckResponseHeader) : Prop where
  baAckPolicy : h'.baAckPolicy = h.baAckPolicy
  variant : h'.variant = h.variant
  tidInfo : h.variant ≠ .MULTI_STA → h'.tidInfo = h.tidInfo
  baInfo : List.Forall₂ (Recovered h.variant) h.baInfo h'.baInfo

section
variable {h : CtrlBAckResponseHeader}

theorem deserialize_control {h₀ h₁ : CtrlBAckResponseHeader} {rest : Bytes} {l : List BaInfoInstance} (hlt : h.getBaControl < 65536)
    (hset : h₀.setBaControl h.getBaControl = some h₁) (hread : h₁.deserializeBaInfo rest = some (l, [])) :
    deserialize h₀ (leBytes 2 h.getBaControl ++ rest) =
      some ({ h₁ with baInfo := l }, (leBytes 2 h.getBaControl ++ rest).length) := by
  rw [deserialize, readLsbtoh_leBytes, Nat.mod_eq_of_lt (show h.getBaControl < 256 ^ 2 from hlt), Option.bind_some]
  simp only [hset, Option.bind_some, hread, Option.map_some, List.length_nil, Nat.sub_zero]

theorem roundTrip_multiSta (hv : h.variant = .MULTI_STA) (hall : ∀ e ∈ h.baInfo, e.aidTidInfo < 65536 ∧ e.Subfield)
    (h₀ : CtrlBAckResponseHeader) : ∃ bytes h', h.serialize = some bytes ∧ h.getSerializedSize = some bytes.length ∧
      deserialize h₀ bytes = some (h', bytes.length) ∧ Recovers h h' := by
  obtain ⟨parts, l', hparts, hsizes, hreads, hrecovered⟩ := infos_roundTrip hall
  obtain ⟨hlt, hpolicy, hvariant⟩ := control_read_multiSta hv
  have hset : h₀.setBaControl h.getBaControl =
      some { h₀ with baAckPolicy := h.baAckPolicy, variant := .MULTI_STA, baInfo := [] } := by
    rw [setBaControl, hvariant, Option.map_some, if_pos rfl, hpolicy]
    rfl
  refine ⟨leBytes 2 h.getBaControl ++ parts.flatten,
    { h₀ with baAckPolicy := h.baAckPolicy, variant := .MULTI_STA, baInfo := l' }, ?_, ?_, ?_, ?_⟩
  · simp only [serialize, hv, hparts, Option.map_some]
  · simp only [getSerializedSize, hv, List.length_append, length_leBytes, hsizes, bitmapLens, List.map_map]
    rfl
  · refine deserialize_control hlt hset ?_
    simp only [deserializeBaInfo, hreads _ (Nat.le_refl _), Option.map_some]
  · exact ⟨rfl, hv.symm, fun hnot => absurd hv hnot, by rw [hv]; exact hrecovered⟩

theorem read_single {h₁ : CtrlBAckResponseHeader} {e₀ e₁ e₂ : BaInfoInstance} {l : List BaInfoInstance} {i rest : Bytes} {c : Nat}
    (hinfo : h₁.baInfo = e₀ :: l) (hset : e₀.setStartingSequenceControl h₁.variant c = some e₁)
    (hread : readLsbtoh 2 i = some (c, rest)) (hbitmap : e₁.deserializeBitmap rest = some (e₂, []))
    (hv : h₁.variant = .BASIC ∨ h₁.variant = .COMPRESSED) : h₁.deserializeBaInfo i = some ([e₂], []) := by
  rcases hv with hv | hv
  · rw [hv] at hset
    simp only [deserializeBaInfo, hv, hinfo, List.head?_cons, Option.bind_some, hread, hset, hbitmap, Option.map_some]
  · rw [hv] at hset
    simp only [deserializeBaInfo, hv, hinfo, List.head?_cons, Option.bind_some, hread, hset, hbitmap, Option.map_some]

theorem roundTrip_single {e e₁ : BaInfoInstance} {v : Variant} {n c : Nat} (hv : h.variant = v) (hcase : v = .BASIC ∨ v = .COMPRESSED)
    (htid : h.tidInfo < 16) (hinfo : h.baInfo = [e]) (hfilled : e.Filled n)
    (hget : e.getStartingSequenceControl v = some c) (hc : c < 65536)
    (hset : (cleared ((bitmapLen v).headD 0)).setStartingSequenceControl v c = some e₁) (hlen : e₁.bitmapLen = n)
    (hstart : e₁.startingSeq = e.startingSeq) (h₀ : CtrlBAckResponseHeader) :
    ∃ bytes h', h.serialize = some bytes ∧ h.getSerializedSize = some bytes.length ∧
      deserialize h₀ bytes = some (h', bytes.length) ∧ Recovers h h' := by
  obtain ⟨hlt, hpolicy, hvariant, hread⟩ := control_read (h := h) (by rwa [hv]) htid
  have hlength := hfilled.length
  have hread_c : readLsbtoh 2 (leBytes 2 c ++ e.bitmap) = some (c, e.bitmap) := by
    rw [readLsbtoh_leBytes, Nat.mod_eq_of_lt (show c < 256 ^ 2 from hc)]
  have hbitmap : e₁.deserializeBitmap e.bitmap = some ({ e₁ with bitmap := e.bitmap }, []) := by
    have hsame : e.bitmap.length = e₁.bitmapLen := by rw [hlength, hlen]
    have happend := deserializeBitmap_append hsame []
    rwa [List.append_nil] at happend
  have hcontrol : h₀.setBaControl h.getBaControl = some { h₀ with
      baAckPolicy := h.baAckPolicy, variant := v, tidInfo := h.tidInfo, baInfo := (bitmapLen v).map cleared } := by
    have hnot : v ≠ .MULTI_STA := by rcases hcase with rfl | rfl <;> decide
    rw [setBaControl, hvariant, hv, Option.map_some, if_neg hnot, hpolicy, hread]
    rfl
  refine ⟨leBytes 2 h.getBaControl ++ (leBytes 2 c ++ e.bitmap),
    { h₀ with baAckPolicy := h.baAckPolicy, variant := v, tidInfo := h.tidInfo, baInfo := [{ e₁ with bitmap := e.bitmap }] },
    ?_, ?_, ?_, ?_⟩
  · rcases hcase with rfl | rfl <;> simp [serialize, hv, hinfo, hget]
  · rcases hcase with rfl | rfl <;> simp [getSerializedSize, hv, hinfo, bitmapLens, hfilled.bitmapLen, hlength]
  · refine deserialize_control hlt hcontrol ?_
    rcases hcase with rfl | rfl
    · exact read_single rfl hset hread_c hbitmap (.inl rfl)
    · exact read_single rfl hset hread_c hbitmap (.inr rfl)
  · refine ⟨rfl, hv.symm, fun _ => rfl, ?_⟩
    rw [hinfo]
    have hnot : ¬ h.variant = .MULTI_STA := by rcases hcase with rfl | rfl <;> simp [hv]
    exact .cons ⟨hlen.trans hfilled.bitmapLen.symm, fun hsta => absurd hsta hnot, fun _ => rfl, fun _ => .inl hstart,
      fun hun => absurd hun.1 hnot⟩ .nil

theorem WellFormed.roundTrip (hwf : h.WellFormed) (h₀ : CtrlBAckResponseHeader) :
    ∃ bytes h', h.serialize = some bytes ∧ h.getSerializedSize = some bytes.length ∧
      deserialize h₀ bytes = some (h', bytes.length) ∧ Recovers h h' := by
  cases hwf with
  | basic e hv htid hinfo hfilled =>
    obtain ⟨c, hget, hc, hset⟩ := setStartingSequenceControl_basic (cleared 128) (by decide) hfilled
    exact roundTrip_single hv (.inl rfl) htid hinfo hfilled hget hc hset rfl rfl h₀
  | compressed n e hv htid hinfo hn hfilled =>
    obtain ⟨c, hget, hc, hset⟩ := setStartingSequenceControl_compressed (cleared 8) hn hfilled
    exact roundTrip_single hv (.inr rfl) htid hinfo hfilled hget hc hset rfl rfl h₀
  | multiSta hv hall => exact roundTrip_multiSta hv hall h₀

end

end CtrlBAckResponseHeader

/-! ## Bitmaps -/

namespace BaInfoInstance

/-- The place of a sequence number behind the starting one. -/
def offset (e : BaInfoInstance) (seq : Nat) : Nat := (seq + 4096 - e.startingSeq) % 4096

def bitAt (bitmap : Bytes) (i : Nat) : Bool := ((bitmap[i / 8]?).map fun b => b.toNat.testBit (i % 8)).getD false

/-- An entry whose bitmap has its length, of a variant with bitmaps that can be read. -/
structure Sized (v : Variant) (e : BaInfoInstance) : Prop where
  variant : v = .BASIC ∨ v = .COMPRESSED ∨ v = .MULTI_STA
  length : e.bitmap.length = e.bitmapLen
  startingSeq : e.startingSeq < 4096
  whole : v = .BASIC → e.bitmapLen = 128

/-- Another bitmap of the same length. -/
structure Kept (e e' : BaInfoInstance) : Prop where
  bitmapLen : e'.bitmapLen = e.bitmapLen
  aidTidInfo : e'.aidTidInfo = e.aidTidInfo
  startingSeq : e'.startingSeq = e.startingSeq
  length : e'.bitmap.length = e.bitmap.length

theorem Kept.refl (e : BaInfoInstance) : Kept e e := ⟨rfl, rfl, rfl, rfl⟩

theorem Kept.trans {e e' e'' : BaInfoInstance} (h : Kept e e') (h' : Kept e' e'') : Kept e e'' :=
  ⟨h'.bitmapLen.trans h.bitmapLen, h'.aidTidInfo.trans h.aidTidInfo, h'.startingSeq.trans h.startingSeq, h'.length.trans h.length⟩

variable {e e' : BaInfoInstance}

theorem Kept.offset (h : Kept e e') (seq : Nat) : e'.offset seq = e.offset seq := by
  rw [BaInfoInstance.offset, h.startingSeq]
  rfl

theorem Kept.unassociated (h : Kept e e') (v : Variant) : e'.Unassociated v ↔ e.Unassociated v := by
  rw [Unassociated, getAid11, h.aidTidInfo]
  rfl

theorem and_bit (b j : Nat) : decide (b &&& (1 <<< j) ≠ 0) = b.testBit j := by
  rw [Nat.one_shiftLeft, Nat.and_two_pow]
  cases b.testBit j with
  | true => simp
  | false => simp

theorem setBit_spec (e : BaInfoInstance) {k j : Nat} (hk : k < e.bitmap.length) (hj : j < 8) :
    ∃ e', e.setBit k j = some e' ∧ Kept e e' ∧ ∀ i, bitAt e'.bitmap i = (bitAt e.bitmap i || decide (i = k * 8 + j)) := by
  rw [setBit, List.getElem?_eq_getElem hk, Option.map_some]
  refine ⟨_, rfl, ⟨rfl, rfl, rfl, List.length_set⟩, fun i => ?_⟩
  have hi := Nat.div_add_mod' i 8
  have hlt := Nat.mod_lt i (show 8 > 0 by decide)
  rw [bitAt, bitAt, List.getElem?_set]
  by_cases hbyte : k = i / 8
  · rw [if_pos hbyte, if_pos hk, ← hbyte, List.getElem?_eq_getElem hk, Option.map_some, Option.map_some, Option.getD_some,
      Option.getD_some, UInt8.toNat_ofNat', Nat.testBit_mod_two_pow, Nat.testBit_or, Nat.one_shiftLeft, Nat.testBit_two_pow]
    have hbit : j = i % 8 ↔ i = k * 8 + j := by omega
    simp [hlt, hbit]
  · have hother : i ≠ k * 8 + j := by omega
    rw [if_neg hbyte]
    simp [hother]

section
variable {v : Variant} {e : BaInfoInstance} {seq : Nat} (hseq : seq < 4096)

include hseq

theorem Sized.isInBitmap (he : e.Sized v) : e.isInBitmap v seq = decide (e.offset seq < e.nAckedMpdus v) := by
  have hs := he.startingSeq
  have htmod : ((seq : Int) - e.startingSeq + 4096).tmod 4096 = (e.offset seq : Nat) := by
    rw [Int.tmod_eq_emod_of_nonneg (by omega), offset]
    lia
  rw [BaInfoInstance.isInBitmap, htmod]
  exact decide_eq_decide.mpr Int.ofNat_lt

theorem Sized.indexInBitmap (he : e.Sized v) (hin : e.offset seq < e.nAckedMpdus v) : e.indexInBitmap v seq = some (e.offset seq) := by
  have hs := he.startingSeq
  have hoffset : (if e.startingSeq ≤ seq then seq - e.startingSeq else 4096 - e.startingSeq + seq) = e.offset seq := by
    rw [offset]
    split <;> lia
  simp only [BaInfoInstance.indexInBitmap, hoffset, if_pos hin]

theorem Sized.isPacketReceived (he : e.Sized v) : e.isPacketReceived v seq =
    some (decide (e.AllAck v ∨ v ≠ .BASIC ∧ e.offset seq < e.bitmapLen * 8 ∧ bitAt e.bitmap (e.offset seq) = true)) := by
  unfold BaInfoInstance.isPacketReceived
  by_cases hall : v = .MULTI_STA ∧ e.getAckType = true ∧ e.getTidInfo = 14
  · have hyes : e.AllAck v := hall
    rw [if_pos hall, decide_eq_true (.inl hyes)]
  · have hnot : ¬ e.AllAck v := hall
    rw [if_neg hall, he.isInBitmap hseq]
    by_cases hin : e.offset seq < e.nAckedMpdus v
    · have hindex := he.indexInBitmap hseq hin
      rw [decide_eq_true hin, if_neg (by simp)]
      rcases he.variant with rfl | hv
      · simp [hnot]
      · have hbasic : v ≠ .BASIC := by rcases hv with rfl | rfl <;> decide
        rw [nAckedMpdus, if_neg hbasic] at hin
        have hread : (e.bitmap[e.offset seq / 8]?).map (fun b => decide (b.toNat &&& (1 <<< (e.offset seq % 8)) ≠ 0)) =
            some (bitAt e.bitmap (e.offset seq)) := by
          have hk : e.offset seq / 8 < e.bitmap.length := by
            rw [he.length]
            omega
          rw [bitAt, List.getElem?_eq_getElem hk, Option.map_some, Option.map_some, Option.getD_some, and_bit]
        rcases hv with rfl | rfl
        · simp only [hindex, Option.bind_some, hread]
          simp [hnot, hin]
        · simp only [hindex, Option.bind_some, hread]
          simp [hnot, hin]
    · rw [decide_eq_false hin, if_pos (by simp)]
      have hout : ¬ (v ≠ .BASIC ∧ e.offset seq < e.bitmapLen * 8 ∧ bitAt e.bitmap (e.offset seq) = true) := by
        rintro ⟨hbasic, hlt, -⟩
        rw [nAckedMpdus, if_neg hbasic] at hin
        exact hin hlt
      rw [decide_eq_false (not_or.mpr ⟨hnot, hout⟩)]

theorem Sized.setReceivedPacket (he : e.Sized v) : ∃ e', e.setReceivedPacket v seq = some e' ∧ Kept e e' ∧
    (v ≠ .BASIC → ∀ i < e.bitmapLen * 8, bitAt e'.bitmap i = (bitAt e.bitmap i || decide (i = e.offset seq))) := by
  unfold BaInfoInstance.setReceivedPacket
  rw [he.isInBitmap hseq]
  have hlength := he.length
  by_cases hin : e.offset seq < e.nAckedMpdus v
  · have hindex := he.indexInBitmap hseq hin
    rw [decide_eq_true hin, if_neg (by simp)]
    rcases he.variant with rfl | hv
    · have hwhole := he.whole rfl
      rw [nAckedMpdus, if_pos rfl] at hin
      obtain ⟨e', hset, hkept, -⟩ := setBit_spec e (k := e.offset seq * 2) (j := 0) (by omega) (by decide)
      simp only [hindex, Option.bind_some, hset]
      exact ⟨e', rfl, hkept, fun hnot => absurd rfl hnot⟩
    · have hbasic : v ≠ .BASIC := by rcases hv with rfl | rfl <;> decide
      rw [nAckedMpdus, if_neg hbasic] at hin
      obtain ⟨e', hset, hkept, hbits⟩ := setBit_spec e (k := e.offset seq / 8) (j := e.offset seq % 8) (by omega)
        (Nat.mod_lt _ (by decide))
      refine ⟨e', ?_, hkept, fun _ i _ => ?_⟩
      · rcases hv with rfl | rfl
        · simp only [hindex, Option.bind_some, hset]
        · simp only [hindex, Option.bind_some, hset]
      · rw [hbits i, Nat.div_add_mod']
  · rw [decide_eq_false hin, if_pos (by simp)]
    refine ⟨e, rfl, Kept.refl e, fun hbasic i hi => ?_⟩
    rw [nAckedMpdus, if_neg hbasic] at hin
    have hne : i ≠ e.offset seq := by omega
    simp [hne]

end

theorem Kept.sized {v : Variant} (h : Kept e e') (he : e.Sized v) : e'.Sized v where
  variant := he.variant
  length := by rw [h.length, h.bitmapLen, he.length]
  startingSeq := by rw [h.startingSeq]; exact he.startingSeq
  whole := fun hv => h.bitmapLen.trans (he.whole hv)

theorem Kept.filled {n : Nat} (h : Kept e e') (he : e.Filled n) : e'.Filled n where
  bitmapLen := h.bitmapLen.trans he.bitmapLen
  length := h.length.trans he.length
  startingSeq := by rw [h.startingSeq]; exact he.startingSeq

theorem Kept.subfield (h : Kept e e') (he : e.Subfield) : e'.Subfield := by
  have haid : e'.getAid11 = e.getAid11 := by rw [getAid11, h.aidTidInfo]; rfl
  have hcontext : (e'.getAckType = false ∧ e'.getTidInfo < 8) = (e.getAckType = false ∧ e.getTidInfo < 8) := by
    rw [getAckType, getTidInfo, h.aidTidInfo]
    rfl
  cases he with
  | unassociated haid' hlen => exact .unassociated (haid.trans haid') (h.bitmapLen.trans hlen)
  | acknowledgment haid' hcontext' hlen hbitmap hstart =>
    refine .acknowledgment (haid ▸ haid') (hcontext ▸ hcontext') (h.bitmapLen.trans hlen) ?_ (h.startingSeq ▸ hstart)
    rw [← List.length_eq_zero_iff, h.length, hbitmap]
    rfl
  | blockAck n haid' hcontext' hn hfilled =>
    exact .blockAck n (haid ▸ haid') (hcontext ▸ hcontext') hn (h.filled hfilled)

end BaInfoInstance

namespace CtrlBAckResponseHeader

open BaInfoInstance

section
variable {h : CtrlBAckResponseHeader}

/-- An index that is asked about packets: not one of an unassociated station. -/
def Answers (h : CtrlBAckResponseHeader) (index : Nat) (e : BaInfoInstance) : Prop :=
  h.info index = some e ∧ ¬ e.Unassociated h.variant

variable {index seq : Nat} {e : BaInfoInstance} {calls : List (Nat × Nat)}

theorem info_eq (hinfo : h.info index = some e) : h.baInfo[index]? = some e :=
  (Option.ite_none_right_eq_some.mp hinfo).2

theorem WellFormed.sized (hwf : h.WellFormed) (he : h.Answers index e) : e.Sized h.variant := by
  have hmem : e ∈ h.baInfo := List.mem_of_getElem? (info_eq he.1)
  cases hwf with
  | basic x hv htid hinfo hfilled =>
    rw [hinfo, List.mem_singleton] at hmem
    subst hmem
    exact ⟨.inl hv, hfilled.length.trans hfilled.bitmapLen.symm, hfilled.startingSeq, fun _ => hfilled.bitmapLen⟩
  | compressed n x hv htid hinfo hn hfilled =>
    rw [hinfo, List.mem_singleton] at hmem
    subst hmem
    exact ⟨.inr (.inl hv), hfilled.length.trans hfilled.bitmapLen.symm, hfilled.startingSeq, fun hb => by simp [hv] at hb⟩
  | multiSta hv hall =>
    have hlength : e.bitmap.length = e.bitmapLen ∧ e.startingSeq < 4096 := by
      cases (hall e hmem).2 with
      | unassociated haid hlen => exact absurd ⟨hv, haid⟩ he.2
      | acknowledgment haid hcontext hlen hbitmap hstart => exact ⟨by rw [hbitmap, hlen]; rfl, hstart⟩
      | blockAck n haid hcontext hn hfilled => exact ⟨hfilled.length.trans hfilled.bitmapLen.symm, hfilled.startingSeq⟩
    exact ⟨.inr (.inr hv), hlength.1, hlength.2, fun hb => by simp [hv] at hb⟩

theorem forall₂_getElem? {α β : Type} {R : α → β → Prop} : ∀ {l : List α} {l' : List β}, List.Forall₂ R l l' → ∀ {i : Nat} {a : α},
    l[i]? = some a → ∃ b, l'[i]? = some b ∧ R a b
  | _, _, .nil, i, a, ha => by simp at ha
  | _, _, .cons hab hl, 0, a, ha => by
    cases ha
    exact ⟨_, rfl, hab⟩
  | _, _, .cons hab hl, i + 1, a, ha => forall₂_getElem? hl ha

theorem Recovers.answers {h' : CtrlBAckResponseHeader} (hr : Recovers h h') (hwf : h.WellFormed)
    (he : h.Answers index e) (hseq : seq < 4096) : h'.isPacketReceived seq index = h.isPacketReceived seq index := by
  have hsized := hwf.sized he
  obtain ⟨e', he', hrecovered⟩ := forall₂_getElem? hr.baInfo (info_eq he.1)
  have hinfo' : h'.info index = some e' := by
    rw [info, hr.variant, if_pos (Option.ite_none_right_eq_some.mp he.1).1, he']
  have hstart : e'.startingSeq < 4096 := by
    rcases hrecovered.startingSeq he.2 with heq | ⟨-, heq⟩
    · rw [heq]
      exact hsized.startingSeq
    · omega
  have hbitmap := hrecovered.bitmap he.2
  have hsized' : e'.Sized h.variant :=
    ⟨hsized.variant, by rw [hbitmap, hrecovered.bitmapLen, hsized.length], hstart, fun hv => hrecovered.bitmapLen.trans (hsized.whole hv)⟩
  have hall : e'.AllAck h.variant ↔ e.AllAck h.variant := by
    unfold AllAck
    by_cases hv : h.variant = .MULTI_STA
    · rw [getAckType, getTidInfo, hrecovered.aidTidInfo hv]
      rfl
    · simp [hv]
  rw [isPacketReceived, isPacketReceived, hinfo', he.1, Option.bind_some, Option.bind_some, hr.variant,
    hsized'.isPacketReceived hseq, hsized.isPacketReceived hseq, Option.some.injEq, decide_eq_decide, hall, hrecovered.bitmapLen, hbitmap]
  rcases hrecovered.startingSeq he.2 with heq | ⟨hzero, -⟩
  · rw [offset, heq]
    rfl
  · simp [hzero]

theorem WellFormed.setReceivedPacket (hwf : h.WellFormed) (he : h.Answers index e)
    (hseq : seq < 4096) : ∃ h' e', h.setReceivedPacket seq index = some h' ∧ h'.WellFormed ∧ h'.variant = h.variant ∧
      h'.info index = some e' ∧ Kept e e' ∧ (∀ index' ≠ index, h'.info index' = h.info index') ∧
    (h.variant ≠ .BASIC → ∀ i < e.bitmapLen * 8,
        BaInfoInstance.bitAt e'.bitmap i = (BaInfoInstance.bitAt e.bitmap i || decide (i = e.offset seq))) := by
  obtain ⟨e', hset, hkept, hbits⟩ := (hwf.sized he).setReceivedPacket hseq
  obtain ⟨hallowed, hget⟩ := Option.ite_none_right_eq_some.mp he.1
  obtain ⟨hlt, -⟩ := List.getElem?_eq_some_iff.mp hget
  have hmem : e ∈ h.baInfo := List.mem_of_getElem? hget
  refine ⟨{ h with baInfo := h.baInfo.set index e' }, e', ?_, ?_, rfl, ?_, hkept, fun index' hne => ?_, hbits⟩
  · rw [CtrlBAckResponseHeader.setReceivedPacket, he.1, Option.bind_some, hset]
    rfl
  · have hsingle : ∀ x, h.baInfo = [x] → x = e ∧ h.baInfo.set index e' = [e'] := by
      intro x hinfo
      rw [hinfo] at hlt hmem
      obtain rfl : index = 0 := by simpa using hlt
      rw [hinfo]
      exact ⟨(List.mem_singleton.mp hmem).symm, rfl⟩
    cases hwf with
    | basic x hv htid hinfo hfilled =>
      obtain ⟨rfl, hsetInfo⟩ := hsingle x hinfo
      exact .basic e' hv htid hsetInfo (hkept.filled hfilled)
    | compressed n x hv htid hinfo hn hfilled =>
      obtain ⟨rfl, hsetInfo⟩ := hsingle x hinfo
      exact .compressed n e' hv htid hsetInfo hn (hkept.filled hfilled)
    | multiSta hv hall =>
      refine .multiSta hv fun x hx => ?_
      rcases List.mem_or_eq_of_mem_set hx with hx | rfl
      · exact hall x hx
      · rw [hkept.aidTidInfo]
        exact ⟨(hall e hmem).1, hkept.subfield (hall e hmem).2⟩
  · rw [info, if_pos hallowed, List.getElem?_set_self hlt]
  · simp only [info, List.getElem?_set_ne (Ne.symm hne)]

def Callable (h : CtrlBAckResponseHeader) (calls : List (Nat × Nat)) : Prop :=
  ∀ c ∈ calls, c.1 < 4096 ∧ ∃ e, h.Answers c.2 e

theorem offset_inj (hs : e.startingSeq < 4096) {a b : Nat} (ha : a < 4096) (hb : b < 4096)
    (h : e.offset a = e.offset b) : a = b := by
  unfold offset at h
  omega

/-- The entries after calls, which mark the sequence numbers they name. -/
structure Marked (h : CtrlBAckResponseHeader) (calls : List (Nat × Nat)) (h₁ : CtrlBAckResponseHeader) : Prop where
  wellFormed : h₁.WellFormed
  variant : h₁.variant = h.variant
  entry : ∀ index e, h.Answers index e → ∃ e₁, h₁.Answers index e₁ ∧ Kept e e₁ ∧
    (h.variant ≠ .BASIC → ∀ i < e.bitmapLen * 8,
      (BaInfoInstance.bitAt e₁.bitmap i = true ↔ BaInfoInstance.bitAt e.bitmap i = true ∨ ∃ c ∈ calls, c.2 = index ∧ e.offset c.1 = i))

theorem WellFormed.marked_single (hwf : h.WellFormed) {c : Nat × Nat} (he : h.Answers c.2 e) (hseq : c.1 < 4096) :
    ∃ h', h.setReceivedPacket c.1 c.2 = some h' ∧ Marked h [c] h' := by
  obtain ⟨h', e', hset, hwf', hv, hinfo, hkept, hothers, hbits⟩ := hwf.setReceivedPacket he hseq
  refine ⟨h', hset, hwf', hv, fun index x hx => ?_⟩
  by_cases hindex : index = c.2
  · subst hindex
    obtain rfl : e = x := Option.some.inj (he.1.symm.trans hx.1)
    refine ⟨e', ⟨hinfo, ?_⟩, hkept, fun hbasic i hi => ?_⟩
    · rw [hv, hkept.unassociated]
      exact he.2
    · rw [hbits hbasic i hi, Bool.or_eq_true, decide_eq_true_eq]
      simp only [List.mem_singleton, exists_eq_left, true_and]
      exact or_congr_right eq_comm
  · refine ⟨x, ⟨(hothers index hindex).trans hx.1, by rw [hv]; exact hx.2⟩, Kept.refl x, fun _ i _ => ?_⟩
    simp [Ne.symm hindex]

theorem Marked.trans {calls calls' : List (Nat × Nat)} {h' h₁ : CtrlBAckResponseHeader} (hm : Marked h calls h')
    (hm' : Marked h' calls' h₁) : Marked h (calls ++ calls') h₁ where
  wellFormed := hm'.wellFormed
  variant := hm'.variant.trans hm.variant
  entry := by
    intro index e he
    obtain ⟨e', he', hkept, hbits⟩ := hm.entry index e he
    obtain ⟨e₁, he₁, hkept', hbits'⟩ := hm'.entry index e' he'
    refine ⟨e₁, he₁, hkept.trans hkept', fun hbasic i hi => ?_⟩
    rw [hbits' (hm.variant ▸ hbasic) i (hkept.bitmapLen ▸ hi), hbits hbasic i hi, or_assoc]
    simp only [hkept.offset, List.mem_append, or_and_right, exists_or]

theorem WellFormed.setReceivedPackets : ∀ {h : CtrlBAckResponseHeader}, h.WellFormed → h.Callable calls →
    ∃ h₁, h.setReceivedPackets calls = some h₁ ∧ Marked h calls h₁ := by
  induction calls with
  | nil =>
    intro h hwf _
    exact ⟨h, rfl, hwf, rfl, fun index e he => ⟨e, he, Kept.refl e, fun _ i _ => by simp⟩⟩
  | cons c calls ih =>
    intro h hwf hcallable
    obtain ⟨hseq, e, he⟩ := hcallable c List.mem_cons_self
    obtain ⟨h', hset, hmarked⟩ := hwf.marked_single he hseq
    have hcallable' : h'.Callable calls := by
      intro c' hc'
      obtain ⟨hseq', x, hx⟩ := hcallable c' (List.mem_cons_of_mem _ hc')
      obtain ⟨x', hx', -⟩ := hmarked.entry c'.2 x hx
      exact ⟨hseq', x', hx'⟩
    obtain ⟨h₁, hrest, hmarked'⟩ := ih hmarked.wellFormed hcallable'
    refine ⟨h₁, ?_, hmarked.trans hmarked'⟩
    rw [CtrlBAckResponseHeader.setReceivedPackets, List.foldlM_cons, hset]
    exact hrest

/-- The answer of an entry for a sequence number after calls on a header: of a Basic block ack none, of an
all-ack entry for all, and else whether a call named it inside the bitmap, or it was marked before. -/
def answer (v : Variant) (e : BaInfoInstance) (calls : List (Nat × Nat)) (seq index : Nat) : Bool :=
  decide (e.AllAck v ∨ v ≠ .BASIC ∧ e.offset seq < e.bitmapLen * 8 ∧
    (BaInfoInstance.bitAt e.bitmap (e.offset seq) = true ∨ (seq, index) ∈ calls))

theorem Marked.answers {h₁ : CtrlBAckResponseHeader} (hm : Marked h calls h₁) (hwf : h.WellFormed)
    (hcallable : h.Callable calls) (he : h.Answers index e) (hseq : seq < 4096) :
    h₁.isPacketReceived seq index = some (answer h.variant e calls seq index) := by
  obtain ⟨e₁, he₁, hkept, hbits⟩ := hm.entry index e he
  have hsized := hwf.sized he
  have hsized₁ := hkept.sized hsized
  have hall : e₁.AllAck h.variant ↔ e.AllAck h.variant := by
    rw [AllAck, getAckType, getTidInfo, hkept.aidTidInfo]
    rfl
  rw [isPacketReceived, he₁.1, Option.bind_some, hm.variant, hsized₁.isPacketReceived hseq, Option.some.injEq, answer,
    decide_eq_decide, hall, hkept.offset, hkept.bitmapLen]
  refine or_congr_right (and_congr_right fun hbasic => and_congr_right fun hlt => ?_)
  rw [hbits hbasic _ hlt]
  refine or_congr_right ⟨?_, fun hmem => ⟨(seq, index), hmem, rfl, rfl⟩⟩
  rintro ⟨⟨seq', index'⟩, hmem, rfl, heq⟩
  obtain rfl := offset_inj hsized.startingSeq (hcallable _ hmem).1 hseq heq
  exact hmem

end

/-- The frame and the answers on both sides of it. -/
structure Exchanged (h h₀ : CtrlBAckResponseHeader) (calls : List (Nat × Nat)) (h₁ h₂ : CtrlBAckResponseHeader) (bytes : Bytes) :
    Prop where
  marked : h.setReceivedPackets calls = some h₁
  serialized : h₁.serialize = some bytes
  size : h₁.getSerializedSize = some bytes.length
  read : deserialize h₀ bytes = some (h₂, bytes.length)
  recovers : Recovers h₁ h₂
  answers : ∀ index e, h.Answers index e → ∀ seq < 4096, h₁.isPacketReceived seq index = some (answer h.variant e calls seq index) ∧
    h₂.isPacketReceived seq index = some (answer h.variant e calls seq index)

/-- **Block ack frames.** Any packets may be marked in a header; then it is written in the bytes that its type
says, read from them again, and answers for each packet as it did. -/
theorem blockAck_exchanged (h : CtrlBAckResponseHeader) (hwf : h.WellFormed) (calls : List (Nat × Nat)) (hcallable : h.Callable calls)
    (h₀ : CtrlBAckResponseHeader) : ∃ h₁ h₂ bytes, Exchanged h h₀ calls h₁ h₂ bytes := by
  obtain ⟨h₁, hcalls, hmarked⟩ := hwf.setReceivedPackets hcallable
  obtain ⟨bytes, h₂, hserialize, hsize, hread, hrecovers⟩ := hmarked.wellFormed.roundTrip h₀
  refine ⟨h₁, h₂, bytes, hcalls, hserialize, hsize, hread, hrecovers, fun index e he seq hseq => ?_⟩
  have hanswer := hmarked.answers hwf hcallable he hseq
  obtain ⟨e₁, he₁, -⟩ := hmarked.entry index e he
  refine ⟨hanswer, ?_⟩
  rw [hrecovers.answers hmarked.wellFormed he₁ hseq]
  exact hanswer

/-- An acknowledgment, a bitmap across the wrap, an entry for all packets and an unassociated station. -/
def multiStaHeader : CtrlBAckResponseHeader where
  variant := .MULTI_STA
  baInfo := [{ aidTidInfo := 0x1805 }, { cleared 8 with aidTidInfo := 0x2006, startingSeq := 4090 }, { aidTidInfo := 0xe807 },
    { cleared 8 with aidTidInfo := 0x6ffd, ra := 1 }]

theorem multiStaHeader_wellFormed : multiStaHeader.WellFormed := by
  refine .multiSta rfl fun e he => ?_
  simp only [multiStaHeader, List.mem_cons, List.not_mem_nil, or_false] at he
  rcases he with rfl | rfl | rfl | rfl
  · exact ⟨by decide, .acknowledgment (by decide) (by decide) rfl rfl (by decide)⟩
  · exact ⟨by decide, .blockAck 8 (by decide) (by decide) (by decide) ⟨rfl, rfl, by decide⟩⟩
  · exact ⟨by decide, .acknowledgment (by decide) (by decide) rfl rfl (by decide)⟩
  · exact ⟨by decide, .unassociated (by decide) rfl⟩

theorem multiStaHeader_exchanged : ∃ h₁ h₂ bytes, Exchanged multiStaHeader {} [(4095, 1), (3, 1), (100, 1)] h₁ h₂ bytes := by
  refine blockAck_exchanged multiStaHeader multiStaHeader_wellFormed _ (fun c hc => ?_) {}
  have hindex : c.2 = 1 ∧ c.1 < 4096 := by
    simp only [List.mem_cons, List.not_mem_nil, or_false] at hc
    rcases hc with rfl | rfl | rfl <;> decide
  rw [hindex.1]
  exact ⟨hindex.2, _, rfl, by decide⟩

/-- **A Basic block ack** has no answer for a whole packet. -/
theorem basic_unanswered : ∃ h₁, ({} : CtrlBAckResponseHeader).setReceivedPackets [(5, 0)] = some h₁ ∧
    (cleared 128).isInBitmap .BASIC 5 = true ∧ h₁.isPacketReceived 5 0 = some false := by
  refine ⟨_, rfl, by decide, ?_⟩
  decide

end CtrlBAckResponseHeader

end Ns3.CtrlHeaders
