import Mathlib.Algebra.Field.ZMod
import Mathlib.LinearAlgebra.LinearIndependent.Defs
import Ns3.Lib.ListRank
import Ns3.Lte.NcSystemSound

/-!
# The rank of a group

The rank kept for a group is the number of its packets, at most ten; it does
not look at their coefficients. Here it is compared with the rank of the
coefficient vectors over the field with two elements.
-/

namespace Ns3

namespace NcControl

def coeffVector (para : NcPara) : Fin 64 → ZMod 2 := fun k => (para.coff.getD k 0 : Nat)

theorem coeffBits_getD (coeff : Nat) (k : Fin 64) :
    (coeffBits coeff).getD k.val 0 = (coeff >>> (63 - k.val)) &&& 1 := by
  simp [coeffBits, List.getD_eq_getElem?_getD]

theorem coeffVector_original (k : Fin 64) (para : NcPara) (h : para.coff = coeffBits (1 <<< (64 - 1 - k.val))) :
    coeffVector para = unitVector k := by
  funext i
  have hbit : ((1 <<< (64 - 1 - k.val)) >>> (63 - i.val)) &&& 1 = if i = k then 1 else 0 := by
    rw [Nat.one_shiftLeft, Nat.and_one_is_mod, Nat.shiftRight_eq_div_pow, ← Nat.toNat_testBit, Nat.testBit_two_pow]
    by_cases hik : i = k
    · rw [if_pos hik, hik]
      simp
    · have hne : 64 - 1 - k.val ≠ 63 - i.val := by
        have := Fin.val_ne_of_ne hik
        omega
      rw [if_neg hik, decide_eq_false hne]
      rfl
  rw [coeffVector, h, coeffBits_getD, hbit, unitVector, Pi.single_apply]
  split <;> rfl

def vectorsOf (vec : List NcPara) : List (Fin 64 → ZMod 2) := vec.map coeffVector

def SpansOriginals (vec : List NcPara) : Prop :=
  ∀ k : Fin 64, k.val < originalBlockSize → unitVector k ∈ spanOf (vectorsOf vec)

def receiveAll (flags : Bool × Bool) (qs : List NcPdu) : NcControl :=
  qs.foldl recvAndSave { ifSendArq := flags.1, ifRecvArq := flags.2 }

/-- The rank kept for group `g` is at most that of the vectors, and the group is
complete after `NcDecode` only if they span the originals. -/
structure RankSound (c : NcControl) (g : Nat) : Prop where
  rank : ∀ c', c.calulateDecodingRank g = some c' →
    (c'.bufferOf g).rank ≤ rankOf (vectorsOf (c.bufferOf g).ncVector)
  complete : ∀ c' ps, c.ncDecode = some (c', ps) → (c'.bufferOf g).ncComplete = true →
    SpansOriginals (c.bufferOf g).ncVector

/-- A group that received `qs` and nothing was decoded of it. -/
structure Collected (c : NcControl) (g : Nat) (qs : List NcPdu) : Prop where
  rx : NcRx c
  vec : (c.bufferOf g).ncVector = qs.map paraOf
  incomplete : (c.bufferOf g).ncComplete = false
  absent : qs = [] → ∀ g', c.decoding g' = none
  present : qs ≠ [] → c.groupnum = g ∧ (c.decoding g).isSome

section
variable {c : NcControl} {g : Nat} {qs : List NcPdu}

theorem Collected.snoc (h : Collected c g qs) {q : NcPdu} (hq : q.header.dorC ≠ 1) (hg : q.header.groupnum = g) :
    Collected (c.recvAndSave q) g (qs ++ [q]) := by
  obtain ⟨hgroup, -, -, -, hdec⟩ := recvAndSave_data (c := c) hq
  rw [hg] at hgroup
  have hg' : (c.recvAndSave q).decoding g = some (file (c.bufferOf g) q) := by
    rw [hdec, if_pos hg.symm]
  have hbuf : (c.recvAndSave q).bufferOf g = file (c.bufferOf g) q := bufferOf_of_decoding hg'
  have hfile := file_incomplete h.incomplete q
  refine ⟨recvAndSave_rx h.rx hq, ?_, ?_, fun hnil => ?_, fun _ => ⟨hgroup, ?_⟩⟩
  · rw [hbuf, hfile, List.map_append, ← h.vec]
    rfl
  · rw [hbuf, hfile]
    exact h.incomplete
  · exact absurd hnil (by simp)
  · rw [hg']
    rfl

theorem collected_receiveAll (flags : Bool × Bool) (hqs : ∀ q ∈ qs, q.header.dorC ≠ 1 ∧ q.header.groupnum = g) :
    Collected (receiveAll flags qs) g qs := by
  induction qs using List.reverseRecOn with
  | nil =>
    refine ⟨⟨rfl, rfl, fun _ => ⟨Nat.zero_le 3, ?_⟩⟩, rfl, rfl, fun _ _ => rfl, fun h => absurd rfl h⟩
    intro para hpara
    cases hpara
  | append_singleton qs q ih =>
    obtain ⟨hq, hg⟩ := hqs q (by simp)
    rw [receiveAll, List.foldl_append]
    exact (ih fun q' hq' => hqs q' (by simp [hq'])).snoc hq hg

theorem Collected.decoding_eq (h : Collected c g qs) (hne : qs ≠ []) :
    c.groupnum = g ∧ c.decoding g = some (c.bufferOf g) := by
  obtain ⟨hgroup, hsome⟩ := h.present hne
  obtain ⟨buf, hbuf⟩ := Option.isSome_iff_exists.mp hsome
  exact ⟨hgroup, by rw [bufferOf_of_decoding hbuf, hbuf]⟩

theorem Collected.rank_eq (h : Collected c g qs) (hne : qs ≠ []) :
    ∃ c', c.calulateDecodingRank g = some c' ∧ (c'.bufferOf g).rank = min qs.length originalBlockSize := by
  obtain ⟨-, hbuf⟩ := h.decoding_eq hne
  refine ⟨_, by rw [calulateDecodingRank, hbuf, Option.map_some], ?_⟩
  rw [bufferOf_setDecoding, if_pos rfl]
  dsimp only
  rw [h.vec, List.length_map]
  split <;> omega

theorem Collected.ncDecode_eq (h : Collected c g qs) (hne : qs ≠ []) : ∃ c' ps, c.ncDecode = some (c', ps) ∧
      ((c'.bufferOf g).ncComplete = true ↔ originalBlockSize ≤ qs.length) := by
  obtain ⟨hgroup, hbuf⟩ := h.decoding_eq hne
  have hlen : (c.bufferOf g).ncVector.length = qs.length := by rw [h.vec, List.length_map]
  rcases Nat.lt_or_ge qs.length originalBlockSize with hlt | hge
  · have hrank : c.calulateDecodingRank g = some (c.setDecoding g { c.bufferOf g with rank := qs.length }) := by
      rw [calulateDecodingRank, hbuf, Option.map_some, hlen]
      simp only [if_pos hlt]
    refine ⟨c.setDecoding g { c.bufferOf g with rank := qs.length }, [], ?_, ?_⟩
    · unfold ncDecode
      simp only [hgroup, hbuf, h.incomplete, hrank, groupnum_setDecoding, decoding_setDecoding, if_true,
        Option.bind_eq_bind, Option.bind_some, Bool.false_eq_true, if_false, if_neg (Nat.not_le.mpr hlt)]
    · rw [bufferOf_setDecoding, if_pos rfl, h.incomplete]
      exact ⟨fun h => absurd h Bool.false_ne_true, fun hge => absurd hge (Nat.not_le.mpr hlt)⟩
  · have hten : originalBlockSize ≤ (c.bufferOf g).ncVector.length := hlen ▸ hge
    rw [← hgroup] at hbuf hten
    have hincomplete : (c.bufferOf c.groupnum).ncComplete = false := hgroup ▸ h.incomplete
    obtain ⟨c', ps, hrun, -⟩ := ncDecode_total h.rx hbuf hincomplete hten
    obtain ⟨-, b, hsettle, hdec⟩ := ncDecode_settle hbuf hincomplete hten hrun
    rw [settle, if_pos ⟨hincomplete, hten⟩] at hsettle
    obtain ⟨r, -, heq⟩ := Option.map_eq_some_iff.mp hsettle
    obtain ⟨rfl, -⟩ := Prod.mk.inj heq
    refine ⟨c', ps, hrun, fun _ => hge, fun _ => ?_⟩
    have hg := hdec g
    rw [if_pos hgroup.symm] at hg
    rw [bufferOf_of_decoding hg]

/-- **The rank** is sound exactly when up to nine packets have independent
coefficients, and ten or more span the originals. -/
theorem Collected.sound_iff (h : Collected c g qs) :
    RankSound c g ↔ (qs.length < originalBlockSize → LinearIndependent (ZMod 2) (vectorsOf (qs.map paraOf)).get) ∧
      (originalBlockSize ≤ qs.length → SpansOriginals (qs.map paraOf)) := by
  have hlen : (vectorsOf (qs.map paraOf)).length = qs.length := by simp [vectorsOf]
  by_cases hne : qs = []
  · -- without a packet the group has no buffer
    have habsent := h.absent hne
    subst hne
    refine ⟨fun _ => ⟨fun _ => ?_, fun hge => absurd hge (by decide)⟩, fun _ => ⟨fun c' hc' => ?_, fun c' ps hc' => ?_⟩⟩
    · exact (length_le_rankOf_iff _).mp (Nat.zero_le _)
    · rw [calulateDecodingRank, habsent] at hc'
      cases hc'
    · rw [ncDecode, habsent] at hc'
      cases hc'
  · obtain ⟨c₁, hrank, hmin⟩ := h.rank_eq hne
    obtain ⟨c₂, ps₂, hdecode, hcomplete⟩ := h.ncDecode_eq hne
    constructor
    · intro hsound
      refine ⟨fun hlt => ?_, fun hge => ?_⟩
      · have hle := hsound.rank c₁ hrank
        rw [hmin, h.vec, Nat.min_eq_left hlt.le, ← hlen] at hle
        exact (length_le_rankOf_iff _).mp hle
      · have hspans := hsound.complete c₂ ps₂ hdecode (hcomplete.mpr hge)
        rwa [h.vec] at hspans
    · rintro ⟨hfew, hmany⟩
      refine ⟨fun c' hc' => ?_, fun c' ps hc' hdone => ?_⟩
      · cases hrank.symm.trans hc'
        rw [hmin, h.vec]
        rcases Nat.lt_or_ge qs.length originalBlockSize with hlt | hge
        · rw [Nat.min_eq_left hlt.le, ← hlen]
          exact (length_le_rankOf_iff _).mpr (hfew hlt)
        · rw [Nat.min_eq_right hge]
          exact le_rankOf (by decide) (hmany hge)
      · cases hdecode.symm.trans hc'
        rw [h.vec]
        exact hmany (hcomplete.mp hdone)

end

/-- **The rank of any group.** It can be computed as soon as a packet was
received, and it is sound exactly when up to nine packets have independent
coefficients, and ten or more span the originals. -/
theorem rankSound_iff (flags : Bool × Bool) {g : Nat} {qs : List NcPdu}
    (hqs : ∀ q ∈ qs, q.header.dorC ≠ 1 ∧ q.header.groupnum = g) :
    (qs ≠ [] → ((receiveAll flags qs).calulateDecodingRank g).isSome ∧ (receiveAll flags qs).ncDecode.isSome) ∧
      (RankSound (receiveAll flags qs) g ↔
        (qs.length < originalBlockSize → LinearIndependent (ZMod 2) (vectorsOf (qs.map paraOf)).get) ∧
          (originalBlockSize ≤ qs.length → SpansOriginals (qs.map paraOf))) := by
  have h := collected_receiveAll flags hqs
  refine ⟨fun hne => ⟨?_, ?_⟩, h.sound_iff⟩
  · obtain ⟨c', hrank, -⟩ := h.rank_eq hne
    rw [hrank]
    rfl
  · obtain ⟨c', ps, hdecode, -⟩ := h.ncDecode_eq hne
    rw [hdecode]
    rfl

/-- The PDU of group 0 with number `sn` and coefficient `coeff`. -/
def groupPdu (sn coeff : Nat) : NcPdu := ⟨{ sn := sn, coeff := coeff }, datagram sn⟩

def tenOriginals : List NcPdu := (List.range 10).map fun sn => groupPdu sn (1 <<< (64 - 1 - sn))

theorem ten_originals_sound : RankSound (receiveAll (false, false) tenOriginals) 0 := by
  refine (rankSound_iff (false, false) (by decide)).2.mpr ⟨fun hlt => absurd hlt (by decide), fun _ k hk => ?_⟩
  have hpdu : groupPdu k.val (1 <<< (64 - 1 - k.val)) ∈ tenOriginals :=
    List.mem_map.mpr ⟨k.val, List.mem_range.mpr hk, rfl⟩
  rw [← coeffVector_original k (paraOf (groupPdu k.val (1 <<< (64 - 1 - k.val)))) rfl]
  exact mem_spanOf (List.mem_map_of_mem (List.mem_map_of_mem hpdu))

/-- Nine originals and a redundancy packet for which all bits drawn were zero. -/
def zeroDrawn : List NcPdu :=
  ((List.range 9).map fun sn => groupPdu sn (1 <<< (64 - 1 - sn))) ++ [groupPdu 10 (randCoeff 10 fun _ => 0)]

theorem zeroDrawn_completes :
    ((receiveAll (false, false) zeroDrawn).ncDecode.any fun r => (r.1.bufferOf 0).ncComplete) = true := by
  decide +kernel

theorem zeroDrawn_bits : ∀ q ∈ zeroDrawn, (coeffBits q.header.coeff).getD 9 0 = 0 := by
  decide +kernel

/-- **A group of rank nine is declared decodable.** -/
theorem zero_drawn_not_sound : ¬RankSound (receiveAll (false, false) zeroDrawn) 0 := by
  intro hsound
  obtain ⟨⟨c, ps⟩, hdecode, hdone⟩ := (Option.any_eq_true _ _).mp zeroDrawn_completes
  have hvec := (collected_receiveAll (g := 0) (false, false) (show ∀ q ∈ zeroDrawn, _ from by decide)).vec
  have hmem := hsound.complete c ps hdecode hdone 9 (by decide)
  rw [hvec] at hmem
  refine unitVector_notMem (fun v hv => ?_) hmem
  obtain ⟨para, hpara, rfl⟩ := List.mem_map.mp hv
  obtain ⟨q, hq, rfl⟩ := List.mem_map.mp hpara
  have hbit := zeroDrawn_bits q hq
  change (((coeffBits q.header.coeff).getD 9 0 : Nat) : ZMod 2) = 0
  rw [hbit]
  rfl

end NcControl

end Ns3
