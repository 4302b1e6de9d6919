import Ns3.Lte.NcSystemSound
import Mathlib.Data.List.Perm.Basic

/-!
# What decoding hands up

`NcDecode` answers a missing SN with the packet at that *position* of the
buffer, and all redundancy and ARQ PDUs carry the last SDU of their group. The
right SDUs come out exactly when only the last one is missing and a repeat of
it arrived last. The sender adds the headers of each again, and the receiver
those of the decoded ones once more.
-/

namespace Ns3

open List Option

/-! ## Standing in by position -/

section
variable (n : Nat) (sns : List Nat)

/-- The indices up to `n` that came. -/
def present : List Nat := sns.filter fun x => x < n + 1

def absent : List Nat := (List.range (n + 1)).filter fun j => j ∉ present n sns

/-- What stands in for index `j`; everything above `n` counts as `n`. -/
def standIn (j : Nat) : Nat := min (sns.getD j 0) n

/-- All indices came, or all but `n`, and something above `n` came last. -/
def GoodOrder : Prop :=
  sns.Perm (List.range (n + 1)) ∨ (sns.take n).Perm (List.range n) ∧ ∃ x, sns[n]? = some x ∧ n + 1 ≤ x

variable {n : Nat} {sns : List Nat}

theorem mem_present {x : Nat} : x ∈ present n sns ↔ x ∈ sns ∧ x < n + 1 := by
  simp [present]

theorem mem_absent {j : Nat} : j ∈ absent n sns ↔ j < n + 1 ∧ j ∉ sns := by
  unfold absent
  rw [mem_filter, mem_range, decide_eq_true_eq, mem_present]
  constructor
  · rintro ⟨hj, hn⟩
    exact ⟨hj, fun hm => hn ⟨hm, hj⟩⟩
  · rintro ⟨hj, hn⟩
    exact ⟨hj, fun hm => hn hm.1⟩

theorem absent_nodup : (absent n sns).Nodup := nodup_range.filter _

theorem range_perm (hnd : (present n sns).Nodup) : (List.range (n + 1)).Perm (present n sns ++ absent n sns) := by
  refine (perm_ext_iff_of_nodup nodup_range ?_).mpr fun x => ?_
  · refine nodup_append.mpr ⟨hnd, absent_nodup, ?_⟩
    rintro a ha b hb rfl
    exact (mem_absent.mp hb).2 (mem_present.mp ha).1
  · rw [mem_append, mem_present, mem_absent, mem_range]
    by_cases hx : x ∈ sns <;> simp [hx]

variable {α : Type} {D : Nat → α}

theorem handed_perm_iff (hnd : (present n sns).Nodup) :
    ((present n sns).map D ++ (absent n sns).map (fun j => D (standIn n sns j))).Perm ((List.range (n + 1)).map D) ↔
      ((absent n sns).map fun j => D (standIn n sns j)).Perm ((absent n sns).map D) := by
  have hr := (range_perm hnd).map D
  rw [map_append] at hr
  constructor
  · intro h
    exact (perm_append_left_iff _).mp (h.trans hr)
  · intro h
    exact ((perm_append_left_iff _).mpr h).trans hr.symm

theorem split_last (hlen : sns.length = n + 1) {x : Nat} (hx : sns[n]? = some x) : sns = sns.take n ++ [x] := by
  conv_lhs => rw [← take_append_drop n sns]
  congr 1
  rw [drop_eq_getElem_cons (by omega), drop_of_length_le (by omega)]
  obtain ⟨_, he⟩ := List.getElem?_eq_some_iff.mp hx
  rw [he]

theorem GoodOrder.standIn_eq (h : GoodOrder n sns) {j : Nat} (hj : j ∈ absent n sns) : standIn n sns j = j := by
  obtain ⟨hlt, hn⟩ := mem_absent.mp hj
  rcases h with hall | ⟨hbut, x, hx, hge⟩
  · -- nothing is absent
    exact absurd (hall.mem_iff.mpr (mem_range.mpr hlt)) hn
  · -- only `n` is absent
    have hjn : j = n := by
      by_contra hne
      have : j ∈ sns.take n := hbut.mem_iff.mpr (mem_range.mpr (by omega))
      exact hn (mem_of_mem_take this)
    subst hjn
    unfold standIn
    rw [getD_eq_getElem?_getD, hx, getD_some]
    omega

theorem absent_stand (hlen : sns.length = n + 1) (hD : ((List.range (n + 1)).map D).Nodup)
    (h : ((absent n sns).map fun j => D (standIn n sns j)).Perm ((absent n sns).map D)) {j : Nat}
    (hj : j ∈ absent n sns) : n ∈ absent n sns ∧ standIn n sns j = n ∧ n + 1 ≤ sns.getD j 0 := by
  have hinj := inj_on_of_nodup_map hD
  obtain ⟨hlt, _⟩ := mem_absent.mp hj
  have hle : standIn n sns j ≤ n := Nat.min_le_right ..
  -- what stands in is itself absent
  have hmem : standIn n sns j ∈ absent n sns := by
    have : D (standIn n sns j) ∈ (absent n sns).map D :=
      h.mem_iff.mp (List.mem_map.mpr ⟨j, hj, rfl⟩)
    obtain ⟨m, hm, he⟩ := List.mem_map.mp this
    have := hinj (mem_range.mpr (mem_absent.mp hm).1) (mem_range.mpr (Nat.lt_succ_of_le hle)) he
    exact this ▸ hm
  have hge : n + 1 ≤ sns.getD j 0 := by
    by_contra hlow
    have hstand : standIn n sns j = sns.getD j 0 := Nat.min_eq_left (by omega)
    have hin : sns.getD j 0 ∈ sns := by
      rw [getD_eq_getElem?_getD, getElem?_eq_getElem (by omega), getD_some]
      exact getElem_mem _
    rw [hstand] at hmem
    exact (mem_absent.mp hmem).2 hin
  have hlast : standIn n sns j = n := Nat.min_eq_right (by omega)
  exact ⟨by rwa [hlast] at hmem, hlast, hge⟩

theorem goodOrder_of_perm (hlen : sns.length = n + 1) (hnd : (present n sns).Nodup)
    (hD : ((List.range (n + 1)).map D).Nodup)
    (h : ((absent n sns).map fun j => D (standIn n sns j)).Perm ((absent n sns).map D)) : GoodOrder n sns := by
  have hr := range_perm hnd
  by_cases hempty : absent n sns = []
  · left
    rw [hempty, append_nil] at hr
    have hself : present n sns = sns := by
      refine filter_eq_self.mpr (length_filter_eq_length_iff.mp ?_)
      have := hr.length_eq
      rw [length_range] at this
      exact (this.symm.trans hlen.symm)
    exact hself ▸ hr.symm
  · right
    obtain ⟨j₀, hj₀⟩ := exists_mem_of_ne_nil _ hempty
    have hn := (absent_stand hlen hD h hj₀).1
    -- every absent index is the last one
    have honly : ∀ j ∈ absent n sns, j = n := by
      intro j hj
      have : D j ∈ (absent n sns).map fun j => D (standIn n sns j) := h.mem_iff.mpr (List.mem_map.mpr ⟨j, hj, rfl⟩)
      obtain ⟨m, hm, he⟩ := List.mem_map.mp this
      rw [(absent_stand hlen hD h hm).2.1] at he
      exact (inj_on_of_nodup_map hD (mem_range.mpr (Nat.lt_succ_self n))
        (mem_range.mpr (mem_absent.mp hj).1) he).symm
    have habs : absent n sns = [n] := by
      have hrep := eq_replicate_of_mem honly
      have hle : (absent n sns).length ≤ 1 := by
        have : (absent n sns).Nodup := absent_nodup
        rw [hrep] at this
        exact nodup_replicate.mp this
      have hpos : 0 < (absent n sns).length := length_pos_of_ne_nil hempty
      rw [hrep, show (absent n sns).length = 1 by omega]; rfl
    have hpres : (present n sns).Perm (range n) := by
      rw [habs, range_succ] at hr
      exact ((perm_append_right_iff _).mp hr).symm
    have hlt : n < sns.length := by omega
    have hx : sns[n]? = some sns[n] := getElem?_eq_getElem hlt
    have hge : n + 1 ≤ sns[n] := by
      have := (absent_stand hlen hD h hn).2.2
      rwa [getD_eq_getElem?_getD, hx, getD_some] at this
    refine ⟨?_, sns[n], hx, hge⟩
    -- the indices that came are all among the first `n`
    have hfilter : present n sns = (sns.take n).filter fun x => x < n + 1 := by
      unfold present
      conv_lhs => rw [split_last hlen hx]
      rw [filter_append, filter_cons_of_neg (by simpa using hge), filter_nil, append_nil]
    have hself : present n sns = sns.take n := by
      rw [hfilter]
      refine filter_eq_self.mpr (length_filter_eq_length_iff.mp ?_)
      rw [← hfilter, hpres.length_eq, length_range, length_take]
      omega
    exact hself ▸ hpres

/-! ## Packets that change on the way

`f` is what the way down does to a packet, and what decoding does to it once
more; `core` is the part of a packet that `f` keeps. -/

section
variable {β : Type} (f : α → α) (n : Nat) (sns : List Nat) (D : Nat → α)

def handedUp : List α :=
  (present n sns).map (fun k => f (D k)) ++ (absent n sns).map fun j => f (f (D (standIn n sns j)))

def Unchanged : Prop :=
  (∀ k ∈ present n sns, f (D k) = D k) ∧ ∀ j ∈ absent n sns, f (f (D j)) = D j

variable {f n sns D} {core : α → β} (hcore : ∀ a, core (f a) = core a)
include hcore

theorem map_handedUp : (handedUp f n sns D).map core =
    (present n sns).map (core ∘ D) ++ (absent n sns).map fun j => (core ∘ D) (standIn n sns j) := by
  simp only [handedUp, map_append, List.map_map, Function.comp_def, hcore]

theorem GoodOrder.cores_perm (h : GoodOrder n sns) (hnd : (present n sns).Nodup) :
    ((handedUp f n sns D).map core).Perm (((List.range (n + 1)).map D).map core) := by
  rw [map_handedUp hcore, List.map_map, handed_perm_iff hnd]
  exact .of_eq (map_congr_left fun j hj => congrArg (core ∘ D) (h.standIn_eq hj))

variable (hlen : sns.length = n + 1) (hnd : (present n sns).Nodup)
  (hD : (((List.range (n + 1)).map D).map core).Nodup)
include hlen hnd hD

theorem goodOrder_of_cores_perm
    (h : ((handedUp f n sns D).map core).Perm (((List.range (n + 1)).map D).map core)) : GoodOrder n sns := by
  rw [map_handedUp hcore, List.map_map, handed_perm_iff hnd] at h
  rw [List.map_map] at hD
  exact goodOrder_of_perm hlen hnd hD h

/-- The packets come out as they were when the right ones come out and none of
them was changed. -/
theorem handedUp_perm_iff :
    (handedUp f n sns D).Perm ((List.range (n + 1)).map D) ↔ GoodOrder n sns ∧ Unchanged f n sns D := by
  have hinj : ∀ j k, j < n + 1 → k < n + 1 → core (D j) = core (D k) → j = k := fun j k hj hk he =>
    inj_on_of_nodup_map (List.map_map ▸ hD) (mem_range.mpr hj) (mem_range.mpr hk) he
  constructor
  · intro h
    have hgood := goodOrder_of_cores_perm hcore hlen hnd hD (h.map core)
    -- a packet that comes out is the one with its core
    have hsame : ∀ a k, k < n + 1 → a ∈ handedUp f n sns D → core a = core (D k) → a = D k := by
      intro a k hk ha he
      obtain ⟨m, hm, rfl⟩ := List.mem_map.mp (h.mem_iff.mp ha)
      rw [hinj m k (mem_range.mp hm) hk he]
    refine ⟨hgood, fun k hk => ?_, fun j hj => ?_⟩
    · exact hsame _ k (mem_present.mp hk).2 (mem_append_left _ (List.mem_map.mpr ⟨k, hk, rfl⟩)) (hcore _)
    · refine hsame _ j (mem_absent.mp hj).1 (mem_append_right _ (List.mem_map.mpr ⟨j, hj, ?_⟩)) ?_
      · rw [hgood.standIn_eq hj]
      · rw [hcore, hcore]
  · rintro ⟨hgood, hpresent, habsent⟩
    have hdecoded : (absent n sns).map (fun j => f (f (D (standIn n sns j)))) = (absent n sns).map D :=
      map_congr_left fun j hj => by rw [hgood.standIn_eq hj, habsent j hj]
    rw [handedUp, map_congr_left hpresent, hdecoded, ← map_append]
    exact ((range_perm hnd).map D).symm

end

end

namespace NcSystem

open NcControl LtePdcp Machine

/-! ## One group of the system -/

/-- The SNs of the first ten PDUs of group `g` to arrive. -/
def firstSns (w : NcSystem) (g : Nat) : List Nat :=
  ((w.arrivedOf g).take originalBlockSize).map fun q => q.header.sn

def sduAt (w : NcSystem) (g k : Nat) : Packet :=
  (w.submitted[originalBlockSize * g + k]?).getD (.zeros 0)

theorem sdusOf_eq {w : NcSystem} {g : Nat} (hfull : originalBlockSize * (g + 1) ≤ w.submitted.length) :
    w.sdusOf g = (List.range originalBlockSize).map (w.sduAt g) := by
  have hten : originalBlockSize * (g + 1) = originalBlockSize * g + originalBlockSize := Nat.mul_succ ..
  refine ext_getElem ?_ fun k h₁ h₂ => ?_
  · rw [sdusOf, length_take, length_drop, length_map, length_range]
    omega
  · rw [length_map, length_range] at h₂
    have hlt : originalBlockSize * g + k < w.submitted.length := by omega
    simp only [sdusOf, getElem_take, getElem_drop, getElem_map, getElem_range, sduAt,
      getElem?_eq_getElem hlt, getD_some]

theorem mem_arrivedOf {w : NcSystem} {g : Nat} {q : NcPdu} (h : q ∈ w.arrivedOf g) :
    q ∈ w.sent ∧ q.header.groupnum = g := by
  obtain ⟨hmem, hg⟩ := mem_filter.mp h
  obtain ⟨i, _, hi⟩ := mem_filterMap.mp hmem
  exact ⟨mem_of_getElem? hi, of_decide_eq_true hg⟩

section
variable {w : NcSystem}

theorem Inv.packet_eq (hi : Inv w) {g : Nat} {q : NcPdu} (hq : q ∈ w.arrivedOf g) :
    q.packet = (w.sduAt g (min q.header.sn (originalBlockSize - 1))).readdHeaders := by
  obtain ⟨hsent, hg⟩ := mem_arrivedOf hq
  have := (hi.tx.pdus q hsent).2
  rw [hg, getElem?_map, map_eq_some_iff] at this
  obtain ⟨p, hp, hq⟩ := this
  rw [sduAt, hp, getD_some, hq]

theorem Inv.arrivedOf_fresh (hi : Inv w) (g : Nat) :
    (w.arrivedOf g).Pairwise fun q q' => q.header.sn < originalBlockSize → q.header.sn ≠ q'.header.sn := by
  have hpair : (w.arrived.filterMap (w.sent[·]?)).Pairwise
      fun q q' => q.header.sn < originalBlockSize → pairOf q ≠ pairOf q' := by
    refine pairwise_filterMap.mpr (hi.nodup.imp fun {i j} hne q hq q' hq' hsn he => ?_)
    obtain ⟨hi₁, rfl⟩ := List.getElem?_eq_some_iff.mp hq
    obtain ⟨hj₁, rfl⟩ := List.getElem?_eq_some_iff.mp hq'
    have hfresh := pairwise_iff_getElem.mp hi.tx.fresh
    rcases Nat.lt_or_gt_of_ne hne with hlt | hgt
    · exact hfresh i j hi₁ hj₁ hlt hsn he
    · exact hfresh j i hj₁ hi₁ hgt ((Prod.mk.inj he).2 ▸ hsn) he.symm
  refine (hpair.filter _).imp_of_mem fun {q q'} hq hq' h hsn he => h hsn ?_
  have hg := of_decide_eq_true (mem_filter.mp hq).2
  have hg' := of_decide_eq_true (mem_filter.mp hq').2
  exact Prod.ext (hg.trans hg'.symm) he

theorem Inv.present_nodup (hi : Inv w) (g : Nat) : (present (originalBlockSize - 1) (w.firstSns g)).Nodup := by
  have hfresh := ((hi.arrivedOf_fresh g).sublist (take_sublist originalBlockSize _)).map
    (fun q : NcPdu => q.header.sn) (S := fun x y => x < originalBlockSize → x ≠ y) fun _ _ => id
  exact (hfresh.filter _).imp_of_mem fun {x y} hx _ h => h (of_decide_eq_true (mem_filter.mp hx).2)

theorem Inv.handed_eq (hi : Inv w) {g : Nat} (hcomp : (w.rx.nc.bufferOf g).ncComplete = true)
    (hten : originalBlockSize ≤ (w.rx.nc.bufferOf g).ncVector.length) : (w.firstSns g).length = originalBlockSize ∧
    w.handedOf g = handedUp Packet.readdHeaders (originalBlockSize - 1) (w.firstSns g) (w.sduAt g) := by
  have hok := hi.groups g
  have hlen : (w.rx.nc.bufferOf g).ncVector.length = originalBlockSize := Nat.le_antisymm hok.bound hten
  let A := (w.arrivedOf g).take originalBlockSize
  have hvec : (w.rx.nc.bufferOf g).ncVector = A.map paraOf := by
    have := hok.vec
    rwa [hlen] at this
  have hA : A.length = originalBlockSize := by
    rw [← hlen, hvec, length_map]
  have hpk : ∀ q ∈ A, q.packet = (w.sduAt g (min q.header.sn (originalBlockSize - 1))).readdHeaders := fun q hq =>
    hi.packet_eq (mem_of_mem_take hq)
  have horig : originals (A.map paraOf) = present (originalBlockSize - 1) (w.firstSns g) := by
    unfold originals present firstSns
    rw [List.filter_map, List.filter_map, List.map_map]
    rfl
  have hdirect : directsOf (A.map paraOf) =
      (present (originalBlockSize - 1) (w.firstSns g)).map fun k => (w.sduAt g k).readdHeaders := by
    unfold directsOf present firstSns
    rw [List.filter_map, List.filter_map, List.map_map, filterMap_map]
    refine (congrFun (filterMap_eq_map' (f := NcPdu.packet)) _).trans (map_congr_left fun q hq => ?_)
    obtain ⟨hmem, hsn⟩ := mem_filter.mp hq
    have hlt : q.header.sn < originalBlockSize := of_decide_eq_true hsn
    rw [hpk q hmem, Nat.min_eq_left (by omega)]
    rfl
  have hdecode : decodedOf (A.map paraOf) = (absent (originalBlockSize - 1) (w.firstSns g)).map
      fun j => (w.sduAt g (standIn (originalBlockSize - 1) (w.firstSns g) j)).readdHeaders.readdHeaders := by
    have hmissing : missing (A.map paraOf) = absent (originalBlockSize - 1) (w.firstSns g) := by
      unfold missing absent
      rw [horig]; rfl
    rw [decodedOf, hmissing]
    refine (filterMap_congr fun j hj => ?_).trans (congrFun filterMap_eq_map' _)
    have hlt : j < A.length := by
      rw [hA]; exact (mem_absent.mp hj).1
    have hsn : (w.firstSns g).getD j 0 = A[j].header.sn := by
      rw [getD_eq_getElem?_getD, firstSns, getElem?_map, getElem?_eq_getElem hlt]; rfl
    rw [getElem?_map, getElem?_eq_getElem hlt, standIn, hsn, ← hpk _ (getElem_mem hlt)]
    rfl
  refine ⟨by rw [firstSns, length_map]; exact hA, ?_⟩
  rw [hok.handed, if_pos ⟨hcomp, hten⟩, hvec, hdirect, hdecode, handedUp]

end

/-- **Decoding.** When group `g`, which the sender has filled, is complete by
decoding, the packets handed up are those that `handedUp` lists. They are the
SDUs of `g`, up to what adding headers again changes, if the first ten PDUs of
`g` to arrive were in good order (all ten originals, or the first nine and then
a repeat of the last), and in no other case if the SDUs differ otherwise; with
their own bytes when moreover none was changed. A datagram always is. -/
theorem nc_decode_hands_up_group {txFlags rxFlags : Bool × Bool × Bool × Bool} {tr : List (Event × List Unit)}
    {w : NcSystem} (h : Run machine anyStep (init txFlags rxFlags) tr w) {g : Nat}
    (hfull : originalBlockSize * (g + 1) ≤ w.submitted.length) (hcomp : (w.rx.nc.bufferOf g).ncComplete = true)
    (hten : originalBlockSize ≤ (w.rx.nc.bufferOf g).ncVector.length) :
    w.handedOf g = handedUp Packet.readdHeaders (originalBlockSize - 1) (w.firstSns g) (w.sduAt g) ∧
    (GoodOrder (originalBlockSize - 1) (w.firstSns g) →
      ((w.handedOf g).map Packet.core).Perm ((w.sdusOf g).map Packet.core)) ∧ (((w.sdusOf g).map Packet.core).Nodup →
      (((w.handedOf g).map Packet.core).Perm ((w.sdusOf g).map Packet.core) →
        GoodOrder (originalBlockSize - 1) (w.firstSns g)) ∧
      ((w.handedOf g).Perm (w.sdusOf g) ↔ GoodOrder (originalBlockSize - 1) (w.firstSns g) ∧
        Unchanged Packet.readdHeaders (originalBlockSize - 1) (w.firstSns g) (w.sduAt g))) ∧
    ((∀ p ∈ w.sdusOf g, p.IsDatagram) → ¬ (w.handedOf g).Perm (w.sdusOf g) ∧ ∀ p ∈ w.handedOf g, p ∉ w.sdusOf g) := by
  have hi := inv_run h
  obtain ⟨hlen, hhanded⟩ := hi.handed_eq hcomp hten
  have hnd := hi.present_nodup g
  have hcore := Packet.core_readdHeaders
  rw [hhanded, sdusOf_eq hfull]
  refine ⟨rfl, fun hgood => hgood.cores_perm hcore hnd, fun hdistinct =>
    ⟨goodOrder_of_cores_perm hcore hlen hnd hdistinct, handedUp_perm_iff hcore hlen hnd hdistinct⟩, fun hsdus => ?_⟩
  have hout : ∀ p ∈ handedUp Packet.readdHeaders (originalBlockSize - 1) (w.firstSns g) (w.sduAt g),
      p ∉ (range originalBlockSize).map (w.sduAt g) := by
    intro p hp hmem
    have hsdu : ∀ k, k < originalBlockSize → (w.sduAt g k).IsDatagram := fun k hk =>
      hsdus _ (List.mem_map.mpr ⟨k, mem_range.mpr hk, rfl⟩)
    rcases mem_append.mp hp with hp | hp
    · obtain ⟨k, hk, rfl⟩ := List.mem_map.mp hp
      exact (hsdu k (mem_present.mp hk).2).readdHeaders.1 (hsdus _ hmem)
    · obtain ⟨j, _, rfl⟩ := List.mem_map.mp hp
      exact (hsdu _ (Nat.lt_succ_of_le (Nat.min_le_right ..))).readdHeaders.2 (hsdus _ hmem)
  refine ⟨fun hperm => ?_, hout⟩
  have hfirst : w.sduAt g 0 ∈ (range originalBlockSize).map (w.sduAt g) :=
    List.mem_map.mpr ⟨0, mem_range.mpr (by decide), rfl⟩
  exact hout _ (hperm.mem_iff.mpr hfirst) hfirst

/-- A group whose last SDU is lost and replaced by a redundancy packet. -/
def lastLost : Option (List (Event × List Unit) × NcSystem) :=
  machine.exec anyStep (init (false, false, false, false) (false, false, false, false))
    ((List.range 10).map (fun n => Event.submit (datagram n) fun _ _ => 0) ++
      [8, 0, 1, 2, 3, 4, 5, 6, 7, 11].map fun i => .arrive i fun _ _ => 0)

theorem lastLost_isSome : lastLost.isSome := by decide +kernel

theorem lastLost_run : Run machine anyStep (init (false, false, false, false) (false, false, false, false))
      (lastLost.get lastLost_isSome).1 (lastLost.get lastLost_isSome).2 :=
  run_of_isSome machine anyStep _ _ lastLost_isSome

theorem nc_decode_last_lost : (((lastLost.get lastLost_isSome).2.handedOf 0).map Packet.core).Perm
      (((lastLost.get lastLost_isSome).2.sdusOf 0).map Packet.core) ∧
    ¬ ((lastLost.get lastLost_isSome).2.handedOf 0).Perm ((lastLost.get lastLost_isSome).2.sdusOf 0) ∧
    ¬ Unchanged Packet.readdHeaders 9 [8, 0, 1, 2, 3, 4, 5, 6, 7, 11] ((lastLost.get lastLost_isSome).2.sduAt 0) := by
  have hsns : (lastLost.get lastLost_isSome).2.firstSns 0 = [8, 0, 1, 2, 3, 4, 5, 6, 7, 11] := by decide +kernel
  have hsdus : (lastLost.get lastLost_isSome).2.sdusOf 0 = (range 10).map datagram := by decide +kernel
  have horder : GoodOrder 9 [8, 0, 1, 2, 3, 4, 5, 6, 7, 11] := .inr ⟨by decide, 11, rfl, by decide⟩
  obtain ⟨-, hgood, hdistinct, hdatagrams⟩ := nc_decode_hands_up_group lastLost_run (g := 0) (by decide +kernel)
    (by decide +kernel) (by decide +kernel)
  rw [hsns] at hgood hdistinct
  have hbytes := (hdatagrams fun p hp => by
    rw [hsdus] at hp
    obtain ⟨n, -, rfl⟩ := List.mem_map.mp hp
    exact datagram_isDatagram n).1
  have hiff := (hdistinct (by decide +kernel)).2
  exact ⟨hgood horder, hbytes, fun hsame => hbytes (hiff.mpr ⟨horder, hsame⟩)⟩

/-- A group that loses the SDU with SN 3. -/
def middleLost : Option (List (Event × List Unit) × NcSystem) :=
  machine.exec anyStep (init (false, false, false, false) (false, false, false, false))
    ((List.range 10).map (fun n => Event.submit (datagram n) fun _ _ => 0) ++
      [0, 1, 2, 4, 5, 6, 7, 8, 9, 10].map fun i => .arrive i fun _ _ => 0)

theorem middleLost_isSome : middleLost.isSome := by decide +kernel

/-- Position 3 holds the SDU with SN 4, which is handed up twice; the headers
of the second copy were added again twice. -/
theorem nc_decode_middle_lost : Run machine anyStep (init (false, false, false, false) (false, false, false, false))
      (middleLost.get middleLost_isSome).1 (middleLost.get middleLost_isSome).2 ∧
    ((middleLost.get middleLost_isSome).2.rx.nc.bufferOf 0).ncComplete = true ∧
    (middleLost.get middleLost_isSome).2.sdusOf 0 = (List.range 10).map datagram ∧
    (middleLost.get middleLost_isSome).2.handedOf 0 =
      ([0, 1, 2, 4, 5, 6, 7, 8, 9].map fun n => (datagram n).readdHeaders) ++ [(datagram 4).readdHeaders.readdHeaders] ∧
    ¬((middleLost.get middleLost_isSome).2.handedOf 0).Perm ((middleLost.get middleLost_isSome).2.sdusOf 0) :=
  ⟨run_of_isSome machine anyStep _ _ middleLost_isSome, by decide +kernel, by decide +kernel, by decide +kernel,
   by decide +kernel⟩

end NcSystem

end Ns3
