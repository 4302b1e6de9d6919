import Ns3.Olsr.MprComputation
import Ns3.Olsr.RoutingTableSound
import Ns3.Lib.Cover
import Ns3.Lib.Fold

/-!
# Relays cover the 2-hop neighborhood

Each of the three steps keeps a `Covering` of the tuples that `N2` starts with:
what is taken out of `N2` is reached by a relay. The last step takes out
something in every round, for a tuple that is left has a neighbor to choose.
-/

namespace Ns3

open List

/-! ## What the steps keep -/

/-- The relays `c.mprSet` are among `good` and cover what is not in `c.N2`. -/
structure Covering (good : Ipv4Address → Prop) (N2 : List TwoHopNeighborTuple) (c : MprChoice) : Prop where
  good : ∀ a ∈ c.mprSet, good a
  part : PartCover TwoHopNeighborTuple.neighborMainAddr TwoHopNeighborTuple.twoHopNeighborAddr N2 (· ∈ c.mprSet) c.N2

section
variable {good : Ipv4Address → Prop} {N2 : List TwoHopNeighborTuple} {c : MprChoice} {t : TwoHopNeighborTuple}
  {a : Ipv4Address}

theorem mem_cover : t ∈ coverTwoHopNeighbors a N2 ↔
    t ∈ N2 ∧ ¬ ∃ t' ∈ N2, t'.neighborMainAddr = a ∧ t'.twoHopNeighborAddr = t.twoHopNeighborAddr := by
  simp [coverTwoHopNeighbors, and_assoc]

theorem Covering.select (h : Covering good N2 c) (ha : good a) : Covering good N2 (c.select a) := by
  refine ⟨fun b hb => ?_, ?_⟩
  · rcases Finset.mem_insert.mp hb with rfl | hb
    · exact ha
    · exact h.good b hb
  · apply h.part.drop
    · exact fun b hb => Finset.mem_insert_of_mem hb
    · exact filter_sublist
    · intro t ht hgone
      by_contra hnone
      apply hgone
      refine mem_cover.mpr ⟨ht, fun hreach => hnone ?_⟩
      obtain ⟨t', ht', hvia, hsame⟩ := hreach
      exact ⟨t', ht', hsame, by rw [hvia]; exact Finset.mem_insert_self a c.mprSet⟩

/-! ## Step 1 -/

theorem foldl_addAlways (N : List NeighborTuple) (hN : ∀ nb ∈ N, nb.willingness = OLSR_WILL_ALWAYS → good nb.neighborMainAddr)
    (h : Covering good N2 c) :
    Covering good N2 (N.foldl MprChoice.addAlways c) ∧ c.mprSet ⊆ (N.foldl MprChoice.addAlways c).mprSet ∧
      ∀ nb ∈ N, nb.willingness = OLSR_WILL_ALWAYS → nb.neighborMainAddr ∈ (N.foldl MprChoice.addAlways c).mprSet := by
  induction N generalizing c with
  | nil => exact ⟨h, Finset.Subset.refl _, by simp⟩
  | cons nb N ih =>
    have hrest := fun nb' hnb' => hN nb' (mem_cons_of_mem nb hnb')
    rw [foldl_cons, MprChoice.addAlways]
    by_cases halways : nb.willingness = OLSR_WILL_ALWAYS
    · rw [if_pos halways]
      obtain ⟨hcover, hsub, hall⟩ := ih hrest (h.select (hN nb mem_cons_self halways))
      have hself : nb.neighborMainAddr ∈ (c.select nb.neighborMainAddr).mprSet := Finset.mem_insert_self ..
      refine ⟨hcover, (Finset.subset_insert _ _).trans hsub, fun nb' hnb' hw => ?_⟩
      rcases mem_cons.mp hnb' with rfl | hnb'
      · exact hsub hself
      · exact hall nb' hnb' hw
    · rw [if_neg halways]
      obtain ⟨hcover, hsub, hall⟩ := ih hrest h
      refine ⟨hcover, hsub, fun nb' hnb' hw => ?_⟩
      rcases mem_cons.mp hnb' with rfl | hnb'
      · exact absurd hw halways
      · exact hall nb' hnb' hw

/-! ## Step 3 -/

/-- The relays of `r` are good, and reach what `r` notes as covered. -/
structure Noted (good : Ipv4Address → Prop) (c : MprChoice) (r : Finset Ipv4Address × List Ipv4Address) : Prop where
  good : ∀ a ∈ r.1, good a
  sub : c.mprSet ⊆ r.1
  reached : ∀ a ∈ r.2, ∃ t ∈ c.N2, t.twoHopNeighborAddr = a ∧ t.neighborMainAddr ∈ r.1

theorem Noted.addOnlyOne {r : Finset Ipv4Address × List Ipv4Address} (h : Noted good c r) (ht : good t.neighborMainAddr) :
    Noted good c (addOnlyOne c.N2 r t) := by
  rw [Ns3.addOnlyOne]
  by_cases honly : onlyOne c.N2 t = true
  · rw [if_pos honly]
    refine ⟨fun a ha => ?_, h.sub.trans (Finset.subset_insert _ _), fun a ha => ?_⟩
    · rcases Finset.mem_insert.mp ha with rfl | ha
      · exact ht
      · exact h.good a ha
    · rcases mem_append.mp ha with ha | ha
      · obtain ⟨t', ht', hsame, hvia⟩ := h.reached a ha
        exact ⟨t', ht', hsame, Finset.mem_insert_of_mem hvia⟩
      · obtain ⟨t', ht', rfl⟩ := List.mem_map.mp ha
        obtain ⟨hmem, hvia⟩ := mem_filter.mp ht'
        refine ⟨t', hmem, rfl, ?_⟩
        rw [of_decide_eq_true hvia]
        exact Finset.mem_insert_self ..
  · rw [if_neg honly]
    exact h

theorem foldl_addOnlyOne (N2' : List TwoHopNeighborTuple) (hgood : ∀ t ∈ N2', good t.neighborMainAddr)
    {r : Finset Ipv4Address × List Ipv4Address} (h : Noted good c r) : Noted good c (N2'.foldl (addOnlyOne c.N2) r) := by
  induction N2' generalizing r with
  | nil => exact h
  | cons t N2' ih =>
    rw [foldl_cons]
    exact ih (fun t' ht' => hgood t' (mem_cons_of_mem t ht')) (h.addOnlyOne (hgood t mem_cons_self))

theorem Covering.addOnlyOnes (h : Covering good N2 c) (hgood : ∀ t ∈ N2, good t.neighborMainAddr) :
    Covering good N2 c.addOnlyOnes ∧ c.mprSet ⊆ c.addOnlyOnes.mprSet := by
  have hnoted : Noted good c (c.N2.foldl (Ns3.addOnlyOne c.N2) (c.mprSet, [])) :=
    foldl_addOnlyOne c.N2 (fun t ht => hgood t (h.part.sub.subset ht)) ⟨h.good, Finset.Subset.refl _, by simp⟩
  refine ⟨⟨hnoted.good, ?_⟩, hnoted.sub⟩
  apply h.part.drop
  · exact fun a ha => hnoted.sub ha
  · exact filter_sublist
  · intro t ht hgone
    have hcovered : t.twoHopNeighborAddr ∈ (c.N2.foldl (Ns3.addOnlyOne c.N2) (c.mprSet, [])).2 := by
      by_contra hnot
      exact hgone (mem_filter.mpr ⟨ht, decide_eq_true hnot⟩)
    exact hnoted.reached _ hcovered

end

/-! ## Step 4 -/

section
variable {N : List NeighborTuple} {N2 : List TwoHopNeighborTuple}

theorem reachabilityOf_pos {nb : NeighborTuple} (h : reachabilityOf N2 nb ≠ 0) :
    ∃ t ∈ N2, t.neighborMainAddr = nb.neighborMainAddr := by
  obtain ⟨t, ht, hsame⟩ := countP_pos_iff.mp (Nat.pos_of_ne_zero h)
  exact ⟨t, ht, (of_decide_eq_true hsame).symm⟩

theorem reachabilityOf_ne_zero {nb : NeighborTuple} {t : TwoHopNeighborTuple} (ht : t ∈ N2)
    (hsame : t.neighborMainAddr = nb.neighborMainAddr) : reachabilityOf N2 nb ≠ 0 :=
  (countP_pos_iff.mpr ⟨t, ht, decide_eq_true hsame.symm⟩).ne'

/-- Each list has the neighbors of its reachability, and each neighbor is in one. -/
structure Grouped (N : List NeighborTuple) (N2 : List TwoHopNeighborTuple) (m : OrdMap Nat (List NeighborTuple)) : Prop where
  sound : ∀ r l, m.find r = some l → ∀ nb ∈ l, nb ∈ N ∧ reachabilityOf N2 nb = r
  complete : ∀ nb ∈ N, ∃ l, m.find (reachabilityOf N2 nb) = some l ∧ nb ∈ l

theorem reachability_grouped (N : List NeighborTuple) (N2 : List TwoHopNeighborTuple) :
    Grouped N N2 (reachability N N2) := by
  unfold reachability
  apply foldl_prefix (motive := fun before m => Grouped before N2 m)
  · exact ⟨by simp, by simp⟩
  · intro before nb after m _ h
    refine ⟨fun r l hl nb' hnb' => ?_, fun nb' hnb' => ?_⟩
    · rw [OrdMap.find_insert] at hl
      by_cases hr : r = reachabilityOf N2 nb
      · rw [if_pos hr] at hl
        cases hl
        rcases mem_append.mp hnb' with hold | hnew
        · cases hfind : m.find (reachabilityOf N2 nb) with
          | none => simp [hfind] at hold
          | some l' =>
            rw [hfind] at hold
            obtain ⟨hmem, hreach⟩ := h.sound _ l' hfind nb' hold
            exact ⟨mem_append_left _ hmem, hreach.trans hr.symm⟩
        · obtain rfl := mem_singleton.mp hnew
          exact ⟨mem_append_right _ hnew, hr.symm⟩
      · rw [if_neg hr] at hl
        obtain ⟨hmem, hreach⟩ := h.sound r l hl nb' hnb'
        exact ⟨mem_append_left _ hmem, hreach⟩
    · rw [OrdMap.find_insert]
      by_cases hr : reachabilityOf N2 nb' = reachabilityOf N2 nb
      · rw [if_pos hr]
        refine ⟨_, rfl, ?_⟩
        rcases mem_append.mp hnb' with hold | hnew
        · obtain ⟨l, hl, hmem⟩ := h.complete nb' hold
          rw [hr] at hl
          rw [hl]
          exact mem_append_left _ hmem
        · exact mem_append_right _ hnew
      · rw [if_neg hr]
        rcases mem_append.mp hnb' with hold | hnew
        · exact h.complete nb' hold
        · exact absurd (by rw [mem_singleton.mp hnew]) hr

end

namespace OlsrNode

section
variable (n : OlsrNode) {N : List NeighborTuple} {N2 : List TwoHopNeighborTuple}

theorem preferred_mem (r : Nat) (max : Option (NeighborTuple × Nat)) (nb : NeighborTuple) :
    n.preferred r max nb = some (nb, r) ∨ (max.isSome ∧ n.preferred r max nb = max) := by
  unfold preferred
  cases max with
  | none => exact .inl rfl
  | some m =>
    dsimp only
    split
    · exact .inl rfl
    · split
      · split
        · exact .inl rfl
        · split
          · split
            · exact .inl rfl
            · exact .inr ⟨rfl, rfl⟩
          · exact .inr ⟨rfl, rfl⟩
      · exact .inr ⟨rfl, rfl⟩

theorem foldl_preferred (P : NeighborTuple → Prop) (r : Nat) (l : List NeighborTuple) (hl : ∀ nb ∈ l, P nb) :
    ∀ max : Option (NeighborTuple × Nat), (∀ m ∈ max, P m.1) →
      (∀ m ∈ l.foldl (n.preferred r) max, P m.1) ∧ (max.isSome ∨ l ≠ [] → (l.foldl (n.preferred r) max).isSome) := by
  induction l with
  | nil =>
    intro max hmax
    exact ⟨hmax, by simp⟩
  | cons nb l ih =>
    intro max hmax
    have hnext : (∀ m ∈ n.preferred r max nb, P m.1) ∧ (n.preferred r max nb).isSome := by
      rcases n.preferred_mem r max nb with hnew | ⟨hsome, hold⟩
      · rw [hnew]
        refine ⟨fun m hm => ?_, rfl⟩
        cases hm
        exact hl nb mem_cons_self
      · rw [hold]
        exact ⟨hmax, hsome⟩
    obtain ⟨hP, hsome⟩ := ih (fun nb' hnb' => hl nb' (mem_cons_of_mem nb hnb')) _ hnext.1
    rw [foldl_cons]
    exact ⟨hP, fun _ => hsome (.inl hnext.2)⟩

theorem foldl_preferredOf (P : NeighborTuple → Prop) (es : List (Nat × List NeighborTuple))
    (hes : ∀ e ∈ es, e.1 ≠ 0 → ∀ nb ∈ e.2, P nb) : ∀ max : Option (NeighborTuple × Nat), (∀ m ∈ max, P m.1) →
      (∀ m ∈ es.foldl n.preferredOf max, P m.1) ∧
        ((max.isSome ∨ ∃ e ∈ es, e.1 ≠ 0 ∧ e.2 ≠ []) → (es.foldl n.preferredOf max).isSome) := by
  induction es with
  | nil =>
    intro max hmax
    exact ⟨hmax, by simp⟩
  | cons e es ih =>
    intro max hmax
    have hrest := fun e' he' => hes e' (mem_cons_of_mem e he')
    rw [foldl_cons, preferredOf]
    by_cases hzero : e.1 = 0
    · rw [if_pos hzero]
      obtain ⟨hP, hsome⟩ := ih hrest max hmax
      refine ⟨hP, fun h => hsome ?_⟩
      rcases h with h | ⟨e', he', hne, hl⟩
      · exact .inl h
      · rcases mem_cons.mp he' with rfl | he'
        · exact absurd hzero hne
        · exact .inr ⟨e', he', hne, hl⟩
    · rw [if_neg hzero]
      obtain ⟨hnext, hnextsome⟩ := n.foldl_preferred P e.1 e.2 (hes e mem_cons_self hzero) max hmax
      obtain ⟨hP, hsome⟩ := ih hrest _ hnext
      refine ⟨hP, fun h => hsome ?_⟩
      rcases h with h | ⟨e', he', hne, hl⟩
      · exact .inl (hnextsome (.inl h))
      · rcases mem_cons.mp he' with rfl | he'
        · exact .inl (hnextsome (.inr hl))
        · exact .inr ⟨e', he', hne, hl⟩

theorem maxNeighbor_reaches (hvia : ∀ t ∈ N2, ∃ nb ∈ N, nb.neighborMainAddr = t.neighborMainAddr) (hne : N2 ≠ []) :
    ∃ max max_r, n.maxNeighbor N N2 = some (max, max_r) ∧ ∃ t ∈ N2, t.neighborMainAddr = max.neighborMainAddr := by
  have hgroup := reachability_grouped N N2
  have hmem : ∀ e ∈ (reachability N N2).entries, e.1 ≠ 0 → ∀ nb ∈ e.2, reachabilityOf N2 nb ≠ 0 := by
    intro e he hpos nb hnb
    rw [(hgroup.sound e.1 e.2 (OrdMap.find_of_mem _ he) nb hnb).2]
    exact hpos
  obtain ⟨hreach, hsome⟩ := n.foldl_preferredOf (fun nb => reachabilityOf N2 nb ≠ 0) _ hmem none (by simp)
  obtain ⟨t, ht⟩ := exists_mem_of_ne_nil N2 hne
  obtain ⟨nb, hnb, hsame⟩ := hvia t ht
  obtain ⟨l, hl, hin⟩ := hgroup.complete nb hnb
  have hentry : ∃ e ∈ (reachability N N2).entries, e.1 ≠ 0 ∧ e.2 ≠ [] :=
    ⟨_, lookupEntry_mem hl, reachabilityOf_ne_zero ht hsame.symm, ne_nil_of_mem hin⟩
  obtain ⟨⟨max, max_r⟩, hmax⟩ := Option.isSome_iff_exists.mp (hsome (.inr hentry))
  exact ⟨max, max_r, hmax, reachabilityOf_pos (hreach _ hmax)⟩

theorem length_cover_lt {a : Ipv4Address} (h : ∃ t ∈ N2, t.neighborMainAddr = a) :
    (coverTwoHopNeighbors a N2).length < N2.length := by
  obtain ⟨t, ht, hvia⟩ := h
  refine length_filter_lt_length_iff_exists.mpr ⟨t, ht, ?_⟩
  simp only [List.mem_map, mem_filter, decide_eq_true_eq, not_not]
  exact ⟨t, ⟨ht, hvia⟩, rfl⟩

theorem coverRest_covers {good : Ipv4Address → Prop} {N2₀ : List TwoHopNeighborTuple}
    (hgood : ∀ t ∈ N2₀, good t.neighborMainAddr)
    (hvia : ∀ t ∈ N2₀, ∃ nb ∈ N, nb.neighborMainAddr = t.neighborMainAddr) :
    ∀ (m : Nat) (c : MprChoice), c.N2.length ≤ m → Covering good N2₀ c →
      ∃ mprSet, (∀ rounds, n.coverRest N (m + 1 + rounds) c = some mprSet) ∧ c.mprSet ⊆ mprSet ∧
        Covering good N2₀ ⟨mprSet, []⟩ := by
  intro m
  induction m with
  | zero =>
    intro c hlen h
    obtain hnil := length_eq_zero_iff.mp (Nat.le_zero.mp hlen)
    refine ⟨c.mprSet, fun rounds => ?_, Finset.Subset.refl _, h.good, hnil ▸ h.part⟩
    rw [Nat.zero_add, Nat.add_comm, coverRest, if_pos hnil]
  | succ m ih =>
    intro c hlen h
    by_cases hnil : c.N2 = []
    · refine ⟨c.mprSet, fun rounds => ?_, Finset.Subset.refl _, h.good, hnil ▸ h.part⟩
      rw [show m + 1 + 1 + rounds = (m + 1 + rounds) + 1 by omega, coverRest, if_pos hnil]
    · have hleft := fun t ht => hvia t (h.part.sub.subset ht)
      obtain ⟨max, max_r, hmax, t, ht, hsame⟩ := n.maxNeighbor_reaches hleft hnil
      have hchosen : good max.neighborMainAddr := hsame ▸ hgood t (h.part.sub.subset ht)
      have hless : (c.select max.neighborMainAddr).N2.length < c.N2.length := length_cover_lt ⟨t, ht, hsame⟩
      obtain ⟨mprSet, hrun, hsub, hcover⟩ := ih (c.select max.neighborMainAddr) (by omega) (h.select hchosen)
      refine ⟨mprSet, fun rounds => ?_, (Finset.subset_insert _ _).trans hsub, hcover⟩
      rw [show m + 1 + 1 + rounds = (m + 1 + rounds) + 1 by omega, coverRest, if_neg hnil, hmax]
      exact hrun rounds

end

/-! ## The computation -/

section
variable (n : OlsrNode)

def IsWilling (a : Ipv4Address) : Prop :=
  ∃ t ∈ n.m_state.neighborSet.tuples, t.neighborMainAddr = a ∧ t.status = .sym ∧ t.willingness ≠ OLSR_WILL_NEVER

structure CoversTwoHops (mprSet : Finset Ipv4Address) : Prop where
  willing : ∀ a ∈ mprSet, n.IsWilling a
  always : ∀ t ∈ n.m_state.neighborSet.tuples, t.status = .sym → t.willingness = OLSR_WILL_ALWAYS →
    t.neighborMainAddr ∈ mprSet
  covered : ∀ t ∈ n.m_state.twoHopNeighborSet, n.IsWilling t.neighborMainAddr → t.twoHopNeighborAddr ≠ n.m_mainAddress →
    ¬ n.IsSym t.twoHopNeighborAddr →
    ∃ t' ∈ n.m_state.twoHopNeighborSet, t'.twoHopNeighborAddr = t.twoHopNeighborAddr ∧ t'.neighborMainAddr ∈ mprSet

theorem mem_symNeighbors {nb : NeighborTuple} :
    nb ∈ n.symNeighbors ↔ nb ∈ n.m_state.neighborSet.tuples ∧ nb.status = .sym := by
  simp [symNeighbors]

theorem inN2_iff {t : TwoHopNeighborTuple} : n.inN2 n.symNeighbors t = true ↔
      t.twoHopNeighborAddr ≠ n.m_mainAddress ∧ n.IsWilling t.neighborMainAddr ∧ ¬ n.IsSym t.twoHopNeighborAddr := by
  have hsym : n.symNeighbors.any (fun neigh => neigh.neighborMainAddr = t.twoHopNeighborAddr) = true ↔
      n.IsSym t.twoHopNeighborAddr := by
    simp only [List.any_eq_true, decide_eq_true_eq, mem_symNeighbors, IsSym]
    constructor
    · rintro ⟨nb, ⟨hmem, hstatus⟩, hsame⟩
      exact ⟨nb, hmem, hsame, hstatus⟩
    · rintro ⟨nb, hmem, hsame, hstatus⟩
      exact ⟨nb, ⟨hmem, hstatus⟩, hsame⟩
  unfold inN2
  by_cases hself : t.twoHopNeighborAddr = n.m_mainAddress
  · simp [hself]
  · rw [if_neg hself]
    cases hfind : n.symNeighbors.find? (fun neigh => neigh.neighborMainAddr = t.neighborMainAddr) with
    | none =>
      have hnone : ¬ n.IsWilling t.neighborMainAddr := by
        intro hw
        obtain ⟨nb, hnb, hsame, hstatus, -⟩ := hw
        exact find?_eq_none.mp hfind nb (n.mem_symNeighbors.mpr ⟨hnb, hstatus⟩) (decide_eq_true hsame)
      simp [hnone]
    | some neigh =>
      have hmem := mem_of_find?_eq_some hfind
      have hsame : neigh.neighborMainAddr = t.neighborMainAddr := by
        have := find?_some hfind
        exact of_decide_eq_true this
      obtain ⟨hin, hstatus⟩ := n.mem_symNeighbors.mp hmem
      have hw : n.IsWilling t.neighborMainAddr ↔ neigh.willingness ≠ OLSR_WILL_NEVER := by
        constructor
        · intro h
          obtain ⟨nb, hnb, haddr, -, hwill⟩ := h
          rw [n.m_state.neighborSet.eq_of_mem hin hnb (hsame.trans haddr.symm)]
          exact hwill
        · exact fun hwill => ⟨neigh, hin, hsame, hstatus, hwill⟩
      dsimp only
      by_cases hnever : neigh.willingness = OLSR_WILL_NEVER
      · rw [if_pos hnever]
        simp [hw, hnever]
      · rw [if_neg hnever, Bool.not_eq_true', ← Bool.not_eq_true, hsym]
        simp [hw, hnever, hself]

/-- **Relays cover the 2-hop neighborhood.** -/
theorem mprComputation_covers :
    ∃ mprSet, (∀ rounds, n.mprComputation (n.m_state.twoHopNeighborSet.length + 1 + rounds) = some mprSet) ∧
      n.CoversTwoHops mprSet := by
  let N := n.symNeighbors
  let N2 := n.m_state.twoHopNeighborSet.filter (n.inN2 N)
  have hN2 : ∀ t ∈ N2, t ∈ n.m_state.twoHopNeighborSet ∧ n.IsWilling t.neighborMainAddr := by
    intro t ht
    obtain ⟨hmem, hin⟩ := mem_filter.mp ht
    exact ⟨hmem, (n.inN2_iff.mp hin).2.1⟩
  have hvia : ∀ t ∈ N2, ∃ nb ∈ N, nb.neighborMainAddr = t.neighborMainAddr := by
    intro t ht
    obtain ⟨nb, hnb, hsame, hstatus, -⟩ := (hN2 t ht).2
    exact ⟨nb, n.mem_symNeighbors.mpr ⟨hnb, hstatus⟩, hsame⟩
  have halways : ∀ nb ∈ N, nb.willingness = OLSR_WILL_ALWAYS → n.IsWilling nb.neighborMainAddr := by
    intro nb hnb hw
    obtain ⟨hmem, hstatus⟩ := n.mem_symNeighbors.mp hnb
    refine ⟨nb, hmem, rfl, hstatus, ?_⟩
    rw [hw]
    decide
  have hstart : Covering n.IsWilling N2 ⟨∅, N2⟩ := ⟨by simp, .start⟩
  obtain ⟨hone, -, hin⟩ := foldl_addAlways N halways hstart
  obtain ⟨hthree, hsub⟩ := hone.addOnlyOnes fun t ht => (hN2 t ht).2
  have hlen : ((N.foldl MprChoice.addAlways ⟨∅, N2⟩).addOnlyOnes).N2.length ≤ n.m_state.twoHopNeighborSet.length :=
    (hthree.part.sub.trans filter_sublist).length_le
  obtain ⟨mprSet, hrun, hrest, hfour⟩ :=
    n.coverRest_covers (fun t ht => (hN2 t ht).2) hvia _ _ hlen hthree
  refine ⟨mprSet, hrun, hfour.good, fun t ht hstatus hw => ?_, fun t ht hw hself hsym => ?_⟩
  · exact hrest (hsub (hin t (n.mem_symNeighbors.mpr ⟨ht, hstatus⟩) hw))
  · have htN2 : t ∈ N2 := mem_filter.mpr ⟨ht, n.inN2_iff.mpr ⟨hself, hw, hsym⟩⟩
    obtain ⟨t', ht', hsame, hvia⟩ := hfour.part.done htN2
    exact ⟨t', (hN2 t' ht').1, hsame, hvia⟩

end

end OlsrNode

end Ns3
