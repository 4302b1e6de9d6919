import Ns3.Lib.SharedChain

/-!
# Copy on write along a shared list

A cursor stands at a link of one list, with the nodes before it owned. The
operations that drop or replace the node behind the cursor are described by what
they leave of that list; all other lists read as before.
-/

namespace Ns3

open List Option

namespace Chains

variable {α : Type}

/-- A place in a list: the owned nodes before, the link and what is read behind it. -/
structure Cursor (m : Chains α) (i : Nat) (pre : List (Nat × α)) (b : Link) (rest : List (Nat × α)) : Prop where
  owned : Owned m (.head i) pre b
  target : ∃ h, m.target b = some h ∧ Reads m h rest

section
variable {m m' : Chains α} {i p : Nat} {pre rest : List (Nat × α)} {b : Link} {x : α} {h : Option Nat}

theorem Cursor.start (hi : m.list i = some h) (hl : Reads m h rest) : Cursor m i [] (.head i) rest := ⟨rfl, h, hi, hl⟩

theorem Cursor.reads (hc : Cursor m i pre b rest) : ∃ h, m.list i = some h ∧ Reads m h (pre ++ rest) := by
  obtain ⟨h', hb, hl⟩ := hc.target
  have hown := hc.owned
  cases pre with
  | nil =>
    subst hown
    exact ⟨h', hb, hl⟩
  | cons y pre =>
    have hfirst : m.list i = some (some y.1) := hown.1
    exact ⟨some y.1, hfirst, (hown.reads (show m.target (.head i) = _ from hfirst) hb).mpr hl⟩

theorem Cursor.links_nodup (hc : Cursor m i pre b rest) : (linksOf i (pre ++ rest)).Nodup := by
  obtain ⟨h, -, hl⟩ := hc.reads
  refine nodup_cons.mpr ⟨fun hmem => ?_, ?_⟩
  · obtain ⟨y, -, heq⟩ := List.mem_map.mp hmem
    cases heq
  · have hmap : ((pre ++ rest).map fun x => Link.next x.1) = ((pre ++ rest).map Prod.fst).map Link.next := by
      rw [List.map_map]
      rfl
    rw [hmap]
    exact hl.nodup.map fun _ _ heq => Link.next.inj heq

theorem Cursor.apart (hc : Cursor m i pre b rest) : ∀ y ∈ pre, ∀ z ∈ rest, y.1 ≠ z.1 := by
  obtain ⟨h, -, hl⟩ := hc.reads
  have hnodup := hl.nodup
  rw [map_append, nodup_append] at hnodup
  exact fun y hy z hz => hnodup.2.2 y.1 (List.mem_map_of_mem hy) z.1 (List.mem_map_of_mem hz)

theorem Cursor.node (hc : Cursor m i pre b ((p, x) :: rest)) :
    ∃ next, m.target b = some (some p) ∧ m.view p = some (next, x) ∧ Reads m next rest ∧ p ∉ rest.map Prod.fst := by
  obtain ⟨h, hb, hl⟩ := hc.target
  have hnodup := hl.nodup
  cases h with
  | none => exact hl.elim
  | some q =>
    obtain ⟨heq, next, hview, hrest⟩ := hl
    dsimp only at heq
    subst heq
    exact ⟨next, hb, hview, hrest, (nodup_cons.mp hnodup).1⟩

theorem Cursor.next (hc : Cursor m i pre b ((p, x) :: rest)) (hone : m.countAt p = 1) :
    Cursor m i (pre ++ [(p, x)]) (.next p) rest := by
  obtain ⟨next, hb, hview, hrest, -⟩ := hc.node
  exact ⟨hc.owned.snoc hb hview hone, next, congrArg (Option.map _) hview, hrest⟩

theorem Cursor.link (hc : Cursor m i pre b rest) : b = .head i ∨ ∃ y ∈ pre, b = .next y.1 := hc.owned.last

theorem Cursor.link_ne (hc : Cursor m i pre b rest) : ∀ z ∈ rest, b ≠ .next z.1 := fun z hz heq => by
  rcases hc.link with hb | ⟨y, hy, hb⟩
  · rw [heq] at hb
    cases hb
  · exact hc.apart y hy z hz (Link.next.inj (hb.symm.trans heq))

theorem Cursor.head_ne (hc : Cursor m i pre b rest) {j : Nat} (hj : j ≠ i) : b ≠ .head j := fun heq => by
  rcases hc.link with hb | ⟨y, -, hb⟩
  · exact hj (Link.head.inj (heq.symm.trans hb))
  · rw [heq] at hb
    cases hb

theorem Cursor.mem_of_link (hc : Cursor m i pre b rest) {q : Nat} (heq : b = .next q) : q ∈ pre.map Prod.fst := by
  rcases hc.link with hb | ⟨y, hy, hb⟩
  · rw [heq] at hb
    cases hb
  · exact List.mem_map.mpr ⟨y, hy, Link.next.inj (hb.symm.trans heq)⟩

theorem hit_of_reads (hl : Reads m h rest) (hnot : p ∉ rest.map Prod.fst) : hit h p = 0 := by
  cases h with
  | none => rfl
  | some q =>
    cases rest with
    | nil => exact hl.elim
    | cons y rest =>
      rw [hit_some, if_neg]
      rintro rfl
      exact hnot (hl.1 ▸ mem_cons_self)

theorem Cursor.redirect (hc : Cursor m i pre b rest) {t : Option Nat} {rest' : List (Nat × α)}
    (hlist : m'.list i = if b = .head i then some t else m.list i)
    (hview : ∀ y ∈ pre, m'.view y.1 = if b = .next y.1 then (m.view y.1).map (fun v => (t, v.2)) else m.view y.1)
    (hcount : ∀ y ∈ pre, m'.countAt y.1 = m.countAt y.1) (hrest : Reads m' t rest') : Cursor m' i pre b rest' := by
  have hsub : (linksOf i pre).Sublist (linksOf i (pre ++ rest)) :=
    Sublist.cons_cons _ ((sublist_append_left pre rest).map fun x => Link.next x.1)
  have hnodup := hc.links_nodup.sublist hsub
  have hlive : ∀ y ∈ pre, ∃ next, m.view y.1 = some (next, y.2) := fun y hy => by
    obtain ⟨h, -, hl⟩ := hc.reads
    exact hl.live y (mem_append_left _ hy)
  refine ⟨hc.owned.frame hnodup (fun c hmem hne => ?_) (fun y hy => ⟨hcount y hy, fun next hy' => ?_⟩), t, ?_, hrest⟩
  · rcases mem_cons.mp hmem with rfl | hmem
    · rw [Chains.target, hlist, if_neg (Ne.symm hne)]
      rfl
    · obtain ⟨y, hy, rfl⟩ := List.mem_map.mp hmem
      rw [Chains.target, hview y hy, if_neg (Ne.symm hne)]
      rfl
  · rw [hview y hy, hy']
    by_cases heq : b = .next y.1
    · exact ⟨t, if_pos heq⟩
    · exact ⟨next, if_neg heq⟩
  · rcases hc.link with rfl | ⟨y, hy, rfl⟩
    · rw [Chains.target, hlist, if_pos rfl]
    · obtain ⟨next, hview'⟩ := hlive y hy
      rw [Chains.target, hview y hy, if_pos rfl, hview']
      rfl

end

/-! ## Behind the first branch -/

section
variable {m : Chains α} {i p : Nat} {pre rest : List (Nat × α)} {b : Link} {x : α}

theorem Cursor.next_live (hm : Balanced m) (hc : Cursor m i pre b ((p, x) :: rest)) : ∃ next, m.target b = some (some p) ∧
    m.view p = some (next, x) ∧ Reads m next rest ∧ p ∉ rest.map Prod.fst ∧ (∀ q, next = some q → ∃ v, m.view q = some v) ∧
      ∀ y ∈ pre, y.1 ≠ p ∧ hit next y.1 = 0 := by
  obtain ⟨next, hb, hview, hrest, hnot⟩ := hc.node
  refine ⟨next, hb, hview, hrest, hnot, fun q hq => ?_, fun y hy => ⟨hc.apart y hy (p, x) mem_cons_self, ?_⟩⟩
  · refine hm.live (a := .next p) ?_
    rw [Chains.target, hview, ← hq]
    rfl
  · refine hit_of_reads hrest fun hmem => ?_
    obtain ⟨z, hz, heq⟩ := List.mem_map.mp hmem
    exact hc.apart y hy z (mem_cons_of_mem _ hz) heq.symm

/-- **Link past a shared node**: the link is led on, the node loses it, and the next one
gets a link more. -/
theorem Cursor.dropShared (hm : Balanced m) (hc : Cursor m i pre b ((p, x) :: rest)) (hshared : 1 < m.countAt p) :
    ∃ d m', m.node p = some d ∧ d.val = x ∧
      ((m.setTarget d.next b).bind fun m => (m.decr p).bind fun m => m.incrAt d.next) = some m' ∧
      Balanced m' ∧ Cursor m' i pre b rest ∧ Others m m' i := by
  obtain ⟨next, hb, hview, hrest, hnot, hnext, howner⟩ := hc.next_live hm
  obtain ⟨m₁, hcall₁, hwrote₁, hlinks₁⟩ := setTarget_eq hb next
  have hview₁ : m₁.view p = some (next, x) := by
    rw [hwrote₁.view, if_neg (hc.link_ne (p, x) mem_cons_self), hview]
  obtain ⟨m₂, hcall₂, hwrote₂, hlinks₂, -⟩ := decr_eq hview₁ (by rw [hwrote₁.count]; omega)
  obtain ⟨m₃, hcall₃, hwrote₃, hlinks₃, -⟩ := incrAt_eq (m := m₂) (h := next) fun q hq => by
    obtain ⟨v, hv⟩ := hnext q hq
    rw [hwrote₂.view, hwrote₁.view, hv]
    split
    · exact ⟨_, rfl⟩
    · exact ⟨_, rfl⟩
  have hlist : ∀ j, m₃.list j = if b = .head j then some next else m.list j := fun j => by
    rw [hwrote₃.list, hwrote₂.list, hwrote₁.list]
  have hviews : ∀ q, m₃.view q = if b = .next q then (m.view q).map (fun v => (next, v.2)) else m.view q := fun q => by
    rw [hwrote₃.view, hwrote₂.view, hwrote₁.view]
  have hcounts : ∀ q, m₃.countAt q = m.countAt q - hit (some p) q + hit next q := fun q => by
    rw [hwrote₃.count, hwrote₂.count, hwrote₁.count]
  refine ⟨_, m₃, node_eq_of_view hview, rfl, ?_, ⟨fun q => ?_, fun q v hv => ?_⟩, ?_, ?_⟩
  · rw [hcall₁, bind_some, hcall₂, bind_some, hcall₃]
  · have h₁ := hlinks₁ q
    have hq := hm.count q
    rw [hcounts, hlinks₃, hlinks₂]
    rw [hit_some] at h₁ ⊢
    by_cases heq : p = q
    · subst heq
      rw [if_pos rfl] at h₁ ⊢
      omega
    · rw [if_neg heq] at h₁ ⊢
      omega
  · rw [hcounts, hit_some]
    by_cases heq : p = q
    · rw [if_pos heq, ← heq]
      omega
    · have hlive : ∃ v, m.view q = some v := by
        rw [hviews] at hv
        split at hv
        · obtain ⟨v', hv', -⟩ := map_eq_some_iff.mp hv
          exact ⟨v', hv'⟩
        · exact ⟨v, hv⟩
      obtain ⟨v', hv'⟩ := hlive
      have := hm.pos q v' hv'
      rw [if_neg heq]
      omega
  · refine hc.redirect (hlist i) (fun y _ => hviews y.1) (fun y hy => ?_) (hrest.frame fun z hz => ?_)
    · obtain ⟨hne, hhit⟩ := howner y hy
      rw [hcounts, hhit, hit_some, if_neg (Ne.symm hne)]
      rfl
    · rw [hviews, if_neg (hc.link_ne z (mem_cons_of_mem _ hz))]
  · refine hc.owned.others hm (fun j hj => ?_) (fun q => ?_) (hwrote₃.lists.trans (hwrote₂.lists.trans hwrote₁.lists))
    · rw [hlist, if_neg (hc.head_ne hj)]
    · by_cases heq : b = .next q
      · exact .inr (.inr (hc.mem_of_link heq))
      · exact .inl (by rw [hviews, if_neg heq])

/-- **A copy instead of a shared node**: the node loses the link, the copy leads to the
next one, and the link leads to the copy. The next one is shared then. -/
theorem Cursor.replaceShared (hm : Balanced m) (hc : Cursor m i pre b ((p, x) :: rest)) (hshared : 1 < m.countAt p) (w : α) :
    ∃ d m', m.node p = some d ∧ d.val = x ∧
      ((m.decr p).bind fun m' => ((m'.alloc ⟨d.next, 1, w⟩).incrAt d.next).bind fun m'' => m''.setTarget (some m'.nodes.length) b) =
        some m' ∧ (∃ m₁, m.decr p = some m₁ ∧ m₁.nodes.length = m.nodes.length) ∧
      Balanced m' ∧ Cursor m' i (pre ++ [(m.nodes.length, w)]) (.next m.nodes.length) rest ∧ Others m m' i ∧
      ∀ y ∈ rest.head?, 1 < m'.countAt y.1 := by
  obtain ⟨next, hb, hview, hrest, hnot, hnext, howner⟩ := hc.next_live hm
  have hfresh : ∀ q v, m.view q = some v → q ≠ m.nodes.length := fun q v hv heq => by
    rw [heq, view_fresh] at hv
    cases hv
  have hp := hfresh p _ hview
  -- the node loses an owner, and its copy, with one more owner of `next`, is linked
  obtain ⟨m₁, hcall₁, hwrote₁, hlinks₁, hlength⟩ := decr_eq hview (by omega)
  obtain ⟨hwrote₂, hlinks₂⟩ := alloc_eq (m := m₁) ⟨next, 1, w⟩
  obtain ⟨m₃, hcall₃, hwrote₃, hlinks₃, -⟩ := incrAt_eq (m := m₁.alloc ⟨next, 1, w⟩) (h := next) fun q hq => by
    obtain ⟨v, hv⟩ := hnext q hq
    exact ⟨v, by rw [hwrote₂.view, if_neg (hlength ▸ hfresh q v hv), hwrote₁.view, hv]⟩
  have hb₃ : m₃.target b = some (some p) := by
    rcases hc.link with rfl | ⟨y, hy, rfl⟩
    · rw [Chains.target, hwrote₃.list, hwrote₂.list, hwrote₁.list]
      exact hb
    · obtain ⟨v, hv, -⟩ := map_eq_some_iff.mp hb
      rw [Chains.target, hwrote₃.view, hwrote₂.view, if_neg (hlength ▸ hfresh y.1 v hv), hwrote₁.view]
      exact hb
  obtain ⟨m₄, hcall₄, hwrote₄, hlinks₄⟩ := setTarget_eq hb₃ (some m₁.nodes.length)
  rw [hlength] at hwrote₂ hcall₄ hwrote₄ hlinks₄
  have hlist : ∀ j, m₄.list j = if b = .head j then some (some m.nodes.length) else m.list j := fun j => by
    rw [hwrote₄.list, hwrote₃.list, hwrote₂.list, hwrote₁.list]
  have hviews : ∀ q ≠ m.nodes.length, m₄.view q = if b = .next q then (m.view q).map (fun v => (some m.nodes.length, v.2)) else m.view q :=
    fun q hq => by
      rw [hwrote₄.view, hwrote₃.view, hwrote₂.view, if_neg hq, hwrote₁.view]
  have hcopy : m₄.view m.nodes.length = some (next, w) := by
    have hne : b ≠ .next m.nodes.length := fun heq => by
      rw [heq, Chains.target, view_fresh] at hb
      cases hb
    rw [hwrote₄.view, if_neg hne, hwrote₃.view, hwrote₂.view, if_pos rfl]
  have hcounts : ∀ q, m₄.countAt q = (if q = m.nodes.length then 1 else m.countAt q - hit (some p) q) + hit next q := fun q => by
    rw [hwrote₄.count, hwrote₃.count, hwrote₂.count, hwrote₁.count]
  have hone : m₄.countAt m.nodes.length = 1 := by
    have hzero : hit next m.nodes.length = 0 := by
      cases next with
      | none => rfl
      | some q =>
        obtain ⟨v, hv⟩ := hnext q rfl
        rw [hit_some, if_neg (hfresh q v hv)]
    rw [hcounts, if_pos rfl, hzero]
  have hbalanced : Balanced m₄ := by
    refine ⟨fun q => ?_, fun q v hv => ?_⟩
    · have h₄ := hlinks₄ q
      rw [hlinks₃, hlinks₂, hlinks₁, hit_some, hit_some] at h₄
      dsimp only at h₄
      have hq := hm.count q
      rw [hcounts, hit_some]
      by_cases hqf : q = m.nodes.length
      · subst hqf
        have hzero : m.countAt m.nodes.length = 0 := countAt_fresh
        rw [if_neg hp, if_pos rfl] at h₄
        rw [if_pos rfl]
        omega
      · rw [if_neg (Ne.symm hqf)] at h₄
        rw [if_neg hqf]
        by_cases heq : p = q
        · subst heq
          rw [if_pos rfl] at h₄ ⊢
          omega
        · rw [if_neg heq] at h₄ ⊢
          omega
    · by_cases hqf : q = m.nodes.length
      · rw [hqf, hone]
        exact Nat.one_pos
      · have hlive : ∃ v, m.view q = some v := by
          rw [hviews q hqf] at hv
          split at hv
          · obtain ⟨v', hv', -⟩ := map_eq_some_iff.mp hv
            exact ⟨v', hv'⟩
          · exact ⟨v, hv⟩
        obtain ⟨v', hv'⟩ := hlive
        have hpos := hm.pos q v' hv'
        rw [hcounts, if_neg hqf, hit_some]
        split
        · subst q
          omega
        · omega
  have hread : Reads m₄ (some m.nodes.length) ((m.nodes.length, w) :: rest) := by
    refine ⟨rfl, next, hcopy, hrest.frame fun z hz => ?_⟩
    obtain ⟨v, hv⟩ := hrest.live z hz
    rw [hviews _ (hfresh _ _ hv), if_neg (hc.link_ne z (mem_cons_of_mem _ hz))]
  have hcursor : Cursor m₄ i pre b ((m.nodes.length, w) :: rest) := by
    refine hc.redirect (hlist i) (fun y hy => ?_) (fun y hy => ?_) hread
    · obtain ⟨h, -, hl⟩ := hc.reads
      obtain ⟨v, hv⟩ := hl.live y (mem_append_left _ hy)
      exact hviews _ (hfresh _ _ hv)
    · obtain ⟨h, -, hl⟩ := hc.reads
      obtain ⟨v, hv⟩ := hl.live y (mem_append_left _ hy)
      obtain ⟨hne, hhit⟩ := howner y hy
      rw [hcounts, hhit, if_neg (hfresh _ _ hv), hit_some, if_neg (Ne.symm hne)]
      rfl
  refine ⟨_, m₄, node_eq_of_view hview, rfl, ?_, ⟨m₁, hcall₁, hlength⟩, hbalanced, hcursor.next hone, ?_, fun y hy => ?_⟩
  · rw [hcall₁, bind_some, hcall₃, bind_some, hlength, hcall₄]
  · refine hc.owned.others hm (fun j hj => ?_) (fun q => ?_)
      (hwrote₄.lists.trans (hwrote₃.lists.trans (hwrote₂.lists.trans hwrote₁.lists)))
    · rw [hlist, if_neg (hc.head_ne hj)]
    · by_cases hqf : q = m.nodes.length
      · exact .inr (.inl (hqf ▸ view_fresh))
      · by_cases heq : b = .next q
        · exact .inr (.inr (hc.mem_of_link heq))
        · exact .inl (by rw [hviews q hqf, if_neg heq])
  · -- the next node had the link of the node that was replaced
    cases rest with
    | nil => cases hy
    | cons z rest =>
      obtain rfl : z = y := Option.some.inj hy
      cases next with
      | none => exact hrest.elim
      | some q =>
        obtain ⟨hz, next', hviewz, -⟩ := hrest
        have hpos := hm.pos q _ hviewz
        have hpq : p ≠ q := fun heq => hnot (by rw [heq, ← hz]; exact mem_cons_self)
        rw [hz, hcounts, if_neg (hfresh q _ hviewz), hit_some, hit_some, if_neg hpq, if_pos rfl]
        omega

end

/-! ## Before the first branch -/

section
variable {m : Chains α} {i p : Nat} {pre rest l : List (Nat × α)} {b : Link} {x : α} {h : Option Nat}

/-- **Link past an owned node**, which goes. -/
theorem Cursor.dropOwned (hm : Balanced m) (hc : Cursor m i pre b ((p, x) :: rest)) (hone : m.countAt p = 1) :
    ∃ d m', m.node p = some d ∧ d.val = x ∧ ((m.setTarget d.next b).bind fun m => m.free p) = some m' ∧
      Balanced m' ∧ Cursor m' i pre b rest ∧ Others m m' i := by
  obtain ⟨next, hb, hview, hrest, hnot, hnext, howner⟩ := hc.next_live hm
  obtain ⟨m₁, hcall₁, hwrote₁, hlinks₁⟩ := setTarget_eq hb next
  have hview₁ : m₁.view p = some (next, x) := by
    rw [hwrote₁.view, if_neg (hc.link_ne (p, x) mem_cons_self), hview]
  obtain ⟨m₂, hcall₂, hwrote₂, hlinks₂⟩ := free_eq hview₁
  have hlist : ∀ j, m₂.list j = if b = .head j then some next else m.list j := fun j => by
    rw [hwrote₂.list, hwrote₁.list]
  have hviews : ∀ q, q ≠ p → m₂.view q = if b = .next q then (m.view q).map (fun v => (next, v.2)) else m.view q := fun q hq => by
    rw [hwrote₂.view, if_neg hq, hwrote₁.view]
  have hcounts : ∀ q, m₂.countAt q = if q = p then 0 else m.countAt q := fun q => by
    rw [hwrote₂.count, hwrote₁.count]
  refine ⟨_, m₂, node_eq_of_view hview, rfl, ?_, ⟨fun q => ?_, fun q v hv => ?_⟩, ?_, ?_⟩
  · rw [hcall₁, bind_some, hcall₂]
  · have h₁ := hlinks₁ q
    have h₂ := hlinks₂ q
    have hq := hm.count q
    rw [hit_some] at h₁
    rw [hcounts]
    by_cases heq : q = p
    · subst heq
      have hzero : hit next q = 0 := hit_of_reads hrest hnot
      rw [if_pos rfl] at h₁ ⊢
      omega
    · rw [if_neg (Ne.symm heq)] at h₁
      rw [if_neg heq]
      dsimp only at h₂
      omega
  · have hqp : q ≠ p := fun heq => by
      rw [hwrote₂.view, if_pos heq] at hv
      cases hv
    rw [hcounts, if_neg hqp]
    rw [hviews q hqp] at hv
    split at hv
    · obtain ⟨v', hv', -⟩ := map_eq_some_iff.mp hv
      exact hm.pos q v' hv'
    · exact hm.pos q v hv
  · refine hc.redirect (hlist i) (fun y hy => hviews y.1 (howner y hy).1) (fun y hy => ?_) (hrest.frame fun z hz => ?_)
    · rw [hcounts, if_neg (howner y hy).1]
    · have hzp : z.1 ≠ p := fun heq => hnot (heq ▸ List.mem_map_of_mem hz)
      rw [hviews _ hzp, if_neg (hc.link_ne z (mem_cons_of_mem _ hz))]
  · refine (hc.next hone).owned.others hm (fun j hj => ?_) (fun q => ?_) (hwrote₂.lists.trans hwrote₁.lists)
    · rw [hlist, if_neg (hc.head_ne hj)]
    · rw [map_append, mem_append]
      by_cases hqp : q = p
      · exact .inr (.inr (.inr (hqp ▸ mem_cons_self)))
      · by_cases heq : b = .next q
        · exact .inr (.inr (.inl (hc.mem_of_link heq)))
        · exact .inl (by rw [hviews q hqp, if_neg heq])

/-- **Another value** in an owned node. -/
theorem Cursor.setOwned (hm : Balanced m) (hc : Cursor m i pre b ((p, x) :: rest)) (hone : m.countAt p = 1) (w : α) :
    ∃ m', m.setVal p w = some m' ∧ Balanced m' ∧ Cursor m' i pre b ((p, w) :: rest) ∧ Others m m' i := by
  obtain ⟨next, hb, hview, hrest, hnot, hnext, howner⟩ := hc.next_live hm
  obtain ⟨m', hcall, hwrote, hlinks⟩ := setVal_eq hview w
  have hviews : ∀ q, q ≠ p → m'.view q = m.view q := fun q hq => by rw [hwrote.view, if_neg hq]
  have htarget : ∀ c, m'.target c = m.target c := fun c => by
    cases c with
    | head j => exact hwrote.list j
    | next q =>
      rw [Chains.target, Chains.target, hwrote.view]
      split
      · rw [‹q = p›, hview]
        rfl
      · rfl
  refine ⟨m', hcall, ⟨fun q => ?_, fun q v hv => ?_⟩, ⟨?_, some p, (htarget b).trans hb, ?_⟩, ?_⟩
  · rw [hwrote.count, hlinks, hm.count]
  · rw [hwrote.count]
    by_cases hqp : q = p
    · rw [hqp, hone]
      exact Nat.one_pos
    · rw [hviews q hqp] at hv
      exact hm.pos q v hv
  · refine hc.owned.frame (hc.links_nodup.sublist ?_) (fun c _ _ => htarget c) fun y hy => ⟨hwrote.count _, fun next' hv => ?_⟩
    · exact Sublist.cons_cons _ ((sublist_append_left pre _).map fun x => Link.next x.1)
    · exact ⟨next', by rw [hviews _ (howner y hy).1, hv]⟩
  · refine ⟨rfl, next, by rw [hwrote.view, if_pos rfl], hrest.frame fun z hz => ?_⟩
    exact hviews _ fun heq => hnot (heq ▸ List.mem_map_of_mem hz)
  · refine (hc.next hone).owned.others hm (fun j _ => hwrote.list j) (fun q => ?_) hwrote.lists
    rw [map_append, mem_append]
    by_cases hqp : q = p
    · exact .inr (.inr (.inr (hqp ▸ mem_cons_self)))
    · exact .inl (hviews q hqp)

/-- **A new node in front.** -/
theorem push (hm : Balanced m) (hi : m.list i = some h) (hl : Reads m h l) (w : α) :
    ∃ m', (m.alloc ⟨h, 1, w⟩).setTarget (some m.nodes.length) (.head i) = some m' ∧ Balanced m' ∧ Others m m' i ∧
      m'.list i = some (some m.nodes.length) ∧ Reads m' (some m.nodes.length) ((m.nodes.length, w) :: l) := by
  obtain ⟨hwrote₁, hlinks₁⟩ := alloc_eq (m := m) ⟨h, 1, w⟩
  have hi₁ : (m.alloc ⟨h, 1, w⟩).target (.head i) = some h := hi
  obtain ⟨m₂, hcall₂, hwrote₂, hlinks₂⟩ := setTarget_eq hi₁ (some m.nodes.length)
  have hviews : ∀ q, m₂.view q = if q = m.nodes.length then some (h, w) else m.view q := fun q => by
    rw [hwrote₂.view, if_neg (fun heq => by cases heq), hwrote₁.view]
  have hcounts : ∀ q, m₂.countAt q = if q = m.nodes.length then 1 else m.countAt q := fun q => by
    rw [hwrote₂.count, hwrote₁.count]
  have hdead : m.links m.nodes.length = 0 := by rw [← hm.count, countAt_fresh]
  refine ⟨m₂, hcall₂, ⟨fun q => ?_, fun q v hv => ?_⟩, ⟨fun j hj => ?_, fun j hj p l' hp hl' => ?_, ?_⟩, ?_, ?_⟩
  · have h₁ := hlinks₁ q
    have h₂ := hlinks₂ q
    have hq := hm.count q
    rw [hcounts]
    rw [hit_some] at h₂
    dsimp only at h₁
    by_cases heq : q = m.nodes.length
    · subst heq
      rw [if_pos rfl] at h₂ ⊢
      omega
    · rw [if_neg (Ne.symm heq)] at h₂
      rw [if_neg heq]
      omega
  · rw [hviews] at hv
    rw [hcounts]
    split at hv
    · rw [if_pos ‹_›]
      exact Nat.one_pos
    · rw [if_neg ‹_›]
      exact hm.pos q v hv
  · rw [hwrote₂.list, if_neg (fun heq => hj (Link.head.inj heq).symm)]
    rfl
  · refine hl'.frame fun z hz => ?_
    obtain ⟨v, hv⟩ := hl'.live z hz
    rw [hviews, if_neg]
    intro heq
    rw [heq, view_fresh] at hv
    cases hv
  · exact hwrote₂.lists.trans hwrote₁.lists
  · rw [hwrote₂.list, if_pos rfl]
  · refine ⟨rfl, h, by rw [hviews, if_pos rfl], hl.frame fun z hz => ?_⟩
    obtain ⟨v, hv⟩ := hl.live z hz
    rw [hviews, if_neg]
    intro heq
    rw [heq, view_fresh] at hv
    cases hv

/-- **A new list** on what another one reads. -/
theorem share (hm : Balanced m) (hlive : ∀ q, h = some q → ∃ v, m.view q = some v) :
    ∃ m', (m.newList h).incrAt h = some m' ∧ Balanced m' ∧ m'.list m.lists.length = some h ∧
      (∀ j ≠ m.lists.length, m'.list j = m.list j) ∧ (∀ q, m'.view q = m.view q) ∧ m'.lists.length = m.lists.length + 1 := by
  obtain ⟨m', hcall, hwrote, hlinks, -⟩ := incrAt_eq (m := m.newList h) hlive
  refine ⟨m', hcall, ⟨fun q => ?_, fun q v hv => ?_⟩, ?_, fun j hj => ?_, hwrote.view, ?_⟩
  · rw [hwrote.count, hlinks, links_newList, ← hm.count]
    rfl
  · rw [hwrote.view] at hv
    rw [hwrote.count]
    exact Nat.add_pos_left (hm.pos q v hv) _
  · rw [hwrote.list, list_newList, if_pos rfl]
  · rw [hwrote.list, list_newList, if_neg hj]
  · rw [hwrote.lists, newList, length_append]
    rfl

/-- **An empty list** set on what another one reads. -/
theorem attach (hm : Balanced m) (hi : m.list i = some none) (hlive : ∀ q, h = some q → ∃ v, m.view q = some v) :
    ∃ m', ((m.setTarget h (.head i)).bind fun m => m.incrAt h) = some m' ∧ Balanced m' ∧ m'.list i = some h ∧
      (∀ j ≠ i, m'.list j = m.list j) ∧ (∀ q, m'.view q = m.view q) ∧ m'.lists.length = m.lists.length := by
  obtain ⟨m₁, hcall₁, hwrote₁, hlinks₁⟩ := setTarget_eq (b := .head i) hi h
  have hviews₁ : ∀ q, m₁.view q = m.view q := fun q => by rw [hwrote₁.view, if_neg (fun heq => by cases heq)]
  obtain ⟨m₂, hcall₂, hwrote₂, hlinks₂, -⟩ := incrAt_eq (m := m₁) (h := h) fun q hq => by
    obtain ⟨v, hv⟩ := hlive q hq
    exact ⟨v, (hviews₁ q).trans hv⟩
  refine ⟨m₂, by rw [hcall₁, bind_some, hcall₂], ⟨fun q => ?_, fun q v hv => ?_⟩, ?_, fun j hj => ?_, fun q => ?_, ?_⟩
  · have h₁ := hlinks₁ q
    rw [hwrote₂.count, hlinks₂, hwrote₁.count, hm.count]
    rw [hit_none] at h₁
    omega
  · rw [hwrote₂.view, hviews₁] at hv
    rw [hwrote₂.count, hwrote₁.count]
    exact Nat.add_pos_left (hm.pos q v hv) _
  · rw [hwrote₂.list, hwrote₁.list, if_pos rfl]
  · rw [hwrote₂.list, hwrote₁.list, if_neg (fun heq => hj (Link.head.inj heq).symm)]
  · rw [hwrote₂.view, hviews₁]
  · exact hwrote₂.lists.trans hwrote₁.lists

end

end Chains

end Ns3
