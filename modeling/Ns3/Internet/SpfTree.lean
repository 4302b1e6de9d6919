import Mathlib.Data.List.Destutter
import Ns3.Internet.GlobalRouteManagerImpl

/-!
# The tree behind one exit

Once every candidate leaves the root through the same exit, every vertex that is
found later does so too: a vertex inherits the exits of its parent, and the
merged exits of two parents are that one exit again (`Queued`). The tree has no
cycles, since a parent is in it before its children (`Grown`), so the calculation
and the walk over the stub networks come to an end, and every route they add
goes through that exit.
-/

namespace Ns3

open List

namespace GlobalRouteManagerImpl

open SPFVertex CandidateQueue GlobalRouteManager

/-! ## Lists -/

theorem unique_same {α : Type} [DecidableEq α] {e : α} {l : List α} (hne : l ≠ []) (hall : ∀ x ∈ l, x = e) : unique l = [e] := by
  have hdestutter : ∀ l : List α, (∀ x ∈ l, x = e) → l.destutter' (· ≠ ·) e = [e] := by
    intro l hall
    induction l with
    | nil => rfl
    | cons x l ih =>
      rw [destutter'_cons_neg _ (by simp [hall x mem_cons_self])]
      exact ih fun y hy => hall y (mem_cons_of_mem x hy)
  cases l with
  | nil => exact absurd rfl hne
  | cons x l =>
    rw [unique, destutter_cons', hall x mem_cons_self]
    exact hdestutter l fun y hy => hall y (mem_cons_of_mem x hy)

theorem mem_of_unique {α : Type} [DecidableEq α] {l : List α} {x : α} (hx : x ∈ unique l) : x ∈ l :=
  (destutter_sublist _ l).subset hx

theorem push_perm (w : SPFVertex) (l : List SPFVertex) : (push w l).Perm (w :: l) := by
  have hsplit : (l.takeWhile fun v => !compareSPFVertex w v) ++ l.dropWhile (fun v => !compareSPFVertex w v) = l :=
    takeWhile_append_dropWhile
  have hmiddle := @List.perm_middle SPFVertex w (l.takeWhile fun v => !compareSPFVertex w v)
    (l.dropWhile fun v => !compareSPFVertex w v)
  rw [hsplit] at hmiddle
  exact hmiddle

theorem assign_ids (cw : SPFVertex) (l : List SPFVertex) : (assign cw l).map vertexId = l.map vertexId := by
  rw [assign, List.map_map]
  refine map_congr_left fun v _ => ?_
  rw [Function.comp_apply]
  split
  · next h => exact h.symm
  · rfl

theorem mem_assign {cw w : SPFVertex} {l : List SPFVertex} (hw : w ∈ assign cw l) : w = cw ∨ w ∈ l := by
  obtain ⟨v, hv, rfl⟩ := List.mem_map.mp hw
  split
  · exact .inl rfl
  · exact .inr hv

theorem mem_exitRoutes {dest mask : Ipv4Address} {e : Ipv4Address × Int} {r : Ipv4RoutingTableEntry}
    (hr : r ∈ exitRoutes dest mask [e]) :
    r.gateway = e.1 ∧ (r.interface : Int) = e.2 := by
  obtain ⟨exit, hexit, rfl⟩ := List.mem_map.mp hr
  obtain ⟨hmem, hle⟩ := mem_filter.mp hexit
  rw [mem_singleton.mp hmem] at hle ⊢
  exact ⟨rfl, Int.toNat_of_nonneg (of_decide_eq_true hle)⟩

/-! ## Inherited exits -/

/-- A vertex that is reached from the root through one exit, and not the root itself. -/
structure Behind (root : Ipv4Address) (e : Ipv4Address × Int) (v : SPFVertex) : Prop where
  exits : v.m_ecmpRootExits = [e]
  away : v.vertexId ≠ root
  parents : v.m_lsa.lsType = .NetworkLSA → root ∉ v.m_parents

section
variable {m : GlobalRouteManagerImpl} {root : Ipv4Address} {e : Ipv4Address × Int} {v w : SPFVertex} {s s' s'' : SPFState}

theorem Behind.nexthop (h : Behind root e v) (w : SPFVertex) (l : Option LinkRecord) (distance : Nat) :
    m.spfNexthopCalculation root v w l distance =
      some { w with m_ecmpRootExits := [e], m_distanceFromRoot := distance, m_parents := [v.vertexId] } := by
  rw [spfNexthopCalculation, if_neg h.away, inheritedExits]
  cases htype : v.m_lsa.lsType with
  | NetworkLSA =>
    have hhead : v.m_parents.head? ≠ some root := fun hhead => h.parents htype (mem_of_head? hhead)
    dsimp only
    rw [if_neg hhead, getRootExitDirection, h.exits]
    rfl
  | RouterLSA =>
    dsimp only
    rw [h.exits]
    rfl

theorem Behind.child (h : Behind root e v) (w : SPFVertex) (haway : w.vertexId ≠ root) (distance : Nat) :
    Behind root e { w with m_ecmpRootExits := [e], m_distanceFromRoot := distance, m_parents := [v.vertexId] } :=
  ⟨rfl, haway, fun _ hroot => h.away (mem_singleton.mp hroot).symm⟩

theorem Behind.merge {address : Ipv4Address → Nat} (h : Behind root e v) (h' : Behind root e w)
    (hparents : root ∉ w.m_parents) : Behind root e ((v.mergeRootExitDirections w).mergeParent address w) := by
  refine ⟨?_, h.away, fun htype hroot => ?_⟩
  · show unique ((v.m_ecmpRootExits ++ w.m_ecmpRootExits).mergeSort exitLe) = [e]
    have hmem (x : Ipv4Address × Int) (hx : x ∈ (v.m_ecmpRootExits ++ w.m_ecmpRootExits).mergeSort exitLe) : x = e := by
      rw [mem_mergeSort, h.exits, h'.exits] at hx
      simpa using hx
    apply unique_same
    · rw [h.exits, h'.exits]
      intro hnil
      have hlength := congrArg List.length hnil
      rw [length_mergeSort] at hlength
      cases hlength
    · exact hmem
  · have hmem := mem_of_unique hroot
    rw [mem_mergeSort, mem_append] at hmem
    exact hmem.elim (h.parents htype) hparents

end

/-! ## One neighbour -/

/-- The candidates, all behind one exit. -/
structure Queued (m : GlobalRouteManagerImpl) (root : Ipv4Address) (e : Ipv4Address × Int) (s : SPFState) : Prop where
  started : s.status root = .LSA_SPF_IN_SPFTREE
  behind : ∀ w ∈ s.candidate, Behind root e w
  known : ∀ w ∈ s.candidate, w.m_lsa ∈ m.m_lsdb.m_database
  marked : ∀ id, s.status id = .LSA_SPF_CANDIDATE ↔ id ∈ s.candidate.map vertexId
  nodup : (s.candidate.map vertexId).Nodup
  parents : ∀ w ∈ s.candidate, ∀ p ∈ w.m_parents, s.status p = .LSA_SPF_IN_SPFTREE

structure Same (s s' : SPFState) : Prop where
  inTree : ∀ id, s'.status id = .LSA_SPF_IN_SPFTREE ↔ s.status id = .LSA_SPF_IN_SPFTREE
  children : s'.children = s.children
  routes : s'.routes = s.routes

section
variable {m : GlobalRouteManagerImpl} {root : Ipv4Address} {e : Ipv4Address × Int} {v w : SPFVertex} {s s' s'' : SPFState}
  {l : Option LinkRecord} {w_lsa : GlobalRoutingLSA}

theorem Same.refl (s : SPFState) : Same s s := ⟨fun _ => Iff.rfl, rfl, rfl⟩

theorem Same.trans (h : Same s s') (h' : Same s' s'') : Same s s'' :=
  ⟨fun id => (h'.inTree id).trans (h.inTree id), h'.children.trans h.children, h'.routes.trans h.routes⟩

theorem Queued.replace (h : Queued m root e s) {candidate : List SPFVertex} (hperm : candidate.Perm (assign w s.candidate))
    (hbehind : Behind root e w) (hknown : w.m_lsa ∈ m.m_lsdb.m_database)
    (hparents : ∀ p ∈ w.m_parents, s.status p = .LSA_SPF_IN_SPFTREE) : Queued m root e { s with candidate := candidate } := by
  have hids : (candidate.map vertexId).Perm (s.candidate.map vertexId) := by
    rw [← assign_ids w s.candidate]
    exact hperm.map vertexId
  have hmem {x : SPFVertex} (hx : x ∈ candidate) : x = w ∨ x ∈ s.candidate := mem_assign (hperm.mem_iff.mp hx)
  refine ⟨h.started, fun x hx => ?_, fun x hx => ?_, fun id => ?_, ?_, fun x hx => ?_⟩
  · obtain rfl | hx := hmem hx
    · exact hbehind
    · exact h.behind x hx
  · obtain rfl | hx := hmem hx
    · exact hknown
    · exact h.known x hx
  · rw [hids.mem_iff]
    exact h.marked id
  · exact hids.nodup_iff.mpr h.nodup
  · obtain rfl | hx := hmem hx
    · exact hparents
    · exact h.parents x hx

theorem Queued.push (h : Queued m root e s) (hnew : s.status w.vertexId = .LSA_SPF_NOT_EXPLORED) (hbehind : Behind root e w)
    (hknown : w.m_lsa ∈ m.m_lsdb.m_database) (hparents : ∀ p ∈ w.m_parents, s.status p = .LSA_SPF_IN_SPFTREE) :
    Queued m root e { s with
        status := Function.update s.status w.vertexId .LSA_SPF_CANDIDATE
        candidate := CandidateQueue.push w s.candidate } ∧
      Same s { s with
        status := Function.update s.status w.vertexId .LSA_SPF_CANDIDATE
        candidate := CandidateQueue.push w s.candidate } := by
  have hinTree (id : Ipv4Address) : Function.update s.status w.vertexId .LSA_SPF_CANDIDATE id = .LSA_SPF_IN_SPFTREE ↔
      s.status id = .LSA_SPF_IN_SPFTREE := by
    by_cases heq : id = w.vertexId
    · rw [heq, Function.update_self, hnew]
      simp
    · rw [Function.update_of_ne heq]
  have hperm := push_perm w s.candidate
  have hids := hperm.map vertexId
  have hmem {x : SPFVertex} (hx : x ∈ CandidateQueue.push w s.candidate) : x = w ∨ x ∈ s.candidate :=
    mem_cons.mp (hperm.mem_iff.mp hx)
  refine ⟨⟨(hinTree root).mpr h.started, fun x hx => ?_, fun x hx => ?_, fun id => ?_, ?_, fun x hx p hp => ?_⟩,
    hinTree, rfl, rfl⟩
  · obtain rfl | hx := hmem hx
    · exact hbehind
    · exact h.behind x hx
  · obtain rfl | hx := hmem hx
    · exact hknown
    · exact h.known x hx
  · rw [hids.mem_iff, map_cons, mem_cons, ← h.marked id]
    by_cases heq : id = w.vertexId
    · rw [heq]
      simp
    · show Function.update s.status w.vertexId .LSA_SPF_CANDIDATE id = _ ↔ _
      rw [Function.update_of_ne heq]
      simp [heq]
  · refine hids.nodup_iff.mpr (nodup_cons.mpr ⟨fun hin => ?_, h.nodup⟩)
    rw [← h.marked, hnew] at hin
    cases hin
  · refine (hinTree p).mpr ?_
    obtain rfl | hx := hmem hx
    · exact hparents p hp
    · exact h.parents x hx p hp

/-- **A neighbour of a vertex of the tree** becomes or stays a candidate behind the same exit. -/
theorem examine_spec (h : Queued m root e s) (hv : Behind root e v) (htree : s.status v.vertexId = .LSA_SPF_IN_SPFTREE)
    (hknown : w_lsa ∈ m.m_lsdb.m_database) : ∃ s', m.examine root v w_lsa l s = some s' ∧ Queued m root e s' ∧ Same s s' := by
  have hparent (p : Ipv4Address) (hp : p ∈ [v.vertexId]) : s.status p = .LSA_SPF_IN_SPFTREE := by
    rw [mem_singleton.mp hp]
    exact htree
  have haway (hstatus : s.status w_lsa.linkStateId ≠ .LSA_SPF_IN_SPFTREE) : w_lsa.linkStateId ≠ root := by
    intro heq
    rw [heq] at hstatus
    exact hstatus h.started
  rw [examine]
  generalize distanceThrough v l = distance
  cases hstatus : s.status w_lsa.linkStateId with
  | LSA_SPF_IN_SPFTREE => exact ⟨s, rfl, h, Same.refl s⟩
  | LSA_SPF_NOT_EXPLORED =>
    have haway := haway (by rw [hstatus]; simp)
    dsimp only
    rw [hv.nexthop]
    let w : SPFVertex := { m_lsa := w_lsa, m_ecmpRootExits := [e], m_distanceFromRoot := distance, m_parents := [v.vertexId] }
    have hnew : s.status w.vertexId = .LSA_SPF_NOT_EXPLORED := hstatus
    exact ⟨_, rfl, h.push hnew (hv.child { m_lsa := w_lsa } haway distance) hknown hparent⟩
  | LSA_SPF_CANDIDATE =>
    have haway := haway (by rw [hstatus]; simp)
    obtain ⟨cw, hcw, hid⟩ := List.mem_map.mp ((h.marked _).mp hstatus)
    dsimp only
    cases hfind : CandidateQueue.find w_lsa.linkStateId s.candidate with
    | none => exact absurd (decide_eq_true hid) (find?_eq_none.mp hfind cw hcw)
    | some cw =>
      have hcw := mem_of_find?_eq_some hfind
      have hid : cw.vertexId = w_lsa.linkStateId := by simpa using find?_some hfind
      have hbehind := h.behind cw hcw
      rw [Option.bind_some]
      split
      · exact ⟨s, rfl, h, Same.refl s⟩
      · split
        · rw [hv.nexthop]
          refine ⟨_, rfl, h.replace (Perm.refl _) (hbehind.merge (hv.child { m_lsa := w_lsa } haway distance) ?_)
            (h.known cw hcw) ?_, fun _ => Iff.rfl, rfl, rfl⟩
          · exact fun hroot => hv.away (mem_singleton.mp hroot).symm
          · intro p hp
            have hp := mem_of_unique hp
            rw [mem_mergeSort, mem_append] at hp
            exact hp.elim (h.parents cw hcw p) (hparent p)
        · rw [hv.nexthop]
          exact ⟨_, rfl, h.replace (mergeSort_perm _ _) (hv.child cw hbehind.away distance) (h.known cw hcw) hparent,
            fun _ => Iff.rfl, rfl, rfl⟩

end

/-! ## A vertex and its neighbours -/

/-- Each link of a router leads to an LSA that leads back. The database may lack routers of a network: they are passed over. -/
def Symmetric (lsdb : GlobalRouteManagerLSDB) : Prop :=
  ∀ lsa ∈ lsdb.m_database, lsa.lsType = .RouterLSA → ∀ l ∈ lsa.linkRecords,
    match l.linkType with
    | .PointToPoint => ∃ w_lsa, lsdb.getLSA l.linkId = some w_lsa ∧ w_lsa.lsType = .RouterLSA ∧
        ∃ lr ∈ w_lsa.linkRecords, lr.linkType = .PointToPoint ∧ lr.linkId = lsa.linkStateId
    | .TransitNetwork => ∃ w_lsa, lsdb.getLSA l.linkId = some w_lsa ∧ w_lsa.lsType = .NetworkLSA ∧
        l.linkData ∈ w_lsa.attachedRouters
    | .StubNetwork => True
    | _ => False

theorem getLSA_mem {lsdb : GlobalRouteManagerLSDB} {addr : Ipv4Address} {lsa : GlobalRoutingLSA}
    (h : lsdb.getLSA addr = some lsa) :
    lsa ∈ lsdb.m_database ∧ lsa.linkStateId = addr :=
  ⟨mem_of_find?_eq_some h, by simpa using find?_some h⟩

section
variable {m : GlobalRouteManagerImpl} {root : Ipv4Address} {e : Ipv4Address × Int} {v w : SPFVertex} {s s' s'' : SPFState}

theorem Symmetric.leads (h : Symmetric m.m_lsdb) (hv : v.m_lsa ∈ m.m_lsdb.m_database) (htype : v.m_lsa.lsType = .RouterLSA)
    {l : LinkRecord} (hl : l ∈ v.m_lsa.linkRecords) : l.linkType = .StubNetwork ∨
      (l.linkType = .PointToPoint ∨ l.linkType = .TransitNetwork) ∧ ∃ w_lsa, m.m_lsdb.getLSA l.linkId = some w_lsa := by
  have hback := h v.m_lsa hv htype l hl
  cases hlink : l.linkType with
  | StubNetwork => exact .inl rfl
  | PointToPoint =>
    rw [hlink] at hback
    obtain ⟨w_lsa, hw, -⟩ := hback
    exact .inr ⟨.inl rfl, w_lsa, hw⟩
  | TransitNetwork =>
    rw [hlink] at hback
    obtain ⟨w_lsa, hw, -⟩ := hback
    exact .inr ⟨.inr rfl, w_lsa, hw⟩
  | Unknown =>
    rw [hlink] at hback
    exact hback.elim
  | VirtualLink =>
    rw [hlink] at hback
    exact hback.elim

theorem spfNextRouter_spec (hv : Behind root e v) : ∀ (records : List LinkRecord) (s : SPFState), Queued m root e s →
    s.status v.vertexId = .LSA_SPF_IN_SPFTREE → (∀ l ∈ records, l.linkType = .StubNetwork ∨
      (l.linkType = .PointToPoint ∨ l.linkType = .TransitNetwork) ∧ ∃ w_lsa, m.m_lsdb.getLSA l.linkId = some w_lsa) →
    ∃ s', m.spfNextRouter root v records s = some s' ∧ Queued m root e s' ∧ Same s s'
  | [], s, h, _, _ => ⟨s, rfl, h, Same.refl s⟩
  | l :: records, s, h, htree, hleads => by
    have hrest (l' : LinkRecord) (hl' : l' ∈ records) := hleads l' (mem_cons_of_mem l hl')
    rw [spfNextRouter]
    obtain hstub | ⟨hlink, w_lsa, hw⟩ := hleads l mem_cons_self
    · rw [if_pos hstub]
      exact spfNextRouter_spec hv records s h htree hrest
    · have hnot : l.linkType ≠ .StubNetwork := by
        intro hstub
        rw [hstub] at hlink
        simp at hlink
      obtain ⟨s₁, hexamine, h₁, hsame₁⟩ := examine_spec (l := some l) h hv htree (getLSA_mem hw).1
      obtain ⟨s', hnext, h', hsame'⟩ := spfNextRouter_spec hv records s₁ h₁ ((hsame₁.inTree _).mpr htree) hrest
      refine ⟨s', ?_, h', hsame₁.trans hsame'⟩
      rw [if_neg hnot, if_pos hlink, hw, Option.bind_some, hexamine, Option.bind_some]
      exact hnext

theorem spfNextNetwork_spec (hv : Behind root e v) : ∀ (routers : List Ipv4Address) (s : SPFState), Queued m root e s →
    s.status v.vertexId = .LSA_SPF_IN_SPFTREE →
    ∃ s', m.spfNextNetwork root v routers s = some s' ∧ Queued m root e s' ∧ Same s s'
  | [], s, h, _ => ⟨s, rfl, h, Same.refl s⟩
  | a :: routers, s, h, htree => by
    rw [spfNextNetwork]
    cases hfind : m.m_lsdb.getLSAByLinkData a with
    | none => exact spfNextNetwork_spec hv routers s h htree
    | some w_lsa =>
      obtain ⟨s₁, hexamine, h₁, hsame₁⟩ := examine_spec (l := none) h hv htree (mem_of_find?_eq_some hfind)
      obtain ⟨s', hnext, h', hsame'⟩ := spfNextNetwork_spec hv routers s₁ h₁ ((hsame₁.inTree _).mpr htree)
      refine ⟨s', ?_, h', hsame₁.trans hsame'⟩
      dsimp only
      rw [hexamine]
      exact hnext

/-- `SPFNext` returns, and leaves all candidates behind the exit. -/
theorem spfNext_spec (hsym : Symmetric m.m_lsdb) (h : Queued m root e s) (hv : Behind root e v)
    (htree : s.status v.vertexId = .LSA_SPF_IN_SPFTREE) (hknown : v.m_lsa ∈ m.m_lsdb.m_database) :
    ∃ s', m.spfNext root v s = some s' ∧ Queued m root e s' ∧ Same s s' := by
  rw [spfNext]
  cases htype : v.m_lsa.lsType with
  | RouterLSA => exact spfNextRouter_spec hv _ s h htree fun l hl => hsym.leads hknown htype hl
  | NetworkLSA => exact spfNextNetwork_spec hv _ s h htree

/-! ## The tree -/

def unexplored (m : GlobalRouteManagerImpl) (s : SPFState) : Nat :=
  m.m_lsdb.m_database.countP fun lsa => s.status lsa.linkStateId ≠ .LSA_SPF_IN_SPFTREE

def Through (e : Ipv4Address × Int) (r : Ipv4RoutingTableEntry) : Prop := r.gateway = e.1 ∧ (r.interface : Int) = e.2

/-- The tree after some vertices came into it, each with a rank above those of its parents. -/
structure Grown (m : GlobalRouteManagerImpl) (root : Ipv4Address) (e : Ipv4Address × Int) (s : SPFState) (n : Nat)
    (rank : Ipv4Address → Nat) : Prop where
  ranks : ∀ id, s.status id = .LSA_SPF_IN_SPFTREE → rank id ≤ n
  count : n + unexplored m s ≤ m.m_lsdb.m_database.length
  edges : ∀ id, ∀ c ∈ s.children id, Behind root e c ∧ s.status id = .LSA_SPF_IN_SPFTREE ∧
    s.status c.vertexId = .LSA_SPF_IN_SPFTREE ∧ rank id < rank c.vertexId
  routes : ∀ r ∈ s.routes, Through e r

theorem Same.unexplored_eq (h : Same s s') : unexplored m s' = unexplored m s := by
  refine countP_congr fun lsa _ => ?_
  simp [h.inTree]

variable {n : Nat} {rank : Ipv4Address → Nat}

theorem Grown.same (h : Grown m root e s n rank) (hsame : Same s s') :
    Grown m root e s' n rank := by
  refine ⟨fun id hid => h.ranks id ((hsame.inTree id).mp hid), ?_, fun id c hc => ?_, fun r hr => ?_⟩
  · rw [hsame.unexplored_eq]
    exact h.count
  · rw [hsame.children] at hc
    rw [hsame.inTree, hsame.inTree]
    exact h.edges id c hc
  · rw [hsame.routes] at hr
    exact h.routes r hr

theorem mem_addParent {c : SPFVertex} {id : Ipv4Address} {children : Ipv4Address → List SPFVertex}
    (hc : c ∈ spfVertexAddParent v children id) : c ∈ children id ∨ c = v ∧ id ∈ v.m_parents := by
  have hfold : ∀ (parents : List Ipv4Address) (children : Ipv4Address → List SPFVertex),
      c ∈ parents.foldl (fun children parent => Function.update children parent (children parent ++ [v])) children id →
        c ∈ children id ∨ c = v ∧ id ∈ parents := by
    intro parents
    induction parents with
    | nil => exact fun children hc => .inl hc
    | cons p parents ih =>
      intro children hc
      obtain hc | ⟨rfl, hid⟩ := ih _ hc
      · dsimp only at hc
        by_cases heq : id = p
        · rw [heq, Function.update_self] at hc
          obtain hc | hc := mem_append.mp hc
          · exact .inl (heq ▸ hc)
          · exact .inr ⟨mem_singleton.mp hc, heq ▸ mem_cons_self⟩
        · rw [Function.update_of_ne heq] at hc
          exact .inl hc
      · exact .inr ⟨rfl, mem_cons_of_mem p hid⟩
  exact hfold v.m_parents children hc

theorem Behind.routes (h : Behind root e v) {r : Ipv4RoutingTableEntry}
    (hr : r ∈ match v.m_lsa.lsType with
      | .RouterLSA => m.spfIntraAddRouter root v
      | .NetworkLSA => m.spfIntraAddTransit root v) : Through e r := by
  cases htype : v.m_lsa.lsType with
  | RouterLSA =>
    rw [htype] at hr
    dsimp only at hr
    rw [spfIntraAddRouter] at hr
    cases hnode : m.rootNode root with
    | none =>
      rw [hnode] at hr
      cases hr
    | some node =>
      rw [hnode] at hr
      obtain ⟨lr, -, hexit⟩ := mem_flatMap.mp hr
      rw [h.exits] at hexit
      exact mem_exitRoutes hexit
  | NetworkLSA =>
    rw [htype] at hr
    dsimp only at hr
    rw [spfIntraAddTransit] at hr
    obtain ⟨node, -, hexit⟩ := mem_flatMap.mp hr
    rw [h.exits] at hexit
    exact mem_exitRoutes hexit

theorem Behind.stubRoutes (h : Behind root e v) {r : Ipv4RoutingTableEntry} (hr : r ∈ m.stubRoutes root v) : Through e r := by
  rw [GlobalRouteManagerImpl.stubRoutes] at hr
  cases htype : v.m_lsa.lsType with
  | NetworkLSA =>
    rw [htype] at hr
    cases hr
  | RouterLSA =>
    rw [htype] at hr
    obtain ⟨l, -, hstub⟩ := mem_flatMap.mp hr
    rw [spfIntraAddStub, if_neg h.away] at hstub
    cases hnode : m.rootNode root with
    | none =>
      rw [hnode] at hstub
      cases hstub
    | some node =>
      rw [hnode] at hstub
      dsimp only at hstub
      rw [h.exits] at hstub
      exact mem_exitRoutes hstub

theorem unexplored_popped {rest : List SPFVertex} (hknown : w.m_lsa ∈ m.m_lsdb.m_database)
    (hstatus : s.status w.vertexId ≠ .LSA_SPF_IN_SPFTREE) : unexplored m (m.popped root w rest s) + 1 ≤ unexplored m s := by
  obtain ⟨before, after, hsplit⟩ := append_of_mem hknown
  have hfewer (lsas : List GlobalRoutingLSA) :
      lsas.countP (fun lsa => (m.popped root w rest s).status lsa.linkStateId ≠ .LSA_SPF_IN_SPFTREE) ≤
        lsas.countP fun lsa => s.status lsa.linkStateId ≠ .LSA_SPF_IN_SPFTREE := by
    refine countP_mono_left fun lsa _ hout => ?_
    have hout : Function.update s.status w.vertexId .LSA_SPF_IN_SPFTREE lsa.linkStateId ≠ .LSA_SPF_IN_SPFTREE :=
      of_decide_eq_true hout
    by_cases heq : lsa.linkStateId = w.vertexId
    · rw [heq, Function.update_self] at hout
      exact absurd rfl hout
    · rw [Function.update_of_ne heq] at hout
      exact decide_eq_true hout
  have hin : ¬decide ((m.popped root w rest s).status w.m_lsa.linkStateId ≠ .LSA_SPF_IN_SPFTREE) = true := by
    have hself : (m.popped root w rest s).status w.m_lsa.linkStateId = .LSA_SPF_IN_SPFTREE := Function.update_self _ _ _
    simpa using hself
  have hwas : decide (s.status w.m_lsa.linkStateId ≠ .LSA_SPF_IN_SPFTREE) = true := decide_eq_true hstatus
  rw [unexplored, unexplored, hsplit, countP_append, countP_append, countP_cons, countP_cons, if_neg hin,
    if_pos hwas, ← Nat.add_assoc]
  exact Nat.succ_le_succ (Nat.add_le_add (hfewer before) (hfewer after))

/-- **A candidate comes into the tree**, above its parents. -/
theorem popped_spec {rest : List SPFVertex} (h : Queued m root e s)
    (hgrown : Grown m root e s n rank) (hqueue : s.candidate = w :: rest) : Queued m root e (m.popped root w rest s) ∧
      Grown m root e (m.popped root w rest s) (n + 1) (Function.update rank w.vertexId (n + 1)) := by
  have hw : w ∈ s.candidate := by
    rw [hqueue]
    exact mem_cons_self
  have hrest {x : SPFVertex} (hx : x ∈ rest) : x ∈ s.candidate := by
    rw [hqueue]
    exact mem_cons_of_mem w hx
  have hnodup := h.nodup
  rw [hqueue, map_cons] at hnodup
  obtain ⟨hnot, hnodup⟩ := nodup_cons.mp hnodup
  have hstatus : s.status w.vertexId = .LSA_SPF_CANDIDATE := (h.marked _).mpr (List.mem_map_of_mem hw)
  have hout : s.status w.vertexId ≠ .LSA_SPF_IN_SPFTREE := by
    rw [hstatus]
    simp
  have hself : (m.popped root w rest s).status w.vertexId = .LSA_SPF_IN_SPFTREE := Function.update_self _ _ _
  have hother {id : Ipv4Address} (hne : id ≠ w.vertexId) : (m.popped root w rest s).status id = s.status id :=
    Function.update_of_ne hne _ _
  have hkeeps {id : Ipv4Address} (hid : s.status id = .LSA_SPF_IN_SPFTREE) :
      (m.popped root w rest s).status id = .LSA_SPF_IN_SPFTREE := by
    have hne : id ≠ w.vertexId := by
      intro heq
      rw [heq] at hid
      exact hout hid
    rw [hother hne]
    exact hid
  have hrank {id : Ipv4Address} (hid : s.status id = .LSA_SPF_IN_SPFTREE) :
      Function.update rank w.vertexId (n + 1) id = rank id := by
    refine Function.update_of_ne (fun heq => ?_) _ _
    rw [heq] at hid
    exact hout hid
  refine ⟨⟨hkeeps h.started, fun x hx => h.behind x (hrest hx), fun x hx => h.known x (hrest hx), fun id => ?_, hnodup,
    fun x hx p hp => hkeeps (h.parents x (hrest hx) p hp)⟩, fun id hid => ?_, ?_, fun id c hc => ?_, fun r hr => ?_⟩
  · by_cases heq : id = w.vertexId
    · rw [heq, hself]
      constructor
      · intro hcandidate
        cases hcandidate
      · intro hmem
        exact absurd hmem hnot
    · rw [hother heq, h.marked, hqueue, map_cons, mem_cons]
      exact ⟨fun hmem => hmem.resolve_left heq, .inr⟩
  · by_cases heq : id = w.vertexId
    · rw [heq, Function.update_self]
    · rw [hother heq] at hid
      rw [Function.update_of_ne heq]
      exact Nat.le_succ_of_le (hgrown.ranks id hid)
  · have hless := @unexplored_popped m root w s rest (h.known w hw) hout
    have hcount := hgrown.count
    omega
  · obtain hc | ⟨rfl, hid⟩ := mem_addParent hc
    · obtain ⟨hbehind, hid, hin, hlt⟩ := hgrown.edges id c hc
      rw [hrank hid, hrank hin]
      exact ⟨hbehind, hkeeps hid, hkeeps hin, hlt⟩
    · have hin := h.parents c hw id hid
      rw [hrank hin, Function.update_self]
      exact ⟨h.behind c hw, hkeeps hin, hself, Nat.lt_succ_of_le (hgrown.ranks id hin)⟩
  · obtain hr | hr := mem_append.mp hr
    · exact hgrown.routes r hr
    · exact (h.behind w hw).routes hr

/-- **The loop ends**, and whatever it adds to the tree is behind the exit. -/
theorem spfLoop_spec (hsym : Symmetric m.m_lsdb) : ∀ (fuel : Nat) {n : Nat} {rank : Ipv4Address → Nat}
    {v : SPFVertex} {s : SPFState},
    Queued m root e s → Grown m root e s n rank → Behind root e v → s.status v.vertexId = .LSA_SPF_IN_SPFTREE →
      v.m_lsa ∈ m.m_lsdb.m_database → unexplored m s < fuel →
      ∃ s' n' rank', m.spfLoop root fuel v s = some s' ∧ Queued m root e s' ∧ Grown m root e s' n' rank' ∧
        ∀ r ∈ s.routes, r ∈ s'.routes
  | fuel + 1, n, rank, v, s, h, hgrown, hv, htree, hknown, hfuel => by
    obtain ⟨s₁, hnext, h₁, hsame⟩ := spfNext_spec hsym h hv htree hknown
    have hgrown₁ := hgrown.same hsame
    rw [spfLoop, hnext, Option.bind_some]
    cases hqueue : s₁.candidate with
    | nil =>
      refine ⟨s₁, n, rank, rfl, h₁, hgrown₁, fun r hr => ?_⟩
      rw [hsame.routes]
      exact hr
    | cons w rest =>
      have hw : w ∈ s₁.candidate := by
        rw [hqueue]
        exact mem_cons_self
      have hcandidate := (h₁.marked w.vertexId).mpr (List.mem_map_of_mem hw)
      have hless := @unexplored_popped m root w s₁ rest (h₁.known w hw) (by rw [hcandidate]; simp)
      rw [hsame.unexplored_eq] at hless
      obtain ⟨h₂, hgrown₂⟩ := popped_spec h₁ hgrown₁ hqueue
      obtain ⟨s', n', rank', hloop, h', hgrown', hroutes⟩ := spfLoop_spec hsym fuel h₂ hgrown₂ (h₁.behind w hw)
        (Function.update_self _ _ _) (h₁.known w hw) (by omega)
      refine ⟨s', n', rank', hloop, h', hgrown', fun r hr => hroutes r (mem_append_left _ ?_)⟩
      rw [hsame.routes]
      exact hr

/-! ## The stub networks -/

theorem processChildren_spec {process : SPFVertex → List Ipv4Address → Option (List Ipv4Address × List Ipv4RoutingTableEntry)} :
    ∀ (children : List SPFVertex) (processed : List Ipv4Address),
      (∀ c ∈ children, ∀ processed, ∃ r, process c processed = some r ∧ ∀ route ∈ r.2, Through e route) →
      ∃ r, processChildren process children processed = some r ∧ ∀ route ∈ r.2, Through e route
  | [], processed, _ => ⟨(processed, []), rfl, fun _ hroute => by cases hroute⟩
  | c :: children, processed, hprocess => by
    have hrest (c' : SPFVertex) (hc' : c' ∈ children) := hprocess c' (mem_cons_of_mem c hc')
    rw [processChildren]
    split
    · exact processChildren_spec children processed hrest
    · obtain ⟨r, hr, hroutes⟩ := hprocess c mem_cons_self processed
      obtain ⟨r', hr', hroutes'⟩ := processChildren_spec children (c.vertexId :: r.1) hrest
      refine ⟨(r'.1, r.2 ++ r'.2), ?_, fun route hroute => ?_⟩
      · rw [hr, Option.bind_some]
        dsimp only
        rw [hr']
        rfl
      · exact (mem_append.mp hroute).elim (hroutes route) (hroutes' route)

/-- **The walk over the tree ends**, since the ranks grow. -/
theorem spfProcessStubs_spec (h : Grown m root e s n rank) : ∀ (fuel : Nat) (v : SPFVertex)
    (processed : List Ipv4Address), s.status v.vertexId = .LSA_SPF_IN_SPFTREE → (∀ r ∈ m.stubRoutes root v, Through e r) →
      n < fuel + rank v.vertexId →
      ∃ r, m.spfProcessStubs root s.children fuel v processed = some r ∧ ∀ route ∈ r.2, Through e route
  | 0, v, _, htree, _, hfuel => absurd (h.ranks _ htree) (by omega)
  | fuel + 1, v, processed, htree, hown, hfuel => by
    obtain ⟨r, hr, hroutes⟩ := processChildren_spec (s.children v.vertexId) processed fun c hc processed => by
      obtain ⟨hbehind, -, hin, hlt⟩ := h.edges v.vertexId c hc
      exact spfProcessStubs_spec h fuel c processed hin (fun r hr => hbehind.stubRoutes hr) (by omega)
    refine ⟨(r.1, m.stubRoutes root v ++ r.2), ?_, fun route hroute => ?_⟩
    · rw [spfProcessStubs, hr]
      rfl
    · exact (mem_append.mp hroute).elim (hown route) (hroutes route)

end

end GlobalRouteManagerImpl

end Ns3
