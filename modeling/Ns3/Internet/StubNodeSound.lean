import Ns3.Internet.SpfTree

/-!
# The shortcut for a stub node

The root has one link to another router. The calculation takes the next hop from
the first link record of that router whose identifier is the root's, whatever
its type is; the shortcut takes it from the first point-to-point one. Every
other vertex inherits the exit of that router (`SpfTree`), so the two agree
when these two records carry the same address.
-/

namespace Ns3

open List Option

namespace GlobalRouteManagerImpl

open SPFVertex CandidateQueue GlobalRouteManager

/-! ## Interfaces -/

def HasInterface (m : GlobalRouteManagerImpl) (root a : Ipv4Address) : Prop :=
  ∃ node, m.rootNode root = some node ∧ ∃ addresses ∈ node.m_interfaces, a ∈ addresses

theorem and_ones (a : Ipv4Address) : a &&& 4294967295 = a := by
  apply Fin.ext
  show (a.val &&& 2 ^ 32 - 1) % 4294967296 = a.val
  rw [Nat.and_two_pow_sub_one_eq_mod]
  omega

theorem getInterfaceForPrefix_spec (a : Ipv4Address) : ∀ (interfaces : List (List Ipv4Address)) (k : Nat),
    (getInterfaceForPrefix a 4294967295 k interfaces = -1 ∧ ∀ addresses ∈ interfaces, a ∉ addresses) ∨
      (∃ i : Nat, getInterfaceForPrefix a 4294967295 k interfaces = i ∧ i < k + interfaces.length) ∧
        ∃ addresses ∈ interfaces, a ∈ addresses
  | [], _ => by
    left
    refine ⟨rfl, fun addresses haddresses => ?_⟩
    cases haddresses
  | addresses :: interfaces, k => by
    have hany : (addresses.any fun local_ => local_ &&& 4294967295 = a &&& 4294967295) = true ↔ a ∈ addresses := by
      simp only [and_ones, List.any_eq_true, decide_eq_true_iff]
      exact ⟨fun ⟨_, hmem, heq⟩ => heq ▸ hmem, fun hmem => ⟨a, hmem, rfl⟩⟩
    rw [getInterfaceForPrefix]
    by_cases ha : a ∈ addresses
    · rw [if_pos (hany.mpr ha)]
      exact .inr ⟨⟨k, rfl, Nat.lt_add_of_pos_right (Nat.succ_pos _)⟩, addresses, mem_cons_self, ha⟩
    · rw [if_neg (mt hany.mp ha)]
      obtain ⟨hnone, hnot⟩ | ⟨⟨i, hi, hlt⟩, found, hmem, hin⟩ := getInterfaceForPrefix_spec a interfaces (k + 1)
      · left
        refine ⟨hnone, fun other hother => ?_⟩
        obtain rfl | hother := mem_cons.mp hother
        · exact ha
        · exact hnot other hother
      · right
        refine ⟨⟨i, hi, ?_⟩, found, mem_cons_of_mem _ hmem, hin⟩
        rw [length_cons]
        omega

section
variable {m : GlobalRouteManagerImpl} {root : Ipv4Address} {rlsa w_lsa : GlobalRoutingLSA} {l : LinkRecord}

theorem findOutgoingInterfaceId_spec (m : GlobalRouteManagerImpl) (root a : Ipv4Address) :
    (m.findOutgoingInterfaceId root a = -1 ∧ ¬HasInterface m root a) ∨
      ∃ i : Nat, m.findOutgoingInterfaceId root a = i ∧ i < 4294967296 ∧ HasInterface m root a := by
  rw [findOutgoingInterfaceId]
  cases hnode : m.rootNode root with
  | none =>
    left
    refine ⟨rfl, fun ⟨node, hsome, _⟩ => ?_⟩
    rw [hnode] at hsome
    cases hsome
  | some node =>
    obtain ⟨hnone, hnot⟩ | ⟨⟨i, hi, hlt⟩, hmem⟩ := getInterfaceForPrefix_spec a node.m_interfaces 0
    · left
      refine ⟨hnone, fun ⟨node', hsome, addresses, hmem, ha⟩ => ?_⟩
      rw [hnode] at hsome
      cases hsome
      exact hnot addresses hmem ha
    · have hfew := node.few
      exact .inr ⟨i, hi, by omega, node, hnode, hmem⟩

/-! ## The record that leads back -/

/-- The record that the calculation takes, of any type. -/
def anyBackLink (root : Ipv4Address) (w_lsa : GlobalRoutingLSA) : Option LinkRecord :=
  w_lsa.linkRecords.find? fun lr => lr.linkId = root

def pointToPointBackLink (root : Ipv4Address) (w_lsa : GlobalRoutingLSA) : Option LinkRecord :=
  w_lsa.linkRecords.find? fun lr => lr.linkType = .PointToPoint ∧ lr.linkId = root

/-- The two records carry the same address. -/
def BackLinksAgree (root : Ipv4Address) (w_lsa : GlobalRoutingLSA) : Prop :=
  (anyBackLink root w_lsa).map (fun lr => lr.linkData) = (pointToPointBackLink root w_lsa).map fun lr => lr.linkData

theorem nextLinkLoop_find (vertexId : Ipv4Address) : ∀ (records before : List GlobalRoutingLinkRecord),
    ((nextLinkLoop vertexId false true before.length records).bind fun i => (before ++ records)[i]?) =
      records.find? fun l => l.linkId = vertexId
  | [], _ => rfl
  | l :: records, before => by
    rw [nextLinkLoop]
    by_cases hl : l.linkId = vertexId
    · rw [if_pos hl]
      simp [hl]
    · have hrest := nextLinkLoop_find vertexId records (before ++ [l])
      rw [length_append, append_assoc] at hrest
      rw [if_neg hl, find?_cons]
      simpa [hl] using hrest

theorem spfGetNextLink_find (records : List GlobalRoutingLinkRecord) (vertexId : Ipv4Address) :
    ((spfGetNextLink records vertexId none).bind fun i => records[i]?) = records.find? fun l => l.linkId = vertexId :=
  nextLinkLoop_find vertexId records []

theorem rootExits_router {v w : SPFVertex} (htype : w.m_lsa.lsType = .RouterLSA) (l : LinkRecord) :
    m.rootExits root v w (some l) =
    (anyBackLink v.vertexId w.m_lsa).map fun lr => [(lr.linkData, m.findOutgoingInterfaceId root l.linkData)] := by
  have hfind := spfGetNextLink_find (w.m_lsa.linkRecords.map LinkRecord.toGlobalRoutingLinkRecord) v.vertexId
  rw [find?_map] at hfind
  rw [rootExits, htype]
  show ((spfGetNextLink _ v.vertexId none).bind fun i =>
    ((w.m_lsa.linkRecords.map LinkRecord.toGlobalRoutingLinkRecord)[i]?).bind fun linkRemote => _) = _
  rw [← bind_assoc, hfind, bind_map]
  exact (map_eq_bind).symm

/-! ## From the root -/

def rootVertex (rlsa : GlobalRoutingLSA) : SPFVertex := { m_lsa := rlsa, m_distanceFromRoot := 0 }

def started (root : Ipv4Address) : SPFState :=
  { status := Function.update (fun _ => .LSA_SPF_NOT_EXPLORED) root .LSA_SPF_IN_SPFTREE }

theorem started_root (root : Ipv4Address) : (started root).status root = .LSA_SPF_IN_SPFTREE := by
  simp [started]

theorem started_other {id : Ipv4Address} (hid : id ≠ root) : (started root).status id = .LSA_SPF_NOT_EXPLORED := by
  simp [started, hid]

theorem started_queued (m : GlobalRouteManagerImpl) (root : Ipv4Address) (e : Ipv4Address × Int) :
    Queued m root e (started root) := by
  refine ⟨started_root root, fun x hx => ?_, fun x hx => ?_, fun id => ⟨fun hcandidate => ?_, fun hmem => ?_⟩, nodup_nil,
    fun x hx => ?_⟩
  · cases hx
  · cases hx
  · by_cases heq : id = root
    · rw [heq, started_root] at hcandidate
      cases hcandidate
    · rw [started_other heq] at hcandidate
      cases hcandidate
  · cases hmem
  · cases hx

theorem started_grown (m : GlobalRouteManagerImpl) (root : Ipv4Address) (e : Ipv4Address × Int) :
    Grown m root e (started root) 0 fun _ => 0 := by
  refine ⟨fun _ _ => Nat.le_refl 0, ?_, fun id c hc => ?_, fun r hr => ?_⟩
  · rw [Nat.zero_add]
    exact countP_le_length
  · cases hc
  · cases hr

theorem spfNextRouter_filter (v : SPFVertex) : ∀ (records : List LinkRecord) (s : SPFState),
    (∀ l ∈ records, l.linkType = .StubNetwork ∨ isTransitLink l = true) →
      m.spfNextRouter root v records s = m.spfNextRouter root v (records.filter isTransitLink) s
  | [], _, _ => rfl
  | l :: records, s, hlinks => by
    have hrest (l' : LinkRecord) (hl' : l' ∈ records) := hlinks l' (mem_cons_of_mem l hl')
    rw [spfNextRouter]
    obtain hstub | htransit := hlinks l mem_cons_self
    · have hnot : ¬isTransitLink l = true := by simp [isTransitLink, hstub]
      rw [if_pos hstub, filter_cons_of_neg hnot]
      exact spfNextRouter_filter v records s hrest
    · rw [filter_cons_of_pos htransit, spfNextRouter]
      refine if_congr Iff.rfl ?_ (if_congr Iff.rfl ?_ rfl)
      · exact spfNextRouter_filter v records s hrest
      · refine Option.bind_congr fun w_lsa _ => Option.bind_congr fun s' _ => ?_
        exact spfNextRouter_filter v records s' hrest

/-- **The shortcut finds the link back.** -/
theorem checkForStubNode_spec (hsym : Symmetric m.m_lsdb) (hroot : m.m_lsdb.getLSA root = some rlsa)
    (hrouter : rlsa.lsType = .RouterLSA) (hone : rlsa.linkRecords.filter isTransitLink = [l]) (hp2p : l.linkType = .PointToPoint) :
    ∃ w_lsa lr, m.m_lsdb.getLSA l.linkId = some w_lsa ∧ w_lsa.lsType = .RouterLSA ∧ pointToPointBackLink root w_lsa = some lr ∧
      m.checkForStubNode root = some (true, some ⟨0, 0, lr.linkData, uint32 (m.findOutgoingInterfaceId root l.linkData)⟩) := by
  obtain ⟨hknown, hid⟩ := getLSA_mem hroot
  have hl : l ∈ rlsa.linkRecords := by
    have hmem : l ∈ rlsa.linkRecords.filter isTransitLink := by
      rw [hone]
      exact mem_singleton_self l
    exact (mem_filter.mp hmem).1
  have hback := hsym rlsa hknown hrouter l hl
  rw [hp2p] at hback
  obtain ⟨w_lsa, hw, htype, lr, hlr, hlrType, hlrId⟩ := hback
  cases hfind : pointToPointBackLink root w_lsa with
  | none =>
    have hnone := find?_eq_none.mp hfind lr hlr
    simp [hlrType, hlrId, hid] at hnone
  | some found =>
    refine ⟨w_lsa, found, hw, htype, hfind, ?_⟩
    rw [checkForStubNode, hroot, bind_some, hone]
    dsimp only
    rw [if_neg (by simp [hp2p]), hw, map_some, hid]
    rw [pointToPointBackLink] at hfind
    rw [hfind]

theorem stubRoutes_root (hid : rlsa.linkStateId = root) : m.stubRoutes root (rootVertex rlsa) = [] := by
  have hself : (rootVertex rlsa).vertexId = root := hid
  rw [stubRoutes]
  split
  · refine flatMap_eq_nil_iff.mpr fun l _ => ?_
    rw [spfIntraAddStub, if_pos hself]
  · rfl

theorem spfNext_root (hsym : Symmetric m.m_lsdb) (hroot : m.m_lsdb.getLSA root = some rlsa) (hrouter : rlsa.lsType = .RouterLSA)
    (hone : rlsa.linkRecords.filter isTransitLink = [l]) (hp2p : l.linkType = .PointToPoint)
    (hw : m.m_lsdb.getLSA l.linkId = some w_lsa) :
    m.spfNext root (rootVertex rlsa) (started root) = m.examine root (rootVertex rlsa) w_lsa (some l) (started root) := by
  have hlinks (l' : LinkRecord) (hl' : l' ∈ rlsa.linkRecords) : l'.linkType = .StubNetwork ∨ isTransitLink l' = true := by
    obtain hstub | ⟨hlink | hlink, -⟩ := hsym.leads (v := rootVertex rlsa) (getLSA_mem hroot).1 hrouter hl'
    · exact .inl hstub
    · exact .inr (by simp [isTransitLink, hlink])
    · exact .inr (by simp [isTransitLink, hlink])
  have hnot : l.linkType ≠ .StubNetwork := by simp [hp2p]
  have htype : (rootVertex rlsa).m_lsa.lsType = .RouterLSA := hrouter
  rw [spfNext, htype]
  dsimp only
  show m.spfNextRouter root (rootVertex rlsa) rlsa.linkRecords _ = _
  rw [spfNextRouter_filter _ _ _ hlinks, hone, spfNextRouter, if_neg hnot, if_pos (.inl hp2p), hw, bind_some]
  exact bind_fun_some _

theorem spfRoutes_self (hsym : Symmetric m.m_lsdb) (hroot : m.m_lsdb.getLSA root = some rlsa) (hrouter : rlsa.lsType = .RouterLSA)
    (hone : rlsa.linkRecords.filter isTransitLink = [l]) (hp2p : l.linkType = .PointToPoint) (hself : l.linkId = root) :
    m.spfRoutes root = some [] := by
  have hid := (getLSA_mem hroot).2
  have hw : m.m_lsdb.getLSA l.linkId = some rlsa := by
    rw [hself]
    exact hroot
  have hstatus : (started root).status rlsa.linkStateId = .LSA_SPF_IN_SPFTREE := by
    rw [hid]
    exact started_root root
  have hnext : m.spfNext root (rootVertex rlsa) (started root) = some (started root) := by
    rw [spfNext_root hsym hroot hrouter hone hp2p hw, examine]
    simp only [hstatus]
  have hloop : m.spfLoop root (m.m_lsdb.m_database.length + 1) (rootVertex rlsa) (started root) = some (started root) := by
    rw [spfLoop, hnext]
    rfl
  have hstubs : m.spfProcessStubs root (started root).children (m.m_lsdb.m_database.length + 1) (rootVertex rlsa) [] =
      some ([], []) := by
    rw [spfProcessStubs, stubRoutes_root hid]
    rfl
  rw [spfRoutes, hroot, bind_some]
  show (m.spfLoop root _ (rootVertex rlsa) (started root)).bind _ = _
  rw [hloop, bind_some]
  show (m.spfProcessStubs root _ _ (rootVertex rlsa) []).map _ = _
  rw [hstubs]
  rfl

/-- **Every route** of the calculation goes through the exit to the neighbour, and the routes to the neighbour are among them. -/
theorem spfRoutes_through {lr : LinkRecord} (hsym : Symmetric m.m_lsdb) (hroot : m.m_lsdb.getLSA root = some rlsa)
    (hrouter : rlsa.lsType = .RouterLSA) (hone : rlsa.linkRecords.filter isTransitLink = [l]) (hp2p : l.linkType = .PointToPoint)
    (hw : m.m_lsdb.getLSA l.linkId = some w_lsa) (htype : w_lsa.lsType = .RouterLSA) (haway : l.linkId ≠ root)
    (hlr : anyBackLink root w_lsa = some lr) : ∃ routes, m.spfRoutes root = some routes ∧
      (∀ r ∈ routes, Through (lr.linkData, m.findOutgoingInterfaceId root l.linkData) r) ∧
      ∀ v : SPFVertex, v.m_lsa = w_lsa → v.m_ecmpRootExits = [(lr.linkData, m.findOutgoingInterfaceId root l.linkData)] →
        ∀ r ∈ m.spfIntraAddRouter root v, r ∈ routes := by
  obtain ⟨hknown, hid⟩ := getLSA_mem hroot
  obtain ⟨hknown', hid'⟩ := getLSA_mem hw
  have hwaway : w_lsa.linkStateId ≠ root := by
    rw [hid']
    exact haway
  let e := (lr.linkData, m.findOutgoingInterfaceId root l.linkData)
  let w : SPFVertex :=
    { m_lsa := w_lsa
      m_distanceFromRoot := distanceThrough (rootVertex rlsa) (some l)
      m_ecmpRootExits := [e]
      m_parents := [root] }
  have hw_behind : Behind root e w := by
    refine ⟨rfl, hwaway, fun hnetwork => ?_⟩
    have hnetwork : w_lsa.lsType = .NetworkLSA := hnetwork
    rw [htype] at hnetwork
    cases hnetwork
  have hnew : (started root).status w.vertexId = .LSA_SPF_NOT_EXPLORED := started_other hwaway
  obtain ⟨h₁, hsame⟩ := (started_queued m root e).push hnew hw_behind hknown' fun p hp => by
    rw [mem_singleton.mp hp]
    exact started_root root
  have hexamine : m.examine root (rootVertex rlsa) w_lsa (some l) (started root) = some
      { started root with
        status := Function.update (started root).status w.vertexId .LSA_SPF_CANDIDATE
        candidate := CandidateQueue.push w (started root).candidate } := by
    have hnexthop : m.spfNexthopCalculation root (rootVertex rlsa) { m_lsa := w_lsa } (some l)
        (distanceThrough (rootVertex rlsa) (some l)) = some w := by
      have hself : (rootVertex rlsa).vertexId = root := hid
      have hexits := @rootExits_router m root (rootVertex rlsa) { m_lsa := w_lsa } htype l
      rw [hself, hlr] at hexits
      rw [spfNexthopCalculation, if_pos hself, hexits, hself]
      rfl
    have hnew : (started root).status w_lsa.linkStateId = .LSA_SPF_NOT_EXPLORED := hnew
    rw [examine]
    simp only [hnew, hnexthop]
    rfl
  obtain ⟨h₂, hgrown₂⟩ := popped_spec h₁ ((started_grown m root e).same hsame) rfl
  have hless := @unexplored_popped m root w _ [] hknown' (by rw [(h₁.marked w.vertexId).mpr mem_cons_self]; simp)
  have hcount := hgrown₂.count
  obtain ⟨s', n', rank', hloop, h', hgrown', hroutes⟩ := spfLoop_spec hsym m.m_lsdb.m_database.length h₂ hgrown₂ hw_behind
    (Function.update_self _ _ _) hknown' (by omega)
  have hfull : m.spfLoop root (m.m_lsdb.m_database.length + 1) (rootVertex rlsa) (started root) = some s' := by
    rw [spfLoop, spfNext_root hsym hroot hrouter hone hp2p hw, hexamine]
    exact hloop
  obtain ⟨stubs, hstubs, hstubRoutes⟩ := spfProcessStubs_spec hgrown' (m.m_lsdb.m_database.length + 1) (rootVertex rlsa) []
    (by rw [rootVertex, vertexId, hid]; exact h'.started) (fun r hr => by rw [stubRoutes_root hid] at hr; cases hr)
    (by have hcount' := hgrown'.count; omega)
  refine ⟨s'.routes ++ stubs.2, ?_, fun r hr => ?_, fun v hv hexits r hr => ?_⟩
  · rw [spfRoutes, hroot, bind_some]
    show (m.spfLoop root _ (rootVertex rlsa) (started root)).bind _ = _
    rw [hfull, bind_some]
    show (m.spfProcessStubs root _ _ (rootVertex rlsa) []).map _ = _
    rw [hstubs]
    rfl
  · exact (mem_append.mp hr).elim (hgrown'.routes r) (hstubRoutes r)
  · refine mem_append_left _ (hroutes r (mem_append_right _ ?_))
    have hsame : m.spfIntraAddRouter root v = m.spfIntraAddRouter root w := by
      rw [spfIntraAddRouter, spfIntraAddRouter, hv, hexits]
    rw [show w.m_lsa.lsType = .RouterLSA from htype, ← hsame]
    exact hr

theorem anyBackLink_isSome {found : LinkRecord} (h : pointToPointBackLink root w_lsa = some found) :
    ∃ lr, anyBackLink root w_lsa = some lr := by
  cases hany : anyBackLink root w_lsa with
  | none =>
    have hnone := find?_eq_none.mp hany found (mem_of_find?_eq_some h)
    have hboth := find?_some h
    simp only [decide_eq_true_iff] at hboth
    exact absurd (decide_eq_true hboth.2) hnone
  | some lr => exact ⟨lr, rfl⟩

theorem exists_hostRoute {v : SPFVertex} {found : LinkRecord} {nextHop : Ipv4Address} {i : Nat}
    (hfound : pointToPointBackLink root v.m_lsa = some found) (hexits : v.m_ecmpRootExits = [(nextHop, (i : Int))])
    {a : Ipv4Address} (hinterface : HasInterface m root a) : ∃ r ∈ m.spfIntraAddRouter root v, r.gateway = nextHop := by
  obtain ⟨node, hnode, -⟩ := hinterface
  have hboth := find?_some hfound
  simp only [decide_eq_true_iff] at hboth
  refine ⟨⟨found.linkData, 4294967295, nextHop, i⟩, ?_, rfl⟩
  rw [spfIntraAddRouter, hnode]
  refine mem_flatMap.mpr ⟨found, mem_filter.mpr ⟨mem_of_find?_eq_some hfound, decide_eq_true hboth.1⟩, ?_⟩
  rw [hexits]
  simp [exitRoutes]

end

/-- The shortcut is taken, and its default route has the next hop and the interface of every
route that the calculation to its end adds. -/
def ShortcutAgrees (m : GlobalRouteManagerImpl) (root : Ipv4Address) : Prop :=
  ∃ d, m.checkForStubNode root = some (true, some d) ∧ ∃ routes, m.spfRoutes root = some routes ∧
    ∀ r ∈ routes, r.gateway = d.gateway ∧ r.interface = d.interface

/-- **The shortcut agrees with the calculation** just when the link leads to the root itself, no
route is added since the root has no interface for it, or the records that lead back agree. -/
theorem shortcut_iff (m : GlobalRouteManagerImpl) {root : Ipv4Address} {rlsa : GlobalRoutingLSA} {l : LinkRecord}
    (hsym : Symmetric m.m_lsdb) (hroot : m.m_lsdb.getLSA root = some rlsa) (hrouter : rlsa.lsType = .RouterLSA)
    (hone : rlsa.linkRecords.filter isTransitLink = [l]) (hp2p : l.linkType = .PointToPoint) :
    ShortcutAgrees m root ↔ l.linkId = root ∨ ¬HasInterface m root l.linkData ∨
      ∀ w_lsa, m.m_lsdb.getLSA l.linkId = some w_lsa → BackLinksAgree root w_lsa := by
  obtain ⟨w_lsa, found, hw, htype, hfound, hstub⟩ := checkForStubNode_spec hsym hroot hrouter hone hp2p
  by_cases hself : l.linkId = root
  · refine ⟨fun _ => .inl hself, fun _ => ⟨_, hstub, [], spfRoutes_self hsym hroot hrouter hone hp2p hself, fun r hr => ?_⟩⟩
    cases hr
  · obtain ⟨lr, hlr⟩ := anyBackLink_isSome hfound
    obtain ⟨routes, hroutes, hthrough, hhost⟩ := spfRoutes_through hsym hroot hrouter hone hp2p hw htype hself hlr
    have hagree : BackLinksAgree root w_lsa ↔ lr.linkData = found.linkData := by
      rw [BackLinksAgree, hlr, hfound, map_some, map_some, Option.some.injEq]
    obtain ⟨hnone, hnot⟩ | ⟨i, hi, hlt, hinterface⟩ := findOutgoingInterfaceId_spec m root l.linkData
    · refine ⟨fun _ => .inr (.inl hnot), fun _ => ⟨_, hstub, routes, hroutes, fun r hr => ?_⟩⟩
      have hexit := (hthrough r hr).2
      rw [hnone] at hexit
      omega
    · constructor
      · intro ⟨d, hd, routes', hroutes', hsame⟩
        rw [hstub] at hd
        cases hd
        rw [hroutes] at hroutes'
        cases hroutes'
        right
        right
        intro w_lsa' hw'
        rw [hw] at hw'
        cases hw'
        let w : SPFVertex := { m_lsa := w_lsa, m_ecmpRootExits := [(lr.linkData, (i : Int))] }
        obtain ⟨r, hr, hgateway⟩ := @exists_hostRoute m root w found lr.linkData i hfound rfl l.linkData hinterface
        have hmem := hhost w rfl (by rw [hi]) r hr
        rw [hagree, ← hgateway]
        exact (hsame r hmem).1
      · intro hcondition
        have hdata := hagree.mp (((hcondition.resolve_left hself).resolve_left fun hnot => hnot hinterface) w_lsa hw)
        refine ⟨_, hstub, routes, hroutes, fun r hr => ?_⟩
        obtain ⟨hgateway, hexit⟩ := hthrough r hr
        rw [hi] at hexit
        refine ⟨hgateway.trans hdata, ?_⟩
        rw [hi]
        show r.interface = uint32 (i : Nat)
        rw [uint32]
        omega

/-! ## Two routers -/

/-- The root and its neighbour, with some records of the neighbour before its link back. -/
def pairOf (before : List LinkRecord) : GlobalRouteManagerImpl where
  m_lsdb :=
    { m_database :=
        [{ lsType := .RouterLSA, linkStateId := 0, linkRecords := [{ linkId := 1, linkData := 10, linkType := .PointToPoint }] },
          { lsType := .RouterLSA, linkStateId := 1,
            linkRecords := before ++ [{ linkId := 0, linkData := 11, linkType := .PointToPoint }] }]
      increasing := by simp }
  nodes := [⟨some 0, [[127], [10]], by decide⟩]

theorem pairOf_symmetric {before : List LinkRecord} (hbefore : ∀ l ∈ before, l.linkType = .StubNetwork) :
    Symmetric (pairOf before).m_lsdb := by
  intro lsa hlsa _ l hl
  obtain rfl | hlsa := mem_cons.mp hlsa
  · obtain rfl := mem_singleton.mp hl
    exact ⟨_, rfl, rfl, { linkId := 0, linkData := 11, linkType := .PointToPoint }, by simp, rfl, rfl⟩
  · obtain rfl := mem_singleton.mp hlsa
    obtain hl | hl := mem_append.mp hl
    · rw [hbefore l hl]
      trivial
    · obtain rfl := mem_singleton.mp hl
      exact ⟨_, rfl, rfl, { linkId := 1, linkData := 10, linkType := .PointToPoint }, mem_singleton_self _, rfl, rfl⟩

theorem pair_agrees : ShortcutAgrees (pairOf []) 0 := by
  refine (shortcut_iff (pairOf []) (pairOf_symmetric fun l hl => ?_) rfl rfl rfl rfl).mpr (.inr (.inr fun w_lsa hw => ?_))
  · cases hl
  · cases hw
    rfl

/-- A stub network whose number is the identifier of the root: its mask becomes the next hop. -/
theorem stubNetwork_disagrees : Symmetric (pairOf [{ linkId := 0, linkData := 4294967040, linkType := .StubNetwork }]).m_lsdb ∧
    ¬ShortcutAgrees (pairOf [{ linkId := 0, linkData := 4294967040, linkType := .StubNetwork }]) 0 := by
  refine ⟨pairOf_symmetric fun l hl => ?_, fun ⟨d, hd, routes, hroutes, hall⟩ => ?_⟩
  · rw [mem_singleton.mp hl]
  · have hdefault : (pairOf [{ linkId := 0, linkData := 4294967040, linkType := .StubNetwork }]).checkForStubNode 0 =
        some (true, some ⟨0, 0, 11, 1⟩) := by decide
    have hcalculated : (pairOf [{ linkId := 0, linkData := 4294967040, linkType := .StubNetwork }]).spfRoutes 0 =
        some [⟨11, 4294967295, 4294967040, 1⟩, ⟨0, 4294967040, 4294967040, 1⟩] := by decide
    rw [hdefault] at hd
    rw [hcalculated] at hroutes
    cases hd
    cases hroutes
    have hgateway := (hall _ mem_cons_self).1
    revert hgateway
    decide

end GlobalRouteManagerImpl

end Ns3
