import Ns3.Olsr.HnaRoutes

/-!
# The HNA routes that are left and added

The loop that clears the table counts up to a size that goes down, and leaves
the last half of the routes. Of two routes to a network only the first is
looked at, so all that happens to a network is seen in the list of its routes.
-/

namespace Ns3

open List

namespace HnaNode

/-! ## The routes to one network -/

def routesTo (network : HnaAssociation) (routes : List NetworkRoute) : List NetworkRoute :=
  routes.filter fun r => r.dest = network

/-- The entries of the gateways that announce a network, in the order of the associations. -/
def announcers (n : HnaNode) (m_table : RoutingTable) (network : HnaAssociation) : List RoutingTableEntry :=
  n.associationSet.filterMap fun tuple => if tuple.network = network then m_table.find tuple.gatewayAddr else none

def addGateway (network : HnaAssociation) : List NetworkRoute → RoutingTableEntry → List NetworkRoute
  | [], e => [routeTo network e]
  | r :: routes, e => if e.distance < r.metric then addNetworkRouteTo routes (routeTo network e) else r :: routes

variable {n : HnaNode} {m_table : RoutingTable} {network : HnaAssociation} {routes : List NetworkRoute} {r : NetworkRoute}
  {e : RoutingTableEntry}

theorem clearFrom_eq (i : Nat) : ∀ routes : List NetworkRoute, clearFrom i routes = routes.drop ((routes.length + 1 - i) / 2)
  | [] => by simp [clearFrom]
  | r :: routes => by
    unfold clearFrom
    by_cases hlt : i < (r :: routes).length
    · have hlength : (r :: routes).length = routes.length + 1 := rfl
      have hhalf : ((r :: routes).length + 1 - i) / 2 = (routes.length + 1 - (i + 1)) / 2 + 1 := by omega
      rw [if_pos hlt, clearFrom_eq (i + 1) routes, hhalf, drop_succ_cons]
    · have hzero : ((r :: routes).length + 1 - i) / 2 = 0 := by omega
      rw [if_neg hlt, hzero, drop_zero]

theorem dest_routeTo (network : HnaAssociation) (e : RoutingTableEntry) : (routeTo network e).dest = network := rfl

theorem mem_routesTo : r ∈ routesTo network routes ↔ r ∈ routes ∧ r.dest = network := by
  simp [routesTo]

theorem routesTo_append (network : HnaAssociation) (routes routes' : List NetworkRoute) :
    routesTo network (routes ++ routes') = routesTo network routes ++ routesTo network routes' :=
  filter_append ..

theorem routesTo_addNetworkRouteTo (routes : List NetworkRoute) (hr : r.dest = network) :
    routesTo network (addNetworkRouteTo routes r) = addNetworkRouteTo (routesTo network routes) r := by
  unfold addNetworkRouteTo
  have hmem : r ∈ routesTo network routes ↔ r ∈ routes := by simp [mem_routesTo, hr]
  by_cases hin : r ∈ routes
  · rw [if_pos hin, if_pos (hmem.mpr hin)]
  · rw [if_neg hin, if_neg (fun h => hin (hmem.mp h)), routesTo_append]
    simp [routesTo, hr]

theorem routesTo_addNetworkRouteTo_ne (routes : List NetworkRoute) (hr : r.dest ≠ network) :
    routesTo network (addNetworkRouteTo routes r) = routesTo network routes := by
  unfold addNetworkRouteTo
  split
  · rfl
  · rw [routesTo_append]
    simp [routesTo, hr]

theorem split_routes (network : HnaAssociation) : ∀ routes : List NetworkRoute,
    (routes.findIdx? (fun route => route.dest = network) = none ∧ routesTo network routes = []) ∨
      ∃ i r, routes.findIdx? (fun route => route.dest = network) = some i ∧ routes[i]? = some r ∧ r.dest = network ∧
        routesTo network routes = r :: routesTo network (routes.eraseIdx i) ∧
        ∀ other, other ≠ network → routesTo other (routes.eraseIdx i) = routesTo other routes
  | [] => .inl ⟨rfl, rfl⟩
  | r :: routes => by
    by_cases hr : r.dest = network
    · refine .inr ⟨0, r, by simp [List.findIdx?_cons, hr], rfl, hr, by simp [routesTo, hr], ?_⟩
      intro other hother
      simp [routesTo, hr, hother.symm]
    · rcases split_routes network routes with ⟨hnone, hempty⟩ | ⟨i, r', hsome, hget, hdest, hfirst, hothers⟩
      · refine .inl ⟨by simp [List.findIdx?_cons, hr, hnone], ?_⟩
        simpa [routesTo, hr] using hempty
      · refine .inr ⟨i + 1, r', by simp [List.findIdx?_cons, hr, hsome], hget, hdest, ?_, ?_⟩
        · simpa [routesTo, hr] using hfirst
        · intro other hother
          have hrest := hothers other hother
          simp only [routesTo] at hrest ⊢
          rw [eraseIdx_cons_succ, filter_cons, filter_cons, hrest]

theorem routesTo_addAssociation {tuple : AssociationTuple} (hlocal : tuple.network ∉ n.associations) :
    routesTo tuple.network (n.addAssociation m_table routes tuple) =
      (m_table.find tuple.gatewayAddr).toList.foldl (addGateway tuple.network) (routesTo tuple.network routes) := by
  unfold addAssociation
  rw [if_neg hlocal]
  cases m_table.find tuple.gatewayAddr with
  | none => split <;> simp_all
  | some e =>
    rcases split_routes tuple.network routes with ⟨hnone, hempty⟩ | ⟨i, r, hsome, hget, -, hfirst, -⟩
    · rw [hnone, hempty]
      dsimp only
      rw [routesTo_addNetworkRouteTo routes (dest_routeTo tuple.network e), hempty]
      rfl
    · rw [hsome]
      dsimp only
      rw [hget, hfirst]
      simp only [Option.map_some, Option.getD_some, Option.toList_some, foldl_cons, foldl_nil, addGateway]
      split
      · exact routesTo_addNetworkRouteTo _ (dest_routeTo tuple.network e)
      · exact hfirst

theorem routesTo_addAssociation_ne {tuple : AssociationTuple} (hne : tuple.network ∈ n.associations ∨ tuple.network ≠ network) :
    routesTo network (n.addAssociation m_table routes tuple) = routesTo network routes := by
  unfold addAssociation
  split
  · rfl
  · rename_i hlocal
    have hother : tuple.network ≠ network := hne.resolve_left hlocal
    cases m_table.find tuple.gatewayAddr with
    | none => split <;> simp_all
    | some e =>
      have hdest : (routeTo tuple.network e).dest ≠ network := hother
      rcases split_routes tuple.network routes with ⟨hnone, -⟩ | ⟨i, r, hsome, -, -, -, hothers⟩
      · rw [hnone]
        exact routesTo_addNetworkRouteTo_ne routes hdest
      · rw [hsome]
        dsimp only
        split
        · rw [routesTo_addNetworkRouteTo_ne _ hdest, hothers network hother.symm]
        · rfl

/-- The gateways that count for a network: none where the node announces it itself. -/
def gateways (n : HnaNode) (m_table : RoutingTable) (network : HnaAssociation) : List RoutingTableEntry :=
  if network ∈ n.associations then [] else n.announcers m_table network

theorem routesTo_hnaRoutes (n : HnaNode) (m_table : RoutingTable) (network : HnaAssociation) :
    routesTo network (n.hnaRoutes m_table) =
      (n.gateways m_table network).foldl (addGateway network) (routesTo network (clearFrom 0 n.m_hnaRoutingTable)) := by
  have hrun : ∀ (tuples : List AssociationTuple) (routes : List NetworkRoute),
      routesTo network (tuples.foldl (n.addAssociation m_table) routes) =
        (if network ∈ n.associations then [] else tuples.filterMap fun tuple =>
          if tuple.network = network then m_table.find tuple.gatewayAddr else none).foldl (addGateway network)
            (routesTo network routes) := by
    intro tuples
    induction tuples with
    | nil =>
      intro routes
      simp
    | cons tuple tuples ih =>
      intro routes
      rw [foldl_cons, ih]
      by_cases hsame : tuple.network = network
      · subst hsame
        by_cases hlocal : tuple.network ∈ n.associations
        · rw [if_pos hlocal, if_pos hlocal, routesTo_addAssociation_ne (.inl hlocal)]
        · rw [if_neg hlocal, if_neg hlocal, routesTo_addAssociation hlocal, filterMap_cons, if_pos rfl]
          cases m_table.find tuple.gatewayAddr <;> rfl
      · rw [routesTo_addAssociation_ne (.inr hsame), filterMap_cons, if_neg hsame]
  exact hrun n.associationSet _

/-! ## One route that was left -/

def Nearest (gateways : List RoutingTableEntry) (e : RoutingTableEntry) : Prop :=
  e ∈ gateways ∧ ∀ e' ∈ gateways, e.distance ≤ e'.distance

theorem foldl_addGateway (network : HnaAssociation) : ∀ (gateways : List RoutingTableEntry) (r : NetworkRoute),
    ∃ r', gateways.foldl (addGateway network) [r] = [r'] ∧ (r' = r ∧ (∀ e ∈ gateways, r.metric ≤ e.distance) ∨
        ∃ e, r' = routeTo network e ∧ e.distance < r.metric ∧ Nearest gateways e)
  | [], r => ⟨r, rfl, .inl ⟨rfl, fun _ h => absurd h List.not_mem_nil⟩⟩
  | e :: gateways, r => by
    rw [List.foldl_cons]
    by_cases hlt : e.distance < r.metric
    · have hstep : addGateway network [r] e = [routeTo network e] := by simp [addGateway, hlt, addNetworkRouteTo]
      rw [hstep]
      obtain ⟨r', hfold, ⟨rfl, hle⟩ | ⟨e', rfl, hnear, hmem, hle⟩⟩ := foldl_addGateway network gateways (routeTo network e)
      · refine ⟨_, hfold, .inr ⟨e, rfl, hlt, mem_cons_self, ?_⟩⟩
        exact forall_mem_cons.mpr ⟨le_refl _, hle⟩
      · have hnear' : e'.distance < e.distance := hnear
        refine ⟨_, hfold, .inr ⟨e', rfl, hnear'.trans hlt, mem_cons_of_mem _ hmem, ?_⟩⟩
        exact forall_mem_cons.mpr ⟨hnear'.le, hle⟩
    · have hstep : addGateway network [r] e = [r] := by simp [addGateway, hlt]
      rw [hstep]
      obtain ⟨r', hfold, ⟨rfl, hle⟩ | ⟨e', rfl, hnear, hmem, hle⟩⟩ := foldl_addGateway network gateways r
      · exact ⟨_, hfold, .inl ⟨rfl, forall_mem_cons.mpr ⟨not_lt.mp hlt, hle⟩⟩⟩
      · refine ⟨_, hfold, .inr ⟨e', rfl, hnear, mem_cons_of_mem _ hmem, ?_⟩⟩
        exact forall_mem_cons.mpr ⟨hnear.le.trans (not_lt.mp hlt), hle⟩

/-- What the table should hold for a network. -/
def RoutedTo (gateways : List RoutingTableEntry) (network : HnaAssociation) (routes : List NetworkRoute) : Prop :=
  (gateways = [] ∧ routesTo network routes = []) ∨ ∃ e, Nearest gateways e ∧ routesTo network routes = [routeTo network e]

/-- A route that does no harm where it is left: a gateway is nearer, or it leads to a nearest one. -/
def Harmless (gateways : List RoutingTableEntry) (r : NetworkRoute) : Prop :=
  (∃ e ∈ gateways, e.distance < r.metric) ∨ ∃ e, Nearest gateways e ∧ r = routeTo r.dest e

theorem routedTo_of_none {gateways : List RoutingTableEntry} (h : routesTo network routes = gateways.foldl (addGateway network) []) :
    RoutedTo gateways network routes := by
  cases gateways with
  | nil => exact .inl ⟨rfl, h⟩
  | cons e gateways =>
    rw [foldl_cons] at h
    obtain ⟨r', hfold, ⟨rfl, hle⟩ | ⟨e', rfl, hnear, hmem, hle⟩⟩ := foldl_addGateway network gateways (routeTo network e)
    · exact .inr ⟨e, ⟨mem_cons_self, forall_mem_cons.mpr ⟨le_refl _, hle⟩⟩, h.trans hfold⟩
    · have hnear' : e'.distance < e.distance := hnear
      exact .inr ⟨e', ⟨mem_cons_of_mem _ hmem, forall_mem_cons.mpr ⟨hnear'.le, hle⟩⟩, h.trans hfold⟩

theorem routedTo_of_single {gateways : List RoutingTableEntry} (hr : r.dest = network)
    (h : routesTo network routes = gateways.foldl (addGateway network) [r]) :
    RoutedTo gateways network routes ↔ Harmless gateways r := by
  obtain ⟨r', hfold, hcases⟩ := foldl_addGateway network gateways r
  rw [hfold] at h
  constructor
  · rintro (⟨-, hempty⟩ | ⟨e, hnearest, hone⟩)
    · rw [h] at hempty
      cases hempty
    · rw [h] at hone
      obtain rfl := (List.cons.inj hone).1
      rcases hcases with ⟨rfl, -⟩ | ⟨e', -, hlt, hnearest', -⟩
      · exact .inr ⟨e, hnearest, rfl⟩
      · exact .inl ⟨e', hnearest', hlt⟩
  · intro hharmless
    rcases hcases with ⟨rfl, hle⟩ | ⟨e, rfl, -, hnearest⟩
    · rcases hharmless with ⟨e, he, hlt⟩ | ⟨e, hnearest, heq⟩
      · exact absurd (hle e he) (not_le.mpr hlt)
      · rw [hr] at heq
        exact .inr ⟨e, hnearest, heq ▸ h⟩
    · exact .inr ⟨e, hnearest, h⟩

/-- The routes that the clearing leaves: the last half. -/
def left (n : HnaNode) : List NetworkRoute := n.m_hnaRoutingTable.drop ((n.m_hnaRoutingTable.length + 1) / 2)

/-- A route for each network with a gateway, and no other. -/
def Exact (n : HnaNode) (m_table : RoutingTable) (routes : List NetworkRoute) : Prop :=
  ∀ network, RoutedTo (n.gateways m_table network) network routes

theorem hnaRoutes_eq {rounds : Nat} {routes : List NetworkRoute} (h : n.routingTableComputation rounds = some (m_table, routes)) :
    routes = n.hnaRoutes m_table := by
  obtain ⟨t, -, heq⟩ := Option.map_eq_some_iff.mp h
  cases heq
  rfl

theorem routesTo_of_nodup (network : HnaAssociation) : ∀ {routes : List NetworkRoute}, (routes.map (·.dest)).Nodup →
    routesTo network routes = [] ∨ ∃ r ∈ routes, r.dest = network ∧ routesTo network routes = [r]
  | [], _ => .inl rfl
  | r :: routes, h => by
    rw [List.map_cons, List.nodup_cons] at h
    obtain ⟨hnot, hrest⟩ := h
    by_cases hr : r.dest = network
    · subst hr
      have hempty : routesTo r.dest routes = [] := by
        apply filter_eq_nil_iff.mpr
        intro r' hr' heq
        apply hnot
        exact of_decide_eq_true heq ▸ List.mem_map_of_mem hr'
      refine .inr ⟨r, mem_cons_self, rfl, ?_⟩
      simpa [routesTo] using hempty
    · have hcons : routesTo network (r :: routes) = routesTo network routes := by simp [routesTo, hr]
      rw [hcons]
      rcases routesTo_of_nodup network hrest with hempty | ⟨r', hr', hdest, hone⟩
      · exact .inl hempty
      · exact .inr ⟨r', mem_cons_of_mem _ hr', hdest, hone⟩

/-- **The HNA routes** are right just when each route that was left does no harm, where no two of them are to one network. -/
theorem exact_iff (n : HnaNode) {rounds : Nat} {m_table : RoutingTable} {routes : List NetworkRoute}
    (h : n.routingTableComputation rounds = some (m_table, routes)) (hdistinct : (n.left.map (·.dest)).Nodup) :
    n.Exact m_table routes ↔ ∀ r ∈ n.left, Harmless (n.gateways m_table r.dest) r := by
  obtain rfl := hnaRoutes_eq h
  have hfold : ∀ network, routesTo network (n.hnaRoutes m_table) =
      (n.gateways m_table network).foldl (addGateway network) (routesTo network n.left) := by
    intro network
    rw [routesTo_hnaRoutes, clearFrom_eq]
    rfl
  constructor
  · intro hexact r hr
    rcases routesTo_of_nodup r.dest hdistinct with hempty | ⟨r', -, hdest, hone⟩
    · exact absurd (mem_routesTo.mpr ⟨hr, rfl⟩) (hempty ▸ not_mem_nil)
    · have hsame : r ∈ [r'] := hone ▸ mem_routesTo.mpr ⟨hr, rfl⟩
      obtain rfl := mem_singleton.mp hsame
      exact (routedTo_of_single hdest (hone ▸ hfold r.dest)).mp (hexact r.dest)
  · intro hharmless network
    rcases routesTo_of_nodup network hdistinct with hempty | ⟨r, hr, rfl, hone⟩
    · exact routedTo_of_none (hempty ▸ hfold network)
    · exact (routedTo_of_single rfl (hone ▸ hfold r.dest)).mpr (hharmless r hr)

/-- A node with one neighbor, that is the gateway of a network, and two routes from before. -/
def gatewayNode (associationSet : List AssociationTuple) : HnaNode where
  m_mainAddress := 1
  now := 0
  m_ipv4 := [[127], [1]]
  m_state :=
    { ifaceAssocSet := [], linkSet := [⟨1, 2, 10⟩], neighborSet := ⟨[⟨2, .sym, 3⟩], by decide⟩, twoHopNeighborSet := [],
      topologySet := [] }
  associations := []
  associationSet := associationSet
  m_hnaRoutingTable := [⟨⟨16, 240⟩, 2, 1, 3⟩, ⟨⟨32, 240⟩, 5, 1, 3⟩]

/-- The gateway announces nothing any more. -/
theorem second_route_left : ∃ m_table routes, (gatewayNode []).routingTableComputation 1 = some (m_table, routes) ∧
    ¬ (gatewayNode []).Exact m_table routes := by
  refine ⟨_, [⟨⟨32, 240⟩, 5, 1, 3⟩], rfl, ?_⟩
  intro hexact
  rcases hexact ⟨32, 240⟩ with ⟨-, hempty⟩ | ⟨e, ⟨hmem, -⟩, -⟩
  · cases hempty
  · cases hmem

/-- The route that was left gives way to a nearer gateway. -/
theorem second_route_replaced : ∃ m_table routes,
    (gatewayNode [⟨2, ⟨32, 240⟩⟩]).routingTableComputation 1 = some (m_table, routes) ∧
      (gatewayNode [⟨2, ⟨32, 240⟩⟩]).Exact m_table routes := by
  have hcomputed : (gatewayNode [⟨2, ⟨32, 240⟩⟩]).routingTableComputation 1 = some (_, _) := rfl
  refine ⟨_, _, hcomputed, ?_⟩
  apply (exact_iff _ hcomputed (by decide)).mpr
  intro r hr
  have hleft : r = ⟨⟨32, 240⟩, 5, 1, 3⟩ := mem_singleton.mp hr
  subst hleft
  exact .inl ⟨⟨2, 2, 1, 1⟩, by decide, by decide⟩

end HnaNode

end Ns3
