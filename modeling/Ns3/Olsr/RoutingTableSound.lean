import Ns3.Olsr.RoutingTable
import Ns3.Lib.WeightedWalk
import Ns3.Lib.Fold

/-!
# Routes are shortest

The graph that a node's sets tell, distances in it, and the table that the
computation leaves. `Settled` says of the sets that no step goes wrong: no 2-hop
neighbor is reached through a neighbor that is not symmetric, no symmetric
neighbor without a link is needed, and no route goes on behind one to the node
itself.
-/

namespace Ns3

open List

namespace OlsrNode

/-! ## The graph -/

section
variable (n : OlsrNode)

def IsSym (a : Ipv4Address) : Prop := ∃ t ∈ n.m_state.neighborSet.tuples, t.neighborMainAddr = a ∧ t.status = .sym

structure IsLink (l : LinkTuple) : Prop where
  mem : l ∈ n.m_state.linkSet
  time : n.now ≤ l.time
  sym : n.IsSym l.neighborIfaceAddr

def IsNear (a : Ipv4Address) : Prop := ∃ l, n.IsLink l ∧ l.neighborIfaceAddr = a

/-- To neighbors, and from neighbors to 2-hop neighbors. -/
def NearEdge (a b : Ipv4Address) : Prop :=
  (a = n.m_mainAddress ∧ n.IsNear b) ∨
    ((∃ t ∈ n.m_state.neighborSet.tuples, t.neighborMainAddr = a ∧ t.status = .sym ∧ t.willingness ≠ OLSR_WILL_NEVER) ∧
      ⟨a, b⟩ ∈ n.m_state.twoHopNeighborSet)

/-- At distance 2 or more, when it is reached (`far_iff`). -/
def Far (a : Ipv4Address) : Prop := a ≠ n.m_mainAddress ∧ ¬ n.NearEdge n.m_mainAddress a

def Edge (a b : Ipv4Address) : Prop := n.NearEdge a b ∨ (⟨b, a⟩ ∈ n.m_state.topologySet ∧ n.Far a)

abbrev Distance (d : Nat) (a : Ipv4Address) : Prop := Shortest (fun a b w => n.Edge a b ∧ w = 1) n.m_mainAddress d a

/-- Walks over a link first. -/
inductive Via (l : LinkTuple) : Nat → Ipv4Address → Prop
  | first : n.IsLink l → Via l 1 l.neighborIfaceAddr
  | next {d : Nat} {a b : Ipv4Address} : Via l d a → n.Edge a b → Via l (d + 1) b

/-- An entry with a distance, and the address and the interface of the link in front. -/
def Routed (d : Nat) (a : Ipv4Address) (e : RoutingTableEntry) : Prop :=
  e.distance = d ∧ ∃ l, n.Via l d a ∧ e.nextAddr = l.neighborIfaceAddr ∧ e.interface = n.interfaceOf l.localIfaceAddr

/-- A topology tuple leads back to the node from distance `h`. -/
def Returns (h : Nat) : Prop := 2 ≤ h ∧ ∃ a, ⟨n.m_mainAddress, a⟩ ∈ n.m_state.topologySet ∧ n.Distance h a

/-- The sets lead no step astray. -/
structure Settled : Prop where
  /-- The node is no neighbor of its own with 2-hop neighbors. -/
  self : ∀ x, n.NearEdge n.m_mainAddress x → x = n.m_mainAddress ∨ n.IsNear x
  /-- No symmetric neighbor without a link is a 2-hop neighbor that is needed. -/
  linked : ∀ x, n.Distance 2 x → ¬ n.IsSym x
  /-- No 2-hop tuple is needed behind a 2-hop neighbor. -/
  announced : ∀ d x, 3 ≤ d → n.Distance d x → ∃ a, ⟨x, a⟩ ∈ n.m_state.topologySet ∧ n.Distance (d - 1) a
  /-- No tuple of a willing neighbor that is not symmetric comes behind one that makes it a 2-hop neighbor. -/
  direct : ∀ t t' : TwoHopNeighborTuple, List.Sublist [t, t'] n.m_state.twoHopNeighborSet →
    t'.neighborMainAddr = t.twoHopNeighborAddr → n.IsNear t.neighborMainAddr → n.willing t.neighborMainAddr = true →
    ¬ n.IsSym t.twoHopNeighborAddr → t.twoHopNeighborAddr ≠ n.m_mainAddress → n.willing t'.neighborMainAddr = true →
    n.IsSym t'.twoHopNeighborAddr ∨ t'.twoHopNeighborAddr = n.m_mainAddress
  /-- Behind the first route to the node itself topology tuples lead only to what is as near anyhow. -/
  back : ∀ b h, n.Returns h → (∀ h', n.Returns h' → h ≤ h') → ⟨b, n.m_mainAddress⟩ ∈ n.m_state.topologySet →
    b = n.m_mainAddress ∨ ∃ k, k ≤ h + 1 ∧ n.Distance k b

end

section
variable {n : OlsrNode} {a b x : Ipv4Address} {d h : Nat} {e : RoutingTableEntry}

theorem distance_pred (h : n.Distance (d + 1) x) : ∃ a, n.Distance d a ∧ n.Edge a x := by
  have hne : x ≠ n.m_mainAddress := by
    rintro rfl
    exact absurd (h.unique .start) (Nat.succ_ne_zero d)
  obtain ⟨a, d', w, ha, ⟨hedge, rfl⟩, hd⟩ := h.pred hne
  obtain rfl := Nat.succ.inj hd
  exact ⟨a, ha, hedge⟩

theorem distance_zero_iff : n.Distance 0 x ↔ x = n.m_mainAddress := by
  constructor
  · intro h
    obtain ⟨hwalk, -⟩ := h
    generalize hd : 0 = d at hwalk
    cases hwalk with
    | start => rfl
    | step _ harc =>
      obtain ⟨-, rfl⟩ := harc
      omega
  · rintro rfl
    exact .start

theorem distance_one_iff : n.Distance 1 x ↔ x ≠ n.m_mainAddress ∧ n.NearEdge n.m_mainAddress x := by
  constructor
  · intro h
    have hne : x ≠ n.m_mainAddress := by
      rintro rfl
      exact absurd (h.unique .start) (by decide)
    obtain ⟨a, ha, hedge⟩ := distance_pred h
    obtain rfl := distance_zero_iff.mp ha
    rcases hedge with hnear | ⟨-, hfar⟩
    · exact ⟨hne, hnear⟩
    · exact absurd rfl hfar.1
  · rintro ⟨hne, hnear⟩
    obtain ⟨k, hk, hle⟩ := Shortest.behind (.start : n.Distance 0 _) ⟨.inl hnear, rfl⟩
    by_cases hzero : k = 0
    · exact absurd (distance_zero_iff.mp (hzero ▸ hk)) hne
    · have hone : k = 1 := by omega
      exact hone ▸ hk

theorem distance_ne (hx : n.Distance d x) (hpos : 0 < d) : x ≠ n.m_mainAddress := by
  rintro rfl
  have := hx.unique .start
  omega

end

/-! ## Neighbors -/

section
variable {n : OlsrNode} {x : Ipv4Address} {e : RoutingTableEntry}

end

/-! ## 2-hop neighbors -/

section
variable {n : OlsrNode} {a b x : Ipv4Address}

/-- A 2-hop neighbor that a tuple gives a route. -/
structure Taken (n : OlsrNode) (t : TwoHopNeighborTuple) : Prop where
  sym : ¬ n.IsSym t.twoHopNeighborAddr
  other : t.twoHopNeighborAddr ≠ n.m_mainAddress
  willing : n.willing t.neighborMainAddr = true

end

/-! ## Topology -/

section
variable {n : OlsrNode} {x : Ipv4Address} {e : RoutingTableEntry} {h : Nat}

/-- The table holds the routes up to a distance, and none to the node itself but one made by
a topology tuple. -/
structure Reached (n : OlsrNode) (h : Nat) (m_table : RoutingTable) : Prop where
  found : ∀ x e, x ≠ n.m_mainAddress → m_table.find x = some e → ∃ d, d ≤ h ∧ n.Distance d x ∧ n.Routed d x e
  filled : ∀ x d, x ≠ n.m_mainAddress → n.Distance d x → d ≤ h → ∃ e, m_table.find x = some e
  self : ∀ e, m_table.find n.m_mainAddress = some e →
    e.distance = 1 ∨ e.distance ≤ h ∧ n.Returns (e.distance - 1) ∧ ∀ h', n.Returns h' → e.distance - 1 ≤ h'
  back : ∀ h', h' < h → n.Returns h' → ∃ e, m_table.find n.m_mainAddress = some e

variable {m_table : RoutingTable}

theorem Settled.near (hsettled : n.Settled) (hx : n.Distance 1 x) : n.IsNear x := by
  obtain ⟨hne, hnear⟩ := distance_one_iff.mp hx
  rcases hsettled.self x hnear with heq | hnear
  · exact absurd heq hne
  · exact hnear

def missing (n : OlsrNode) (m_table : RoutingTable) : Nat :=
  n.m_state.topologySet.countP fun t => (m_table.find t.destAddr).isNone

/-- The routes to all other nodes are there, and no others. -/
structure Finished (n : OlsrNode) (m_table : RoutingTable) : Prop where
  found : ∀ x e, x ≠ n.m_mainAddress → m_table.find x = some e → ∃ d, n.Distance d x ∧ n.Routed d x e
  filled : ∀ x d, x ≠ n.m_mainAddress → n.Distance d x → ∃ e, m_table.find x = some e

theorem Reached.finished (hreached : n.Reached h m_table) (hnext : n.Reached (h + 1) m_table) : n.Finished m_table := by
  refine ⟨fun x e hne he => ?_, fun x d hne hd => ?_⟩
  · obtain ⟨d, -, hd, hrouted⟩ := hreached.found x e hne he
    exact ⟨d, hd, hrouted⟩
  · by_cases hle : d ≤ h
    · exact hreached.filled x d hne hd hle
    · obtain ⟨y, hy⟩ := Shortest.level (fun a b w harc => harc.2) hd (h + 1) (by omega)
      have hne := distance_ne hy (Nat.succ_pos h)
      obtain ⟨e, he⟩ := hnext.filled y (h + 1) hne hy (Nat.le_refl _)
      obtain ⟨k, hk, hdist, -⟩ := hreached.found y e hne he
      have := hdist.unique hy
      omega

end

/-- Node 3 is a neighbor that is not symmetric any more, and a 2-hop neighbor. -/
def lost : OlsrNode where
  m_mainAddress := 1
  now := 0
  m_ipv4 := [[1]]
  m_state :=
    { linkSet := [⟨1, 2, 0⟩]
      neighborSet := ⟨[⟨2, .sym, 3⟩, ⟨3, .notSym, 3⟩], by decide⟩
      twoHopNeighborSet := [⟨2, 3⟩, ⟨3, 4⟩]
      topologySet := []
      ifaceAssocSet := [] }

end OlsrNode

end Ns3
