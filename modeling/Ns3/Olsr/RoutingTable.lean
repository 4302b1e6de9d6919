import Ns3.Olsr.OlsrState
import Ns3.Lib.OrdMap

/-!
# The routing table of OLSR

`RoutingTableComputation` up to the routes to other interfaces: neighbors, then
2-hop neighbors, then what the topology tuples lead to, one distance after the
other. The loop over the distances is given up after a number of rounds.
-/

namespace Ns3

structure RoutingTableEntry where
  destAddr : Ipv4Address
  nextAddr : Ipv4Address
  interface : Nat
  distance : Nat
  deriving DecidableEq

abbrev RoutingTable := OrdMap Ipv4Address RoutingTableEntry

/-- A node: its address, the time, the addresses of its interfaces and what it has learnt. -/
structure OlsrNode where
  m_mainAddress : Ipv4Address
  now : Int
  m_ipv4 : List (List Ipv4Address)
  m_state : OlsrState

namespace OlsrNode

def addEntry (m_table : RoutingTable) (dest next : Ipv4Address) (interface distance : Nat) : RoutingTable :=
  m_table.insert dest ⟨dest, next, interface, distance⟩

/-- The interface that has an address; past the assertion, that there is one, it is 0. -/
def interfaceOf (n : OlsrNode) (interfaceAddress : Ipv4Address) : Nat :=
  match n.m_ipv4.findIdx? fun addresses => interfaceAddress ∈ addresses with
  | some i => i
  | none => 0

def addEntryFor (n : OlsrNode) (m_table : RoutingTable) (dest next interfaceAddress : Ipv4Address) (distance : Nat) : RoutingTable :=
  addEntry m_table dest next (n.interfaceOf interfaceAddress) distance

def getMainAddress (n : OlsrNode) (iface_addr : Ipv4Address) : Ipv4Address :=
  match n.m_state.findIfaceAssocTuple iface_addr with
  | some tuple => tuple.mainAddr
  | none => iface_addr

/-! ## Neighbors -/

/-- The loop over the links to a neighbor: the table, `nb_main_addr` and `lt`. -/
def addLink (n : OlsrNode) (nb_tuple : NeighborTuple) (r : RoutingTable × Bool × Option LinkTuple) (link_tuple : LinkTuple) :
    RoutingTable × Bool × Option LinkTuple :=
  if n.getMainAddress link_tuple.neighborIfaceAddr = nb_tuple.neighborMainAddr ∧ n.now ≤ link_tuple.time then
    (n.addEntryFor r.1 link_tuple.neighborIfaceAddr link_tuple.neighborIfaceAddr link_tuple.localIfaceAddr 1,
      r.2.1 || link_tuple.neighborIfaceAddr = nb_tuple.neighborMainAddr, some link_tuple)
  else r

def addNeighbor (n : OlsrNode) (m_table : RoutingTable) (nb_tuple : NeighborTuple) : RoutingTable :=
  if nb_tuple.status = .sym then
    match n.m_state.linkSet.foldl (n.addLink nb_tuple) (m_table, false, none) with
    | (m_table, false, some lt) => n.addEntryFor m_table nb_tuple.neighborMainAddr lt.neighborIfaceAddr lt.localIfaceAddr 1
    | (m_table, _, _) => m_table
  else m_table

def addNeighbors (n : OlsrNode) : RoutingTable := n.m_state.neighborSet.tuples.foldl n.addNeighbor .empty

/-! ## 2-hop neighbors -/

/-- `nb2hopOk` -/
def willing (n : OlsrNode) (neighborMainAddr : Ipv4Address) : Bool :=
  n.m_state.neighborSet.tuples.any fun neighbor =>
    neighbor.neighborMainAddr = neighborMainAddr && neighbor.willingness ≠ OLSR_WILL_NEVER

def addTwoHop (n : OlsrNode) (m_table : RoutingTable) (nb2hop_tuple : TwoHopNeighborTuple) : RoutingTable :=
  if (n.m_state.findSymNeighborTuple nb2hop_tuple.twoHopNeighborAddr).isSome then m_table
  else if nb2hop_tuple.twoHopNeighborAddr = n.m_mainAddress then m_table
  else if !n.willing nb2hop_tuple.neighborMainAddr then m_table
  else
    match m_table.find nb2hop_tuple.neighborMainAddr with
    | some entry => addEntry m_table nb2hop_tuple.twoHopNeighborAddr entry.nextAddr entry.interface 2
    | none => m_table

def addTwoHops (n : OlsrNode) : RoutingTable := n.m_state.twoHopNeighborSet.foldl n.addTwoHop n.addNeighbors

/-! ## Topology -/

def addTopology (h : Nat) (r : RoutingTable × Bool) (topology_tuple : TopologyTuple) : RoutingTable × Bool :=
  match r.1.find topology_tuple.destAddr, r.1.find topology_tuple.lastAddr with
  | none, some lastAddrEntry =>
    if lastAddrEntry.distance = h then
      (addEntry r.1 topology_tuple.destAddr lastAddrEntry.nextAddr lastAddrEntry.interface (h + 1), true)
    else r
  | _, _ => r

def addTopologies (n : OlsrNode) (h : Nat) (m_table : RoutingTable) : RoutingTable × Bool :=
  n.m_state.topologySet.foldl (addTopology h) (m_table, false)

def hopLoop (n : OlsrNode) : Nat → Nat → RoutingTable → Option RoutingTable
  | 0, _, _ => none
  | rounds + 1, h, m_table =>
    match n.addTopologies h m_table with
    | (m_table, true) => n.hopLoop rounds (h + 1) m_table
    | (m_table, false) => some m_table

/-! ## Other interfaces -/

def addInterface (m_table : RoutingTable) (tuple : IfaceAssocTuple) : RoutingTable :=
  match m_table.find tuple.mainAddr, m_table.find tuple.ifaceAddr with
  | some entry1, none => addEntry m_table tuple.ifaceAddr entry1.nextAddr entry1.interface entry1.distance
  | _, _ => m_table

def routingTableComputation (n : OlsrNode) (rounds : Nat) : Option RoutingTable :=
  (n.hopLoop rounds 2 n.addTwoHops).map fun m_table => n.m_state.ifaceAssocSet.foldl addInterface m_table

end OlsrNode

end Ns3
