import Ns3.Olsr.RoutingTable

/-!
# Routes to networks outside of the OLSR domain

The last part of `RoutingTableComputation`: the table of HNA routes is cleared
and filled again, with a route for each network that some gateway announces.
-/

namespace Ns3

structure HnaAssociation where
  networkAddr : Ipv4Address
  netmask : Ipv4Address
  deriving DecidableEq

structure AssociationTuple where
  gatewayAddr : Ipv4Address
  network : HnaAssociation
  deriving DecidableEq

/-- A network route of `Ipv4StaticRouting`, with its metric. -/
structure NetworkRoute where
  dest : HnaAssociation
  gateway : Ipv4Address
  interface : Nat
  metric : Nat
  deriving DecidableEq

/-- A node with its HNA associations, those of other gateways and the routes that are there. -/
structure HnaNode extends OlsrNode where
  associations : List HnaAssociation
  associationSet : List AssociationTuple
  m_hnaRoutingTable : List NetworkRoute

namespace HnaNode

/-- The loop that removes the first route as long as `i` is less than the number of routes. -/
def clearFrom : Nat → List NetworkRoute → List NetworkRoute
  | _, [] => []
  | i, r :: routes => if i < (r :: routes).length then clearFrom (i + 1) routes else r :: routes

def addNetworkRouteTo (routes : List NetworkRoute) (r : NetworkRoute) : List NetworkRoute :=
  if r ∈ routes then routes else routes ++ [r]

def routeTo (network : HnaAssociation) (gatewayEntry : RoutingTableEntry) : NetworkRoute :=
  ⟨network, gatewayEntry.nextAddr, gatewayEntry.interface, gatewayEntry.distance⟩

def addAssociation (n : HnaNode) (m_table : RoutingTable) (routes : List NetworkRoute) (tuple : AssociationTuple) :
    List NetworkRoute :=
  if tuple.network ∈ n.associations then routes
  else
    match routes.findIdx? fun route => route.dest = tuple.network, m_table.find tuple.gatewayAddr with
    | none, some gatewayEntry => addNetworkRouteTo routes (routeTo tuple.network gatewayEntry)
    | some routeIndex, some gatewayEntry =>
      if gatewayEntry.distance < (routes[routeIndex]?.map (·.metric)).getD 0 then
        addNetworkRouteTo (routes.eraseIdx routeIndex) (routeTo tuple.network gatewayEntry)
      else routes
    | _, none => routes

def hnaRoutes (n : HnaNode) (m_table : RoutingTable) : List NetworkRoute :=
  n.associationSet.foldl (n.addAssociation m_table) (clearFrom 0 n.m_hnaRoutingTable)

def routingTableComputation (n : HnaNode) (rounds : Nat) : Option (RoutingTable × List NetworkRoute) :=
  (n.toOlsrNode.routingTableComputation rounds).map fun m_table => (m_table, n.hnaRoutes m_table)

end HnaNode

end Ns3
