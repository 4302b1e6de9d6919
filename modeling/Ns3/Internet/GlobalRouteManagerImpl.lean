import Ns3.Internet.GlobalRouteManager
import Ns3.Internet.SequenceNumber32
import Ns3.Network.ByteTagList

/-!
# `GlobalRouteManagerImpl`

The shortest path calculation over the link state database, with the routes it
adds to the node at the root, and the shortcut for a stub node. A vertex of the
tree is the one of its LSA: a pointer to a vertex is the identifier of it. A null
pointer that would be used and a failed assertion have no result. External LSAs
are kept apart in the database and are left out.
-/

namespace Ns3

/-! ## The link state database -/

inductive LinkType where
  | Unknown
  | PointToPoint
  | TransitNetwork
  | StubNetwork
  | VirtualLink
  deriving DecidableEq

structure LinkRecord extends GlobalRoutingLinkRecord where
  linkType : LinkType
  metric : UInt16 := 1
  deriving DecidableEq

inductive LSType where
  | RouterLSA
  | NetworkLSA
  deriving DecidableEq

structure GlobalRoutingLSA where
  lsType : LSType
  linkStateId : Ipv4Address
  linkRecords : List LinkRecord := []
  networkLSANetworkMask : Ipv4Address := 0
  attachedRouters : List Ipv4Address := []
  deriving DecidableEq

/-- A map, in the order of the keys. -/
structure GlobalRouteManagerLSDB where
  m_database : List GlobalRoutingLSA
  increasing : m_database.Pairwise fun lsa lsa' => lsa.linkStateId < lsa'.linkStateId

namespace GlobalRouteManagerLSDB

def getLSA (lsdb : GlobalRouteManagerLSDB) (addr : Ipv4Address) : Option GlobalRoutingLSA :=
  lsdb.m_database.find? fun lsa => lsa.linkStateId = addr

def getLSAByLinkData (lsdb : GlobalRouteManagerLSDB) (addr : Ipv4Address) : Option GlobalRoutingLSA :=
  lsdb.m_database.find? fun temp => temp.linkRecords.any fun lr => lr.linkType = .TransitNetwork ∧ lr.linkData = addr

end GlobalRouteManagerLSDB

/-! ## Vertices -/

structure SPFVertex where
  m_lsa : GlobalRoutingLSA
  m_distanceFromRoot : Nat := 4294967295
  m_ecmpRootExits : List (Ipv4Address × Int) := []
  m_parents : List Ipv4Address := []

namespace SPFVertex

def vertexId (v : SPFVertex) : Ipv4Address := v.m_lsa.linkStateId

def unique {α : Type} [DecidableEq α] (l : List α) : List α := l.destutter (· ≠ ·)

/-- `NodeExit_t`s are ordered as pairs. -/
def exitLe (e e' : Ipv4Address × Int) : Bool := e.1 < e'.1 || (e.1 = e'.1 && e.2 ≤ e'.2)

def mergeRootExitDirections (v vertex : SPFVertex) : SPFVertex :=
  { v with m_ecmpRootExits := unique ((v.m_ecmpRootExits ++ vertex.m_ecmpRootExits).mergeSort exitLe) }

/-- The parents are sorted by where in memory they are. -/
def mergeParent (address : Ipv4Address → Nat) (v vertex : SPFVertex) : SPFVertex :=
  { v with m_parents := unique ((v.m_parents ++ vertex.m_parents).mergeSort fun p p' => address p ≤ address p') }

/-- `GetRootExitDirection` asserts that there is one exit. -/
def getRootExitDirection (v : SPFVertex) : Option (Ipv4Address × Int) :=
  match v.m_ecmpRootExits with
  | [exit] => some exit
  | _ => none

end SPFVertex

/-! ## The candidate queue -/

namespace CandidateQueue

def compareSPFVertex (v1 v2 : SPFVertex) : Bool :=
  v1.m_distanceFromRoot < v2.m_distanceFromRoot ||
    (v1.m_distanceFromRoot = v2.m_distanceFromRoot && v1.m_lsa.lsType = .NetworkLSA && v2.m_lsa.lsType = .RouterLSA)

/-- Before the first vertex that `vNew` comes before, the `upper_bound` of the ordered list. -/
def push (vNew : SPFVertex) (m_candidates : List SPFVertex) : List SPFVertex :=
  (m_candidates.takeWhile fun v => !compareSPFVertex vNew v) ++ vNew :: m_candidates.dropWhile fun v => !compareSPFVertex vNew v

def find (addr : Ipv4Address) (m_candidates : List SPFVertex) : Option SPFVertex :=
  m_candidates.find? fun v => v.vertexId = addr

def reorder (m_candidates : List SPFVertex) : List SPFVertex := m_candidates.mergeSort fun v1 v2 => !compareSPFVertex v2 v1

/-- A vertex of the queue is changed where it is. -/
def assign (cw : SPFVertex) (m_candidates : List SPFVertex) : List SPFVertex :=
  m_candidates.map fun v => if v.vertexId = cw.vertexId then cw else v

end CandidateQueue

inductive SPFStatus where
  | LSA_SPF_NOT_EXPLORED
  | LSA_SPF_CANDIDATE
  | LSA_SPF_IN_SPFTREE
  deriving DecidableEq

structure Ipv4RoutingTableEntry where
  dest : Ipv4Address
  destNetworkMask : Ipv4Address
  gateway : Ipv4Address
  interface : Nat
  deriving DecidableEq

structure RouterNode where
  m_routerId : Option Ipv4Address
  m_interfaces : List (List Ipv4Address)
  /-- The number of an interface is an `int32_t`. -/
  few : m_interfaces.length < 2147483648

/-- What the calculation changes; `children` are the `m_children` of the vertices. -/
structure SPFState where
  status : Ipv4Address → SPFStatus
  candidate : List SPFVertex := []
  children : Ipv4Address → List SPFVertex := fun _ => []
  routes : List Ipv4RoutingTableEntry := []

structure GlobalRouteManagerImpl where
  m_lsdb : GlobalRouteManagerLSDB
  nodes : List RouterNode
  /-- Where the vertex of an LSA is in memory. -/
  address : Ipv4Address → Nat := fun id => id

namespace GlobalRouteManagerImpl

open SPFVertex CandidateQueue GlobalRouteManager

variable (m : GlobalRouteManagerImpl) (root : Ipv4Address)

/-! ## Interfaces and routes -/

def rootNode : Option RouterNode := m.nodes.find? fun node => node.m_routerId = some root

/-- `GetInterfaceForPrefix` counts the interfaces from `interface` on. -/
def getInterfaceForPrefix (address mask : Ipv4Address) : Nat → List (List Ipv4Address) → Int
  | _, [] => -1
  | interface, addresses :: rest =>
    if addresses.any fun local_ => local_ &&& mask = address &&& mask then interface
    else getInterfaceForPrefix address mask (interface + 1) rest

def findOutgoingInterfaceId (a : Ipv4Address) (amask : Ipv4Address := 4294967295) : Int :=
  match m.rootNode root with
  | none => -1
  | some node => getInterfaceForPrefix a amask 0 node.m_interfaces

def exitRoutes (dest mask : Ipv4Address) (exits : List (Ipv4Address × Int)) : List Ipv4RoutingTableEntry :=
  (exits.filter fun exit => 0 ≤ exit.2).map fun exit => ⟨dest, mask, exit.1, exit.2.toNat⟩

/-- The host routes to a router's ends of its point-to-point links. -/
def spfIntraAddRouter (v : SPFVertex) : List Ipv4RoutingTableEntry :=
  match m.rootNode root with
  | none => []
  | some _ =>
    (v.m_lsa.linkRecords.filter fun lr => lr.linkType = .PointToPoint).flatMap fun lr =>
      exitRoutes lr.linkData 4294967295 v.m_ecmpRootExits

/-- The route to a transit network, once for each node with the router identifier of the root. -/
def spfIntraAddTransit (v : SPFVertex) : List Ipv4RoutingTableEntry :=
  (m.nodes.filter fun node => node.m_routerId = some root).flatMap fun _ =>
    exitRoutes (v.vertexId &&& v.m_lsa.networkLSANetworkMask) v.m_lsa.networkLSANetworkMask v.m_ecmpRootExits

def spfIntraAddStub (l : LinkRecord) (v : SPFVertex) : List Ipv4RoutingTableEntry :=
  if v.vertexId = root then []
  else
    match m.rootNode root with
    | none => []
    | some _ => exitRoutes (l.linkId &&& l.linkData) l.linkData v.m_ecmpRootExits

/-! ## The calculation -/

def networkExits (v w : SPFVertex) : Option (List (Ipv4Address × Int)) :=
  let records := w.m_lsa.linkRecords.map LinkRecord.toGlobalRoutingLinkRecord
  match spfGetNextLink records v.vertexId none with
  | none => some w.m_ecmpRootExits
  | some _ =>
    v.getRootExitDirection.bind fun exit =>
      -- when the loop ends, it does so in the second round
      (nexthopLoop records v.vertexId (uint32 exit.2) 2 none []).map fun r => r.2.map fun exit => (exit.1, int32 exit.2)

def rootExits (v w : SPFVertex) (l : Option LinkRecord) : Option (List (Ipv4Address × Int)) :=
  let records := w.m_lsa.linkRecords.map LinkRecord.toGlobalRoutingLinkRecord
  match w.m_lsa.lsType with
  | .RouterLSA => do
    let l ← l
    let i ← spfGetNextLink records v.vertexId none
    let linkRemote ← records[i]?
    some [(linkRemote.linkData, m.findOutgoingInterfaceId root l.linkData)]
  | .NetworkLSA => some [(0, m.findOutgoingInterfaceId root w.vertexId w.m_lsa.networkLSANetworkMask)]

/-- The exits of the parent are inherited, unless it is a neighbour of the root that is a network. -/
def inheritedExits (v w : SPFVertex) : Option (List (Ipv4Address × Int)) :=
  match v.m_lsa.lsType with
  | .NetworkLSA =>
    if v.m_parents.head? = some root then
      match w.m_lsa.lsType with
      | .RouterLSA => networkExits v w
      | .NetworkLSA => none
    else v.getRootExitDirection.map fun exit => [exit]
  | .RouterLSA => some v.m_ecmpRootExits

def spfNexthopCalculation (v w : SPFVertex) (l : Option LinkRecord) (distance : Nat) : Option SPFVertex :=
  (if v.vertexId = root then m.rootExits root v w l else inheritedExits root v w).map fun exits =>
    { w with m_ecmpRootExits := exits, m_distanceFromRoot := distance, m_parents := [v.vertexId] }

def distanceThrough (v : SPFVertex) (l : Option LinkRecord) : Nat :=
  match v.m_lsa.lsType, l with
  | .RouterLSA, some l => uint32 (v.m_distanceFromRoot + l.metric.toNat : Nat)
  | _, _ => v.m_distanceFromRoot

def examine (v : SPFVertex) (w_lsa : GlobalRoutingLSA) (l : Option LinkRecord) (s : SPFState) : Option SPFState :=
  let distance := distanceThrough v l
  match s.status w_lsa.linkStateId with
  | .LSA_SPF_IN_SPFTREE => some s
  | .LSA_SPF_NOT_EXPLORED =>
    (m.spfNexthopCalculation root v { m_lsa := w_lsa } l distance).map fun w =>
      { s with
        status := Function.update s.status w_lsa.linkStateId .LSA_SPF_CANDIDATE
        candidate := push w s.candidate }
  | .LSA_SPF_CANDIDATE =>
    (find w_lsa.linkStateId s.candidate).bind fun cw =>
      if cw.m_distanceFromRoot < distance then some s
      else if cw.m_distanceFromRoot = distance then
        (m.spfNexthopCalculation root v { m_lsa := w_lsa } l distance).map fun w =>
          { s with candidate := assign ((cw.mergeRootExitDirections w).mergeParent m.address w) s.candidate }
      else
        (m.spfNexthopCalculation root v cw l distance).map fun cw => { s with candidate := reorder (assign cw s.candidate) }

def spfNextRouter (v : SPFVertex) : List LinkRecord → SPFState → Option SPFState
  | [], s => some s
  | l :: records, s =>
    if l.linkType = .StubNetwork then spfNextRouter v records s
    else if l.linkType = .PointToPoint ∨ l.linkType = .TransitNetwork then
      (m.m_lsdb.getLSA l.linkId).bind fun w_lsa => (m.examine root v w_lsa (some l) s).bind (spfNextRouter v records)
    else none

def spfNextNetwork (v : SPFVertex) : List Ipv4Address → SPFState → Option SPFState
  | [], s => some s
  | a :: routers, s =>
    match m.m_lsdb.getLSAByLinkData a with
    | none => spfNextNetwork v routers s
    | some w_lsa => (m.examine root v w_lsa none s).bind (spfNextNetwork v routers)

def spfNext (v : SPFVertex) (s : SPFState) : Option SPFState :=
  match v.m_lsa.lsType with
  | .RouterLSA => m.spfNextRouter root v v.m_lsa.linkRecords s
  | .NetworkLSA => m.spfNextNetwork root v v.m_lsa.attachedRouters s

def spfVertexAddParent (v : SPFVertex) (children : Ipv4Address → List SPFVertex) : Ipv4Address → List SPFVertex :=
  v.m_parents.foldl (fun children parent => Function.update children parent (children parent ++ [v])) children

/-- A vertex comes into the tree and gets its routes. -/
def popped (v : SPFVertex) (rest : List SPFVertex) (s : SPFState) : SPFState where
  status := Function.update s.status v.vertexId .LSA_SPF_IN_SPFTREE
  candidate := rest
  children := spfVertexAddParent v s.children
  routes := s.routes ++
    match v.m_lsa.lsType with
    | .RouterLSA => m.spfIntraAddRouter root v
    | .NetworkLSA => m.spfIntraAddTransit root v

def spfLoop : Nat → SPFVertex → SPFState → Option SPFState
  | 0, _, _ => none
  | fuel + 1, v, s =>
    (m.spfNext root v s).bind fun s =>
      match s.candidate with
      | [] => some s
      | w :: rest => spfLoop fuel w (m.popped root w rest s)

/-- The loop over the children of a vertex, with those processed before. -/
def processChildren (process : SPFVertex → List Ipv4Address → Option (List Ipv4Address × List Ipv4RoutingTableEntry)) :
    List SPFVertex → List Ipv4Address → Option (List Ipv4Address × List Ipv4RoutingTableEntry)
  | [], processed => some (processed, [])
  | c :: children, processed =>
    if c.vertexId ∈ processed then processChildren process children processed
    else
      (process c processed).bind fun (processed, routes) =>
        (processChildren process children (c.vertexId :: processed)).map fun (processed, routes') =>
          (processed, routes ++ routes')

def stubRoutes (v : SPFVertex) : List Ipv4RoutingTableEntry :=
  match v.m_lsa.lsType with
  | .RouterLSA => (v.m_lsa.linkRecords.filter fun l => l.linkType = .StubNetwork).flatMap fun l => m.spfIntraAddStub root l v
  | .NetworkLSA => []

def spfProcessStubs (children : Ipv4Address → List SPFVertex) :
    Nat → SPFVertex → List Ipv4Address → Option (List Ipv4Address × List Ipv4RoutingTableEntry)
  | 0, _, _ => none
  | fuel + 1, v, processed =>
    (processChildren (spfProcessStubs children fuel) (children v.vertexId) processed).map fun r =>
      (r.1, m.stubRoutes root v ++ r.2)

/-- The routes of a calculation to its end; no branch of the tree has more vertices than there are LSAs. -/
def spfRoutes : Option (List Ipv4RoutingTableEntry) :=
  let fuel := m.m_lsdb.m_database.length + 1
  (m.m_lsdb.getLSA root).bind fun lsa =>
    let v : SPFVertex := { m_lsa := lsa, m_distanceFromRoot := 0 }
    let status := Function.update (fun _ => .LSA_SPF_NOT_EXPLORED) root .LSA_SPF_IN_SPFTREE
    (m.spfLoop root fuel v { status := status }).bind fun s =>
      (m.spfProcessStubs root s.children fuel v []).map fun r => s.routes ++ r.2

/-! ## The shortcut -/

def isTransitLink (l : LinkRecord) : Bool := l.linkType = .TransitNetwork || l.linkType = .PointToPoint

/-- What `CheckForStubNode` returns and the default route it adds. -/
def checkForStubNode : Option (Bool × Option Ipv4RoutingTableEntry) :=
  (m.m_lsdb.getLSA root).bind fun rlsa =>
    match rlsa.linkRecords.filter isTransitLink with
    | [] => some (true, none)
    | [transitLink] =>
      if transitLink.linkType = .TransitNetwork then some (false, none)
      else
        (m.m_lsdb.getLSA transitLink.linkId).map fun w_lsa =>
          match w_lsa.linkRecords.find? fun lr => lr.linkType = .PointToPoint ∧ lr.linkId = rlsa.linkStateId with
          | some lr => (true, some ⟨0, 0, lr.linkData, uint32 (m.findOutgoingInterfaceId root transitLink.linkData)⟩)
          | none => (false, none)
    | _ => some (false, none)

end GlobalRouteManagerImpl

end Ns3
