import Mathlib.Data.Finset.Insert
import Ns3.Olsr.RoutingTable

/-!
# `MprComputation`

The choice of the multipoint relays. `N` are the symmetric neighbors, `N2` the
2-hop tuples that are still to be covered; relays are chosen in three steps, and
each takes tuples out of `N2`. The last step goes on while `N2` has tuples, given
up after a number of rounds.
-/

namespace Ns3

def OLSR_WILL_ALWAYS : UInt8 := 7

def OlsrState.findNeighborTuple (m_state : OlsrState) (mainAddr : Ipv4Address) : Option NeighborTuple :=
  m_state.neighborSet.tuples.find? fun it => it.neighborMainAddr = mainAddr

def coverTwoHopNeighbors (neighborMainAddr : Ipv4Address) (N2 : List TwoHopNeighborTuple) : List TwoHopNeighborTuple :=
  let toRemove := (N2.filter fun twoHopNeigh => twoHopNeigh.neighborMainAddr = neighborMainAddr).map (·.twoHopNeighborAddr)
  N2.filter fun twoHopNeigh => twoHopNeigh.twoHopNeighborAddr ∉ toRemove

/-- The relays chosen so far and what is still to be covered. -/
structure MprChoice where
  mprSet : Finset Ipv4Address
  N2 : List TwoHopNeighborTuple

def MprChoice.select (c : MprChoice) (neighborMainAddr : Ipv4Address) : MprChoice :=
  ⟨insert neighborMainAddr c.mprSet, coverTwoHopNeighbors neighborMainAddr c.N2⟩

/-! ## Relays that nothing is left to choose about -/

/-- Step 1 -/
def MprChoice.addAlways (c : MprChoice) (neighbor : NeighborTuple) : MprChoice :=
  if neighbor.willingness = OLSR_WILL_ALWAYS then c.select neighbor.neighborMainAddr else c

/-- No other neighbor of `N2` reaches the 2-hop neighbor of a tuple. -/
def onlyOne (N2 : List TwoHopNeighborTuple) (twoHopNeigh : TwoHopNeighborTuple) : Bool :=
  !N2.any fun otherTwoHopNeigh =>
    otherTwoHopNeigh.twoHopNeighborAddr = twoHopNeigh.twoHopNeighborAddr &&
      otherTwoHopNeigh.neighborMainAddr ≠ twoHopNeigh.neighborMainAddr

/-- The relays and `coveredTwoHopNeighbors`. -/
def addOnlyOne (N2 : List TwoHopNeighborTuple) (r : Finset Ipv4Address × List Ipv4Address) (twoHopNeigh : TwoHopNeighborTuple) :
    Finset Ipv4Address × List Ipv4Address :=
  if onlyOne N2 twoHopNeigh then
    (insert twoHopNeigh.neighborMainAddr r.1,
      r.2 ++ (N2.filter fun otherTwoHopNeigh =>
        otherTwoHopNeigh.neighborMainAddr = twoHopNeigh.neighborMainAddr).map (·.twoHopNeighborAddr))
  else r

/-- Step 3 -/
def MprChoice.addOnlyOnes (c : MprChoice) : MprChoice :=
  let r := c.N2.foldl (addOnlyOne c.N2) (c.mprSet, [])
  ⟨r.1, c.N2.filter fun twoHopNeigh => twoHopNeigh.twoHopNeighborAddr ∉ r.2⟩

/-! ## Relays by their reachability -/

def reachabilityOf (N2 : List TwoHopNeighborTuple) (nb_tuple : NeighborTuple) : Nat :=
  N2.countP fun nb2hop_tuple => nb_tuple.neighborMainAddr = nb2hop_tuple.neighborMainAddr

/-- The neighbors by their reachability. The keys are those of `rs` too. -/
def reachability (N : List NeighborTuple) (N2 : List TwoHopNeighborTuple) : OrdMap Nat (List NeighborTuple) :=
  N.foldl (fun m nb_tuple =>
    m.insert (reachabilityOf N2 nb_tuple) ((m.find (reachabilityOf N2 nb_tuple)).getD [] ++ [nb_tuple])) .empty

namespace OlsrNode

def degree (n : OlsrNode) (tuple : NeighborTuple) : Nat :=
  n.m_state.twoHopNeighborSet.countP fun nb2hop_tuple =>
    nb2hop_tuple.neighborMainAddr = tuple.neighborMainAddr && (n.m_state.findNeighborTuple nb2hop_tuple.neighborMainAddr).isNone

/-- `max` and `max_r` after a neighbor was looked at. -/
def preferred (n : OlsrNode) (r : Nat) (max : Option (NeighborTuple × Nat)) (nb_tuple : NeighborTuple) :
    Option (NeighborTuple × Nat) :=
  match max with
  | none => some (nb_tuple, r)
  | some (max, max_r) =>
    if nb_tuple.willingness > max.willingness then some (nb_tuple, r)
    else if nb_tuple.willingness = max.willingness then
      if r > max_r then some (nb_tuple, r)
      else if r = max_r then
        if n.degree nb_tuple > n.degree max then some (nb_tuple, r) else some (max, max_r)
      else some (max, max_r)
    else some (max, max_r)

/-- The neighbors of one reachability, in their order. -/
def preferredOf (n : OlsrNode) (max : Option (NeighborTuple × Nat)) (e : Nat × List NeighborTuple) :
    Option (NeighborTuple × Nat) :=
  if e.1 = 0 then max else e.2.foldl (n.preferred e.1) max

def maxNeighbor (n : OlsrNode) (N : List NeighborTuple) (N2 : List TwoHopNeighborTuple) : Option (NeighborTuple × Nat) :=
  (reachability N N2).entries.foldl n.preferredOf none

/-- Step 4 -/
def coverRest (n : OlsrNode) (N : List NeighborTuple) : Nat → MprChoice → Option (Finset Ipv4Address)
  | 0, _ => none
  | rounds + 1, c =>
    if c.N2 = [] then some c.mprSet
    else
      match n.maxNeighbor N c.N2 with
      | some (max, _) => n.coverRest N rounds (c.select max.neighborMainAddr)
      | none => n.coverRest N rounds c

/-! ## The computation -/

def symNeighbors (n : OlsrNode) : List NeighborTuple :=
  n.m_state.neighborSet.tuples.filter fun neighbor => neighbor.status = .sym

/-- A 2-hop tuple of a willing member of `N`, to no member of `N` nor the node itself. -/
def inN2 (n : OlsrNode) (N : List NeighborTuple) (twoHopNeigh : TwoHopNeighborTuple) : Bool :=
  if twoHopNeigh.twoHopNeighborAddr = n.m_mainAddress then false
  else
    match N.find? fun neigh => neigh.neighborMainAddr = twoHopNeigh.neighborMainAddr with
    | none => false
    | some neigh =>
      if neigh.willingness = OLSR_WILL_NEVER then false
      else !N.any fun neigh => neigh.neighborMainAddr = twoHopNeigh.twoHopNeighborAddr

def mprComputation (n : OlsrNode) (rounds : Nat) : Option (Finset Ipv4Address) :=
  let N := n.symNeighbors
  let N2 := n.m_state.twoHopNeighborSet.filter (n.inN2 N)
  n.coverRest N rounds (N.foldl MprChoice.addAlways ⟨∅, N2⟩).addOnlyOnes

end OlsrNode

end Ns3
