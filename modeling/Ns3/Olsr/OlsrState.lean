import Ns3.Internet.Ipv4Address
import Mathlib.Data.List.Nodup

/-!
# `OlsrState`

The sets of tuples that a node has learnt. A neighbor is in the neighbor set
once, as `InsertNeighborTuple` updates the tuple that is there.
-/

namespace Ns3

open List

structure IfaceAssocTuple where
  ifaceAddr : Ipv4Address
  mainAddr : Ipv4Address
  deriving DecidableEq

structure LinkTuple where
  localIfaceAddr : Ipv4Address
  neighborIfaceAddr : Ipv4Address
  time : Int
  deriving DecidableEq

inductive NeighborStatus where
  | notSym
  | sym
  deriving DecidableEq

structure NeighborTuple where
  neighborMainAddr : Ipv4Address
  status : NeighborStatus
  willingness : UInt8
  deriving DecidableEq

structure TwoHopNeighborTuple where
  neighborMainAddr : Ipv4Address
  twoHopNeighborAddr : Ipv4Address
  deriving DecidableEq

structure TopologyTuple where
  destAddr : Ipv4Address
  lastAddr : Ipv4Address
  deriving DecidableEq

def OLSR_WILL_NEVER : UInt8 := 0

/-! ## The neighbor set -/

def insertNeighbor (tuple : NeighborTuple) : List NeighborTuple → List NeighborTuple
  | [] => [tuple]
  | it :: tuples =>
    if it.neighborMainAddr = tuple.neighborMainAddr then tuple :: tuples
    else it :: insertNeighbor tuple tuples

theorem mem_insertNeighbor {tuple : NeighborTuple} {tuples : List NeighborTuple} {a : Ipv4Address}
    (h : a ∈ (insertNeighbor tuple tuples).map (·.neighborMainAddr)) :
    a = tuple.neighborMainAddr ∨ a ∈ tuples.map (·.neighborMainAddr) := by
  induction tuples with
  | nil => exact .inl (mem_singleton.mp h)
  | cons it tuples ih =>
    rw [insertNeighbor] at h
    by_cases hsame : it.neighborMainAddr = tuple.neighborMainAddr
    · rw [if_pos hsame] at h
      rcases mem_cons.mp h with h | h
      · exact .inl h
      · exact .inr (mem_cons_of_mem _ h)
    · rw [if_neg hsame] at h
      rcases mem_cons.mp h with h | h
      · exact .inr (by rw [h]; exact mem_cons_self)
      · rcases ih h with h | h
        · exact .inl h
        · exact .inr (mem_cons_of_mem _ h)

theorem insertNeighbor_nodup (tuple : NeighborTuple) {tuples : List NeighborTuple} (h : (tuples.map (·.neighborMainAddr)).Nodup) :
    ((insertNeighbor tuple tuples).map (·.neighborMainAddr)).Nodup := by
  induction tuples with
  | nil => exact nodup_singleton _
  | cons it tuples ih =>
    rw [map_cons, nodup_cons] at h
    obtain ⟨hnew, htuples⟩ := h
    rw [insertNeighbor]
    by_cases hsame : it.neighborMainAddr = tuple.neighborMainAddr
    · rw [hsame] at hnew
      rw [if_pos hsame, map_cons, nodup_cons]
      exact ⟨hnew, htuples⟩
    · rw [if_neg hsame, map_cons, nodup_cons]
      refine ⟨fun hmem => ?_, ih htuples⟩
      rcases mem_insertNeighbor hmem with heq | hmem
      · exact hsame heq
      · exact hnew hmem

structure NeighborSet where
  tuples : List NeighborTuple
  nodup : (tuples.map (·.neighborMainAddr)).Nodup

namespace NeighborSet

def empty : NeighborSet := ⟨[], List.nodup_nil⟩

def insert (s : NeighborSet) (tuple : NeighborTuple) : NeighborSet :=
  ⟨insertNeighbor tuple s.tuples, insertNeighbor_nodup tuple s.nodup⟩

theorem eq_of_mem (s : NeighborSet) {t t' : NeighborTuple} (h : t ∈ s.tuples) (h' : t' ∈ s.tuples)
    (hsame : t.neighborMainAddr = t'.neighborMainAddr) : t = t' :=
  inj_on_of_nodup_map s.nodup h h' hsame

end NeighborSet

/-- The sets that the computation of routes reads. -/
structure OlsrState where
  linkSet : List LinkTuple
  neighborSet : NeighborSet
  twoHopNeighborSet : List TwoHopNeighborTuple
  topologySet : List TopologyTuple
  ifaceAssocSet : List IfaceAssocTuple

namespace OlsrState

def findSymNeighborTuple (m_state : OlsrState) (mainAddr : Ipv4Address) : Option NeighborTuple :=
  m_state.neighborSet.tuples.find? fun it => it.neighborMainAddr = mainAddr ∧ it.status = .sym

def findIfaceAssocTuple (m_state : OlsrState) (ifaceAddr : Ipv4Address) : Option IfaceAssocTuple :=
  m_state.ifaceAssocSet.find? fun it => it.ifaceAddr = ifaceAddr

end OlsrState

end Ns3
