import Ns3.Olsr.OlsrState
import Ns3.Lib.Machine

/-!
# `ProcessTc`

The topology set as TC messages change it. The tuples of the sets that the
routes are computed from have further fields here, by which messages are
accepted and tuples replaced. No tuple expires.
-/

namespace Ns3

open List

structure SymLinkTuple extends LinkTuple where
  symTime : Int
  deriving DecidableEq

structure TimedTopologyTuple extends TopologyTuple where
  sequenceNumber : UInt16
  expirationTime : Int
  deriving DecidableEq

/-- The originator and the validity time of the message header, and the TC message. -/
structure TcMessage where
  originatorAddress : Ipv4Address
  vTime : Int
  ansn : UInt16
  neighborAddresses : List Ipv4Address
  deriving DecidableEq

/-- The first link to the interface decides. -/
def findSymLinkTuple (linkSet : List SymLinkTuple) (ifaceAddr : Ipv4Address) (now : Int) : Option SymLinkTuple :=
  match linkSet.find? fun it => it.neighborIfaceAddr = ifaceAddr with
  | some it => if it.symTime > now then some it else none
  | none => none

abbrev TopologySet := List TimedTopologyTuple

namespace TopologySet

def findTopologyTuple (s : TopologySet) (destAddr lastAddr : Ipv4Address) : Option TimedTopologyTuple :=
  s.find? fun it => it.destAddr = destAddr ∧ it.lastAddr = lastAddr

def findNewerTopologyTuple (s : TopologySet) (lastAddr : Ipv4Address) (ansn : UInt16) : Option TimedTopologyTuple :=
  s.find? fun it => it.lastAddr = lastAddr ∧ it.sequenceNumber > ansn

def eraseOlderTopologyTuples (s : TopologySet) (lastAddr : Ipv4Address) (ansn : UInt16) : TopologySet :=
  s.filter fun it => ¬ (it.lastAddr = lastAddr ∧ it.sequenceNumber < ansn)

/-- The tuple that `findTopologyTuple` finds gets another holding time. -/
def hold (destAddr lastAddr : Ipv4Address) (expirationTime : Int) : TopologySet → TopologySet
  | [] => []
  | it :: s =>
    if it.destAddr = destAddr ∧ it.lastAddr = lastAddr then { it with expirationTime := expirationTime } :: s
    else it :: hold destAddr lastAddr expirationTime s

def record (now : Int) (msg : TcMessage) (s : TopologySet) (addr : Ipv4Address) : TopologySet :=
  match s.findTopologyTuple addr msg.originatorAddress with
  | some _ => hold addr msg.originatorAddress (now + msg.vTime) s
  | none => s ++ [⟨⟨addr, msg.originatorAddress⟩, msg.ansn, now + msg.vTime⟩]

/-- Steps 2 to 4 -/
def update (now : Int) (msg : TcMessage) (s : TopologySet) : TopologySet :=
  match s.findNewerTopologyTuple msg.originatorAddress msg.ansn with
  | some _ => s
  | none => msg.neighborAddresses.foldl (record now msg) (s.eraseOlderTopologyTuples msg.originatorAddress msg.ansn)

end TopologySet

structure TopologyInfo where
  linkSet : List SymLinkTuple
  topologySet : TopologySet

def TopologyInfo.processTc (s : TopologyInfo) (now : Int) (msg : TcMessage) (senderIface : Ipv4Address) : TopologyInfo :=
  match findSymLinkTuple s.linkSet senderIface now with
  | none => s
  | some _ => { s with topologySet := s.topologySet.update now msg }

/-! ## What is known of one originator -/

namespace TopologySet

/-- The destinations of an originator's tuples, with the numbers they came under. -/
def advertisedBy (orig : Ipv4Address) (s : TopologySet) : List (Ipv4Address × UInt16) :=
  (s.filter fun it => it.lastAddr = orig).map fun it => (it.destAddr, it.sequenceNumber)

section
variable {orig addr : Ipv4Address} {s : TopologySet} {now : Int} {msg : TcMessage} {e : Ipv4Address × UInt16}

theorem mem_advertisedBy : e ∈ advertisedBy orig s ↔
    ∃ it ∈ s, it.lastAddr = orig ∧ it.destAddr = e.1 ∧ it.sequenceNumber = e.2 := by
  simp only [advertisedBy, List.mem_map, mem_filter, decide_eq_true_eq, Prod.ext_iff, and_assoc]

theorem findTopologyTuple_isSome :
    (s.findTopologyTuple addr orig).isSome = true ↔ addr ∈ (advertisedBy orig s).map Prod.fst := by
  simp only [findTopologyTuple, find?_isSome, decide_eq_true_eq, List.mem_map, mem_advertisedBy]
  constructor
  · exact fun ⟨it, hit, hdest, hlast⟩ => ⟨(addr, it.sequenceNumber), ⟨it, hit, hlast, hdest, rfl⟩, rfl⟩
  · exact fun ⟨_, ⟨it, hit, hlast, hdest, _⟩, hsame⟩ => ⟨it, hit, hdest.trans hsame, hlast⟩

theorem findNewer_isSome {ansn : UInt16} :
    (s.findNewerTopologyTuple orig ansn).isSome = true ↔ ∃ e ∈ advertisedBy orig s, ansn < e.2 := by
  simp only [findNewerTopologyTuple, find?_isSome, decide_eq_true_eq, mem_advertisedBy]
  constructor
  · exact fun ⟨it, hit, hlast, hnew⟩ => ⟨(it.destAddr, it.sequenceNumber), ⟨it, hit, hlast, rfl, rfl⟩, hnew⟩
  · exact fun ⟨e, ⟨it, hit, hlast, _, hseq⟩, hnew⟩ => ⟨it, hit, hlast, by rw [hseq]; exact hnew⟩

theorem advertisedBy_eraseOlder (ansn : UInt16) :
    advertisedBy orig (s.eraseOlderTopologyTuples orig ansn) = (advertisedBy orig s).filter fun e => ¬ e.2 < ansn := by
  unfold eraseOlderTopologyTuples advertisedBy
  rw [List.filter_map, List.filter_filter, List.filter_filter]
  congr 1
  apply filter_congr
  intro it _
  by_cases hlast : it.lastAddr = orig <;> simp [hlast]

theorem advertisedBy_hold (expirationTime : Int) :
    advertisedBy orig (hold addr orig expirationTime s) = advertisedBy orig s := by
  unfold advertisedBy
  induction s with
  | nil => rfl
  | cons it s ih =>
    rw [hold]
    by_cases hit : it.destAddr = addr ∧ it.lastAddr = orig
    · rw [if_pos hit]
      simp [hit.2]
    · rw [if_neg hit]
      by_cases hlast : it.lastAddr = orig
      · simpa [hlast] using ih
      · simpa [hlast] using ih

theorem advertisedBy_record (now : Int) (msg : TcMessage) (s : TopologySet) (addr : Ipv4Address) :
    advertisedBy msg.originatorAddress (record now msg s addr) =
      if addr ∈ (advertisedBy msg.originatorAddress s).map Prod.fst then advertisedBy msg.originatorAddress s
      else advertisedBy msg.originatorAddress s ++ [(addr, msg.ansn)] := by
  rw [record]
  cases hfind : s.findTopologyTuple addr msg.originatorAddress with
  | some it =>
    have hin := findTopologyTuple_isSome.mp (Option.isSome_iff_exists.mpr ⟨it, hfind⟩)
    rw [if_pos hin]
    exact advertisedBy_hold _
  | none =>
    have hnot : addr ∉ (advertisedBy msg.originatorAddress s).map Prod.fst := by
      intro hin
      have := findTopologyTuple_isSome.mpr hin
      rw [hfind] at this
      cases this
    rw [if_neg hnot]
    simp [advertisedBy]

end

/-- The tuples of an originator have the number `ansn` and one destination of `dests` each. -/
structure Advertises (s : TopologySet) (orig : Ipv4Address) (ansn : UInt16) (dests : List Ipv4Address) : Prop where
  number : ∀ e ∈ advertisedBy orig s, e.2 = ansn
  nodup : ((advertisedBy orig s).map Prod.fst).Nodup
  dests : ∀ addr, addr ∈ (advertisedBy orig s).map Prod.fst ↔ addr ∈ dests

section
variable {s : TopologySet} {msg : TcMessage} {dests : List Ipv4Address}

theorem Advertises.record (h : s.Advertises msg.originatorAddress msg.ansn dests) (now : Int) (addr : Ipv4Address) :
    (TopologySet.record now msg s addr).Advertises msg.originatorAddress msg.ansn (dests ++ [addr]) := by
  have heq := advertisedBy_record now msg s addr
  by_cases hin : addr ∈ (advertisedBy msg.originatorAddress s).map Prod.fst
  · rw [if_pos hin] at heq
    refine ⟨heq ▸ h.number, heq ▸ h.nodup, fun a => ?_⟩
    rw [heq, h.dests a, mem_append, mem_singleton]
    constructor
    · exact .inl
    · intro hmem
      rcases hmem with hmem | rfl
      · exact hmem
      · exact (h.dests a).mp hin
  · rw [if_neg hin] at heq
    refine ⟨?_, ?_, fun a => ?_⟩
    · rw [heq]
      intro e he
      rcases mem_append.mp he with he | he
      · exact h.number e he
      · rw [mem_singleton.mp he]
    · rw [heq, map_append, nodup_append]
      refine ⟨h.nodup, nodup_singleton _, ?_⟩
      intro a ha b hb hab
      obtain rfl : b = addr := mem_singleton.mp hb
      exact hin (hab ▸ ha)
    · rw [heq, map_append, mem_append, h.dests a, mem_append]
      rfl

theorem Advertises.foldl_record (h : s.Advertises msg.originatorAddress msg.ansn dests) (now : Int) (addrs : List Ipv4Address) :
    (addrs.foldl (TopologySet.record now msg) s).Advertises msg.originatorAddress msg.ansn (dests ++ addrs) := by
  induction addrs generalizing s dests with
  | nil => rwa [append_nil]
  | cons addr addrs ih =>
    have := ih (h.record now addr)
    rwa [append_assoc] at this

end

end TopologySet

end Ns3
