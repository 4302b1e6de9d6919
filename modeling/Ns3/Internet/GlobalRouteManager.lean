import Mathlib.Tactic.Common
import Ns3.Internet.Ipv4Address

/-!
# Links between two vertices of the shortest path tree

`SPFGetNextLink` looks through the link records of a router LSA for those that
lead to a vertex. The record it returned before is passed to it again, but only
tells it to skip two records. A pointer to a record is its index.
-/

namespace Ns3

open List Option

structure GlobalRoutingLinkRecord where
  linkId : Ipv4Address
  linkData : Ipv4Address
  deriving DecidableEq

namespace GlobalRouteManager

def nextLinkLoop (vertexId : Ipv4Address) : Bool → Bool → Nat → List GlobalRoutingLinkRecord → Option Nat
  | _, _, _, [] => none
  | skip, foundPrevLink, i, l :: records =>
    if l.linkId = vertexId then
      if !foundPrevLink then nextLinkLoop vertexId skip true (i + 1) records
      else if skip = false then some i
      else nextLinkLoop vertexId false foundPrevLink (i + 1) records
    else nextLinkLoop vertexId skip foundPrevLink (i + 1) records

/-- The null pointer is `none`. -/
def spfGetNextLink (records : List GlobalRoutingLinkRecord) (vertexId : Ipv4Address) (prevLink : Option Nat) : Option Nat :=
  nextLinkLoop vertexId prevLink.isSome prevLink.isNone 0 records

/-- The root exits of a vertex: next hop and outgoing interface. -/
abbrev NodeExit := Ipv4Address × Nat

/-- The loop of `SPFNexthopCalculation` when the parent is a network: the links it visits
and the root exits of the vertex after it. -/
def nexthopLoop (records : List GlobalRoutingLinkRecord) (vertexId : Ipv4Address) (outIf : Nat) :
    Nat → Option Nat → List NodeExit → Option (List Nat × List NodeExit)
  | 0, _, _ => none
  | fuel + 1, linkRemote, exits =>
    match spfGetNextLink records vertexId linkRemote with
    | none => some ([], exits)
    | some l =>
      (records[l]?.bind fun record =>
        nexthopLoop records vertexId outIf fuel (some l) [(record.linkData, outIf)]).map fun r => (l :: r.1, r.2)

/-! ## What the search returns -/

section
variable {vertexId : Ipv4Address}

/-- The records that lead to the vertex, in order, counted from `i` on. -/
def links (vertexId : Ipv4Address) : Nat → List GlobalRoutingLinkRecord → List Nat
  | _, [] => []
  | i, l :: records => if l.linkId = vertexId then i :: links vertexId (i + 1) records else links vertexId (i + 1) records

theorem links_length (i : Nat) : ∀ records : List GlobalRoutingLinkRecord,
    (links vertexId i records).length = records.countP fun l => l.linkId = vertexId
  | [] => rfl
  | l :: records => by
    rw [links, List.countP_cons]
    by_cases hl : l.linkId = vertexId
    · simp [hl, links_length (i + 1) records]
    · simp [hl, links_length (i + 1) records]

theorem mem_links {j : Nat} : ∀ {records : List GlobalRoutingLinkRecord} {i : Nat}, j ∈ links vertexId i records ↔
    i ≤ j ∧ ∃ l, records[j - i]? = some l ∧ l.linkId = vertexId
  | [], i => by simp [links]
  | l :: records, i => by
    have htail : (i + 1 ≤ j ∧ ∃ l, records[j - (i + 1)]? = some l ∧ l.linkId = vertexId) ↔
        i < j ∧ ∃ l', (l :: records)[j - i]? = some l' ∧ l'.linkId = vertexId := by
      refine and_congr_right fun hlt => ?_
      rw [show j - i = j - (i + 1) + 1 by omega, getElem?_cons_succ]
    rw [links]
    by_cases hl : l.linkId = vertexId
    · rw [if_pos hl, mem_cons, mem_links, htail]
      constructor
      · rintro (rfl | ⟨hlt, hj⟩)
        · exact ⟨Nat.le_refl j, l, by simp, hl⟩
        · exact ⟨Nat.le_of_lt hlt, hj⟩
      · rintro ⟨hle, hj⟩
        rcases Nat.eq_or_lt_of_le hle with heq | hlt
        · exact .inl heq.symm
        · exact .inr ⟨hlt, hj⟩
    · rw [if_neg hl, mem_links, htail]
      refine ⟨fun h => ⟨Nat.le_of_lt h.1, h.2⟩, fun ⟨hle, l', hl', hid⟩ => ?_⟩
      rcases Nat.eq_or_lt_of_le hle with rfl | hlt
      · simp only [Nat.sub_self, getElem?_cons_zero, Option.some.injEq] at hl'
        exact absurd (hl' ▸ hid) hl
      · exact ⟨hlt, l', hl', hid⟩

theorem nextLinkLoop_first : ∀ (records : List GlobalRoutingLinkRecord) (i : Nat),
    nextLinkLoop vertexId false true i records = (links vertexId i records)[0]?
  | [], _ => rfl
  | l :: records, i => by
    rw [nextLinkLoop, links]
    by_cases hl : l.linkId = vertexId
    · simp [hl]
    · rw [if_neg hl, if_neg hl, nextLinkLoop_first records (i + 1)]

theorem nextLinkLoop_skip : ∀ (records : List GlobalRoutingLinkRecord) (i : Nat),
    nextLinkLoop vertexId true true i records = (links vertexId i records)[1]?
  | [], _ => rfl
  | l :: records, i => by
    rw [nextLinkLoop, links]
    by_cases hl : l.linkId = vertexId
    · simp [hl, nextLinkLoop_first]
    · rw [if_neg hl, if_neg hl, nextLinkLoop_skip records (i + 1)]

theorem nextLinkLoop_skip_two : ∀ (records : List GlobalRoutingLinkRecord) (i : Nat),
    nextLinkLoop vertexId true false i records = (links vertexId i records)[2]?
  | [], _ => rfl
  | l :: records, i => by
    rw [nextLinkLoop, links]
    by_cases hl : l.linkId = vertexId
    · simp [hl, nextLinkLoop_skip]
    · rw [if_neg hl, if_neg hl, nextLinkLoop_skip_two records (i + 1)]

theorem spfGetNextLink_eq (records : List GlobalRoutingLinkRecord) (prevLink : Option Nat) :
    spfGetNextLink records vertexId prevLink = (links vertexId 0 records)[if prevLink = none then 0 else 2]? := by
  cases prevLink with
  | none => exact nextLinkLoop_first records 0
  | some l => exact nextLinkLoop_skip_two records 0

/-! ## What the loop visits -/

variable {records : List GlobalRoutingLinkRecord} {outIf : Nat}

theorem record_of_link {l : Nat} (h : l ∈ links vertexId 0 records) : ∃ record, records[l]? = some record := by
  obtain ⟨-, record, hrecord, -⟩ := mem_links.mp h
  exact ⟨record, hrecord⟩

theorem nexthopLoop_third {l : Nat} (h : (links vertexId 0 records)[2]? = some l) : ∀ (fuel : Nat) (prev : Nat) (exits : List NodeExit),
    nexthopLoop records vertexId outIf fuel (some prev) exits = none
  | 0, _, _ => rfl
  | fuel + 1, prev, exits => by
    obtain ⟨record, hrecord⟩ := record_of_link (mem_of_getElem? h)
    have hnext : spfGetNextLink records vertexId (some prev) = some l := (spfGetNextLink_eq records (some prev)).trans h
    simp only [nexthopLoop, hnext, hrecord, bind_some, nexthopLoop_third h fuel, map_none]

theorem nexthopLoop_no_third (h : (links vertexId 0 records)[2]? = none) (fuel prev : Nat) (exits : List NodeExit) :
    nexthopLoop records vertexId outIf (fuel + 1) (some prev) exits = some ([], exits) := by
  have hnext : spfGetNextLink records vertexId (some prev) = none := (spfGetNextLink_eq records (some prev)).trans h
  simp only [nexthopLoop, hnext]

/-- The loop ends, and what it visits are the links to the vertex, each once and in order. -/
def Enumerates (records : List GlobalRoutingLinkRecord) (vertexId : Ipv4Address) (outIf : Nat) (exits : List NodeExit) : Prop :=
  ∃ fuel r, nexthopLoop records vertexId outIf fuel none exits = some r ∧ r.1 = links vertexId 0 records

theorem nexthopLoop_visits (fuel : Nat) (exits : List NodeExit) :
    (nexthopLoop records vertexId outIf (fuel + 2) none exits).map Prod.fst =
      if 2 < (links vertexId 0 records).length then none else some ((links vertexId 0 records).take 1) := by
  have hfirst : spfGetNextLink records vertexId none = (links vertexId 0 records)[0]? := spfGetNextLink_eq records none
  rw [nexthopLoop]
  cases hlinks : links vertexId 0 records with
  | nil =>
    rw [hlinks] at hfirst
    simp only [hfirst, getElem?_nil, map_some, length_nil, take_nil, Nat.not_lt_zero, if_false]
  | cons l others =>
    rw [hlinks, getElem?_cons_zero] at hfirst
    have hmem : l ∈ links vertexId 0 records := by
      rw [hlinks]
      exact mem_cons_self
    obtain ⟨record, hrecord⟩ := record_of_link hmem
    simp only [hfirst, hrecord, bind_some, Option.map_map]
    by_cases hmore : 2 < (l :: others).length
    · have hthird : (links vertexId 0 records)[2]? = some (l :: others)[2] := by rw [hlinks]; exact getElem?_eq_getElem hmore
      rw [nexthopLoop_third hthird, if_pos hmore]
      rfl
    · have hthird : (links vertexId 0 records)[2]? = none := by rw [hlinks]; exact getElem?_eq_none (Nat.le_of_not_lt hmore)
      rw [nexthopLoop_no_third hthird, if_neg hmore]
      rfl

theorem not_enumerates (h : 1 < (links vertexId 0 records).length) (exits : List NodeExit) :
    ¬ Enumerates records vertexId outIf exits := by
  rintro ⟨fuel, r, hloop, hvisits⟩
  match fuel, hloop with
  | 1, hloop =>
    have hfirst : spfGetNextLink records vertexId none = some (links vertexId 0 records)[0] :=
      (spfGetNextLink_eq records none).trans (getElem?_eq_getElem (Nat.lt_of_succ_lt h))
    obtain ⟨record, hrecord⟩ := record_of_link (getElem_mem (Nat.lt_of_succ_lt h))
    simp only [nexthopLoop, hfirst, hrecord, bind_some, map_none, reduceCtorEq] at hloop
  | fuel + 2, hloop =>
    have hall := @nexthopLoop_visits vertexId records outIf fuel exits
    rw [hloop, map_some, hvisits] at hall
    by_cases hmore : 2 < (links vertexId 0 records).length
    · rw [if_pos hmore] at hall
      cases hall
    · rw [if_neg hmore] at hall
      have hlength := congrArg List.length (Option.some.inj hall)
      rw [length_take] at hlength
      omega

end

/-- **Iterating links.** The loop ends and has visited just the links to the vertex when
there is at most one of them. -/
theorem enumerates_iff (records : List GlobalRoutingLinkRecord) (vertexId : Ipv4Address) (outIf : Nat) (exits : List NodeExit) :
    Enumerates records vertexId outIf exits ↔ records.countP (fun l => l.linkId = vertexId) ≤ 1 := by
  rw [← links_length 0]
  constructor
  · intro henumerates
    by_contra hmany
    exact not_enumerates (Nat.lt_of_not_le hmany) exits henumerates
  · intro hfew
    have hall := @nexthopLoop_visits vertexId records outIf 0 exits
    rw [if_neg (by omega), take_of_length_le hfew] at hall
    obtain ⟨r, hloop, hvisits⟩ := map_eq_some_iff.mp hall
    exact ⟨2, r, hloop, hvisits⟩

/-- Two parallel links: the second is never visited. -/
theorem parallel_not_enumerated : ¬ Enumerates [⟨1, 10⟩, ⟨1, 20⟩] 1 0 [] := by
  apply not_enumerates
  decide

end GlobalRouteManager

end Ns3
