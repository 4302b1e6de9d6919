import Mathlib.Data.Set.Insert
import Mathlib.Logic.Relation

/-!
# Acknowledged transfer

A sender holds every item it has sent until a report of the receiver
acknowledges it. Reports may be lost, repeated and late: a report stays true,
because the receiver gives nothing back. So an item that is not held any more
has been placed at the receiver (`Safe`).
-/

namespace Ns3

/-- The items sent, those still held, those placed at the receiver, and what
each report acknowledges. -/
@[ext]
structure Transfer (ι : Type) where
  sent : Set ι
  held : Set ι
  placed : Set ι
  reports : Set (Set ι)

namespace Transfer

variable {ι : Type}

inductive Step : Transfer ι → Transfer ι → Prop
  | send (s : Transfer ι) (i : ι) : Step s { s with sent := insert i s.sent, held := insert i s.held }
  | place (s : Transfer ι) (i : ι) : Step s { s with placed := insert i s.placed }
  | report (s : Transfer ι) (acked : Set ι) (h : acked ⊆ s.placed) :
      Step s { s with reports := insert acked s.reports }
  | discard (s : Transfer ι) (acked held : Set ι) (h : acked ∈ s.reports) (hsub : held ⊆ s.held)
      (hkept : s.held \ acked ⊆ held) : Step s { s with held := held }

def Steps : Transfer ι → Transfer ι → Prop := Relation.ReflTransGen Step

structure Safe (s : Transfer ι) : Prop where
  kept : s.sent ⊆ s.held ∪ s.placed
  truthful : ∀ acked ∈ s.reports, acked ⊆ s.placed

theorem Step.safe {s s' : Transfer ι} (h : Step s s') (hs : s.Safe) : s'.Safe := by
  obtain ⟨hkept, htrue⟩ := hs
  cases h with
  | send i =>
    refine ⟨?_, htrue⟩
    rw [Set.insert_union]
    exact Set.insert_subset_insert hkept
  | place i =>
    refine ⟨?_, fun acked ha => (htrue acked ha).trans (Set.subset_insert i _)⟩
    exact hkept.trans (Set.union_subset_union_right _ (Set.subset_insert i _))
  | report acked ha =>
    refine ⟨hkept, ?_⟩
    rintro acked' (rfl | ha')
    · exact ha
    · exact htrue acked' ha'
  | discard acked held ha hsub hheld =>
    refine ⟨fun i hi => ?_, htrue⟩
    rcases hkept hi with hi | hi
    · by_cases hack : i ∈ acked
      · exact .inr (htrue acked ha hack)
      · exact .inl (hheld ⟨hi, hack⟩)
    · exact .inr hi

theorem Steps.safe {s s' : Transfer ι} (h : Steps s s') (hs : s.Safe) : s'.Safe := by
  induction h with
  | refl => exact hs
  | tail _ hstep ih => exact hstep.safe ih

theorem Safe.placed_of_not_held {s : Transfer ι} (hs : s.Safe) {i : ι} (hi : i ∈ s.sent) (hheld : i ∉ s.held) :
    i ∈ s.placed :=
  (hs.kept hi).resolve_left hheld

end Transfer

end Ns3
