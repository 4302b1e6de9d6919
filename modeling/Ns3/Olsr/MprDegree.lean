import Ns3.Olsr.MprSound
import Ns3.Lib.ArgMax
import Mathlib.Data.Finset.Card

/-!
# What decides between relays

The last step of `MprComputation` is to go by willingness, then reachability,
then `D(y)`. `Degree` looks each neighbor itself up among the neighbors, where it
is found, and so is 0: ties in the first two keys go to the neighbor that comes
first.
-/

namespace Ns3

open List

/-! ## The keys -/

def candidates (N : List NeighborTuple) (N2 : List TwoHopNeighborTuple) : List NeighborTuple :=
  N.filter fun y => reachabilityOf N2 y ≠ 0

def rank (N2 : List TwoHopNeighborTuple) (y : NeighborTuple) : ℕ ×ₗ ℕ :=
  toLex (y.willingness.toNat, reachabilityOf N2 y)

namespace OlsrNode

/-- `D(y)`: the symmetric neighbors of `y`, without the node itself and its own symmetric neighbors. -/
def rfcDegree (n : OlsrNode) (y : NeighborTuple) : Nat :=
  ((n.m_state.twoHopNeighborSet.filter fun t =>
    t.neighborMainAddr = y.neighborMainAddr && t.twoHopNeighborAddr ≠ n.m_mainAddress &&
      (n.m_state.findSymNeighborTuple t.twoHopNeighborAddr).isNone).map (·.twoHopNeighborAddr)).toFinset.card

/-- The greatest by willingness, reachability and `D(y)`. -/
def Foremost (n : OlsrNode) (N2 : List TwoHopNeighborTuple) (y : NeighborTuple) : Prop :=
  y ∈ candidates n.symNeighbors N2 ∧
    ∀ z ∈ candidates n.symNeighbors N2, toLex (rank N2 z, n.rfcDegree z) ≤ toLex (rank N2 y, n.rfcDegree y)

/-! ## The rounds of step 4 -/

/-- What `N2` is before a round, by the choice that a round makes. -/
inductive RoundFrom (choose : List TwoHopNeighborTuple → Option NeighborTuple) (N2₀ : List TwoHopNeighborTuple) :
    List TwoHopNeighborTuple → Prop
  | start : RoundFrom choose N2₀ N2₀
  | next {N2 : List TwoHopNeighborTuple} {y : NeighborTuple} :
    RoundFrom choose N2₀ N2 → N2 ≠ [] → choose N2 = some y →
      RoundFrom choose N2₀ (coverTwoHopNeighbors y.neighborMainAddr N2)

def step4 (n : OlsrNode) : MprChoice :=
  (n.symNeighbors.foldl MprChoice.addAlways
    ⟨∅, n.m_state.twoHopNeighborSet.filter (n.inN2 n.symNeighbors)⟩).addOnlyOnes

def chosen (n : OlsrNode) (N2 : List TwoHopNeighborTuple) : Option NeighborTuple :=
  (n.maxNeighbor n.symNeighbors N2).map (·.1)

/-- `y` is chosen in a round that starts with `N2`. -/
structure Chooses (n : OlsrNode) (N2 : List TwoHopNeighborTuple) (y : NeighborTuple) : Prop where
  round : RoundFrom n.chosen n.step4.N2 N2
  left : N2 ≠ []
  chosen : n.chosen N2 = some y

/-- The neighbor that comes first among the greatest by willingness and reachability. -/
def firstOfGreatest (n : OlsrNode) (N2 : List TwoHopNeighborTuple) : Option NeighborTuple :=
  (candidates n.symNeighbors N2).argmax (rank N2)

/-- None that ties with that neighbor has a greater `D(y)`. -/
def TiesAgree (n : OlsrNode) (N2 : List TwoHopNeighborTuple) : Prop :=
  ∀ y, n.firstOfGreatest N2 = some y → ∀ z ∈ candidates n.symNeighbors N2, rank N2 z = rank N2 y →
    n.rfcDegree z ≤ n.rfcDegree y

/-! ## The relays of the rounds -/

section
variable (n : OlsrNode)

/-! ## The choice of a round -/

theorem degree_eq_zero {y : NeighborTuple} (hy : y ∈ n.m_state.neighborSet.tuples) : n.degree y = 0 := by
  apply countP_eq_zero.mpr
  intro t ht
  rw [Bool.and_eq_true, not_and]
  intro hsame hnone
  rw [of_decide_eq_true hsame] at hnone
  exact find?_eq_none.mp (Option.isNone_iff_eq_none.mp hnone) y hy (decide_eq_true rfl)

variable {N2 : List TwoHopNeighborTuple}

theorem rank_lt_iff {x y : NeighborTuple} : rank N2 x < rank N2 y ↔ x.willingness < y.willingness ∨
      x.willingness = y.willingness ∧ reachabilityOf N2 x < reachabilityOf N2 y := by
  rw [Prod.Lex.lt_iff]
  rw [show x.willingness = y.willingness ↔ x.willingness.toNat = y.willingness.toNat from UInt8.toNat_inj.symm]
  rfl

theorem preferred_eq {x y : NeighborTuple} (hdegree : n.degree x = n.degree y) :
    n.preferred (reachabilityOf N2 y) (some (x, reachabilityOf N2 x)) y =
      some (if rank N2 x < rank N2 y then (y, reachabilityOf N2 y) else (x, reachabilityOf N2 x)) := by
  rw [preferred]
  by_cases hgreater : y.willingness > x.willingness
  · rw [if_pos hgreater, if_pos (rank_lt_iff.mpr (.inl hgreater))]
  · rw [if_neg hgreater]
    by_cases hsame : y.willingness = x.willingness
    · rw [if_pos hsame]
      by_cases hmore : reachabilityOf N2 y > reachabilityOf N2 x
      · rw [if_pos hmore, if_pos (rank_lt_iff.mpr (.inr ⟨hsame.symm, hmore⟩))]
      · have hnot : ¬ rank N2 x < rank N2 y := by
          intro hlt
          rcases rank_lt_iff.mp hlt with hlt | ⟨-, hlt⟩
          · exact hgreater hlt
          · exact hmore hlt
        rw [if_neg hmore, if_neg hnot, if_neg hdegree.ge.not_gt]
        exact ite_self _
    · have hnot : ¬ rank N2 x < rank N2 y := by
        intro hlt
        rcases rank_lt_iff.mp hlt with hlt | ⟨hsame', -⟩
        · exact hgreater hlt
        · exact hsame hsame'.symm
      rw [if_neg hsame, if_neg hnot]

def withReach (N2 : List TwoHopNeighborTuple) (max : Option NeighborTuple) : Option (NeighborTuple × Nat) :=
  max.map fun y => (y, reachabilityOf N2 y)

theorem foldl_preferred_eq {l : List NeighborTuple} (hdegree : ∀ y ∈ l, n.degree y = 0) :
    ∀ max : Option NeighborTuple, (∀ y ∈ max, n.degree y = 0) →
      l.foldl (fun max y => n.preferred (reachabilityOf N2 y) max y) (withReach N2 max) =
        withReach N2 (l.foldl (List.argAux fun y x => rank N2 x < rank N2 y) max) := by
  induction l with
  | nil => exact fun _ _ => rfl
  | cons y l ih =>
    intro max hmax
    have hy := hdegree y mem_cons_self
    have hrest := ih fun z hz => hdegree z (mem_cons_of_mem y hz)
    have hnext : n.preferred (reachabilityOf N2 y) (withReach N2 max) y =
          withReach N2 (argAux (fun y x => rank N2 x < rank N2 y) max y) ∧
        ∀ z ∈ argAux (fun y x => rank N2 x < rank N2 y) max y, n.degree z = 0 := by
      cases max with
      | none => exact ⟨rfl, fun z hz => Option.some.inj hz ▸ hy⟩
      | some x =>
        have hx := hmax x rfl
        rw [withReach, Option.map_some, n.preferred_eq (hx.trans hy.symm)]
        dsimp only [argAux]
        by_cases hlt : rank N2 x < rank N2 y
        · rw [if_pos hlt, if_pos hlt]
          exact ⟨rfl, fun z hz => Option.some.inj hz ▸ hy⟩
        · rw [if_neg hlt, if_neg hlt]
          exact ⟨rfl, fun z hz => Option.some.inj hz ▸ hx⟩
    rw [foldl_cons, foldl_cons, hnext.1]
    exact hrest _ hnext.2

theorem foldl_preferredOf_eq {es : List (Nat × List NeighborTuple)}
    (hreach : ∀ e ∈ es, ∀ y ∈ e.2, reachabilityOf N2 y = e.1) :
    ∀ max : Option (NeighborTuple × Nat), es.foldl n.preferredOf max =
      (candidates (es.flatMap (·.2)) N2).foldl (fun max y => n.preferred (reachabilityOf N2 y) max y) max := by
  induction es with
  | nil => exact fun _ => rfl
  | cons e es ih =>
    intro max
    have hself := hreach e mem_cons_self
    have hrest := ih fun e' he' => hreach e' (mem_cons_of_mem e he')
    rw [foldl_cons, flatMap_cons, candidates, filter_append, foldl_append, hrest, preferredOf]
    by_cases hzero : e.1 = 0
    · have hnil : (e.2.filter fun y => reachabilityOf N2 y ≠ 0) = [] := by
        apply filter_eq_nil_iff.mpr
        intro y hy hne
        exact of_decide_eq_true hne ((hself y hy).trans hzero)
      rw [if_pos hzero, hnil]
      rfl
    · have hall : (e.2.filter fun y => reachabilityOf N2 y ≠ 0) = e.2 := by
        apply filter_eq_self.mpr
        intro y hy
        rw [hself y hy]
        exact decide_eq_true hzero
      rw [if_neg hzero, hall]
      congr 1
      apply foldl_ext
      intro max y hy
      rw [hself y hy]

theorem reachability_find (N : List NeighborTuple) (N2 : List TwoHopNeighborTuple) (r : Nat) :
    ((reachability N N2).find r).getD [] = N.filter fun y => reachabilityOf N2 y = r := by
  unfold reachability
  apply foldl_prefix (motive := fun before m => ∀ r, (OrdMap.find m r).getD [] = before.filter fun y => reachabilityOf N2 y = r)
  · intro r
    rfl
  · intro before y after m hsplit h r
    rw [OrdMap.find_insert, filter_append, ← h r]
    by_cases hr : r = reachabilityOf N2 y
    · rw [if_pos hr, hr]
      simp
    · rw [if_neg hr]
      simp [Ne.symm hr]

/-- **The rule of the code.** Of the greatest by willingness and reachability, the first. -/
theorem chosen_eq : n.chosen N2 = n.firstOfGreatest N2 := by
  have hgroups := reachability_find n.symNeighbors N2
  let es := (reachability n.symNeighbors N2).entries
  have hreach : ∀ e ∈ es, ∀ y ∈ e.2, y ∈ n.symNeighbors ∧ reachabilityOf N2 y = e.1 := by
    intro e he y hy
    exact (reachability_grouped n.symNeighbors N2).sound e.1 e.2 (OrdMap.find_of_mem _ he) y hy
  have hdegree : ∀ y ∈ candidates (es.flatMap (·.2)) N2, n.degree y = 0 := by
    intro y hy
    obtain ⟨e, he, hin⟩ := mem_flatMap.mp (mem_filter.mp hy).1
    exact n.degree_eq_zero (n.mem_symNeighbors.mp (hreach e he y hin).1).1
  have hmax : n.maxNeighbor n.symNeighbors N2 = withReach N2 ((candidates (es.flatMap (·.2)) N2).argmax (rank N2)) := by
    rw [maxNeighbor, n.foldl_preferredOf_eq fun e he y hy => (hreach e he y hy).2]
    exact n.foldl_preferred_eq hdegree none (by simp)
  have hsame : (candidates (es.flatMap (·.2)) N2).argmax (rank N2) = n.firstOfGreatest N2 := by
    apply argmax_congr
    intro b
    have hreached : ∀ l : List NeighborTuple, ((candidates l N2).filter fun y => rank N2 y = b) =
        ((l.filter fun y => reachabilityOf N2 y = (ofLex b).2).filter fun y =>
          reachabilityOf N2 y ≠ 0 ∧ rank N2 y = b) := by
      intro l
      rw [candidates, List.filter_filter, List.filter_filter]
      apply filter_congr
      intro y _
      by_cases hb : rank N2 y = b
      · have hr : reachabilityOf N2 y = (ofLex b).2 := by rw [← hb]; rfl
        simp [hb, hr]
      · simp [hb]
    rw [hreached, hreached, filter_flatMap_groups (reachability n.symNeighbors N2).sorted
      fun e he y hy => (hreach e he y hy).2]
    exact congrArg _ (hgroups _)
  rw [chosen, hmax, hsame, withReach, Option.map_map]
  exact congrFun Option.map_id _

/-- **The third key.** All choices of step 4 are foremost if and only if the first of the greatest has
the greatest `D(y)` of those it ties with, in each round that goes by willingness and reachability. -/
theorem foremost_iff : (∀ N2 y, n.Chooses N2 y → n.Foremost N2 y) ↔
      ∀ N2, RoundFrom n.firstOfGreatest n.step4.N2 N2 → n.TiesAgree N2 := by
  have hchoose : n.chosen = n.firstOfGreatest := funext fun N2 => n.chosen_eq
  have hround : ∀ N2 y, n.firstOfGreatest N2 = some y → (n.Foremost N2 y ↔
      ∀ z ∈ candidates n.symNeighbors N2, rank N2 z = rank N2 y → n.rfcDegree z ≤ n.rfcDegree y) := by
    intro N2 y hy
    rw [Foremost, argmax_lex_iff hy]
    exact and_iff_right (argmax_mem hy)
  constructor
  · intro hall N2 hreached y hy
    have hleft : N2 ≠ [] := by
      intro hnil
      have hmem := (mem_filter.mp (argmax_mem hy)).2
      rw [hnil] at hmem
      exact of_decide_eq_true hmem rfl
    apply (hround N2 y hy).mp
    exact hall N2 y ⟨hchoose ▸ hreached, hleft, hchoose ▸ hy⟩
  · intro hties N2 y h
    have hy : n.firstOfGreatest N2 = some y := hchoose ▸ h.chosen
    exact (hround N2 y hy).mpr (hties N2 (hchoose ▸ h.round) y hy)

end

/-! ## A tie that goes wrong -/

/-- Nodes 2, 3 and 4 are neighbors of node 1. Node 5 is behind 2 and 3, node 6 behind 3 and 4, which
is always a relay. -/
def tiedNode : OlsrNode where
  m_mainAddress := 1
  now := 0
  m_ipv4 := []
  m_state := {
    linkSet := []
    neighborSet := ⟨[⟨2, .sym, 3⟩, ⟨3, .sym, 3⟩, ⟨4, .sym, 7⟩], by decide⟩
    twoHopNeighborSet := [⟨2, 5⟩, ⟨3, 5⟩, ⟨3, 6⟩, ⟨4, 6⟩]
    topologySet := []
    ifaceAssocSet := [] }

/-- Node 2 is chosen, with `D` 1; node 3 has the same willingness and reachability, and `D` 2. -/
theorem tied_not_foremost : ¬ ∀ (n : OlsrNode) N2 y, n.Chooses N2 y → n.Foremost N2 y := by
  intro h
  have hstart : tiedNode.step4.N2 = [⟨2, 5⟩, ⟨3, 5⟩] := by decide
  have hchooses : tiedNode.Chooses [⟨2, 5⟩, ⟨3, 5⟩] ⟨2, .sym, 3⟩ := ⟨hstart ▸ .start, by decide, by decide⟩
  have hle := (h tiedNode _ _ hchooses).2 ⟨3, .sym, 3⟩ (by decide)
  exact absurd hle (by decide)

end OlsrNode

end Ns3
