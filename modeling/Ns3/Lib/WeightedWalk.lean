import Mathlib.Data.Nat.Find
import Mathlib.Tactic.Common

/-!
# Shortest distances

Walks from a root in a directed graph whose arcs have lengths, and the length of
the shortest. An arc may have the length 0.
-/

namespace Ns3

variable {α : Type} {arc : α → α → Nat → Prop} {root : α}

inductive Walk (arc : α → α → Nat → Prop) (root : α) : Nat → α → Prop
  | start : Walk arc root 0 root
  | step {d w : Nat} {a b : α} : Walk arc root d a → arc a b w → Walk arc root (d + w) b

structure Shortest (arc : α → α → Nat → Prop) (root : α) (d : Nat) (x : α) : Prop where
  walk : Walk arc root d x
  least : ∀ d', Walk arc root d' x → d ≤ d'

theorem Walk.exists_shortest {d : Nat} {x : α} (h : Walk arc root d x) : ∃ d', Shortest arc root d' x ∧ d' ≤ d := by
  classical
  have hex : ∃ d, Walk arc root d x := ⟨d, h⟩
  exact ⟨Nat.find hex, ⟨Nat.find_spec hex, fun _ h' => Nat.find_min' hex h'⟩, Nat.find_min' hex h⟩

theorem Shortest.unique {d d' : Nat} {x : α} (h : Shortest arc root d x) (h' : Shortest arc root d' x) : d = d' :=
  Nat.le_antisymm (h.least _ h'.walk) (h'.least _ h.walk)

theorem Shortest.start : Shortest arc root 0 root := ⟨.start, fun _ _ => Nat.zero_le _⟩

theorem Shortest.pred {d : Nat} {x : α} (h : Shortest arc root d x) (hne : x ≠ root) :
    ∃ a d' w, Shortest arc root d' a ∧ arc a x w ∧ d = d' + w := by
  obtain ⟨hwalk, hleast⟩ := h
  cases hwalk with
  | start => exact absurd rfl hne
  | @step d w a _ hbefore harc =>
    refine ⟨a, d, w, ⟨hbefore, fun d' h' => ?_⟩, harc, rfl⟩
    have hle := hleast _ (.step h' harc)
    omega

theorem Shortest.behind {d w : Nat} {a b : α} (h : Shortest arc root d a) (harc : arc a b w) :
    ∃ d', Shortest arc root d' b ∧ d' ≤ d + w :=
  Walk.exists_shortest (.step h.walk harc)

theorem Shortest.level (hunit : ∀ a b w, arc a b w → w = 1) {d : Nat} : ∀ {x : α}, Shortest arc root d x → ∀ k, k ≤ d →
    ∃ y, Shortest arc root k y := by
  induction d with
  | zero =>
    intro x h k hk
    obtain rfl := Nat.le_zero.mp hk
    exact ⟨x, h⟩
  | succ d ih =>
    intro x h k hk
    by_cases hlast : k = d + 1
    · exact ⟨x, hlast ▸ h⟩
    · have hne : x ≠ root := by
        rintro rfl
        exact absurd (h.unique .start) (Nat.succ_ne_zero d)
      obtain ⟨a, d', w, ha, harc, hd⟩ := h.pred hne
      rw [hunit a x w harc] at hd
      obtain rfl := Nat.succ.inj hd
      exact ih ha k (by omega)

end Ns3
