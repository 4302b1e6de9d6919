import Mathlib.Data.Option.Basic
import Mathlib.Tactic.Common

/-!
# Loops and conditions with effects

`loopWhile` is a loop `while (cond x) x = next x`, given up after `fuel`
rounds. `andAlso` and `orElse` are the conditional operators over conditions
that may themselves be undefined: the second operand only counts when the
first does not decide.
-/

namespace Ns3

variable {α : Type}

def loopWhile (cond : α → Bool) (next : α → α) : Nat → α → Option α
  | 0, _ => none
  | fuel + 1, x => if cond x then loopWhile cond next fuel (next x) else some x

theorem loopWhile_eq (cond : α → Bool) (next : α → α) (f : Nat → α) (hnext : ∀ k, next (f k) = f (k + 1)) :
    ∀ (m fuel k : Nat), (∀ j, j < m → cond (f (k + j)) = true) → cond (f (k + m)) = false → m < fuel →
      loopWhile cond next fuel (f k) = some (f (k + m))
  | _, 0, _, _, _, hfuel => by omega
  | 0, fuel + 1, k, _, hend, _ => by simp_all [loopWhile]
  | m + 1, fuel + 1, k, hrun, hend, hfuel => by
    have hfirst : cond (f k) = true := hrun 0 (by omega)
    have hindex : ∀ j, k + 1 + j = k + (j + 1) := fun j => by omega
    have ih := loopWhile_eq cond next f hnext m fuel (k + 1)
      (fun j hj => by rw [hindex]; exact hrun (j + 1) (by omega)) (by rw [hindex]; exact hend) (by omega)
    rw [loopWhile, if_pos hfirst, hnext, ih, hindex]

theorem loopWhile_some {cond : α → Bool} {next : α → α} {motive : α → Prop}
    (hnext : ∀ x, cond x = true → motive x → motive (next x)) :
    ∀ (fuel : Nat) {x y : α}, motive x → loopWhile cond next fuel x = some y → cond y = false ∧ motive y
  | 0, _, _, _, h => nomatch h
  | fuel + 1, x, y, hx, h => by
    rw [loopWhile] at h
    by_cases hcond : cond x = true
    · rw [if_pos hcond] at h
      exact loopWhile_some hnext fuel (hnext x hcond hx) h
    · rw [if_neg hcond] at h
      cases h
      exact ⟨by simpa using hcond, hx⟩

theorem loopWhile_total {cond : α → Bool} {next : α → α} {motive : α → Prop} (measure : α → Nat)
    (hnext : ∀ x, cond x = true → motive x → motive (next x) ∧ measure (next x) < measure x) :
    ∀ (fuel : Nat) {x : α}, motive x → measure x < fuel →
      ∃ y, loopWhile cond next fuel x = some y ∧ cond y = false ∧ motive y
  | 0, _, _, hfuel => by omega
  | fuel + 1, x, hx, hfuel => by
    rw [loopWhile]
    by_cases hcond : cond x = true
    · obtain ⟨hmotive, hless⟩ := hnext x hcond hx
      rw [if_pos hcond]
      exact loopWhile_total measure hnext fuel hmotive (by omega)
    · rw [if_neg hcond]
      exact ⟨x, rfl, by simpa using hcond, hx⟩

def andAlso (a b : Option Bool) : Option Bool :=
  match a with
  | none => none
  | some false => some false
  | some true => b

def orElse (a b : Option Bool) : Option Bool :=
  match a with
  | none => none
  | some true => some true
  | some false => b

@[simp] theorem andAlso_some (a b : Bool) : andAlso (some a) (some b) = some (a && b) := by
  cases a <;> rfl

@[simp] theorem orElse_some (a b : Bool) : orElse (some a) (some b) = some (a || b) := by
  cases a <;> rfl

end Ns3
