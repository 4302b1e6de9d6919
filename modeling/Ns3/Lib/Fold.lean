import Mathlib.Tactic.Common

/-!
# Loops over a list

What a `foldl` keeps, with the elements that it has come to and those ahead, and
what a loop leaves that takes elements off the front of a sorted list.
-/

namespace Ns3

open List

variable {α β : Type} {f : α → β → α} {l : List β}

theorem foldl_prefix {motive : List β → α → Prop} {a : α} (hinit : motive [] a)
    (hstep : ∀ (before : List β) (b : β) (after : List β) (a : α), l = before ++ b :: after → motive before a →
      motive (before ++ [b]) (f a b)) : motive l (l.foldl f a) := by
  have hrun : ∀ (after before : List β) (a : α), l = before ++ after → motive before a → motive l (after.foldl f a) := by
    intro after
    induction after with
    | nil =>
      intro before a hsplit h
      rw [hsplit, append_nil]
      exact h
    | cons b after ih =>
      intro before a hsplit h
      exact ih (before ++ [b]) (f a b) (by rw [hsplit, append_assoc]; rfl) (hstep before b after a hsplit h)
  exact hrun l [] a rfl hinit

theorem dropWhile_sorted {R : β → β → Prop} {q : β → Bool} (hsorted : l.Pairwise R)
    (hq : ∀ a ∈ l, ∀ b ∈ l, R a b → q b = true → q a = true) : ∀ b ∈ l.dropWhile q, q b = false := by
  induction l with
  | nil => exact fun b hb => nomatch hb
  | cons a l ih =>
    obtain ⟨ha, hl⟩ := pairwise_cons.mp hsorted
    by_cases hqa : q a = true
    · rw [dropWhile_cons_of_pos hqa]
      exact ih hl fun b hb c hc => hq b (mem_cons_of_mem a hb) c (mem_cons_of_mem a hc)
    · rw [dropWhile_cons_of_neg hqa]
      intro b hb
      rcases mem_cons.mp hb with rfl | hb
      · simpa using hqa
      · by_contra hqb
        exact hqa (hq a mem_cons_self b (mem_cons_of_mem a hb) (ha b hb) (by simpa using hqb))

end Ns3
