import Mathlib.Data.Nat.Basic
import Mathlib.Logic.Equiv.Basic
import Mathlib.Order.Lattice
import Mathlib.Tactic.Common

/-!
# Binary heaps

A binary heap in an array that counts from 1: the parent of `i` is `i / 2`.
The array is given by the key at each index and its size `n`, index 0 not
counted. While an element moves up or down by exchanges, one place is out of
order; `UpOrdered` and `DownOrdered` say what the rest fulfils.
-/

namespace Ns3

variable {κ : Type} [LinearOrder κ]

def HeapOrdered (f : Nat → κ) (n : Nat) : Prop := ∀ i, 2 ≤ i → i < n → f (i / 2) ≤ f i

/-- All is in order but that the key at `k` may be too small. -/
structure UpOrdered (f : Nat → κ) (n k : Nat) : Prop where
  others : ∀ i, 2 ≤ i → i < n → i ≠ k → f (i / 2) ≤ f i
  skip : ∀ i, i < n → i / 2 = k → 2 ≤ k → f (k / 2) ≤ f i

/-- All is in order but that the key at `k` may be too large. -/
structure DownOrdered (f : Nat → κ) (n k : Nat) : Prop where
  others : ∀ i, 2 ≤ i → i < n → i / 2 ≠ k → f (i / 2) ≤ f i
  skip : ∀ i, i < n → i / 2 = k → 2 ≤ k → f (k / 2) ≤ f i

section
variable {f : Nat → κ} {n k : Nat}

theorem HeapOrdered.root_le (h : HeapOrdered f n) : ∀ i, 1 ≤ i → i < n → f 1 ≤ f i := by
  intro i
  induction i using Nat.strongRecOn with
  | ind i ih =>
    intro hi hn
    by_cases hroot : i = 1
    · rw [hroot]
    · exact le_trans (ih (i / 2) (by omega) (by omega) (by omega)) (h i (by omega) hn)

theorem HeapOrdered.snoc (h : HeapOrdered f n) {g : Nat → κ} (hg : ∀ i, i < n → g i = f i) : UpOrdered g (n + 1) n where
  others i hi hi' hne := by
    rw [hg i (by omega), hg (i / 2) (by omega)]
    exact h i hi (by omega)
  skip i hi hi' hn := by omega

theorem UpOrdered.stop (h : UpOrdered f n k) (hk : 2 ≤ k → f (k / 2) ≤ f k) : HeapOrdered f n := by
  intro i hi hi'
  by_cases hik : i = k
  · subst hik
    exact hk hi
  · exact h.others i hi hi' hik

theorem UpOrdered.swap (h : UpOrdered f n k) (hk : 2 ≤ k) (hn : k < n) (hlt : f k < f (k / 2)) :
    UpOrdered (f ∘ Equiv.swap k (k / 2)) n (k / 2) where
  others i hi hi' hne := by
    simp only [Function.comp_apply]
    by_cases hik : i = k
    · subst hik
      rw [Equiv.swap_apply_left, Equiv.swap_apply_right]
      exact le_of_lt hlt
    · rw [Equiv.swap_apply_of_ne_of_ne hik hne]
      by_cases hpk : i / 2 = k
      · rw [hpk, Equiv.swap_apply_left]
        exact h.skip i hi' hpk hk
      · by_cases hpp : i / 2 = k / 2
        · rw [hpp, Equiv.swap_apply_right]
          have hpi : f (k / 2) ≤ f i := hpp ▸ h.others i hi hi' hik
          exact le_trans (le_of_lt hlt) hpi
        · rw [Equiv.swap_apply_of_ne_of_ne hpk hpp]
          exact h.others i hi hi' hik
  skip i hi hi' hp := by
    simp only [Function.comp_apply]
    have hup : f (k / 2 / 2) ≤ f (k / 2) := h.others (k / 2) hp (by omega) (by omega)
    rw [Equiv.swap_apply_of_ne_of_ne (show k / 2 / 2 ≠ k by omega) (show k / 2 / 2 ≠ k / 2 by omega)]
    by_cases hik : i = k
    · subst hik
      rw [Equiv.swap_apply_left]
      exact hup
    · rw [Equiv.swap_apply_of_ne_of_ne hik (by omega)]
      have hpi : f (k / 2) ≤ f i := hi' ▸ h.others i (by omega) hi hik
      exact le_trans hup hpi

theorem DownOrdered.stop (h : DownOrdered f n k) (hk : ∀ i, 2 ≤ i → i < n → i / 2 = k → f k ≤ f i) :
    HeapOrdered f n := by
  intro i hi hi'
  by_cases hik : i / 2 = k
  · rw [hik]
    exact hk i hi hi' hik
  · exact h.others i hi hi' hik

theorem DownOrdered.swap (h : DownOrdered f n k) {c : Nat} (hk : 1 ≤ k) (hc : c / 2 = k) (hn : c < n)
    (hle : f c ≤ f k) (hmin : ∀ i, i < n → i / 2 = k → f c ≤ f i) : DownOrdered (f ∘ Equiv.swap k c) n c where
  others i hi hi' hne := by
    simp only [Function.comp_apply]
    by_cases hic : i = c
    · subst hic
      rw [hc, Equiv.swap_apply_left, Equiv.swap_apply_right]
      exact hle
    · by_cases hpk : i / 2 = k
      · rw [hpk, Equiv.swap_apply_left, Equiv.swap_apply_of_ne_of_ne (by omega) hic]
        exact hmin i hi' hpk
      · rw [Equiv.swap_apply_of_ne_of_ne hpk hne]
        by_cases hik : i = k
        · subst hik
          rw [Equiv.swap_apply_left]
          exact h.skip c hn hc hi
        · rw [Equiv.swap_apply_of_ne_of_ne hik hic]
          exact h.others i hi hi' hpk
  skip i hi hi' _ := by
    simp only [Function.comp_apply]
    rw [hc, Equiv.swap_apply_left, Equiv.swap_apply_of_ne_of_ne (by omega) (by omega)]
    have := h.others i (by omega) hi (by omega)
    rwa [hi'] at this

theorem HeapOrdered.replace (h : HeapOrdered f (n + 1)) {g : Nat → κ} (hk : 1 ≤ k) (hkn : k < n) (hgk : g k = f n)
    (hg : ∀ i, i < n → i ≠ k → g i = f i) (hparent : 2 ≤ k → f (k / 2) ≤ f n) : DownOrdered g n k where
  others i hi hi' hne := by
    rw [hg (i / 2) (by omega) hne]
    by_cases hik : i = k
    · subst hik
      rw [hgk]
      exact hparent hi
    · rw [hg i hi' hik]
      exact h i hi (by omega)
  skip i hi hi' hk2 := by
    rw [hg (k / 2) (by omega) (by omega), hg i hi (by omega)]
    have hki : f k ≤ f i := hi' ▸ h i (by omega) (by omega)
    exact le_trans (h k hk2 (by omega)) hki

end

end Ns3
