import Mathlib.Data.Nat.Bitwise
import Mathlib.Tactic.Common

/-!
# Bit fields

Shifts and masks as arithmetic. A field of width `n` at position `k` is
written with `(x <<< k) &&& mask` and read with `(x &&& mask) >>> k`, for
`mask = (2 ^ n - 1) * 2 ^ k`; fields that do not overlap are put together by
`|||`, which is then addition.
-/

namespace Ns3

theorem or_eq_add {a b : Nat} (k : Nat) (ha : a % 2 ^ k = 0) (hb : b < 2 ^ k) : a ||| b = a + b := by
  have h := Nat.shiftLeft_add_eq_or_of_lt hb (a / 2 ^ k)
  rw [Nat.shiftLeft_eq, Nat.div_mul_cancel (Nat.dvd_of_mod_eq_zero ha)] at h
  exact h.symm

theorem or_field {a x : Nat} (k n : Nat) (ha : a % 2 ^ (k + n) = 0) (hx : x < 2 ^ n) :
    a ||| x <<< k = a + x * 2 ^ k ∧ (a + x * 2 ^ k) % 2 ^ k = 0 := by
  have hlt : x * 2 ^ k < 2 ^ (k + n) := by
    rw [Nat.pow_add, Nat.mul_comm]
    exact (Nat.mul_lt_mul_left (Nat.two_pow_pos k)).mpr hx
  have hdvd : 2 ^ k ∣ a := Nat.dvd_trans (Nat.pow_dvd_pow 2 (Nat.le_add_right k n)) (Nat.dvd_of_mod_eq_zero ha)
  refine ⟨?_, Nat.mod_eq_zero_of_dvd (Nat.dvd_add hdvd (Nat.dvd_mul_left _ _))⟩
  rw [Nat.shiftLeft_eq, or_eq_add (k + n) ha hlt]

theorem and_field (x n k : Nat) : x &&& ((2 ^ n - 1) * 2 ^ k) = x / 2 ^ k % 2 ^ n * 2 ^ k := by
  refine Nat.eq_of_testBit_eq fun i => ?_
  rw [Nat.testBit_and, Nat.testBit_mul_two_pow, Nat.testBit_two_pow_sub_one, Nat.testBit_mul_two_pow,
    Nat.testBit_mod_two_pow, Nat.testBit_div_two_pow]
  by_cases hk : k ≤ i
  · simp [hk, Nat.sub_add_cancel hk, Bool.and_comm]
  · simp [hk]

theorem field_get (x : Nat) {m : Nat} (n k : Nat) (hm : m = (2 ^ n - 1) * 2 ^ k) :
    (x &&& m) >>> k = x / 2 ^ k % 2 ^ n := by
  rw [hm, and_field, Nat.shiftRight_eq_div_pow, Nat.mul_div_cancel _ (Nat.two_pow_pos k)]

theorem field_put (x : Nat) {m : Nat} (n k : Nat) (hm : m = (2 ^ n - 1) * 2 ^ k) :
    (x <<< k) &&& m = x % 2 ^ n * 2 ^ k := by
  rw [hm, and_field, Nat.shiftLeft_eq, Nat.mul_div_cancel _ (Nat.two_pow_pos k)]

theorem field_high (x : Nat) {m : Nat} (n k : Nat) (hm : m = 2 ^ n - 1) : (x >>> k) &&& m = x / 2 ^ k % 2 ^ n := by
  rw [hm, Nat.and_two_pow_sub_one_eq_mod, Nat.shiftRight_eq_div_pow]

end Ns3
