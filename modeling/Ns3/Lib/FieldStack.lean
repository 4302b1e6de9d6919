import Mathlib.Data.Nat.Digits.Defs
import Mathlib.Data.List.TakeDrop
import Ns3.Lib.BitField

/-!
# Stacks of bit fields

Fields of various widths on top of each other in one number, the first one in
the low bits; and such a number kept as words of `w` bits, the low ones first.
A field is found inside one word, or at the end of one and the start of the
next.
-/

namespace Ns3

/-! ## Fields -/

def stackWidth (fields : List (Nat × Nat)) : Nat := (fields.map Prod.snd).sum

def stackValue : List (Nat × Nat) → Nat
  | [] => 0
  | f :: fields => f.1 + 2 ^ f.2 * stackValue fields

def Fits (fields : List (Nat × Nat)) : Prop := ∀ f ∈ fields, f.1 < 2 ^ f.2

@[simp] theorem stackWidth_nil : stackWidth [] = 0 := rfl

@[simp] theorem stackWidth_cons (f : Nat × Nat) (fields : List (Nat × Nat)) :
    stackWidth (f :: fields) = f.2 + stackWidth fields := by
  simp [stackWidth]

@[simp] theorem stackWidth_append (fields more : List (Nat × Nat)) :
    stackWidth (fields ++ more) = stackWidth fields + stackWidth more := by
  simp [stackWidth]

theorem stackValue_append : ∀ (fields more : List (Nat × Nat)),
    stackValue (fields ++ more) = stackValue fields + 2 ^ stackWidth fields * stackValue more
  | [], more => by simp [stackValue]
  | f :: fields, more => by
    simp only [List.cons_append, stackValue, stackValue_append fields more, stackWidth_cons, Nat.pow_add, Nat.mul_add,
      Nat.mul_assoc, Nat.add_assoc]

theorem stackValue_lt : ∀ {fields : List (Nat × Nat)}, Fits fields → stackValue fields < 2 ^ stackWidth fields
  | [], _ => by simp [stackValue]
  | f :: fields, h => by
    have hf : f.1 < 2 ^ f.2 := h f (by simp)
    have hrest : stackValue fields + 1 ≤ 2 ^ stackWidth fields := stackValue_lt fun g hg => h g (by simp [hg])
    have hmul := Nat.mul_le_mul_left (2 ^ f.2) hrest
    rw [stackValue, stackWidth_cons, Nat.pow_add]
    rw [Nat.mul_add, Nat.mul_one] at hmul
    omega

theorem stackValue_top {fields : List (Nat × Nat)} (f : Nat × Nat) (more : List (Nat × Nat)) (h : Fits fields)
    (hf : f.1 < 2 ^ f.2) :
    stackValue (fields ++ f :: more) % 2 ^ (stackWidth fields + f.2) / 2 ^ stackWidth fields = f.1 := by
  have hlow := stackValue_lt h
  rw [stackValue_append, Nat.pow_add, Nat.mod_mul_right_div_self, Nat.add_mul_div_left _ _ (Nat.two_pow_pos _),
    Nat.div_eq_of_lt hlow, Nat.zero_add, stackValue, Nat.add_mul_mod_self_left, Nat.mod_eq_of_lt hf]

/-! ## Words -/

section
variable {w : Nat} {words : List Nat}

theorem ofWords_lt (h : ∀ x ∈ words, x < 2 ^ w) : Nat.ofDigits (2 ^ w) words < 2 ^ (w * words.length) := by
  induction words with
  | nil => simp
  | cons x words ih =>
    have hx : x < 2 ^ w := h x (by simp)
    have hrest := Nat.mul_le_mul_left (2 ^ w) (Nat.succ_le_of_lt (ih fun y hy => h y (by simp [hy])))
    rw [Nat.ofDigits_cons, List.length_cons, Nat.mul_succ, Nat.add_comm (w * words.length), Nat.pow_add]
    simp only [Nat.mul_succ] at hrest ⊢
    omega

theorem ofWords_word (h : ∀ x ∈ words, x < 2 ^ w) {i x : Nat} (hi : words[i]? = some x) :
    Nat.ofDigits (2 ^ w) words / 2 ^ (w * i) % 2 ^ w = x := by
  obtain ⟨hlt, rfl⟩ := List.getElem?_eq_some_iff.mp hi
  have hsplit : words = words.take i ++ words[i] :: words.drop (i + 1) := by simp
  have hlow : Nat.ofDigits (2 ^ w) (words.take i) < 2 ^ (w * i) := by
    have hle : Nat.ofDigits (2 ^ w) (words.take i) < 2 ^ (w * (words.take i).length) :=
      ofWords_lt fun y hy => h y (List.mem_of_mem_take hy)
    rwa [List.length_take_of_le (Nat.le_of_lt hlt)] at hle
  have hx : words[i] < 2 ^ w := h _ (List.getElem_mem hlt)
  have hvalue : Nat.ofDigits (2 ^ w) words = Nat.ofDigits (2 ^ w) (words.take i) +
      2 ^ (w * i) * (words[i] + 2 ^ w * Nat.ofDigits (2 ^ w) (words.drop (i + 1))) := by
    conv_lhs => rw [hsplit]
    rw [Nat.ofDigits_append, List.length_take_of_le (Nat.le_of_lt hlt), Nat.ofDigits_cons, ← Nat.pow_mul]
  rw [hvalue, Nat.add_mul_div_left _ _ (Nat.two_pow_pos _), Nat.div_eq_of_lt hlow, Nat.zero_add,
    Nat.add_mul_mod_self_left, Nat.mod_eq_of_lt hx]

theorem ofWords_inside (h : ∀ x ∈ words, x < 2 ^ w) {i x r : Nat} (n : Nat) (hi : words[i]? = some x) (hr : r ≤ w) :
    Nat.ofDigits (2 ^ w) words % 2 ^ (w * i + r) / 2 ^ (w * i + (r - n)) = x % 2 ^ r / 2 ^ (r - n) := by
  have hword := ofWords_word h hi
  have hpow : 2 ^ r ∣ 2 ^ w := Nat.pow_dvd_pow 2 hr
  rw [Nat.pow_add, Nat.pow_add 2 (w * i) (r - n), ← Nat.div_div_eq_div_mul, Nat.mod_mul_right_div_self,
    ← Nat.mod_mod_of_dvd _ hpow, hword]

theorem ofWords_across (h : ∀ x ∈ words, x < 2 ^ w) {i x y n r : Nat} (hi : words[i]? = some x)
    (hi' : words[i + 1]? = some y) (hr : r ≤ w) (hn : r ≤ n) (hnw : n ≤ w) :
    Nat.ofDigits (2 ^ w) words % 2 ^ (w * (i + 1) + r) / 2 ^ (w * i + (w - (n - r))) =
      y % 2 ^ r * 2 ^ (n - r) + x / 2 ^ (w - (n - r)) := by
  have hlow := ofWords_word h hi
  have hhigh := ofWords_word h hi'
  have hpow : 2 ^ r ∣ 2 ^ w := Nat.pow_dvd_pow 2 hr
  have hsum : w * (i + 1) + r = w * i + (w + r) := by rw [Nat.mul_succ, Nat.add_assoc]
  have hcut : 2 ^ w = 2 ^ (w - (n - r)) * 2 ^ (n - r) := by rw [← Nat.pow_add, Nat.sub_add_cancel (by omega)]
  rw [Nat.mul_succ, Nat.pow_add, ← Nat.div_div_eq_div_mul] at hhigh
  rw [hsum, Nat.pow_add, Nat.pow_add 2 (w * i) (w - (n - r)), ← Nat.div_div_eq_div_mul, Nat.mod_mul_right_div_self,
    Nat.pow_add 2 w r, Nat.mod_mul, hlow, ← Nat.mod_mod_of_dvd _ hpow, hhigh]
  conv_lhs => rw [hcut]
  rw [Nat.mul_assoc, Nat.add_mul_div_left _ _ (Nat.two_pow_pos _), Nat.add_comm, Nat.mul_comm (2 ^ (n - r))]

end

/-! ## Shifts within a word -/

section
variable {w n r : Nat}

theorem shiftUp_eq (x : Nat) (hr : r ≤ w) : x <<< (w - r) % 2 ^ w = x % 2 ^ r * 2 ^ (w - r) := by
  have hpow : 2 ^ w = 2 ^ r * 2 ^ (w - r) := by rw [← Nat.pow_add, Nat.add_sub_of_le hr]
  rw [Nat.shiftLeft_eq, hpow, Nat.mul_mod_mul_right]

theorem shiftUpDown_eq (x : Nat) (hr : r ≤ w) (hn : n ≤ r) :
    (x <<< (w - r) % 2 ^ w) >>> (w - n) = x % 2 ^ r / 2 ^ (r - n) := by
  have hpow : 2 ^ (w - n) = 2 ^ (r - n) * 2 ^ (w - r) := by
    rw [← Nat.pow_add]
    congr 1
    omega
  rw [shiftUp_eq x hr, Nat.shiftRight_eq_div_pow, hpow, Nat.mul_div_mul_right _ _ (Nat.two_pow_pos _)]

theorem shiftUpDown_eq' (x : Nat) (hr : r ≤ w) (hn : r ≤ n) (hnw : n ≤ w) :
    (x <<< (w - r) % 2 ^ w) >>> (w - n) = x % 2 ^ r * 2 ^ (n - r) := by
  have hpow : 2 ^ (w - r) = 2 ^ (n - r) * 2 ^ (w - n) := by
    rw [← Nat.pow_add]
    congr 1
    omega
  rw [shiftUp_eq x hr, Nat.shiftRight_eq_div_pow, hpow, ← Nat.mul_assoc, Nat.mul_div_cancel _ (Nat.two_pow_pos _)]

end

end Ns3
