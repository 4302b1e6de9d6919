import Mathlib.Data.List.GetD
import Mathlib.Tactic.Common

/-!
# Bit vectors as lists of bits

A bit vector is read and written from its highest bit on. A reader that sets
one bit after the other is `fill`; an octet that is being filled from the top
holds the bits it was given, and no bit below them is set.
-/

namespace Ns3

open List

namespace BitStream

variable {n : Nat}

/-- The low `k` bits, the highest of them first. -/
def lowBits (x : BitVec n) : Nat → List Bool
  | 0 => []
  | k + 1 => x.getLsbD k :: lowBits x k

def bits (x : BitVec n) : List Bool := lowBits x n

@[simp] theorem lowBits_length (x : BitVec n) (k : Nat) : (lowBits x k).length = k := by
  induction k with
  | zero => rfl
  | succ k ih => simp [lowBits, ih]

@[simp] theorem bits_length (x : BitVec n) : (bits x).length = n := lowBits_length x n

theorem getElem?_lowBits (x : BitVec n) (k i : Nat) (hi : i < k) :
    (lowBits x k)[i]? = some (x.getLsbD (k - 1 - i)) := by
  induction k generalizing i with
  | zero => omega
  | succ k ih =>
    cases i with
    | zero => simp [lowBits]
    | succ i =>
      rw [lowBits, getElem?_cons_succ, ih i (by omega)]
      congr 2
      omega

theorem getElem?_bits (x : BitVec n) {i : Nat} (hi : i < n) : (bits x)[i]? = some (x.getMsbD i) := by
  rw [bits, getElem?_lowBits x n i hi, BitVec.getMsbD]
  simp [hi]

theorem bits_injective {x y : BitVec n} (h : bits x = bits y) : x = y := by
  refine BitVec.eq_of_getMsbD_eq fun i hi => ?_
  have hx := getElem?_bits x hi
  rw [h, getElem?_bits y hi] at hx
  exact (Option.some.inj hx).symm

/-! ## Setting the bits one by one -/

def set (x : BitVec n) (i : Nat) (b : Bool) : BitVec n :=
  if b then x ||| (1#n <<< i) else x &&& ~~~(1#n <<< i)

theorem getLsbD_set (x : BitVec n) (i j : Nat) (b : Bool) (hj : j < n) :
    (set x i b).getLsbD j = if j = i then b else x.getLsbD j := by
  unfold set
  by_cases h : j = i
  · subst h
    cases b <;> simp [hj]
  · by_cases hl : j < i
    · cases b <;> simp [hj, h, hl]
    · have hne : j - i ≠ 0 := by omega
      cases b <;> simp [hj, h, hl, hne]

/-- The bits from `k - 1` down become `bs`. -/
def fill (x : BitVec n) : Nat → List Bool → BitVec n
  | k + 1, b :: bs => fill (set x k b) k bs
  | _, _ => x

@[simp] theorem fill_nil (x : BitVec n) (k : Nat) : fill x k [] = x := by
  cases k <;> rfl

theorem fill_append (x : BitVec n) : ∀ (as bs : List Bool) (k : Nat), as.length ≤ k →
    fill (fill x k as) (k - as.length) bs = fill x k (as ++ bs) := by
  intro as bs k
  induction as generalizing x k with
  | nil => intro _; simp
  | cons a as ih =>
    intro hk
    cases k with
    | zero => simp at hk
    | succ k =>
      simp only [length_cons, Nat.add_le_add_iff_right] at hk
      simp only [fill, cons_append, length_cons, Nat.add_sub_add_right]
      exact ih _ k hk

theorem getLsbD_fill (x : BitVec n) : ∀ (bs : List Bool) (k j : Nat), j < n → k ≤ j →
    (fill x k bs).getLsbD j = x.getLsbD j := by
  intro bs k j hj
  induction bs generalizing x k with
  | nil => intro _; simp
  | cons b bs ih =>
    intro hk
    cases k with
    | zero => rfl
    | succ k => rw [fill, ih _ k (by omega), getLsbD_set x k j b hj, if_neg (by omega)]

theorem lowBits_fill (x : BitVec n) : ∀ (bs : List Bool), bs.length ≤ n → lowBits (fill x bs.length bs) bs.length = bs := by
  intro bs
  induction bs generalizing x with
  | nil => intro _; rfl
  | cons b bs ih =>
    intro hb
    rw [length_cons] at hb
    rw [length_cons, lowBits, fill, ih _ (by omega), getLsbD_fill _ bs bs.length bs.length (by omega) (Nat.le_refl _),
      getLsbD_set x bs.length bs.length b (by omega), if_pos rfl]

theorem fill_bits (x y : BitVec n) : fill x n (bits y) = y := by
  apply bits_injective
  have h := lowBits_fill x (bits y) (by simp)
  rwa [bits_length] at h

/-! ## Octets -/

/-- The octet holds `bs` at its top and no bit below. -/
def Holds (octet : BitVec 8) (bs : List Bool) : Prop :=
  ∀ i < 8, octet.getMsbD i = bs.getD i false

theorem holds_zero : Holds 0 [] := by
  intro i _
  simp

theorem getMsbD_mask : ∀ k < 8, ∀ i < 8, (0x80#8 >>> k).getMsbD i = decide (i = k) := by
  decide

theorem and_mask_ne_zero (octet : BitVec 8) {k : Nat} (hk : k < 8) :
    (octet &&& (0x80#8 >>> k) != 0) = octet.getMsbD k := by
  have hm : ∀ k < 8, (0x80#8 >>> k != 0) = true := by decide
  have hand : octet &&& (0x80#8 >>> k) = if octet.getMsbD k then 0x80#8 >>> k else 0 := by
    refine BitVec.eq_of_getMsbD_eq fun i hi => ?_
    rw [BitVec.getMsbD_and, getMsbD_mask k hk i hi]
    by_cases he : i = k
    · subst he
      cases hb : octet.getMsbD i
      · simp
      · rw [if_pos rfl, getMsbD_mask i hi i hi, Bool.true_and]
    · cases hb : octet.getMsbD k
      · simp [he]
      · rw [if_pos rfl, getMsbD_mask k hk i hi]
        simp [he]
  rw [hand]
  cases hb : octet.getMsbD k
  · rfl
  · rw [if_pos rfl, hm k hk]

theorem getD_append_singleton (bs : List Bool) (b : Bool) (i : Nat) :
    (bs ++ [b]).getD i false = (bs.getD i false || (b && decide (i = bs.length))) := by
  by_cases hlt : i < bs.length
  · have hne : i ≠ bs.length := by omega
    rw [getD_append _ _ _ _ hlt]
    simp [hne]
  · rw [getD_append_right _ _ _ _ (by omega), getD_eq_default bs _ (by omega)]
    by_cases he : i = bs.length
    · simp [he]
    · rw [getD_eq_default _ _ (by simp; omega)]
      simp [he]

theorem Holds.push {octet : BitVec 8} {bs : List Bool} (h : Holds octet bs) (hl : bs.length < 8) (b : Bool) :
    Holds (octet ||| if b then 0x80#8 >>> bs.length else 0) (bs ++ [b]) := by
  intro i hi
  rw [getD_append_singleton, BitVec.getMsbD_or, h i hi]
  cases b with
  | false => simp
  | true => rw [if_pos rfl, getMsbD_mask _ hl i hi, Bool.true_and]

theorem Holds.bits {octet : BitVec 8} {bs : List Bool} (h : Holds octet bs) (hl : bs.length ≤ 8) :
    bits octet = bs ++ List.replicate (8 - bs.length) false := by
  refine ext_getElem? fun i => ?_
  by_cases hi : i < 8
  · rw [getElem?_bits octet hi, h i hi]
    by_cases hlt : i < bs.length
    · rw [getElem?_append_left hlt, getD_eq_getElem _ _ hlt, getElem?_eq_getElem hlt]
    · rw [getElem?_append_right (by omega), getD_eq_default _ _ (by omega), getElem?_replicate]
      rw [if_pos (by omega)]
  · rw [getElem?_eq_none (by simp; omega), getElem?_eq_none (by simp; omega)]

def stream (octets : List (BitVec 8)) : List Bool := octets.flatMap BitStream.bits

@[simp] theorem stream_nil : stream [] = [] := rfl
@[simp] theorem stream_cons (o : BitVec 8) (os : List (BitVec 8)) : stream (o :: os) = bits o ++ stream os := rfl

@[simp] theorem stream_append (os ps : List (BitVec 8)) : stream (os ++ ps) = stream os ++ stream ps := by
  simp [stream]

@[simp] theorem stream_length (os : List (BitVec 8)) : (stream os).length = 8 * os.length := by
  induction os with
  | nil => rfl
  | cons o os ih => simp [ih]; omega

theorem stream_injective {os ps : List (BitVec 8)} (h : stream os = stream ps) : os = ps := by
  induction os generalizing ps with
  | nil =>
    have hlen := congrArg List.length h
    simp only [stream_nil, length_nil, stream_length] at hlen
    exact (eq_nil_of_length_eq_zero (by omega)).symm
  | cons o os ih =>
    cases ps with
    | nil => simpa using congrArg List.length h
    | cons p ps =>
      obtain ⟨hb, ht⟩ := append_inj h (by simp)
      rw [bits_injective hb, ih ht]

theorem take_bits_shiftLeft (o : BitVec 8) {k : Nat} (hk : k ≤ 8) :
    (bits (o <<< k)).take (8 - k) = (bits o).drop k := by
  refine ext_getElem? fun i => ?_
  by_cases hi : i < 8 - k
  · rw [getElem?_take_of_lt hi, getElem?_bits _ (by omega), getElem?_drop, getElem?_bits _ (by omega),
      BitVec.getMsbD_shiftLeft, Nat.add_comm]
  · rw [getElem?_eq_none (by simp; omega), getElem?_eq_none (by simp; omega)]

end BitStream

end Ns3
