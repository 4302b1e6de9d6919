import Mathlib.Data.Int.Basic
import Mathlib.Tactic.Common

/-!
# `SequenceNumber32`

A sequence number of 32 bits. Sums wrap around; the comparisons are those of
the source, which order two numbers by the shorter way round.

`ofPosition p` is the number of the byte at position `p` of an unbounded
stream. Less than `2 ^ 31` positions apart, numbers compare as their positions
do.
-/

namespace Ns3

def uint32 (z : Int) : Nat := (z % 4294967296).toNat

theorem uint32_add {a b : Nat} (h : a + b < 4294967296) : uint32 (a + b) = a + b := by
  unfold uint32
  omega

theorem uint32_sub {a b : Nat} (h : b ≤ a) (ha : a < 4294967296) : uint32 (a - b) = a - b := by
  unfold uint32
  omega

structure SequenceNumber32 where
  value : Nat
  deriving DecidableEq

namespace SequenceNumber32

def add (s : SequenceNumber32) (delta : Nat) : SequenceNumber32 := ⟨uint32 (s.value + delta)⟩

/-- The signed difference, as it is once assigned to a `uint32_t`. -/
def diff (s other : SequenceNumber32) : Nat := uint32 (s.value - other.value)

def halfMaxValue : Nat := 2147483647

def gt (s other : SequenceNumber32) : Bool :=
  (s.value > other.value && s.value - other.value ≤ halfMaxValue) ||
    (other.value > s.value && other.value - s.value > halfMaxValue)

theorem gt_iff {s other : SequenceNumber32} : s.gt other = true ↔
    (other.value < s.value ∧ s.value - other.value ≤ 2147483647) ∨
      (s.value < other.value ∧ 2147483647 < other.value - s.value) := by
  simp only [gt, Bool.or_eq_true, Bool.and_eq_true, decide_eq_true_eq]
  rfl

def le (s other : SequenceNumber32) : Bool := !s.gt other

def ge (s other : SequenceNumber32) : Bool := s.gt other || s == other

def lt (s other : SequenceNumber32) : Bool := !s.gt other && s != other

/-! ## Positions -/

def ofPosition (p : Nat) : SequenceNumber32 := ⟨p % 4294967296⟩

@[simp] theorem add_ofPosition (p n : Nat) : (ofPosition p).add n = ofPosition (p + n) := by
  simp only [add, ofPosition, uint32, mk.injEq]
  omega

theorem diff_ofPosition {p q : Nat} (h : p ≤ q) (hfar : q < p + 4294967296) :
    (ofPosition q).diff (ofPosition p) = q - p := by
  simp only [diff, ofPosition, uint32]
  omega

/-- Two positions are near when the comparisons order their numbers rightly. -/
def Near (p q : Nat) : Prop := p < q + 2147483648 ∧ q < p + 2147483648

section
variable {p q : Nat}

theorem ofPosition_inj (h : Near p q) : ofPosition p = ofPosition q ↔ p = q := by
  unfold Near at h
  simp only [ofPosition, mk.injEq]
  omega

theorem gt_ofPosition (h : Near p q) : (ofPosition p).gt (ofPosition q) = decide (q < p) := by
  unfold Near at h
  rw [Bool.eq_iff_iff, gt_iff, decide_eq_true_eq]
  simp only [ofPosition]
  omega

theorem le_ofPosition (h : Near p q) : (ofPosition p).le (ofPosition q) = decide (p ≤ q) := by
  rw [le, gt_ofPosition h, ← decide_not]
  exact decide_eq_decide.mpr Nat.not_lt

theorem ge_ofPosition (h : Near p q) : (ofPosition p).ge (ofPosition q) = decide (q ≤ p) := by
  rw [Bool.eq_iff_iff]
  simp only [ge, gt_ofPosition h, Bool.or_eq_true, beq_iff_eq, ofPosition_inj h, decide_eq_true_eq]
  omega

theorem lt_ofPosition (h : Near p q) : (ofPosition p).lt (ofPosition q) = decide (p < q) := by
  rw [Bool.eq_iff_iff]
  simp only [lt, gt_ofPosition h, Bool.and_eq_true, Bool.not_eq_true', decide_eq_false_iff_not, bne_iff_ne, ne_eq,
    ofPosition_inj h, decide_eq_true_eq]
  omega

end

end SequenceNumber32

end Ns3
