import Mathlib.Data.Int.Basic
import Mathlib.Tactic.Common

/-!
# `SequenceNumber10`

A 10-bit sequence number with the modulus base its comparisons count from. The
arithmetic is that of the source: 16-bit unsigned values promoted to `int`, a
remainder that truncates towards zero, and conversion back. A comparison of
numbers with different bases fails its assertion (`none`).

`ofIndex i B` is the number that stands for the absolute index `i`, with the
base of index `B`: in the window of 1024 indices from `B` on, comparisons are
those of the indices.
-/

namespace Ns3

def uint16 (z : Int) : Nat := (z % 65536).toNat

structure SequenceNumber10 where
  value : Nat
  modulusBase : Nat
  deriving DecidableEq

namespace SequenceNumber10

def ofValue (value : Nat) : SequenceNumber10 := ⟨value % 1024, 0⟩

/-- Assignment of a `uint16_t`: the base stays. -/
def assign (s : SequenceNumber10) (value : Nat) : SequenceNumber10 := { s with value := value % 1024 }

def setModulusBase (s base : SequenceNumber10) : SequenceNumber10 := { s with modulusBase := base.value }

def incr (s : SequenceNumber10) : SequenceNumber10 := { s with value := (s.value + 1) % 1024 }

def add (s : SequenceNumber10) (delta : Nat) : SequenceNumber10 := ⟨(s.value + delta) % 1024, s.modulusBase⟩

def sub (s : SequenceNumber10) (delta : Nat) : SequenceNumber10 :=
  ⟨uint16 (((s.value : Int) - delta).tmod 1024) % 1024, s.modulusBase⟩

/-- `m_value - other.m_value` in 16 bits, without reduction. -/
def diff (s other : SequenceNumber10) : Nat := uint16 ((s.value : Int) - other.value)

/-- The distance from the base the comparisons look at. -/
def offset (s : SequenceNumber10) : Nat := uint16 (((s.value : Int) - s.modulusBase).tmod 1024)

def gt (s other : SequenceNumber10) : Option Bool :=
  if s.modulusBase = other.modulusBase then some (decide (other.offset < s.offset)) else none

def eq (s other : SequenceNumber10) : Bool := s.value = other.value

def le (s other : SequenceNumber10) : Option Bool := (s.gt other).map fun g => !g

def ge (s other : SequenceNumber10) : Option Bool := (s.gt other).map fun g => g || s.eq other

def lt (s other : SequenceNumber10) : Option Bool := (s.gt other).map fun g => !g && !s.eq other

/-! ## Absolute indices -/

def ofIndex (i B : Nat) : SequenceNumber10 := ⟨i % 1024, B % 1024⟩

theorem ofIndex_add_period (i B : Nat) : ofIndex (i + 1024) B = ofIndex i B := by
  simp [ofIndex]

theorem ofIndex_inj_value {i j B C : Nat} (h : i % 1024 = j % 1024) (hB : B % 1024 = C % 1024) :
    ofIndex i B = ofIndex j C := by
  simp [ofIndex, h, hB]

@[simp] theorem ofIndex_value (i B : Nat) : (ofIndex i B).value = i % 1024 := rfl

@[simp] theorem setModulusBase_ofIndex (i B j C : Nat) : (ofIndex i B).setModulusBase (ofIndex j C) = ofIndex i j := rfl

@[simp] theorem incr_ofIndex (i B : Nat) : (ofIndex i B).incr = ofIndex (i + 1) B := by
  simp [incr, ofIndex, Nat.add_mod]

@[simp] theorem add_ofIndex (i B d : Nat) : (ofIndex i B).add d = ofIndex (i + d) B := by
  simp [add, ofIndex, Nat.add_mod]

@[simp] theorem assign_ofIndex (i B v : Nat) : (ofIndex i B).assign v = ofIndex v B := rfl

/-- The first index from `B` on that a value stands for. -/
def indexFrom (B value : Nat) : Nat := B + (value + (1024 - B % 1024)) % 1024

theorem le_indexFrom (B v : Nat) : B ≤ indexFrom B v := Nat.le_add_right ..

theorem indexFrom_lt (B v : Nat) : indexFrom B v < B + 1024 := by
  unfold indexFrom
  omega

theorem indexFrom_mod (B v : Nat) : indexFrom B v % 1024 = v % 1024 := by
  unfold indexFrom
  omega

theorem indexFrom_eq {B i v : Nat} (hi : B ≤ i) (hi' : i < B + 1024) (hv : v % 1024 = i % 1024) :
    indexFrom B v = i := by
  unfold indexFrom
  omega

theorem tmod_small {z : Int} (hlo : -1024 < z) (hhi : z < 1024) : z.tmod 1024 = z := by
  rcases Int.lt_or_le z 0 with hz | hz
  · have h := Int.tmod_eq_of_lt (a := -z) (b := 1024) (by omega) (by omega)
    rw [Int.neg_tmod] at h
    omega
  · exact Int.tmod_eq_of_lt hz hhi

theorem sub_ofIndex (i B : Nat) {d : Nat} (hd : d < 1024) : (ofIndex i B).sub d = ofIndex (i + (1024 - d)) B := by
  have hv : i % 1024 < 1024 := Nat.mod_lt _ (by decide)
  have ht : (((i % 1024 : Nat) : Int) - d).tmod 1024 = ((i % 1024 : Nat) : Int) - d :=
    tmod_small (by omega) (by omega)
  unfold sub ofIndex uint16
  simp only [ht, mk.injEq, and_true]
  omega

theorem offset_ofIndex (i B : Nat) :
    (ofIndex i B).offset = if B % 1024 ≤ i % 1024 then i % 1024 - B % 1024 else 65536 + i % 1024 - B % 1024 := by
  have hi : i % 1024 < 1024 := Nat.mod_lt _ (by decide)
  have hB : B % 1024 < 1024 := Nat.mod_lt _ (by decide)
  have ht : (((i % 1024 : Nat) : Int) - ((B % 1024 : Nat) : Int)).tmod 1024 =
      ((i % 1024 : Nat) : Int) - ((B % 1024 : Nat) : Int) := tmod_small (by omega) (by omega)
  unfold offset ofIndex uint16
  simp only [ht]
  split <;> omega

section
variable {i j B : Nat}

theorem gt_ofIndex (hi : B ≤ i) (hi' : i < B + 1024) (hj : B ≤ j) (hj' : j < B + 1024) :
    (ofIndex i B).gt (ofIndex j B) = some (decide (j < i)) := by
  have h : (ofIndex j B).offset < (ofIndex i B).offset ↔ j < i := by
    rw [offset_ofIndex, offset_ofIndex]
    split <;> split <;> lia
  have hbase : (ofIndex i B).modulusBase = (ofIndex j B).modulusBase := rfl
  rw [gt, if_pos hbase, Option.some.injEq]
  exact decide_eq_decide.mpr h

theorem eq_ofIndex (hi : B ≤ i) (hi' : i < B + 1024) (hj : B ≤ j) (hj' : j < B + 1024) :
    (ofIndex i B).eq (ofIndex j B) = decide (i = j) := by
  unfold eq
  exact decide_eq_decide.mpr (by simp only [ofIndex_value]; omega)

theorem le_ofIndex (hi : B ≤ i) (hi' : i < B + 1024) (hj : B ≤ j) (hj' : j < B + 1024) :
    (ofIndex i B).le (ofIndex j B) = some (decide (i ≤ j)) := by
  rw [le, gt_ofIndex hi hi' hj hj', Option.map_some, ← decide_not]
  exact congrArg some (decide_eq_decide.mpr Nat.not_lt)

theorem lt_ofIndex (hi : B ≤ i) (hi' : i < B + 1024) (hj : B ≤ j) (hj' : j < B + 1024) :
    (ofIndex i B).lt (ofIndex j B) = some (decide (i < j)) := by
  rw [lt, gt_ofIndex hi hi' hj hj', Option.map_some, eq_ofIndex hi hi' hj hj', ← decide_not, ← decide_not,
    ← Bool.decide_and]
  exact congrArg some (decide_eq_decide.mpr (by omega))

theorem ge_ofIndex (hi : B ≤ i) (hi' : i < B + 1024) (hj : B ≤ j) (hj' : j < B + 1024) :
    (ofIndex i B).ge (ofIndex j B) = some (decide (j ≤ i)) := by
  rw [ge, gt_ofIndex hi hi' hj hj', Option.map_some, eq_ofIndex hi hi' hj hj', ← Bool.decide_or]
  exact congrArg some (decide_eq_decide.mpr (by omega))

end

end SequenceNumber10

end Ns3
