import Mathlib.Tactic.Common
import Mathlib.Tactic.Ring
import Ns3.Lib.BitField
import Ns3.Lib.Loop

/-!
# `int64x64_t`

Fixed point numbers with 64 integer and 64 fraction bits, on native integers
of 128 bits. Unsigned values are kept below `2 ^ 128` by the remainder; a
signed value that does not fit wraps around, negation of the smallest one
included. An abort and a division by zero leave no result, and neither do the
loops of `Udiv` when `fuel` is too little for them.
-/

namespace Ns3

def uint128 (z : Int) : Nat := (z % 2 ^ 128).toNat

def int128 (z : Int) : Int := (z + 2 ^ 127) % 2 ^ 128 - 2 ^ 127

def int64 (z : Int) : Int := (z + 2 ^ 63) % 2 ^ 64 - 2 ^ 63

theorem int128_bounds (z : Int) : -2 ^ 127 ≤ int128 z ∧ int128 z < 2 ^ 127 := by
  unfold int128
  omega

theorem int128_eq {z : Int} (h : -2 ^ 127 ≤ z) (h' : z < 2 ^ 127) : int128 z = z := by
  unfold int128
  omega

theorem int64_eq {z : Int} (h : -2 ^ 63 ≤ z) (h' : z < 2 ^ 63) : int64 z = z := by
  unfold int64
  omega

/-- The value is `v / 2 ^ 64`. -/
structure Int64x64 where
  v : Int
  bounds : -2 ^ 127 ≤ v ∧ v < 2 ^ 127
  deriving DecidableEq

namespace Int64x64

def hpMaskLo : Nat := 0xffffffffffffffff

/-- Mask for the sign and integer part, in the 64 bits of its type. -/
def hpMaskHi : Nat := hpMaskLo ^^^ (2 ^ 64 - 1)

def hp128MaskHiBit : Nat := 2 ^ 127

theorem and_maskLo (x : Nat) : x &&& hpMaskLo = x % 2 ^ 64 := Nat.and_two_pow_sub_one_eq_mod x 64

def ofInt128 (z : Int) : Int64x64 := ⟨int128 z, int128_bounds z⟩

/-- The constructor from an integer part and a fraction part of zero. -/
def ofHigh (hi : Int) : Int64x64 := ofInt128 (int64 hi * 2 ^ 64)

def getHigh (x : Int64x64) : Int := int64 (x.v / 2 ^ 64)

def magnitude (s : Int) : Nat := uint128 (if s < 0 then int128 (-s) else s)

def getInt (x : Int64x64) : Int :=
  let retval := int64 (magnitude x.v >>> 64)
  if x.v < 0 then int64 (-retval) else retval

/-- The sign of a result is the first component. -/
def outputSign (sa sb : Int) : Bool × Nat × Nat :=
  let negA := decide (sa < 0)
  let negB := decide (sb < 0)
  (negA && !negB || !negA && negB, magnitude sa, magnitude sb)

/-! ## Multiplication -/

def umul (a b : Nat) : Option Nat :=
  let aL := a &&& hpMaskLo
  let bL := b &&& hpMaskLo
  let aH := (a >>> 64) &&& hpMaskLo
  let bH := (b >>> 64) &&& hpMaskLo
  let loPart := aL * bL % 2 ^ 128
  let midPart := (aL * bH + aH * bL) % 2 ^ 128
  let hiPart := aH * bH % 2 ^ 128
  if hiPart &&& hpMaskHi ≠ 0 then none
  else
    let result := ((loPart >>> 64) + (midPart &&& hpMaskLo)) % 2 ^ 128
    let res1 := ((midPart >>> 64) + (hiPart &&& hpMaskLo)) % 2 ^ 128
    some ((result + (res1 <<< 64) % 2 ^ 128) % 2 ^ 128)

def mul (x o : Int64x64) : Option Int64x64 :=
  let s := outputSign x.v o.v
  (umul s.2.1 s.2.2).map fun (result : Nat) => ofInt128 (if s.1 then uint128 (-result) else result)

/-! ## Division -/

structure UdivState where
  rem : Nat
  den : Nat
  result : Nat
  digis : Nat
  shift : Nat

namespace UdivState

/-- The divisor loses its last bit. -/
def halve (s : UdivState) : UdivState := { s with shift := s.shift + 1, den := s.den >>> 1 }

def double (s : UdivState) : UdivState := { s with shift := s.shift + 1, rem := (s.rem <<< 1) % 2 ^ 128 }

def skipDen : Nat → UdivState → Option UdivState := loopWhile (fun s => s.shift < 64 && s.den &&& 1 == 0) halve

def skipRem : Nat → UdivState → Option UdivState :=
  loopWhile (fun s => s.digis + s.shift < 64 && s.rem &&& hp128MaskHiBit == 0) double

def castOff : Nat → UdivState → Option UdivState :=
  loopWhile (fun s => s.digis + s.shift < 64 && (s.den &&& 1 == 0 || s.rem < s.den)) halve

/-- Do the division and add in the quotient. -/
def divide (s : UdivState) : UdivState where
  rem := s.rem % s.den
  den := s.den
  result := ((s.result <<< s.shift) % 2 ^ 128 + s.rem / s.den) % 2 ^ 128
  digis := s.digis + s.shift
  shift := 0

def digits : Nat → UdivState → Option UdivState
  | 0, _ => none
  | fuel + 1, s =>
    if s.digis < 64 ∧ s.rem ≠ 0 then
      (skipRem fuel s).bind fun s => (castOff fuel s).bind fun s => digits fuel s.divide
    else some s

end UdivState

def udiv (fuel a b : Nat) : Option Nat :=
  if b = 0 then none
  else
    (UdivState.skipDen fuel ⟨a % b, b, a / b, 0, 0⟩).bind fun s =>
      (UdivState.digits fuel s).map fun s => if s.digis < 64 then (s.result <<< (64 - s.digis)) % 2 ^ 128 else s.result

def div (fuel : Nat) (x o : Int64x64) : Option Int64x64 :=
  let s := outputSign x.v o.v
  (udiv fuel s.2.1 s.2.2).map fun (u : Nat) =>
    let result := int128 u
    ofInt128 (if s.1 then -result else result)

/-! ## Multiplication by an inverse -/

def umulByInvert (a b : Nat) : Nat :=
  let ah := a >>> 64
  let bh := b >>> 64
  let al := a &&& hpMaskLo
  let bl := b &&& hpMaskLo
  let hi := ah * bh % 2 ^ 128
  let mid := (ah * bl + al * bh) % 2 ^ 128
  (hi + (mid >>> 64)) % 2 ^ 128

def mulByInvert (x o : Int64x64) : Int64x64 :=
  let result := umulByInvert (magnitude x.v) (uint128 o.v)
  ofInt128 (if x.v < 0 then uint128 (-result) else result)

/-- An assertion fails for a divisor below two. -/
def invert (fuel v : Nat) : Option Int64x64 :=
  if 1 < v then
    (udiv fuel (2 ^ 64) v).map fun (u : Nat) =>
      let result := ofInt128 u
      if ((ofHigh v).mulByInvert result).getHigh ≠ 1 then ofInt128 (result.v + 1) else result
  else none

/-! ## Conversions -/

theorem magnitude_eq {s : Int} (h : -2 ^ 127 ≤ s ∧ s < 2 ^ 127) : magnitude s = s.natAbs := by
  unfold magnitude uint128 int128
  split <;> omega

theorem ofInt128_congr {z z' : Int} (h : z % 2 ^ 128 = z' % 2 ^ 128) : ofInt128 z = ofInt128 z' := by
  have hv : int128 z = int128 z' := by
    unfold int128
    omega
  simp only [ofInt128, hv]

theorem ofInt128_eq_iff (z : Int) : (ofInt128 z).v = z ↔ -2 ^ 127 ≤ z ∧ z < 2 ^ 127 := by
  constructor
  · intro h
    rw [← h]
    exact (ofInt128 z).bounds
  · intro h
    exact int128_eq h.1 h.2

theorem magnitude_le {s : Int} (h : -2 ^ 127 ≤ s ∧ s < 2 ^ 127) : magnitude s ≤ 2 ^ 127 := by
  rw [magnitude_eq h]
  omega

theorem outputSign_eq (x o : Int64x64) :
    outputSign x.v o.v = (decide (x.v < 0) != decide (o.v < 0), x.v.natAbs, o.v.natAbs) := by
  rw [outputSign, magnitude_eq x.bounds, magnitude_eq o.bounds]
  cases decide (x.v < 0) <;> cases decide (o.v < 0) <;> rfl

def signed (x o : Int64x64) (m : Nat) : Int := (x.v * o.v).sign * m

theorem signed_eq (x o : Int64x64) {m : Nat} (hzero : x.v = 0 ∨ o.v = 0 → m = 0) :
    signed x o m = if (decide (x.v < 0) != decide (o.v < 0)) = true then -(m : Int) else m := by
  unfold signed
  by_cases hx : x.v = 0
  · rw [hzero (.inl hx)]
    simp
  · by_cases ho : o.v = 0
    · rw [hzero (.inr ho)]
      simp
    · rw [Int.sign_mul]
      rcases Int.lt_or_gt_of_ne hx with hx' | hx' <;> rcases Int.lt_or_gt_of_ne ho with ho' | ho'
      · simp [Int.sign_eq_neg_one_of_neg hx', Int.sign_eq_neg_one_of_neg ho', hx', ho']
      · simp [Int.sign_eq_neg_one_of_neg hx', Int.sign_eq_one_of_pos ho', hx', lt_asymm ho']
      · simp [Int.sign_eq_one_of_pos hx', Int.sign_eq_neg_one_of_neg ho', lt_asymm hx', ho']
      · simp [Int.sign_eq_one_of_pos hx', Int.sign_eq_one_of_pos ho', lt_asymm hx', lt_asymm ho']

end Int64x64

end Ns3
