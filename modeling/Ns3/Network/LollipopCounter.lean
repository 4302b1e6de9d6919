import Ns3.Network.ByteTagList

/-!
# `LollipopCounter`

A counter of `w` bits with a linear region, the upper half of the values, that
leads into a circular one, the lower half. Two counters of one region compare as
serial numbers when they are within the sequence window; the regions compare by
the distance from one to the other through the largest value.
-/

namespace Ns3

structure LollipopCounter (w : Nat) where
  m_value : BitVec w
  m_sequenceWindow : BitVec w
  deriving DecidableEq

namespace LollipopCounter

variable {w : Nat}

def m_maxValue (w : Nat) : BitVec w := BitVec.allOnes w

def m_circularRegion (w : Nat) : BitVec w := m_maxValue w >>> 1

/-- `1 << numberOfBits` is an `int` before it is one of the counter's type; it has no more than 32 bits. -/
def windowOf (w numberOfBits : Nat) : Option (BitVec w) :=
  if numberOfBits < 32 then some (BitVec.ofInt w (int32 (2 ^ numberOfBits : Nat))) else none

def initialValue (window : BitVec w) : BitVec w := (m_maxValue w - window) + 1

def setSequenceWindowSize (numberOfBits : Nat) : Option (LollipopCounter w) :=
  if numberOfBits ≥ w then none
  else (windowOf w numberOfBits).map fun window => ⟨initialValue window, window⟩

def assign (c : LollipopCounter w) (val : BitVec w) : LollipopCounter w := { c with m_value := val }

def absoluteMagnitudeOfDifference (c val : LollipopCounter w) : BitVec w :=
  let max := if c.m_value < val.m_value then val.m_value else c.m_value
  let min := if val.m_value < c.m_value then val.m_value else c.m_value
  let absDiffDirect := max - min
  let absDiffWrapped := (min + m_circularRegion w + 1) - max
  if absDiffWrapped < absDiffDirect then absDiffWrapped else absDiffDirect

def sameRegion (c val : LollipopCounter w) : Bool :=
  (c.m_value ≤ m_circularRegion w && val.m_value ≤ m_circularRegion w) ||
    (c.m_value > m_circularRegion w && val.m_value > m_circularRegion w)

def isComparable (c val : LollipopCounter w) : Option Bool :=
  if c.m_sequenceWindow ≠ val.m_sequenceWindow then none
  else if c.sameRegion val then some (!decide (c.absoluteMagnitudeOfDifference val > c.m_sequenceWindow))
  else some true

def gt (lhs rhs : LollipopCounter w) : Option Bool :=
  if lhs.m_sequenceWindow ≠ rhs.m_sequenceWindow then none
  else if lhs.m_value = rhs.m_value then some false
  else if lhs.sameRegion rhs then
    if lhs.absoluteMagnitudeOfDifference rhs > lhs.m_sequenceWindow then some false
    else
      let serialRegion := (m_circularRegion w >>> 1) + 1
      some ((decide (lhs.m_value < rhs.m_value) && decide (rhs.m_value - lhs.m_value > serialRegion)) ||
        (decide (lhs.m_value > rhs.m_value) && decide (lhs.m_value - rhs.m_value < serialRegion)))
  else
    let lhsIsHigher := decide (lhs.m_value > m_circularRegion w) && decide (rhs.m_value ≤ m_circularRegion w)
    let difference := if lhsIsHigher then lhs.m_value - rhs.m_value else rhs.m_value - lhs.m_value
    let distance := (m_maxValue w - difference) + 1
    some (if distance > lhs.m_sequenceWindow then lhsIsHigher else !lhsIsHigher)

def lt (lhs rhs : LollipopCounter w) : Option Bool := do
  if !(← lhs.isComparable rhs) then return false
  if ← lhs.gt rhs then return false
  return lhs.m_value ≠ rhs.m_value

def incr (val : LollipopCounter w) : LollipopCounter w :=
  let m_value := val.m_value + 1
  { val with m_value := if m_value = m_circularRegion w + 1 then 0 else m_value }

/-! ## Natural numbers -/

section
variable {S : Nat} (hw : 2 ^ w = 4 * S)
include hw

theorem toNat_lt (x : BitVec w) : x.toNat < 4 * S := by
  rw [← hw]
  exact x.isLt

theorem maxValue_toNat : (m_maxValue w).toNat = 4 * S - 1 := by
  rw [m_maxValue, BitVec.toNat_allOnes, hw]

variable (hS : 0 < S)
include hS

theorem circularRegion_toNat : (m_circularRegion w).toNat = 2 * S - 1 := by
  rw [m_circularRegion, BitVec.toNat_ushiftRight, maxValue_toNat hw, Nat.shiftRight_one]
  lia

theorem one_toNat : (1 : BitVec w).toNat = 1 := by
  have hpow : 1 < 2 ^ w := by omega
  exact (BitVec.toNat_ofNat 1 w).trans (Nat.mod_eq_of_lt hpow)

theorem serialRegion_toNat : (m_circularRegion w >>> 1 + 1).toNat = S := by
  have hhalf : (m_circularRegion w >>> 1).toNat = S - 1 := by
    rw [BitVec.toNat_ushiftRight, circularRegion_toNat hw hS, Nat.shiftRight_one]
    omega
  have hone := one_toNat hw hS
  rw [BitVec.toNat_add_of_lt (by omega), hhalf, hone]
  omega

variable {a b : LollipopCounter w}

theorem sameRegion_iff : a.sameRegion b = true ↔ (a.m_value.toNat < 2 * S ↔ b.m_value.toNat < 2 * S) := by
  have hregion := circularRegion_toNat hw hS
  simp only [sameRegion, Bool.or_eq_true, Bool.and_eq_true, decide_eq_true_iff, BitVec.le_def, BitVec.lt_def, gt_iff_lt, hregion]
  omega

theorem incr_toNat (c : LollipopCounter w) : c.incr.m_value.toNat =
    if c.m_value.toNat + 1 = 2 * S ∨ c.m_value.toNat + 1 = 4 * S then 0 else c.m_value.toNat + 1 := by
  have hvalue := toNat_lt hw c.m_value
  have hone := one_toNat hw hS
  have hregion := circularRegion_toNat hw hS
  have hnext : (m_circularRegion w + 1).toNat = 2 * S := by
    rw [BitVec.toNat_add_of_lt (by omega), hone, hregion]
    omega
  have hsum : (c.m_value + 1).toNat = if c.m_value.toNat + 1 = 4 * S then 0 else c.m_value.toNat + 1 := by
    rw [BitVec.toNat_add, hone, hw]
    split
    · next h => rw [h, Nat.mod_self]
    · exact Nat.mod_eq_of_lt (by omega)
  have hzero : (0 : BitVec w).toNat = 0 := BitVec.toNat_zero
  have hreset : c.m_value + 1 = m_circularRegion w + 1 ↔ c.m_value.toNat + 1 = 2 * S := by
    rw [← BitVec.toNat_inj, hsum, hnext]
    split
    · omega
    · rfl
  show BitVec.toNat (if c.m_value + 1 = m_circularRegion w + 1 then 0 else c.m_value + 1) = _
  rw [apply_ite BitVec.toNat, hzero, hsum]
  simp only [hreset]
  split
  · next h => rw [if_pos (.inl h)]
  · next h =>
    refine if_congr ?_ rfl rfl
    rw [or_iff_right h]

theorem absoluteMagnitudeOfDifference_toNat (hsame : a.m_value.toNat < 2 * S ↔ b.m_value.toNat < 2 * S) :
    (a.absoluteMagnitudeOfDifference b).toNat =
      min (max a.m_value.toNat b.m_value.toNat - min a.m_value.toNat b.m_value.toNat)
    (2 * S - (max a.m_value.toNat b.m_value.toNat - min a.m_value.toNat b.m_value.toNat)) := by
  have ha := toNat_lt hw a.m_value
  have hb := toNat_lt hw b.m_value
  have hone := one_toNat hw hS
  have hregion := circularRegion_toNat hw hS
  let hi := if a.m_value < b.m_value then b.m_value else a.m_value
  let lo := if b.m_value < a.m_value then b.m_value else a.m_value
  have hhi : hi.toNat = max a.m_value.toNat b.m_value.toNat := by
    rw [apply_ite BitVec.toNat]
    simp only [BitVec.lt_def]
    split
    · lia
    · lia
  have hlo : lo.toNat = min a.m_value.toNat b.m_value.toNat := by
    rw [apply_ite BitVec.toNat]
    simp only [BitVec.lt_def]
    split
    · omega
    · omega
  have hdirect : (hi - lo).toNat = hi.toNat - lo.toNat := BitVec.toNat_sub_of_le (by rw [BitVec.le_def]; omega)
  have hwrapped : (lo + m_circularRegion w + 1 - hi).toNat = 2 * S - (hi.toNat - lo.toNat) := by
    rw [BitVec.toNat_sub, BitVec.toNat_add, BitVec.toNat_add, hone, hregion, hw]
    rw [Nat.mod_add_mod, Nat.add_mod_mod]
    have hsum : 4 * S - hi.toNat + (lo.toNat + (2 * S - 1) + 1) = 2 * S - (hi.toNat - lo.toNat) + 4 * S := by lia
    rw [hsum, Nat.add_mod_right]
    exact Nat.mod_eq_of_lt (by omega)
  show BitVec.toNat (if lo + m_circularRegion w + 1 - hi < hi - lo then lo + m_circularRegion w + 1 - hi else hi - lo) = _
  rw [apply_ite BitVec.toNat]
  simp only [BitVec.lt_def, hdirect, hwrapped]
  split
  · omega
  · omega

theorem gt_same (hwindow : a.m_sequenceWindow = b.m_sequenceWindow)
    (hsame : a.m_value.toNat < 2 * S ↔ b.m_value.toNat < 2 * S)
    (hclose : (a.absoluteMagnitudeOfDifference b).toNat ≤ a.m_sequenceWindow.toNat) :
    a.gt b = some (decide ((a.m_value.toNat < b.m_value.toNat ∧ S < b.m_value.toNat - a.m_value.toNat) ∨
    (b.m_value.toNat < a.m_value.toNat ∧ a.m_value.toNat - b.m_value.toNat < S))) := by
  have hserial := serialRegion_toNat hw hS
  rw [gt, if_neg (not_not.mpr hwindow)]
  by_cases heq : a.m_value = b.m_value
  · rw [if_pos heq, heq]
    simp
  · have hnot : ¬a.absoluteMagnitudeOfDifference b > a.m_sequenceWindow := by
      rw [gt_iff_lt, BitVec.lt_def]
      omega
    rw [if_neg heq, if_pos ((sameRegion_iff hw hS).mpr hsame), if_neg hnot, Option.some.injEq, Bool.eq_iff_iff]
    simp only [Bool.or_eq_true, Bool.and_eq_true, decide_eq_true_iff, gt_iff_lt, BitVec.lt_def, hserial]
    refine or_congr (and_congr_right fun hlt => ?_) (and_congr_right fun hlt => ?_)
    · rw [BitVec.toNat_sub_of_le (BitVec.le_def.mpr (Nat.le_of_lt hlt))]
    · rw [BitVec.toNat_sub_of_le (BitVec.le_def.mpr (Nat.le_of_lt hlt))]

theorem gt_other (hwindow : a.m_sequenceWindow = b.m_sequenceWindow)
    (hother : ¬(a.m_value.toNat < 2 * S ↔ b.m_value.toNat < 2 * S)) : a.gt b = some (decide (2 * S ≤ a.m_value.toNat ↔
      a.m_sequenceWindow.toNat < 4 * S - (max a.m_value.toNat b.m_value.toNat - min a.m_value.toNat b.m_value.toNat))) := by
  have ha := toNat_lt hw a.m_value
  have hb := toNat_lt hw b.m_value
  have hone := one_toNat hw hS
  have hmax := maxValue_toNat hw
  have hregion := circularRegion_toNat hw hS
  have hne : a.m_value ≠ b.m_value := by
    intro heq
    rw [heq] at hother
    exact hother Iff.rfl
  have hhigher : (decide (a.m_value > m_circularRegion w) && decide (b.m_value ≤ m_circularRegion w)) =
      decide (2 * S ≤ a.m_value.toNat) := by
    rw [Bool.eq_iff_iff]
    simp only [Bool.and_eq_true, decide_eq_true_iff, gt_iff_lt, BitVec.lt_def, BitVec.le_def, hregion]
    omega
  have hdistance (difference : BitVec w) (hpos : 0 < difference.toNat) :
      (m_maxValue w - difference + 1).toNat = 4 * S - difference.toNat := by
    have hlt := toNat_lt hw difference
    have hsub : (m_maxValue w - difference).toNat = 4 * S - 1 - difference.toNat := by
      rw [BitVec.toNat_sub_of_le (by rw [BitVec.le_def]; lia), hmax]
    rw [BitVec.toNat_add_of_lt (by omega), hsub, hone]
    omega
  rw [gt, if_neg (not_not.mpr hwindow), if_neg hne, if_neg (mt (sameRegion_iff hw hS).mp hother)]
  dsimp only
  rw [hhigher, Option.some.injEq]
  by_cases hupper : 2 * S ≤ a.m_value.toNat
  · have hsub : (a.m_value - b.m_value).toNat = a.m_value.toNat - b.m_value.toNat :=
      BitVec.toNat_sub_of_le (by rw [BitVec.le_def]; omega)
    have hdist := hdistance (a.m_value - b.m_value) (by omega)
    rw [decide_eq_true hupper, if_pos rfl, Bool.eq_iff_iff]
    simp only [gt_iff_lt, BitVec.lt_def, hdist, hsub, decide_eq_true_iff]
    split
    · next hfar =>
      simp only [true_iff]
      lia
    · next hnear =>
      simp only [Bool.not_true, Bool.false_eq_true, false_iff]
      lia
  · have hsub : (b.m_value - a.m_value).toNat = b.m_value.toNat - a.m_value.toNat :=
      BitVec.toNat_sub_of_le (by rw [BitVec.le_def]; lia)
    have hdist := hdistance (b.m_value - a.m_value) (by omega)
    rw [decide_eq_false hupper, if_neg Bool.false_ne_true, Bool.eq_iff_iff]
    simp only [gt_iff_lt, BitVec.lt_def, hdist, hsub, decide_eq_true_iff]
    split
    · next hfar =>
      simp only [Bool.false_eq_true, false_iff]
      lia
    · next hnear =>
      simp only [Bool.not_false, true_iff]
      omega

theorem gt_far (hwindow : a.m_sequenceWindow = b.m_sequenceWindow)
    (hsame : a.m_value.toNat < 2 * S ↔ b.m_value.toNat < 2 * S)
    (hfar : a.m_sequenceWindow.toNat < (a.absoluteMagnitudeOfDifference b).toNat) : a.gt b = some false := by
  rw [gt, if_neg (not_not.mpr hwindow)]
  by_cases heq : a.m_value = b.m_value
  · rw [if_pos heq]
  · rw [if_neg heq, if_pos ((sameRegion_iff hw hS).mpr hsame), if_pos (BitVec.lt_def.mpr hfar)]

theorem isComparable_same (hwindow : a.m_sequenceWindow = b.m_sequenceWindow)
    (hsame : a.m_value.toNat < 2 * S ↔ b.m_value.toNat < 2 * S)
    (hclose : (a.absoluteMagnitudeOfDifference b).toNat ≤ a.m_sequenceWindow.toNat) : a.isComparable b = some true := by
  have hnot : ¬a.absoluteMagnitudeOfDifference b > a.m_sequenceWindow := by
    rw [gt_iff_lt, BitVec.lt_def]
    omega
  rw [isComparable, if_neg (not_not.mpr hwindow), if_pos ((sameRegion_iff hw hS).mpr hsame), decide_eq_false hnot, Bool.not_false]

theorem isComparable_other (hwindow : a.m_sequenceWindow = b.m_sequenceWindow)
    (hother : ¬(a.m_value.toNat < 2 * S ↔ b.m_value.toNat < 2 * S)) : a.isComparable b = some true := by
  rw [isComparable, if_neg (not_not.mpr hwindow), if_neg (mt (sameRegion_iff hw hS).mp hother)]

/-- **Of two counters** at most one is the greater. -/
theorem not_gt_both (a b : LollipopCounter w) : ¬(a.gt b = some true ∧ b.gt a = some true) := by
  intro ⟨hab, hba⟩
  by_cases hwindow : a.m_sequenceWindow = b.m_sequenceWindow
  · by_cases hsame : a.m_value.toNat < 2 * S ↔ b.m_value.toNat < 2 * S
    · by_cases hclose : (a.absoluteMagnitudeOfDifference b).toNat ≤ a.m_sequenceWindow.toNat
      · have hclose' : (b.absoluteMagnitudeOfDifference a).toNat ≤ b.m_sequenceWindow.toNat := by
          rw [← hwindow]
          rw [absoluteMagnitudeOfDifference_toNat hw hS hsame] at hclose
          rw [absoluteMagnitudeOfDifference_toNat hw hS hsame.symm, max_comm, min_comm b.m_value.toNat]
          exact hclose
        rw [gt_same hw hS hwindow hsame hclose, Option.some.injEq, decide_eq_true_iff] at hab
        rw [gt_same hw hS hwindow.symm hsame.symm hclose', Option.some.injEq, decide_eq_true_iff] at hba
        omega
      · rw [gt_far hw hS hwindow hsame (Nat.lt_of_not_le hclose)] at hab
        cases hab
    · rw [gt_other hw hS hwindow hsame, Option.some.injEq, decide_eq_true_iff] at hab
      rw [gt_other hw hS hwindow.symm fun h => hsame h.symm, Option.some.injEq, decide_eq_true_iff] at hba
      rw [hwindow] at hab
      omega
  · rw [gt, if_pos hwindow] at hab
    cases hab

end

/-! ## Increments -/

section
variable {S : Nat} (hw : 2 ^ w = 4 * S) (hS : 0 < S)
include hw hS

theorem iterate_toNat (c : LollipopCounter w) : ∀ k : Nat, (incr^[k] c).m_value.toNat =
    if 2 * S ≤ c.m_value.toNat ∧ c.m_value.toNat + k < 4 * S then c.m_value.toNat + k else (c.m_value.toNat + k) % (2 * S)
  | 0 => by
    have hvalue := toNat_lt hw c.m_value
    rw [Function.iterate_zero_apply]
    split
    · rfl
    · next h => exact (Nat.mod_eq_of_lt (by omega)).symm
  | k + 1 => by
    have hvalue := toNat_lt hw c.m_value
    rw [Function.iterate_succ_apply', incr_toNat hw hS, iterate_toNat c k]
    have hmod : (c.m_value.toNat + (k + 1)) % (2 * S) =
        if (c.m_value.toNat + k) % (2 * S) + 1 = 2 * S then 0 else (c.m_value.toNat + k) % (2 * S) + 1 := by
      have hlt := Nat.mod_lt (c.m_value.toNat + k) (show 0 < 2 * S by omega)
      rw [← Nat.add_assoc, ← Nat.mod_add_mod]
      split
      · next h => rw [h, Nat.mod_self]
      · exact Nat.mod_eq_of_lt (by omega)
    by_cases hlinear : 2 * S ≤ c.m_value.toNat ∧ c.m_value.toNat + k < 4 * S
    · rw [if_pos hlinear]
      by_cases hend : c.m_value.toNat + k + 1 = 4 * S
      · have hzero : (c.m_value.toNat + (k + 1)) % (2 * S) = 0 := by
          rw [← Nat.add_assoc, hend, show 4 * S = 2 * S * 2 by omega]
          exact Nat.mul_mod_right _ _
        rw [if_pos (.inr hend), if_neg (by omega), hzero]
      · rw [if_neg (by omega), if_pos (by omega), Nat.add_assoc]
    · have hlt := Nat.mod_lt (c.m_value.toNat + k) (show 0 < 2 * S by omega)
      have hlinear' : ¬(2 * S ≤ c.m_value.toNat ∧ c.m_value.toNat + (k + 1) < 4 * S) := by omega
      rw [if_neg hlinear, if_neg hlinear', hmod]
      refine if_congr ?_ rfl rfl
      omega

end

/-- `b` comes after `a` for all comparisons. -/
def Ordered (a b : LollipopCounter w) : Prop :=
  b.gt a = some true ∧ a.lt b = some true ∧ a.gt b = some false ∧ a.isComparable b = some true

theorem windowOf_spec {numberOfBits : Nat} (hint : numberOfBits < 32) (hbits : numberOfBits < w) :
    ∃ window, windowOf w numberOfBits = some window ∧ 2 ^ numberOfBits ≤ window.toNat := by
  refine ⟨_, if_pos hint, ?_⟩
  have hpos := Nat.two_pow_pos numberOfBits
  have hpow : 2 ^ (numberOfBits + 1) ≤ 2 ^ w := Nat.pow_le_pow_right (by omega) hbits
  have hsmall : 2 ^ numberOfBits ≤ 2 ^ 31 := Nat.pow_le_pow_right (by omega) (by omega)
  rw [Nat.pow_succ] at hpow
  rw [BitVec.toNat_ofInt]
  obtain heq | hlt := Nat.eq_or_lt_of_le hsmall
  · have hint32 : int32 (2 ^ numberOfBits : Nat) = -2147483648 := by
      rw [heq]
      rfl
    have hmod : (-2147483648 : Int) % (2 ^ w : Nat) = (2 ^ w : Nat) - 2147483648 := by
      rw [← Int.add_emod_right]
      exact Int.emod_eq_of_lt (by omega) (by omega)
    rw [hint32, hmod]
    omega
  · have hint32 : int32 (2 ^ numberOfBits : Nat) = (2 ^ numberOfBits : Nat) := by
      rw [int32]
      exact Int.bmod_eq_of_le (by omega) (by omega)
    rw [hint32, Int.emod_eq_of_lt (by omega) (by omega)]
    exact Nat.le_refl _

theorem incr_window (c : LollipopCounter w) : ∀ k : Nat, (incr^[k] c).m_sequenceWindow = c.m_sequenceWindow
  | 0 => rfl
  | k + 1 => by
    rw [Function.iterate_succ_apply']
    exact incr_window c k

theorem lt_eq {a b : LollipopCounter w} {greater : Bool} (hcomparable : a.isComparable b = some true)
    (hgt : a.gt b = some greater) (hne : a.m_value ≠ b.m_value) : a.lt b = some !greater := by
  rw [lt, hcomparable]
  show (a.gt b).bind _ = _
  rw [hgt, Option.bind_some]
  cases greater with
  | true => rfl
  | false => exact congrArg some (decide_eq_true hne)

section
variable {S : Nat} (hw : 2 ^ w = 4 * S) (hS : 0 < S) {c : LollipopCounter w} {k : Nat} (hwindow : k ≤ c.m_sequenceWindow.toNat)
include hw hS hwindow

theorem ordered_across (hfew : k ≤ 2 * S) (hlinear : 2 * S ≤ c.m_value.toNat) (hacross : 4 * S ≤ c.m_value.toNat + k) :
    Ordered c (incr^[k] c) := by
  have hvalue := toNat_lt hw c.m_value
  have hsame := incr_window c k
  have hafter : (incr^[k] c).m_value.toNat = c.m_value.toNat + k - 4 * S := by
    have hsum : c.m_value.toNat + k = c.m_value.toNat + k - 4 * S + 2 * S * 2 := by omega
    rw [iterate_toNat hw hS, if_neg (by omega)]
    rw [hsum, Nat.add_mul_mod_self_left, Nat.mod_eq_of_lt (by omega)]
    omega
  have hother : ¬(c.m_value.toNat < 2 * S ↔ (incr^[k] c).m_value.toNat < 2 * S) := by omega
  have hne : c.m_value ≠ (incr^[k] c).m_value := by
    intro heq
    rw [← heq] at hother
    exact hother Iff.rfl
  have hless : c.gt (incr^[k] c) = some false := by
    rw [gt_other hw hS hsame.symm hother, Option.some.injEq, decide_eq_false_iff_not]
    lia
  have hcomparable := isComparable_other hw hS hsame.symm hother
  refine ⟨?_, lt_eq hcomparable hless hne, hless, hcomparable⟩
  rw [gt_other hw hS hsame fun h => hother h.symm, Option.some.injEq, decide_eq_true_iff, hsame]
  lia

theorem ordered_within (hk : 1 ≤ k) (hfew : k ≤ 2 * S) (hwithin : c.m_value.toNat < 2 * S ∨ c.m_value.toNat + k < 4 * S) :
    Ordered c (incr^[k] c) ↔ k < S := by
  have hvalue := toNat_lt hw c.m_value
  have hsame := incr_window c k
  have hafter : (incr^[k] c).m_value.toNat =
      if 2 * S ≤ c.m_value.toNat ∨ c.m_value.toNat + k < 2 * S then c.m_value.toNat + k else c.m_value.toNat + k - 2 * S := by
    rw [iterate_toNat hw hS]
    by_cases hlinear : 2 * S ≤ c.m_value.toNat
    · rw [if_pos (by omega), if_pos (.inl hlinear)]
    · rw [if_neg (by omega)]
      split
      · exact Nat.mod_eq_of_lt (by omega)
      · next h =>
        rw [Nat.mod_eq_sub_mod (by omega)]
        exact Nat.mod_eq_of_lt (by omega)
  have hregion : c.m_value.toNat < 2 * S ↔ (incr^[k] c).m_value.toNat < 2 * S := by
    rw [hafter]
    split
    · omega
    · omega
  have hclose : (c.absoluteMagnitudeOfDifference (incr^[k] c)).toNat ≤ c.m_sequenceWindow.toNat := by
    rw [absoluteMagnitudeOfDifference_toNat hw hS hregion, hafter]
    split
    · omega
    · omega
  have hclose' : ((incr^[k] c).absoluteMagnitudeOfDifference c).toNat ≤ (incr^[k] c).m_sequenceWindow.toNat := by
    rw [absoluteMagnitudeOfDifference_toNat hw hS hregion.symm, hafter, hsame]
    split
    · lia
    · lia
  have hgreater : (incr^[k] c).gt c = some (decide (k < S)) := by
    rw [gt_same hw hS hsame hregion.symm hclose', hafter, Option.some.injEq, decide_eq_decide]
    split
    · lia
    · lia
  constructor
  · intro hordered
    obtain ⟨hgt, -⟩ := hordered
    rw [hgreater, Option.some.injEq, decide_eq_true_iff] at hgt
    exact hgt
  · intro hless
    have hne : c.m_value ≠ (incr^[k] c).m_value := by
      rw [Ne, ← BitVec.toNat_inj, hafter]
      split
      · omega
      · omega
    have hnot : c.gt (incr^[k] c) = some false := by
      rw [gt_same hw hS hsame.symm hregion hclose, hafter, Option.some.injEq, decide_eq_false_iff_not]
      split
      · omega
      · omega
    have hcomparable := isComparable_same hw hS hsame.symm hregion hclose
    refine ⟨?_, lt_eq hcomparable hnot hne, hnot, hcomparable⟩
    rw [hgreater, decide_eq_true hless]

end

/-- **The order follows the increments** of a counter whose window was set when the shift of the window is
defined and the increments are fewer than half a region or lead from the linear region into the
circular one. At most one of two counters is the greater. -/
theorem order_iff {numberOfBits k : Nat} (hw : 4 ≤ w) (hbits : numberOfBits < w) (a : BitVec w) (hk : 1 ≤ k)
    (hfew : k ≤ 2 ^ numberOfBits) :
    ((∃ c : LollipopCounter w, setSequenceWindowSize numberOfBits = some c ∧ Ordered (c.assign a) (incr^[k] (c.assign a))) ↔
      numberOfBits < 32 ∧ (k < 2 ^ (w - 2) ∨ (2 ^ (w - 1) ≤ a.toNat ∧ 2 ^ w ≤ a.toNat + k))) ∧
      ∀ c d : LollipopCounter w, ¬(c.gt d = some true ∧ d.gt c = some true) := by
  have hS : 0 < 2 ^ (w - 2) := Nat.two_pow_pos _
  have hhalf : 2 ^ (w - 1) = 2 * 2 ^ (w - 2) := by
    rw [← Nat.pow_succ', show (w - 2).succ = w - 1 by omega]
  have hall : 2 ^ w = 4 * 2 ^ (w - 2) := by
    have hsucc : 2 ^ w = 2 * 2 ^ (w - 1) := by rw [← Nat.pow_succ', show (w - 1).succ = w by omega]
    omega
  have hmost : k ≤ 2 * 2 ^ (w - 2) := by
    rw [← hhalf]
    exact hfew.trans (Nat.pow_le_pow_right (by omega) (by omega))
  refine ⟨?_, not_gt_both hall hS⟩
  rw [hhalf]
  by_cases hint : numberOfBits < 32
  · obtain ⟨window, hwindowOf, hle⟩ := windowOf_spec hint hbits
    have hset : setSequenceWindowSize numberOfBits = some (⟨initialValue window, window⟩ : LollipopCounter w) := by
      rw [setSequenceWindowSize, if_neg (Nat.not_le_of_lt hbits), hwindowOf]
      rfl
    let c : LollipopCounter w := (⟨initialValue window, window⟩ : LollipopCounter w).assign a
    have hwindow : k ≤ c.m_sequenceWindow.toNat := hfew.trans hle
    have hordered : Ordered c (incr^[k] c) ↔ k < 2 ^ (w - 2) ∨ (2 * 2 ^ (w - 2) ≤ a.toNat ∧ 2 ^ w ≤ a.toNat + k) := by
      rw [hall]
      by_cases hacross : 2 * 2 ^ (w - 2) ≤ a.toNat ∧ 4 * 2 ^ (w - 2) ≤ a.toNat + k
      · exact ⟨fun _ => .inr hacross, fun _ => ordered_across hall hS hwindow hmost hacross.1 hacross.2⟩
      · have hvalue : c.m_value = a := rfl
        rw [ordered_within hall hS hwindow hk hmost (by rw [hvalue]; omega), or_iff_left hacross]
    constructor
    · intro ⟨d, hd, hafter⟩
      rw [hset] at hd
      cases hd
      exact ⟨hint, hordered.mp hafter⟩
    · intro hcondition
      exact ⟨_, hset, hordered.mpr hcondition.2⟩
  · refine ⟨fun ⟨d, hd, _⟩ => ?_, fun hcondition => absurd hcondition.1 hint⟩
    rw [setSequenceWindowSize, if_neg (Nat.not_le_of_lt hbits), windowOf, if_neg hint] at hd
    cases hd

/-- Fifteen increments out of the linear region of eight bits. -/
theorem restart_ordered : ∃ c : LollipopCounter 8, setSequenceWindowSize 4 = some c ∧
    Ordered (c.assign 250) (incr^[15] (c.assign 250)) :=
  (order_iff (by decide) (by decide) 250 (by decide) (by decide)).1.mpr (by decide)

/-- With the window 2^6 of eight bits, 64 increments leave neither of two counters the greater. -/
theorem halfRegion_unordered : ∃ c : LollipopCounter 8, setSequenceWindowSize 6 = some c ∧
    (incr^[64] (c.assign 0)).gt (c.assign 0) = some false := by
  exact ⟨⟨192, 64⟩, by decide, by decide +kernel⟩

end LollipopCounter

end Ns3
