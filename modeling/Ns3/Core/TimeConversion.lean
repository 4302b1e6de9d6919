import Ns3.Core.Int64x64Sound

/-!
# Times in other units

A unit coarser than the resolution is reached by multiplication with the
inverse of a factor, which is rounded up to 128 fraction bits. The error is
too small to reach the next integer, whatever the factor and the time.
-/

namespace Ns3

open Option

namespace Int64x64

/-! ## The inverse -/

theorem ofHigh_v {n : Int} (h : -2 ^ 63 ≤ n) (h' : n < 2 ^ 63) : (ofHigh n).v = n * 2 ^ 64 := by
  rw [ofHigh, int64_eq h h']
  exact int128_eq (by omega) (by omega)

theorem umulByInvert_eq {m b : Nat} (hm : m < 2 ^ 64) (hb : b < 2 ^ 128) : umulByInvert (m * 2 ^ 64) b = m * b / 2 ^ 64 := by
  have hsplit : m * b = m * (b / 2 ^ 64) * 2 ^ 64 + m * (b % 2 ^ 64) := by
    calc m * b = m * (b / 2 ^ 64 * 2 ^ 64 + b % 2 ^ 64) := by rw [Nat.div_add_mod']
      _ = m * (b / 2 ^ 64) * 2 ^ 64 + m * (b % 2 ^ 64) := by ring
  have hhi : m * (b / 2 ^ 64) ≤ (2 ^ 64 - 1) * (2 ^ 64 - 1) := Nat.mul_le_mul (by omega) (by omega)
  have hlo : m * (b % 2 ^ 64) ≤ (2 ^ 64 - 1) * (2 ^ 64 - 1) := Nat.mul_le_mul (by omega) (by omega)
  unfold umulByInvert
  simp only [and_maskLo, Nat.shiftRight_eq_div_pow]
  rw [Nat.mul_mod_left, Nat.zero_mul, Nat.add_zero, Nat.mul_div_cancel _ (by decide), hsplit]
  generalize m * (b / 2 ^ 64) = hi at *
  generalize m * (b % 2 ^ 64) = lo at *
  omega

theorem mulByInvert_v {n : Int} (h : -2 ^ 63 ≤ n) (h' : n < 2 ^ 63) {o : Int64x64} {b : Nat} (ho : uint128 o.v = b)
    (hb : b < 2 ^ 128) (hsmall : n.natAbs * b < 2 ^ 191) :
    ((ofHigh n).mulByInvert o).v = if n < 0 then -((n.natAbs * b / 2 ^ 64 : Nat) : Int) else (n.natAbs * b / 2 ^ 64 : Nat) := by
  have hmagnitude : magnitude (ofHigh n).v = n.natAbs * 2 ^ 64 := by
    rw [magnitude_eq (ofHigh n).bounds, ofHigh_v h h', Int.natAbs_mul]
    rfl
  have hneg : (ofHigh n).v < 0 ↔ n < 0 := by
    rw [ofHigh_v h h']
    omega
  rw [mulByInvert, hmagnitude, ho, umulByInvert_eq (by omega) hb]
  simp only [hneg, ofInt128]
  generalize n.natAbs * b = m at *
  by_cases hn : n < 0
  · rw [if_pos hn, if_pos hn]
    unfold int128 uint128
    omega
  · rw [if_neg hn, if_neg hn]
    exact int128_eq (by omega) (by omega)

theorem getHigh_eq {x : Int64x64} (h : -2 ^ 127 ≤ x.v ∧ x.v < 2 ^ 127) : x.getHigh = x.v / 2 ^ 64 :=
  int64_eq (by omega) (by omega)

theorem getInt_eq (x : Int64x64) : x.getInt = x.v.tdiv (2 ^ 64) := by
  have hx := x.bounds
  have hmagnitude := magnitude_eq hx
  rw [getInt, hmagnitude, Nat.shiftRight_eq_div_pow]
  rcases Int.natAbs_eq x.v with hv | hv
  · generalize x.v.natAbs = m at *
    rw [hv, if_neg (by omega), Int.tdiv_eq_ediv_of_nonneg (by omega)]
    exact int64_eq (by omega) (by omega)
  · generalize x.v.natAbs = m at *
    by_cases hzero : m = 0
    · rw [hv, hzero]
      decide
    · rw [hv, if_pos (by omega), Int.neg_tdiv, Int.tdiv_eq_ediv_of_nonneg (by omega)]
      unfold int64
      omega

/-- The inverse of `v` as `b` of `2 ^ 128` parts: a little too large, if anything. -/
structure Inverse (v b : Nat) : Prop where
  le : 2 ^ 128 ≤ b * v
  near : b * v ≤ 2 ^ 128 + v
  small : b ≤ 2 ^ 127 + 1

section
variable {v : Nat}

theorem ofHigh_wrap (v : Nat) : ofHigh v = ofHigh (v - 2 ^ 64) := by
  have hwrap : int64 v = int64 (v - 2 ^ 64) := by
    unfold int64
    omega
  rw [ofHigh, ofHigh, hwrap]

theorem quotient_le (hv : 1 < v) : 2 ^ 128 / v ≤ 2 ^ 127 := by
  have hle : 2 ^ 128 / v ≤ 2 ^ 128 / 2 := Nat.div_le_div_left hv (by decide)
  omega

theorem uint128_ofInt128 {q : Nat} (hq : q < 2 ^ 128) : uint128 (ofInt128 q).v = q := by
  simp only [ofInt128]
  unfold uint128 int128
  omega

theorem uint128_succ {q : Nat} (hq : q ≤ 2 ^ 127) : uint128 (ofInt128 ((ofInt128 q).v + 1)).v = q + 1 := by
  simp only [ofInt128]
  unfold uint128 int128
  omega

theorem inverse_quotient (hv : 1 < v) : (2 ^ 128 ≤ 2 ^ 128 / v * v → Inverse v (2 ^ 128 / v)) ∧ Inverse v (2 ^ 128 / v + 1) := by
  have hq := quotient_le hv
  have hle := Nat.div_mul_le_self (2 ^ 128) v
  have hnear : 2 ^ 128 < (2 ^ 128 / v + 1) * v := Nat.lt_mul_of_div_lt (Nat.lt_succ_self _) (by omega)
  have hsplit : (2 ^ 128 / v + 1) * v = 2 ^ 128 / v * v + v := Nat.succ_mul ..
  refine ⟨fun hexact => ⟨hexact, Nat.le_trans hle (Nat.le_add_right ..), Nat.le_succ_of_le hq⟩, Nat.le_of_lt hnear, ?_,
    Nat.succ_le_succ hq⟩
  rw [hsplit]
  exact Nat.add_le_add_right hle v

theorem getHigh_ne_one (hv : 1 < v) (hv' : v < 2 ^ 64) (hrounded : 2 ^ 128 / v * v < 2 ^ 128) :
    ((ofHigh v).mulByInvert (ofInt128 (2 ^ 128 / v : Nat))).getHigh ≠ 1 := by
  have hq := quotient_le hv
  have hinverse := uint128_ofInt128 (show 2 ^ 128 / v < 2 ^ 128 by omega)
  generalize 2 ^ 128 / v = q at *
  rw [getHigh_eq (Int64x64.bounds _)]
  by_cases hlow : v < 2 ^ 63
  · have hproduct : (v : Int).natAbs * q < 2 ^ 128 := by
      rw [Int.natAbs_natCast, Nat.mul_comm]
      exact hrounded
    rw [mulByInvert_v (by omega) (by omega) hinverse (by omega) (by omega), if_neg (by omega)]
    generalize (v : Int).natAbs * q = m at *
    omega
  · -- as a signed number the divisor is negative, and so is the product
    have hproduct : ((v : Int) - 2 ^ 64).natAbs * q ≤ 2 ^ 63 * 2 ^ 127 := Nat.mul_le_mul (by omega) hq
    rw [ofHigh_wrap, mulByInvert_v (by omega) (by omega) hinverse (by omega) (by omega), if_pos (by omega)]
    generalize ((v : Int) - 2 ^ 64).natAbs * q = m at *
    omega

theorem udiv_one (hv : 1 < v) (hv' : v < 2 ^ 64) {fuel : Nat} (hfuel : 65 < fuel) :
    udiv fuel (2 ^ 64) v = some (2 ^ 128 / v) := by
  have hq := quotient_le hv
  have hone : 2 ^ 64 * 2 ^ 64 = 2 ^ 128 := (Nat.pow_add ..).symm
  rw [udiv_eq (by decide) (by omega) (by omega) hfuel, hone, Nat.mod_eq_of_lt (by omega)]

theorem invert_spec (hv : 1 < v) (hv' : v < 2 ^ 64) {fuel : Nat} (hfuel : 65 < fuel) :
    ∃ inverse, invert fuel v = some inverse ∧ Inverse v (uint128 inverse.v) := by
  have hq := quotient_le hv
  obtain ⟨hexact, hnext⟩ := inverse_quotient hv
  rw [invert, if_pos hv, udiv_one hv hv' hfuel, map_some]
  by_cases hadjust : ((ofHigh v).mulByInvert (ofInt128 (2 ^ 128 / v : Nat))).getHigh ≠ 1
  · refine ⟨_, congrArg some (if_pos hadjust), ?_⟩
    rw [uint128_succ hq]
    exact hnext
  · refine ⟨_, congrArg some (if_neg hadjust), ?_⟩
    rw [uint128_ofInt128 (Nat.lt_of_le_of_lt hq (by decide))]
    apply hexact
    by_contra hless
    exact hadjust (getHigh_ne_one hv hv' (Nat.lt_of_not_le hless))

theorem Inverse.div {b : Nat} (h : Inverse v b) (hv : 0 < v) (hv' : v < 2 ^ 64) {m : Nat} (hm : m ≤ 2 ^ 63) :
    m * b / 2 ^ 128 = m / v := by
  have hle := h.le
  have hnear := h.near
  have hdiv := Nat.div_add_mod m v
  have hmod := Nat.mod_lt m hv
  refine Nat.div_eq_of_lt_le ?_ ?_
  · refine Nat.le_of_mul_le_mul_right ?_ hv
    calc m / v * 2 ^ 128 * v = v * (m / v) * 2 ^ 128 := by ring
      _ ≤ m * 2 ^ 128 := Nat.mul_le_mul_right _ (Nat.mul_div_le m v)
      _ ≤ m * (b * v) := Nat.mul_le_mul_left m hle
      _ = m * b * v := (Nat.mul_assoc ..).symm
  · refine Nat.lt_of_mul_lt_mul_right (a := v) ?_
    have herror : m * v ≤ 2 ^ 63 * 2 ^ 64 := Nat.mul_le_mul hm (Nat.le_of_lt hv')
    calc m * b * v = m * (b * v) := Nat.mul_assoc ..
      _ ≤ m * (2 ^ 128 + v) := Nat.mul_le_mul_left m hnear
      _ = m * 2 ^ 128 + m * v := Nat.mul_add ..
      _ < m * 2 ^ 128 + 2 ^ 128 := by omega
      _ = (m + 1) * 2 ^ 128 := by ring
      _ ≤ (v * (m / v) + v) * 2 ^ 128 := Nat.mul_le_mul_right _ (by omega)
      _ = (m / v + 1) * 2 ^ 128 * v := by ring

theorem Inverse.getInt {inverse : Int64x64} (h : Inverse v (uint128 inverse.v)) (hv : 0 < v) (hv' : v < 2 ^ 64) {n : Int}
    (hn : -2 ^ 63 ≤ n) (hn' : n < 2 ^ 63) : ((ofHigh n).mulByInvert inverse).getInt = n.tdiv v := by
  have hsmall := h.small
  have hbound : n.natAbs * uint128 inverse.v ≤ 2 ^ 63 * (2 ^ 127 + 1) := Nat.mul_le_mul (by omega) hsmall
  have hdiv := h.div hv hv' (show n.natAbs ≤ 2 ^ 63 by omega)
  rw [getInt_eq, mulByInvert_v hn hn' rfl (by omega) (by omega)]
  have hshift : n.natAbs * uint128 inverse.v / 2 ^ 64 / 2 ^ 64 = n.natAbs / v := by
    rw [Nat.div_div_eq_div_mul, ← Nat.pow_add, ← hdiv]
  generalize n.natAbs * uint128 inverse.v / 2 ^ 64 = m at *
  by_cases hneg : n < 0
  · obtain ⟨k, rfl⟩ : ∃ k : Nat, n = -(k : Int) := ⟨n.natAbs, by omega⟩
    rw [if_pos hneg, Int.neg_tdiv, Int.neg_tdiv]
    rw [Int.natAbs_neg, Int.natAbs_natCast] at hshift
    congr 1
    exact congrArg Int.ofNat hshift
  · obtain ⟨k, rfl⟩ : ∃ k : Nat, n = (k : Int) := ⟨n.natAbs, by omega⟩
    rw [if_neg hneg]
    rw [Int.natAbs_natCast] at hshift
    exact congrArg Int.ofNat hshift

end

end Int64x64

open Int64x64

inductive TimeUnit where
  | Y | D | H | MIN | S | MS | US | NS | PS | FS

structure Time where
  data : Int
  bounds : -2 ^ 63 ≤ data ∧ data < 2 ^ 63

namespace Time

structure Information where
  toMul : Bool
  fromMul : Bool
  factor : Int
  timeTo : Int64x64
  timeFrom : Int64x64
  deriving DecidableEq

def toInteger (t : Time) (info : Information) : Int :=
  if info.toMul then int64 (t.data * info.factor) else int64 (t.data.tdiv info.factor)

/-- `To`. -/
def toUnit (t : Time) (info : Information) : Option Int64x64 :=
  if info.toMul then (ofHigh t.data).mul info.timeTo else some ((ofHigh t.data).mulByInvert info.timeTo)

/-! ## The resolution -/

def unitPower : TimeUnit → Nat
  | .Y => 17 | .D => 17 | .H => 17 | .MIN => 16 | .S => 15 | .MS => 12 | .US => 9 | .NS => 6 | .PS => 3 | .FS => 0

def unitCoeff : TimeUnit → Nat
  | .Y => 315360 | .D => 864 | .H => 36 | .MIN => 6 | .S => 1 | .MS => 1 | .US => 1 | .NS => 1 | .PS => 1 | .FS => 1

/-- The ratio of the coefficients, which has to be an integer one way or the other. -/
def unitQuotient (i unit : TimeUnit) : Option Nat :=
  if unitCoeff unit < unitCoeff i then
    let quotient := unitCoeff i / unitCoeff unit
    if quotient * unitCoeff unit = unitCoeff i then some quotient else none
  else if unitCoeff i < unitCoeff unit then
    let quotient := unitCoeff unit / unitCoeff i
    if quotient * unitCoeff i = unitCoeff unit then some quotient else none
  else some 1

/-- What `SetResolution` notes about a unit. The powers of ten are floating point
numbers there, all of them exact; a factor from `2 ^ 63` on has no conversion to
`int64_t`. -/
def setResolution (fuel : Nat) (unit i : TimeUnit) : Option Information :=
  let shift := (unitPower i : Int) - unitPower unit
  (unitQuotient i unit).bind fun quotient =>
    let factor := 10 ^ shift.natAbs * quotient
    if factor < 2 ^ 63 then
      if shift = 0 ∧ quotient = 1 then
        some { toMul := true, fromMul := true, factor := factor, timeTo := ofHigh 1, timeFrom := ofHigh 1 }
      else if 10 ^ unitPower unit * unitCoeff unit < 10 ^ unitPower i * unitCoeff i then
        (invert fuel factor).map fun inverse =>
          { toMul := false, fromMul := true, factor := factor, timeTo := inverse, timeFrom := ofHigh factor }
      else
        (invert fuel factor).map fun inverse =>
          { toMul := true, fromMul := false, factor := factor, timeTo := ofHigh factor, timeFrom := inverse }
    else none

structure Information.Sound (info : Information) : Prop where
  factor : 0 < info.factor ∧ info.factor < 2 ^ 63
  multiply : info.toMul = true → info.timeTo = ofHigh info.factor
  divide : info.toMul = false → Inverse info.factor.natAbs (uint128 info.timeTo.v)

theorem one_lt_of_invert {fuel v : Nat} {inverse : Int64x64} (h : invert fuel v = some inverse) : 1 < v := by
  by_contra hnot
  rw [invert, if_neg hnot] at h
  cases h

theorem setResolution_sound {fuel : Nat} (hfuel : 65 < fuel) {unit i : TimeUnit} {info : Information}
    (h : setResolution fuel unit i = some info) : info.Sound := by
  obtain ⟨quotient, -, h⟩ := bind_eq_some_iff.mp h
  dsimp only at h
  have hone : (unitPower i : Int) - unitPower unit = 0 ∧ quotient = 1 →
      10 ^ ((unitPower i : Int) - unitPower unit).natAbs * quotient = 1 := by
    intro hsame
    rw [hsame.1, hsame.2]
    rfl
  generalize 10 ^ ((unitPower i : Int) - unitPower unit).natAbs * quotient = factor at h hone
  by_cases hsmall : factor < 2 ^ 63
  · rw [if_pos hsmall] at h
    by_cases hsame : (unitPower i : Int) - unitPower unit = 0 ∧ quotient = 1
    · rw [if_pos hsame] at h
      cases h
      rw [hone hsame]
      exact ⟨by decide, fun _ => rfl, fun hdiv => nomatch hdiv⟩
    · rw [if_neg hsame] at h
      by_cases hcoarser : 10 ^ unitPower unit * unitCoeff unit < 10 ^ unitPower i * unitCoeff i
      · rw [if_pos hcoarser] at h
        obtain ⟨inverse, hinvert, rfl⟩ := map_eq_some_iff.mp h
        have hv := one_lt_of_invert hinvert
        obtain ⟨inverse', hinvert', hspec⟩ := invert_spec hv (by omega) hfuel
        cases hinvert'.symm.trans hinvert
        exact ⟨by dsimp only; omega, fun hmul => (by cases hmul), fun _ => hspec⟩
      · rw [if_neg hcoarser] at h
        obtain ⟨inverse, hinvert, rfl⟩ := map_eq_some_iff.mp h
        have hv := one_lt_of_invert hinvert
        exact ⟨by dsimp only; omega, fun _ => rfl, fun hdiv => by cases hdiv⟩
  · rw [if_neg hsmall] at h
    cases h

/-! ## The two conversions -/

theorem product_ofHigh {n f : Int} (hn : -2 ^ 63 ≤ n ∧ n < 2 ^ 63) (hf : -2 ^ 63 ≤ f ∧ f < 2 ^ 63) :
    product (ofHigh n) (ofHigh f) = n * f * 2 ^ 64 := by
  have hmagnitude : (n * 2 ^ 64).natAbs * (f * 2 ^ 64).natAbs / 2 ^ 64 = (n * f * 2 ^ 64).natAbs := by
    rw [Int.natAbs_mul, Int.natAbs_mul, Int.natAbs_mul, Int.natAbs_mul, show (2 ^ 64 : Int).natAbs = 2 ^ 64 from rfl]
    have hsplit : n.natAbs * 2 ^ 64 * (f.natAbs * 2 ^ 64) = n.natAbs * f.natAbs * 2 ^ 64 * 2 ^ 64 := by ring
    rw [hsplit, Nat.mul_div_cancel _ (by decide)]
  have hsign : (n * 2 ^ 64 * (f * 2 ^ 64)).sign = (n * f * 2 ^ 64).sign := by
    simp only [Int.sign_mul, show (2 ^ 64 : Int).sign = 1 from rfl, Int.mul_one]
  rw [product, signed, ofHigh_v hn.1 hn.2, ofHigh_v hf.1 hf.2, hmagnitude, hsign, Int.sign_mul_natAbs]

theorem getInt_ofInt128 (z : Int) : (ofInt128 (z * 2 ^ 64)).getInt = int64 z := by
  have hv : (ofInt128 (z * 2 ^ 64)).v = int64 z * 2 ^ 64 := by
    simp only [ofInt128]
    unfold int128 int64
    omega
  rw [getInt_eq, hv, Int.mul_tdiv_cancel _ (by decide)]

theorem int64_tdiv {n d : Int} (hn : -2 ^ 63 ≤ n ∧ n < 2 ^ 63) (hd : 0 ≤ d) : int64 (n.tdiv d) = n.tdiv d := by
  have hsmall : (n.tdiv d).natAbs ≤ n.natAbs := by
    rw [Int.natAbs_tdiv]
    exact Nat.div_le_self ..
  by_cases hneg : n < 0
  · have hnonneg : 0 ≤ (-n).tdiv d := Int.tdiv_nonneg (by omega) hd
    rw [Int.neg_tdiv] at hnonneg
    exact int64_eq (by omega) (by omega)
  · have hnonneg : 0 ≤ n.tdiv d := Int.tdiv_nonneg (by omega) hd
    exact int64_eq (by omega) (by omega)

theorem Information.Sound.getInt {info : Information} (h : info.Sound) (t : Time) :
    (t.toUnit info).map Int64x64.getInt = some (t.toInteger info) := by
  obtain ⟨hpos, hfactor⟩ := h.factor
  have ht := t.bounds
  cases hmul : info.toMul with
  | true =>
    rw [toUnit, toInteger, if_pos hmul, if_pos hmul, h.multiply hmul, mul_eq, product_ofHigh ht ⟨by omega, hfactor⟩,
      map_some, getInt_ofInt128]
  | false =>
    have hv : (info.factor.natAbs : Int) = info.factor := by omega
    have hdiv := (h.divide hmul).getInt (by omega) (by omega) ht.1 ht.2
    rw [hv] at hdiv
    rw [toUnit, toInteger, if_neg (by simp [hmul]), if_neg (by simp [hmul]), map_some, hdiv,
      int64_tdiv ht (Int.le_of_lt hpos)]

/-- **Truncation by an inverse.** Multiplying by the inverse of any divisor truncates
just as the division does; so do the two conversions of any time to any unit of any
resolution. -/
theorem inverse_truncates {fuel : Nat} (hfuel : 65 < fuel) :
    (∀ v : Nat, 1 < v → v < 2 ^ 64 → ∃ inverse, invert fuel v = some inverse ∧
      ∀ n : Int, -2 ^ 63 ≤ n → n < 2 ^ 63 → ((ofHigh n).mulByInvert inverse).getInt = n.tdiv v) ∧
    (∀ (info : Information) (v : Nat), 1 < v → v < 2 ^ 63 → info.toMul = false → info.factor = v →
      invert fuel v = some info.timeTo → ∀ t : Time, (t.toUnit info).map Int64x64.getInt = some (t.toInteger info)) ∧
    ∀ (unit i : TimeUnit) (info : Information), setResolution fuel unit i = some info →
      ∀ t : Time, (t.toUnit info).map Int64x64.getInt = some (t.toInteger info) := by
  refine ⟨fun v hv hv' => ?_, fun info v hv hv' hmul hfactor hinvert t => ?_, fun unit i info h => ?_⟩
  · obtain ⟨inverse, hinvert, hspec⟩ := invert_spec hv hv' hfuel
    exact ⟨inverse, hinvert, fun n hn hn' => hspec.getInt (by omega) hv' hn hn'⟩
  · obtain ⟨inverse, hinvert', hspec⟩ := invert_spec hv (by omega) hfuel
    cases hinvert'.symm.trans hinvert
    refine Information.Sound.getInt ⟨by omega, fun htrue => absurd (htrue.symm.trans hmul) (by decide), fun _ => ?_⟩ t
    rw [hfactor, Int.natAbs_natCast]
    exact hspec
  · exact (setResolution_sound hfuel h).getInt

theorem minutes_isSome : (setResolution 66 .US .MIN).isSome := by
  decide +kernel

/-- A third of the latest time, and the earliest one in minutes of microseconds. -/
theorem inverse_truncates_third :
    (∃ inverse, invert 66 3 = some inverse ∧ ((ofHigh (2 ^ 63 - 1)).mulByInvert inverse).getInt = 3074457345618258602) ∧
      ∃ info, setResolution 66 .US .MIN = some info ∧
        ((⟨-2 ^ 63, by decide⟩ : Time).toUnit info).map Int64x64.getInt = some (-153722867280) := by
  obtain ⟨hinverse, -, hunits⟩ := inverse_truncates (show 65 < 66 by decide)
  constructor
  · obtain ⟨inverse, hinvert, htruncate⟩ := hinverse 3 (by decide) (by decide)
    exact ⟨inverse, hinvert, htruncate (2 ^ 63 - 1) (by decide) (by decide)⟩
  · have hsome := (some_get minutes_isSome).symm
    exact ⟨_, hsome, (hunits .US .MIN _ hsome _).trans (by decide +kernel)⟩

end Time

end Ns3
