import Ns3.Core.Int64x64

/-!
# Products and quotients

`Umul` gives the product modulo `2 ^ 128` and never aborts, because the mask of
its overflow test is zero. `Udiv` is exact for magnitudes of signed values: it
casts off a bit of the divisor that is not zero only while the remainder is
below the divisor, and by then the remainder has its highest bit set.
-/

namespace Ns3

namespace Int64x64

/-! ## Multiplication -/

theorem product_eq (aL aH bL bH : Nat) :
    (aL + 2 ^ 64 * aH) * (bL + 2 ^ 64 * bH) / 2 ^ 64 = aL * bL / 2 ^ 64 + (aL * bH + aH * bL) + 2 ^ 64 * (aH * bH) := by
  have hsplit : (aL + 2 ^ 64 * aH) * (bL + 2 ^ 64 * bH) =
      aL * bL + 2 ^ 64 * ((aL * bH + aH * bL) + 2 ^ 64 * (aH * bH)) := by ring
  rw [hsplit, Nat.add_mul_div_left _ _ (by decide), ← Nat.add_assoc]

theorem umul_eq {a b : Nat} (ha : a ≤ 2 ^ 127) (hb : b ≤ 2 ^ 127) : umul a b = some (a * b / 2 ^ 64 % 2 ^ 128) := by
  have hmask : ∀ x, ¬ x &&& hpMaskHi ≠ 0 := by
    intro x
    have hzero : hpMaskHi = 0 := by decide
    rw [hzero, Nat.and_zero]
    simp
  have ha' : a = a % 2 ^ 64 + 2 ^ 64 * (a / 2 ^ 64) := (Nat.mod_add_div ..).symm
  have hb' : b = b % 2 ^ 64 + 2 ^ 64 * (b / 2 ^ 64) := (Nat.mod_add_div ..).symm
  have hproduct := product_eq (a % 2 ^ 64) (a / 2 ^ 64) (b % 2 ^ 64) (b / 2 ^ 64)
  rw [← ha', ← hb'] at hproduct
  have haL : a % 2 ^ 64 ≤ 2 ^ 64 - 1 := by omega
  have hbL : b % 2 ^ 64 ≤ 2 ^ 64 - 1 := by omega
  have haH : a / 2 ^ 64 ≤ 2 ^ 63 := by omega
  have hbH : b / 2 ^ 64 ≤ 2 ^ 63 := by omega
  have hlo := Nat.mul_le_mul haL hbL
  have hmid := Nat.mul_le_mul haL hbH
  have hmid' := Nat.mul_le_mul haH hbL
  have hhi := Nat.mul_le_mul haH hbH
  unfold umul
  simp only [and_maskLo, Nat.shiftRight_eq_div_pow, Nat.shiftLeft_eq]
  rw [if_neg (hmask _), hproduct, Nat.mod_eq_of_lt (show a / 2 ^ 64 < 2 ^ 64 by omega),
    Nat.mod_eq_of_lt (show b / 2 ^ 64 < 2 ^ 64 by omega)]
  generalize a % 2 ^ 64 * (b % 2 ^ 64) = lo at *
  generalize a % 2 ^ 64 * (b / 2 ^ 64) = mid at *
  generalize a / 2 ^ 64 * (b % 2 ^ 64) = mid' at *
  generalize a / 2 ^ 64 * (b / 2 ^ 64) = hi at *
  congr 1
  omega

/-- The product as it should be: rounded toward zero. -/
def product (x o : Int64x64) : Int := signed x o (x.v.natAbs * o.v.natAbs / 2 ^ 64)

theorem mul_eq (x o : Int64x64) : mul x o = some (ofInt128 (product x o)) := by
  have hx := magnitude_le x.bounds
  have ho := magnitude_le o.bounds
  rw [magnitude_eq x.bounds] at hx
  rw [magnitude_eq o.bounds] at ho
  have hzero : x.v = 0 ∨ o.v = 0 → x.v.natAbs * o.v.natAbs / 2 ^ 64 = 0 := by
    rintro (h | h) <;> simp [h]
  rw [mul, product, signed_eq x o hzero]
  simp only [outputSign_eq, umul_eq hx ho, Option.map_some, Option.some.injEq]
  generalize x.v.natAbs * o.v.natAbs / 2 ^ 64 = m
  by_cases hneg : (decide (x.v < 0) != decide (o.v < 0)) = true
  · rw [if_pos hneg, if_pos hneg]
    apply ofInt128_congr
    unfold uint128
    omega
  · rw [if_neg hneg, if_neg hneg]
    apply ofInt128_congr
    omega

/-- `Mul` aborts, or gives the exact product. -/
def MulExact (x o : Int64x64) : Prop := mul x o = none ∨ ∃ y, mul x o = some y ∧ y.v = product x o

/-- **Multiplication.** `Mul` is exact just when the product fits; it never aborts. -/
theorem mul_exact_iff (x o : Int64x64) : MulExact x o ↔ x.v.natAbs * o.v.natAbs < 2 ^ 191 ∨
      (x.v < 0) ≠ (o.v < 0) ∧ x.v.natAbs * o.v.natAbs < 2 ^ 191 + 2 ^ 64 := by
  have hzero : x.v = 0 ∨ o.v = 0 → x.v.natAbs * o.v.natAbs / 2 ^ 64 = 0 := by
    rintro (h | h) <;> simp [h]
  have hexact : MulExact x o ↔ (ofInt128 (product x o)).v = product x o := by
    rw [MulExact, mul_eq]
    simp
  rw [hexact, ofInt128_eq_iff, product, signed_eq x o hzero]
  generalize x.v.natAbs * o.v.natAbs = m
  by_cases hx : x.v < 0 <;> by_cases ho : o.v < 0 <;> simp only [hx, ho, decide_true, decide_false] <;> simp <;> omega

/-- The square of `2 ^ 32` is zero. -/
theorem square_wraps : ¬ MulExact (ofHigh (2 ^ 32)) (ofHigh (2 ^ 32)) := by
  have hzero : (ofInt128 (product (ofHigh (2 ^ 32)) (ofHigh (2 ^ 32)))).v = 0 := by decide
  rw [MulExact, mul_eq]
  rintro (h | ⟨y, hy, hexact⟩)
  · cases h
  · obtain rfl := Option.some.inj hy
    rw [hzero] at hexact
    revert hexact
    decide

/-! ## Division -/

namespace UdivState

/-- What the digits found so far have to do with the quotient of `a` and `b`: `q` is
the number the digits stand for, without wrapping, and the rest of the quotient is
`rem / (den * 2 ^ shift)`. -/
structure Sound (a b : Nat) (s : UdivState) (q : Nat) : Prop where
  digis : s.digis + s.shift ≤ 64
  den : 0 < s.den ∧ s.den ≤ 2 ^ 127
  rem : s.rem < s.den * 2 ^ s.shift
  fits : s.rem < 2 ^ 128
  result : s.result = q % 2 ^ 128
  value : a * 2 ^ s.digis * (s.den * 2 ^ s.shift) = (q * (s.den * 2 ^ s.shift) + s.rem) * b

section
variable {a b q : Nat} {s : UdivState}

theorem and_one_eq_zero (x : Nat) : (x &&& 1 == 0) = true ↔ x % 2 = 0 := by
  rw [beq_iff_eq, Nat.and_one_is_mod]

theorem and_maskHiBit {x : Nat} (h : x < 2 ^ 128) : (x &&& hp128MaskHiBit == 0) = true ↔ x < 2 ^ 127 := by
  rw [beq_iff_eq, hp128MaskHiBit, ← Nat.one_mul (2 ^ 127), show 1 = 2 ^ 1 - 1 from rfl, and_field]
  lia

theorem Sound.halve (h : Sound a b s q) (heven : s.den % 2 = 0) (hmore : s.digis + s.shift < 64) : Sound a b s.halve q := by
  have hden := h.den
  have hhalf : s.den >>> 1 * 2 ^ (s.shift + 1) = s.den * 2 ^ s.shift := by
    rw [Nat.shiftRight_eq_div_pow, Nat.pow_one, Nat.pow_succ, Nat.mul_comm (2 ^ s.shift), ← Nat.mul_assoc,
      Nat.div_mul_cancel (Nat.dvd_of_mod_eq_zero heven)]
  refine ⟨by show s.digis + (s.shift + 1) ≤ 64; omega, ?_, ?_, h.fits, h.result, ?_⟩
  · show 0 < s.den >>> 1 ∧ s.den >>> 1 ≤ 2 ^ 127
    rw [Nat.shiftRight_eq_div_pow]
    omega
  · show s.rem < s.den >>> 1 * 2 ^ (s.shift + 1)
    rw [hhalf]
    exact h.rem
  · show a * 2 ^ s.digis * (s.den >>> 1 * 2 ^ (s.shift + 1)) = (q * (s.den >>> 1 * 2 ^ (s.shift + 1)) + s.rem) * b
    rw [hhalf]
    exact h.value

theorem Sound.double (h : Sound a b s q) (hlow : s.rem < 2 ^ 127) (hmore : s.digis + s.shift < 64) : Sound a b s.double q := by
  have hrem := h.rem
  have hdouble : (s.rem <<< 1) % 2 ^ 128 = 2 * s.rem := by
    rw [Nat.shiftLeft_eq]
    omega
  refine ⟨by show s.digis + (s.shift + 1) ≤ 64; omega, h.den, ?_, ?_, h.result, ?_⟩
  · show (s.rem <<< 1) % 2 ^ 128 < s.den * 2 ^ (s.shift + 1)
    rw [hdouble, Nat.pow_succ, ← Nat.mul_assoc]
    omega
  · show (s.rem <<< 1) % 2 ^ 128 < 2 ^ 128
    omega
  · show a * 2 ^ s.digis * (s.den * 2 ^ (s.shift + 1)) = (q * (s.den * 2 ^ (s.shift + 1)) + (s.rem <<< 1) % 2 ^ 128) * b
    have hvalue := h.value
    rw [hdouble, Nat.pow_succ]
    calc a * 2 ^ s.digis * (s.den * (2 ^ s.shift * 2)) = 2 * (a * 2 ^ s.digis * (s.den * 2 ^ s.shift)) := by ring
      _ = 2 * ((q * (s.den * 2 ^ s.shift) + s.rem) * b) := by rw [hvalue]
      _ = (q * (s.den * (2 ^ s.shift * 2)) + 2 * s.rem) * b := by ring

theorem Sound.divide (h : Sound a b s q) : Sound a b s.divide (q * 2 ^ s.shift + s.rem / s.den) := by
  have hdiv := Nat.div_add_mod s.rem s.den
  have hvalue := h.value
  refine ⟨h.digis, h.den, ?_, Nat.lt_of_le_of_lt (Nat.mod_le ..) h.fits, ?_, ?_⟩
  · show s.rem % s.den < s.den * 2 ^ 0
    rw [Nat.pow_zero, Nat.mul_one]
    exact Nat.mod_lt _ h.den.1
  · show ((s.result <<< s.shift) % 2 ^ 128 + s.rem / s.den) % 2 ^ 128 = (q * 2 ^ s.shift + s.rem / s.den) % 2 ^ 128
    rw [Nat.shiftLeft_eq, h.result, Nat.mod_mul_mod, Nat.mod_add_mod]
  · show a * 2 ^ (s.digis + s.shift) * (s.den * 2 ^ 0) =
      ((q * 2 ^ s.shift + s.rem / s.den) * (s.den * 2 ^ 0) + s.rem % s.den) * b
    calc a * 2 ^ (s.digis + s.shift) * (s.den * 2 ^ 0) = a * 2 ^ s.digis * (s.den * 2 ^ s.shift) := by ring
      _ = (q * (s.den * 2 ^ s.shift) + s.rem) * b := hvalue
      _ = (q * (s.den * 2 ^ s.shift) + (s.den * (s.rem / s.den) + s.rem % s.den)) * b := by rw [hdiv]
      _ = ((q * 2 ^ s.shift + s.rem / s.den) * (s.den * 2 ^ 0) + s.rem % s.den) * b := by ring

/-! ### The loops -/

theorem skipDen_sound (h : Sound a b s q) (hdigis : s.digis = 0) {fuel : Nat} (hfuel : 64 - s.shift < fuel) :
    ∃ s', skipDen fuel s = some s' ∧ Sound a b s' q ∧ s'.digis = 0 := by
  obtain ⟨s', hloop, -, h', hdigis'⟩ := @loopWhile_total UdivState
    (fun s => s.shift < 64 && s.den &&& 1 == 0) UdivState.halve (fun s => Sound a b s q ∧ s.digis = 0)
    (fun s => 64 - s.shift) (by
      intro s hcond hs
      rw [Bool.and_eq_true, decide_eq_true_eq, and_one_eq_zero] at hcond
      exact ⟨⟨hs.1.halve hcond.2 (by omega), hs.2⟩, by show 64 - (s.shift + 1) < 64 - s.shift; omega⟩)
    fuel s ⟨h, hdigis⟩ hfuel
  exact ⟨s', hloop, h', hdigis'⟩

theorem skipRem_sound (h : Sound a b s q) {fuel : Nat} (hfuel : 64 - (s.digis + s.shift) < fuel) :
    ∃ s', skipRem fuel s = some s' ∧ Sound a b s' q ∧ s'.digis = s.digis ∧ s.shift ≤ s'.shift ∧
      (s'.digis + s'.shift < 64 → 2 ^ 127 ≤ s'.rem) := by
  obtain ⟨s', hloop, hend, h', hdigis, hshift⟩ := @loopWhile_total UdivState
    (fun s => s.digis + s.shift < 64 && s.rem &&& hp128MaskHiBit == 0) UdivState.double
    (fun s' => Sound a b s' q ∧ s'.digis = s.digis ∧ s.shift ≤ s'.shift) (fun s => 64 - (s.digis + s.shift)) (by
      intro s₁ hcond hs
      rw [Bool.and_eq_true, decide_eq_true_eq, and_maskHiBit hs.1.fits] at hcond
      refine ⟨⟨hs.1.double hcond.2 hcond.1, hs.2.1, Nat.le_trans hs.2.2 (Nat.le_succ _)⟩, ?_⟩
      show 64 - (s₁.digis + (s₁.shift + 1)) < 64 - (s₁.digis + s₁.shift)
      omega)
    fuel s ⟨h, rfl, Nat.le_refl _⟩ hfuel
  refine ⟨s', hloop, h', hdigis, hshift, fun hmore => ?_⟩
  by_contra hlow
  have hcond := (and_maskHiBit h'.fits).mpr (Nat.lt_of_not_le hlow)
  rw [hcond, decide_eq_true hmore] at hend
  cases hend

theorem castOff_sound (h : Sound a b s q) (hhigh : s.digis + s.shift < 64 → 2 ^ 127 ≤ s.rem) {fuel : Nat}
    (hfuel : 64 - (s.digis + s.shift) < fuel) :
    ∃ s', castOff fuel s = some s' ∧ Sound a b s' q ∧ s'.digis = s.digis ∧ s.shift ≤ s'.shift := by
  obtain ⟨s', hloop, -, h', -, hdigis, hshift⟩ := @loopWhile_total UdivState
    (fun s => s.digis + s.shift < 64 && (s.den &&& 1 == 0 || s.rem < s.den)) UdivState.halve
    (fun s' => Sound a b s' q ∧ (s'.digis + s'.shift < 64 → 2 ^ 127 ≤ s'.rem) ∧ s'.digis = s.digis ∧ s.shift ≤ s'.shift)
    (fun s => 64 - (s.digis + s.shift)) (by
      intro s₁ hcond hs
      rw [Bool.and_eq_true, decide_eq_true_eq, Bool.or_eq_true, and_one_eq_zero, decide_eq_true_eq] at hcond
      obtain ⟨hs₁, hhigh₁, hdigis₁, hshift₁⟩ := hs
      have hden := hs₁.den
      have hfull := hhigh₁ hcond.1
      have heven : s₁.den % 2 = 0 := by
        rcases hcond.2 with heven | hless
        · exact heven
        · omega
      refine ⟨⟨hs₁.halve heven hcond.1, fun _ => hfull, hdigis₁, Nat.le_trans hshift₁ (Nat.le_succ _)⟩, ?_⟩
      show 64 - (s₁.digis + (s₁.shift + 1)) < 64 - (s₁.digis + s₁.shift)
      omega)
    fuel s ⟨h, hhigh, rfl, Nat.le_refl _⟩ hfuel
  exact ⟨s', hloop, h', hdigis, hshift⟩

theorem Sound.progress (h : Sound a b s q) (hmore : s.digis < 64) (hhigh : s.digis + s.shift < 64 → 2 ^ 127 ≤ s.rem) :
    0 < s.shift := by
  by_contra hzero
  have hnone : s.shift = 0 := by omega
  have hrem := h.rem
  have hden := h.den
  have hfull := hhigh (by omega)
  rw [hnone, Nat.pow_zero, Nat.mul_one] at hrem
  omega

theorem digits_sound : ∀ {fuel : Nat} {s : UdivState} {q : Nat}, Sound a b s q → 65 - s.digis < fuel →
    ∃ s' q', digits fuel s = some s' ∧ Sound a b s' q' ∧ (s'.digis < 64 → s'.rem = 0)
  | 0, _, _, _, hfuel => by lia
  | fuel + 1, s, q, h, hfuel => by
    have hdigis := h.digis
    rw [digits]
    by_cases hmore : s.digis < 64 ∧ s.rem ≠ 0
    · obtain ⟨s₁, hskip, h₁, hdigis₁, hshift₁, hhigh₁⟩ := skipRem_sound h (show 64 - (s.digis + s.shift) < fuel by omega)
      obtain ⟨s₂, hcast, h₂, hdigis₂, hshift₂⟩ := castOff_sound h₁ hhigh₁ (show 64 - (s₁.digis + s₁.shift) < fuel by omega)
      have hprogress := h₁.progress (by omega) hhigh₁
      rw [if_pos hmore, hskip, Option.bind_some, hcast, Option.bind_some]
      refine digits_sound h₂.divide ?_
      show 65 - (s₂.digis + s₂.shift) < fuel
      lia
    · rw [if_neg hmore]
      refine ⟨s, q, rfl, h, fun hless => ?_⟩
      by_contra hrem
      exact hmore ⟨hless, hrem⟩

theorem Sound.quotient (h : Sound a b s q) (hend : s.digis < 64 → s.rem = 0) (hb : 0 < b) :
    q * 2 ^ (64 - s.digis) = a * 2 ^ 64 / b := by
  have hdigis := h.digis
  have hscale : 0 < s.den * 2 ^ s.shift := Nat.mul_pos h.den.1 (Nat.two_pow_pos _)
  have hvalue := h.value
  have hrem := h.rem
  by_cases hless : s.digis < 64
  · rw [hend hless, Nat.add_zero, Nat.mul_right_comm q] at hvalue
    have hexact : a * 2 ^ s.digis = q * b := Nat.eq_of_mul_eq_mul_right hscale hvalue
    have hall : a * 2 ^ 64 = q * 2 ^ (64 - s.digis) * b := by
      calc a * 2 ^ 64 = a * 2 ^ s.digis * 2 ^ (64 - s.digis) := by
            rw [Nat.mul_assoc, ← Nat.pow_add, Nat.add_sub_cancel' (Nat.le_of_lt hless)]
        _ = q * b * 2 ^ (64 - s.digis) := by rw [hexact]
        _ = q * 2 ^ (64 - s.digis) * b := Nat.mul_right_comm ..
    rw [hall, Nat.mul_div_cancel _ hb]
  · have hfull : s.digis = 64 := by omega
    rw [hfull] at hvalue
    rw [hfull, Nat.sub_self, Nat.pow_zero, Nat.mul_one]
    generalize s.den * 2 ^ s.shift = d at *
    -- what is left over is less than the divisor
    refine (Nat.div_eq_of_lt_le ?_ ?_).symm
    · refine Nat.le_of_mul_le_mul_right ?_ hscale
      calc q * b * d = q * d * b := Nat.mul_right_comm ..
        _ ≤ (q * d + s.rem) * b := Nat.mul_le_mul_right b (Nat.le_add_right ..)
        _ = a * 2 ^ 64 * d := hvalue.symm
    · refine Nat.lt_of_mul_lt_mul_right (a := d) ?_
      calc a * 2 ^ 64 * d = (q * d + s.rem) * b := hvalue
        _ < (q * d + d) * b := (Nat.mul_lt_mul_right hb).mpr (Nat.add_lt_add_left hrem _)
        _ = (q + 1) * b * d := by ring

theorem sound_start (a : Nat) (hb : 0 < b) (hb' : b ≤ 2 ^ 127) (ha : a < 2 ^ 128) :
    Sound a b ⟨a % b, b, a / b, 0, 0⟩ (a / b) where
  digis := Nat.zero_le _
  den := ⟨hb, hb'⟩
  rem := by
    show a % b < b * 2 ^ 0
    rw [Nat.pow_zero, Nat.mul_one]
    exact Nat.mod_lt a hb
  fits := Nat.lt_of_le_of_lt (Nat.mod_le ..) ha
  result := (Nat.mod_eq_of_lt (Nat.lt_of_le_of_lt (Nat.div_le_self ..) ha)).symm
  value := by
    show a * 2 ^ 0 * (b * 2 ^ 0) = (a / b * (b * 2 ^ 0) + a % b) * b
    rw [Nat.pow_zero, Nat.mul_one, Nat.mul_one, Nat.mul_comm (a / b), Nat.div_add_mod]

end

end UdivState

theorem udiv_eq {a b fuel : Nat} (ha : a < 2 ^ 128) (hb : 0 < b) (hb' : b ≤ 2 ^ 127) (hfuel : 65 < fuel) :
    udiv fuel a b = some (a * 2 ^ 64 / b % 2 ^ 128) := by
  obtain ⟨s₁, hskip, h₁, hdigis₁⟩ := UdivState.skipDen_sound (UdivState.sound_start a hb hb' ha) rfl
    (show 64 - 0 < fuel by omega)
  obtain ⟨s₂, q, hdigits, h₂, hend⟩ := UdivState.digits_sound h₁ (show 65 - s₁.digis < fuel by omega)
  have hquotient := h₂.quotient hend hb
  have hdigis := h₂.digis
  rw [udiv, if_neg (Nat.pos_iff_ne_zero.mp hb), hskip, Option.bind_some, hdigits, Option.map_some, ← hquotient, h₂.result]
  by_cases hless : s₂.digis < 64
  · rw [if_pos hless, Nat.shiftLeft_eq, Nat.mod_mul_mod]
  · rw [if_neg hless, show 64 - s₂.digis = 0 by omega, Nat.pow_zero, Nat.mul_one]

/-- The quotient as it should be: rounded toward zero. -/
def quotient (x o : Int64x64) : Int := signed x o (x.v.natAbs * 2 ^ 64 / o.v.natAbs)

/-- **Division.** The loops of `Udiv` end, and where the quotient fits `Div` gives it. -/
theorem div_exact (x o : Int64x64) (ho : o.v ≠ 0) (hfits : -2 ^ 127 ≤ quotient x o ∧ quotient x o < 2 ^ 127) (fuel : Nat)
    (hfuel : 65 < fuel) : ∃ y, div fuel x o = some y ∧ y.v = quotient x o := by
  have hx := magnitude_le x.bounds
  have ho' := magnitude_le o.bounds
  rw [magnitude_eq x.bounds] at hx
  rw [magnitude_eq o.bounds] at ho'
  have hpos : 0 < o.v.natAbs := Int.natAbs_pos.mpr ho
  have hudiv := udiv_eq (show x.v.natAbs < 2 ^ 128 by omega) hpos ho' hfuel
  have hzero : x.v = 0 ∨ o.v = 0 → x.v.natAbs * 2 ^ 64 / o.v.natAbs = 0 := by
    rintro (h | h)
    · simp [h]
    · exact absurd h ho
  rw [← ofInt128_eq_iff, quotient, signed_eq x o hzero] at hfits
  rw [quotient, signed_eq x o hzero, div, outputSign_eq]
  simp only [hudiv, Option.map_some]
  refine ⟨_, rfl, ?_⟩
  generalize x.v.natAbs * 2 ^ 64 / o.v.natAbs = m at *
  rw [← hfits]
  by_cases hneg : (decide (x.v < 0) != decide (o.v < 0)) = true
  · rw [if_pos hneg, if_pos hneg]
    refine congrArg Int64x64.v (ofInt128_congr ?_)
    unfold int128
    omega
  · rw [if_neg hneg, if_neg hneg]
    refine congrArg Int64x64.v (ofInt128_congr ?_)
    unfold int128
    omega

/-- One third, and the smallest value over one. -/
theorem div_exact_third : (∃ y, div 66 (ofHigh (-1)) (ofHigh 3) = some y ∧ y.v = -6148914691236517205) ∧
    ∃ y, div 66 (ofHigh (-2 ^ 63)) (ofHigh 1) = some y ∧ y.v = -2 ^ 127 := by
  have hthird := div_exact (ofHigh (-1)) (ofHigh 3) (by decide) (by decide) 66 (by decide)
  have hsmallest := div_exact (ofHigh (-2 ^ 63)) (ofHigh 1) (by decide) (by decide) 66 (by decide)
  rw [show quotient (ofHigh (-1)) (ofHigh 3) = -6148914691236517205 by decide] at hthird
  rw [show quotient (ofHigh (-2 ^ 63)) (ofHigh 1) = -2 ^ 127 by decide] at hsmallest
  exact ⟨hthird, hsmallest⟩

end Int64x64

end Ns3
