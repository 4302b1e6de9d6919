import Mathlib.Data.List.Induction
import Mathlib.Data.List.Infix
import Ns3.Lib.FieldStack
import Ns3.Network.PacketWire

/-!
# `NixVector`

The indices of the neighbors along a path, each in as many bits as its node
needs, packed into 32-bit words. The last index added is the first one
extracted. A shift by 32 or more bits of a 32-bit value is undefined in C++ and
has no result; nor has a fatal error or an access outside of the vector.
-/

namespace Ns3

open List

def shiftLeft32 (x n : Nat) : Option Nat := if n < 32 then some (x <<< n % 4294967296) else none

def shiftRight32 (x n : Nat) : Option Nat := if n < 32 then some (x >>> n) else none

namespace NixVector

def new : NixVector := { nixVector := [0] }

def getRemainingBits (nix : NixVector) : Nat := sub32 nix.totalBitSize nix.used

def orBack (nixVector : List Nat) (bits : Nat) : Option (List Nat) :=
  nixVector.getLast?.map fun back => nixVector.dropLast ++ [bits ||| back]

def addNeighborIndex (nix : NixVector) (newBits numberOfBits : Nat) : Option NixVector :=
  if numberOfBits > 32 then none
  else if add32 nix.currentVectorBitSize numberOfBits > 32 then
    if nix.currentVectorBitSize = 32 then
      some { nix with
        nixVector := nix.nixVector ++ [newBits]
        currentVectorBitSize := numberOfBits
        totalBitSize := add32 nix.totalBitSize numberOfBits }
    else do
      let tempBits ← shiftLeft32 newBits nix.currentVectorBitSize
      let filled ← orBack nix.nixVector tempBits
      let newBits ← shiftRight32 newBits (sub32 32 nix.currentVectorBitSize)
      return { nix with
        nixVector := filled ++ [newBits]
        currentVectorBitSize := sub32 numberOfBits (sub32 32 nix.currentVectorBitSize)
        totalBitSize := add32 nix.totalBitSize numberOfBits }
  else do
    let newBits ← shiftLeft32 newBits nix.currentVectorBitSize
    let filled ← orBack nix.nixVector newBits
    return { nix with
      nixVector := filled
      currentVectorBitSize := add32 nix.currentVectorBitSize numberOfBits
      totalBitSize := add32 nix.totalBitSize numberOfBits }

/-- Where the field spans two words of the vector, and where it does not. -/
def extractBits (nix : NixVector) (numberOfBits : Nat) : Option Nat :=
  let totalRemainingBits := nix.getRemainingBits
  let vectorIndex := (totalRemainingBits - 1) / 32
  let last := totalRemainingBits % 32
  if vectorIndex > 0 ∧ numberOfBits - 1 > (totalRemainingBits - 1) % 32 then do
    let extractedBits ← shiftLeft32 (← nix.nixVector[vectorIndex]?) (sub32 32 last)
    let extractedBits ← shiftRight32 extractedBits (sub32 (sub32 32 last) (sub32 numberOfBits last))
    let lower ← shiftRight32 (← nix.nixVector[vectorIndex - 1]?) (sub32 32 (sub32 numberOfBits last))
    return extractedBits ||| lower
  else do
    let extractedBits ← shiftLeft32 (← nix.nixVector[vectorIndex]?) (sub32 32 last)
    shiftRight32 extractedBits (sub32 32 numberOfBits)

def extractNeighborIndex (nix : NixVector) (numberOfBits : Nat) : Option (Nat × NixVector) :=
  if numberOfBits > 32 ∨ numberOfBits > nix.getRemainingBits ∨ numberOfBits = 0 then none
  else (nix.extractBits numberOfBits).map fun bits => (bits, { nix with used := add32 nix.used numberOfBits })

/-! ## A path -/

def addAll : List (Nat × Nat) → NixVector → Option NixVector
  | [], nix => some nix
  | f :: fields, nix => (nix.addNeighborIndex f.1 f.2).bind (addAll fields)

def extractAll : List Nat → NixVector → Option (List Nat × NixVector)
  | [], nix => some ([], nix)
  | n :: widths, nix =>
    (nix.extractNeighborIndex n).bind fun r => (extractAll widths r.2).map fun rest => (r.1 :: rest.1, rest.2)

/-- `fields` have been added and all but `left` extracted. -/
structure Holds (nix : NixVector) (fields left : List (Nat × Nat)) : Prop where
  words : ∀ x ∈ nix.nixVector, x < 2 ^ 32
  ne : nix.nixVector ≠ []
  value : Nat.ofDigits (2 ^ 32) nix.nixVector = stackValue fields
  fits : Fits fields
  totalBitSize : nix.totalBitSize = stackWidth fields
  total_lt : stackWidth fields < 4294967296
  current : nix.currentVectorBitSize ≤ 32
  length : 32 * nix.nixVector.length + nix.currentVectorBitSize = stackWidth fields + 32
  below : left <+: fields
  used : nix.used + stackWidth left = stackWidth fields

theorem holds_new : Holds new [] [] := by
  refine ⟨?_, ?_, ?_, ?_, ?_, ?_, ?_, ?_, ?_, ?_⟩ <;> simp [new, stackValue, Fits]

section
variable {nix : NixVector} {fields left : List (Nat × Nat)}

theorem Holds.remaining (h : Holds nix fields left) : nix.getRemainingBits = stackWidth left := by
  have hused := h.used
  have hlt := h.total_lt
  rw [getRemainingBits, h.totalBitSize, sub32]
  lia

/-! ## Adding -/

theorem shiftLeft32_of_lt {n : Nat} (x : Nat) (h : n < 32) : shiftLeft32 x n = some (x * 2 ^ n % 2 ^ 32) := by
  rw [shiftLeft32, if_pos h, Nat.shiftLeft_eq]
  rfl

theorem shiftRight32_of_lt {n : Nat} (x : Nat) (h : n < 32) : shiftRight32 x n = some (x / 2 ^ n) := by
  rw [shiftRight32, if_pos h, Nat.shiftRight_eq_div_pow]

theorem orBack_eq {init : List Nat} {back bits : Nat} (k : Nat) (hback : back < 2 ^ k) :
    orBack (init ++ [back]) (bits * 2 ^ k) = some (init ++ [bits * 2 ^ k + back]) := by
  have hmod : bits * 2 ^ k % 2 ^ k = 0 := Nat.mul_mod_left _ _
  simp [orBack, or_eq_add k hmod hback]

theorem Holds.split (h : Holds nix fields left) : ∃ init back, nix.nixVector = init ++ [back] ∧
    stackWidth fields = 32 * init.length + nix.currentVectorBitSize ∧ back < 2 ^ nix.currentVectorBitSize ∧
    Nat.ofDigits (2 ^ 32) init + 2 ^ (32 * init.length) * back = stackValue fields := by
  have hwords := (dropLast_concat_getLast h.ne).symm
  have hlength := h.length
  have hvalue := h.value
  have hlt := stackValue_lt h.fits
  rw [hwords, length_append, length_singleton] at hlength
  have hwidth : stackWidth fields = 32 * nix.nixVector.dropLast.length + nix.currentVectorBitSize := by omega
  rw [hwords, Nat.ofDigits_append, Nat.ofDigits_singleton, ← Nat.pow_mul] at hvalue
  refine ⟨_, _, hwords, hwidth, ?_, hvalue⟩
  rw [← hvalue, hwidth, Nat.pow_add] at hlt
  exact Nat.lt_of_mul_lt_mul_left (Nat.lt_of_le_of_lt (Nat.le_add_left _ _) hlt)

theorem Holds.push (h : Holds nix fields fields) {x n current : Nat} {words : List Nat} (hx : x < 2 ^ n)
    (htotal : stackWidth fields + n < 4294967296) (hwords : ∀ y ∈ words, y < 2 ^ 32) (hne : words ≠ [])
    (hvalue : Nat.ofDigits (2 ^ 32) words = stackValue fields + 2 ^ stackWidth fields * x) (hcurrent : current ≤ 32)
    (hlength : 32 * words.length + current = stackWidth fields + n + 32) :
    Holds { nix with
      nixVector := words
      currentVectorBitSize := current
      totalBitSize := add32 nix.totalBitSize n } (fields ++ [(x, n)]) (fields ++ [(x, n)]) where
  words := hwords
  ne := hne
  value := by
    rw [stackValue_append]
    simpa [stackValue] using hvalue
  fits := by
    intro f hf
    rcases mem_append.mp hf with hf | hf
    · exact h.fits f hf
    · rw [mem_singleton.mp hf]
      exact hx
  totalBitSize := by
    simp only [stackWidth_append, stackWidth_cons, stackWidth_nil, h.totalBitSize, add32]
    omega
  total_lt := by simpa using htotal
  current := hcurrent
  length := by
    simp only [stackWidth_append, stackWidth_cons, stackWidth_nil]
    omega
  below := prefix_rfl
  used := by
    have hused := h.used
    simp only [stackWidth_append, stackWidth_cons, stackWidth_nil]
    omega

theorem Holds.addNeighborIndex (h : Holds nix fields fields) {x n : Nat} (hn : 0 < n) (hn' : n ≤ 32) (hx : x < 2 ^ n)
    (htotal : stackWidth fields + n < 4294967296) :
    ∃ nix', nix.addNeighborIndex x n = some nix' ∧ Holds nix' (fields ++ [(x, n)]) (fields ++ [(x, n)]) := by
  obtain ⟨init, back, hsplit, hwidth, hback, hvalue⟩ := h.split
  have hcurrent := h.current
  have hinit : ∀ y ∈ init, y < 2 ^ 32 := fun y hy => h.words y (by simp [hsplit, hy])
  have hsum : add32 nix.currentVectorBitSize n = nix.currentVectorBitSize + n := by
    rw [add32]
    omega
  have hrest : sub32 32 nix.currentVectorBitSize = 32 - nix.currentVectorBitSize := by
    rw [sub32]
    omega
  have hx32 : x < 2 ^ 32 := Nat.lt_of_lt_of_le hx (Nat.pow_le_pow_right (by decide) hn')
  rw [NixVector.addNeighborIndex, if_neg (by omega), hsum]
  by_cases hover : nix.currentVectorBitSize + n > 32
  · rw [if_pos hover]
    by_cases hfull : nix.currentVectorBitSize = 32
    · -- a word of its own
      rw [if_pos hfull]
      refine ⟨_, rfl, h.push hx htotal ?_ (by simp) ?_ hn' ?_⟩
      · intro y hy
        rcases mem_append.mp hy with hy | hy
        · exact h.words y hy
        · rw [mem_singleton.mp hy]
          exact hx32
      · rw [Nat.ofDigits_append, Nat.ofDigits_singleton, h.value, ← Nat.pow_mul, hwidth, hfull, hsplit,
          length_append, length_singleton, Nat.mul_add, Nat.mul_one]
      · rw [hsplit, length_append, length_append, length_singleton, length_singleton, hwidth, hfull]
        lia
    · -- the low bits fill the last word
      have hcut : (2 : Nat) ^ 32 = 2 ^ (32 - nix.currentVectorBitSize) * 2 ^ nix.currentVectorBitSize := by
        rw [← Nat.pow_add, Nat.sub_add_cancel hcurrent]
      have hlow : x * 2 ^ nix.currentVectorBitSize % 2 ^ 32 =
          x % 2 ^ (32 - nix.currentVectorBitSize) * 2 ^ nix.currentVectorBitSize := by
        rw [hcut, Nat.mul_mod_mul_right]
      have hcur : sub32 n (32 - nix.currentVectorBitSize) = n - (32 - nix.currentVectorBitSize) := by
        rw [sub32]
        lia
      rw [if_neg hfull, shiftLeft32_of_lt x (by omega), hlow, hrest, shiftRight32_of_lt x (by omega), hsplit,
        hcur]
      simp only [Option.bind_eq_bind, Option.bind_some, orBack_eq _ hback]
      refine ⟨_, rfl, h.push hx htotal ?_ (by simp) ?_ (by omega) ?_⟩
      · intro y hy
        simp only [mem_append, mem_singleton] at hy
        rcases hy with (hy | rfl) | rfl
        · exact hinit y hy
        · have hmod : x % 2 ^ (32 - nix.currentVectorBitSize) + 1 ≤ 2 ^ (32 - nix.currentVectorBitSize) :=
            Nat.mod_lt _ (Nat.two_pow_pos _)
          have hmul := Nat.mul_le_mul_right (2 ^ nix.currentVectorBitSize) hmod
          rw [← hcut, Nat.succ_mul] at hmul
          omega
        · exact Nat.lt_of_le_of_lt (Nat.div_le_self _ _) hx32
      · have hdiv := Nat.mod_add_div x (2 ^ (32 - nix.currentVectorBitSize))
        have hpow : (2 : Nat) ^ (32 * (init.length + 1)) =
            2 ^ (32 * init.length) * 2 ^ nix.currentVectorBitSize * 2 ^ (32 - nix.currentVectorBitSize) := by
          rw [← Nat.pow_add, ← Nat.pow_add]
          congr 1
          lia
        rw [Nat.ofDigits_append, Nat.ofDigits_append, Nat.ofDigits_singleton, Nat.ofDigits_singleton, ← Nat.pow_mul,
          ← Nat.pow_mul, length_append, length_singleton, hpow, ← hvalue, hwidth, Nat.pow_add]
        conv_rhs => rw [← hdiv]
        ring
      · simp only [length_append, length_singleton]
        omega
  · -- there is room in the last word
    have hfit : x * 2 ^ nix.currentVectorBitSize % 2 ^ 32 = x * 2 ^ nix.currentVectorBitSize := by
      apply Nat.mod_eq_of_lt
      have hmul := Nat.mul_lt_mul_of_pos_right hx (Nat.two_pow_pos nix.currentVectorBitSize)
      rw [← Nat.pow_add] at hmul
      exact Nat.lt_of_lt_of_le hmul (Nat.pow_le_pow_right (by decide) (by omega))
    rw [if_neg hover, shiftLeft32_of_lt x (by omega), hfit, hsplit]
    simp only [Option.bind_eq_bind, Option.bind_some, orBack_eq _ hback]
    refine ⟨_, rfl, h.push hx htotal ?_ (by simp) ?_ (by omega) ?_⟩
    · intro y hy
      simp only [mem_append, mem_singleton] at hy
      rcases hy with hy | rfl
      · exact hinit y hy
      · have hmul := Nat.mul_le_mul_right (2 ^ nix.currentVectorBitSize) (Nat.succ_le_of_lt hx)
        rw [← Nat.pow_add, Nat.succ_mul] at hmul
        have hle : (2 : Nat) ^ (n + nix.currentVectorBitSize) ≤ 2 ^ 32 :=
          Nat.pow_le_pow_right (by decide) (by omega)
        omega
    · rw [Nat.ofDigits_append, Nat.ofDigits_singleton, ← Nat.pow_mul, ← hvalue, hwidth, Nat.pow_add]
      ring
    · simp only [length_append, length_singleton]
      omega

/-! ## Extracting -/

theorem extractNeighborIndex_some {n x : Nat} {nix' : NixVector}
    (h : nix.extractNeighborIndex n = some (x, nix')) :
    n ≤ nix.getRemainingBits ∧ nix.getRemainingBits % 32 ≠ 0 ∧ nix'.getRemainingBits + n = nix.getRemainingBits := by
  rw [extractNeighborIndex] at h
  split at h
  · cases h
  · obtain ⟨hn, hle, hpos⟩ : n ≤ 32 ∧ n ≤ nix.getRemainingBits ∧ n ≠ 0 := by omega
    obtain ⟨bits, hbits, heq⟩ := Option.map_eq_some_iff.mp h
    cases heq
    refine ⟨hle, ?_, ?_⟩
    · intro hmod
      -- all of the last word is left: it is shifted by 32
      have hspan : ¬ (nix.getRemainingBits - 1) % 32 < n - 1 := by omega
      have hshift : sub32 32 0 = 32 := rfl
      simp only [extractBits, gt_iff_lt, hspan, and_false, if_false, hmod, hshift] at hbits
      cases hword : nix.nixVector[(nix.getRemainingBits - 1) / 32]? with
      | none => simp [hword] at hbits
      | some word => simp [hword, shiftLeft32] at hbits
    · simp only [getRemainingBits, sub32, add32] at hle ⊢
      lia

theorem extractAll_le : ∀ {widths : List Nat} {nix nix' : NixVector} {values : List Nat},
    extractAll widths nix = some (values, nix') → nix'.getRemainingBits + widths.sum = nix.getRemainingBits
  | [], _, _, _, h => by
    cases h
    simp
  | n :: widths, nix, nix', values, h => by
    obtain ⟨r, hr, h⟩ := Option.bind_eq_some_iff.mp h
    obtain ⟨rest, hrest, heq⟩ := Option.map_eq_some_iff.mp h
    cases heq
    have hstep := (extractNeighborIndex_some hr).2.2
    have ih := extractAll_le hrest
    rw [sum_cons]
    omega

theorem sub32_of_le {a b : Nat} (h : b ≤ a) (ha : a ≤ 32) : sub32 a b = a - b := by
  rw [sub32]
  omega

theorem extractBits_eq (hwords : ∀ x ∈ nix.nixVector, x < 2 ^ 32) {n q r : Nat}
    (hremaining : nix.getRemainingBits = 32 * q + r) (hr : 0 < r) (hr' : r < 32) (hpos : 0 < n) (hn : n ≤ 32)
    (hfit : n ≤ 32 * q + r) (hq : q < nix.nixVector.length) :
    nix.extractBits n = some (Nat.ofDigits (2 ^ 32) nix.nixVector % 2 ^ (32 * q + r) / 2 ^ (32 * q + r - n)) := by
  have hindex : (32 * q + r - 1) / 32 = q := by omega
  have hlast : (32 * q + r) % 32 = r := by omega
  have hlast' : (32 * q + r - 1) % 32 = r - 1 := by omega
  have hup : sub32 32 r = 32 - r := sub32_of_le hr'.le (le_refl _)
  have hword := getElem?_eq_getElem hq
  rw [extractBits]
  simp only [hremaining, hindex, hlast, hlast', hup, hword]
  by_cases hspan : q > 0 ∧ n - 1 > r - 1
  · obtain ⟨p, rfl⟩ := Nat.exists_eq_succ_of_ne_zero (Nat.pos_iff_ne_zero.mp hspan.1)
    have hbelow := getElem?_eq_getElem (Nat.lt_of_succ_lt hq)
    have hrn : r ≤ n := by lia
    have hn' : sub32 n r = n - r := sub32_of_le hrn hn
    have hdown : sub32 (32 - r) (n - r) = 32 - n := by
      rw [sub32_of_le (Nat.sub_le_sub_right hn r) (Nat.sub_le ..)]
      lia
    have hdown' : sub32 32 (n - r) = 32 - (n - r) := sub32_of_le ((Nat.sub_le ..).trans hn) (le_refl _)
    have hbottom : 32 * p + (32 - (n - r)) = 32 * (p + 1) + r - n := by lia
    have hacross := ofWords_across hwords hbelow hword hr'.le hrn hn
    rw [hbottom] at hacross
    have hsmall : nix.nixVector[p] / 2 ^ (32 - (n - r)) < 2 ^ (n - r) := by
      apply Nat.div_lt_of_lt_mul
      rw [← Nat.pow_add, Nat.sub_add_cancel ((Nat.sub_le ..).trans hn)]
      exact hwords _ (getElem_mem _)
    have hlt₁ : 32 - r < 32 := Nat.sub_lt (by decide) hr
    have hlt₂ : 32 - n < 32 := Nat.sub_lt (by decide) (hr.trans_le hrn)
    have hlt₃ : 32 - (n - r) < 32 := by lia
    rw [if_pos hspan]
    simp only [Option.bind_eq_bind, Option.bind_some, Nat.succ_eq_add_one, Nat.add_sub_cancel, hbelow, hn', hdown, hdown']
    rw [shiftLeft32, if_pos hlt₁, Option.bind_some, shiftRight32, if_pos hlt₂, Option.bind_some,
      shiftRight32_of_lt _ hlt₃, Option.bind_some]
    rw [show (4294967296 : Nat) = 2 ^ 32 from rfl, shiftUpDown_eq' _ hr'.le hrn hn,
      or_eq_add (n - r) (Nat.mul_mod_left _ _) hsmall, ← hacross]
    rfl
  · have hinside : n ≤ r := by lia
    have hfield := ofWords_inside hwords n hword hr'.le
    rw [← Nat.add_sub_assoc hinside] at hfield
    have hdown : sub32 32 n = 32 - n := sub32_of_le hn (le_refl _)
    have hlt₁ : 32 - r < 32 := Nat.sub_lt (by decide) hr
    have hlt₂ : 32 - n < 32 := Nat.sub_lt (by decide) hpos
    rw [if_neg hspan]
    simp only [Option.bind_eq_bind, Option.bind_some, hdown]
    rw [shiftLeft32, if_pos hlt₁, Option.bind_some, shiftRight32, if_pos hlt₂, show (4294967296 : Nat) = 2 ^ 32 from rfl,
      shiftUpDown_eq _ hr'.le hinside, ← hfield]

theorem Holds.extractNeighborIndex {f : Nat × Nat} (h : Holds nix fields (left ++ [f])) (hpos : 0 < f.2)
    (hle : f.2 ≤ 32) (hmod : stackWidth (left ++ [f]) % 32 ≠ 0) :
    ∃ nix', nix.extractNeighborIndex f.2 = some (f.1, nix') ∧ Holds nix' fields left := by
  obtain ⟨more, hmore⟩ := h.below
  have hfields : fields = left ++ f :: more := by rw [← hmore, append_assoc, singleton_append]
  have hfit : f.1 < 2 ^ f.2 := h.fits f (by simp [hfields])
  have hleft : Fits left := fun g hg => h.fits g (by simp [hfields, hg])
  have htop := stackValue_top f more hleft hfit
  have hremaining := h.remaining
  have hlength := h.length
  rw [← hfields, ← h.value] at htop
  have hwidth : stackWidth (left ++ [f]) = stackWidth left + f.2 := by simp
  have hall : stackWidth left + f.2 ≤ stackWidth fields := by
    rw [hfields, stackWidth_append, stackWidth_cons, ← Nat.add_assoc]
    exact Nat.le_add_right _ _
  rw [hwidth] at hmod hremaining
  -- the last bit left is bit `r` of word `q`
  have hbits : nix.extractBits f.2 = some f.1 := by
    have hcurrent := h.current
    have hqr := Nat.div_add_mod (stackWidth left + f.2) 32
    have hsome := extractBits_eq h.words (hremaining.trans hqr.symm) (Nat.pos_of_ne_zero hmod) (Nat.mod_lt _ (by decide)) hpos hle
      (by lia) (by lia)
    rw [hqr, Nat.add_sub_cancel, htop] at hsome
    exact hsome
  have hguard : ¬ (f.2 > 32 ∨ f.2 > nix.getRemainingBits ∨ f.2 = 0) := by omega
  refine ⟨{ nix with used := add32 nix.used f.2 }, ?_, { h with below := ?_, used := ?_ }⟩
  · rw [NixVector.extractNeighborIndex, if_neg hguard, hbits]
    rfl
  · exact (prefix_append left [f]).trans h.below
  · have hused := h.used
    have hlt := h.total_lt
    simp only [add32]
    omega

theorem Holds.addAll : ∀ {more fields : List (Nat × Nat)} {nix : NixVector}, Holds nix fields fields →
    (∀ f ∈ more, 0 < f.2 ∧ f.2 ≤ 32 ∧ f.1 < 2 ^ f.2) → stackWidth (fields ++ more) < 4294967296 →
    ∃ nix', NixVector.addAll more nix = some nix' ∧ Holds nix' (fields ++ more) (fields ++ more)
  | [], fields, nix, h, _, _ => ⟨nix, rfl, by simpa using h⟩
  | f :: more, fields, nix, h, hmore, htotal => by
    obtain ⟨hpos, hle, hfit⟩ := hmore f (by simp)
    have hassoc : fields ++ f :: more = fields ++ [f] ++ more := by simp
    rw [hassoc] at htotal ⊢
    have hnext : stackWidth fields + f.2 < 4294967296 := by
      simp only [stackWidth_append, stackWidth_cons, stackWidth_nil] at htotal
      omega
    obtain ⟨nix₁, hadd, h₁⟩ := h.addNeighborIndex hpos hle hfit hnext
    obtain ⟨nix₂, hall, h₂⟩ := h₁.addAll (fun g hg => hmore g (by simp [hg])) htotal
    exact ⟨nix₂, by rw [NixVector.addAll, hadd, Option.bind_some, hall], h₂⟩

theorem Holds.extractAll (h : Holds nix fields left) (hleft : ∀ f ∈ left, 0 < f.2 ∧ f.2 ≤ 32)
    (hmod : ∀ below, below <+: left → below ≠ [] → stackWidth below % 32 ≠ 0) :
    ∃ nix', NixVector.extractAll (left.reverse.map Prod.snd) nix = some (left.reverse.map Prod.fst, nix') ∧
      Holds nix' fields [] := by
  induction left using reverseRecOn generalizing nix with
  | nil => exact ⟨nix, rfl, h⟩
  | append_singleton left f ih =>
    obtain ⟨hpos, hle⟩ := hleft f (by simp)
    obtain ⟨nix₁, hextract, h₁⟩ := h.extractNeighborIndex hpos hle (hmod _ prefix_rfl (by simp))
    obtain ⟨nix₂, hall, h₂⟩ := ih h₁ (fun g hg => hleft g (by simp [hg])) fun below hbelow hne =>
      hmod below (hbelow.trans (prefix_append left [f])) hne
    refine ⟨nix₂, ?_, h₂⟩
    rw [reverse_append, reverse_singleton, singleton_append, map_cons, map_cons,
      NixVector.extractAll, hextract, Option.bind_some, hall]
    rfl

theorem extractAll_mod : ∀ {widths : List Nat} {nix nix' : NixVector} {values : List Nat},
    NixVector.extractAll widths nix = some (values, nix') → ∀ (before : List Nat) (n : Nat) (after : List Nat),
      widths = before ++ n :: after → (nix'.getRemainingBits + after.sum + n) % 32 ≠ 0
  | [], _, _, _, _, before, n, after, hsplit => by simp at hsplit
  | m :: widths, nix, nix', values, h, before, n, after, hsplit => by
    obtain ⟨r, hr, h⟩ := Option.bind_eq_some_iff.mp h
    obtain ⟨rest, hrest, heq⟩ := Option.map_eq_some_iff.mp h
    cases heq
    cases before with
    | nil =>
      obtain ⟨rfl, rfl⟩ := List.cons.inj hsplit
      obtain ⟨-, hmod, hstep⟩ := extractNeighborIndex_some hr
      have hle := extractAll_le hrest
      rwa [hle, hstep]
    | cons b before => exact extractAll_mod hrest before n after (List.cons.inj hsplit).2

/-! ## Copies -/

theorem extractAll_words : ∀ {widths : List Nat} {nix nix' : NixVector} {values : List Nat},
    NixVector.extractAll widths nix = some (values, nix') → nix.used < 4294967296 →
      ∃ used < 4294967296, nix' = { nix with used := used }
  | [], nix, _, _, h, hused => by
    cases h
    exact ⟨nix.used, hused, rfl⟩
  | n :: widths, nix, nix', values, h, _ => by
    obtain ⟨r, hr, h⟩ := Option.bind_eq_some_iff.mp h
    obtain ⟨rest, hrest, heq⟩ := Option.map_eq_some_iff.mp h
    cases heq
    rw [NixVector.extractNeighborIndex] at hr
    split at hr
    · cases hr
    · obtain ⟨bits, -, hbits⟩ := Option.map_eq_some_iff.mp hr
      have hnext : r.2 = { nix with used := add32 nix.used n } := by rw [← hbits]
      obtain ⟨used, hlt, hwords⟩ := extractAll_words hrest (by rw [hnext]; exact add32_lt _ _)
      exact ⟨used, hlt, by rw [hwords, hnext]⟩

def allWords (nix : NixVector) : List Nat :=
  nix.used :: nix.currentVectorBitSize :: nix.totalBitSize :: nix.nixVector

theorem putWords_eq {maxSize : Nat} : ∀ (words : List Nat) (c : Cursor), c.size + 4 * words.length ≤ maxSize →
    maxSize < 4294967296 → words.foldlM (fun c j => Cursor.putWord maxSize j c) c =
      .ok ⟨c.p + 4 * words.length, c.size + 4 * words.length, c.out ++ storeAt c.p (words.flatMap (leBytes 4))⟩
  | [], c, _, _ => by simp [storeAt, pure, Except.pure]
  | x :: words, c, hroom, hmax => by
    rw [List.length_cons] at hroom
    have hpad : pad4 4 = 4 := rfl
    have hsize : add32 c.size 4 = c.size + 4 := by
      rw [add32]
      omega
    have hput : c.putWord maxSize x = .ok ⟨c.p + 4, c.size + 4, c.out ++ storeAt c.p (leBytes 4 x)⟩ := by
      rw [Cursor.putWord, Cursor.put, length_leBytes, hpad, hsize, if_pos (by omega)]
    have ih := putWords_eq words ⟨c.p + 4, c.size + 4, c.out ++ storeAt c.p (leBytes 4 x)⟩ (by simp only; omega) hmax
    rw [foldlM_cons, hput]
    refine ih.trans ?_
    rw [ flatMap_cons, storeAt_append, length_leBytes, length_cons]
    simp only [Except.ok.injEq, Cursor.mk.injEq, append_assoc, and_true]
    omega

theorem serialize_eq (nix : NixVector) (buffer : Nat) (hlength : 12 + 4 * nix.nixVector.length < 4294967296) :
    nix.serialize buffer nix.getSerializedSize = .ok (storeAt buffer (nix.allWords.flatMap (leBytes 4))) := by
  have hsize : nix.getSerializedSize = 4 * nix.allWords.length := by
    rw [getSerializedSize, Nat.mod_eq_of_lt (by omega), allWords]
    simp only [length_cons]
    omega
  have hall : nix.serialize buffer nix.getSerializedSize =
      (nix.allWords.foldlM (fun c j => Cursor.putWord nix.getSerializedSize j c) { p := buffer } >>= fun c : Cursor =>
        pure c.out) := by
    simp only [serialize, allWords, foldlM_cons, bind_assoc]
  rw [hall, putWords_eq nix.allWords _ (by rw [hsize]; simp) (by
    simp only [hsize, allWords, length_cons]
    omega)]
  rfl

theorem readWords_eq {memory : Memory} : ∀ (words : List Nat) (p : Nat), (∀ x ∈ words, x < 4294967296) →
    load memory p (4 * words.length) = words.flatMap (leBytes 4) → readWords memory p (4 * words.length) = some words
  | [], _, _, _ => rfl
  | x :: words, p, hwords, h => by
    have hx : x < 4294967296 := hwords x (by simp)
    rw [length_cons, Nat.mul_succ, Nat.add_comm, load_add, flatMap_cons] at h
    obtain ⟨hfirst, hrest⟩ := append_inj h (by simp)
    have ih := readWords_eq words (p + 4) (fun y hy => hwords y (by simp [hy])) hrest
    have hword : loadWord memory p 4 = x := by
      rw [loadWord, hfirst, ofLeBytes_leBytes]
      exact Nat.mod_eq_of_lt hx
    rw [length_cons, Nat.mul_succ, readWords, ih, hword]
    rfl

theorem deserialize_eq {memory : Memory} {buffer : Nat} (nix : NixVector) (hwords : ∀ x ∈ nix.allWords, x < 4294967296)
    (hlength : 16 + 4 * nix.nixVector.length < 4294967296)
    (h : load memory buffer (4 * nix.allWords.length) = nix.allWords.flatMap (leBytes 4)) :
    deserialize memory buffer (nix.getSerializedSize + 4) = some nix := by
  have hread := readWords_eq nix.allWords buffer hwords h
  have hsize : nix.getSerializedSize = 12 + 4 * nix.nixVector.length := by
    rw [getSerializedSize, Nat.mod_eq_of_lt (by omega)]
  have hcheck : sub32 (nix.getSerializedSize + 4) 4 = 4 * nix.nixVector.length + 12 := by
    rw [hsize, sub32]
    omega
  have hlen : 4 * nix.allWords.length = 4 * nix.nixVector.length + 4 + 4 + 4 := by
    simp only [allWords, length_cons]
    omega
  rw [hlen, readWords, readWords, readWords] at hread
  cases hrest : readWords memory (buffer + 4 + 4 + 4) (4 * nix.nixVector.length) with
  | none => simp [hrest] at hread
  | some words =>
    rw [hrest, allWords] at hread
    simp only [Option.map_some, Option.some.injEq, List.cons.injEq] at hread
    obtain ⟨hused, hcurrent, htotal, hvector⟩ := hread
    rw [deserialize, hcheck]
    simp [hrest, hused, hcurrent, htotal, hvector]

/-- **Round trip.** What is written is read back. -/
theorem deserialize_serialize (nix : NixVector) (buffer : Nat) (hwords : ∀ x ∈ nix.allWords, x < 4294967296)
    (hlength : 16 + 4 * nix.nixVector.length < 4294967296) :
    ∃ ws, nix.serialize buffer nix.getSerializedSize = .ok ws ∧
      ∀ memory, deserialize (onto ws memory) buffer (nix.getSerializedSize + 4) = some nix := by
  have hlen : (nix.allWords.flatMap (leBytes 4)).length = 4 * nix.allWords.length := by
    simp [length_flatMap, Nat.mul_comm]
  refine ⟨_, nix.serialize_eq buffer (by omega), fun memory => ?_⟩
  apply deserialize_eq nix hwords hlength
  rw [onto_storeAt, ← hlen, load_patch]

end

/-! ## A path and its copies -/

/-- The indices of a path come out of its vector in the reverse order; and after any
extractions a copy gives what the vector itself gives. -/
structure Stacked (fields : List (Nat × Nat)) : Prop where
  extracted : ∃ nix nix', addAll fields new = some nix ∧
    extractAll (fields.reverse.map Prod.snd) nix = some (fields.reverse.map Prod.fst, nix') ∧ nix'.getRemainingBits = 0
  copied : ∀ nix nix' widths values buffer, addAll fields new = some nix →
    extractAll widths nix = some (values, nix') → ∃ ws, nix'.serialize buffer nix'.getSerializedSize = .ok ws ∧
      ∀ memory, ∃ copy, deserialize (onto ws memory) buffer (nix'.getSerializedSize + 4) = some copy ∧
        copy.getRemainingBits = nix'.getRemainingBits ∧
        ∀ next, (extractAll next copy).map Prod.fst = (extractAll next nix').map Prod.fst

theorem Holds.allWords_lt {nix : NixVector} {fields left : List (Nat × Nat)} (h : Holds nix fields left) :
    ∀ x ∈ nix.allWords, x < 4294967296 := by
  intro x hx
  have hused := h.used
  have hcurrent := h.current
  have htotal := h.total_lt
  simp only [allWords, mem_cons] at hx
  rcases hx with rfl | rfl | rfl | hx
  · omega
  · omega
  · rw [h.totalBitSize]
    exact htotal
  · exact h.words x hx

theorem stackWidth_mod_of_extracted {fields : List (Nat × Nat)} {nix nix' : NixVector} {values : List Nat}
    (h : extractAll (fields.reverse.map Prod.snd) nix = some (values, nix')) (hzero : nix'.getRemainingBits = 0)
    {below : List (Nat × Nat)} (hbelow : below <+: fields) (hne : below ≠ []) : stackWidth below % 32 ≠ 0 := by
  obtain ⟨more, rfl⟩ := hbelow
  obtain ⟨init, f, rfl⟩ : ∃ init f, below = init ++ [f] := ⟨_, _, (dropLast_concat_getLast hne).symm⟩
  have hmod := extractAll_mod h (more.reverse.map Prod.snd) f.2 (init.reverse.map Prod.snd) (by simp)
  have hsum : (init.reverse.map Prod.snd).sum = stackWidth init := by
    rw [map_reverse, sum_reverse, stackWidth]
  rw [hzero, hsum, Nat.zero_add] at hmod
  simpa using hmod

/-- A path comes back just if no index of it ends with a word. -/
theorem stacked_iff (fields : List (Nat × Nat)) (h : ∀ f ∈ fields, 1 ≤ f.2 ∧ f.2 ≤ 32 ∧ f.1 < 2 ^ f.2) :
    Stacked fields ↔ stackWidth fields < 4294967296 ∧
      ∀ below, below <+: fields → below ≠ [] → stackWidth below % 32 ≠ 0 := by
  refine ⟨fun hstacked => ?_, fun hcond => ?_⟩
  · obtain ⟨nix, nix', -, hextract, hzero⟩ := hstacked.extracted
    refine ⟨?_, fun below hbelow hne => stackWidth_mod_of_extracted hextract hzero hbelow hne⟩
    have hle := extractAll_le hextract
    have hsum : (fields.reverse.map Prod.snd).sum = stackWidth fields := by
      rw [map_reverse, sum_reverse, stackWidth]
    rw [hzero, hsum, Nat.zero_add, getRemainingBits, sub32] at hle
    rw [hle]
    exact Nat.mod_lt _ (by decide)
  · obtain ⟨htotal, hmod⟩ := hcond
    obtain ⟨nix, hadd, hholds⟩ := holds_new.addAll h (by simpa using htotal)
    rw [nil_append] at hholds
    refine ⟨?_, ?_⟩
    · obtain ⟨nix', hextract, hholds'⟩ := hholds.extractAll (fun f hf => ⟨(h f hf).1, (h f hf).2.1⟩) hmod
      exact ⟨nix, nix', hadd, hextract, by simpa using hholds'.remaining⟩
    · intro nix₁ nix' widths values buffer hadd' hextract
      obtain rfl : nix = nix₁ := Option.some.inj (hadd.symm.trans hadd')
      have hused := hholds.used
      have hlength := hholds.length
      obtain ⟨used, hlt, rfl⟩ := extractAll_words hextract (by omega)
      have hwords : ∀ x ∈ ({ nix with used := used } : NixVector).allWords, x < 4294967296 := by
        intro x hx
        simp only [allWords, mem_cons] at hx
        rcases hx with rfl | hx
        · exact hlt
        · exact hholds.allWords_lt x (by simpa [allWords] using .inr hx)
      have hsmall : 16 + 4 * nix.nixVector.length < 4294967296 := by omega
      obtain ⟨ws, hserialize, hcopy⟩ := deserialize_serialize { nix with used := used } buffer hwords hsmall
      exact ⟨ws, hserialize, fun memory => ⟨_, hcopy memory, rfl, fun next => rfl⟩⟩

theorem stacked_path : Stacked [(5, 3), (300, 20), (1000, 30)] := by
  refine (stacked_iff _ (by decide)).mpr ⟨by decide, ?_⟩
  intro below hbelow hne
  rw [← mem_inits] at hbelow
  revert below
  decide

/-- A path of seven bits and of twenty-five: the second index is all that is left of its word. -/
theorem not_stacked_word : ¬ ∀ fields : List (Nat × Nat), (∀ f ∈ fields, 1 ≤ f.2 ∧ f.2 ≤ 32 ∧ f.1 < 2 ^ f.2) →
    Stacked fields := by
  intro h
  obtain ⟨nix, nix', hadd, hextract, -⟩ := (h [(5, 7), (9, 25)] (by decide)).extracted
  obtain rfl : nix = ⟨0, 32, 32, [5 + 9 * 128]⟩ := Option.some.inj (hadd.symm.trans (by decide))
  revert hextract
  have hnone : extractAll [25, 7] ⟨0, 32, 32, [5 + 9 * 128]⟩ = none := by decide
  simp [hnone]

end NixVector

end Ns3
