import Mathlib.LinearAlgebra.Dimension.OrzechProperty
import Mathlib.LinearAlgebra.FiniteDimensional.Basic
import Mathlib.LinearAlgebra.StdBasis

/-!
# The rank of a list of vectors

Vectors of length `n` over a field, in a list that may repeat them. A list has
full rank when its vectors are independent; it has rank `m` at least when the
first `m` unit vectors are in its span.
-/

namespace Ns3

section
variable {K : Type} [Field K] {n : Nat}

def spanOf (vs : List (Fin n → K)) : Submodule K (Fin n → K) := Submodule.span K {v | v ∈ vs}

noncomputable def rankOf (vs : List (Fin n → K)) : Nat := Module.finrank K (spanOf vs)

def unitVector (k : Fin n) : Fin n → K := Pi.single k 1

theorem mem_spanOf {vs : List (Fin n → K)} {v : Fin n → K} (h : v ∈ vs) : v ∈ spanOf vs := Submodule.subset_span h

theorem length_le_rankOf_iff (vs : List (Fin n → K)) : vs.length ≤ rankOf vs ↔ LinearIndependent K vs.get := by
  have hrange : {v | v ∈ vs} = Set.range vs.get := by
    ext v
    exact List.mem_iff_get
  rw [linearIndependent_iff_card_le_finrank_span, Fintype.card_fin, rankOf, spanOf, hrange]
  rfl

theorem le_rankOf {vs : List (Fin n → K)} {m : Nat} (hm : m ≤ n)
    (h : ∀ k : Fin n, k.val < m → unitVector k ∈ spanOf vs) : m ≤ rankOf vs := by
  let units : Fin m → Fin n → K := fun k => unitVector (k.castLE hm)
  have hindependent : LinearIndependent K units :=
    (Pi.linearIndependent_single_one (Fin n) K).comp _ (Fin.castLE_injective hm)
  have hle : Submodule.span K (Set.range units) ≤ spanOf vs := by
    refine Submodule.span_le.mpr ?_
    rintro _ ⟨k, rfl⟩
    exact h _ k.isLt
  have hrank := Submodule.finrank_mono hle
  rwa [finrank_span_eq_card hindependent, Fintype.card_fin] at hrank

theorem unitVector_notMem {vs : List (Fin n → K)} {k : Fin n} (h : ∀ v ∈ vs, v k = 0) : unitVector k ∉ spanOf vs := by
  intro hmem
  have hle : spanOf vs ≤ LinearMap.ker (LinearMap.proj k : (Fin n → K) →ₗ[K] K) :=
    Submodule.span_le.mpr fun v hv => h v hv
  have hzero : (unitVector k : Fin n → K) k = 0 := hle hmem
  rw [unitVector, Pi.single_eq_same] at hzero
  exact one_ne_zero hzero

end

end Ns3
