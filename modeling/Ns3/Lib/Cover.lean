import Mathlib.Data.List.Basic

/-!
# Covering by choices

Items are pairs of a choice (`via`) and what it reaches (`target`). An
algorithm makes choices and drops items whose target it takes to be reached;
`PartCover` says that what was dropped is reached indeed.
-/

namespace Ns3

section
variable {τ α β : Type} (via : τ → α) (target : τ → β)

/-- The target of each item that is no longer in `rest` is reached from a choice. -/
structure PartCover (all : List τ) (chosen : α → Prop) (rest : List τ) : Prop where
  sub : rest.Sublist all
  reached : ∀ t ∈ all, t ∈ rest ∨ ∃ t' ∈ all, target t' = target t ∧ chosen (via t')

variable {via target} {all rest rest' : List τ} {chosen chosen' : α → Prop}

theorem PartCover.start : PartCover via target all chosen all :=
  ⟨List.Sublist.refl all, fun _ ht => .inl ht⟩

theorem PartCover.drop (h : PartCover via target all chosen rest) (hmono : ∀ a, chosen a → chosen' a)
    (hsub : rest'.Sublist rest) (hdrop : ∀ t ∈ rest, t ∉ rest' → ∃ t' ∈ rest, target t' = target t ∧ chosen' (via t')) :
    PartCover via target all chosen' rest' := by
  refine ⟨hsub.trans h.sub, fun t ht => ?_⟩
  rcases h.reached t ht with hrest | ⟨t', ht', hsame, hvia⟩
  · by_cases hkept : t ∈ rest'
    · exact .inl hkept
    · obtain ⟨t', ht', hsame, hvia⟩ := hdrop t hrest hkept
      exact .inr ⟨t', h.sub.subset ht', hsame, hvia⟩
  · exact .inr ⟨t', ht', hsame, hmono _ hvia⟩

theorem PartCover.done (h : PartCover via target all chosen []) {t : τ} (ht : t ∈ all) :
    ∃ t' ∈ all, target t' = target t ∧ chosen (via t') := by
  rcases h.reached t ht with hnil | hreached
  · exact absurd hnil List.not_mem_nil
  · exact hreached

end

end Ns3
