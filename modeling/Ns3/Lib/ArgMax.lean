import Ns3.Lib.OrdMap
import Mathlib.Data.List.MinMax
import Mathlib.Data.Prod.Lex

/-!
# The first of the greatest

What `List.argmax` chooses depends on the order of those elements only that have
one value, so a list may be searched group by group. With a second key the
choice is right when it is right among the ties.
-/

namespace Ns3

open List

section
variable {α β γ : Type} [LinearOrder β] {f : α → β} {l l' : List α} {m : α}

theorem head_filter_argmax (h : m ∈ l.argmax f) : (l.filter fun a => f a = f m).head? = some m := by
  induction l generalizing m with
  | nil => simp at h
  | cons a l ih =>
    rw [argmax_cons] at h
    cases hrest : l.argmax f with
    | none =>
      rw [hrest] at h
      obtain rfl : a = m := Option.some.inj h
      simp
    | some c =>
      rw [hrest] at h
      dsimp only at h
      by_cases hlt : f a < f c
      · rw [if_pos hlt] at h
        obtain rfl : c = m := Option.some.inj h
        rw [filter_cons_of_neg (by simpa using hlt.ne)]
        exact ih hrest
      · rw [if_neg hlt] at h
        obtain rfl : a = m := Option.some.inj h
        simp

theorem argmax_congr (h : ∀ b, (l.filter fun a => f a = b) = l'.filter fun a => f a = b) :
    l.argmax f = l'.argmax f := by
  have hmem : ∀ a, a ∈ l ↔ a ∈ l' := by
    intro a
    have hsame : a ∈ (l.filter fun x => f x = f a) ↔ a ∈ l'.filter fun x => f x = f a := by rw [h]
    simpa using hsame
  cases hl : l.argmax f with
  | none =>
    obtain rfl := argmax_eq_none.mp hl
    have hnil : l' = [] := eq_nil_iff_forall_not_mem.mpr fun a ha => not_mem_nil ((hmem a).mpr ha)
    rw [hnil, argmax_nil]
  | some m =>
    cases hl' : l'.argmax f with
    | none =>
      obtain rfl := argmax_eq_none.mp hl'
      exact absurd ((hmem m).mp (argmax_mem hl)) not_mem_nil
    | some m' =>
      have hle : f m ≤ f m' := le_of_mem_argmax ((hmem m).mp (argmax_mem hl)) hl'
      have hge : f m' ≤ f m := le_of_mem_argmax ((hmem m').mpr (argmax_mem hl')) hl
      have hhead := head_filter_argmax hl
      rw [h, le_antisymm hle hge, head_filter_argmax hl'] at hhead
      exact hhead.symm

theorem argmax_lex_iff [LinearOrder γ] {g : α → γ} (h : m ∈ l.argmax f) :
    (∀ a ∈ l, toLex (f a, g a) ≤ toLex (f m, g m)) ↔ ∀ a ∈ l, f a = f m → g a ≤ g m := by
  constructor
  · intro hle a ha hsame
    rcases Prod.Lex.le_iff.mp (hle a ha) with hlt | ⟨-, hg⟩
    · exact absurd hsame hlt.ne
    · exact hg
  · intro hties a ha
    rcases (le_of_mem_argmax ha h).lt_or_eq with hlt | hsame
    · exact Prod.Lex.le_iff.mpr (.inl hlt)
    · exact Prod.Lex.le_iff.mpr (.inr ⟨hsame, hties a ha hsame⟩)

end

/-! ## Grouped lists -/

section
variable {κ α : Type} [LinearOrder κ] {key : α → κ}

theorem filter_flatMap_groups {es : List (κ × List α)} (hsorted : es.Pairwise fun e e' => e.1 < e'.1)
    (hkey : ∀ e ∈ es, ∀ a ∈ e.2, key a = e.1) (k : κ) :
    ((es.flatMap (·.2)).filter fun a => key a = k) = (lookupEntry k es).getD [] := by
  induction es with
  | nil => rfl
  | cons e es ih =>
    obtain ⟨hfirst, hsorted⟩ := pairwise_cons.mp hsorted
    have hrest := ih hsorted fun e' he' => hkey e' (mem_cons_of_mem e he')
    rw [flatMap_cons, filter_append, hrest, lookupEntry]
    by_cases hk : k = e.1
    · have hall : (e.2.filter fun a => key a = k) = e.2 := by
        apply filter_eq_self.mpr
        intro a ha
        exact decide_eq_true ((hkey e mem_cons_self a ha).trans hk.symm)
      have hnone : lookupEntry k es = none := by
        cases hfind : lookupEntry k es with
        | none => rfl
        | some v => exact absurd hk (hfirst _ (lookupEntry_mem hfind)).ne'
      rw [hall, if_pos hk, hnone]
      exact append_nil e.2
    · have hnil : (e.2.filter fun a => key a = k) = [] := by
        apply filter_eq_nil_iff.mpr
        intro a ha hsame
        exact hk ((of_decide_eq_true hsame).symm.trans (hkey e mem_cons_self a ha))
      rw [hnil, if_neg hk, nil_append]

end

end Ns3
