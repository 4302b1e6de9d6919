import Mathlib.Data.List.Basic

/-!
# A maximum kept by a local test

Intervals arrive in any order and one is remembered: a new one takes its place
when it ends at the start of that one or behind. For intervals that are apart
this is the highest, unless the interval right before it arrives after it.
-/

namespace Ns3

open List

section
variable {α : Type} (start stop : α → Nat)

def follow (h : Option α) (x : α) : Option α :=
  match h with
  | none => some x
  | some y => if start y ≤ stop x then some x else some y

variable {start stop} {h : Option α} {xs : List α} {m : α}

theorem follow_some {y x : α} : follow start stop (some y) x = some x ∨ follow start stop (some y) x = some y := by
  unfold follow
  by_cases hle : start y ≤ stop x
  · exact .inl (if_pos hle)
  · exact .inr (if_neg hle)

theorem mem_of_foldl_follow : ∀ (xs : List α) {h : Option α} {y : α}, xs.foldl (follow start stop) h = some y →
    h = some y ∨ y ∈ xs
  | [], _, _, hfold => .inl hfold
  | x :: xs, h, y, hfold => by
    rcases mem_of_foldl_follow xs hfold with hfold | hy
    · cases h with
      | none =>
        cases hfold
        exact .inr List.mem_cons_self
      | some z =>
        rcases @follow_some α start stop z x with hx | hz
        · rw [hx] at hfold
          cases hfold
          exact .inr List.mem_cons_self
        · exact .inl (hz.symm.trans hfold)
    · exact .inr (List.mem_cons_of_mem _ hy)

theorem foldl_follow_top : ∀ {xs : List α}, (∀ x ∈ xs, x = m ∨ stop x < start m) →
    xs.foldl (follow start stop) (some m) = some m
  | [], _ => rfl
  | x :: xs, hbelow => by
    have hstay : follow start stop (some m) x = some m := by
      show (if start m ≤ stop x then some x else some m) = some m
      rcases hbelow x mem_cons_self with rfl | hlt
      · split <;> rfl
      · exact if_neg (Nat.not_le.mpr hlt)
    rw [foldl_cons, hstay]
    exact foldl_follow_top fun y hy => hbelow y (mem_cons_of_mem _ hy)

theorem foldl_follow_max (hpos : start m ≤ stop m) (hm : h = some m ∨ m ∈ xs)
    (hmax : ∀ x, h = some x ∨ x ∈ xs → x = m ∨ stop x ≤ start m) (hle : ∀ x, h = some x ∨ x ∈ xs → start x ≤ stop x)
    (hgood : ∀ before x after, xs = before ++ x :: after → h = some m ∨ m ∈ before → stop x ≠ start m) :
    xs.foldl (follow start stop) h = some m := by
  rcases hm with rfl | hm
  · refine foldl_follow_top fun x hx => ?_
    obtain ⟨before, after, hsplit⟩ := append_of_mem hx
    have hne := hgood before x after hsplit (.inl rfl)
    rcases hmax x (.inr hx) with rfl | hbelow
    · exact .inl rfl
    · exact .inr (Nat.lt_of_le_of_ne hbelow hne)
  · obtain ⟨before, after, rfl⟩ := append_of_mem hm
    have hmoved : follow start stop (before.foldl (follow start stop) h) m = some m := by
      cases hbefore : before.foldl (follow start stop) h with
      | none => rfl
      | some y =>
        have hy : h = some y ∨ y ∈ before ++ m :: after := by
          rcases mem_of_foldl_follow before hbefore with hy | hy
          · exact .inl hy
          · exact .inr (mem_append_left _ hy)
        refine if_pos ?_
        rcases hmax y hy with rfl | hbelow
        · exact hpos
        · exact Nat.le_trans (Nat.le_trans (hle y hy) hbelow) hpos
    rw [foldl_append, foldl_cons, hmoved]
    refine foldl_follow_top fun x hx => ?_
    obtain ⟨before', after', rfl⟩ := append_of_mem hx
    have hne := hgood (before ++ m :: before') x after' (by simp) (.inr (by simp))
    rcases hmax x (.inr (mem_append_right _ (mem_cons_of_mem _ hx))) with rfl | hbelow
    · exact .inl rfl
    · exact .inr (Nat.lt_of_le_of_ne hbelow hne)

end

end Ns3
