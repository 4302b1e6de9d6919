import Mathlib.Data.List.Basic
import Mathlib.Data.List.Perm.Basic
import Mathlib.Tactic.Common

/-!
# Tables of objects

Objects by handle; `none` where one was destroyed. A new object gets the next
handle. `live` are the objects there are, in any order that suits: the one at a
handle may stand first.
-/

namespace Ns3

open List

abbrev Handles (α : Type) := List (Option α)

namespace Handles

variable {α : Type} {l : Handles α} {i j : Nat} {a b : α}

def get (l : Handles α) (i : Nat) : Option α := l[i]?.join

def live (l : Handles α) : List α := l.filterMap id

theorem lt_of_get (h : get l i = some a) : i < l.length := by
  by_contra hge
  rw [get, getElem?_eq_none (by omega)] at h
  cases h

theorem get_set (h : get l i = some a) (v : Option α) (j : Nat) : get (l.set i v) j = if j = i then v else get l j := by
  rw [get, getElem?_set]
  by_cases heq : i = j
  · subst heq
    rw [if_pos rfl, if_pos (lt_of_get h), if_pos rfl]
    rfl
  · rw [if_neg heq, if_neg (Ne.symm heq)]
    rfl

theorem get_push (l : Handles α) (a : α) (j : Nat) : get (l ++ [some a]) j = if j = l.length then some a else get l j := by
  rw [get, getElem?_append]
  by_cases hlt : j < l.length
  · rw [if_pos hlt, if_neg (by omega)]
    rfl
  · rw [if_neg hlt]
    by_cases heq : j = l.length
    · rw [if_pos heq, heq, Nat.sub_self]
      rfl
    · rw [if_neg heq, get, getElem?_eq_none (by simp; omega), getElem?_eq_none (by omega)]

theorem live_perm (h : get l i = some a) : (live l).Perm (a :: live (l.set i none)) := by
  induction l generalizing i with
  | nil => cases h
  | cons x l ih =>
    cases i with
    | zero =>
      obtain rfl : x = some a := h
      exact Perm.refl _
    | succ i =>
      have hrest := ih (i := i) h
      cases x with
      | none => exact hrest
      | some x => exact (hrest.cons x).trans (Perm.swap _ _ _)

theorem live_set (h : get l i = some a) (b : α) : (live (l.set i (some b))).Perm (b :: live (l.set i none)) := by
  have hb : get (l.set i (some b)) i = some b := by rw [get_set h, if_pos rfl]
  have hperm := live_perm hb
  rwa [set_set] at hperm

theorem live_push (l : Handles α) (a : α) : (live (l ++ [some a])).Perm (a :: live l) := by
  rw [live, filterMap_append]
  exact perm_append_singleton _ _

theorem mem_live : a ∈ live l ↔ ∃ i, get l i = some a := by
  rw [live, mem_filterMap]
  constructor
  · rintro ⟨x, hmem, rfl⟩
    obtain ⟨i, hi⟩ := mem_iff_getElem?.1 hmem
    exact ⟨i, by rw [get, hi]; rfl⟩
  · rintro ⟨i, hi⟩
    exact ⟨some a, mem_of_getElem? (Option.join_eq_some_iff.1 hi), rfl⟩

theorem mem_rest (h : get l i = some a) : b ∈ live (l.set i none) ↔ ∃ j, j ≠ i ∧ get l j = some b := by
  rw [mem_live]
  constructor
  · rintro ⟨j, hj⟩
    rw [get_set h] at hj
    by_cases heq : j = i
    · rw [if_pos heq] at hj
      cases hj
    · rw [if_neg heq] at hj
      exact ⟨j, heq, hj⟩
  · rintro ⟨j, hne, hj⟩
    exact ⟨j, by rw [get_set h, if_neg hne]; exact hj⟩

/-! ## What is read from objects -/

def view {β : Type} (f : α → Option β) (l : Handles α) : Handles β := l.map fun x => x.bind f

theorem get_view {β : Type} (f : α → Option β) (l : Handles α) (i : Nat) : get (view f l) i = (get l i).bind f := by
  rw [get, view, getElem?_map, get]
  cases l[i]? with
  | none => rfl
  | some x => rfl

theorem view_set {β : Type} {f f' : α → Option β} (h : get l i = some a) (v : Option α)
    (hsame : ∀ j b, j ≠ i → get l j = some b → f' b = f b) : view f' (l.set i v) = (view f l).set i (v.bind f') := by
  refine ext_getElem? fun j => ?_
  rw [view, view, getElem?_map, getElem?_set, getElem?_set, length_map, getElem?_map]
  by_cases heq : i = j
  · rw [if_pos heq, if_pos heq, if_pos (lt_of_get h), if_pos (lt_of_get h)]
    rfl
  · rw [if_neg heq, if_neg heq]
    cases hj : l[j]? with
    | none => rfl
    | some x =>
      cases x with
      | none => rfl
      | some b => exact congrArg some (hsame j b (Ne.symm heq) (by rw [get, hj]; rfl))

theorem view_push {β : Type} {f f' : α → Option β} (l : Handles α) (a : α) (hsame : ∀ j b, get l j = some b → f' b = f b) :
    view f' (l ++ [some a]) = view f l ++ [f' a] := by
  rw [view, view, map_append]
  refine congrArg (· ++ _) (map_congr_left fun x hx => ?_)
  cases x with
  | none => rfl
  | some b =>
    obtain ⟨j, hj⟩ := mem_iff_getElem?.1 hx
    exact hsame j b (by rw [get, hj]; rfl)

end Handles

end Ns3
