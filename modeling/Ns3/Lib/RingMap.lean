import Mathlib.Data.Nat.ModEq
import Ns3.Lib.OrdMap

/-!
# Maps keyed by indices modulo a period

A map whose keys are indices modulo `N` holds the items of a window of indices
no longer than `N`. `Buffered item m lo hi` says that its entries are items
with indices from `lo` up to `hi`; `Cleared m m' a b` that `m'` is `m` without
those from `a` up to `b`; `Has m i` that the item with index `i` is there.
-/

namespace Ns3

variable {α : Type} {N : Nat}

theorem eq_of_mod_eq {lo i j : Nat} (hi : lo ≤ i) (hi' : i < lo + N) (hj : lo ≤ j) (hj' : j < lo + N)
    (h : i % N = j % N) : i = j := by
  obtain ⟨d, rfl⟩ := Nat.exists_eq_add_of_le hi
  obtain ⟨e, rfl⟩ := Nat.exists_eq_add_of_le hj
  have hde : d ≡ e [MOD N] := Nat.ModEq.add_left_cancel' lo h
  rw [hde.eq_of_lt_of_lt (by omega) (by omega)]

def Buffered (N : Nat) (item : Nat → α → Prop) (m : OrdMap Nat α) (lo hi : Nat) : Prop :=
  ∀ k b, m.find k = some b → ∃ i, lo ≤ i ∧ i < hi ∧ i % N = k ∧ item i b

def Has (N : Nat) (m : OrdMap Nat α) (i : Nat) : Prop := (m.find (i % N)).isSome

structure Cleared (N : Nat) (m m' : OrdMap Nat α) (a b : Nat) : Prop where
  gone : ∀ i, a ≤ i → i < b → m'.find (i % N) = none
  kept : ∀ k, (∀ i, a ≤ i → i < b → i % N ≠ k) → m'.find k = m.find k

namespace Buffered

variable {item : Nat → α → Prop} {m m' : OrdMap Nat α} {lo hi i : Nat} {b : α}

theorem lookup (h : Buffered N item m lo hi) (hlo : lo ≤ i) (hhi : i < lo + N) (hw : hi ≤ lo + N)
    (hf : m.find (i % N) = some b) : i < hi ∧ item i b := by
  obtain ⟨j, hj, hj', hk, hp⟩ := h _ _ hf
  obtain rfl := eq_of_mod_eq hj (hj'.trans_le hw) hlo hhi hk
  exact ⟨hj', hp⟩

theorem insert (h : Buffered N item m lo hi) (hi' : Nat) (hlo : lo ≤ i) (hhi : i < hi') (hw : hi ≤ hi')
    (hp : item i b) : Buffered N item (m.insert (i % N) b) lo hi' := by
  intro k b' hf
  rw [OrdMap.find_insert] at hf
  split at hf
  · rename_i hk
    cases hf
    exact ⟨i, hlo, hhi, hk.symm, hp⟩
  · obtain ⟨j, hj, hj', hk, hp'⟩ := h k b' hf
    exact ⟨j, hj, hj'.trans_le hw, hk, hp'⟩

theorem mono {item' : Nat → α → Prop} (h : Buffered N item m lo hi)
    (hitem : ∀ i b, item i b → item' i b) : Buffered N item' m lo hi := by
  intro k b hf
  obtain ⟨j, hj, hj', hk, hp⟩ := h k b hf
  exact ⟨j, hj, hj', hk, hitem j b hp⟩

end Buffered

namespace Cleared

variable {m m' m'' : OrdMap Nat α} {a b c k : Nat}

theorem refl (m : OrdMap Nat α) (a : Nat) : Cleared N m m a a where
  gone _ hi hi' := absurd hi' (Nat.not_lt.mpr hi)
  kept _ _ := rfl

theorem erase (m : OrdMap Nat α) (a : Nat) : Cleared N m (m.erase (a % N)) a (a + 1) where
  gone i hi hi' := by
    obtain rfl : i = a := by omega
    rw [OrdMap.find_erase, if_pos rfl]
  kept k hk := by
    rw [OrdMap.find_erase, if_neg]
    exact fun h => hk a (Nat.le_refl a) (Nat.lt_succ_self a) h.symm

theorem skip (h : m.find (a % N) = none) : Cleared N m m a (a + 1) where
  gone i hi hi' := by
    obtain rfl : i = a := by omega
    exact h
  kept _ _ := rfl

theorem sub (h : Cleared N m m' a b) {p : α} (hf : m'.find k = some p) : m.find k = some p := by
  by_cases hk : ∃ i, a ≤ i ∧ i < b ∧ i % N = k
  · obtain ⟨i, hi, hi', rfl⟩ := hk
    rw [h.gone i hi hi'] at hf
    cases hf
  · rw [← h.kept k fun i hi hi' he => hk ⟨i, hi, hi', he⟩]
    exact hf

theorem trans (h : Cleared N m m' a b) (h' : Cleared N m' m'' b c) (hab : a ≤ b) (hbc : b ≤ c) :
    Cleared N m m'' a c where
  gone i hi hi' := by
    rcases Nat.lt_or_ge i b with hlt | hge
    · cases hf : m''.find (i % N) with
      | none => rfl
      | some p =>
        have := h'.sub hf
        rw [h.gone i hi hlt] at this
        cases this
    · exact h'.gone i hge hi'
  kept k hk := by
    rw [h'.kept k fun i hi hi' => hk i (hab.trans hi) hi', h.kept k fun i hi hi' => hk i hi (hi'.trans_le hbc)]

theorem kept_at (h : Cleared N m m' a b) {i : Nat} (hi : b ≤ i) (hi' : i < a + N) :
    m'.find (i % N) = m.find (i % N) := by
  refine h.kept _ fun j hj hj' he => ?_
  obtain rfl := eq_of_mod_eq hj (hj'.trans (hi.trans_lt hi')) (hj.trans (hj'.le.trans hi)) hi' he
  omega

theorem buffered {item : Nat → α → Prop} (h : Cleared N m m' a b) {hi : Nat} (hm : Buffered N item m a hi) :
    Buffered N item m' b hi := by
  intro k p hf
  obtain ⟨j, hj, hj', rfl, hp⟩ := hm k p (h.sub hf)
  rcases Nat.lt_or_ge j b with hlt | hge
  · rw [h.gone j hj hlt] at hf
    cases hf
  · exact ⟨j, hge, hj', rfl, hp⟩

end Cleared

namespace Has

variable {m m' : OrdMap Nat α} {i j a b : Nat}

theorem insert_self (m : OrdMap Nat α) (i : Nat) (v : α) : Has N (m.insert (i % N) v) i := by
  simp [Has]

theorem insert (h : Has N m j) (i : Nat) (v : α) : Has N (m.insert (i % N) v) j := by
  unfold Has
  rw [OrdMap.find_insert]
  split
  · rfl
  · exact h

theorem kept (h : Has N m j) (hc : Cleared N m m' a b) (hj : b ≤ j) (hj' : j < a + N) : Has N m' j := by
  unfold Has
  rw [hc.kept_at hj hj']
  exact h

end Has

end Ns3
