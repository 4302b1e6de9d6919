import Mathlib.Data.List.Sort
import Mathlib.Order.Basic

/-!
# Ordered maps

A finite map kept as a list of entries in strictly ascending key order, as an
ordered tree map iterates over it. The order is a field, so an unsorted map
cannot be built; all reasoning goes through `find`.
-/

namespace Ns3

open List

/-! ## Entry lists -/

section
variable {κ α : Type} [LinearOrder κ]

def lookupEntry (k : κ) : List (κ × α) → Option α
  | [] => none
  | e :: l => if k = e.1 then some e.2 else lookupEntry k l

def insertEntry (k : κ) (v : α) : List (κ × α) → List (κ × α)
  | [] => [(k, v)]
  | e :: l =>
    if k < e.1 then (k, v) :: e :: l
    else if k = e.1 then (k, v) :: l
    else e :: insertEntry k v l

theorem mem_insertEntry {k : κ} {v : α} {a : κ × α} : ∀ {l : List (κ × α)}, a ∈ insertEntry k v l → a = (k, v) ∨ a ∈ l
  | [], h => by simpa [insertEntry] using h
  | e :: l, h => by
    unfold insertEntry at h
    split at h
    · simpa using h
    · split at h
      · rcases List.mem_cons.mp h with h | h
        · exact .inl h
        · exact .inr (List.mem_cons_of_mem _ h)
      · rcases List.mem_cons.mp h with h | h
        · exact .inr (h ▸ List.mem_cons_self ..)
        · rcases mem_insertEntry h with h | h
          · exact .inl h
          · exact .inr (List.mem_cons_of_mem _ h)

theorem insertEntry_sorted (k : κ) (v : α) : ∀ {l : List (κ × α)},
    l.Pairwise (fun a b => a.1 < b.1) → (insertEntry k v l).Pairwise (fun a b => a.1 < b.1)
  | [], _ => by simp [insertEntry]
  | e :: l, h => by
    obtain ⟨he, hl⟩ := pairwise_cons.mp h
    unfold insertEntry
    split
    · rename_i hlt
      refine pairwise_cons.mpr ⟨fun b hb => ?_, h⟩
      rcases mem_cons.mp hb with rfl | hb
      · exact hlt
      · exact hlt.trans (he b hb)
    · rename_i hnlt
      split
      · rename_i heq
        exact pairwise_cons.mpr ⟨fun b hb => heq ▸ he b hb, hl⟩
      · rename_i hne
        refine pairwise_cons.mpr ⟨fun b hb => ?_, insertEntry_sorted k v hl⟩
        rcases mem_insertEntry hb with rfl | hb
        · exact lt_of_le_of_ne (not_lt.mp hnlt) (Ne.symm hne)
        · exact he b hb

theorem lookup_insertEntry (k k' : κ) (v : α) : ∀ l : List (κ × α),
    lookupEntry k' (insertEntry k v l) = if k' = k then some v else lookupEntry k' l
  | [] => by simp [insertEntry, lookupEntry]
  | e :: l => by
    unfold insertEntry
    split
    · simp [lookupEntry]
    · split
      · rename_i heq
        by_cases hk : k' = k
        · simp [lookupEntry, hk]
        · simp [lookupEntry, hk, ← heq]
      · rename_i hne
        by_cases hk : k' = e.1
        · have : k' ≠ k := fun h => hne (h ▸ hk)
          simp [lookupEntry, hk, hk ▸ this]
        · simp [lookupEntry, hk, lookup_insertEntry k k' v l]

theorem lookupEntry_mem {k : κ} {v : α} : ∀ {l : List (κ × α)}, lookupEntry k l = some v → (k, v) ∈ l
  | [], h => by simp [lookupEntry] at h
  | e :: l, h => by
    unfold lookupEntry at h
    split at h
    · rename_i hk
      simp only [Option.some.injEq] at h
      subst hk h
      exact List.mem_cons_self ..
    · exact List.mem_cons_of_mem _ (lookupEntry_mem h)

theorem lookupEntry_of_mem {k : κ} {v : α} : ∀ {l : List (κ × α)}, l.Pairwise (fun a b => a.1 < b.1) → (k, v) ∈ l →
    lookupEntry k l = some v
  | [], _, h => absurd h List.not_mem_nil
  | e :: l, hl, h => by
    obtain ⟨he, hl⟩ := pairwise_cons.mp hl
    rcases mem_cons.mp h with rfl | h
    · simp [lookupEntry]
    · rw [lookupEntry, if_neg (he _ h).ne']
      exact lookupEntry_of_mem hl h

theorem lookupEntry_filter (k k' : κ) : ∀ l : List (κ × α),
    lookupEntry k' (l.filter fun e => e.1 ≠ k) = if k' = k then none else lookupEntry k' l
  | [] => by simp [lookupEntry]
  | e :: l => by
    rw [List.filter_cons]
    by_cases he : e.1 = k
    · rw [if_neg (by simp [he]), lookupEntry_filter k k' l]
      by_cases hk : k' = k
      · simp [hk]
      · simp [hk, lookupEntry, he]
    · rw [if_pos (by simp [he])]
      by_cases hk : k' = e.1
      · simp [lookupEntry, hk, he]
      · rw [lookupEntry, if_neg hk, lookupEntry_filter k k' l, lookupEntry, if_neg hk]

end

/-! ## Maps -/

structure OrdMap (κ : Type) [LinearOrder κ] (α : Type) where
  entries : List (κ × α)
  sorted : entries.Pairwise fun a b => a.1 < b.1

namespace OrdMap

variable {κ α : Type} [LinearOrder κ]

def empty : OrdMap κ α := ⟨[], List.Pairwise.nil⟩

def find (m : OrdMap κ α) (k : κ) : Option α := lookupEntry k m.entries

def insert (m : OrdMap κ α) (k : κ) (v : α) : OrdMap κ α :=
  ⟨insertEntry k v m.entries, insertEntry_sorted k v m.sorted⟩

def erase (m : OrdMap κ α) (k : κ) : OrdMap κ α :=
  ⟨m.entries.filter fun e => e.1 ≠ k, m.sorted.filter _⟩

/-- `std::map::insert`: an entry that is there stays as it is. -/
def insertNew (m : OrdMap κ α) (k : κ) (v : α) : OrdMap κ α := if (m.find k).isSome then m else m.insert k v

def first (m : OrdMap κ α) : Option (κ × α) := m.entries.head?

def size (m : OrdMap κ α) : Nat := m.entries.length

@[simp] theorem find_empty (k : κ) : (empty : OrdMap κ α).find k = none := rfl

theorem find_insert (m : OrdMap κ α) (k k' : κ) (v : α) :
    (m.insert k v).find k' = if k' = k then some v else m.find k' :=
  lookup_insertEntry k k' v m.entries

@[simp] theorem find_insert_self (m : OrdMap κ α) (k : κ) (v : α) : (m.insert k v).find k = some v := by
  simp [find_insert]

theorem find_insert_ne (m : OrdMap κ α) {k k' : κ} (h : k' ≠ k) (v : α) : (m.insert k v).find k' = m.find k' := by
  simp [find_insert, h]

theorem find_insertNew (m : OrdMap κ α) (k k' : κ) (v : α) :
    (m.insertNew k v).find k' = if k' = k then some ((m.find k).getD v) else m.find k' := by
  unfold insertNew
  cases hk : m.find k with
  | none => simpa using m.find_insert k k' v
  | some w =>
    by_cases heq : k' = k
    · simp [heq, hk]
    · simp [heq]

theorem find_of_mem (m : OrdMap κ α) {k : κ} {v : α} (h : (k, v) ∈ m.entries) : m.find k = some v :=
  lookupEntry_of_mem m.sorted h

theorem entries_of_least (m : OrdMap κ α) {k : κ} {v : α} (h : m.find k = some v)
    (hleast : ∀ e ∈ m.entries, k ≤ e.1) : ∃ es, m.entries = (k, v) :: es := by
  have hmem := lookupEntry_mem h
  have hsorted := m.sorted
  cases hes : m.entries with
  | nil =>
    rw [hes] at hmem
    cases hmem
  | cons e es =>
    rw [hes] at hmem hsorted hleast
    rcases mem_cons.mp hmem with rfl | hmem
    · exact ⟨es, rfl⟩
    · exact absurd ((pairwise_cons.mp hsorted).1 _ hmem) (hleast e mem_cons_self).not_gt

theorem find_erase (m : OrdMap κ α) (k k' : κ) : (m.erase k).find k' = if k' = k then none else m.find k' :=
  lookupEntry_filter k k' m.entries

end OrdMap

end Ns3
