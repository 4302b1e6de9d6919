import Mathlib.Data.List.Basic
import Mathlib.Data.List.Perm.Basic
import Mathlib.Tactic.Common

/-!
# Blocks with a reference count

Blocks of memory that several owners point to, and a free list of blocks that
nobody points to any more, for later use. `Balanced` says that every count is
the number of owners; an owner is given by the block it points to, and what
holds temporarily is an owner like any other. Each operation is described by
what it does to the owners, and by the blocks it leaves alone.
-/

namespace Ns3

open List

structure Block (β : Type) where
  size : Nat
  count : Nat
  body : β

/-- The blocks, by address, `none` where one was deleted; the last element of the free
list stands first. -/
structure Pool (β : Type) where
  blocks : List (Option (Block β)) := []
  freeList : List Nat := []
  maxSize : Nat := 0

namespace Pool

variable {β : Type}

def block (m : Pool β) (p : Nat) : Option (Block β) := m.blocks[p]?.join

def put (m : Pool β) (p : Nat) (v : Option (Block β)) : Pool β := { m with blocks := m.blocks.set p v }

/-- `count++`. -/
def retain (m : Pool β) (p : Nat) : Option (Pool β) :=
  (m.block p).map fun b => m.put p (some { b with count := b.count + 1 })

def modify (m : Pool β) (p : Nat) (f : β → β) : Option (Pool β) :=
  (m.block p).map fun b => m.put p (some { b with body := f b.body })

/-- The search of the free list: blocks that are too small are deleted. -/
def take (n : Nat) (reset : β → β) : List Nat → Pool β → Option (Pool β × Option Nat)
  | [], m => some ({ m with freeList := [] }, none)
  | p :: ps, m =>
    (m.block p).bind fun b =>
      if n ≤ b.size then some ({ m.put p (some ⟨b.size, 1, reset b.body⟩) with freeList := ps }, some p)
      else take n reset ps (m.put p none)

/-- A block for `n` bytes: from the free list, or a new one of `newSize`. -/
def create (m : Pool β) (n newSize : Nat) (raw : Nat → β) (reset : β → β) : Option (Pool β × Nat) :=
  (take n reset m.freeList m).map fun r =>
    match r with
    | (m, some p) => (m, p)
    | (m, none) => ({ m with blocks := m.blocks ++ [some ⟨newSize, 1, raw m.blocks.length⟩] }, m.blocks.length)

def recycle (m : Pool β) (limit p size : Nat) : Pool β :=
  let maxSize := max m.maxSize size
  if size < maxSize ∨ limit < m.freeList.length then { m.put p none with maxSize := maxSize }
  else { m with freeList := p :: m.freeList, maxSize := maxSize }

/-- `count--`, and what follows when it was the last owner's. -/
def release (m : Pool β) (limit p : Nat) : Option (Pool β) :=
  (m.block p).bind fun b =>
    if b.count = 0 then none
    else
      let m := m.put p (some { b with count := b.count - 1 })
      if b.count - 1 = 0 then some (m.recycle limit p b.size) else some m

def countAt (m : Pool β) (p : Nat) : Nat := ((m.block p).map (·.count)).getD 0

def view (m : Pool β) (p : Nat) : Option (Nat × β) := (m.block p).map fun b => (b.size, b.body)

/-! ## Counts and owners -/

structure Balanced (fits : Nat → Prop) (m : Pool β) (owners : List Nat) : Prop where
  count : ∀ p, m.countAt p = owners.count p
  free : ∀ p ∈ m.freeList, (∃ b, m.block p = some b) ∧ p ∉ owners
  nodup : m.freeList.Nodup
  sizes : ∀ p b, m.block p = some b → fits b.size

section
variable {fits : Nat → Prop} {m : Pool β} {owners : List Nat} {p q : Nat} {b : Block β}

theorem lt_of_block (hb : m.block p = some b) : p < m.blocks.length := by
  by_contra hge
  rw [block, getElem?_eq_none (by omega)] at hb
  cases hb

theorem block_put (hb : m.block q = some b) (v : Option (Block β)) (p : Nat) :
    (m.put q v).block p = if p = q then v else m.block p := by
  rw [block, put, getElem?_set]
  by_cases heq : q = p
  · subst heq
    rw [if_pos rfl, if_pos (lt_of_block hb), if_pos rfl]
    rfl
  · rw [if_neg heq, if_neg (Ne.symm heq)]
    rfl

theorem block_append (m : Pool β) (b : Block β) (p : Nat) :
    { m with blocks := m.blocks ++ [some b] }.block p = if p = m.blocks.length then some b else m.block p := by
  simp only [block, getElem?_append]
  by_cases hlt : p < m.blocks.length
  · rw [if_pos hlt, if_neg (by omega)]
  · rw [if_neg hlt]
    by_cases heq : p = m.blocks.length
    · rw [if_pos heq, heq, Nat.sub_self]
      rfl
    · rw [if_neg heq, getElem?_eq_none (by simp; omega), getElem?_eq_none (by omega)]

theorem countAt_eq (hb : m.block p = some b) : m.countAt p = b.count := by
  rw [countAt, hb]
  rfl

theorem Balanced.perm {others : List Nat} (h : Balanced fits m owners) (hperm : owners.Perm others) :
    Balanced fits m others where
  count p := by rw [h.count p, hperm.count_eq]
  free p hp := ⟨(h.free p hp).1, fun hmem => (h.free p hp).2 (hperm.mem_iff.2 hmem)⟩
  nodup := h.nodup
  sizes := h.sizes

theorem Balanced.owned (h : Balanced fits m owners) (hp : p ∈ owners) :
    ∃ b, m.block p = some b ∧ b.count = owners.count p := by
  have hcount := h.count p
  have hpos := count_pos_iff.2 hp
  cases hb : m.block p with
  | none =>
    rw [countAt, hb] at hcount
    rw [← hcount] at hpos
    exact absurd hpos (Nat.lt_irrefl 0)
  | some b => exact ⟨b, rfl, (countAt_eq hb).symm.trans hcount⟩

theorem Balanced.put {others : List Nat} (h : Balanced fits m owners) (hb : m.block q = some b) (v : Option (Block β))
    (hcount : ∀ p, p ≠ q → others.count p = owners.count p) (hq : others.count q = (v.map (·.count)).getD 0)
    (hfree : q ∉ m.freeList) (hfits : ∀ b', v = some b' → fits b'.size) : Balanced fits (m.put q v) others where
  count p := by
    rw [countAt, block_put hb]
    by_cases heq : p = q
    · rw [if_pos heq, heq, hq]
    · rw [if_neg heq, hcount p heq]
      exact h.count p
  free p hp := by
    have hne : p ≠ q := fun heq => hfree (heq ▸ hp)
    obtain ⟨hblock, hmem⟩ := h.free p hp
    refine ⟨by rw [block_put hb, if_neg hne]; exact hblock, fun hin => hmem ?_⟩
    exact count_pos_iff.1 (by rw [← hcount p hne]; exact count_pos_iff.2 hin)
  nodup := h.nodup
  sizes p b' hp := by
    rw [block_put hb] at hp
    by_cases heq : p = q
    · rw [if_pos heq] at hp
      exact hfits b' hp
    · rw [if_neg heq] at hp
      exact h.sizes p b' hp

theorem view_eq (hb : m.block p = some b) : m.view p = some (b.size, b.body) := by
  rw [view, hb]
  rfl

theorem view_put (hb : m.block q = some b) (v : Option (Block β)) (p : Nat) :
    (m.put q v).view p = if p = q then v.map fun b => (b.size, b.body) else m.view p := by
  rw [view, block_put hb]
  split
  · rfl
  · rfl

theorem Balanced.retain (h : Balanced fits m owners) (hp : p ∈ owners) :
    ∃ m', m.retain p = some m' ∧ Balanced fits m' (p :: owners) ∧ ∀ q, m'.view q = m.view q := by
  obtain ⟨b, hb, hcount⟩ := h.owned hp
  refine ⟨m.put p (some { b with count := b.count + 1 }), by rw [Pool.retain, hb]; rfl, ?_, fun q => ?_⟩
  · refine h.put hb _ (fun q hq => count_cons_of_ne (Ne.symm hq)) ?_ (fun hmem => (h.free p hmem).2 hp) ?_
    · rw [count_cons_self, ← hcount]
      rfl
    · intro b' heq
      cases heq
      exact h.sizes p b hb
  · rw [view_put hb]
    by_cases heq : q = p
    · rw [if_pos heq, heq, view_eq hb]
      rfl
    · rw [if_neg heq]

theorem Balanced.modify (h : Balanced fits m owners) (hp : p ∈ owners) (f : β → β) :
    ∃ m', m.modify p f = some m' ∧ Balanced fits m' owners ∧
      ∀ q, m'.view q = if q = p then (m.view p).map fun v => (v.1, f v.2) else m.view q := by
  obtain ⟨b, hb, hcount⟩ := h.owned hp
  refine ⟨m.put p (some { b with body := f b.body }), by rw [Pool.modify, hb]; rfl, ?_, fun q => ?_⟩
  · refine h.put hb _ (fun _ _ => rfl) hcount.symm (fun hmem => (h.free p hmem).2 hp) ?_
    intro b' heq
    cases heq
    exact h.sizes p b hb
  · rw [view_put hb, view_eq hb]
    rfl

theorem Balanced.recycle (h : Balanced fits m owners) (hb : m.block p = some b) (hp : p ∉ owners)
    (hfree : p ∉ m.freeList) (limit size : Nat) :
    Balanced fits (m.recycle limit p size) owners ∧ ∀ q, q ≠ p → (m.recycle limit p size).block q = m.block q := by
  unfold Pool.recycle
  by_cases hfull : size < max m.maxSize size ∨ limit < m.freeList.length
  · rw [if_pos hfull]
    have hput := h.put hb none (fun _ _ => rfl) (count_eq_zero.2 hp) hfree (fun _ heq => nomatch heq)
    exact ⟨⟨hput.count, hput.free, hput.nodup, hput.sizes⟩, fun q hq => by
      show (m.put p none).block q = _
      rw [block_put hb, if_neg hq]⟩
  · rw [if_neg hfull]
    refine ⟨⟨h.count, fun q hq => ?_, nodup_cons.2 ⟨hfree, h.nodup⟩, h.sizes⟩, fun q _ => rfl⟩
    rcases mem_cons.1 hq with rfl | hq
    · exact ⟨⟨b, hb⟩, hp⟩
    · exact h.free q hq

theorem Balanced.release (h : Balanced fits m (p :: owners)) (limit : Nat) :
    ∃ m', m.release limit p = some m' ∧ Balanced fits m' owners ∧ ∀ q ∈ owners, m'.view q = m.view q := by
  obtain ⟨b, hb, hcount⟩ := h.owned mem_cons_self
  rw [count_cons_self] at hcount
  have hfree : p ∉ m.freeList := fun hmem => (h.free p hmem).2 mem_cons_self
  have hput : Balanced fits (m.put p (some { b with count := b.count - 1 })) owners := by
    refine h.put hb _ (fun q hq => (count_cons_of_ne (Ne.symm hq)).symm) ?_ hfree ?_
    · show owners.count p = b.count - 1
      omega
    · intro b' heq
      cases heq
      exact h.sizes p b hb
  have hview : ∀ q, (m.put p (some { b with count := b.count - 1 })).view q = m.view q := by
    intro q
    rw [view_put hb]
    by_cases heq : q = p
    · rw [if_pos heq, heq, view_eq hb]
      rfl
    · rw [if_neg heq]
  have hself : (m.put p (some { b with count := b.count - 1 })).block p = some { b with count := b.count - 1 } := by
    rw [block_put hb, if_pos rfl]
  have hcall : m.release limit p = if b.count - 1 = 0
      then some ((m.put p (some { b with count := b.count - 1 })).recycle limit p b.size)
      else some (m.put p (some { b with count := b.count - 1 })) := by
    rw [Pool.release, hb, Option.bind_some, if_neg (by omega)]
  by_cases hlast : b.count - 1 = 0
  · have hnot : p ∉ owners := count_eq_zero.1 (by omega)
    obtain ⟨hbalanced, hkept⟩ := hput.recycle hself hnot hfree limit b.size
    refine ⟨_, hcall.trans (if_pos hlast), hbalanced, fun q hq => ?_⟩
    have hne : q ≠ p := fun heq => hnot (heq ▸ hq)
    rw [← hview q, view, view, hkept q hne]
  · exact ⟨_, hcall.trans (if_neg hlast), hput, fun q _ => hview q⟩

theorem take_spec (n : Nat) (reset : β → β) : ∀ (ps : List Nat) (m : Pool β), Balanced fits { m with freeList := ps } owners →
    ∃ m' r, take n reset ps m = some (m', r) ∧ (∀ q ∈ owners, m'.block q = m.block q) ∧ match r with
      | none => Balanced fits m' owners
      | some p => p ∉ owners ∧ Balanced fits m' (p :: owners) ∧
          ∃ size body, n ≤ size ∧ m'.block p = some ⟨size, 1, reset body⟩ := by
  intro ps
  induction ps with
  | nil => exact fun m h => ⟨_, none, rfl, fun _ _ => rfl, h⟩
  | cons p ps ih =>
    intro m h
    obtain ⟨⟨b, hb⟩, hnot⟩ := h.free p mem_cons_self
    have hb' : m.block p = some b := hb
    obtain ⟨hfirst, hnodup⟩ := nodup_cons.1 h.nodup
    have hrest : Balanced fits { m with freeList := ps } owners :=
      ⟨h.count, fun q hq => h.free q (mem_cons_of_mem _ hq), hnodup, h.sizes⟩
    have hkept : ∀ (v : Option (Block β)), ∀ q ∈ owners, (m.put p v).block q = m.block q := fun v q hq => by
      have hne : q ≠ p := fun heq => hnot (heq ▸ hq)
      rw [block_put hb', if_neg hne]
    by_cases hfits : n ≤ b.size
    · have hcall : take n reset (p :: ps) m = some ({ m.put p (some ⟨b.size, 1, reset b.body⟩) with freeList := ps }, some p) := by
        rw [take, hb', Option.bind_some, if_pos hfits]
      refine ⟨_, some p, hcall, hkept (some ⟨b.size, 1, reset b.body⟩), hnot, ?_, b.size, b.body, hfits, ?_⟩
      · refine hrest.put hb (some ⟨b.size, 1, reset b.body⟩) (fun q hq => count_cons_of_ne (Ne.symm hq)) ?_ hfirst ?_
        · rw [count_cons_self, count_eq_zero.2 hnot]
          rfl
        · intro b' heq
          cases heq
          exact h.sizes p b hb
      · show (m.put p _).block p = _
        rw [block_put hb', if_pos rfl]
    · have hdeleted := hrest.put hb none (fun _ _ => rfl) (count_eq_zero.2 hnot) hfirst (fun _ heq => nomatch heq)
      obtain ⟨m', r, hcall, hsame, hresult⟩ := ih (m.put p none) hdeleted
      refine ⟨m', r, by rw [take, hb', Option.bind_some, if_neg hfits]; exact hcall, fun q hq => ?_, hresult⟩
      exact (hsame q hq).trans (hkept none q hq)

theorem Balanced.create (h : Balanced fits m owners) {n newSize : Nat} (hle : n ≤ newSize) (hfits : fits newSize)
    (raw : Nat → β) (reset : β → β) :
    ∃ m' p, m.create n newSize raw reset = some (m', p) ∧ p ∉ owners ∧ Balanced fits m' (p :: owners) ∧
      (∀ q ∈ owners, m'.view q = m.view q) ∧
      ∃ size body, n ≤ size ∧ m'.view p = some (size, body) ∧ ((∃ old, body = reset old) ∨ ∃ k, body = raw k) := by
  obtain ⟨m', r, hcall, hsame, hresult⟩ := take_spec n reset m.freeList m h
  cases r with
  | some p =>
    obtain ⟨hnot, hbalanced, size, body, hsize, hblock⟩ := hresult
    refine ⟨m', p, by rw [Pool.create, hcall]; rfl, hnot, hbalanced, fun q hq => by rw [view, view, hsame q hq],
      size, reset body, hsize, view_eq hblock, .inl ⟨body, rfl⟩⟩
  | none =>
    have hfresh : m'.block m'.blocks.length = none := by
      rw [block, getElem?_eq_none (Nat.le_refl _)]
      rfl
    have hnot : m'.blocks.length ∉ owners := by
      intro hin
      obtain ⟨b, hb, -⟩ := Balanced.owned hresult hin
      rw [hfresh] at hb
      cases hb
    have hold : ∀ q b, m'.block q = some b → q ≠ m'.blocks.length := fun q b hb heq => by
      rw [heq, hfresh] at hb
      cases hb
    refine ⟨{ m' with blocks := m'.blocks ++ [some ⟨newSize, 1, raw m'.blocks.length⟩] }, m'.blocks.length,
      by rw [Pool.create, hcall]; rfl, hnot, ⟨fun q => ?_, fun q hq => ?_, hresult.nodup, fun q b hb => ?_⟩, fun q hq => ?_,
      newSize, raw m'.blocks.length, hle, ?_, .inr ⟨_, rfl⟩⟩
    · rw [countAt, block_append]
      by_cases heq : q = m'.blocks.length
      · rw [if_pos heq, heq, count_cons_self, count_eq_zero.2 hnot]
        rfl
      · rw [if_neg heq, count_cons_of_ne (Ne.symm heq)]
        exact hresult.count q
    · obtain ⟨⟨b, hb⟩, hmem⟩ := Balanced.free hresult q hq
      have hne := hold q b hb
      refine ⟨⟨b, by rw [block_append, if_neg hne]; exact hb⟩, fun hin => ?_⟩
      rcases mem_cons.1 hin with heq | hin
      · exact hne heq
      · exact hmem hin
    · rw [block_append] at hb
      by_cases heq : q = m'.blocks.length
      · rw [if_pos heq] at hb
        cases hb
        exact hfits
      · rw [if_neg heq] at hb
        exact Balanced.sizes hresult q b hb
    · obtain ⟨b, hb, -⟩ := Balanced.owned hresult hq
      rw [view, block_append, if_neg (hold q b hb), hsame q hq]
      rfl
    · rw [view, block_append, if_pos rfl]
      rfl

end

end Pool

end Ns3
