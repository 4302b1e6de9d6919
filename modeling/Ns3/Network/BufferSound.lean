import Ns3.Network.Buffer

/-!
# Buffers in shared memory

Owners of one block lie inside its dirty area. Which of them reaches furthest
is not told by the offsets alone, since the zeroes counted in them differ: the
mark at the end was set by a buffer with the most zeroes, and no other stores
bytes behind it (`Placed`). An operation on one owner keeps the others as they
are, and overlaps no other owner where it did not before (`Changed`).
-/

namespace Ns3

open BufferHeap List Option

namespace Buffer

abbrev BlockSize (n : Nat) : Prop := n < 2147483648

/-- A buffer in its block; `top` zeroes are counted in the mark at the end. -/
structure Placed (v : Nat × BufferData) (top : Nat) (b : Buffer) : Prop where
  start_le : b.start ≤ b.zeroAreaStart
  zero_le : b.zeroAreaStart ≤ b.zeroAreaEnd
  stop_le : b.zeroAreaEnd ≤ b.stop
  dirty : v.2.dirtyStart ≤ b.start
  room : b.stop ≤ v.1 + (b.zeroAreaEnd - b.zeroAreaStart)
  zeroes : b.zeroAreaEnd - b.zeroAreaStart ≤ top
  reach : b.stop + top ≤ v.2.dirtyEnd + (b.zeroAreaEnd - b.zeroAreaStart)
  small : b.stop < 2147483648 + b.start

structure Inv (m : BufferHeap) (owners : List Buffer) : Prop where
  balanced : m.pool.Balanced BlockSize (owners.map (·.data))
  placed : ∀ p v, m.pool.view p = some v → ∃ top, ∀ b ∈ owners, b.data = p → Placed v top b

def contentAt (m : BufferHeap) (b : Buffer) : Option BufferContent := (m.pool.view b.data).map fun v => b.content v.2

def Inside (b : Buffer) (x : Nat) : Prop := b.start ≤ x ∧ x < b.getInternalEnd

/-- What an operation that makes `b'` of `b` does to memory. -/
structure Changed (m : BufferHeap) (b : Buffer) (m' : BufferHeap) (b' : Buffer) (others : List Buffer) : Prop where
  inv : Inv m' (b' :: others)
  same : ∀ c ∈ others, contentAt m' c = contentAt m c
  apart : ∀ c ∈ others, c.data = b'.data → ∀ x, Inside c x → Inside b' x → b.data = b'.data ∧ Inside b x
  joins : b'.data ∈ others.map (·.data) → b.data = b'.data

theorem Changed.trans {m m' m'' : BufferHeap} {b b' b'' : Buffer} {others : List Buffer}
    (h : Changed m b m' b' others) (h' : Changed m' b' m'' b'' others) : Changed m b m'' b'' others where
  inv := h'.inv
  same c hc := (h'.same c hc).trans (h.same c hc)
  apart c hc hdata x hin hin' := by
    obtain ⟨heq, hb⟩ := h'.apart c hc hdata x hin hin'
    obtain ⟨heq', hb'⟩ := h.apart c hc (hdata.trans heq.symm) x hin hb
    exact ⟨heq'.trans heq, hb'⟩
  joins hin := by
    have heq := h'.joins hin
    rw [← heq] at hin
    exact (h.joins hin).trans heq

section
variable {m : BufferHeap} {b : Buffer} {others owners : List Buffer}

theorem Inv.perm {owners' : List Buffer} (h : Inv m owners) (hperm : owners.Perm owners') : Inv m owners' where
  balanced := h.balanced.perm (hperm.map _)
  placed p v hv := by
    obtain ⟨top, htop⟩ := h.placed p v hv
    exact ⟨top, fun b hb => htop b (hperm.mem_iff.2 hb)⟩

theorem Inv.owned (h : Inv m owners) (hb : b ∈ owners) :
    ∃ d top, m.pool.block b.data = some d ∧ m.pool.view b.data = some (d.size, d.body) ∧ d.size < 2147483648 ∧
      d.count = (owners.map (·.data)).count b.data ∧ ∀ c ∈ owners, c.data = b.data → Placed (d.size, d.body) top c := by
  obtain ⟨d, hd, hcount⟩ := h.balanced.owned (List.mem_map_of_mem hb)
  obtain ⟨top, htop⟩ := h.placed _ _ (Pool.view_eq hd)
  exact ⟨d, top, hd, Pool.view_eq hd, h.balanced.sizes _ _ hd, hcount, htop⟩

theorem mem_data {c : Buffer} (hc : c ∈ owners) : c.data ∈ owners.map (·.data) := List.mem_map_of_mem hc

variable {v : Nat × BufferData}

theorem contentAt_eq (hv : m.pool.view b.data = some v) : contentAt m b = some (b.content v.2) := by
  rw [contentAt, hv]
  rfl

theorem content_congr {top : Nat} (hb : Placed v top b) {d d' : BufferData}
    (h : ∀ x, Inside b x → d'.data x = d.data x) : b.content d' = b.content d := by
  obtain ⟨h₁, h₂, h₃, -, -, -, -, -⟩ := hb
  have hfront : load d'.data b.start (b.zeroAreaStart - b.start) = load d.data b.start (b.zeroAreaStart - b.start) :=
    load_congr fun x hx hlt => h x ⟨hx, by simp only [getInternalEnd]; omega⟩
  have hback : load d'.data b.zeroAreaStart (b.stop - b.zeroAreaEnd) = load d.data b.zeroAreaStart (b.stop - b.zeroAreaEnd) :=
    load_congr fun x hx hlt => h x ⟨by omega, by simp only [getInternalEnd]; omega⟩
  rw [content, content, hfront, hback]

theorem length_bytes {top : Nat} (hb : Placed v top b) (d : BufferData) : (b.content d).bytes.length = b.getSize := by
  obtain ⟨h₁, h₂, h₃, -, -, -, -, -⟩ := hb
  simp only [content, BufferContent.bytes, getSize, length_append, length_load, length_replicate]
  omega

/-! ## Memory -/

section
variable {os : List Nat} {p : Nat} {v : Nat × BufferData}

theorem block_of_view (hv : m.pool.view p = some v) : ∃ d, m.pool.block p = some d ∧ d.size = v.1 ∧ d.body = v.2 := by
  obtain ⟨d, hd, rfl⟩ := map_eq_some_iff.1 hv
  exact ⟨d, hd, rfl, rfl⟩

theorem peek_spec (hv : m.pool.view p = some v) {a n : Nat} (hroom : n = 0 ∨ a + n ≤ v.1) :
    m.peek p a n = some (load v.2.data a n) := by
  obtain ⟨d, hd, hsize, hbody⟩ := block_of_view hv
  rw [peek, hd, bind_some, hsize, if_pos hroom, hbody]

theorem modify_spec (h : m.pool.Balanced BlockSize os) (hp : p ∈ os) (hv : m.pool.view p = some v) (f : BufferData → BufferData) :
    ∃ m', m.modify p f = some m' ∧ m'.pool.Balanced BlockSize os ∧ m'.pool.view p = some (v.1, f v.2) ∧
      ∀ q, q ≠ p → m'.pool.view q = m.pool.view q := by
  obtain ⟨pool, hcall, hbalanced, hview⟩ := h.modify hp f
  refine ⟨{ m with pool := pool }, by rw [BufferHeap.modify, hcall]; rfl, hbalanced, ?_, fun q hq => ?_⟩
  · rw [hview, if_pos rfl, hv]
    rfl
  · rw [hview, if_neg hq]

theorem poke_eq (h : m.pool.Balanced BlockSize os) (hp : p ∈ os) (hv : m.pool.view p = some v) {a : Nat} {bs : Bytes}
    (hroom : bs.length = 0 ∨ a + bs.length ≤ v.1) : ∃ m', m.poke p a bs = some m' ∧ m'.pool.Balanced BlockSize os ∧
      m'.pool.view p = some (v.1, { v.2 with data := patch v.2.data a bs }) ∧ ∀ q, q ≠ p → m'.pool.view q = m.pool.view q := by
  obtain ⟨d, hd, hsize, -⟩ := block_of_view hv
  obtain ⟨m', hcall, hbalanced, hself, hother⟩ := modify_spec h hp hv fun body => { body with data := patch body.data a bs }
  exact ⟨m', by rw [poke, hd, bind_some, hsize, if_pos hroom, hcall], hbalanced, hself, hother⟩

theorem create_spec (raw : Nat → BufferData) (h : m.pool.Balanced BlockSize os) {n : Nat} (hn : n < 2147483648) :
    ∃ m' p size body, m.create raw n = some (m', p) ∧ p ∉ os ∧ m'.pool.Balanced BlockSize (p :: os) ∧
      (∀ q ∈ os, m'.pool.view q = m.pool.view q) ∧ n ≤ size ∧ m'.pool.view p = some (size, body) := by
  have hmax : BlockSize (max n 1) := by
    simp only [BlockSize]
    omega
  obtain ⟨pool, p, hcall, hnot, hbalanced, hview, size, body, hsize, hself, -⟩ := h.create (Nat.le_max_left n 1) hmax raw id
  exact ⟨{ m with pool := pool }, p, size, body, by rw [BufferHeap.create, hcall]; rfl, hnot, hbalanced, hview, hsize, hself⟩

theorem release_spec (h : m.pool.Balanced BlockSize (p :: os)) :
    ∃ m', m.release p = some m' ∧ m'.pool.Balanced BlockSize os ∧ ∀ q ∈ os, m'.pool.view q = m.pool.view q := by
  obtain ⟨pool, hcall, hbalanced, hview⟩ := h.release FREE_LIST_LIMIT
  exact ⟨{ m with pool := pool }, by rw [BufferHeap.release, hcall]; rfl, hbalanced, hview⟩

theorem retain_spec (h : m.pool.Balanced BlockSize os) (hp : p ∈ os) :
    ∃ m', m.retain p = some m' ∧ m'.pool.Balanced BlockSize (p :: os) ∧ ∀ q, m'.pool.view q = m.pool.view q := by
  obtain ⟨pool, hcall, hbalanced, hview⟩ := h.retain hp
  exact ⟨{ m with pool := pool }, by rw [BufferHeap.retain, hcall]; rfl, hbalanced, hview⟩

end

theorem poke_spec (h : Inv m (b :: others)) (a : Nat) (bs : Bytes)
    (hhigh : bs.length = 0 ∨ a + bs.length ≤ b.getInternalEnd)
    (hapart : ∀ c ∈ others, c.data = b.data → ∀ x, a ≤ x → x < a + bs.length → ¬ Inside c x) :
    ∃ m' v, m.poke b.data a bs = some m' ∧ Changed m b m' b others ∧ m.pool.view b.data = some v ∧
      m'.pool.view b.data = some (v.1, { v.2 with data := patch v.2.data a bs }) ∧
      ∀ q, q ≠ b.data → m'.pool.view q = m.pool.view q := by
  obtain ⟨d, top, hd, hv, -, -, htop⟩ := h.owned mem_cons_self
  have hplaced := htop b mem_cons_self rfl
  have hroom : bs.length = 0 ∨ a + bs.length ≤ d.size := by
    have h₁ := hplaced.room
    simp only [getInternalEnd] at hhigh
    lia
  obtain ⟨m', hcall, hbalanced, hself, hother⟩ := poke_eq (p := b.data) h.balanced mem_cons_self hv hroom
  refine ⟨m', _, hcall, ⟨⟨hbalanced, fun p v hp => ?_⟩, fun c hc => ?_, fun c hc hdata x hin hin' => ⟨rfl, hin'⟩,
    fun _ => rfl⟩, hv, hself, hother⟩
  · by_cases heq : p = b.data
    · subst heq
      rw [hself] at hp
      cases hp
      refine ⟨top, fun c hc hdata => ?_⟩
      obtain ⟨h₁, h₂, h₃, h₄, h₅, h₆, h₇, h₈⟩ := htop c hc hdata
      exact ⟨h₁, h₂, h₃, h₄, h₅, h₆, h₇, h₈⟩
    · rw [hother p heq] at hp
      exact h.placed p v hp
  · by_cases heq : c.data = b.data
    · rw [contentAt_eq (heq ▸ hself), contentAt_eq (heq ▸ hv)]
      refine congrArg some (content_congr (htop c (mem_cons_of_mem _ hc) heq) fun x hx => ?_)
      refine patch_outside ?_
      by_contra hin
      exact hapart c hc heq x (by omega) (by omega) hx
    · rw [contentAt, contentAt, hother _ heq]

/-! ## Moving to a new block -/

section
variable (raw : Nat → BufferData)

theorem relocate_spec (h : Inv m (b :: others)) (newSize offset : Nat) (hsize : offset + b.getInternalSize ≤ newSize)
    (hlt : newSize < 2147483648) :
    ∃ m' p size body v, relocate raw m b newSize offset = some (m', p) ∧ p ∉ others.map (·.data) ∧ p ≠ b.data ∧
      m'.pool.Balanced BlockSize (p :: others.map (·.data)) ∧ (∀ c ∈ others, m'.pool.view c.data = m.pool.view c.data) ∧
      newSize ≤ size ∧ m'.pool.view p = some (size, body) ∧ m.pool.view b.data = some v ∧
      load body.data offset b.getInternalSize = load v.2.data b.start b.getInternalSize := by
  obtain ⟨d, top, hd, hv, -, -, htop⟩ := h.owned mem_cons_self
  obtain ⟨h₁, h₂, h₃, -, h₅, -, -, -⟩ := htop b mem_cons_self rfl
  obtain ⟨m₁, p, size, body, hcreate, hnot, hbalanced₁, hview₁, hnew, hself₁⟩ := create_spec raw h.balanced hlt
  rw [map_cons, mem_cons, not_or] at hnot
  have hold := (hview₁ b.data mem_cons_self).trans hv
  have hpeek := peek_spec hold (a := b.start) (n := b.getInternalSize) (.inr (by simp only [getInternalSize]; omega))
  have hroom : (load d.body.data b.start b.getInternalSize).length = 0 ∨
      offset + (load d.body.data b.start b.getInternalSize).length ≤ size := .inr (by rw [length_load]; omega)
  obtain ⟨m₂, hpoke, hbalanced₂, hself₂, hview₂⟩ := poke_eq hbalanced₁ mem_cons_self hself₁
    (a := offset) hroom
  obtain ⟨m₃, hrelease, hbalanced₃, hview₃⟩ := release_spec (hbalanced₂.perm (Perm.swap _ _ _))
  have hcall : relocate raw m b newSize offset = some (m₃, p) := by
    rw [relocate, hcreate, bind_some]
    simp only [hpeek, bind_some, hpoke, hrelease, map_some]
  refine ⟨m₃, p, size, _, _, hcall, hnot.2, hnot.1, hbalanced₃, fun c hc => ?_, hnew,
    (hview₃ p mem_cons_self).trans hself₂, hv, ?_⟩
  · have hmem := mem_data hc
    have hne : c.data ≠ p := fun heq => hnot.2 (heq ▸ hmem)
    rw [hview₃ _ (mem_cons_of_mem _ hmem), hview₂ _ hne, hview₁ _ (mem_cons_of_mem _ hmem)]
  · have hpatch := load_patch body.data offset (load d.body.data b.start b.getInternalSize)
    rwa [length_load] at hpatch

theorem Inv.fresh {m' : BufferHeap} {b' : Buffer} {v : Nat × BufferData}
    (h : ∀ p v, m.pool.view p = some v → ∃ top, ∀ c ∈ others, c.data = p → Placed v top c)
    (hbalanced : m'.pool.Balanced BlockSize (b'.data :: others.map (·.data))) (hnot : b'.data ∉ others.map (·.data))
    (hview : ∀ c ∈ others, m'.pool.view c.data = m.pool.view c.data) (hself : m'.pool.view b'.data = some v)
    (top : Nat) (hplaced : Placed v top b') : Inv m' (b' :: others) where
  balanced := hbalanced
  placed p w hp := by
    by_cases heq : p = b'.data
    · subst heq
      rw [hself] at hp
      cases hp
      refine ⟨top, fun c hc hdata => ?_⟩
      rcases mem_cons.1 hc with rfl | hc
      · exact hplaced
      · exact absurd (hdata ▸ mem_data hc) hnot
    · by_cases hmem : p ∈ others.map (·.data)
      · obtain ⟨c, hc, rfl⟩ := List.mem_map.1 hmem
        rw [hview c hc] at hp
        obtain ⟨top, htop⟩ := h _ _ hp
        refine ⟨top, fun c' hc' hdata => ?_⟩
        rcases mem_cons.1 hc' with rfl | hc'
        · exact absurd hdata.symm heq
        · exact htop c' hc' hdata
      · refine ⟨0, fun c hc hdata => ?_⟩
        rcases mem_cons.1 hc with rfl | hc
        · exact absurd hdata.symm heq
        · exact absurd (hdata ▸ mem_data hc) hmem

theorem Inv.rest (h : Inv m (b :: others)) (p : Nat) (v : Nat × BufferData) (hv : m.pool.view p = some v) :
    ∃ top, ∀ c ∈ others, c.data = p → Placed v top c := by
  obtain ⟨top, htop⟩ := h.placed p v hv
  exact ⟨top, fun c hc => htop c (mem_cons_of_mem _ hc)⟩

theorem Inv.alone {m' : BufferHeap} (h : Inv m (b :: others)) {b' : Buffer} {v : Nat × BufferData}
    (hbalanced : m'.pool.Balanced BlockSize (b'.data :: others.map (·.data))) (hnot : b'.data ∉ others.map (·.data))
    (hview : ∀ c ∈ others, m'.pool.view c.data = m.pool.view c.data) (hself : m'.pool.view b'.data = some v)
    (top : Nat) (hplaced : Placed v top b') : Changed m b m' b' others where
  inv := Inv.fresh h.rest hbalanced hnot hview hself top hplaced
  same c hc := by rw [contentAt, contentAt, hview c hc]
  apart c hc hdata := absurd (hdata ▸ mem_data hc) hnot
  joins hin := absurd hin hnot

end

/-! ## Growing -/

theorem sole {d : Block BufferData} (hcount : d.count = ((b :: others).map (·.data)).count b.data) (hone : d.count = 1) :
    ∀ c ∈ others, c.data ≠ b.data := by
  intro c hc heq
  rw [map_cons, count_cons_self] at hcount
  have hpos := count_pos_iff.2 (heq ▸ mem_data hc)
  omega

theorem Inv.grown {m' : BufferHeap} {b' : Buffer} {dirtyStart dirtyEnd : Nat} (h : Inv m (b :: others))
    (hdata : b'.data = b.data) (hv : m.pool.view b.data = some v) (hbalanced : m'.pool.Balanced BlockSize ((b :: others).map (·.data)))
    (hself : m'.pool.view b.data = some (v.1, { v.2 with dirtyStart := dirtyStart, dirtyEnd := dirtyEnd }))
    (hother : ∀ q, q ≠ b.data → m'.pool.view q = m.pool.view q)
    (top : Nat) (hplaced : ∀ c, c = b' ∨ c ∈ others ∧ c.data = b.data → Placed (v.1, { v.2 with dirtyStart := dirtyStart, dirtyEnd := dirtyEnd }) top c)
    (hapart : ∀ c ∈ others, c.data = b.data → ∀ x, Inside c x → Inside b' x → Inside b x) : Changed m b m' b' others where
  inv :=
    { balanced := by
        rw [map_cons, hdata]
        exact hbalanced
      placed := fun p w hp => by
        by_cases heq : p = b.data
        · subst heq
          rw [hself] at hp
          cases hp
          refine ⟨top, fun c hc hin => hplaced c ?_⟩
          exact (mem_cons.1 hc).imp id fun hc => ⟨hc, hin⟩
        · rw [hother p heq] at hp
          obtain ⟨top, htop⟩ := h.placed _ _ hp
          refine ⟨top, fun c hc hin => ?_⟩
          rcases mem_cons.1 hc with rfl | hc
          · exact absurd (hin.symm.trans hdata) heq
          · exact htop c (mem_cons_of_mem _ hc) hin }
  same c _ := by
    by_cases heq : c.data = b.data
    · rw [contentAt_eq (heq ▸ hself), contentAt_eq (heq ▸ hv)]
      rfl
    · rw [contentAt, contentAt, hother _ heq]
  apart c hc hin x hx hx' := ⟨hdata.symm, hapart c hc (hin.trans hdata) x hx hx'⟩
  joins _ := hdata.symm

theorem load_parts {d d' : Nat → UInt8} {k a x y : Nat} (h : load d' k (x + y) = load d a (x + y)) :
    load d' k x = load d a x ∧ load d' (k + x) y = load d (a + x) y := by
  rw [load_add, load_add] at h
  exact append_inj h (by simp)

/-! ### A buffer moved to the beginning of a block -/

section
variable {size front zeroes back : Nat} {body : BufferData}

theorem moved_parts (n : Nat) (h : b.start ≤ b.zeroAreaStart ∧ b.zeroAreaStart ≤ b.zeroAreaEnd ∧ b.zeroAreaEnd ≤ b.stop) :
    b.zeroAreaStart + n - b.start = n + (b.zeroAreaStart - b.start) ∧
      b.zeroAreaEnd + n - b.start = n + (b.zeroAreaStart - b.start) + (b.zeroAreaEnd - b.zeroAreaStart) ∧
      b.stop + n - b.start =
        n + (b.zeroAreaStart - b.start) + (b.zeroAreaEnd - b.zeroAreaStart) + (b.stop - b.zeroAreaEnd) := by
  obtain ⟨h₁, h₂, h₃⟩ := h
  refine ⟨?_, ?_, ?_⟩
  · omega
  · omega
  · omega

theorem getInternalSize_eq (h : b.start ≤ b.zeroAreaStart ∧ b.zeroAreaStart ≤ b.zeroAreaEnd ∧ b.zeroAreaEnd ≤ b.stop) :
    b.getInternalSize = b.zeroAreaStart - b.start + (b.stop - b.zeroAreaEnd) := by
  simp only [getInternalSize]
  omega

theorem placed_moved (hstart : b.start = 0) (hzs : b.zeroAreaStart = front) (hze : b.zeroAreaEnd = front + zeroes)
    (hstop : b.stop = front + zeroes + back) (hfit : front + back ≤ size) (hlt : front + zeroes + back < 2147483648)
    (hdirty : body.dirtyStart = 0) (hend : body.dirtyEnd = front + zeroes + back) : Placed (size, body) zeroes b := by
  have hlength : b.zeroAreaEnd - b.zeroAreaStart = zeroes := by rw [hzs, hze, Nat.add_sub_cancel_left]
  refine ⟨?_, ?_, ?_, ?_, ?_, ?_, ?_, ?_⟩
  · rw [hstart]
    exact Nat.zero_le _
  · rw [hzs, hze]
    exact Nat.le_add_right _ _
  · rw [hze, hstop]
    exact Nat.le_add_right _ _
  · rw [hdirty]
    exact Nat.zero_le _
  · rw [hstop, hlength]
    omega
  · rw [hlength]
  · rw [hend, hstop, hlength]
  · rw [hstop]
    exact hlt.trans_le (Nat.le_add_right _ _)

theorem content_moved (hstart : b.start = 0) (hzs : b.zeroAreaStart = front) (hze : b.zeroAreaEnd = front + zeroes)
    (hstop : b.stop = front + zeroes + back) : content body b = ⟨load body.data 0 front, zeroes, load body.data front back⟩ := by
  rw [content, hstart, hzs, hze, hstop, Nat.sub_zero, Nat.add_sub_cancel_left, Nat.add_sub_cancel_left]

end

section
variable (raw : Nat → BufferData)

theorem addAtStart_spec (h : Inv m (b :: others)) {n : Nat} (hsize : b.getSize + n < 2147483648) :
    ∃ m' b' c fresh, addAtStart raw m b n = some (m', b') ∧ Changed m b m' b' others ∧ contentAt m b = some c ∧
      fresh.length = n ∧ contentAt m' b' = some ⟨fresh ++ c.dataStart, c.zeroSize, c.dataEnd⟩ ∧
      ∀ c ∈ others, c.data = b'.data → ∀ x, b'.start ≤ x → x < b'.start + n → ¬ Inside c x := by
  obtain ⟨d, top, hd, hv, -, hcount, htop⟩ := h.owned mem_cons_self
  have hb := htop b mem_cons_self rfl
  obtain ⟨h₁, h₂, h₃, h₄, h₅, h₆, h₇, h₈⟩ := hb
  simp only at h₄ h₅ h₇
  have hpos : 0 < d.count := by
    rw [hcount]
    exact count_pos_iff.2 mem_cons_self
  simp only [getSize] at hsize
  by_cases hfree : b.start ≥ n ∧ ¬ (d.count > 1 ∧ b.start > d.body.dirtyStart)
  · obtain ⟨hn, hdirty⟩ := hfree
    have hmark : d.count = 1 ∨ b.start = d.body.dirtyStart := by lia
    -- no other owner begins before this one
    have hothers : ∀ c ∈ others, c.data = b.data → b.start ≤ c.start := by
      intro c hc heq
      rcases hmark with hone | hmark
      · exact absurd heq (sole hcount hone c hc)
      · exact hmark ▸ (htop c (mem_cons_of_mem _ hc) heq).dirty
    obtain ⟨m', hcall, hbalanced, hself, hother⟩ := modify_spec (p := b.data) h.balanced mem_cons_self hv
      fun body => { body with dirtyStart := b.start - n, dirtyEnd := d.body.dirtyEnd }
    have hadd : addAtStart raw m b n = some (m', raiseMax { b with start := b.start - n }) := by
      rw [addAtStart, hd, bind_some, if_pos ⟨hn, hdirty⟩, if_pos hmark, setDirty, hcall]
      rfl
    refine ⟨m', _, _, load d.body.data (b.start - n) n, hadd, h.grown rfl hv hbalanced hself hother top ?_ ?_,
      contentAt_eq hv, length_load _ _ _, ?_, ?_⟩
    · rintro c (rfl | ⟨hc, heq⟩)
      · exact ⟨by simp only [raiseMax]; lia, h₂, h₃, le_refl _, h₅, h₆, h₇, by simp only [raiseMax]; lia⟩
      · obtain ⟨g₁, g₂, g₃, -, g₅, g₆, g₇, g₈⟩ := htop c (mem_cons_of_mem _ hc) heq
        have hle := hothers c hc heq
        exact ⟨g₁, g₂, g₃, by simp only; omega, g₅, g₆, g₇, g₈⟩
    · intro c hc heq x hx hx'
      exact ⟨(hothers c hc heq).trans hx.1, hx'.2⟩
    · refine (contentAt_eq (b := raiseMax { b with start := b.start - n }) hself).trans ?_
      have hsplit : b.zeroAreaStart - (b.start - n) = n + (b.zeroAreaStart - b.start) := by lia
      simp only [content, raiseMax, hsplit, load_add]
      rw [Nat.sub_add_cancel hn]
    · intro c hc heq x hx hlt hin
      have hle := hothers c hc heq
      have hstart := hin.1
      simp only [raiseMax] at hlt
      lia
  · obtain ⟨m₁, p, size, body, v, hcall, hnot, -, hbalanced, hview, hnew, hself, hv', hload⟩ :=
      relocate_spec raw h (b.getInternalSize + n) n (by lia) (by simp only [getInternalSize]; lia)
    rw [hv] at hv'
    cases hv'
    obtain ⟨m', hdirty, hbalanced', hself', hother'⟩ := modify_spec (p := p) hbalanced mem_cons_self hself
      fun body => { body with dirtyStart := 0, dirtyEnd := b.stop + n - b.start }
    have hadd : addAtStart raw m b n = some (m', raiseMax
        { b with data := p, start := 0, zeroAreaStart := b.zeroAreaStart + n - b.start,
                 zeroAreaEnd := b.zeroAreaEnd + n - b.start, stop := b.stop + n - b.start }) := by
      rw [addAtStart, hd, bind_some, if_neg hfree, hcall, bind_some]
      simp only [setDirty, hdirty, map_some]
    obtain ⟨hzs, hze, hstop⟩ := moved_parts n ⟨h₁, h₂, h₃⟩
    have hlt : n + (b.zeroAreaStart - b.start) + (b.zeroAreaEnd - b.zeroAreaStart) + (b.stop - b.zeroAreaEnd) < 2147483648 := by lia
    have hisz := getInternalSize_eq ⟨h₁, h₂, h₃⟩
    rw [hisz] at hload hnew
    obtain ⟨hfront, hback⟩ := load_parts hload
    refine ⟨m', _, _, load body.data 0 n, hadd, h.alone hbalanced' hnot (fun c hc => ?_) hself'
      (b.zeroAreaEnd - b.zeroAreaStart) ?_, contentAt_eq hv, length_load _ _ _, ?_, ?_⟩
    · have hne : c.data ≠ p := fun heq => hnot (heq ▸ mem_data hc)
      rw [hother' _ hne, hview c hc]
    · exact placed_moved rfl hzs hze hstop (by lia) hlt rfl hstop
    · refine (contentAt_eq (b := raiseMax
        { b with data := p, start := 0, zeroAreaStart := b.zeroAreaStart + n - b.start,
                 zeroAreaEnd := b.zeroAreaEnd + n - b.start, stop := b.stop + n - b.start }) hself').trans ?_
      rw [content_moved rfl hzs hze hstop, load_add, Nat.zero_add, hfront, hback, Nat.add_sub_cancel' h₁]
      rfl
    · intro c hc heq
      have hdata : c.data = p := heq
      exact absurd (hdata ▸ mem_data hc) hnot

theorem addAtEnd_spec (h : Inv m (b :: others)) {n : Nat} (hsize : b.getSize + n < 2147483648) :
    ∃ m' b' c fresh, addAtEnd raw m b n = some (m', b') ∧ Changed m b m' b' others ∧ contentAt m b = some c ∧
      fresh.length = n ∧ contentAt m' b' = some ⟨c.dataStart, c.zeroSize, c.dataEnd ++ fresh⟩ ∧
      (∀ c ∈ others, c.data = b'.data → ∀ x, b'.getInternalEnd - n ≤ x → x < b'.getInternalEnd → ¬ Inside c x) ∧
      (b'.data ∈ others.map (·.data) → b.data = b'.data ∧
        ∀ v, m.pool.view b.data = some v → b.getInternalEnd + n ≤ v.1 ∧ b.stop = v.2.dirtyEnd) := by
  obtain ⟨d, top, hd, hv, -, hcount, htop⟩ := h.owned mem_cons_self
  have hb := htop b mem_cons_self rfl
  obtain ⟨h₁, h₂, h₃, h₄, h₅, h₆, h₇, h₈⟩ := hb
  simp only at h₄ h₅ h₇
  have hpos : 0 < d.count := by
    rw [hcount]
    exact count_pos_iff.2 mem_cons_self
  simp only [getSize] at hsize
  by_cases hfree : b.getInternalEnd + n ≤ d.size ∧ ¬ (d.count > 1 ∧ b.stop < d.body.dirtyEnd)
  · obtain ⟨hn, hdirty⟩ := hfree
    have hmark : d.count = 1 ∨ b.stop = d.body.dirtyEnd := by lia
    -- a buffer at the mark counts as many zeroes as the mark does
    have hothers : ∀ c ∈ others, c.data = b.data → b.stop = d.body.dirtyEnd ∧ top = b.zeroAreaEnd - b.zeroAreaStart := by
      intro c hc heq
      rcases hmark with hone | hmark
      · exact absurd heq (sole hcount hone c hc)
      · exact ⟨hmark, by lia⟩
    obtain ⟨m', hcall, hbalanced, hself, hother⟩ := modify_spec (p := b.data) h.balanced mem_cons_self hv
      fun body => { body with dirtyStart := d.body.dirtyStart, dirtyEnd := b.stop + n }
    have hadd : addAtEnd raw m b n = some (m', raiseMax { b with stop := b.stop + n }) := by
      rw [addAtEnd, hd, bind_some, if_pos ⟨hn, hdirty⟩, if_pos hmark, setDirty, hcall]
      rfl
    have hends : ∀ c ∈ others, c.data = b.data → c.getInternalEnd ≤ b.getInternalEnd := by
      intro c hc heq
      obtain ⟨hend, hzeroes⟩ := hothers c hc heq
      have hreach := (htop c (mem_cons_of_mem _ hc) heq).reach
      simp only [getInternalEnd]
      simp only at hreach
      omega
    refine ⟨m', _, _, load d.body.data (b.zeroAreaStart + (b.stop - b.zeroAreaEnd)) n, hadd,
      h.grown rfl hv hbalanced hself hother (b.zeroAreaEnd - b.zeroAreaStart) ?_ ?_,
      contentAt_eq hv, length_load _ _ _, ?_, ?_, ?_⟩
    · simp only [getInternalEnd] at hn
      rintro c (rfl | ⟨hc, heq⟩)
      · exact ⟨h₁, h₂, by simp only [raiseMax]; lia, h₄, by simp only [raiseMax]; lia, le_refl _, le_refl _,
          by simp only [raiseMax]; lia⟩
      · obtain ⟨g₁, g₂, g₃, g₄, g₅, g₆, g₇, g₈⟩ := htop c (mem_cons_of_mem _ hc) heq
        obtain ⟨hend, hzeroes⟩ := hothers c hc heq
        simp only at g₇
        exact ⟨g₁, g₂, g₃, g₄, g₅, by lia, by simp only; lia, g₈⟩
    · intro c hc heq x hx hx'
      exact ⟨hx'.1, Nat.lt_of_lt_of_le hx.2 (hends c hc heq)⟩
    · refine (contentAt_eq (b := raiseMax { b with stop := b.stop + n }) hself).trans ?_
      have hsplit : b.stop + n - b.zeroAreaEnd = b.stop - b.zeroAreaEnd + n := by lia
      simp only [content, raiseMax, hsplit, load_add]
    · intro c hc heq x hx hlt hin
      have hle := hends c hc heq
      have hend := hin.2
      simp only [getInternalEnd, raiseMax] at hx hle hend
      lia
    · intro hin
      obtain ⟨c, hc, heq⟩ := List.mem_map.1 hin
      refine ⟨rfl, fun v hv' => ?_⟩
      rw [hv] at hv'
      cases hv'
      exact ⟨hn, (hothers c hc heq).1⟩
  · obtain ⟨m₁, p, size, body, v, hcall, hnot, -, hbalanced, hview, hnew, hself, hv', hload⟩ :=
      relocate_spec raw h (b.getInternalSize + n) 0 (by omega) (by simp only [getInternalSize]; omega)
    rw [hv] at hv'
    cases hv'
    obtain ⟨m', hdirty, hbalanced', hself', hother'⟩ := modify_spec (p := p) hbalanced mem_cons_self hself
      fun body => { body with dirtyStart := 0, dirtyEnd := b.stop - b.start + n }
    have hadd : addAtEnd raw m b n = some (m', raiseMax
        { b with data := p, start := 0, zeroAreaStart := b.zeroAreaStart - b.start,
                 zeroAreaEnd := b.zeroAreaEnd - b.start, stop := b.stop - b.start + n }) := by
      rw [addAtEnd, hd, bind_some, if_neg hfree, hcall, bind_some]
      simp only [setDirty, hdirty, map_some]
    obtain ⟨-, hze, hstop⟩ := moved_parts 0 ⟨h₁, h₂, h₃⟩
    rw [Nat.zero_add] at hze hstop
    have hstop' : b.stop - b.start + n = b.zeroAreaStart - b.start + (b.zeroAreaEnd - b.zeroAreaStart) + (b.stop - b.zeroAreaEnd + n) := by
      rw [← Nat.add_assoc, ← hstop, Nat.add_zero]
    have hlt : b.zeroAreaStart - b.start + (b.zeroAreaEnd - b.zeroAreaStart) + (b.stop - b.zeroAreaEnd + n) < 2147483648 := by omega
    have hisz := getInternalSize_eq ⟨h₁, h₂, h₃⟩
    rw [hisz] at hload hnew
    obtain ⟨hfront, hback⟩ := load_parts hload
    refine ⟨m', _, _, load body.data (b.zeroAreaStart - b.start + (b.stop - b.zeroAreaEnd)) n, hadd,
      h.alone hbalanced' hnot (fun c hc => ?_) hself' (b.zeroAreaEnd - b.zeroAreaStart) ?_, contentAt_eq hv,
      length_load _ _ _, ?_, ?_, fun hin => absurd hin hnot⟩
    · have hne : c.data ≠ p := fun heq => hnot (heq ▸ mem_data hc)
      rw [hother' _ hne, hview c hc]
    · exact placed_moved rfl (show _ = b.zeroAreaStart - b.start from rfl) hze hstop' (by omega) hlt rfl hstop'
    · refine (contentAt_eq (b := raiseMax
        { b with data := p, start := 0, zeroAreaStart := b.zeroAreaStart - b.start,
                 zeroAreaEnd := b.zeroAreaEnd - b.start, stop := b.stop - b.start + n }) hself').trans ?_
      rw [Nat.zero_add, Nat.add_sub_cancel' h₁] at hback
      have hmoved : content body (raiseMax
          { b with data := p, start := 0, zeroAreaStart := b.zeroAreaStart - b.start,
                   zeroAreaEnd := b.zeroAreaEnd - b.start, stop := b.stop - b.start + n }) =
            ⟨load body.data 0 (b.zeroAreaStart - b.start), b.zeroAreaEnd - b.zeroAreaStart,
             load body.data (b.zeroAreaStart - b.start) (b.stop - b.zeroAreaEnd + n)⟩ :=
        content_moved rfl rfl hze hstop'
      simp only [content, raiseMax] at hmoved ⊢
      rw [hmoved, load_add, hfront, hback]
    · intro c hc heq
      have hdata : c.data = p := heq
      exact absurd (hdata ▸ mem_data hc) hnot

end

end

end Buffer

end Ns3
