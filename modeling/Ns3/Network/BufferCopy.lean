import Ns3.Network.BufferSound

/-!
# Copies, removals and writes

What the remaining operations on a buffer do to memory and to its bytes.
-/

namespace Ns3

open BufferHeap List

namespace Buffer

section
variable {m : BufferHeap} {b o : Buffer} {others owners : List Buffer}

/-! ## Copies -/

theorem Inv.of_view {m' : BufferHeap} {owners' : List Buffer} (h : Inv m owners)
    (hbalanced : m'.pool.Balanced BlockSize (owners'.map (·.data)))
    (hview : ∀ c ∈ owners', m'.pool.view c.data = m.pool.view c.data)
    (hsub : ∀ c ∈ owners', ∃ c₀ ∈ owners, c₀.data = c.data ∧ ∀ v top, Placed v top c₀ → Placed v top c) : Inv m' owners' where
  balanced := hbalanced
  placed p v hp := by
    by_cases hmem : p ∈ owners'.map (·.data)
    · obtain ⟨c, hc, rfl⟩ := List.mem_map.1 hmem
      rw [hview c hc] at hp
      obtain ⟨top, htop⟩ := h.placed _ _ hp
      refine ⟨top, fun c' hc' hdata => ?_⟩
      obtain ⟨c₀, hc₀, heq, hplaced⟩ := hsub c' hc'
      exact hplaced v top (htop c₀ hc₀ (heq.trans hdata))
    · exact ⟨0, fun c hc hdata => absurd (hdata ▸ mem_data hc) hmem⟩

theorem contentAt_congr {m' : BufferHeap} (hview : m'.pool.view b.data = m.pool.view b.data) :
    contentAt m' b = contentAt m b := by
  rw [contentAt, contentAt, hview]

/-- A copy lies where its original does. -/
def copied (o : Buffer) : Buffer := { o with maxZeroAreaStart := o.zeroAreaStart }

variable {v : Nat × BufferData} {top : Nat} {b' : Buffer}

theorem placed_copied (h : Placed v top o) : Placed v top o.copied :=
  ⟨h.start_le, h.zero_le, h.stop_le, h.dirty, h.room, h.zeroes, h.reach, h.small⟩

theorem copy_spec (h : Inv m owners) (ho : o ∈ owners) :
    ∃ m', copy m o = some (m', o.copied) ∧ Inv m' (o.copied :: owners) ∧ ∀ q, m'.pool.view q = m.pool.view q := by
  obtain ⟨m', hcall, hbalanced, hview⟩ := retain_spec h.balanced (mem_data ho)
  refine ⟨m', by rw [copy, hcall]; rfl, h.of_view hbalanced (fun c _ => hview _) fun c hc => ?_, hview⟩
  rcases mem_cons.1 hc with rfl | hc
  · exact ⟨o, ho, rfl, fun v top => placed_copied⟩
  · exact ⟨c, hc, rfl, fun _ _ => id⟩

theorem assign_spec (h : Inv m (b :: others)) (ho : o ∈ b :: others) :
    ∃ m', assign m b o = some (m', o) ∧ Inv m' (o :: others) ∧ ∀ c ∈ o :: others, m'.pool.view c.data = m.pool.view c.data := by
  have hsub : ∀ c ∈ o :: others, ∃ c₀ ∈ b :: others, c₀.data = c.data ∧ ∀ v top, Placed v top c₀ → Placed v top c := by
    intro c hc
    rcases mem_cons.1 hc with rfl | hc
    · exact ⟨c, ho, rfl, fun _ _ => id⟩
    · exact ⟨c, mem_cons_of_mem _ hc, rfl, fun _ _ => id⟩
  by_cases heq : b.data = o.data
  · refine ⟨{ m with recommendedStart := max m.recommendedStart b.maxZeroAreaStart }, ?_, ?_, fun _ _ => rfl⟩
    · rw [assign, if_neg (not_not.2 heq)]
      rfl
    · refine h.of_view ?_ (fun _ _ => rfl) hsub
      have hbalanced := h.balanced
      rw [map_cons, heq] at hbalanced
      exact hbalanced
  · have ho' : o ∈ others := by
      rcases mem_cons.1 ho with rfl | ho
      · exact absurd rfl heq
      · exact ho
    obtain ⟨m₁, hrelease, hbalanced₁, hview₁⟩ := release_spec h.balanced
    obtain ⟨m₂, hretain, hbalanced₂, hview₂⟩ := retain_spec hbalanced₁ (mem_data ho')
    have hview : ∀ c ∈ o :: others, m₂.pool.view c.data = m.pool.view c.data := by
      intro c hc
      have hmem : c ∈ others := (mem_cons.1 hc).elim (fun heq => heq ▸ ho') id
      rw [hview₂, hview₁ _ (mem_data hmem)]
    refine ⟨{ m₂ with recommendedStart := max m₂.recommendedStart b.maxZeroAreaStart }, ?_, h.of_view hbalanced₂ hview hsub, hview⟩
    rw [assign, if_pos heq, hrelease, Option.bind_some, hretain]
    rfl

theorem destroy_spec (h : Inv m (b :: others)) :
    ∃ m', destroy m b = some m' ∧ Inv m' others ∧ ∀ c ∈ others, m'.pool.view c.data = m.pool.view c.data := by
  have hraised : Pool.Balanced BlockSize { m with recommendedStart := max m.recommendedStart b.maxZeroAreaStart }.pool
      (b.data :: others.map (·.data)) := h.balanced
  obtain ⟨m', hcall, hbalanced, hview⟩ := release_spec hraised
  refine ⟨m', hcall, h.of_view hbalanced (fun c hc => hview _ (mem_data hc)) fun c hc => ?_, fun c hc => hview _ (mem_data hc)⟩
  exact ⟨c, mem_cons_of_mem _ hc, rfl, fun _ _ => id⟩

theorem initialized_spec (raw : Nat → BufferData) (h : Inv m owners) {zeroSize : Nat} (hzero : zeroSize < 2147483648) :
    ∃ m' b, initialized raw m zeroSize = some (m', b) ∧ Inv m' (b :: owners) ∧ b.data ∉ owners.map (·.data) ∧
      (∀ c ∈ owners, m'.pool.view c.data = m.pool.view c.data) ∧ contentAt m' b = some ⟨[], zeroSize, []⟩ := by
  obtain ⟨m₁, p, size, body, hcreate, hnot, hbalanced₁, hview₁, -, hself₁⟩ :=
    create_spec raw h.balanced (n := 0) (by decide)
  obtain ⟨d, hd, hsize, -⟩ := block_of_view hself₁
  obtain ⟨m₂, hdirty, hbalanced₂, hself₂, hview₂⟩ := modify_spec (p := p) hbalanced₁ mem_cons_self hself₁
    fun body => { body with dirtyStart := min d.size m₁.recommendedStart, dirtyEnd := min d.size m₁.recommendedStart + zeroSize }
  have hcall : initialized raw m zeroSize = some (m₂, ⟨p, min d.size m₁.recommendedStart, min d.size m₁.recommendedStart,
      min d.size m₁.recommendedStart + zeroSize, min d.size m₁.recommendedStart, min d.size m₁.recommendedStart + zeroSize⟩) := by
    rw [initialized, hcreate, Option.bind_some]
    simp only [hd, Option.bind_some, setDirty, hdirty, Option.map_some]
  have hview : ∀ c ∈ owners, m₂.pool.view c.data = m.pool.view c.data := by
    intro c hc
    have hne : c.data ≠ p := fun heq => hnot (heq ▸ mem_data hc)
    rw [hview₂ _ hne, hview₁ _ (mem_data hc)]
  refine ⟨m₂, _, hcall, Inv.fresh h.placed hbalanced₂ hnot hview hself₂ zeroSize ?_, hnot, hview, ?_⟩
  · simp only at hsize
    exact ⟨le_refl _, by simp only; omega, le_refl _, le_refl _, by simp only; omega, by simp only; omega,
      by simp only; omega, by simp only; omega⟩
  · rw [contentAt, hself₂]
    simp only [Option.map_some, content, Nat.sub_self, Nat.add_sub_cancel_left, load]

/-! ## Removing bytes -/

theorem Inv.shrink (h : Inv m (b :: others)) (hdata : b'.data = b.data)
    (hplaced : ∀ v top, Placed v top b → Placed v top b') (hin : ∀ x, Inside b' x → Inside b x) : Changed m b m b' others where
  inv := by
    refine h.of_view ?_ (fun _ _ => rfl) fun c hc => ?_
    · rw [map_cons, hdata]
      exact h.balanced
    · rcases mem_cons.1 hc with rfl | hc
      · exact ⟨b, mem_cons_self, hdata.symm, hplaced⟩
      · exact ⟨c, mem_cons_of_mem _ hc, rfl, fun _ _ => id⟩
  same _ _ := rfl
  apart _ _ _ x _ hx := ⟨hdata.symm, hin x hx⟩
  joins _ := hdata.symm

theorem drop_bytes (d : BufferData) (b : Buffer) (n : Nat) : (b.content d).bytes.drop n =
    load d.data (b.start + n) (b.zeroAreaStart - b.start - n) ++
      List.replicate (b.zeroAreaEnd - b.zeroAreaStart - (n - (b.zeroAreaStart - b.start))) 0 ++
      load d.data (b.zeroAreaStart + (n - (b.zeroAreaStart - b.start) - (b.zeroAreaEnd - b.zeroAreaStart)))
        (b.stop - b.zeroAreaEnd - (n - (b.zeroAreaStart - b.start) - (b.zeroAreaEnd - b.zeroAreaStart))) := by
  simp [content, BufferContent.bytes, drop_append, drop_load]

theorem take_bytes (d : BufferData) (b : Buffer) (n : Nat) : (b.content d).bytes.take n =
    load d.data b.start (min n (b.zeroAreaStart - b.start)) ++
      List.replicate (min (n - (b.zeroAreaStart - b.start)) (b.zeroAreaEnd - b.zeroAreaStart)) 0 ++
      load d.data b.zeroAreaStart
        (min (n - (b.zeroAreaStart - b.start) - (b.zeroAreaEnd - b.zeroAreaStart)) (b.stop - b.zeroAreaEnd)) := by
  simp [content, BufferContent.bytes, take_append, take_load]

theorem parts_eq {f : Nat → UInt8} {a a' x x' z z' c c' y y' : Nat} (hx : x = x') (ha : x ≠ 0 → a = a') (hz : z = z')
    (hy : y = y') (hc : y ≠ 0 → c = c') :
    load f a x ++ List.replicate z 0 ++ load f c y = load f a' x' ++ List.replicate z' 0 ++ load f c' y' := by
  have hload : ∀ {a a' n : Nat}, (n ≠ 0 → a = a') → load f a n = load f a' n := by
    intro a a' n h
    by_cases hn : n = 0
    · rw [hn]
      rfl
    · rw [h hn]
  subst hx hz hy
  rw [hload ha, hload hc]

def Ordered (b : Buffer) : Prop := b.start ≤ b.zeroAreaStart ∧ b.zeroAreaStart ≤ b.zeroAreaEnd ∧ b.zeroAreaEnd ≤ b.stop

/-- A buffer that starts later, has no more zeroes and ends no later in its block. -/
structure Narrower (b b' : Buffer) : Prop where
  ordered : b'.Ordered
  start_le : b.start ≤ b'.start
  zeroes : b'.zeroAreaEnd - b'.zeroAreaStart ≤ b.zeroAreaEnd - b.zeroAreaStart
  internalEnd_le : b'.getInternalEnd ≤ b.getInternalEnd

theorem Narrower.inside (h : Narrower b b') {x : Nat} (hx : Inside b' x) : Inside b x :=
  ⟨h.start_le.trans hx.1, lt_of_lt_of_le hx.2 h.internalEnd_le⟩

theorem Placed.ordered (h : Placed v top b) : b.Ordered := ⟨h.start_le, h.zero_le, h.stop_le⟩

theorem Placed.narrow (h : Placed v top b) (hn : Narrower b b') : Placed v top b' := by
  obtain ⟨⟨g₁, g₂, g₃⟩, hstart, hzeroes, hend⟩ := hn
  obtain ⟨h₁, h₂, h₃, h₄, h₅, h₆, h₇, h₈⟩ := h
  simp only [getInternalEnd] at hend
  have hstop : b'.stop + (b.zeroAreaEnd - b.zeroAreaStart) ≤ b.stop + (b'.zeroAreaEnd - b'.zeroAreaStart) := by omega
  refine ⟨g₁, g₂, g₃, h₄.trans hstart, ?_, hzeroes.trans h₆, ?_, ?_⟩
  · omega
  · omega
  · omega

theorem narrower_removeAtStart (h : b.Ordered) (n : Nat) : Narrower b (b.removeAtStart n) := by
  obtain ⟨h₁, h₂, h₃⟩ := h
  unfold removeAtStart
  by_cases hfront : b.start + n ≤ b.zeroAreaStart
  · simp only [if_pos hfront, raiseMax]
    exact ⟨⟨hfront, h₂, h₃⟩, Nat.le_add_right _ _, le_refl _, le_refl _⟩
  · rw [if_neg hfront]
    by_cases hzero : b.start + n ≤ b.zeroAreaEnd
    · have hdelta : b.start + n - b.zeroAreaStart ≤ b.zeroAreaEnd - b.zeroAreaStart := by omega
      simp only [if_pos hzero, raiseMax]
      generalize b.start + n - b.zeroAreaStart = delta at hdelta
      refine ⟨⟨le_refl _, ?_, Nat.sub_le_sub_right h₃ _⟩, h₁, Nat.sub_le_sub_right (Nat.sub_le ..) _, ?_⟩
      · simp only
        omega
      · simp only [getInternalEnd]
        omega
    · rw [if_neg hzero]
      by_cases hback : b.start + n ≤ b.stop
      · simp only [if_pos hback, raiseMax]
        refine ⟨⟨le_refl _, le_refl _, Nat.sub_le_sub_right hback _⟩, ?_, ?_, ?_⟩
        · simp only
          omega
        · simp only [Nat.sub_self, Nat.zero_le]
        · simp only [getInternalEnd, Nat.sub_self, Nat.sub_zero, le_refl]
      · simp only [if_neg hback, raiseMax]
        refine ⟨⟨le_refl _, le_refl _, le_refl _⟩, ?_, ?_, ?_⟩
        · simp only
          omega
        · simp only [Nat.sub_self, Nat.zero_le]
        · simp only [getInternalEnd, Nat.sub_self, Nat.sub_zero, le_refl]

theorem bytes_removeAtStart (h : b.Ordered) (n : Nat) (d : BufferData) :
    ((b.removeAtStart n).content d).bytes = (b.content d).bytes.drop n := by
  obtain ⟨h₁, h₂, h₃⟩ := h
  rw [drop_bytes]
  unfold removeAtStart
  by_cases hfront : b.start + n ≤ b.zeroAreaStart
  · simp only [if_pos hfront, raiseMax, content, BufferContent.bytes]
    exact parts_eq (by omega) (by omega) (by omega) (by omega) (by omega)
  · rw [if_neg hfront]
    by_cases hzero : b.start + n ≤ b.zeroAreaEnd
    · simp only [if_pos hzero, raiseMax, content, BufferContent.bytes]
      exact parts_eq (by lia) (by lia) (by lia) (by lia) (by lia)
    · rw [if_neg hzero]
      by_cases hback : b.start + n ≤ b.stop
      · simp only [if_pos hback, raiseMax, content, BufferContent.bytes]
        exact parts_eq (by lia) (by lia) (by lia) (by lia) (by lia)
      · simp only [if_neg hback, raiseMax, content, BufferContent.bytes]
        exact parts_eq (by omega) (by omega) (by omega) (by omega) (by omega)

theorem removeAtStart_spec (h : Placed v top b) (n : Nat) :
    Placed v top (b.removeAtStart n) ∧ (∀ x, Inside (b.removeAtStart n) x → Inside b x) ∧
      ∀ d, ((b.removeAtStart n).content d).bytes = (b.content d).bytes.drop n := by
  have hn := narrower_removeAtStart h.ordered n
  exact ⟨h.narrow hn, fun _ => hn.inside, bytes_removeAtStart h.ordered n⟩

theorem removeAtEnd_eq (h : b.Ordered) (n : Nat) : ∃ newEnd, b.start ≤ newEnd ∧ newEnd ≤ b.stop ∧
    newEnd - b.start = b.getSize - n ∧ b.removeAtEnd n = raiseMax { b with
      stop := newEnd, zeroAreaEnd := min b.zeroAreaEnd newEnd, zeroAreaStart := min b.zeroAreaStart newEnd } := by
  obtain ⟨h₁, h₂, h₃⟩ := h
  have hnew : b.start ≤ b.stop - min n (b.stop - b.start) ∧ b.stop - min n (b.stop - b.start) - b.start = b.getSize - n := by
    rw [getSize]
    lia
  refine ⟨b.stop - min n (b.stop - b.start), hnew.1, Nat.sub_le .., hnew.2, ?_⟩
  unfold removeAtEnd
  generalize b.stop - min n (b.stop - b.start) = newEnd at hnew
  dsimp only
  split
  · rename_i hback
    rw [min_eq_left hback.le, min_eq_left (h₂.trans hback.le)]
  · rename_i hback
    rw [min_eq_right (not_lt.mp hback)]
    split
    · rename_i hzero
      rw [min_eq_left hzero.le]
    · rename_i hzero
      rw [min_eq_right (not_lt.mp hzero)]
      split
      · rfl
      · rename_i hfront
        rw [le_antisymm (not_lt.mp hfront) hnew.1]

theorem bytes_removeAtEnd (h : b.Ordered) (n : Nat) (d : BufferData) :
    ((b.removeAtEnd n).content d).bytes = (b.content d).bytes.take (b.getSize - n) := by
  obtain ⟨newEnd, hle, hstop, hsize, heq⟩ := removeAtEnd_eq h n
  obtain ⟨h₁, h₂, h₃⟩ := h
  rw [heq, take_bytes, ← hsize]
  simp only [raiseMax, content, BufferContent.bytes]
  clear heq hsize
  by_cases hfront : newEnd ≤ b.zeroAreaStart
  · rw [min_eq_right hfront, min_eq_right (hfront.trans h₂)]
    exact parts_eq (by lia) (by lia) (by lia) (by lia) (by lia)
  · rw [min_eq_left (not_le.mp hfront).le]
    by_cases hzero : newEnd ≤ b.zeroAreaEnd
    · rw [min_eq_right hzero]
      exact parts_eq (by lia) (by lia) (by lia) (by lia) (by lia)
    · rw [min_eq_left (not_le.mp hzero).le]
      exact parts_eq (by lia) (by lia) (by lia) (by lia) (by lia)

theorem removeAtEnd_spec (h : Placed v top b) (n : Nat) :
    Placed v top (b.removeAtEnd n) ∧ (∀ x, Inside (b.removeAtEnd n) x → Inside b x) ∧
      ∀ d, ((b.removeAtEnd n).content d).bytes = (b.content d).bytes.take (b.getSize - n) := by
  obtain ⟨newEnd, hle, hstop, hsize, heq⟩ := removeAtEnd_eq h.ordered n
  obtain ⟨h₁, h₂, h₃⟩ := h.ordered
  have hn : Narrower b (b.removeAtEnd n) := by
    rw [heq]
    have hmin : min b.zeroAreaStart newEnd ≤ min b.zeroAreaEnd newEnd := by omega
    refine ⟨⟨le_min h₁ hle, hmin, min_le_right ..⟩, le_refl _, ?_, ?_⟩
    · simp only [raiseMax]
      omega
    · simp only [raiseMax, getInternalEnd]
      omega
  exact ⟨h.narrow hn, fun _ => hn.inside, bytes_removeAtEnd h.ordered n⟩

end

end Buffer

end Ns3
