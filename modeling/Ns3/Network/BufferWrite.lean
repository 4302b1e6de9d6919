import Ns3.Network.BufferCopy

/-!
# Writing and appending

Bytes are written in front of the zero area or behind it, where no other owner
of the block stores any. From this follows what a full copy holds and what it
is to append a buffer.
-/

namespace Ns3

open BufferHeap BufferContent List

namespace Buffer

section
variable {m : BufferHeap} {b o : Buffer} {others owners : List Buffer} {c : BufferContent}

theorem length_contentAt (hc : contentAt m b = some c) : c.dataStart.length = b.zeroAreaStart - b.start ∧
    c.zeroSize = b.zeroAreaEnd - b.zeroAreaStart ∧ c.dataEnd.length = b.stop - b.zeroAreaEnd := by
  obtain ⟨v, -, rfl⟩ := Option.map_eq_some_iff.1 hc
  exact ⟨length_load _ _ _, rfl, length_load _ _ _⟩

theorem Inv.contentAt (h : Inv m owners) (hb : b ∈ owners) : ∃ c, contentAt m b = some c ∧ c.bytes.length = b.getSize := by
  obtain ⟨d, top, -, hv, -, -, htop⟩ := h.owned hb
  exact ⟨_, contentAt_eq hv, length_bytes (htop b hb rfl) _⟩

theorem Inv.offsets (h : Inv m owners) (hb : b ∈ owners) :
    b.start ≤ b.zeroAreaStart ∧ b.zeroAreaStart ≤ b.zeroAreaEnd ∧ b.zeroAreaEnd ≤ b.stop := by
  obtain ⟨d, top, -, -, -, -, htop⟩ := h.owned hb
  have hplaced := htop b hb rfl
  exact ⟨hplaced.start_le, hplaced.zero_le, hplaced.stop_le⟩

/-! ## Iterators -/

def iterAt (b : Buffer) (current : Nat) : Iterator := ⟨b.zeroAreaStart, b.zeroAreaEnd, b.start, b.stop, current, b.data⟩

theorem target_front {current : Nat} (h : current ≤ b.zeroAreaStart) : (b.iterAt current).target = current := if_pos h

theorem target_back {current : Nat} (hle : b.zeroAreaStart ≤ b.zeroAreaEnd) (h : b.zeroAreaEnd ≤ current) :
    (b.iterAt current).target = b.zeroAreaStart + (current - b.zeroAreaEnd) := by
  by_cases hzero : current ≤ b.zeroAreaStart
  · rw [target_front hzero]
    omega
  · refine (if_neg hzero).trans ?_
    simp only [iterAt]
    omega

theorem checkNoZero_iff {current start stop : Nat} : (b.iterAt current).checkNoZero start stop = true ↔
    b.start ≤ start ∧ stop ≤ b.stop ∧
      (stop ≤ b.zeroAreaStart ∨ b.zeroAreaEnd ≤ start ∨ b.zeroAreaEnd = b.zeroAreaStart ∨ start = stop) := by
  show (!(decide (start < b.start) || decide (stop > b.stop) || (decide (stop > b.zeroAreaStart) &&
    decide (start < b.zeroAreaEnd) && b.zeroAreaEnd != b.zeroAreaStart && start != stop))) = true ↔ _
  simp only [Bool.not_eq_true', Bool.or_eq_false_iff, Bool.and_eq_false_iff, decide_eq_false_iff_not,
    bne_eq_false_iff_eq, Nat.not_lt, and_assoc, or_assoc, gt_iff_lt]

/-! ## Bytes written -/

/-- No other owner stores a byte there. -/
def Apart (b : Buffer) (others : List Buffer) (a n : Nat) : Prop :=
  ∀ c ∈ others, c.data = b.data → ∀ x, a ≤ x → x < a + n → ¬ Inside c x

theorem poke_front (h : Inv m (b :: others)) (hc : contentAt m b = some c) (offset : Nat) (bs : Bytes)
    (hin : offset + bs.length ≤ b.zeroAreaStart - b.start) (hapart : Apart b others (b.start + offset) bs.length) :
    ∃ m', m.poke b.data (b.start + offset) bs = some m' ∧ Changed m b m' b others ∧
      contentAt m' b = some ⟨splice c.dataStart offset bs, c.zeroSize, c.dataEnd⟩ := by
  obtain ⟨h₁, h₂, h₃⟩ := h.offsets mem_cons_self
  obtain ⟨m', v, hcall, hchanged, hv, hself, -⟩ := poke_spec h _ bs (.inr (by simp only [getInternalEnd]; omega)) hapart
  refine ⟨m', hcall, hchanged, ?_⟩
  cases (contentAt_eq hv).symm.trans hc
  rw [contentAt_eq hself]
  simp only [content, load_patch_inside hin]
  rw [load_patch_outside (.inr (by omega))]

theorem poke_back (h : Inv m (b :: others)) (hc : contentAt m b = some c) (offset : Nat) (bs : Bytes)
    (hin : offset + bs.length ≤ b.stop - b.zeroAreaEnd) (hapart : Apart b others (b.zeroAreaStart + offset) bs.length) :
    ∃ m', m.poke b.data (b.zeroAreaStart + offset) bs = some m' ∧ Changed m b m' b others ∧
      contentAt m' b = some ⟨c.dataStart, c.zeroSize, splice c.dataEnd offset bs⟩ := by
  obtain ⟨h₁, h₂, h₃⟩ := h.offsets mem_cons_self
  obtain ⟨m', v, hcall, hchanged, hv, hself, -⟩ := poke_spec h _ bs (.inr (by simp only [getInternalEnd]; omega)) hapart
  refine ⟨m', hcall, hchanged, ?_⟩
  cases (contentAt_eq hv).symm.trans hc
  rw [contentAt_eq hself]
  simp only [content, load_patch_inside hin]
  rw [load_patch_outside (.inl (by omega))]

/-- Written where no other owner stores, it changes no other owner's bytes. -/
theorem write_spec (h : Inv m (b :: others)) (hc : contentAt m b = some c) {offset : Nat} {bs : Bytes}
    (hin : offset + bs.length ≤ b.zeroAreaStart - b.start ∨ b.zeroAreaEnd ≤ b.start + offset ∧ b.start + offset + bs.length ≤ b.stop)
    (hapart : Apart b others (b.iterAt (b.start + offset)).target bs.length) :
    ∃ m' c', b.begin.next offset = some (b.iterAt (b.start + offset)) ∧
      (b.iterAt (b.start + offset)).write m bs = some m' ∧ Changed m b m' b others ∧ contentAt m' b = some c' ∧
      c'.bytes = splice c.bytes offset bs := by
  obtain ⟨h₁, h₂, h₃⟩ := h.offsets mem_cons_self
  obtain ⟨hfront, hzero, hback⟩ := length_contentAt hc
  have hnext : b.begin.next offset = some (b.iterAt (b.start + offset)) := by
    simp only [begin, Iterator.next, iterAt]
    exact if_pos (by omega)
  have hcheck : (b.iterAt (b.start + offset)).checkNoZero (b.start + offset) bs.length = true :=
    checkNoZero_iff.2 ⟨Nat.le_add_right _ _, by omega, by omega⟩
  rcases hin with hin | hin
  · rw [target_front (by omega)] at hapart
    obtain ⟨m', hcall, hchanged, hself⟩ := poke_front h hc offset bs hin hapart
    refine ⟨m', _, hnext, ?_, hchanged, hself, ?_⟩
    · exact (if_pos hcheck).trans (by rw [target_front (by omega)]; exact hcall)
    · rw [bytes, bytes, append_assoc, append_assoc, splice_append_left (by omega)]
  · rw [target_back h₂ hin.1] at hapart
    obtain ⟨m', hcall, hchanged, hself⟩ := poke_back h hc _ bs (by omega) hapart
    refine ⟨m', _, hnext, ?_, hchanged, hself, ?_⟩
    · exact (if_pos hcheck).trans (by rw [target_back h₂ hin.1]; exact hcall)
    · have hoffset : offset = (c.dataStart ++ replicate c.zeroSize 0).length + (b.start + offset - b.zeroAreaEnd) := by
        rw [length_append, length_replicate, hfront, hzero]
        omega
      rw [bytes, bytes]
      conv_rhs => rw [hoffset]
      rw [splice_append_right]

theorem peek_front (h : Inv m owners) (hb : b ∈ owners) (hc : contentAt m b = some c) :
    m.peek b.data b.start (b.zeroAreaStart - b.start) = some c.dataStart := by
  obtain ⟨d, top, -, hv, -, -, htop⟩ := h.owned hb
  have hroom := (htop b hb rfl).room
  obtain ⟨h₁, h₂, h₃⟩ := h.offsets hb
  cases (contentAt_eq hv).symm.trans hc
  exact peek_spec hv (.inr (by simp only at hroom ⊢; omega))

theorem peek_back (h : Inv m owners) (hb : b ∈ owners) (hc : contentAt m b = some c) :
    m.peek b.data b.zeroAreaStart (b.stop - b.zeroAreaEnd) = some c.dataEnd := by
  obtain ⟨d, top, -, hv, -, -, htop⟩ := h.owned hb
  have hroom := (htop b hb rfl).room
  obtain ⟨h₁, h₂, h₃⟩ := h.offsets hb
  cases (contentAt_eq hv).symm.trans hc
  exact peek_spec hv (.inr (by simp only at hroom ⊢; lia))

/-! ## Bytes added and written at once -/

section
variable (raw : Nat → BufferData)

theorem prepend_spec (h : Inv m (b :: others)) (hc : contentAt m b = some c) (bs : Bytes)
    (hsize : b.getSize + bs.length < 2147483648) :
    ∃ m₁ b' m₂, addAtStart raw m b bs.length = some (m₁, b') ∧ Changed m b m₁ b' others ∧ b'.begin.write m₁ bs = some m₂ ∧
      (∀ x, bs = List.replicate bs.length x → b'.begin.writeU8 m₁ x bs.length = some m₂) ∧ Changed m b m₂ b' others ∧
      contentAt m₂ b' = some ⟨bs ++ c.dataStart, c.zeroSize, c.dataEnd⟩ := by
  obtain ⟨m₁, b', c', fresh, hcall, hchanged, hc', hfresh, hcontent, hapart⟩ := addAtStart_spec raw h hsize
  cases hc'.symm.trans hc
  have hfront := (length_contentAt hcontent).1
  rw [length_append, hfresh] at hfront
  obtain ⟨h₁, h₂, h₃⟩ := hchanged.inv.offsets mem_cons_self
  obtain ⟨m₂, hpoke, hwritten, hresult⟩ := poke_front hchanged.inv hcontent 0 bs (by omega) hapart
  have htarget : b'.begin.target = b'.start := target_front h₁
  refine ⟨m₁, b', m₂, hcall, hchanged, ?_, fun x hx => ?_, hchanged.trans hwritten, ?_⟩
  · have hcheck : b'.begin.checkNoZero b'.begin.current bs.length = true :=
      checkNoZero_iff.2 ⟨le_refl _, by omega, by omega⟩
    refine (if_pos hcheck).trans ?_
    rw [htarget]
    exact hpoke
  · have hcheck : b'.begin.checkNoZero b'.begin.current (b'.begin.current + bs.length) = true :=
      checkNoZero_iff.2 ⟨le_refl _, by simp only [begin]; omega, by simp only [begin]; omega⟩
    refine (if_pos hcheck).trans ?_
    rw [htarget, ← hx]
    exact hpoke
  · rw [hresult, splice, take_zero, Nat.zero_add, drop_left' hfresh, nil_append]

theorem append_spec (h : Inv m (b :: others)) (hc : contentAt m b = some c) (bs : Bytes)
    (hsize : b.getSize + bs.length < 2147483648) :
    ∃ m₁ b' it m₂, addAtEnd raw m b bs.length = some (m₁, b') ∧ Changed m b m₁ b' others ∧
      b'.iterEnd.prev bs.length = some it ∧ it.write m₁ bs = some m₂ ∧ Changed m b m₂ b' others ∧
      contentAt m₂ b' = some ⟨c.dataStart, c.zeroSize, c.dataEnd ++ bs⟩ := by
  obtain ⟨m₁, b', c', fresh, hcall, hchanged, hc', hfresh, hcontent, hapart, -⟩ := addAtEnd_spec raw h hsize
  obtain rfl := Option.some.inj (hc'.symm.trans hc)
  have hback := (length_contentAt hcontent).2.2
  rw [length_append, hfresh] at hback
  obtain ⟨h₁, h₂, h₃⟩ := hchanged.inv.offsets mem_cons_self
  have hprev : b'.iterEnd.prev bs.length = some (b'.iterAt (b'.stop - bs.length)) := if_pos (by simp only [iterEnd]; omega)
  have htarget : (b'.iterAt (b'.stop - bs.length)).target = b'.zeroAreaStart + c'.dataEnd.length := by
    rw [target_back h₂ (by omega)]
    omega
  have hregion : Apart b' others (b'.zeroAreaStart + c'.dataEnd.length) bs.length := by
    intro e he hdata x hx hlt
    exact hapart e he hdata x (by simp only [getInternalEnd]; omega) (by simp only [getInternalEnd]; omega)
  obtain ⟨m₂, hpoke, hwritten, hresult⟩ := poke_back hchanged.inv hcontent _ bs (by omega) hregion
  have hcheck : (b'.iterAt (b'.stop - bs.length)).checkNoZero (b'.stop - bs.length) bs.length = true :=
    checkNoZero_iff.2 ⟨by omega, by omega, by omega⟩
  refine ⟨m₁, b', _, m₂, hcall, hchanged, hprev, ?_, hchanged.trans hwritten, ?_⟩
  · refine (if_pos hcheck).trans ?_
    rw [htarget]
    exact hpoke
  · rw [hresult, splice, take_left, drop_of_length_le (by simp [hfresh]), append_nil]

/-! ## Full copies -/

theorem createFullCopy_spec (h : Inv m (b :: others)) (hc : contentAt m b = some c) :
    ∃ m' tmp c', createFullCopy raw m b = some (m', tmp) ∧ Inv m' (tmp :: b :: others) ∧
      (∀ e ∈ b :: others, contentAt m' e = contentAt m e) ∧ contentAt m' tmp = some c' ∧ c'.zeroSize = 0 ∧
      c'.bytes = c.bytes ∧
      (tmp = b.copied ∧ b.zeroAreaEnd - b.zeroAreaStart = 0 ∧ (∀ q, m'.pool.view q = m.pool.view q) ∨
        tmp.data ∉ (b :: others).map (·.data)) := by
  obtain ⟨hfront, hzero, hback⟩ := length_contentAt hc
  obtain ⟨h₁, h₂, h₃⟩ := h.offsets mem_cons_self
  obtain ⟨d, top, -, hv, -, -, htop⟩ := h.owned mem_cons_self
  have hsmall := (htop b mem_cons_self rfl).small
  by_cases hnone : b.zeroAreaEnd - b.zeroAreaStart = 0
  · obtain ⟨m', hcall, hinv, hview⟩ := copy_spec h mem_cons_self
    refine ⟨m', b.copied, c, by rw [createFullCopy, if_neg (not_not.2 hnone), hcall], hinv,
      fun e _ => contentAt_congr (hview _), ?_, by omega, rfl, .inl ⟨rfl, hnone, hview⟩⟩
    rw [← hc]
    exact contentAt_congr (b := b) (hview _)
  · obtain ⟨m₁, t₀, hinit, hinv₁, hnot₁, hview₁, hc₁⟩ := initialized_spec raw h (Nat.zero_lt_succ 2147483647)
    have hs₀ := hinv₁.contentAt mem_cons_self
    obtain ⟨e₀, he₀, hlen₀⟩ := hs₀
    cases he₀.symm.trans hc₁
    obtain ⟨m₂, t₁, m₃, hadd₁, -, -, hfill, hch₁, hc₂⟩ := prepend_spec raw hinv₁ hc₁
      (replicate (b.zeroAreaEnd - b.zeroAreaStart) 0) (by
        rw [← hlen₀, length_replicate]
        simp only [bytes, length_nil, length_append, length_replicate]
        omega)
    rw [length_replicate] at hadd₁ hfill
    obtain ⟨e₁, he₁, hlen₁⟩ := hch₁.inv.contentAt mem_cons_self
    cases he₁.symm.trans hc₂
    obtain ⟨m₄, t₂, m₅, hadd₂, hch₂', hwrite₂, -, hch₂, hc₃⟩ := prepend_spec raw hch₁.inv hc₂ c.dataStart (by
      rw [← hlen₁, hfront]
      simp only [bytes, length_nil, length_append, length_replicate]
      omega)
    obtain ⟨e₂, he₂, hlen₂⟩ := hch₂.inv.contentAt mem_cons_self
    cases he₂.symm.trans hc₃
    obtain ⟨m₆, t₃, it, m₇, hadd₃, hch₃', hprev, hwrite₃, hch₃, hc₄⟩ := append_spec raw hch₂.inv hc₃ c.dataEnd (by
      rw [← hlen₂, hback]
      simp only [bytes, length_nil, length_append, length_replicate]
      omega)
    -- what is read from the old buffer is what it held at the beginning
    have hsame₁ : ∀ e ∈ b :: others, contentAt m₁ e = contentAt m e := fun e he => contentAt_congr (hview₁ e he)
    have hsame₄ : contentAt m₄ b = some c :=
      (hch₂'.same b mem_cons_self).trans ((hch₁.same b mem_cons_self).trans ((hsame₁ b mem_cons_self).trans hc))
    have hsame₆ : contentAt m₆ b = some c := by
      rw [hch₃'.same b mem_cons_self, hch₂.same b mem_cons_self, hch₁.same b mem_cons_self, hsame₁ b mem_cons_self, hc]
    have hpeek₁ := peek_front hch₂'.inv (mem_cons_of_mem _ mem_cons_self) hsame₄
    have hpeek₂ := peek_back hch₃'.inv (mem_cons_of_mem _ mem_cons_self) hsame₆
    rw [hfront] at hadd₂
    rw [hback] at hadd₃ hprev
    have hcall : createFullCopy raw m b = some (m₇, t₃) := by
      rw [createFullCopy, if_pos hnone, hinit, Option.bind_some]
      simp only [hadd₁, hfill 0 rfl, hadd₂, hpeek₁, hwrite₂, hadd₃, hprev, hpeek₂, hwrite₃, Option.bind_some, Option.map_some]
    have hchange := (hch₁.trans hch₂).trans hch₃
    refine ⟨m₇, t₃, _, hcall, hchange.inv, fun e he => (hchange.same e he).trans (hsame₁ e he), hc₄, rfl, ?_, .inr ?_⟩
    · simp only [bytes, hzero, replicate_zero, append_nil, nil_append]
    · intro hin
      exact hnot₁ ((hchange.joins hin) ▸ hin)

end

/-! ## A buffer appended -/

theorem poke_three (h : Inv m (b :: others)) {x y z : Bytes} {a : Nat}
    (hhigh : (x ++ (y ++ z)).length = 0 ∨ a + (x ++ (y ++ z)).length ≤ b.getInternalEnd)
    (hapart : Apart b others a (x ++ (y ++ z)).length) :
    ∃ m₁ m₂ m₃ v, m.poke b.data a x = some m₁ ∧ m₁.poke b.data (a + x.length) y = some m₂ ∧
      m₂.poke b.data (a + x.length + y.length) z = some m₃ ∧ Changed m b m₂ b others ∧ Changed m b m₃ b others ∧
      m.pool.view b.data = some v ∧
      m₃.pool.view b.data = some (v.1, { v.2 with data := patch v.2.data a (x ++ (y ++ z)) }) ∧
      ∀ q, q ≠ b.data → m₂.pool.view q = m.pool.view q := by
  simp only [length_append] at hhigh hapart
  obtain ⟨m₁, v, hcall₁, hch₁, hv, hself₁, hother₁⟩ := poke_spec h a x (by omega)
    fun e he hdata w hw hlt => hapart e he hdata w hw (by omega)
  obtain ⟨m₂, v₁, hcall₂, hch₂, hv₁, hself₂, hother₂⟩ := poke_spec hch₁.inv (a + x.length) y (by omega)
    fun e he hdata w hw hlt => hapart e he hdata w (by omega) (by omega)
  obtain ⟨m₃, v₂, hcall₃, hch₃, hv₂, hself₃, -⟩ := poke_spec hch₂.inv (a + x.length + y.length) z (by omega)
    fun e he hdata w hw hlt => hapart e he hdata w (by omega) (by omega)
  cases hself₁.symm.trans hv₁
  cases hself₂.symm.trans hv₂
  refine ⟨m₁, m₂, m₃, v, hcall₁, hcall₂, hcall₃, hch₁.trans hch₂, (hch₁.trans hch₂).trans hch₃, hv, ?_,
    fun q hq => (hother₂ q hq).trans (hother₁ q hq)⟩
  rw [hself₃]
  simp only [patch_append]
  rw [Nat.add_assoc, ← length_append, patch_append, append_assoc]

theorem min_parts {start zeroStart zeroEnd stop : Nat} (h₁ : start ≤ zeroStart) (h₂ : zeroStart ≤ zeroEnd)
    (h₃ : zeroEnd ≤ stop) : min (stop - start) (zeroStart - start) = zeroStart - start ∧
      min (stop - start - (zeroStart - start)) (zeroEnd - zeroStart) = zeroEnd - zeroStart ∧
      min (stop - start - (zeroStart - start) - (zeroEnd - zeroStart)) (stop - zeroEnd) = stop - zeroEnd := by
  omega

theorem writeFrom_whole {m₁ m₂ m₃ : BufferHeap} {x : Nat} {front back : Bytes}
    (ho : o.start ≤ o.zeroAreaStart ∧ o.zeroAreaStart ≤ o.zeroAreaEnd ∧ o.zeroAreaEnd ≤ o.stop) (hne : b.data ≠ o.data)
    (hcheck : (b.iterAt x).checkNoZero x (x + o.getSize) = true)
    (hpeek₁ : m.peek o.data o.start (o.zeroAreaStart - o.start) = some front) (hpoke₁ : m.poke b.data x front = some m₁)
    (hpoke₂ : m₁.poke b.data (x + (o.zeroAreaStart - o.start)) (List.replicate (o.zeroAreaEnd - o.zeroAreaStart) 0) = some m₂)
    (hpeek₂ : m₂.peek o.data o.zeroAreaStart (o.stop - o.zeroAreaEnd) = some back)
    (hpoke₃ : m₂.poke b.data (x + (o.zeroAreaStart - o.start) + (o.zeroAreaEnd - o.zeroAreaStart)) back = some m₃) :
    (b.iterAt x).writeFrom m o.begin o.iterEnd = some m₃ := by
  obtain ⟨g₁, g₂, g₃⟩ := ho
  obtain ⟨hn₁, hn₂, hn₃⟩ := min_parts g₁ g₂ g₃
  have hle : o.start ≤ o.stop := g₁.trans (g₂.trans g₃)
  unfold Iterator.writeFrom
  rw [if_pos ⟨rfl, hle, rfl, rfl, hne, hcheck⟩]
  simp only [begin, iterEnd, if_pos g₁, hn₁, Nat.add_sub_cancel' g₁, if_pos g₂, hn₂, Nat.add_sub_cancel' g₂, hn₃,
    Nat.sub_sub_self g₂, hpeek₁, Option.bind_some]
  simp only [iterAt, hpoke₁, hpoke₂, hpeek₂, hpoke₃, Option.bind_some]

theorem length_pieces (h : Inv m owners) (ho : o ∈ owners) {co : BufferContent} (hco : contentAt m o = some co) :
    (co.dataStart ++ (List.replicate (o.zeroAreaEnd - o.zeroAreaStart) 0 ++ co.dataEnd)).length = o.getSize := by
  obtain ⟨h₁, h₂, h₃⟩ := h.offsets ho
  obtain ⟨ofront, -, oback⟩ := length_contentAt hco
  rw [length_append, length_append, length_replicate, ofront, oback]
  simp only [getSize]
  omega

theorem content_patched {body : BufferData} {old fresh new : Bytes} {size : Nat}
    (hb : b.zeroAreaStart = b.zeroAreaEnd ∧ b.zeroAreaEnd ≤ b.stop) (hold : (content body b).dataEnd = old ++ fresh)
    (hfresh : fresh.length = size) (hnew : new.length = size) (hstart : b.start ≤ b.zeroAreaStart) :
    content { body with data := patch body.data (b.stop - size) new } b =
      ⟨(content body b).dataStart, (content body b).zeroSize, old ++ new⟩ := by
  have hlen : old.length + size = b.stop - b.zeroAreaEnd := by
    rw [← hfresh, ← length_append, ← hold]
    exact length_load _ _ _
  have hat : b.stop - size = b.zeroAreaStart + old.length := by lia
  simp only [content] at hold ⊢
  rw [hat, load_patch_outside (.inl (by omega)), load_patch_inside (by omega), hold, splice, take_left,
    drop_of_length_le (by rw [hnew, length_append, hfresh]), append_nil]

theorem writeFrom_spec (h : Inv m (b :: others)) (ho : o ∈ others) (hne : b.data ≠ o.data) (hc : contentAt m b = some c)
    {co : BufferContent} (hco : contentAt m o = some co) {old fresh : Bytes} (hold : c.dataEnd = old ++ fresh)
    (hfresh : fresh.length = o.getSize) (hzero : c.zeroSize = 0)
    (hapart : Apart b others (b.getInternalEnd - o.getSize) o.getSize) :
    ∃ it m', b.iterEnd.prev o.getSize = some it ∧ it.writeFrom m o.begin o.iterEnd = some m' ∧ Changed m b m' b others ∧
      contentAt m' b = some ⟨c.dataStart, c.zeroSize, old ++ co.bytes⟩ := by
  obtain ⟨h₁, h₂, h₃⟩ := h.offsets mem_cons_self
  have hin := mem_cons_of_mem b ho
  have hoffsets := h.offsets hin
  have hsize := length_pieces h hin hco
  obtain ⟨-, hnone, hbackLen⟩ := length_contentAt hc
  obtain ⟨ofront, ozero, -⟩ := length_contentAt hco
  rw [hold, length_append, hfresh] at hbackLen
  have hnone' : b.zeroAreaEnd - b.zeroAreaStart = 0 := hnone.symm.trans hzero
  have hend : b.getInternalEnd = b.stop := by rw [getInternalEnd, hnone', Nat.sub_zero]
  have hle : o.getSize ≤ b.stop := by omega
  have hlast : b.zeroAreaEnd ≤ b.stop - o.getSize := by omega
  rw [hend, ← hsize] at hapart
  have hroom : b.stop - (co.dataStart ++ (replicate (o.zeroAreaEnd - o.zeroAreaStart) 0 ++ co.dataEnd)).length +
      (co.dataStart ++ (replicate (o.zeroAreaEnd - o.zeroAreaStart) 0 ++ co.dataEnd)).length ≤ b.getInternalEnd := by
    rw [hsize, hend, Nat.sub_add_cancel hle]
  obtain ⟨m₁, m₂, m₃, v, hpoke₁, hpoke₂, hpoke₃, hch₂, hch₃, hv, hself, -⟩ := poke_three h (.inr hroom) hapart
  rw [hsize] at hpoke₁ hpoke₂ hpoke₃ hself
  rw [ofront] at hpoke₂ hpoke₃
  rw [length_replicate] at hpoke₃
  have hcheck : (b.iterAt (b.stop - o.getSize)).checkNoZero (b.stop - o.getSize) (b.stop - o.getSize + o.getSize) = true :=
    checkNoZero_iff.2 ⟨h₁.trans (h₂.trans hlast), (Nat.sub_add_cancel hle).le, .inr (.inl hlast)⟩
  have hcall := writeFrom_whole hoffsets hne hcheck (peek_front h hin hco) hpoke₁ hpoke₂
    (peek_back hch₂.inv hin ((hch₂.same o ho).trans hco)) hpoke₃
  refine ⟨_, m₃, if_pos hle, hcall, hch₃, ?_⟩
  cases (contentAt_eq hv).symm.trans hc
  have hequal : b.zeroAreaStart = b.zeroAreaEnd := le_antisymm h₂ (Nat.sub_eq_zero_iff_le.mp hnone')
  rw [contentAt_eq hself, content_patched ⟨hequal, h₃⟩ hold hfresh hsize h₁, bytes, ozero, append_assoc]

theorem writeFrom_nothing (h : Inv m (b :: others)) (ho : o ∈ others) (hne : b.data ≠ o.data) (hlast : o.stop = o.zeroAreaEnd)
    (hzeroes : o.zeroAreaStart < o.zeroAreaEnd) :
    ∃ m', (b.iterAt b.stop).writeFrom m (o.iterAt o.stop) o.iterEnd = some m' ∧ Changed m b m' b others ∧
      contentAt m' b = contentAt m b := by
  obtain ⟨h₁, h₂, h₃⟩ := h.offsets mem_cons_self
  have hin := mem_cons_of_mem b ho
  have hempty : (([] : Bytes) ++ ([] ++ [])).length = 0 := rfl
  -- nothing is asked of the places
  have hnone : Apart b others b.stop (([] : Bytes) ++ ([] ++ [])).length := by
    intro e he hdata x hx hlt
    omega
  obtain ⟨m₃, m₄, m₅, v, hpoke₁, hpoke₂, hpoke₃, hch₄, hch₅, hv, hself, -⟩ := poke_three h (a := b.stop) (.inl rfl) hnone
  obtain ⟨_, _, -, hvo, -⟩ := h.owned hin
  obtain ⟨_, _, -, hvo', -⟩ := hch₄.inv.owned hin
  have hcheck : (b.iterAt b.stop).checkNoZero b.stop b.stop = true :=
    checkNoZero_iff.2 ⟨h₁.trans (h₂.trans h₃), le_refl _, .inr (.inr (.inr rfl))⟩
  refine ⟨m₅, ?_, hch₅, ?_⟩
  · unfold Iterator.writeFrom
    rw [if_pos ⟨rfl, le_refl _, rfl, rfl, hne, by simpa only [iterAt, iterEnd, Nat.sub_self, Nat.add_zero] using hcheck⟩]
    have hzs : ¬ o.stop ≤ o.zeroAreaStart := by omega
    simp only [iterAt, iterEnd, if_neg hzs, Nat.sub_self, Nat.add_zero, if_pos hlast.le, Nat.zero_min, peek_spec hvo (.inl rfl),
      Option.bind_some, load, hpoke₁]
    simp only [replicate_zero, length_nil, Nat.add_zero] at hpoke₂ hpoke₃ ⊢
    simp only [hpoke₂, peek_spec hvo' (.inl rfl), load, Option.bind_some, hpoke₃]
  · rw [contentAt_eq hself, contentAt_eq hv]
    simp only [append_nil, patch_nil]

/-- A buffer with its zero area made longer by that of another. -/
def merged (b o : Buffer) : Buffer :=
  { b with
    zeroAreaStart := if b.zeroAreaStart = b.zeroAreaEnd then b.stop else b.zeroAreaStart
    zeroAreaEnd := b.stop + (o.zeroAreaEnd - o.zeroAreaStart)
    stop := b.stop + (o.zeroAreaEnd - o.zeroAreaStart) }

theorem merged_start (hb : b.start ≤ b.zeroAreaStart ∧ b.zeroAreaStart ≤ b.zeroAreaEnd ∧ b.zeroAreaEnd ≤ b.stop) :
    b.start ≤ (merged b o).zeroAreaStart ∧ (merged b o).zeroAreaStart ≤ b.stop ∧
      ((b.stop = b.zeroAreaEnd ∨ b.zeroAreaStart = b.zeroAreaEnd) →
        (merged b o).zeroAreaStart + (b.zeroAreaEnd - b.zeroAreaStart) ≤ b.stop) := by
  simp only [merged]
  split
  · omega
  · omega

theorem merged_bytes (body : BufferData) (hb : b.start ≤ b.zeroAreaStart ∧ b.zeroAreaStart ≤ b.zeroAreaEnd ∧ b.zeroAreaEnd ≤ b.stop)
    (hgap : b.stop = b.zeroAreaEnd ∨ b.zeroAreaStart = b.zeroAreaEnd) :
    (content body (merged b o)).bytes = (content body b).bytes ++ List.replicate (o.zeroAreaEnd - o.zeroAreaStart) 0 := by
  obtain ⟨h₁, h₂, h₃⟩ := hb
  simp only [bytes, content, merged, Nat.sub_self, load, append_nil]
  by_cases hempty : b.zeroAreaStart = b.zeroAreaEnd
  · have hwhole : b.stop - b.start = b.zeroAreaStart - b.start + (b.stop - b.zeroAreaEnd) := by omega
    rw [if_pos hempty, hwhole, load_add, Nat.add_sub_cancel' h₁, Nat.add_sub_cancel_left, hempty, Nat.sub_self,
      replicate_zero, append_nil]
  · have hnothing : b.stop - b.zeroAreaEnd = 0 := by omega
    have hzeroes : b.stop + (o.zeroAreaEnd - o.zeroAreaStart) - b.zeroAreaStart =
        b.zeroAreaEnd - b.zeroAreaStart + (o.zeroAreaEnd - o.zeroAreaStart) := by lia
    rw [if_neg hempty, hnothing, hzeroes, replicate_add, load, append_nil, append_assoc]

theorem bytes_zeroes {co : BufferContent} (hco : contentAt m o = some co)
    (hstart : o.start = o.zeroAreaStart) (hlast : o.stop = o.zeroAreaEnd) :
    co.bytes = List.replicate (o.zeroAreaEnd - o.zeroAreaStart) 0 := by
  obtain ⟨ofront, ozero, oback⟩ := length_contentAt hco
  have hofront : co.dataStart = [] := length_eq_zero_iff.1 (by omega)
  have hoback : co.dataEnd = [] := length_eq_zero_iff.1 (by omega)
  rw [bytes, hofront, hoback, ozero, nil_append, append_nil]

section
variable (raw : Nat → BufferData)

theorem merge_spec (h : Inv m (b :: others)) {d : Block BufferData} (hd : m.pool.block b.data = some d) (ho : o ∈ others)
    (hmerge : mergesZeroes d b o) (hlast : o.stop - o.zeroAreaEnd = 0) (hc : contentAt m b = some c) {co : BufferContent}
    (hco : contentAt m o = some co) (hsize : b.getSize + o.getSize < 2147483648) :
    ∃ m' b' c', addAtEndBuffer raw m b o = some (m', b') ∧ Changed m b m' b' others ∧ contentAt m' b' = some c' ∧
      c'.bytes = c.bytes ++ co.bytes := by
  obtain ⟨hone, hgap, hmark, hstart, hzeroes⟩ := hmerge
  have hb := h.offsets mem_cons_self
  have hin := mem_cons_of_mem b ho
  obtain ⟨g₁, g₂, g₃⟩ := h.offsets hin
  have hlast' : o.stop = o.zeroAreaEnd := by omega
  obtain ⟨d', top, hd', hv, -, hcount, htop⟩ := h.owned mem_cons_self
  obtain rfl := Option.some.inj (hd'.symm.trans hd)
  obtain ⟨-, -, -, k₄, k₅, -, -, k₈⟩ := htop b mem_cons_self rfl
  have hsole := sole hcount hone
  obtain ⟨m₁, hdirty, hbalanced, hself, hother⟩ := modify_spec (p := b.data) h.balanced mem_cons_self hv
    fun body => { body with dirtyStart := d'.body.dirtyStart, dirtyEnd := b.stop + (o.zeroAreaEnd - o.zeroAreaStart) }
  obtain ⟨hle₁, hle₂, hle₃⟩ := merged_start (o := o) hb
  have hroom := hle₃ hgap
  have hstop : b.stop ≤ (merged b o).zeroAreaEnd := Nat.le_add_right _ _
  have hch₁ : Changed m b m₁ (merged b o) others := by
    refine h.grown rfl hv hbalanced hself hother ((merged b o).zeroAreaEnd - (merged b o).zeroAreaStart) ?_
      fun e he heq => absurd heq (hsole e he)
    rintro e (rfl | ⟨he, heq⟩)
    · refine ⟨hle₁, hle₂.trans hstop, le_refl _, k₄, ?_, le_refl _, le_refl _, ?_⟩
      · simp only [merged] at hroom hstop k₅ ⊢
        omega
      · simp only [getSize, merged] at hsize ⊢
        lia
    · exact absurd heq (hsole e he)
  have hc₁ := contentAt_eq (b := merged b o) hself
  obtain ⟨m₂, b₂, c₂, fresh, hadd, hch₂, hc₂, hfresh, hresult, -, -⟩ :=
    addAtEnd_spec raw hch₁.inv (n := 0) (by simp only [getSize, merged] at hsize ⊢; lia)
  cases hc₁.symm.trans hc₂
  obtain rfl := length_eq_zero_iff.1 hfresh
  have hne : b₂.data ≠ o.data := fun heq =>
    hsole o ho (heq.symm.trans (hch₂.joins (heq ▸ mem_data ho)).symm)
  obtain ⟨m₃, hwrite, hch₃, hsame⟩ := writeFrom_nothing hch₂.inv ho hne hlast' (by omega)
  have hcall : addAtEndBuffer raw m b o = some (m₃, b₂) := by
    have hprev : b₂.iterEnd.prev 0 = some (b₂.iterAt b₂.stop) := rfl
    have hprev' : o.iterEnd.prev 0 = some (o.iterAt o.stop) := rfl
    rw [addAtEndBuffer, hd, Option.bind_some, if_pos ⟨hone, hgap, hmark, hstart, hzeroes⟩]
    simp only [setDirty, hdirty, Option.bind_some, hlast]
    have hadd' : addAtEnd raw m₁
        { b with
          zeroAreaStart := if b.zeroAreaStart = b.zeroAreaEnd then b.stop else b.zeroAreaStart
          zeroAreaEnd := b.stop + (o.zeroAreaEnd - o.zeroAreaStart)
          stop := b.stop + (o.zeroAreaEnd - o.zeroAreaStart) } 0 = some (m₂, b₂) := hadd
    rw [hadd']
    simp only [Option.bind_some, hprev, hprev', hwrite, Option.map_some]
  refine ⟨m₃, b₂, _, hcall, (hch₁.trans hch₂).trans hch₃, hsame.trans hresult, ?_⟩
  cases (contentAt_eq hv).symm.trans hc
  rw [append_nil, bytes_zeroes hco hstart hlast']
  exact merged_bytes _ hb hgap

/-- When another buffer may be appended: the two zero areas are not put together with
bytes behind the second, and this buffer does not grow in a block that the other shares. -/
def Appendable (d : Block BufferData) (b o : Buffer) : Prop :=
  ¬ (mergesZeroes d b o ∧ o.stop - o.zeroAreaEnd ≠ 0) ∧
    ¬ (b.data = o.data ∧ b.zeroAreaEnd - b.zeroAreaStart = 0 ∧ b.getInternalEnd + o.getSize ≤ d.size ∧ b.stop = d.body.dirtyEnd)

instance (d : Block BufferData) (b o : Buffer) : Decidable (Appendable d b o) := by
  unfold Appendable
  infer_instance

theorem addAtEndBuffer_spec (h : Inv m (b :: others)) {d : Block BufferData} (hd : m.pool.block b.data = some d) (ho : o ∈ others)
    (happend : Appendable d b o) (hc : contentAt m b = some c) {co : BufferContent} (hco : contentAt m o = some co)
    (hsize : b.getSize + o.getSize < 2147483648) :
    ∃ m' b' c', addAtEndBuffer raw m b o = some (m', b') ∧ Changed m b m' b' others ∧ contentAt m' b' = some c' ∧
      c'.bytes = c.bytes ++ co.bytes := by
  obtain ⟨hmerge, hgrow⟩ := happend
  by_cases hmerges : mergesZeroes d b o
  · exact merge_spec raw h hd ho hmerges (by_contra fun hne => hmerge ⟨hmerges, hne⟩) hc hco hsize
  · obtain ⟨m₁, t, ct, hfull, hinv₁, hsame₁, hct, hzero, hbytes, hwhere⟩ := createFullCopy_spec raw h hc
    obtain ⟨m₂, hassign, hinv₂, hview₂⟩ := assign_spec (hinv₁.perm (Perm.swap b t others))
      (mem_cons_of_mem _ mem_cons_self)
    obtain ⟨m₃, hdestroy, hinv₃, hview₃⟩ := destroy_spec hinv₂
    have hview : ∀ e ∈ t :: others, m₃.pool.view e.data = m₁.pool.view e.data := fun e he =>
      (hview₃ e he).trans (hview₂ e (mem_cons_of_mem _ he))
    have hsame : ∀ e ∈ others, contentAt m₃ e = contentAt m e := fun e he =>
      (contentAt_congr (hview e (mem_cons_of_mem _ he))).trans (hsame₁ e (mem_cons_of_mem _ he))
    have hct₃ : contentAt m₃ t = some ct := (contentAt_congr (hview t mem_cons_self)).trans hct
    -- the buffer has become its copy
    have hch₁ : Changed m b m₃ t others := by
      refine ⟨hinv₃, hsame, fun e he hdata x hx hx' => ?_, fun hin => ?_⟩
      · rcases hwhere with ⟨rfl, -, -⟩ | hnot
        · exact ⟨rfl, hx'⟩
        · exact absurd (mem_cons_of_mem _ (hdata ▸ mem_data he)) hnot
      · rcases hwhere with ⟨rfl, -, -⟩ | hnot
        · rfl
        · exact absurd (mem_cons_of_mem _ hin) hnot
    obtain ⟨et, het, hlen⟩ := hinv₃.contentAt mem_cons_self
    cases het.symm.trans hct₃
    obtain ⟨eb, heb, hlenb⟩ := h.contentAt mem_cons_self
    cases heb.symm.trans hc
    have hsizes : t.getSize = b.getSize := by rw [← hlen, hbytes, hlenb]
    obtain ⟨m₄, b', c₄, fresh, hadd, hch₄, hc₄, hfresh, hresult, hregion, hjoins⟩ :=
      addAtEnd_spec raw hinv₃ (n := o.getSize) (by rw [hsizes]; exact hsize)
    cases hc₄.symm.trans hct₃
    have hne : b'.data ≠ o.data := by
      intro heq
      obtain ⟨hdata, hplace⟩ := hjoins (heq ▸ mem_data ho)
      have hto : t.data = o.data := hdata.trans heq
      rcases hwhere with ⟨rfl, hnone, hview'⟩ | hnot
      · obtain ⟨hroom, hend⟩ := hplace (d.size, d.body)
          ((hview _ mem_cons_self).trans ((hview' _).trans (Pool.view_eq hd)))
        exact hgrow ⟨hto, hnone, hroom, hend⟩
      · exact hnot (mem_cons_of_mem _ (hto ▸ mem_data ho))
    have hapart : Apart b' others (b'.getInternalEnd - o.getSize) o.getSize := by
      intro e he hdata x hx hlt
      have hback := (length_contentAt hresult).2.2
      rw [length_append, hfresh] at hback
      exact hregion e he hdata x hx (by simp only [getInternalEnd] at *; omega)
    have hco₄ : contentAt m₄ o = some co := (hch₄.same o ho).trans ((hsame o ho).trans hco)
    obtain ⟨it, m₅, hprev, hwrite, hch₅, hfinal⟩ :=
      writeFrom_spec hch₄.inv ho hne hresult hco₄ rfl hfresh hzero hapart
    refine ⟨m₅, b', _, ?_, (hch₁.trans hch₄).trans hch₅, hfinal, ?_⟩
    · rw [addAtEndBuffer, hd, Option.bind_some, if_neg hmerges, hfull, Option.bind_some]
      simp only [hassign, Option.bind_some, hdestroy, hadd, hprev, hwrite, Option.map_some]
    · rw [← hbytes]
      simp only [bytes, append_assoc]

end

end

end Buffer

end Ns3
