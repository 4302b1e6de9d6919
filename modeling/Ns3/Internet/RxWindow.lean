import Ns3.Internet.RxBufferSound

/-!
# The receive window

`MaxRxSequence` tells the end of the window from the first byte stored, or from
the next sequence number expected when nothing in order is stored, or from the
FIN. `Add` cuts a segment only where something is stored, always `m_maxBuffer`
bytes behind the first byte stored, and never at the FIN.
-/

namespace Ns3

open Machine SequenceNumber32 TcpReception List Option

namespace TcpRxBuffer

def Holds (b : TcpRxBuffer) (q : SequenceNumber32) : Prop := ∃ e ∈ b.data, ∃ i < e.2.length, q = e.1.add i

instance (b : TcpRxBuffer) (q : SequenceNumber32) : Decidable (b.Holds q) :=
  inferInstanceAs (Decidable (∃ e ∈ b.data, ∃ i < e.2.length, q = e.1.add i))

/-- A byte of a segment that is not stored yet and that `Add` does not cut off. -/
def Takes (b : TcpRxBuffer) (q : SequenceNumber32) : Prop :=
  b.nextRxSeq.le q = true ∧ (∀ e ∈ b.data.head?, q.lt (e.1.add b.maxBuffer) = true) ∧ ¬ b.Holds q

instance (b : TcpRxBuffer) (q : SequenceNumber32) : Decidable (b.Takes q) :=
  inferInstanceAs (Decidable (_ ∧ _ ∧ ¬ _))

/-- The next sequence number expected is not far beyond the first byte stored. -/
def Aligned (b : TcpRxBuffer) : Prop := ∀ e ∈ b.data.head?, b.nextRxSeq.gt (e.1.add 536870912) = false

instance (b : TcpRxBuffer) : Decidable b.Aligned :=
  inferInstanceAs (Decidable (∀ e ∈ b.data.head?, b.nextRxSeq.gt (e.1.add 536870912) = false))

/-- The sequence numbers are close enough to be compared. -/
structure Comparable (b : TcpRxBuffer) (p : Bytes) (seq : SequenceNumber32) : Prop where
  number : seq.value < 4294967296
  window : b.maxBuffer ≤ 536870912
  aligned : b.Aligned
  near : seq.diff b.nextRxSeq ≤ 536870912 ∨ b.nextRxSeq.diff seq ≤ 536870912
  length : p.length ≤ 536870912

theorem comparable_iff {b : TcpRxBuffer} {p : Bytes} {seq : SequenceNumber32} : b.Comparable p seq ↔
    seq.value < 4294967296 ∧ b.maxBuffer ≤ 536870912 ∧ b.Aligned ∧
      (seq.diff b.nextRxSeq ≤ 536870912 ∨ b.nextRxSeq.diff seq ≤ 536870912) ∧ p.length ≤ 536870912 := by
  constructor
  · intro h
    exact ⟨h.number, h.window, h.aligned, h.near, h.length⟩
  · intro ⟨h₁, h₂, h₃, h₄, h₅⟩
    exact ⟨h₁, h₂, h₃, h₄, h₅⟩

instance (b : TcpRxBuffer) (p : Bytes) (seq : SequenceNumber32) : Decidable (b.Comparable p seq) :=
  decidable_of_iff _ comparable_iff.symm

/-- No byte that `Add` would take is beyond the window or the FIN. -/
def Kept (b : TcpRxBuffer) : TcpRxEvent → Prop
  | .add p seq => b.Comparable p seq ∧
      ∀ i < p.length, b.Takes (seq.add i) → (seq.add i).lt b.maxRxSequence = true ∧ (seq.add i).lt b.windowEnd = true
  | .setFinSequence _ => b.Aligned
  | .extract _ => True

instance (b : TcpRxBuffer) : (e : TcpRxEvent) → Decidable (b.Kept e)
  | .add p seq => inferInstanceAs (Decidable (b.Comparable p seq ∧ ∀ i < p.length, b.Takes (seq.add i) →
      (seq.add i).lt b.maxRxSequence = true ∧ (seq.add i).lt b.windowEnd = true))
  | .setFinSequence _ => inferInstanceAs (Decidable b.Aligned)
  | .extract _ => .isTrue trivial

def step (b : TcpRxBuffer) : TcpRxEvent → Option (TcpRxBuffer × List Bytes)
  | .add p seq => (b.add p seq).map fun r => (r.1, [])
  | .setFinSequence s => some (b.setFinSequence s, [])
  | .extract maxSize => (b.extract maxSize).map fun r => (r.1, r.2.toList)

def machine : Machine TcpRxBuffer TcpRxEvent Bytes := ⟨step⟩

/-! ## Positions -/

section
variable {b b' : TcpRxBuffer} {chunks : List Chunk} {n : Nat}

theorem Apart.floor_le (h : Apart chunks) : ∀ c ∈ chunks, floor chunks n ≤ c.1 := by
  intro c hc
  cases chunks with
  | nil => cases hc
  | cons d l =>
    have hpos := h.pos d (by simp)
    show min n d.1 ≤ c.1
    rcases mem_cons.mp hc with rfl | hc
    · exact Nat.min_le_right ..
    · have := h.behind c hc
      omega

theorem le_floor {k : Nat} (hn : k ≤ n) (hall : ∀ c ∈ chunks, k ≤ c.1) : k ≤ floor chunks n := by
  cases chunks with
  | nil => exact hn
  | cons c l => exact Nat.le_min.mpr ⟨hn, hall c (by simp)⟩

/-- The chunks of a buffer whose bytes are all inside the window. -/
structure Placed (b : TcpRxBuffer) (chunks : List Chunk) (n : Nat) : Prop where
  data : b.data = chunks.map entry
  apart : Apart chunks
  next : b.nextRxSeq = ofPosition n
  size : b.size = held chunks
  low : 4294967296 ≤ floor chunks n
  inside : ∀ c ∈ chunks, c.stop ≤ floor chunks n + b.maxBuffer
  near : n ≤ floor chunks n + 536870913
  window : chunks ≠ [] → b.maxBuffer ≤ 536870912

theorem Placed.within (h : Placed b chunks n) : Within (floor chunks n) chunks := by
  intro c hc
  have hinside := h.inside c hc
  have hwindow := h.window (ne_nil_of_mem hc)
  exact ⟨h.apart.floor_le c hc, by omega⟩

theorem Placed.size_le (h : Placed b chunks n) : b.size ≤ b.maxBuffer := by
  have hheld := h.apart.held_le (Nat.le_add_right (floor chunks n) b.maxBuffer) fun c hc =>
    ⟨h.apart.floor_le c hc, h.inside c hc⟩
  rw [h.size]
  omega

theorem holds_iff (hdata : b.data = chunks.map entry) (q : SequenceNumber32) :
    b.Holds q ↔ ∃ k, Stored chunks k ∧ q = ofPosition k := by
  unfold Holds
  rw [hdata]
  constructor
  · rintro ⟨e, he, i, hi, rfl⟩
    obtain ⟨c, hc, rfl⟩ := List.mem_map.mp he
    refine ⟨c.1 + i, ⟨c, hc, Nat.le_add_right .., ?_⟩, add_ofPosition ..⟩
    exact Nat.add_lt_add_left hi c.1
  · rintro ⟨k, ⟨c, hc, hle, hlt⟩, rfl⟩
    refine ⟨entry c, List.mem_map_of_mem hc, k - c.1, ?_, ?_⟩
    · show k - c.1 < c.2.length
      unfold Chunk.stop at hlt
      omega
    · rw [entry, add_ofPosition, Nat.add_sub_cancel' hle]

variable {p : Bytes} {seq : SequenceNumber32} {stored : Bool}

theorem Placed.start (h : Placed b chunks n) (hc : b.Comparable p seq) :
    ∃ x, seq = ofPosition x ∧ x ≤ n + 536870912 ∧ n ≤ x + 536870912 := by
  have hnumber := hc.number
  have hlow := h.low
  have hle := floor_le chunks n
  have hnear := hc.near
  rw [h.next] at hnear
  obtain ⟨value⟩ := seq
  simp only at hnumber
  rcases hnear with hnear | hnear
  · refine ⟨n + diff ⟨value⟩ (ofPosition n), ?_, by omega, by omega⟩
    simp only [diff, ofPosition, uint32, SequenceNumber32.mk.injEq]
    omega
  · refine ⟨n - diff (ofPosition n) ⟨value⟩, ?_, by omega, by omega⟩
    simp only [diff, ofPosition, uint32, SequenceNumber32.mk.injEq] at hnear ⊢
    omega

theorem Placed.aligned (h : Placed b chunks n) (haligned : b.Aligned) : n ≤ floor chunks n + 536870912 := by
  have hnear := h.near
  have hdata := h.data
  cases chunks with
  | nil => exact Nat.le_add_right ..
  | cons c l =>
    have hc := haligned (entry c) (by rw [hdata]; rfl)
    have hle := floor_le (c :: l) n
    have hwithin := h.within c (by simp)
    have hinside := h.inside c (by simp)
    have hpos := h.apart.pos c (by simp)
    have hwindow := h.window (by simp)
    rw [h.next, entry, add_ofPosition, gt_ofPosition ⟨by omega, by omega⟩, decide_eq_false_iff_not] at hc
    show n ≤ min n c.1 + 536870912
    lia

theorem Placed.windowEnd_eq (h : Placed b chunks n) : b.windowEnd = ofPosition (floor chunks n + b.maxBuffer) := by
  have hnear := h.near
  cases chunks with
  | nil =>
    have hdata : b.data = [] := h.data
    rw [windowEnd, hdata, h.next]
    exact add_ofPosition ..
  | cons c l =>
    have hdata : b.data = entry c :: l.map entry := h.data
    have hwithin := h.within c (by simp)
    have hpos := h.apart.pos c (by simp)
    have hle := floor_le (c :: l) n
    rw [windowEnd, hdata, h.next]
    simp only [entry, add_ofPosition]
    rw [gt_ofPosition ⟨by omega, by omega⟩]
    show _ = ofPosition (min n c.1 + b.maxBuffer)
    by_cases hlt : c.1 < n
    · rw [if_pos (decide_eq_true hlt), Nat.min_eq_right (by omega)]
    · rw [if_neg (by simpa using hlt), Nat.min_eq_left (by omega)]

/-! ## Adding -/

/-- The position is one that a segment up to `last` brings and that `Add` does not cut off. -/
def Room (b : TcpRxBuffer) (chunks : List Chunk) (n x last k : Nat) : Prop :=
  n ≤ k ∧ x ≤ k ∧ k < last ∧ ∀ c ∈ chunks.head?, k < c.1 + b.maxBuffer

theorem Placed.fit (h : Placed b chunks n) (haligned : b.Aligned) (hwindow : b.maxBuffer ≤ 536870912) {x last : Nat}
    (hx : x ≤ n + 536870912) (hx' : n ≤ x + 536870912) (hlast : x ≤ last) (hlast' : last ≤ x + 536870912) :
    ∃ k t, b.fit (ofPosition x) (ofPosition last) = (ofPosition k, ofPosition t) ∧ t ≤ last ∧ n ≤ t + 536870912 ∧
      (n ≤ k ∧ x ≤ k ∨ k = t) ∧ k ≤ n + 536870912 ∧ n ≤ k + 536870912 ∧ (chunks ≠ [] → k ≤ t) ∧
      ∀ q, k ≤ q ∧ q < t ↔ b.Room chunks n x last q := by
  have hfar := h.aligned haligned
  have hhead : (if (ofPosition x).lt b.nextRxSeq then b.nextRxSeq else ofPosition x) = ofPosition (max x n) := by
    rw [h.next, lt_ofPosition ⟨by omega, by omega⟩]
    by_cases hlt : x < n
    · rw [if_pos (decide_eq_true hlt), Nat.max_eq_right (by omega)]
    · rw [if_neg (by simpa using hlt), Nat.max_eq_left (by omega)]
  unfold TcpRxBuffer.fit Room
  simp only [hhead]
  cases chunks with
  | nil =>
    have hdata : b.data = [] := h.data
    rw [hdata]
    refine ⟨max x n, last, rfl, Nat.le_refl _, by lia, .inl ⟨by lia, by lia⟩, by lia, by lia, by simp, fun q => ?_⟩
    simp
    omega
  | cons c l =>
    have hdata : b.data = entry c :: l.map entry := h.data
    have hwithin := h.within c (by simp)
    have hpos := h.apart.pos c (by simp)
    have hinside := h.inside c (by simp)
    have hle := floor_le (c :: l) n
    have htail : (if (ofPosition (c.1 + b.maxBuffer)).lt (ofPosition last) then ofPosition (c.1 + b.maxBuffer)
        else ofPosition last) = ofPosition (min last (c.1 + b.maxBuffer)) := by
      rw [lt_ofPosition ⟨by lia, by lia⟩]
      by_cases hlt : c.1 + b.maxBuffer < last
      · rw [if_pos (decide_eq_true hlt), Nat.min_eq_right (by omega)]
      · rw [if_neg (by simpa using hlt), Nat.min_eq_left (by omega)]
    rw [hdata]
    simp only [entry, add_ofPosition, htail]
    rw [lt_ofPosition ⟨by omega, by omega⟩]
    by_cases hlt : min last (c.1 + b.maxBuffer) < max x n
    · rw [if_pos (decide_eq_true hlt)]
      refine ⟨_, _, rfl, by omega, by omega, .inr rfl, by omega, by omega, by simp, fun q => ?_⟩
      simp
      omega
    · rw [if_neg (by simpa using hlt)]
      refine ⟨_, _, rfl, by omega, by omega, .inl ⟨by omega, by omega⟩, by omega, by omega, by omega, fun q => ?_⟩
      simp
      omega

theorem Placed.trim (h : Placed b chunks n) {k t : Nat} (hk : floor chunks n ≤ k ∨ k = t) (hle : chunks ≠ [] → k ≤ t)
    (hnear : Near k t) (hlow : floor chunks n ≤ t + 1073741824) (ht : t < floor chunks n + 2147483648) :
    ∃ rest head tail, trim (ofPosition k) (ofPosition t) b.size b.data =
        ⟨ofPosition head, ofPosition tail, held rest, rest.map entry⟩ ∧ Near head tail ∧
      (tail ≤ head → rest = chunks ∧ ∀ q, k ≤ q → q < t → Stored chunks q) ∧
      (head < tail → floor chunks n ≤ head ∧ tail < floor chunks n + 2147483648 ∧
        rest.Sublist chunks ∧ (∀ c ∈ rest, c.stop ≤ head ∨ tail ≤ c.1) ∧
        ∀ q, (Stored rest q ∨ head ≤ q ∧ q < tail) ↔ (Stored chunks q ∨ k ≤ q ∧ q < t)) := by
  have hwithin := h.within
  have hheld := h.apart.held_within hwithin
  rw [h.size, h.data]
  by_cases hempty : chunks = []
  · subst hempty
    refine ⟨[], k, t, rfl, hnear, fun hge => ⟨rfl, fun q hq hq' => by omega⟩, fun hlt => ⟨?_, ht, Sublist.refl _, by simp,
      fun q => Iff.rfl⟩⟩
    rcases hk with hk | rfl
    · exact hk
    · omega
  · have hle := hle hempty
    by_cases hbehind : t < floor chunks n
    · -- the segment ends before all chunks
      obtain rfl : k = t := by rcases hk with hk | hk <;> omega
      cases chunks with
      | nil => exact absurd rfl hempty
      | cons c l =>
        have hc := hwithin c (by simp)
        have hpos := h.apart.pos c (by simp)
        have hinside := h.inside c (by simp)
        have hwindow := h.window (by simp)
        rw [trim_behind c l _ (by omega) (by omega)]
        exact ⟨_, _, _, rfl, hnear, fun _ => ⟨rfl, fun q hq hq' => by omega⟩, fun hlt => absurd hlt (Nat.lt_irrefl _)⟩
    · obtain ⟨rest, head, tail, heq, hr, htail, hhead⟩ := trim_spec chunks k t 0 h.apart hwithin (by rcases hk with hk | hk <;> omega)
        hle ht (by omega)
      rw [Nat.zero_add, Nat.zero_add] at heq
      have hhead' := hr.head
      have htail' := hr.tail
      refine ⟨rest, head, tail, heq, ⟨by omega, by omega⟩, hr.nothing, fun hlt => ⟨?_, by omega, hr.sublist, hr.apart hlt, hr.stored hlt⟩⟩
      rcases hk with hk | hk <;> omega

theorem advance_some : ∀ {l : List Chunk} {b b' : TcpRxBuffer} {n : Nat}, advance (l.map entry) b = some b' →
    b.nextRxSeq = ofPosition n → ∃ n', (n' = n ∨ ∃ c ∈ l, n' = c.stop) ∧ b'.nextRxSeq = ofPosition n' ∧ b'.data = b.data ∧
      b'.size = b.size ∧ b'.maxBuffer = b.maxBuffer
  | [], b, b', n, h, hnext => by
    cases h
    exact ⟨n, .inl rfl, hnext, rfl, rfl, rfl⟩
  | c :: l, b, b', n, h, hnext => by
    rw [List.map_cons, advance] at h
    by_cases hlt : (entry c).1.lt b.nextRxSeq = true
    · rw [if_pos hlt] at h
      obtain ⟨n', hn', hsame⟩ := advance_some h hnext
      exact ⟨n', hn'.imp_right fun h => h.imp fun d hd => ⟨mem_cons_of_mem _ hd.1, hd.2⟩, hsame⟩
    · rw [if_neg hlt] at h
      by_cases hgt : (entry c).1.gt b.nextRxSeq = true
      · rw [if_pos hgt] at h
        cases h
        exact ⟨n, .inl rfl, hnext, rfl, rfl, rfl⟩
      · rw [if_neg hgt] at h
        obtain ⟨list, -, h⟩ := bind_eq_some_iff.mp h
        obtain ⟨n', hn', hsame⟩ := advance_some (n := c.stop) h (add_ofPosition ..)
        refine ⟨n', .inr ?_, hsame⟩
        rcases hn' with rfl | ⟨d, hd, heq⟩
        · exact ⟨c, by simp, rfl⟩
        · exact ⟨d, mem_cons_of_mem _ hd, heq⟩

/-- What stays of a buffer when its data, its size and the next number change. -/
structure Becomes (b b' : TcpRxBuffer) (chunks : List Chunk) (n : Nat) (chunks' : List Chunk) (n' : Nat) : Prop where
  data : b'.data = chunks'.map entry
  apart : Apart chunks'
  size : b'.size = held chunks'
  maxBuffer : b'.maxBuffer = b.maxBuffer
  next : b'.nextRxSeq = ofPosition n'
  moved : n' = n ∨ n' = n + 1 ∨ ∃ c ∈ chunks', n' = c.stop ∨ n' = c.stop + 1

theorem insert_some {lo head tail : Nat} (hdata : b.data = chunks.map entry) (hapart : Apart chunks)
    (hnext : b.nextRxSeq = ofPosition n) (hsize : b.size = held chunks) (hwithin : Within lo chunks)
    (hgap : ∀ c ∈ chunks, c.stop ≤ head ∨ tail ≤ c.1) (hlow : lo ≤ head) (hpos : head < tail) (htail : tail < lo + 2147483648)
    (hp : p.length = tail - head) (h : b.insert (ofPosition head) (ofPosition tail) p = some b') :
    ∃ n', Becomes b b' chunks n (insertEntry head p chunks) n' ∧
      ∀ q, Stored (insertEntry head p chunks) q ↔ Stored chunks q ∨ head ≤ q ∧ q < tail := by
  have hgap' : ∀ c ∈ chunks, c.stop ≤ head ∨ head + p.length ≤ c.1 := fun c hc => (hgap c hc).imp_right fun _ => by omega
  obtain ⟨hinsert, hperm⟩ := hapart.insert (show head < head + p.length by omega) hgap'
  have hstored (q : Nat) : Stored (insertEntry head p chunks) q ↔ Stored chunks q ∨ head ≤ q ∧ q < tail := by
    rw [stored_perm hperm q, stored_cons, or_comm, Chunk.stop]
    rw [hp, Nat.add_sub_cancel' (Nat.le_of_lt hpos)]
  have hheld : held (insertEntry head p chunks) = held chunks + p.length := by
    rw [held_perm hperm, held_cons, Nat.add_comm]
  have hall : Within lo (insertEntry head p chunks) := by
    intro c hc
    rcases mem_cons.mp (hperm.mem_iff.mp hc) with rfl | hc
    · exact ⟨hlow, by rw [Chunk.stop]; simp only; omega⟩
    · exact hwithin c hc
  have hbound := hinsert.held_within hall
  have hnew : present (ofPosition head) b.data = false := by
    by_contra hpresent
    rw [TcpRxBuffer.insert, if_pos (by simpa using hpresent)] at h
    cases h
  have hstore : store (ofPosition head) p b.data = (insertEntry head p chunks).map entry := by
    rw [hdata]
    exact store_eq p hlow (by omega) chunks hwithin
  rw [TcpRxBuffer.insert, hnew, if_neg Bool.false_ne_true, hstore] at h
  obtain ⟨b₁, hsack, h⟩ := bind_eq_some_iff.mp h
  have hkept : b₁.data = (insertEntry head p chunks).map entry ∧ b₁.size = b.size ∧ b₁.maxBuffer = b.maxBuffer ∧
      b₁.nextRxSeq = b.nextRxSeq := by
    by_cases hgt : (ofPosition head).gt b.nextRxSeq = true
    · rw [if_pos hgt, updateSackList, if_pos hgt] at hsack
      obtain ⟨list, -, rfl⟩ := map_eq_some_iff.mp hsack
      exact ⟨rfl, rfl, rfl, rfl⟩
    · rw [if_neg hgt] at hsack
      cases hsack
      exact ⟨rfl, rfl, rfl, rfl⟩
  obtain ⟨hdata₁, hsize₁, hmax₁, hnext₁⟩ := hkept
  obtain ⟨b₂, hadvance, rfl⟩ := map_eq_some_iff.mp h
  rw [hdata₁] at hadvance
  obtain ⟨n₂, hmoved, hnext₂, hdata₂, hsize₂, hmax₂⟩ := advance_some hadvance (hnext₁.trans hnext)
  have hsize' : b₂.size = held (insertEntry head p chunks) := by
    rw [hsize₂, hheld]
    rw [hsize₁, hsize, uint32_add (by omega)]
  have hdata' : b₂.data = (insertEntry head p chunks).map entry := hdata₂
  have hmax' : b₂.maxBuffer = b.maxBuffer := hmax₂.trans hmax₁
  by_cases hfin : (b₂.gotFin && b₂.nextRxSeq == b₂.finSeq) = true
  · refine ⟨n₂ + 1, ⟨?_, hinsert, ?_, ?_, ?_, ?_⟩, hstored⟩
    · rw [if_pos hfin]
      exact hdata'
    · rw [if_pos hfin]
      exact hsize'
    · rw [if_pos hfin]
      exact hmax'
    · rw [if_pos hfin, hnext₂, add_ofPosition]
    · rcases hmoved with rfl | ⟨c, hc, rfl⟩
      · exact .inr (.inl rfl)
      · exact .inr (.inr ⟨c, hc, .inr rfl⟩)
  · rw [if_neg hfin]
    refine ⟨n₂, ⟨hdata', hinsert, hsize', hmax', hnext₂, ?_⟩, hstored⟩
    rcases hmoved with rfl | ⟨c, hc, rfl⟩
    · exact .inl rfl
    · exact .inr (.inr ⟨c, hc, .inl rfl⟩)

theorem Placed.add (h : Placed b chunks n) {x : Nat} (hc : b.Comparable p (ofPosition x))
    (hx : x ≤ n + 536870912) (hx' : n ≤ x + 536870912) (heq : b.add p (ofPosition x) = some (b', stored)) :
    ∃ chunks' n', Becomes b b' chunks n chunks' n' ∧
      ∀ q, Stored chunks' q ↔ Stored chunks q ∨ b.Room chunks n x (x + p.length) q := by
  have hfar := h.aligned hc.aligned
  have hlength := hc.length
  have hle := floor_le chunks n
  obtain ⟨k, t, hfit, ht, ht', hk, hkn, hnk, hkt, hroom⟩ := h.fit hc.aligned hc.window hx hx' (Nat.le_add_right x p.length) (by omega)
  obtain ⟨rest, head, tail, htrim, hnear, hnothing, hsomething⟩ := h.trim (k := k) (t := t)
    (hk.imp_left fun hk => Nat.le_trans hle hk.1) hkt ⟨by omega, by omega⟩ (by omega) (by omega)
  rw [add_eq (Nat.add_sub_cancel_left ..).symm (Nat.le_add_right x p.length) hfit htrim hnear] at heq
  by_cases hover : tail ≤ head
  · rw [if_pos hover] at heq
    cases heq
    obtain ⟨rfl, hall⟩ := hnothing hover
    refine ⟨rest, n, ⟨rfl, h.apart, rfl, rfl, h.next, .inl rfl⟩, fun q => ?_⟩
    rw [← hroom q]
    constructor
    · exact .inl
    · rintro (hq | hq)
      · exact hq
      · exact hall q hq.1 hq.2
  · rw [if_neg hover] at heq
    obtain ⟨hlow, hhigh, hsublist, hgap, hstored⟩ := hsomething (by omega)
    have hdiff : (ofPosition tail).diff (ofPosition head) = tail - head := diff_ofPosition (by omega) (by omega)
    rw [hdiff] at heq
    obtain ⟨hsize, heq⟩ := ite_none_right_eq_some.mp heq
    obtain ⟨b₁, hinsert, heq⟩ := map_eq_some_iff.mp heq
    cases heq
    obtain ⟨n', hbecomes, hinserted⟩ := insert_some (b := { b with data := rest.map entry, size := held rest }) rfl
      (h.apart.sublist hsublist) h.next rfl (fun c hc => h.within c (hsublist.subset hc)) hgap hlow (by omega) hhigh hsize.symm hinsert
    refine ⟨_, n', ⟨hbecomes.data, hbecomes.apart, hbecomes.size, hbecomes.maxBuffer, hbecomes.next, hbecomes.moved⟩, fun q => ?_⟩
    rw [hinserted, hstored, hroom]

/-! ## Steps -/

theorem Placed.takes_iff (h : Placed b chunks n) {x i : Nat} (hc : b.Comparable p (ofPosition x))
    (hx : x ≤ n + 536870912) (hx' : n ≤ x + 536870912) (hi : i < p.length) :
    b.Takes (ofPosition (x + i)) ↔ b.Room chunks n x (x + p.length) (x + i) ∧ ¬ Stored chunks (x + i) := by
  have hfar := h.aligned hc.aligned
  have hlength := hc.length
  have hwindow := hc.window
  have hle := floor_le chunks n
  have hfirst : (∀ e ∈ b.data.head?, (ofPosition (x + i)).lt (e.1.add b.maxBuffer) = true) ↔
      ∀ c ∈ chunks.head?, x + i < c.1 + b.maxBuffer := by
    cases chunks with
    | nil => simp [h.data]
    | cons c l =>
      have hwithin := h.within c (by simp)
      have hinside := h.inside c (by simp)
      have hpos := h.apart.pos c (by simp)
      have hnear : Near (x + i) (c.1 + b.maxBuffer) := ⟨by omega, by omega⟩
      simp [h.data, entry, lt_ofPosition hnear]
  have hholds : b.Holds (ofPosition (x + i)) ↔ Stored chunks (x + i) := by
    rw [holds_iff h.data]
    constructor
    · rintro ⟨k, hk, heq⟩
      obtain ⟨c, hmem, hck⟩ := hk
      have hwithin := h.within c hmem
      have hinside := h.inside c hmem
      rw [(ofPosition_inj ⟨by omega, by omega⟩).mp heq]
      exact ⟨c, hmem, hck⟩
    · intro hstored
      exact ⟨_, hstored, rfl⟩
  rw [Takes, Room, h.next, le_ofPosition ⟨by omega, by omega⟩, hfirst, hholds, decide_eq_true_eq]
  constructor
  · rintro ⟨hn, hcut, hnot⟩
    exact ⟨⟨hn, Nat.le_add_right .., by omega, hcut⟩, hnot⟩
  · rintro ⟨⟨hn, -, -, hcut⟩, hnot⟩
    exact ⟨hn, hcut, hnot⟩

theorem Placed.new_iff (h : Placed b chunks n) (hc : b.Comparable p seq)
    (heq : b.add p seq = some (b', stored)) (q : SequenceNumber32) :
    b'.Holds q ∧ ¬ b.Holds q ↔ ∃ i < p.length, q = seq.add i ∧ b.Takes q := by
  obtain ⟨x, rfl, hx, hx'⟩ := h.start hc
  obtain ⟨chunks', n', hbecomes, hstored⟩ := h.add hc hx hx' heq
  rw [holds_iff hbecomes.data]
  constructor
  · rintro ⟨⟨k, hk, rfl⟩, hnot⟩
    have hold : ¬ Stored chunks k := fun hold => hnot ((holds_iff h.data _).mpr ⟨k, hold, rfl⟩)
    have hroom := ((hstored k).mp hk).resolve_left hold
    have hxk := hroom.2.1
    have hlast := hroom.2.2.1
    have hsum : x + (k - x) = k := Nat.add_sub_cancel' hxk
    refine ⟨k - x, by omega, by rw [add_ofPosition, hsum], ?_⟩
    have htakes := h.takes_iff hc hx hx' (i := k - x) (by omega)
    rw [hsum] at htakes
    exact htakes.mpr ⟨hroom, hold⟩
  · rintro ⟨i, hi, rfl, htakes⟩
    rw [add_ofPosition] at htakes ⊢
    exact ⟨⟨_, (hstored _).mpr (.inr ((h.takes_iff hc hx hx' hi).mp htakes).1), rfl⟩, htakes.2.2⟩

theorem Placed.addStep (h : Placed b chunks n) (hk : b.Kept (.add p seq))
    (heq : b.add p seq = some (b', stored)) : ∃ chunks' n', Placed b' chunks' n' := by
  obtain ⟨hc, hkept⟩ := hk
  obtain ⟨x, rfl, hx, hx'⟩ := h.start hc
  obtain ⟨chunks', n', hbecomes, hstored⟩ := h.add hc hx hx' heq
  have hfar := h.aligned hc.aligned
  have hlow := h.low
  have hle := floor_le chunks n
  have hwindow := hc.window
  have hlength := hc.length
  have hbytes (q : Nat) (hq : Stored chunks' q) :
      floor chunks n ≤ q ∧ q < floor chunks n + b.maxBuffer := by
    by_cases hold : Stored chunks q
    · obtain ⟨c, hmem, hcq⟩ := hold
      have hfloor := h.apart.floor_le (n := n) c hmem
      have hinside := h.inside c hmem
      omega
    · have hroom := ((hstored q).mp hq).resolve_left hold
      have hn := hroom.1
      have hxq := hroom.2.1
      have hlast := hroom.2.2.1
      have hsum : x + (q - x) = q := Nat.add_sub_cancel' hxq
      have htakes := h.takes_iff hc hx hx' (i := q - x) (by omega)
      have hend := hkept (q - x) (by omega)
      rw [add_ofPosition, hsum] at hend
      rw [hsum] at htakes
      have hlt := (hend (htakes.mpr ⟨hroom, hold⟩)).2
      rw [h.windowEnd_eq, lt_ofPosition ⟨by lia, by lia⟩, decide_eq_true_eq] at hlt
      omega
  have hchunk : ∀ c ∈ chunks', floor chunks n ≤ c.1 ∧ c.stop ≤ floor chunks n + b.maxBuffer := by
    intro c hmem
    have hpos := hbecomes.apart.pos c hmem
    have hfirst := hbytes c.1 ⟨c, hmem, Nat.le_refl _, hpos⟩
    have hlast := hbytes (c.stop - 1) ⟨c, hmem, by omega, by omega⟩
    omega
  have hmoved : floor chunks n ≤ n' ∧ n' ≤ floor chunks n + 536870913 := by
    rcases hbecomes.moved with rfl | rfl | ⟨c, hmem, hn'⟩
    · omega
    · omega
    · have hpos := hbecomes.apart.pos c hmem
      have := hchunk c hmem
      omega
  have hfloor : floor chunks n ≤ floor chunks' n' := le_floor hmoved.1 fun c hmem => (hchunk c hmem).1
  refine ⟨chunks', n', hbecomes.data, hbecomes.apart, hbecomes.next, hbecomes.size, by omega, fun c hmem => ?_, by omega, fun _ => ?_⟩
  · have := (hchunk c hmem).2
    rw [hbecomes.maxBuffer]
    omega
  · rw [hbecomes.maxBuffer]
    exact hwindow

theorem Placed.setFinSequence (h : Placed b chunks n) (haligned : b.Aligned) (s : SequenceNumber32) :
    ∃ n', Placed (b.setFinSequence s) chunks n' := by
  have hfar := h.aligned haligned
  unfold TcpRxBuffer.setFinSequence
  by_cases heq : b.nextRxSeq = s
  · have hle : floor chunks n ≤ floor chunks (n + 1) :=
      le_floor (Nat.le_succ_of_le (floor_le chunks n)) h.apart.floor_le
    have hlow := h.low
    refine ⟨n + 1, h.data, h.apart, ?_, h.size, by omega, fun c hc => ?_, by omega, h.window⟩
    · simp only [if_pos heq]
      rw [← heq, h.next, add_ofPosition]
    · have := h.inside c hc
      show c.stop ≤ _ + b.maxBuffer
      omega
  · refine ⟨n, h.data, h.apart, ?_, h.size, h.low, h.inside, h.near, h.window⟩
    simp only [if_neg heq]
    exact h.next

theorem extractLoop_some {lo : Nat} {next : SequenceNumber32} : ∀ {l : List Chunk} {k : Nat}
    {r : List (SequenceNumber32 × Bytes) × Bytes}, Apart l → Within lo l → extractLoop next (l.map entry) k = some r →
    ∃ l', r.1 = l'.map entry ∧ Apart l' ∧ held l = k + held l' ∧ ∀ c ∈ l', ∃ d ∈ l, d.1 ≤ c.1 ∧ c.stop = d.stop
  | l, 0, r, hapart, _, h => by
    have hr : (l.map entry, []) = r := by simpa [extractLoop] using h
    exact ⟨l, by rw [← hr], hapart, (Nat.zero_add _).symm, fun c hc => ⟨c, hc, Nat.le_refl _, rfl⟩⟩
  | [], k + 1, r, _, _, h => by cases h
  | c :: l, k + 1, r, hapart, hwithin, h => by
    obtain ⟨-, h⟩ := ite_none_right_eq_some.mp h
    by_cases hfit : (entry c).2.length ≤ k + 1
    · rw [if_pos hfit] at h
      obtain ⟨r', hloop, rfl⟩ := map_eq_some_iff.mp h
      obtain ⟨l', hdata, hapart', hheld, hfrom⟩ := extractLoop_some hapart.tail hwithin.tail hloop
      have hlength : (entry c).2.length = c.2.length := rfl
      refine ⟨l', hdata, hapart', by rw [held_cons]; omega, fun d hd => ?_⟩
      obtain ⟨e, he, hle⟩ := hfrom d hd
      exact ⟨e, mem_cons_of_mem _ he, hle⟩
    · rw [if_neg hfit] at h
      have hlt : k + 1 < c.2.length := Nat.lt_of_not_le hfit
      obtain ⟨hstore, hstop, hapart'⟩ := store_rest hapart hwithin (Nat.succ_pos k) hlt
      rw [← map_cons, hstore] at h
      cases h
      refine ⟨_, rfl, hapart', by rw [held_cons, held_cons, length_drop]; omega, fun d hd => ?_⟩
      rcases mem_cons.mp hd with rfl | hd
      · exact ⟨c, by simp, Nat.le_add_right .., hstop⟩
      · exact ⟨d, mem_cons_of_mem _ hd, Nat.le_refl _, rfl⟩

theorem Placed.extract (h : Placed b chunks n) {maxSize : Nat} {r : TcpRxBuffer × Option Bytes}
    (heq : b.extract maxSize = some r) : ∃ chunks', Placed r.1 chunks' n := by
  unfold TcpRxBuffer.extract at heq
  by_cases hzero : min maxSize b.availBytes = 0
  · rw [if_pos hzero] at heq
    cases heq
    exact ⟨chunks, h⟩
  · rw [if_neg hzero] at heq
    obtain ⟨r', hloop, rfl⟩ := map_eq_some_iff.mp heq
    rw [h.data] at hloop
    obtain ⟨chunks', hdata, hapart, hheld, hfrom⟩ := extractLoop_some h.apart h.within hloop
    have hbound := h.apart.held_within h.within
    have hle := floor_le chunks n
    have hlow := h.low
    have hnear := h.near
    have hfloor : floor chunks n ≤ floor chunks' n := by
      refine le_floor hle fun c hc => ?_
      obtain ⟨d, hd, hdc, -⟩ := hfrom c hc
      exact Nat.le_trans (h.apart.floor_le d hd) hdc
    refine ⟨chunks', hdata, hapart, h.next, ?_, by omega, fun c hc => ?_, by omega, fun hne => ?_⟩
    · show uint32 (b.size - (min maxSize b.availBytes : Nat)) = held chunks'
      rw [h.size, uint32_sub (by omega) (by omega)]
      omega
    · obtain ⟨d, hd, -, hstop⟩ := hfrom c hc
      have := h.inside d hd
      show c.stop ≤ _ + b.maxBuffer
      omega
    · obtain ⟨c, hc⟩ := exists_mem_of_ne_nil _ hne
      obtain ⟨d, hd, -⟩ := hfrom c hc
      exact h.window (ne_nil_of_mem hd)

/-! ## Runs -/

def fresh (firstSeq maxBuffer : Nat) : TcpRxBuffer := { nextRxSeq := ofPosition firstSeq, maxBuffer := maxBuffer }

theorem placed_fresh (firstSeq maxBuffer : Nat) : Placed (fresh firstSeq maxBuffer) [] (firstSeq + 4294967296) where
  data := rfl
  apart := apart_nil
  next := by simp [fresh, ofPosition]
  size := rfl
  low := Nat.le_add_left ..
  inside := by simp
  near := Nat.le_add_right ..
  window := by simp

theorem Placed.step (h : Placed b chunks n) {e : TcpRxEvent} {o : List Bytes} (hk : b.Kept e) (hs : machine.step b e = some (b', o)) :
    ∃ chunks' n', Placed b' chunks' n' := by
  cases e with
  | add p seq =>
    obtain ⟨r, hadd, heq⟩ := map_eq_some_iff.mp hs
    cases heq
    exact h.addStep hk hadd
  | setFinSequence s =>
    cases hs
    obtain ⟨n', hplaced⟩ := h.setFinSequence hk s
    exact ⟨chunks, n', hplaced⟩
  | extract maxSize =>
    obtain ⟨r, hextract, heq⟩ := map_eq_some_iff.mp hs
    cases heq
    obtain ⟨chunks', hplaced⟩ := h.extract hextract
    exact ⟨chunks', n, hplaced⟩

end

/-- **The receive window.** While no segment has a byte to take beyond it, the buffer never holds
more than `m_maxBuffer` bytes; and then `Add` stores nothing from `MaxRxSequence` on just when
the segment has no such byte to take. -/
theorem window_kept (firstSeq maxBuffer : Nat) (tr : List (TcpRxEvent × List Bytes)) (b : TcpRxBuffer)
    (h : Run machine Kept (fresh firstSeq maxBuffer) tr b) :
    b.size ≤ b.maxBuffer ∧ ∀ p seq b' stored, b.Comparable p seq → b.add p seq = some (b', stored) →
      ((∀ q, b'.Holds q → b.Holds q ∨ q.lt b.maxRxSequence = true) ↔
        ∀ i < p.length, b.Takes (seq.add i) → (seq.add i).lt b.maxRxSequence = true) := by
  have hplaced : ∃ chunks n, Placed b chunks n := by
    refine Run.invariant (fun _ b => ∃ chunks n, Placed b chunks n) ⟨[], _, placed_fresh firstSeq maxBuffer⟩ ?_ h
    intro tr s e s' o ⟨chunks, n, hplaced⟩ hk hs
    exact hplaced.step hk hs
  obtain ⟨chunks, n, hplaced⟩ := hplaced
  refine ⟨hplaced.size_le, fun p seq b' stored hc heq => ?_⟩
  have hnew := hplaced.new_iff hc heq
  constructor
  · intro hall i hi htakes
    obtain ⟨hholds, hnot⟩ := (hnew (seq.add i)).mpr ⟨i, hi, rfl, htakes⟩
    exact (hall _ hholds).resolve_left hnot
  · intro hall q hq
    by_cases hold : b.Holds q
    · exact .inl hold
    · obtain ⟨i, hi, rfl, htakes⟩ := (hnew q).mp ⟨hq, hold⟩
      exact .inr (hall i hi htakes)

/-- Data in order and behind a gap, a part of it extracted, and the FIN. -/
def withinWindow : List TcpRxEvent :=
  [.add [1, 2, 3] ⟨4294967294⟩, .add [6, 7] ⟨3⟩, .extract 2, .setFinSequence ⟨5⟩]

theorem withinWindow_isSome : (machine.exec Kept (fresh 4294967294 7) withinWindow).isSome = true := by
  decide +kernel

/-- A segment that fills the gap stays below the FIN, a longer one does not. -/
theorem withinWindow_kept : ∃ tr b, Run machine Kept (fresh 4294967294 7) tr b ∧ b.size ≤ b.maxBuffer ∧
    (∃ b' stored, b.add [4, 5, 6, 7] ⟨1⟩ = some (b', stored) ∧
      ∀ q, b'.Holds q → b.Holds q ∨ q.lt b.maxRxSequence = true) ∧
    ∃ b' stored, b.add [4, 5, 6, 7, 0, 0, 0, 0, 0] ⟨1⟩ = some (b', stored) ∧
      ¬ ∀ q, b'.Holds q → b.Holds q ∨ q.lt b.maxRxSequence = true := by
  have hrun := run_of_isSome machine Kept (fresh 4294967294 7) withinWindow withinWindow_isSome
  obtain ⟨hsize, hkept⟩ := window_kept 4294967294 7 _ _ hrun
  refine ⟨_, _, hrun, hsize, ?_, ?_⟩
  · obtain ⟨r, hadd⟩ := isSome_iff_exists.mp (of_decide_eq_true rfl :
      (TcpRxBuffer.add ((machine.exec Kept (fresh 4294967294 7) withinWindow).get withinWindow_isSome).2
        [4, 5, 6, 7] ⟨1⟩).isSome = true)
    exact ⟨r.1, r.2, hadd, (hkept _ _ _ _ (by decide +kernel) hadd).mpr (by decide +kernel)⟩
  · obtain ⟨r, hadd⟩ := isSome_iff_exists.mp (of_decide_eq_true rfl :
      (TcpRxBuffer.add ((machine.exec Kept (fresh 4294967294 7) withinWindow).get withinWindow_isSome).2
        [4, 5, 6, 7, 0, 0, 0, 0, 0] ⟨1⟩).isSome = true)
    refine ⟨r.1, r.2, hadd, fun hall => ?_⟩
    exact absurd ((hkept _ _ _ _ (by decide +kernel) hadd).mp hall) (by decide +kernel)

/-- Ten bytes for an empty buffer of four. -/
theorem first_segment_kept : ∃ b, Run machine anyStep (fresh 0 4) [(.add (List.replicate 10 7) ⟨0⟩, [])] b ∧
    (⟨0⟩ : SequenceNumber32).lt (fresh 0 4).maxRxSequence = true ∧ b.Holds ⟨9⟩ ∧ ¬ (fresh 0 4).Holds ⟨9⟩ ∧
    (⟨9⟩ : SequenceNumber32).lt (fresh 0 4).maxRxSequence = false ∧ b.maxBuffer = 4 ∧ b.size = 10 := by
  refine ⟨_, Run.snoc .nil trivial rfl, ?_⟩
  decide +kernel

end TcpRxBuffer

end Ns3
