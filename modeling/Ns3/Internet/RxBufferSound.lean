import Ns3.Internet.RxChunks

/-!
# Reassembly of a stream

Segments of a stream arrive at a receive buffer in any order, with any overlap,
while the application extracts what is in order. Beside the buffer stands what
was received of the stream: all of a segment that is inside the receive window,
which ends `m_maxBuffer` bytes behind the first byte stored.

Positions count the bytes of the stream from `firstSeq`, the initial sequence
number, on. The buffer holds just the bytes received and not extracted.
-/

namespace Ns3

open Machine SequenceNumber32 TcpRxBuffer List

structure TcpReception where
  buffer : TcpRxBuffer
  stream : Bytes
  /-- The position of the first byte. -/
  firstSeq : Nat
  /-- The bounds of what was received of each segment. -/
  received : List (Nat × Nat) := []
  extracted : Nat := 0
  /-- The FIN was announced. -/
  announced : Bool := false

inductive ReceptionEvent where
  | segment (first last : Nat)
  | fin
  | extract (maxSize : Nat)
  deriving DecidableEq

namespace TcpReception

def start (firstSeq maxBuffer : Nat) (stream : Bytes) : TcpReception where
  buffer := { nextRxSeq := ofPosition firstSeq, maxBuffer := maxBuffer }
  stream := stream
  firstSeq := firstSeq

def endOfStream (s : TcpReception) : Nat := s.firstSeq + s.stream.length

/-- The position of the first byte not extracted. -/
def unread (s : TcpReception) : Nat := s.firstSeq + s.extracted

def Received (s : TcpReception) (q : Nat) : Prop := ∃ bounds ∈ s.received, bounds.1 ≤ q ∧ q < bounds.2

instance (s : TcpReception) (q : Nat) : Decidable (s.Received q) := inferInstanceAs (Decidable (∃ _ ∈ _, _))

/-- The first of `n` positions from `q` on that was not received. -/
def firstMissing (s : TcpReception) : Nat → Nat → Nat
  | 0, q => q
  | n + 1, q => if s.Received q then firstMissing s n (q + 1) else q

/-- The first byte never received. -/
def next (s : TcpReception) : Nat := s.firstMissing s.stream.length s.firstSeq

/-- The position `NextRxSequence` stands for: one more once the FIN is consumed. -/
def expected (s : TcpReception) : Nat := if s.announced ∧ s.next = s.endOfStream then s.next + 1 else s.next

def firstStored (s : TcpReception) : Option Nat :=
  (s.received.filterMap fun bounds =>
    if max bounds.1 s.unread < bounds.2 then some (max bounds.1 s.unread) else none).min?

/-- The part of a segment inside the receive window ends here. -/
def cutoff (s : TcpReception) (last : Nat) : Nat :=
  match s.firstStored with
  | none => last
  | some first => min last (first + s.buffer.maxBuffer)

def machine : Machine TcpReception ReceptionEvent Bytes where
  step s
    | .segment first last =>
      (s.buffer.add ((s.stream.drop (first - s.firstSeq)).take (last - first)) (ofPosition first)).map fun r =>
        ({ s with buffer := r.1, received := (first, s.cutoff last) :: s.received }, [])
    | .fin => some ({ s with buffer := s.buffer.setFinSequence (ofPosition s.endOfStream), announced := true }, [])
    | .extract maxSize =>
      (s.buffer.extract maxSize).map fun r =>
        ({ s with buffer := r.1, extracted := s.extracted + (r.2.elim 0 List.length) }, r.2.toList)

/-- Segments of the stream and its end, within `2 ^ 30` bytes of the next byte. -/
def Nearby (s : TcpReception) : ReceptionEvent → Prop
  | .segment first last => s.firstSeq ≤ first ∧ first ≤ last ∧ last ≤ s.endOfStream ∧
      s.expected ≤ first + 1073741824 ∧ last ≤ s.expected + 1073741824
  | .fin => s.endOfStream ≤ s.expected + 1073741824
  | .extract _ => True

/-- Moreover, the end of a segment and the end of the window can be compared. -/
def Windowed (s : TcpReception) : ReceptionEvent → Prop
  | .segment first last => Nearby s (.segment first last) ∧
      ∀ stored ∈ s.firstStored, Near (stored + s.buffer.maxBuffer) last
  | e => Nearby s e

/-! ## What was received -/

section
variable {s : TcpReception}

theorem firstMissing_eq {m : Nat} : ∀ (n q : Nat), q ≤ m → m ≤ q + n → (∀ r, q ≤ r → r < m → s.Received r) →
    ¬ s.Received m → s.firstMissing n q = m
  | 0, q, hle, hle', _, _ => by
    rw [firstMissing]
    omega
  | n + 1, q, hle, hle', hall, hmissing => by
    rw [firstMissing]
    by_cases heq : q = m
    · rw [heq, if_neg hmissing]
    · rw [if_pos (hall q (Nat.le_refl q) (by omega))]
      exact firstMissing_eq n (q + 1) (by omega) (by omega) (fun r hr hr' => hall r (by omega) hr') hmissing

theorem firstStored_eq_none : s.firstStored = none ↔ ∀ q, s.Received q → q < s.unread := by
  rw [firstStored, min?_eq_none_iff, filterMap_eq_nil_iff]
  constructor
  · rintro h q ⟨bounds, hmem, hq⟩
    have := h bounds hmem
    simp only [ite_eq_right_iff, reduceCtorEq, imp_false] at this
    omega
  · intro h bounds hmem
    rw [if_neg]
    intro hlt
    have := h (max bounds.1 s.unread) ⟨bounds, hmem, Nat.le_max_left .., hlt⟩
    omega

theorem firstStored_eq_some {f : Nat} (hf : s.Received f) (hle : s.unread ≤ f)
    (hleast : ∀ q, s.Received q → s.unread ≤ q → f ≤ q) : s.firstStored = some f := by
  rw [firstStored, min?_eq_some_iff]
  constructor
  · obtain ⟨bounds, hmem, hq⟩ := hf
    have := hleast (max bounds.1 s.unread) ⟨bounds, hmem, by omega, by omega⟩ (by omega)
    exact mem_filterMap.mpr ⟨bounds, hmem, by rw [if_pos (by omega), Option.some.injEq]; omega⟩
  · intro g hg
    obtain ⟨bounds, hmem, hb⟩ := mem_filterMap.mp hg
    split at hb
    · cases hb
      exact hleast _ ⟨bounds, hmem, by omega, by omega⟩ (by omega)
    · cases hb

end

/-! ## The invariant -/

/-- The buffer holds the chunks, `n` is the first byte not received, and the blocks
above it are reported. -/
structure Inv (s : TcpReception) (chunks : List Chunk) (n : Nat) (blocks : List (Nat × Nat)) : Prop where
  data : s.buffer.data = chunks.map entry
  apart : Apart chunks
  pieces : ∀ c ∈ chunks, s.unread ≤ c.1 ∧ PieceOf s.stream s.firstSeq c
  stored : ∀ q, Stored chunks q ↔ s.Received q ∧ s.unread ≤ q
  size : s.buffer.size = held chunks
  limit : s.buffer.maxBuffer + 1 < 2147483648
  unread : s.unread ≤ n
  below : ∀ q, s.firstSeq ≤ q → q < n → s.Received q
  missing : ¬ s.Received n
  bounds : ∀ q, s.Received q → s.firstSeq ≤ q ∧ q < s.endOfStream
  le_end : n ≤ s.endOfStream
  gotFin : s.buffer.gotFin = s.announced
  fin : s.announced = true → s.buffer.finSeq = ofPosition s.endOfStream ∧ s.endOfStream ≤ n + 1073741824
  nextRxSeq : s.buffer.nextRxSeq = ofPosition s.expected
  availBytes : s.buffer.availBytes = n - s.unread
  ahead : ∀ c ∈ chunks, c.stop ≤ n + 1073741824
  span : ∀ c ∈ chunks, ∀ d ∈ chunks.head?, c.stop ≤ d.1 + max s.buffer.maxBuffer 1073741824
  sackList : s.buffer.sackList = blocks.map sackBlock
  blocks : ∀ x ∈ blocks, n < x.1 ∧ x.1 < x.2 ∧ ∀ q, x.1 ≤ q → q < x.2 → s.Received q

theorem inv_start {firstSeq maxBuffer : Nat} (stream : Bytes) (hmax : maxBuffer + 1 < 2147483648) :
    Inv (start firstSeq maxBuffer stream) [] firstSeq [] where
  data := rfl
  apart := apart_nil
  pieces := by simp
  stored := by simp [Received, start]
  size := rfl
  limit := hmax
  unread := Nat.le_refl _
  below := fun q hq hq' => absurd hq' (Nat.not_lt.mpr hq)
  missing := by simp [Received, start]
  bounds := by simp [Received, start]
  le_end := Nat.le_add_right _ _
  gotFin := rfl
  fin := fun h => by cases h
  nextRxSeq := by
    have hnone : ∀ q, ¬ (start firstSeq maxBuffer stream).Received q := by simp [Received, start]
    have hnext : (start firstSeq maxBuffer stream).next = firstSeq :=
      firstMissing_eq _ _ (Nat.le_refl _) (Nat.le_add_right _ _)
        (fun q hq hq' => absurd hq' (Nat.not_lt.mpr hq)) (hnone _)
    rw [expected, if_neg fun h => Bool.false_ne_true h.1, hnext]
    rfl
  availBytes := (Nat.sub_self _).symm
  ahead := by simp
  span := by simp
  sackList := rfl
  blocks := by simp

section
variable {s : TcpReception} {chunks : List Chunk} {n : Nat} {blocks : List (Nat × Nat)}

theorem Inv.first_le (h : Inv s chunks n blocks) : s.firstSeq ≤ n := Nat.le_trans (Nat.le_add_right _ _) h.unread

theorem Inv.next_eq (h : Inv s chunks n blocks) : s.next = n := by
  have hle := h.le_end
  exact firstMissing_eq _ _ h.first_le hle h.below h.missing

theorem Inv.expected_eq (h : Inv s chunks n blocks) :
    s.expected = if s.announced ∧ n = s.endOfStream then n + 1 else n := by
  rw [expected, h.next_eq]

theorem Inv.le_expected (h : Inv s chunks n blocks) : n ≤ s.expected ∧ s.expected ≤ n + 1 := by
  rw [h.expected_eq]
  split <;> omega

theorem Inv.received_of_lt (h : Inv s chunks n blocks) {q : Nat} (hq : s.firstSeq ≤ q) (hq' : q < s.endOfStream)
    (hlt : q < s.expected) : s.Received q := by
  apply h.below q hq
  rw [h.expected_eq] at hlt
  split at hlt <;> omega

theorem Inv.not_stored (h : Inv s chunks n blocks) : ¬ Stored chunks n := fun hs => h.missing ((h.stored n).mp hs).1

/-- All chunks and the next sequence number lie in the half from here on. -/
def floor (chunks : List Chunk) (n : Nat) : Nat := chunks.head?.elim n fun c => min n c.1

theorem floor_le (chunks : List Chunk) (n : Nat) : floor chunks n ≤ n := by
  cases chunks with
  | nil => exact Nat.le_refl n
  | cons c l => exact Nat.min_le_left ..

theorem Inv.head_le (h : Inv s chunks n blocks) {c : Chunk} {l : List Chunk} (hchunks : chunks = c :: l) :
    ∀ d ∈ chunks, c.1 ≤ d.1 := by
  intro d hd
  have hapart := h.apart
  rw [hchunks] at hd hapart
  have hpos := hapart.pos c (by simp)
  rcases mem_cons.mp hd with rfl | hd
  · exact Nat.le_refl _
  · have := hapart.behind d hd
    omega

theorem Inv.next_le (h : Inv s chunks n blocks) {c : Chunk} {l : List Chunk} (hchunks : chunks = c :: l) :
    n ≤ c.1 + max s.buffer.maxBuffer 1073741824 := by
  by_cases hlt : c.1 < n
  · have hc : c ∈ chunks := by simp [hchunks]
    have hlo := (h.pieces c hc).1
    have hreceived : s.Received (n - 1) := by
      apply h.below
      · unfold TcpReception.unread at hlo
        omega
      · omega
    obtain ⟨d, hd, hq⟩ := (h.stored (n - 1)).mpr ⟨hreceived, by omega⟩
    have := h.span d hd c (by simp [hchunks])
    omega
  · omega

theorem Inv.availBytes_lt (h : Inv s chunks n blocks) : s.buffer.availBytes < 2147483648 := by
  have hlimit := h.limit
  rw [h.availBytes]
  by_cases hlt : s.unread < n
  · obtain ⟨c, hc, hq⟩ := (h.stored s.unread).mpr ⟨h.below _ (Nat.le_add_right _ _) hlt, Nat.le_refl _⟩
    obtain ⟨f, l, hchunks⟩ := exists_cons_of_ne_nil (ne_nil_of_mem hc)
    have hle := h.head_le hchunks c hc
    have hnext := h.next_le hchunks
    omega
  · omega

theorem Inv.within (h : Inv s chunks n blocks) : Within (floor chunks n) chunks := by
  intro d hd
  have hlimit := h.limit
  have hahead := h.ahead d hd
  cases hchunks : chunks with
  | nil => simp [hchunks] at hd
  | cons c l =>
    have hle := h.head_le hchunks d hd
    have hspan := h.span d hd c (by simp [hchunks])
    simp only [floor, head?_cons, Option.elim_some]
    omega

theorem Inv.next_lt (h : Inv s chunks n blocks) : n + 1 < floor chunks n + 2147483648 := by
  have hlimit := h.limit
  cases hchunks : chunks with
  | nil =>
    show n + 1 < n + _
    omega
  | cons c l =>
    have := h.next_le hchunks
    simp only [floor, head?_cons, Option.elim_some]
    omega

theorem Inv.firstStored (h : Inv s chunks n blocks) : s.firstStored = chunks.head?.map (·.1) := by
  cases hchunks : chunks with
  | nil =>
    rw [head?_nil, Option.map_none, firstStored_eq_none]
    intro q hq
    by_contra hge
    have := (h.stored q).mpr ⟨hq, Nat.le_of_not_lt hge⟩
    rw [hchunks] at this
    exact stored_nil q this
  | cons c l =>
    have hc : c ∈ chunks := by simp [hchunks]
    have hpos := h.apart.pos c hc
    have hs := (h.stored c.1).mp ⟨c, hc, Nat.le_refl _, hpos⟩
    refine firstStored_eq_some hs.1 hs.2 fun q hq hq' => ?_
    obtain ⟨d, hd, hd'⟩ := (h.stored q).mpr ⟨hq, hq'⟩
    exact Nat.le_trans (h.head_le hchunks d hd) hd'.1

theorem received_congr (s' : TcpReception) (hfirst : s'.firstSeq = s.firstSeq) (hstream : s'.stream = s.stream)
    (hreceived : ∀ q, s'.Received q ↔ s.Received q) : s'.next = s.next := by
  rw [next, next, hfirst, hstream]
  generalize s.stream.length = k
  generalize s.firstSeq = q
  induction k generalizing q with
  | zero => rfl
  | succ k ih =>
    rw [firstMissing, firstMissing, ih]
    simp only [hreceived]

/-! ## Segments -/

/-- The state once a segment was received up to `t`. -/
def receive (s : TcpReception) (b : TcpRxBuffer) (first t : Nat) : TcpReception :=
  { s with buffer := b, received := (first, t) :: s.received }

theorem received_receive (s : TcpReception) (b : TcpRxBuffer) (first t q : Nat) :
    (s.receive b first t).Received q ↔ s.Received q ∨ first ≤ q ∧ q < t := by
  rw [or_comm]
  simp only [Received, receive, mem_cons, exists_eq_or_imp]

theorem Inv.again (h : Inv s chunks n blocks) {first t : Nat} (hall : ∀ q, first ≤ q → q < t → s.Received q) :
    Inv (s.receive s.buffer first t) chunks n blocks := by
  have hsame : ∀ q, (s.receive s.buffer first t).Received q ↔ s.Received q := by
    intro q
    rw [received_receive]
    constructor
    · rintro (hq | hq)
      · exact hq
      · exact hall q hq.1 hq.2
    · exact .inl
  have hnext : (s.receive s.buffer first t).expected = s.expected := by
    rw [expected, expected, received_congr (s.receive s.buffer first t) (s := s) rfl rfl hsame]
    rfl
  refine { h with stored := ?_, below := ?_, missing := ?_, bounds := ?_, nextRxSeq := ?_, blocks := ?_ }
  · intro q
    rw [h.stored, hsame]
    rfl
  · intro q hq hq'
    exact (hsame q).mpr (h.below q hq hq')
  · rw [hsame]
    exact h.missing
  · intro q hq
    exact h.bounds q ((hsame q).mp hq)
  · rw [hnext]
    exact h.nextRxSeq
  · intro x hx
    exact ⟨(h.blocks x hx).1, (h.blocks x hx).2.1, fun q hq hq' => (hsame q).mpr ((h.blocks x hx).2.2 q hq hq')⟩

/-- What is left of a segment from `first` to `t`, once it is trimmed against the chunks. -/
structure Fresh (s : TcpReception) (chunks : List Chunk) (n first t : Nat) (rest : List Chunk) (head tail : Nat) : Prop where
  sublist : rest.Sublist chunks
  gap : ∀ c ∈ rest, Chunk.stop c ≤ head ∨ tail ≤ c.1
  pos : head < tail
  head_le : max first s.expected ≤ head
  tail_le : tail ≤ t
  missing : ¬ Stored chunks head
  /-- A chunk that is gone lies inside the segment. -/
  swallowed : ∀ c ∈ chunks, c ∈ rest ∨ Chunk.stop c < t
  stored : ∀ q, (Stored rest q ∨ head ≤ q ∧ q < tail) ↔ (Stored chunks q ∨ max first s.expected ≤ q ∧ q < t)

/-- The blocks once a segment is reported, unless it is the next one. -/
def reportBlocks (n : Nat) (block : Nat × Nat) (blocks : List (Nat × Nat)) : List (Nat × Nat) :=
  if n < block.1 then pushBlock block blocks else blocks

/-- What a segment up to `t` makes of the chunks and the blocks, when something of it is new. -/
structure Added (s : TcpReception) (chunks : List Chunk) (n : Nat) (blocks : List (Nat × Nat)) (first t : Nat)
    (chunks' : List Chunk) (n' : Nat) (blocks' : List (Nat × Nat)) (rest : List Chunk) (head tail : Nat) (p : Bytes) : Prop where
  fresh : Fresh s chunks n first t rest head tail
  length : p.length = tail - head
  expected : s.expected = n
  chunks : chunks' = insertEntry head p rest
  blocks : blocks' = (reportBlocks n (head, tail) blocks).filter fun x => n' < x.2

section
variable {first last t head tail lo : Nat} {rest : List Chunk}

theorem Fresh.expected_eq (hf : Fresh s chunks n first t rest head tail) (h : Inv s chunks n blocks)
    (hend : t ≤ s.endOfStream) : s.expected = n := by
  have hhead := hf.head_le
  have hpos := hf.pos
  have htail := hf.tail_le
  have hexpected := h.expected_eq
  split at hexpected <;> omega

theorem Fresh.received (hf : Fresh s chunks n first t rest head tail) (h : Inv s chunks n blocks) (b : TcpRxBuffer)
    (hfirst : s.firstSeq ≤ first) (hend : t ≤ s.endOfStream) (q : Nat) :
    (Stored rest q ∨ head ≤ q ∧ q < tail) ↔ (s.receive b first t).Received q ∧ s.unread ≤ q := by
  have hunread := h.unread
  have hexpected := hf.expected_eq h hend
  rw [hf.stored, received_receive, h.stored]
  constructor
  · rintro (hq | hq)
    · exact ⟨.inl hq.1, hq.2⟩
    · exact ⟨.inr ⟨by omega, hq.2⟩, by omega⟩
  · rintro ⟨hq | hq, hq'⟩
    · exact .inl ⟨hq, hq'⟩
    · by_cases hlt : q < n
      · exact .inl ⟨h.below q (by omega) hlt, hq'⟩
      · exact .inr ⟨by omega, hq.2⟩

theorem fragment_eq {seq : Nat} (hseq : s.firstSeq ≤ seq) (hhead : seq ≤ head) (hle : head ≤ tail) (htail : tail ≤ last) :
    (((s.stream.drop (seq - s.firstSeq)).take (last - seq)).drop (head - seq)).take (tail - head) =
      (s.stream.drop (head - s.firstSeq)).take (tail - head) := by
  rw [drop_take, drop_drop, take_take]
  congr 2 <;> omega

/-- The chunks with a new one among them, when the bytes up to `t` are received. -/
structure Stocked (s : TcpReception) (n lo first t : Nat) (l : List Chunk) : Prop where
  apart : Apart l
  within : Within lo l
  pieces : ∀ c ∈ l, s.unread ≤ c.1 ∧ PieceOf s.stream s.firstSeq c
  stored : ∀ q, Stored l q ↔ (s.receive s.buffer first t).Received q ∧ s.unread ≤ q
  split : ∀ c ∈ l, Chunk.stop c ≤ n ∨ n ≤ c.1
  ahead : ∀ c ∈ l, Chunk.stop c ≤ n + 1073741824
  span : ∀ c ∈ l, ∀ d ∈ l.head?, Chunk.stop c ≤ d.1 + max s.buffer.maxBuffer 1073741824

variable {p : Bytes} {l : List Chunk}

theorem Fresh.stocked (hf : Fresh s chunks n first t rest head tail) (h : Inv s chunks n blocks)
    (hnear : Nearby s (.segment first last)) (hlast : t ≤ last) (hwithin : Within lo chunks) (hlo : lo ≤ n)
    (htail : tail < lo + 2147483648) (hspan : ∀ d ∈ chunks.head?, tail ≤ d.1 + max s.buffer.maxBuffer 1073741824)
    (hp : p = (s.stream.drop (head - s.firstSeq)).take (tail - head)) :
    p.length = tail - head ∧ Stocked s n lo first t (insertEntry head p rest) ∧
      held (insertEntry head p rest) = held rest + p.length := by
  obtain ⟨hfirst, -, hend, -, hahead⟩ := hnear
  have hexpected := hf.expected_eq h (by omega)
  have hhead := hf.head_le
  have hpos := hf.pos
  have htailt := hf.tail_le
  have hunread := h.unread
  have hlength : p.length = tail - head := by
    rw [hp, length_take, length_drop]
    unfold endOfStream at hend
    lia
  have hstop : Chunk.stop (head, p) = tail := by
    show head + p.length = tail
    omega
  have hpiece : PieceOf s.stream s.firstSeq (head, p) := by
    refine ⟨by show s.firstSeq ≤ head; omega, ?_⟩
    rw [hlength, hp]
  obtain ⟨hapart, hperm⟩ := (h.apart.sublist hf.sublist).insert (k := head) (p := p) (by omega) (by
    intro c hc
    rw [hlength, Nat.add_sub_cancel' (Nat.le_of_lt hpos)]
    exact hf.gap c hc)
  have hmem : ∀ c, c ∈ insertEntry head p rest → c = (head, p) ∨ c ∈ chunks := by
    intro c hc
    rcases mem_cons.mp (hperm.mem_iff.mp hc) with hc | hc
    · exact .inl hc
    · exact .inr (hf.sublist.subset hc)
  have hbound : ∀ c ∈ insertEntry head p rest, Chunk.stop c ≤ n + 1073741824 := by
    intro c hc
    rcases hmem c hc with rfl | hc
    · omega
    · exact h.ahead c hc
  refine ⟨hlength, ⟨hapart, ?_, ?_, ?_, ?_, hbound, ?_⟩, ?_⟩
  · intro c hc
    rcases hmem c hc with rfl | hc
    · rw [hstop]
      exact ⟨by show lo ≤ head; omega, htail⟩
    · exact hwithin c hc
  · intro c hc
    rcases hmem c hc with rfl | hc
    · exact ⟨by show s.unread ≤ head; omega, hpiece⟩
    · exact h.pieces c hc
  · intro q
    rw [stored_perm hperm, stored_cons, hstop, or_comm]
    exact hf.received h s.buffer hfirst (by omega) q
  · intro c hc
    rcases hmem c hc with rfl | hc
    · exact .inr (by show n ≤ head; omega)
    · have hmissing := h.not_stored
      by_contra hnot
      exact hmissing ⟨c, hc, by omega, by omega⟩
  · intro c hc d hd
    have hc' := hbound c hc
    rcases hmem d (mem_of_mem_head? hd) with rfl | hd'
    · omega
    · -- the first chunk stands where it stood, or behind
      obtain ⟨f, l, hchunks⟩ := exists_cons_of_ne_nil (ne_nil_of_mem hd')
      have hle := h.head_le hchunks d hd'
      rcases hmem c hc with rfl | hc
      · have := hspan f (by simp [hchunks])
        omega
      · have := h.span c hc f (by simp [hchunks])
        omega
  · rw [held_perm hperm, held_cons, Nat.add_comm]

/-- A block of bytes that were received, above the next one. -/
def Above (s : TcpReception) (n : Nat) (x : Nat × Nat) : Prop :=
  n < x.1 ∧ x.1 < x.2 ∧ ∀ q, x.1 ≤ q → q < x.2 → s.Received q

theorem Stocked.joins (hl : Stocked s n lo first t l) (hlo : lo ≤ n) (hunread : s.unread ≤ n) :
    Joins lo (Above (s.receive s.buffer first t) n) where
  within := by
    rintro x ⟨h₁, h₂, h₃⟩
    obtain ⟨c, hc, hq⟩ := (hl.stored (x.2 - 1)).mpr ⟨h₃ _ (by omega) (by omega), by omega⟩
    have := (hl.within c hc).2
    omega
  join := by
    rintro x y ⟨h₁, h₂, h₃⟩ ⟨h₄, h₅, h₆⟩ heq
    refine ⟨h₁, by dsimp only; omega, fun q hq hq' => ?_⟩
    by_cases hlt : q < x.2
    · exact h₃ q hq hlt
    · exact h₆ q (by lia) hq'

theorem Inv.report (h : Inv s chunks n blocks) (first t : Nat) (hexpected : s.expected = n) (b : TcpRxBuffer)
    (hsame : b.nextRxSeq = s.buffer.nextRxSeq ∧ b.sackList = s.buffer.sackList) (hlo : lo ≤ n) (hn : n < lo + 2147483648)
    (hhead : n ≤ head) (hpos : head < tail) (hnew : ∀ q, head ≤ q → q < tail → (s.receive s.buffer first t).Received q)
    (hjoins : Joins lo (Above (s.receive s.buffer first t) n)) :
    (if (ofPosition head).gt b.nextRxSeq then b.updateSackList (ofPosition head) (ofPosition tail) else some b) =
        some { b with sackList := (reportBlocks n (head, tail) blocks).map sackBlock } ∧
      ∀ x ∈ reportBlocks n (head, tail) blocks, Above (s.receive s.buffer first t) n x := by
  have hnext : b.nextRxSeq = ofPosition n := by rw [hsame.1, h.nextRxSeq, hexpected]
  have hlist : b.sackList = blocks.map sackBlock := hsame.2.trans h.sackList
  have hold : ∀ x ∈ blocks, Above (s.receive s.buffer first t) n x := by
    intro x hx
    obtain ⟨h₁, h₂, h₃⟩ := h.blocks x hx
    exact ⟨h₁, h₂, fun q hq hq' => (received_receive ..).mpr (.inl (h₃ q hq hq'))⟩
  by_cases hlt : n < head
  · have hblock : Above (s.receive s.buffer first t) n (head, tail) := ⟨hlt, hpos, hnew⟩
    have hwithin := (hjoins.within (head, tail) hblock).2.2
    have hgt : (ofPosition head).gt b.nextRxSeq = true := by
      rw [hnext, gt_ofPosition ⟨by dsimp only at hwithin; omega, by omega⟩]
      exact decide_eq_true hlt
    rw [if_pos hgt, reportBlocks, if_pos hlt]
    exact updateSackList_spec hjoins hnext hlo hlt hblock hlist hold
  · obtain rfl : head = n := by omega
    have hgt : ¬ (ofPosition head).gt b.nextRxSeq = true := by
      rw [hnext, gt_ofPosition ⟨by omega, by omega⟩]
      simp
    rw [if_neg hgt, reportBlocks, if_neg hlt]
    exact ⟨by rw [← hlist], hold⟩

theorem Stocked.reached {n' : Nat} (hl : Stocked s n lo first t l) (h : Inv s chunks n blocks)
    (hfirst : s.firstSeq ≤ first) (hend : t ≤ s.endOfStream) (hreached : Reached l n n') :
    (∀ q, s.firstSeq ≤ q → q < n' → (s.receive s.buffer first t).Received q) ∧
      ¬ (s.receive s.buffer first t).Received n' ∧
    (∀ q, (s.receive s.buffer first t).Received q → s.firstSeq ≤ q ∧ q < s.endOfStream) ∧ n' ≤ s.endOfStream := by
  have hunread := h.unread
  have hle := hreached.le
  have hbounds : ∀ q, (s.receive s.buffer first t).Received q → s.firstSeq ≤ q ∧ q < s.endOfStream := by
    intro q hq
    rcases (received_receive ..).mp hq with hq | hq
    · exact h.bounds q hq
    · omega
  refine ⟨?_, ?_, hbounds, ?_⟩
  · intro q hq hq'
    by_cases hlt : q < n
    · exact (received_receive ..).mpr (.inl (h.below q hq hlt))
    · exact ((hl.stored q).mp (hreached.stored q (by omega) hq')).1
  · intro hq
    exact hreached.missing ((hl.stored n').mpr ⟨hq, by omega⟩)
  · by_cases heq : n' = n
    · rw [heq]
      exact h.le_end
    · have := hbounds (n' - 1) ((hl.stored (n' - 1)).mp (hreached.stored (n' - 1) (by omega) (by omega))).1
      omega

theorem Stocked.inv {n' : Nat} {blocks' : List (Nat × Nat)} (hl : Stocked s n lo first t l)
    (h : Inv s chunks n blocks) (hfirst : s.firstSeq ≤ first) (hend : t ≤ s.endOfStream) (hreached : Reached l n n')
    (hblocks : ∀ x ∈ blocks', Above (s.receive s.buffer first t) n x ∧ n' < x.2) {b : TcpRxBuffer}
    (hb : b = { s.buffer with
      nextRxSeq := ofPosition (if s.announced ∧ n' = s.endOfStream then n' + 1 else n')
      size := held l
      availBytes := s.buffer.availBytes + (n' - n)
      data := l.map entry
      sackList := blocks'.map sackBlock }) :
    Inv (s.receive b first t) l n' blocks' := by
  obtain ⟨hbelow, hmissing, hbounds, hend'⟩ := hl.reached h hfirst hend hreached
  have hunread := h.unread
  have hle := hreached.le
  have hfirstn := h.first_le
  have hnext : (s.receive b first t).next = n' :=
    firstMissing_eq _ _ (Nat.le_trans hfirstn hle) hend' hbelow hmissing
  subst hb
  refine {
    data := rfl, apart := hl.apart, pieces := hl.pieces, stored := hl.stored, size := rfl, limit := h.limit,
    unread := Nat.le_trans hunread hle, below := hbelow, missing := hmissing, bounds := hbounds, le_end := hend',
    gotFin := h.gotFin, fin := ?_, nextRxSeq := ?_, availBytes := ?_, ahead := ?_, span := hl.span, sackList := rfl,
    blocks := ?_ }
  · intro ha
    exact ⟨(h.fin ha).1, Nat.le_trans (h.fin ha).2 (Nat.add_le_add_right hle _)⟩
  · rw [expected, hnext]
    rfl
  · show s.buffer.availBytes + (n' - n) = n' - s.unread
    rw [h.availBytes]
    omega
  · intro c hc
    exact Nat.le_trans (hl.ahead c hc) (Nat.add_le_add_right hle _)
  · intro x hx
    obtain ⟨⟨h₁, h₂, h₃⟩, h₄⟩ := hblocks x hx
    refine ⟨?_, h₂, h₃⟩
    -- the block holds only bytes received, so the missing one is below it
    by_contra hnot
    exact hmissing (h₃ n' (by omega) h₄)

theorem Inv.insert (h : Inv s chunks n blocks) (hf : Fresh s chunks n first t rest head tail)
    (hnear : Nearby s (.segment first last)) (hlast : t ≤ last) (hwithin : Within lo chunks) (hlo : lo ≤ n)
    (hn : n < lo + 2147483648) (htail : tail < lo + 2147483648)
    (hspan : ∀ d ∈ chunks.head?, tail ≤ d.1 + max s.buffer.maxBuffer 1073741824)
    (hp : p = (s.stream.drop (head - s.firstSeq)).take (tail - head)) :
    ∃ b chunks' n' blocks', TcpRxBuffer.insert { s.buffer with data := rest.map entry, size := held rest } (ofPosition head)
        (ofPosition tail) p = some b ∧ Inv (s.receive b first t) chunks' n' blocks' ∧
      Added s chunks n blocks first t chunks' n' blocks' rest head tail p := by
  obtain ⟨hlength, hl, hheld⟩ := hf.stocked h hnear hlast hwithin hlo htail hspan hp
  obtain ⟨hfirst, -, hend, -, hahead⟩ := hnear
  have hexpected := hf.expected_eq h (by omega)
  have hhead := hf.head_le
  have hpos := hf.pos
  have hunread := h.unread
  have hjoins := hl.joins hlo hunread
  have hsmall := hl.apart.held_within hl.within
  have hrest : Within lo rest := fun c hc => hwithin c (hf.sublist.subset hc)
  have hfree : TcpRxBuffer.present (ofPosition head) (rest.map entry) = false := by
    refine present_eq_false (by lia) (by lia) hrest fun c hc => ?_
    have hpos' := h.apart.pos c (hf.sublist.subset hc)
    have := hf.gap c hc
    omega
  obtain ⟨hreport, hmerged⟩ := h.report first t hexpected
    { s.buffer with data := TcpRxBuffer.store (ofPosition head) p (rest.map entry), size := held rest } ⟨rfl, rfl⟩ hlo hn
    (by omega) hpos (fun q hq hq' => ((hf.received h s.buffer hfirst (by omega) q).mp (.inr ⟨hq, hq'⟩)).1) hjoins
  have hcount : uint32 (held rest + p.length) = held (insertEntry head p rest) := by
    rw [hheld]
    exact uint32_add (by omega)
  have havail := h.availBytes_lt
  obtain ⟨n', hadvance, hreached, hn'⟩ := advance_spec hjoins (insertEntry head p rest)
    { s.buffer with
      data := (insertEntry head p rest).map entry, size := held (insertEntry head p rest), sackList := (reportBlocks n (head, tail) blocks).map sackBlock }
    n (reportBlocks n (head, tail) blocks) hl.apart hl.within hl.split hlo hn (by rw [← hexpected]; exact h.nextRxSeq) (by show s.buffer.availBytes + _ < _; omega) rfl
    (fun x hx => ⟨hmerged x hx, by have := hmerged x hx; unfold Above at this; omega⟩)
  unfold TcpRxBuffer.insert
  rw [hfree, if_neg Bool.false_ne_true]
  simp only [hreport, Option.bind_some]
  rw [store_eq p (by omega) (by omega) rest hrest]
  simp only [hcount, hadvance, Option.map_some]
  refine ⟨_, insertEntry head p rest, n', (reportBlocks n (head, tail) blocks).filter fun x => n' < x.2, rfl, ?_,
    hf, hlength, hexpected, rfl, rfl⟩
  have hend' := (hl.reached h hfirst (by omega) hreached).2.2.2
  have hle := hreached.le
  refine hl.inv h hfirst (by omega) hreached ?_ ?_
  · intro x hx
    have hx' := mem_filter.mp hx
    exact ⟨hmerged x hx'.1, by simpa using hx'.2⟩
  · have hcond : (s.buffer.gotFin && ofPosition n' == s.buffer.finSeq) =
        decide (s.announced = true ∧ n' = s.endOfStream) := by
      rw [h.gotFin]
      by_cases ha : s.announced = true
      · have hfar := (h.fin ha).2
        rw [ha, (h.fin ha).1, Bool.true_and, Bool.eq_iff_iff, beq_iff_eq, ofPosition_inj ⟨by omega, by omega⟩]
        simp
      · simp [ha]
    rw [hcond]
    by_cases hfin : s.announced = true ∧ n' = s.endOfStream
    · rw [if_pos (decide_eq_true hfin), if_pos hfin, add_ofPosition]
    · rw [if_neg (by rw [decide_eq_true_eq]; exact hfin), if_neg hfin]

/-! ## Every step -/

theorem trim_behind (c : Chunk) (l : List Chunk) {t : Nat} (size : Nat) (ht : t < c.1) (hnear : c.1 < t + 2147483648) :
    trim (ofPosition t) (ofPosition t) size ((c :: l).map entry) =
      ⟨ofPosition t, ofPosition t, size, (c :: l).map entry⟩ := by
  have hle : ¬ (entry c).1.le (ofPosition t) = true := by
    rw [entry, le_ofPosition ⟨by omega, by omega⟩, decide_eq_true_eq]
    omega
  rw [map_cons, trim, if_neg hle]

theorem Inv.fit (h : Inv s chunks n blocks) (hwindowed : Windowed s (.segment first last)) :
    ∃ head, s.buffer.fit (ofPosition first) (ofPosition last) = (ofPosition head, ofPosition (s.cutoff last)) ∧
      (head = max first s.expected ∨ head = s.cutoff last ∧ s.cutoff last < max first s.expected) ∧
      (chunks ≠ [] → head ≤ s.cutoff last) := by
  obtain ⟨⟨hfirst, hle, hend, hbehind, hahead⟩, hwindow⟩ := hwindowed
  have hexpected := h.le_expected
  have hhead : (if (ofPosition first).lt s.buffer.nextRxSeq then s.buffer.nextRxSeq else ofPosition first) =
      ofPosition (max first s.expected) := by
    rw [h.nextRxSeq, lt_ofPosition ⟨by omega, by omega⟩]
    by_cases hlt : first < s.expected
    · rw [if_pos (decide_eq_true hlt), Nat.max_eq_right (by omega)]
    · rw [if_neg (by rw [decide_eq_true_eq]; exact hlt), Nat.max_eq_left (by omega)]
  have hstored := h.firstStored
  unfold TcpRxBuffer.fit
  simp only [hhead]
  cases hchunks : chunks with
  | nil =>
    have hdata : s.buffer.data = [] := by rw [h.data, hchunks]; rfl
    have hcutoff : s.cutoff last = last := by
      rw [cutoff, hstored, hchunks]
      rfl
    rw [hdata, hcutoff]
    exact ⟨_, rfl, .inl rfl, fun hne => absurd rfl hne⟩
  | cons c l =>
    have hdata : s.buffer.data = entry c :: l.map entry := by rw [h.data, hchunks, map_cons]
    have hcutoff : s.cutoff last = min last (c.1 + s.buffer.maxBuffer) := by
      rw [cutoff, hstored, hchunks]
      rfl
    have hnear : Near (c.1 + s.buffer.maxBuffer) last := hwindow c.1 (by rw [hstored, hchunks]; rfl)
    have hnext := h.next_le hchunks
    obtain ⟨hnear₁, hnear₂⟩ := hnear
    have htail : (if (ofPosition (c.1 + s.buffer.maxBuffer)).lt (ofPosition last) then
        ofPosition (c.1 + s.buffer.maxBuffer) else ofPosition last) = ofPosition (s.cutoff last) := by
      rw [lt_ofPosition ⟨hnear₁, hnear₂⟩, hcutoff]
      by_cases hlt : c.1 + s.buffer.maxBuffer < last
      · rw [if_pos (decide_eq_true hlt), Nat.min_eq_right (by omega)]
      · rw [if_neg (by rw [decide_eq_true_eq]; exact hlt), Nat.min_eq_left (by omega)]
    rw [hdata]
    simp only [entry, add_ofPosition, htail]
    rw [lt_ofPosition ⟨by lia, by lia⟩]
    by_cases hlt : s.cutoff last < max first s.expected
    · rw [if_pos (decide_eq_true hlt)]
      exact ⟨_, rfl, .inr ⟨rfl, hlt⟩, fun _ => Nat.le_refl _⟩
    · rw [if_neg (by rw [decide_eq_true_eq]; exact hlt)]
      exact ⟨_, rfl, .inl rfl, fun _ => by omega⟩

theorem Inv.received_before (h : Inv s chunks n blocks) (hnear : Nearby s (.segment first last)) {q : Nat}
    (hq : first ≤ q) (hq' : q < s.endOfStream) (hlt : q < max first s.expected) : s.Received q :=
  h.received_of_lt (Nat.le_trans hnear.1 hq) hq' (by omega)

theorem cutoff_le (s : TcpReception) (last : Nat) : s.cutoff last ≤ last := by
  unfold cutoff
  split
  · exact Nat.le_refl _
  · exact Nat.min_le_left ..

theorem add_eq {h₁ t₁ h₂ t₂ size : Nat} {data : List (SequenceNumber32 × Bytes)} {b : TcpRxBuffer}
    (hlength : p.length = last - first) (hle : first ≤ last)
    (hfit : b.fit (ofPosition first) (ofPosition last) = (ofPosition h₁, ofPosition t₁))
    (htrim : trim (ofPosition h₁) (ofPosition t₁) b.size b.data = ⟨ofPosition h₂, ofPosition t₂, size, data⟩)
    (hnear : Near h₂ t₂) :
    b.add p (ofPosition first) = if t₂ ≤ h₂ then some ({ b with data := data, size := size }, false)
      else if (ofPosition t₂).diff (ofPosition h₂) =
          ((p.drop ((ofPosition h₂).diff (ofPosition first))).take ((ofPosition t₂).diff (ofPosition h₂))).length then
        (TcpRxBuffer.insert { b with data := data, size := size } (ofPosition h₂) (ofPosition t₂)
          ((p.drop ((ofPosition h₂).diff (ofPosition first))).take ((ofPosition t₂).diff (ofPosition h₂)))).map
          fun b => (b, true)
      else none := by
  have hlast : (ofPosition first).add p.length = ofPosition last := by
    rw [add_ofPosition, hlength, Nat.add_sub_cancel' hle]
  unfold TcpRxBuffer.add
  simp only [hlast, hfit, htrim, ge_ofPosition hnear, decide_eq_true_eq]

theorem Inv.add_fresh (h : Inv s chunks n blocks) (hf : Fresh s chunks n first t rest head tail)
    (hnear : Nearby s (.segment first last)) (hlast : t ≤ last) (hwithin : Within lo chunks) (hlo : lo ≤ n)
    (hn : n < lo + 2147483648) (htail : tail < lo + 2147483648)
    (hspan : ∀ d ∈ chunks.head?, tail ≤ d.1 + max s.buffer.maxBuffer 1073741824) {h₁ t₁ : Nat}
    (hfit : s.buffer.fit (ofPosition first) (ofPosition last) = (ofPosition h₁, ofPosition t₁))
    (htrim : trim (ofPosition h₁) (ofPosition t₁) s.buffer.size s.buffer.data =
      ⟨ofPosition head, ofPosition tail, held rest, rest.map entry⟩) :
    ∃ b chunks' n' blocks', s.buffer.add ((s.stream.drop (first - s.firstSeq)).take (last - first)) (ofPosition first) =
      some (b, true) ∧ Inv (s.receive b first t) chunks' n' blocks' ∧
      ∃ p, Added s chunks n blocks first t chunks' n' blocks' rest head tail p := by
  have hhead := hf.head_le
  have hpos := hf.pos
  have htailt := hf.tail_le
  obtain ⟨hfirst, hle, hend, hbehind, hahead⟩ := hnear
  have hlength : ((s.stream.drop (first - s.firstSeq)).take (last - first)).length = last - first := by
    rw [length_take, length_drop]
    unfold endOfStream at hend
    omega
  have hp := fragment_eq (s := s) hfirst (show first ≤ head by omega) (Nat.le_of_lt hpos) (show tail ≤ last by omega)
  obtain ⟨b, chunks', n', blocks', hinsert, hinv, hadded⟩ := h.insert hf ⟨hfirst, hle, hend, hbehind, hahead⟩ hlast hwithin hlo hn
    htail hspan hp
  have hdiff : (ofPosition tail).diff (ofPosition head) = tail - head := diff_ofPosition (Nat.le_of_lt hpos) (by omega)
  have hskip : (ofPosition head).diff (ofPosition first) = head - first := diff_ofPosition (by omega) (by omega)
  have hsize : tail - head =
      ((((s.stream.drop (first - s.firstSeq)).take (last - first)).drop (head - first)).take (tail - head)).length := by
    rw [length_take, length_drop, hlength]
    omega
  refine ⟨b, chunks', n', blocks', ?_, hinv, _, hadded⟩
  rw [add_eq hlength hle hfit htrim ⟨by omega, by omega⟩, if_neg (by omega), hdiff, hskip, if_pos hsize, hinsert]
  rfl

theorem Inv.add_again (h : Inv s chunks n blocks) (hnear : Nearby s (.segment first last)) {h₁ t₁ h₂ t₂ : Nat}
    (hall : ∀ q, first ≤ q → q < t → s.Received q)
    (hfit : s.buffer.fit (ofPosition first) (ofPosition last) = (ofPosition h₁, ofPosition t₁))
    (htrim : trim (ofPosition h₁) (ofPosition t₁) s.buffer.size s.buffer.data =
      ⟨ofPosition h₂, ofPosition t₂, s.buffer.size, s.buffer.data⟩) (hle : t₂ ≤ h₂) (hfar : h₂ < t₂ + 2147483648) :
    s.buffer.add ((s.stream.drop (first - s.firstSeq)).take (last - first)) (ofPosition first) = some (s.buffer, false) ∧
      Inv (s.receive s.buffer first t) chunks n blocks := by
  obtain ⟨hfirst, hle', hend, -, -⟩ := hnear
  have hlength : ((s.stream.drop (first - s.firstSeq)).take (last - first)).length = last - first := by
    rw [length_take, length_drop]
    unfold endOfStream at hend
    omega
  refine ⟨?_, h.again hall⟩
  rw [add_eq hlength hle' hfit htrim ⟨by omega, by omega⟩, if_pos hle]

/-- What a segment makes of a state: nothing, when all of it was received before, or
the chunks and the blocks that `Added` describes. -/
inductive Taken (s : TcpReception) (chunks : List Chunk) (n : Nat) (blocks : List (Nat × Nat)) (first t : Nat) :
    TcpRxBuffer → Bool → List Chunk → Nat → List (Nat × Nat) → Prop
  | again : Taken s chunks n blocks first t s.buffer false chunks n blocks
  | added {b : TcpRxBuffer} {chunks' : List Chunk} {n' : Nat} {blocks' : List (Nat × Nat)} {rest : List Chunk}
      {head tail : Nat} {p : Bytes} (h : Added s chunks n blocks first t chunks' n' blocks' rest head tail p) :
      Taken s chunks n blocks first t b true chunks' n' blocks'

theorem Inv.segment_first (h : Inv s [] n blocks) (hwindowed : Windowed s (.segment first last)) :
    ∃ b kept chunks' n' blocks', s.buffer.add ((s.stream.drop (first - s.firstSeq)).take (last - first)) (ofPosition first) =
      some (b, kept) ∧ Inv (s.receive b first (s.cutoff last)) chunks' n' blocks' ∧
      Taken s [] n blocks first (s.cutoff last) b kept chunks' n' blocks' := by
  obtain ⟨head, hfit, hhead, -⟩ := h.fit hwindowed
  obtain ⟨hnear, -⟩ := hwindowed
  obtain ⟨hfirst, hle', hend, hbehind, hahead⟩ := id hnear
  have hexpected := h.le_expected
  have hfloor := floor_le [] n
  have hnext := h.next_lt
  have hsize := h.size
  have hdata := h.data
  have hcutoff : s.cutoff last = last := by
    rw [cutoff, h.firstStored]
    rfl
  have htrim : trim (ofPosition head) (ofPosition (s.cutoff last)) s.buffer.size s.buffer.data =
      ⟨ofPosition head, ofPosition (s.cutoff last), held [], [].map entry⟩ := by
    rw [hsize, hdata]
    rfl
  rw [hcutoff] at hfit htrim hhead ⊢
  by_cases hlt : head < last
  · have hmax : head = max first s.expected := by omega
    have hf : Fresh s [] n first last [] head last := by
      refine ⟨nil_sublist _, by simp, hlt, by omega, Nat.le_refl _, by simp, by simp, fun q => ?_⟩
      rw [hmax]
    have hfar : last < n + 2147483648 := by omega
    obtain ⟨b, chunks', n', blocks', hadd, hinv, p, hadded⟩ := h.add_fresh hf hnear (Nat.le_refl _) h.within hfloor (by omega)
      hfar (by simp) hfit htrim
    exact ⟨b, true, chunks', n', blocks', hadd, hinv, .added hadded⟩
  · obtain ⟨hadd, hinv⟩ := h.add_again (t := last) hnear
      (fun q hq hq' => h.received_before hnear hq (by omega) (by omega)) hfit (by rw [htrim, hsize, hdata])
      (Nat.le_of_not_lt hlt) (by omega)
    exact ⟨s.buffer, false, [], n, blocks, hadd, hinv, .again⟩

theorem Inv.segment_behind {c : Chunk} (h : Inv s (c :: l) n blocks) (hnear : Nearby s (.segment first last))
    (hfit : s.buffer.fit (ofPosition first) (ofPosition last) = (ofPosition t, ofPosition t)) (hlt : t < floor (c :: l) n)
    (hfar : c.1 < t + 2147483648) :
    s.buffer.add ((s.stream.drop (first - s.firstSeq)).take (last - first)) (ofPosition first) = some (s.buffer, false) ∧
      Inv (s.receive s.buffer first t) (c :: l) n blocks := by
  obtain ⟨hfirst, hle', hend, hbehind, hahead⟩ := id hnear
  have hlow : floor (c :: l) n = min n c.1 := rfl
  have htrim := trim_behind c l s.buffer.size (show t < c.1 by omega) hfar
  rw [← h.data] at htrim
  exact h.add_again hnear (fun q hq hq' => h.below q (by omega) (by omega)) hfit htrim (Nat.le_refl _) (by omega)

theorem Inv.segment_next {c : Chunk} (h : Inv s (c :: l) n blocks) (hwindowed : Windowed s (.segment first last)) :
    ∃ b kept chunks' n' blocks', s.buffer.add ((s.stream.drop (first - s.firstSeq)).take (last - first)) (ofPosition first) =
      some (b, kept) ∧ Inv (s.receive b first (s.cutoff last)) chunks' n' blocks' ∧
      Taken s (c :: l) n blocks first (s.cutoff last) b kept chunks' n' blocks' := by
  obtain ⟨head, hfit, hhead, hle⟩ := h.fit hwindowed
  obtain ⟨hnear, -⟩ := hwindowed
  obtain ⟨hfirst, hle', hend, hbehind, hahead⟩ := id hnear
  have hcut := cutoff_le s last
  have hexpected := h.le_expected
  have hlimit := h.limit
  have hfloor := floor_le (c :: l) n
  have hsize := h.size
  have hdata := h.data
  have hcutoff : s.cutoff last = min last (c.1 + s.buffer.maxBuffer) := by
    rw [cutoff, h.firstStored]
    rfl
  have hle := hle (by simp)
  have hpos := h.apart.pos c (by simp)
  have hc := h.ahead c (by simp)
  by_cases hlt : s.cutoff last < floor (c :: l) n
  · obtain rfl : head = s.cutoff last := by lia
    obtain ⟨hadd, hinv⟩ := h.segment_behind hnear hfit hlt (by omega)
    exact ⟨s.buffer, false, c :: l, n, blocks, hadd, hinv, .again⟩
  · have hlow : floor (c :: l) n = min n c.1 := rfl
    have hheld := h.apart.held_within h.within
    obtain ⟨l', h', t', htrim, hr, hlo', hhi'⟩ := trim_spec (c :: l) head (s.cutoff last) 0 h.apart h.within (by lia) hle
      (by lia) (by lia)
    rw [Nat.zero_add, Nat.zero_add, ← hsize, ← hdata] at htrim
    have hhead' := hr.head
    have htail' := hr.tail
    by_cases hempty : t' ≤ h'
    · obtain ⟨hsame, hall⟩ := hr.nothing hempty
      have hold : ∀ q, first ≤ q → q < s.cutoff last → s.Received q := by
        intro q hq hq'
        by_cases hq'' : q < head
        · exact h.received_before hnear hq (by lia) (by lia)
        · exact ((h.stored q).mp (hall q (by lia) hq')).1
      obtain ⟨hadd, hinv⟩ := h.add_again hnear hold hfit (by rw [htrim, hsame, hsize, hdata]) hempty (by omega)
      exact ⟨s.buffer, false, c :: l, n, blocks, hadd, hinv, .again⟩
    · have hmax : head = max first s.expected := by lia
      have hf : Fresh s (c :: l) n first (s.cutoff last) l' h' t' := by
        refine ⟨hr.sublist, hr.apart (by omega), by omega, by omega, htail', hr.missing (by omega), hr.swallowed, fun q => ?_⟩
        rw [hr.stored (by omega) q, hmax]
      have hspan : ∀ d ∈ (c :: l).head?, t' ≤ d.1 + max s.buffer.maxBuffer 1073741824 := by
        intro d hd
        cases hd
        lia
      obtain ⟨b, chunks', n', blocks', hadd, hinv, p, hadded⟩ := h.add_fresh hf hnear hcut h.within hfloor (by omega) (by omega)
        hspan hfit htrim
      exact ⟨b, true, chunks', n', blocks', hadd, hinv, .added hadded⟩

theorem Inv.segment (h : Inv s chunks n blocks) (hwindowed : Windowed s (.segment first last)) :
    ∃ b kept chunks' n' blocks', s.buffer.add ((s.stream.drop (first - s.firstSeq)).take (last - first)) (ofPosition first) =
      some (b, kept) ∧ Inv (s.receive b first (s.cutoff last)) chunks' n' blocks' ∧
      Taken s chunks n blocks first (s.cutoff last) b kept chunks' n' blocks' := by
  cases chunks with
  | nil => exact h.segment_first hwindowed
  | cons c l => exact h.segment_next hwindowed

end

end

end TcpReception

end Ns3
