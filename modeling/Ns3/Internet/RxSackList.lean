import Ns3.Internet.RxReassembly

/-!
# The blocks a receiver advertises

`Add` reports what it stores out of order as a block in front of the others and
joins it with blocks that adjoin it; nothing checks whether it overlaps them.
The blocks stay apart as long as no segment out of order swallows the chunk a
reported block begins with.
-/

namespace Ns3

open Machine SequenceNumber32 List

namespace TcpRxBuffer

/-! ## Reporting a block -/

/-- Neither overlapping nor adjoining. -/
def Clear (x y : Nat × Nat) : Prop := x.2 < y.1 ∨ y.2 < x.1

theorem Clear.symm {x y : Nat × Nat} (h : Clear x y) : Clear y x := Or.symm h

section
variable {begin : Nat × Nat} {blocks : List (Nat × Nat)}

/-- The blocks are apart from each other and do not overlap the one in front of them. -/
structure Beside (begin : Nat × Nat) (blocks : List (Nat × Nat)) : Prop where
  pos : begin.1 < begin.2
  others : ∀ x ∈ blocks, x.1 < x.2
  gap : ∀ x ∈ blocks, x.2 ≤ begin.1 ∨ begin.2 ≤ x.1
  clear : blocks.Pairwise Clear

theorem Beside.join {merged : Nat × Nat} {rest : List (Nat × Nat)} (h : Beside begin blocks)
    (hjoin : joinBlock begin blocks = some (merged, rest)) : Beside merged rest := by
  obtain ⟨current, hperm, hmerged⟩ := joinBlock_some hjoin
  have hmem : ∀ x, x ∈ current :: rest → x ∈ blocks := fun x hx => hperm.mem_iff.mpr hx
  have hpos := h.pos
  have hcurrent := h.others current (hmem current (by simp))
  obtain ⟨hclear, hrest⟩ := pairwise_cons.mp ((hperm.pairwise_iff Clear.symm).mp h.clear)
  have hothers : ∀ x ∈ rest, x.1 < x.2 := fun x hx => h.others x (hmem x (by simp [hx]))
  have hgap : ∀ x ∈ rest, x.2 ≤ begin.1 ∨ begin.2 ≤ x.1 := fun x hx => h.gap x (hmem x (by simp [hx]))
  rcases hmerged with ⟨heq, rfl⟩ | ⟨heq, rfl⟩
  · refine ⟨by dsimp only; omega, hothers, fun x hx => ?_, hrest⟩
    have hx₁ := hothers x hx
    have hx₂ := hgap x hx
    have hx₃ := hclear x hx
    unfold Clear at hx₃
    dsimp only
    omega
  · refine ⟨by dsimp only; omega, hothers, fun x hx => ?_, hrest⟩
    have hx₁ := hothers x hx
    have hx₂ := hgap x hx
    have hx₃ := hclear x hx
    unfold Clear at hx₃
    dsimp only
    omega

theorem pushBlock_cons (h : Beside begin blocks) : ∃ (merged : Nat × Nat) (rest : List (Nat × Nat)),
    pushBlock begin blocks = merged :: rest ∧ merged.1 ≤ begin.1 ∧ begin.2 ≤ merged.2 ∧ (merged :: rest).Pairwise Clear ∧
      ∀ x ∈ merged :: rest, x.1 = begin.1 ∨ ∃ y ∈ blocks, x.1 = y.1 := by
  obtain ⟨merged, rest, hjoined, ⟨hbeside, hle, hle', hfirst, hothers⟩, -, hnone⟩ := joinBlocks_invariant
    (fun merged rest => Beside merged rest ∧ merged.1 ≤ begin.1 ∧ begin.2 ≤ merged.2 ∧
      (merged.1 = begin.1 ∨ ∃ y ∈ blocks, merged.1 = y.1) ∧ ∀ x ∈ rest, x ∈ blocks)
    (by
      intro b l merged rest hP hjoin
      obtain ⟨hbeside, hle, hle', hfirst, hothers⟩ := hP
      obtain ⟨current, hperm, hmerged⟩ := joinBlock_some hjoin
      have hcurrent := hperm.mem_iff.mpr (mem_cons_self (a := current) (l := rest))
      have hpos := hbeside.others current hcurrent
      have hpos' := hbeside.pos
      refine ⟨hbeside.join hjoin, ?_, ?_, ?_, fun x hx => hothers x (hperm.mem_iff.mpr (mem_cons_of_mem _ hx))⟩
      · rcases hmerged with ⟨heq, rfl⟩ | ⟨heq, rfl⟩
        · dsimp only
          omega
        · exact hle
      · rcases hmerged with ⟨heq, rfl⟩ | ⟨heq, rfl⟩
        · exact hle'
        · dsimp only
          omega
      · rcases hmerged with ⟨heq, rfl⟩ | ⟨heq, rfl⟩
        · exact .inr ⟨current, hothers current hcurrent, rfl⟩
        · exact hfirst)
    blocks.length begin blocks ⟨h, Nat.le_refl _, Nat.le_refl _, .inl rfl, fun _ hx => hx⟩
  have hapart : (merged :: rest).Pairwise Clear := by
    refine pairwise_cons.mpr ⟨fun x hx => ?_, hbeside.clear⟩
    have hne := joinBlock_none (hnone (Nat.le_refl _)) x hx
    have hgap := hbeside.gap x hx
    unfold Clear
    omega
  have hstarts : ∀ x ∈ merged :: rest, x.1 = begin.1 ∨ ∃ y ∈ blocks, x.1 = y.1 := by
    intro x hx
    rcases mem_cons.mp hx with rfl | hx
    · exact hfirst
    · exact .inr ⟨x, hothers x hx, rfl⟩
  rw [pushBlock, hjoined, capBlocks]
  by_cases hlong : 4 < (merged :: rest).length
  · rw [if_pos hlong, dropLast_cons_of_ne_nil (by rintro rfl; simp at hlong)]
    have hsub : (merged :: rest.dropLast).Sublist (merged :: rest) := (dropLast_sublist rest).cons_cons merged
    exact ⟨merged, rest.dropLast, rfl, hle, hle', hapart.sublist hsub, fun x hx => hstarts x (hsub.subset hx)⟩
  · rw [if_neg hlong]
    exact ⟨merged, rest, rfl, hle, hle', hapart, hstarts⟩

theorem pushBlock_length_le (begin : Nat × Nat) (h : blocks.length ≤ 4) : (pushBlock begin blocks).length ≤ 4 := by
  obtain ⟨merged, rest, hjoined, -, hle, -⟩ := joinBlocks_invariant (fun _ _ => True) (fun _ _ _ _ _ _ => trivial)
    blocks.length begin blocks trivial
  rw [pushBlock, hjoined, capBlocks]
  split
  · rw [length_dropLast, length_cons]
    omega
  · rename_i hlong
    omega

end

end TcpRxBuffer

open TcpRxBuffer

namespace TcpReception

/-! ## What is advertised -/

def Buffered (s : TcpReception) (q : Nat) : Prop :=
  ∃ e ∈ s.buffer.data, ∃ j < e.2.length, ofPosition q = e.1.add j

structure Advertised (s : TcpReception) (blocks : List (Nat × Nat)) : Prop where
  sackList : s.buffer.sackList = blocks.map sackBlock
  nextRxSeq : s.buffer.nextRxSeq = ofPosition s.expected
  length_le : blocks.length ≤ 4
  above : ∀ x ∈ blocks, s.expected < x.1 ∧ x.1 < x.2 ∧ x.2 < s.expected + 2147483648
  buffered : ∀ x ∈ blocks, ∀ q, x.1 ≤ q → q < x.2 → s.Buffered q
  clear : blocks.Pairwise Clear

/-- What was stored out of order between the states is in the first block. -/
def Leads (s s' : TcpReception) (blocks : List (Nat × Nat)) : Prop :=
  ∀ e ∈ s'.buffer.data, e ∉ s.buffer.data → s.buffer.nextRxSeq.lt e.1 = true →
    ∃ x ∈ blocks.head?, ∃ q, e.1 = ofPosition q ∧ x.1 ≤ q ∧ q + e.2.length ≤ x.2

def place (s : TcpReception) (e : SequenceNumber32 × Bytes) : Nat := s.unread + e.1.diff (ofPosition s.unread)

/-- The segment is out of order and what is new of it reaches around the chunk a
reported block begins with. -/
def Overtakes (s : TcpReception) : ReceptionEvent → Prop
  | .segment first last => s.expected < first ∧ ∃ block ∈ s.buffer.sackList, ∃ e ∈ s.buffer.data, e.1 = block.1 ∧
      s.firstMissing (s.place e - first) first < s.place e ∧ s.place e + e.2.length < s.cutoff last
  | .fin => False
  | .extract _ => False

def Tidy (s : TcpReception) (e : ReceptionEvent) : Prop := Windowed s e ∧ ¬ Overtakes s e

instance (s : TcpReception) : (e : ReceptionEvent) → Decidable (Overtakes s e)
  | .segment .. => inferInstanceAs (Decidable (_ ∧ ∃ _ ∈ _, ∃ _ ∈ _, _))
  | .fin => .isFalse id
  | .extract _ => .isFalse id

instance (s : TcpReception) (e : ReceptionEvent) : Decidable (Tidy s e) := inferInstanceAs (Decidable (_ ∧ _))

section
variable {s : TcpReception} {chunks : List Chunk} {n : Nat} {blocks : List (Nat × Nat)}

theorem firstMissing_lt : ∀ {k q m : Nat}, q ≤ m → m < q + k → ¬ s.Received m → s.firstMissing k q ≤ m
  | 0, q, m, hle, hlt, _ => by omega
  | k + 1, q, m, hle, hlt, hmissing => by
    rw [firstMissing]
    by_cases hq : s.Received q
    · rw [if_pos hq]
      have hne : q ≠ m := by
        rintro rfl
        exact hmissing hq
      exact firstMissing_lt (by omega) (by omega) hmissing
    · rw [if_neg hq]
      exact hle

theorem Inv.place_entry (h : Inv s chunks n blocks) {c : Chunk} (hc : c ∈ chunks) : s.place (entry c) = c.1 := by
  have hle := (h.pieces c hc).1
  have hahead := h.ahead c hc
  have havail := h.availBytes_lt
  have hpos := h.apart.pos c hc
  have hunread := h.unread
  rw [h.availBytes] at havail
  rw [place, entry, diff_ofPosition hle (by omega)]
  omega

/-- The blocks as the invariant of the buffer has them, each from the start of a chunk on. -/
structure Told (chunks : List Chunk) (blocks : List (Nat × Nat)) : Prop where
  length_le : blocks.length ≤ 4
  clear : blocks.Pairwise Clear
  starts : ∀ x ∈ blocks, ∃ c ∈ chunks, c.1 = x.1

theorem told_nil (chunks : List Chunk) : Told chunks [] := ⟨by simp, List.Pairwise.nil, by simp⟩

theorem Inv.advertised (h : Inv s chunks n blocks) (ht : Told chunks blocks) : Advertised s blocks where
  sackList := h.sackList
  nextRxSeq := h.nextRxSeq
  length_le := ht.length_le
  above := by
    intro x hx
    obtain ⟨hlt, hpos, hall⟩ := h.blocks x hx
    have hunread := h.unread
    have hbounds := h.bounds x.1 (hall x.1 (Nat.le_refl _) hpos)
    obtain ⟨c, hc, hq⟩ := (h.stored (x.2 - 1)).mpr ⟨hall (x.2 - 1) (by omega) (by omega), by omega⟩
    have hahead := h.ahead c hc
    have hexpected := h.expected_eq
    split at hexpected <;> omega
  buffered := by
    intro x hx q hq hq'
    obtain ⟨hlt, -, hall⟩ := h.blocks x hx
    have hunread := h.unread
    obtain ⟨c, hc, hle, hlt'⟩ := (h.stored q).mpr ⟨hall q hq hq', by omega⟩
    have hstop : c.stop = c.1 + c.2.length := rfl
    refine ⟨entry c, ?_, q - c.1, ?_, ?_⟩
    · rw [h.data]
      exact List.mem_map_of_mem hc
    · show q - c.1 < c.2.length
      omega
    · rw [entry, add_ofPosition, Nat.add_sub_cancel' hle]
  clear := ht.clear

/-! ## Segments -/

section
variable {first last t head tail n' : Nat} {rest chunks' : List Chunk} {blocks' : List (Nat × Nat)} {p : Bytes}

theorem Added.perm (ha : Added s chunks n blocks first t chunks' n' blocks' rest head tail p) (h : Inv s chunks n blocks) :
    chunks'.Perm ((head, p) :: rest) := by
  have hpos := ha.fresh.pos
  have hlength := ha.length
  rw [ha.chunks]
  refine ((h.apart.sublist ha.fresh.sublist).insert (k := head) (p := p) (by omega) fun c hc => ?_).2
  rw [hlength, Nat.add_sub_cancel' (Nat.le_of_lt hpos)]
  exact ha.fresh.gap c hc

theorem Added.received (ha : Added s chunks n blocks first t chunks' n' blocks' rest head tail p) (h : Inv s chunks n blocks)
    {s' : TcpReception} (h' : Inv s' chunks' n' blocks') {q : Nat} (hq : head ≤ q) (hq' : q < tail) : s'.Received q := by
  have hpos := ha.fresh.pos
  have hlength := ha.length
  refine ((h'.stored q).mp ⟨(head, p), (ha.perm h).mem_iff.mpr (by simp), hq, ?_⟩).1
  show q < head + p.length
  omega

theorem Fresh.missing_head (hf : Fresh s chunks n first t rest head tail) (h : Inv s chunks n blocks) (hexpected : s.expected = n) :
    ¬ s.Received head := by
  have hunread := h.unread
  have hhead := hf.head_le
  intro hr
  exact hf.missing ((h.stored head).mpr ⟨hr, by omega⟩)

theorem Fresh.in_order (hf : Fresh s chunks n first t rest head tail) (h : Inv s chunks n blocks) (hexpected : s.expected = n)
    (hle : first ≤ n) : head = n := by
  have hhead := hf.head_le
  have hpos := hf.pos
  have htail := hf.tail_le
  rcases (hf.stored n).mpr (.inr ⟨by omega, by omega⟩) with ⟨c, hc, hq⟩ | hq
  · exact absurd ⟨c, hf.sublist.subset hc, hq⟩ h.not_stored
  · omega

theorem Fresh.gone (hf : Fresh s chunks n first t rest head tail) (h : Inv s chunks n blocks) {c : Chunk} (hc : c ∈ chunks)
    (hgone : c ∉ rest) : head < c.1 ∧ c.1 < tail ∧ c.stop < t := by
  have hpos := h.apart.pos c hc
  have hstored : Stored chunks c.1 := ⟨c, hc, Nat.le_refl _, hpos⟩
  have hne : head ≠ c.1 := fun heq => hf.missing (heq ▸ hstored)
  have hinside := (hf.swallowed c hc).resolve_left hgone
  rcases (hf.stored c.1).mpr (.inl hstored) with ⟨d, hd, hle, hlt⟩ | hq
  · have hsame : d = c := h.apart.eq_of_mem (hf.sublist.subset hd) hc ⟨hle, hlt⟩ ⟨Nat.le_refl _, hpos⟩
    exact absurd (hsame ▸ hd) hgone
  · exact ⟨by omega, hq.2, hinside⟩

theorem Added.starts (ha : Added s chunks n blocks first (s.cutoff last) chunks' n' blocks' rest head tail p)
    (h : Inv s chunks n blocks) (hclean : ¬ Overtakes s (.segment first last)) (hlt : n < head) {x : Nat × Nat} (hx : x ∈ blocks)
    {c : Chunk} (hc : c ∈ chunks) (hstart : c.1 = x.1) : c ∈ rest := by
  by_contra hgone
  obtain ⟨hhead, -, hinside⟩ := ha.fresh.gone h hc hgone
  have hexpected := ha.expected
  have hbehind := ha.fresh.head_le
  have hfirst : n < first := by
    by_contra hle
    have := ha.fresh.in_order h hexpected (Nat.le_of_not_lt hle)
    omega
  have hplace := h.place_entry hc
  have hmissing := ha.fresh.missing_head h hexpected
  apply hclean
  refine ⟨by omega, sackBlock x, ?_, entry c, ?_, ?_, ?_, ?_⟩
  · rw [h.sackList]
    exact List.mem_map_of_mem hx
  · rw [h.data]
    exact List.mem_map_of_mem hc
  · rw [entry, sackBlock, hstart]
  · rw [hplace]
    have := firstMissing_lt (k := c.1 - first) (show first ≤ head by omega) (by omega) hmissing
    omega
  · rw [hplace]
    exact hinside

theorem Added.beside (ha : Added s chunks n blocks first (s.cutoff last) chunks' n' blocks' rest head tail p)
    (h : Inv s chunks n blocks) (ht : Told chunks blocks) (hclean : ¬ Overtakes s (.segment first last)) (hlt : n < head) :
    Beside (head, tail) blocks := by
  refine ⟨ha.fresh.pos, fun x hx => (h.blocks x hx).2.1, fun x hx => ?_, ht.clear⟩
  obtain ⟨-, hpos, hall⟩ := h.blocks x hx
  obtain ⟨c, hc, hstart⟩ := ht.starts x hx
  have hcpos := h.apart.pos c hc
  rcases ha.fresh.gap c (ha.starts h hclean hlt hx hc hstart) with hle | hle
  · left
    by_contra hover
    exact ha.fresh.missing_head h ha.expected (hall head (by dsimp only at hover; omega) (by dsimp only at hover; omega))
  · right
    dsimp only
    omega

theorem Added.next_le (ha : Added s chunks n blocks first t chunks' n' blocks' rest head tail p) (h : Inv s chunks n blocks)
    {b : TcpRxBuffer} (h' : Inv (s.receive b first t) chunks' n' blocks') (hlt : n < head) : n' ≤ n := by
  by_contra hmore
  have hfirst : n < first := by
    by_contra hle
    have := ha.fresh.in_order h ha.expected (Nat.le_of_not_lt hle)
    omega
  rcases (received_receive ..).mp (h'.below n h.first_le (by omega)) with hr | hr
  · exact h.missing hr
  · omega

theorem Inv.next_mono (h : Inv s chunks n blocks) {b : TcpRxBuffer} (h' : Inv (s.receive b first t) chunks' n' blocks') :
    n ≤ n' := by
  by_contra hless
  exact h'.missing ((received_receive ..).mpr (.inl (h.below n' h'.first_le (Nat.lt_of_not_le hless))))

theorem Told.added (ht : Told chunks blocks) (h : Inv s chunks n blocks)
    (ha : Added s chunks n blocks first (s.cutoff last) chunks' n' blocks' rest head tail p)
    (hclean : ¬ Overtakes s (.segment first last)) {b : TcpRxBuffer}
    (h' : Inv (s.receive b first (s.cutoff last)) chunks' n' blocks') : Told chunks' blocks' := by
  have hperm := ha.perm h
  have hblocks := ha.blocks
  have hpos := ha.fresh.pos
  by_cases hlt : n < head
  · rw [reportBlocks, if_pos hlt] at hblocks
    obtain ⟨merged, others, hpush, -, -, hclear, hstarts⟩ := pushBlock_cons (ha.beside h ht hclean hlt)
    rw [hblocks]
    refine ⟨Nat.le_trans (length_filter_le ..) (pushBlock_length_le _ ht.length_le), ?_, fun x hx => ?_⟩
    · rw [hpush]
      exact hclear.filter _
    · have hx' := mem_of_mem_filter hx
      rw [hpush] at hx'
      rcases hstarts x hx' with hstart | ⟨y, hy, hstart⟩
      · exact ⟨(head, p), hperm.mem_iff.mpr (by simp), hstart.symm⟩
      · obtain ⟨c, hc, hc'⟩ := ht.starts y hy
        have hrest := ha.starts h hclean hlt hy hc hc'
        exact ⟨c, hperm.mem_iff.mpr (mem_cons_of_mem _ hrest), hc'.trans hstart.symm⟩
  · rw [reportBlocks, if_neg hlt] at hblocks
    rw [hblocks]
    refine ⟨Nat.le_trans (length_filter_le ..) ht.length_le, ht.clear.filter _, fun x hx => ?_⟩
    obtain ⟨c, hc, hstart⟩ := ht.starts x (mem_of_mem_filter hx)
    refine ⟨c, hperm.mem_iff.mpr (mem_cons_of_mem _ ?_), hstart⟩
    -- a chunk that is gone lies in what is in order now, and the block with it
    by_contra hgone
    obtain ⟨hhead, htail, -⟩ := ha.fresh.gone h hc hgone
    have habove := (h'.blocks x (hblocks ▸ hx)).1
    have hmono := h.next_mono h'
    exact h'.missing (ha.received h h' (by omega) (by omega))

theorem Added.leads (ha : Added s chunks n blocks first (s.cutoff last) chunks' n' blocks' rest head tail p)
    (h : Inv s chunks n blocks) (ht : Told chunks blocks) (hclean : ¬ Overtakes s (.segment first last)) {b : TcpRxBuffer}
    (h' : Inv (s.receive b first (s.cutoff last)) chunks' n' blocks') :
    Leads s (s.receive b first (s.cutoff last)) blocks' := by
  intro e he hnew hlt
  have hpos := ha.fresh.pos
  have hlength := ha.length
  have hdata : (s.receive b first (s.cutoff last)).buffer.data = chunks'.map entry := h'.data
  rw [hdata] at he
  obtain ⟨c, hc, rfl⟩ := List.mem_map.mp he
  rcases mem_cons.mp ((ha.perm h).mem_iff.mp hc) with rfl | hold
  · have hbehind := ha.fresh.head_le
    have hexpected := ha.expected
    have hout : n < head := by
      by_contra hnot
      have hsame : head = n := by omega
      rw [h.nextRxSeq, hexpected, entry, hsame, lt_ofPosition ⟨by omega, by omega⟩] at hlt
      simp at hlt
    obtain ⟨merged, others, hpush, hle, hle', -, -⟩ := pushBlock_cons (ha.beside h ht hclean hout)
    have hblocks := ha.blocks
    have hnext := ha.next_le h h' hout
    dsimp only at hle hle'
    have hlong : n' < merged.2 := by omega
    rw [reportBlocks, if_pos hout, hpush, filter_cons_of_pos (by simpa using hlong)] at hblocks
    refine ⟨merged, by rw [hblocks]; rfl, head, rfl, hle, ?_⟩
    show head + p.length ≤ merged.2
    omega
  · rw [h.data] at hnew
    exact absurd (List.mem_map_of_mem (ha.fresh.sublist.subset hold)) hnew

end

/-! ## Runs -/

theorem Told.extract {chunks' : List Chunk} (ht : Told chunks blocks) (h : Inv s chunks n blocks)
    (hkept : ∀ c ∈ chunks, n < c.1 → c ∈ chunks') : Told chunks' blocks := by
  refine ⟨ht.length_le, ht.clear, fun x hx => ?_⟩
  obtain ⟨c, hc, hstart⟩ := ht.starts x hx
  have habove := (h.blocks x hx).1
  exact ⟨c, hkept c hc (by omega), hstart⟩

theorem Told.segment (ht : Told chunks blocks) (h : Inv s chunks n blocks) {first last : Nat}
    (htidy : Tidy s (.segment first last)) :
    ∃ s' o chunks' n' blocks', machine.step s (.segment first last) = some (s', o) ∧ Inv s' chunks' n' blocks' ∧
      Told chunks' blocks' ∧ Leads s s' blocks' := by
  obtain ⟨b, kept, chunks', n', blocks', hadd, h', htaken⟩ := h.segment htidy.1
  refine ⟨_, _, chunks', n', blocks', congrArg (Option.map _) hadd, h', ?_⟩
  cases htaken with
  | again => exact ⟨ht, fun e he hnew => absurd he hnew⟩
  | added ha => exact ⟨ht.added h ha htidy.2 h', ha.leads h ht htidy.2 h'⟩

/-- Each block still starts where a chunk does. -/
theorem Told.step (ht : Told chunks blocks) (h : Inv s chunks n blocks) : ∀ e : ReceptionEvent, Tidy s e →
    ∃ s' o chunks' n' blocks', machine.step s e = some (s', o) ∧ Inv s' chunks' n' blocks' ∧ Told chunks' blocks'
  | .segment first last, he => by
    obtain ⟨s', o, chunks', n', blocks', hstep, h', ht', -⟩ := ht.segment h he
    exact ⟨s', o, chunks', n', blocks', hstep, h', ht'⟩
  | .fin, he => ⟨_, _, chunks, n, blocks, rfl, h.announce he.1, ht⟩
  | .extract maxSize, _ => by
    obtain ⟨s', o, chunks', hstep, h', -, -, -, -, hkept⟩ := h.extract maxSize
    exact ⟨s', o, chunks', n, blocks, hstep, h', ht.extract h hkept⟩

theorem Told.extracts (ht : Told chunks blocks) (h : Inv s chunks n blocks) {ext : List (ReceptionEvent × List Bytes)}
    {s' : TcpReception} (hrun : Run machine Tidy s ext s') (hext : ∀ x ∈ ext, ∃ maxSize, x.1 = .extract maxSize) :
    ∃ chunks', Inv s' chunks' n blocks ∧ Told chunks' blocks := by
  refine Run.invariant (fun ext s' => (∀ x ∈ ext, ∃ maxSize, x.1 = ReceptionEvent.extract maxSize) →
    ∃ chunks', Inv s' chunks' n blocks ∧ Told chunks' blocks) (fun _ => ⟨chunks, h, ht⟩) ?_ hrun hext
  intro tr s₁ e s₂ o hind _ hstep hall
  obtain ⟨chunks₁, h₁, ht₁⟩ := hind fun x hx => hall x (by simp [hx])
  obtain ⟨maxSize, rfl⟩ := hall (e, o) (by simp)
  obtain ⟨s₃, o', chunks₂, hstep', h₂, -, -, -, -, hkept⟩ := h₁.extract maxSize
  cases hstep'.symm.trans hstep
  exact ⟨chunks₂, h₂, ht₁.extract h₁ hkept⟩

end

theorem Told.of_run {firstSeq maxBuffer : Nat} {stream : Bytes} (hmax : maxBuffer + 1 < 2147483648)
    {tr : List (ReceptionEvent × List Bytes)} {s : TcpReception}
    (hrun : Run machine Tidy (start firstSeq maxBuffer stream) tr s) :
    ∃ chunks n blocks, Inv s chunks n blocks ∧ Told chunks blocks := by
  refine Run.invariant (fun _ s => ∃ chunks n blocks, Inv s chunks n blocks ∧ Told chunks blocks)
    ⟨[], firstSeq, [], inv_start stream hmax, told_nil []⟩ ?_ hrun
  intro tr s e s' o hind he hstep
  obtain ⟨chunks, n, blocks, h, ht⟩ := hind
  obtain ⟨s₁, o₁, chunks', n', blocks', hstep', h', ht'⟩ := ht.step h e he
  cases hstep'.symm.trans hstep
  exact ⟨chunks', n', blocks', h', ht'⟩

/-- **The advertised blocks.** In every run in which no segment overtakes a reported
block, the blocks are ranges of buffered bytes, apart from each other; after a segment
and whatever is extracted then, the first one holds what the segment stored out of
order. -/
theorem sackList_advertised (firstSeq maxBuffer : Nat) (stream : Bytes) (hmax : maxBuffer + 1 < 2147483648)
    {tr : List (ReceptionEvent × List Bytes)} {s : TcpReception}
    (hrun : Run machine Tidy (start firstSeq maxBuffer stream) tr s) : (∃ blocks, Advertised s blocks) ∧
      ∀ first last s' o, Tidy s (.segment first last) → machine.step s (.segment first last) = some (s', o) →
        ∀ ext s'', Run machine Tidy s' ext s'' → (∀ x ∈ ext, ∃ maxSize, x.1 = .extract maxSize) →
          ∃ blocks, Advertised s'' blocks ∧ Leads s s' blocks := by
  obtain ⟨chunks, n, blocks, h, ht⟩ := Told.of_run hmax hrun
  refine ⟨⟨blocks, h.advertised ht⟩, ?_⟩
  intro first last s' o htidy hstep ext s'' hrun' hext
  obtain ⟨s₁, o₁, chunks', n', blocks', hstep', h', ht', hleads⟩ := ht.segment h htidy
  cases hstep'.symm.trans hstep
  obtain ⟨chunks'', h'', ht''⟩ := ht'.extracts h' hrun' hext
  exact ⟨blocks', h''.advertised ht'', hleads⟩

/-- Two blocks, joined by a segment between them, and a third. -/
def scattered : List ReceptionEvent :=
  [.segment 4294967292 4294967294, .segment 4294967296 4294967298, .segment 4294967290 4294967291, .segment 4294967300 4294967301,
    .extract 1]

theorem scattered_isSome :
    (machine.exec Tidy (start 4294967290 100 [1, 2, 3, 4, 5, 6, 7, 8, 9, 10, 11, 12]) scattered).isSome := by
  decide +kernel

theorem scattered_advertised : ∃ tr s s' o,
    Run machine Tidy (start 4294967290 100 [1, 2, 3, 4, 5, 6, 7, 8, 9, 10, 11, 12]) tr s ∧
      machine.step s (.segment 4294967293 4294967297) = some (s', o) ∧
      s'.buffer.sackList = [(⟨4294967292⟩, ⟨2⟩), (⟨4⟩, ⟨5⟩)] ∧ ∃ blocks, Advertised s' blocks ∧ Leads s s' blocks := by
  have hrun := run_of_isSome machine Tidy _ _ scattered_isSome
  exact ⟨_, _, _, _, hrun, rfl, by decide +kernel,
    (sackList_advertised _ _ _ (by decide) hrun).2 4294967293 4294967297 _ _ (by decide +kernel) rfl _ _ .nil (by simp)⟩

/-- A segment out of order around a chunk that is reported. -/
def swallowing : List ReceptionEvent := [.segment 10 12, .segment 8 14]

theorem swallowing_isSome : (machine.exec Windowed (start 0 100 (List.replicate 20 7)) swallowing).isSome := by
  decide +kernel

/-- **A block inside another**: both stay in the list. -/
theorem swallowed_not_advertised : ∃ tr s, Run machine Windowed (start 0 100 (List.replicate 20 7)) tr s ∧
    tr.map Prod.fst = swallowing ∧ ¬ ∃ blocks, Advertised s blocks := by
  have hrun := run_of_isSome machine Windowed _ _ swallowing_isSome
  refine ⟨_, _, hrun, by decide +kernel, ?_⟩
  have hlist : ((machine.exec Windowed (start 0 100 (replicate 20 7)) swallowing).get swallowing_isSome).2.buffer.sackList =
      [(⟨8⟩, ⟨14⟩), (⟨10⟩, ⟨12⟩)] := by decide +kernel
  have hexpected : ((machine.exec Windowed (start 0 100 (replicate 20 7)) swallowing).get swallowing_isSome).2.expected = 0 := by
    decide +kernel
  intro ⟨blocks, hadv⟩
  have hblocks := hadv.sackList
  have habove := hadv.above
  rw [hlist] at hblocks
  rw [hexpected] at habove
  obtain ⟨x, y, rfl⟩ := length_eq_two.mp (by simpa using congrArg List.length hblocks.symm)
  have hx := habove x (by simp)
  have hy := habove y (by simp)
  have hclear := (pairwise_cons.mp hadv.clear).1 y (by simp)
  simp only [map_cons, map_nil, List.cons.injEq, and_true, sackBlock, ofPosition, Prod.mk.injEq,
    SequenceNumber32.mk.injEq] at hblocks
  unfold Clear at hclear
  omega

end TcpReception

end Ns3
