import Ns3.Lib.OrdMap
import Ns3.Internet.TcpRxBuffer

/-!
# Chunks of a stream

The entries of a receive buffer with the positions they start at, instead of
sequence numbers. As long as all of them lie within half the sequence numbers
from some position on, the loops of `Add` and `Extract` do on positions what
they do on sequence numbers.
-/

namespace Ns3

open List

namespace TcpRxBuffer

open SequenceNumber32

abbrev Chunk := Nat × Bytes

def Chunk.stop (c : Chunk) : Nat := c.1 + c.2.length

def entry (c : Chunk) : SequenceNumber32 × Bytes := (ofPosition c.1, c.2)

def held (l : List Chunk) : Nat := (l.map fun c => c.2.length).sum

@[simp] theorem held_cons (c : Chunk) (l : List Chunk) : held (c :: l) = c.2.length + held l := by
  simp [held]

/-- Not empty, in ascending order and without overlap. -/
structure Apart (l : List Chunk) : Prop where
  pairwise : l.Pairwise fun c d => c.stop ≤ d.1
  pos : ∀ c ∈ l, c.1 < c.stop

theorem apart_nil : Apart [] := ⟨List.Pairwise.nil, by simp⟩

variable {c : Chunk} {l l' : List Chunk} {lo h t h' t' k : Nat}

theorem Apart.tail (h : Apart (c :: l)) : Apart l :=
  ⟨(pairwise_cons.mp h.pairwise).2, fun d hd => h.pos d (mem_cons_of_mem _ hd)⟩

theorem Apart.behind (h : Apart (c :: l)) : ∀ d ∈ l, c.stop ≤ d.1 :=
  (pairwise_cons.mp h.pairwise).1

theorem Apart.sublist (h : Apart l) (hsub : l'.Sublist l) : Apart l' :=
  ⟨h.pairwise.sublist hsub, fun c hc => h.pos c (hsub.subset hc)⟩

theorem apart_cons (hpos : c.1 < c.stop) (hbehind : ∀ d ∈ l, c.stop ≤ d.1) (h : Apart l) :
    Apart (c :: l) := by
  refine ⟨pairwise_cons.mpr ⟨hbehind, h.pairwise⟩, fun d hd => ?_⟩
  rcases mem_cons.mp hd with rfl | hd
  · exact hpos
  · exact h.pos d hd

def Stored (l : List Chunk) (q : Nat) : Prop := ∃ c ∈ l, c.1 ≤ q ∧ q < c.stop

@[simp] theorem stored_nil (q : Nat) : ¬ Stored [] q := by simp [Stored]

@[simp] theorem stored_cons (c : Chunk) (l : List Chunk) (q : Nat) :
    Stored (c :: l) q ↔ (c.1 ≤ q ∧ q < c.stop) ∨ Stored l q := by
  simp [Stored]

theorem Apart.eq_of_mem {c d : Chunk} {q : Nat} : ∀ {l : List Chunk}, Apart l → c ∈ l → d ∈ l → c.1 ≤ q ∧ q < c.stop →
    d.1 ≤ q ∧ q < d.stop → c = d
  | [], _, hc, _, _, _ => by cases hc
  | e :: l, h, hc, hd, hq, hq' => by
    have hbehind := h.behind
    rcases mem_cons.mp hc with hc | hc'
    · rcases mem_cons.mp hd with hd | hd'
      · exact hc.trans hd.symm
      · have := hbehind d hd'
        rw [← hc] at this
        omega
    · rcases mem_cons.mp hd with hd | hd'
      · have := hbehind c hc'
        rw [← hd] at this
        omega
      · exact h.tail.eq_of_mem hc' hd' hq hq'

theorem Apart.held_le {hi : Nat} : ∀ {l : List Chunk} {lo : Nat}, Apart l → lo ≤ hi → (∀ c ∈ l, lo ≤ c.1 ∧ c.stop ≤ hi) →
    lo + held l ≤ hi
  | [], _, _, hle, _ => hle
  | c :: l, lo, h, _, hall => by
    have hc := hall c (by simp)
    have hstop : c.stop = c.1 + c.2.length := rfl
    have := h.tail.held_le hc.2 fun d hd => ⟨h.behind d hd, (hall d (mem_cons_of_mem _ hd)).2⟩
    rw [held_cons]
    omega

/-- All chunks lie in the half of the sequence numbers from `lo` on. -/
def Within (lo : Nat) (l : List Chunk) : Prop := ∀ c ∈ l, lo ≤ c.1 ∧ c.stop < lo + 2147483648

theorem Within.tail (h : Within lo (c :: l)) : Within lo l :=
  fun d hd => h d (mem_cons_of_mem _ hd)

theorem Apart.held_within (h : Apart l) (hwithin : Within lo l) : held l ≤ 2147483648 := by
  have := h.held_le (Nat.le_add_right lo 2147483648) fun c hc => ⟨(hwithin c hc).1, Nat.le_of_lt (hwithin c hc).2⟩
  omega

theorem near_of_within {lo p q : Nat} (hp : lo ≤ p) (hp' : p < lo + 2147483648) (hq : lo ≤ q)
    (hq' : q < lo + 2147483648) : Near p q := ⟨by omega, by omega⟩

/-! ## Trimming a new segment -/

/-- What the trimming loop makes of the segment from `h` to `t`. -/
structure Trimmed (l : List Chunk) (h t : Nat) (l' : List Chunk) (h' t' : Nat) : Prop where
  sublist : l'.Sublist l
  head : h ≤ h'
  tail : t' ≤ t
  /-- A segment in front of all chunks keeps its head. -/
  front : (∀ c ∈ l, h < c.1) → h < t → h' = h ∧ h < t'
  /-- Nothing is left of a segment that was stored before. -/
  nothing : t' ≤ h' → l' = l ∧ ∀ q, h ≤ q → q < t → Stored l q
  apart : h' < t' → ∀ c ∈ l', c.stop ≤ h' ∨ t' ≤ c.1
  missing : h' < t' → ¬ Stored l h'
  swallowed : ∀ c ∈ l, c ∈ l' ∨ c.stop < t
  stored : h' < t' → ∀ q, (Stored l' q ∨ h' ≤ q ∧ q < t') ↔ (Stored l q ∨ h ≤ q ∧ q < t)

theorem trimmed_stop (hle : h ≤ t) (hbehind : ∀ c ∈ l, t ≤ c.1) : Trimmed l h t l h t where
  sublist := Sublist.refl l
  head := Nat.le_refl h
  tail := Nat.le_refl t
  front := fun _ hlt => ⟨rfl, hlt⟩
  nothing := fun hge => ⟨rfl, fun q hq hq' => by omega⟩
  apart := fun _ c hc => .inr (hbehind c hc)
  missing := by
    rintro hlt ⟨c, hc, hq⟩
    have := hbehind c hc
    omega
  swallowed := fun _ hc => .inl hc
  stored := fun _ _ => Iff.rfl

theorem Trimmed.keep (hr : Trimmed l h t l' h' t') (hc : c.stop ≤ h) :
    (h' < t' → ∀ d ∈ c :: l', d.stop ≤ h' ∨ t' ≤ d.1) ∧ (h' < t' → ¬ Stored (c :: l) h') ∧
      ∀ d ∈ c :: l, d ∈ c :: l' ∨ d.stop < t := by
  have hhead := hr.head
  refine ⟨?_, ?_, ?_⟩
  · intro hlt d hd
    rcases mem_cons.mp hd with rfl | hd
    · exact .inl (hc.trans hhead)
    · exact hr.apart hlt d hd
  · intro hlt hq
    rcases (stored_cons ..).mp hq with hq | hq
    · omega
    · exact hr.missing hlt hq
  · intro d hd
    rcases mem_cons.mp hd with rfl | hd
    · exact .inl mem_cons_self
    · exact (hr.swallowed d hd).imp_left (mem_cons_of_mem c)

theorem Trimmed.skip (hr : Trimmed l h t l' h' t') (hpos : c.1 < c.stop)
    (hc : c.stop ≤ h) : Trimmed (c :: l) h t (c :: l') h' t' where
  sublist := hr.sublist.cons_cons c
  head := hr.head
  tail := hr.tail
  front := by
    intro hfront
    have := hfront c (by simp)
    omega
  nothing := by
    intro hge
    obtain ⟨rfl, hall⟩ := hr.nothing hge
    exact ⟨rfl, fun q hq hq' => (stored_cons ..).mpr (.inr (hall q hq hq'))⟩
  apart := (hr.keep hc).1
  missing := (hr.keep hc).2.1
  swallowed := (hr.keep hc).2.2
  stored := by
    intro hlt q
    rw [stored_cons, stored_cons, or_assoc, or_assoc, hr.stored hlt q]

theorem Trimmed.swallow (hr : Trimmed l h t l' h' t')
    (hbehind : ∀ d ∈ l, c.stop ≤ d.1) (hpos : c.1 < c.stop) (hc : h < c.1) (hc' : c.stop < t) :
    Trimmed (c :: l) h t l' h' t' := by
  obtain ⟨rfl, hlt⟩ := hr.front (fun d hd => by have := hbehind d hd; omega) (by omega)
  refine ⟨hr.sublist.cons c, hr.head, hr.tail, fun _ _ => ⟨rfl, hlt⟩, fun hge => by omega, hr.apart, fun hlt hq => ?_,
    fun d hd => ?_, fun hlt q => ?_⟩
  · rcases (stored_cons ..).mp hq with hq | hq
    · omega
    · exact hr.missing hlt hq
  · rcases mem_cons.mp hd with rfl | hd
    · exact .inr hc'
    · exact hr.swallowed d hd
  rw [hr.stored hlt q, stored_cons, or_assoc]
  constructor
  · exact .inr
  · rintro (hq | hq)
    · exact .inr ⟨by omega, by omega⟩
    · exact hq

theorem Trimmed.cutHead (hr : Trimmed l c.stop t l' h' t')
    (hc : c.1 ≤ h) (hc' : h < c.stop) : Trimmed (c :: l) h t (c :: l') h' t' where
  sublist := hr.sublist.cons_cons c
  head := by have := hr.head; omega
  tail := hr.tail
  front := by
    intro hfront
    have := hfront c (by simp)
    omega
  nothing := by
    intro hge
    obtain ⟨rfl, hall⟩ := hr.nothing hge
    refine ⟨rfl, fun q hq hq' => (stored_cons ..).mpr ?_⟩
    rcases Nat.lt_or_ge q c.stop with hlt | hge'
    · exact .inl ⟨by omega, hlt⟩
    · exact .inr (hall q hge' hq')
  apart := (hr.keep (Nat.le_refl _)).1
  missing := (hr.keep (Nat.le_refl _)).2.1
  swallowed := (hr.keep (Nat.le_refl _)).2.2
  stored := by
    intro hlt q
    rw [stored_cons, stored_cons, or_assoc, or_assoc, hr.stored hlt q]
    constructor
    · rintro (hq | hq | hq)
      · exact .inl hq
      · exact .inr (.inl hq)
      · exact .inr (.inr ⟨by omega, hq.2⟩)
    · rintro (hq | hq | hq)
      · exact .inl hq
      · exact .inr (.inl hq)
      · rcases Nat.lt_or_ge q c.stop with hlt' | hge
        · exact .inl ⟨by omega, hlt'⟩
        · exact .inr (.inr ⟨hge, hq.2⟩)

theorem trimmed_cutTail (hbehind : ∀ d ∈ l, c.stop ≤ d.1)
    (hpos : c.1 < c.stop) (hle : h ≤ t) (hc : c.1 ≤ t) (hc' : t ≤ c.stop) :
    Trimmed (c :: l) h t (c :: l) (if c.1 ≤ h then c.stop else h) c.1 where
  sublist := Sublist.refl _
  head := by split <;> omega
  tail := hc
  front := by
    intro hfront _
    have := hfront c (by simp)
    exact ⟨if_neg (by omega), this⟩
  nothing := by
    intro hge
    refine ⟨rfl, fun q hq hq' => (stored_cons ..).mpr (.inl ?_)⟩
    split at hge <;> omega
  apart := by
    intro hlt d hd
    refine .inr ?_
    rcases mem_cons.mp hd with rfl | hd
    · exact Nat.le_refl _
    · have := hbehind d hd
      omega
  missing := by
    intro hlt hq
    split at hlt
    · omega
    · rename_i hnot
      rw [if_neg hnot] at hq
      rcases (stored_cons ..).mp hq with hq | ⟨d, hd, hq⟩
      · omega
      · have := hbehind d hd
        omega
  swallowed := fun _ hd => .inl hd
  stored := by
    intro hlt q
    rw [stored_cons]
    split at hlt
    · omega
    · rename_i hnot
      rw [if_neg hnot, or_right_comm, or_right_comm (b := Stored l q)]
      refine or_congr ?_ Iff.rfl
      omega

theorem trim_spec : ∀ (l : List Chunk) (h t n : Nat), Apart l → Within lo l → lo ≤ h → h ≤ t →
    t < lo + 2147483648 → n + held l < 4294967296 →
    ∃ l' h' t', trim (ofPosition h) (ofPosition t) (n + held l) (l.map entry) =
        ⟨ofPosition h', ofPosition t', n + held l', l'.map entry⟩ ∧ Trimmed l h t l' h' t' ∧ lo ≤ t' ∧ h' < lo + 2147483648
  | [], h, t, n, _, _, hlo, hle, ht, _ =>
    ⟨[], h, t, rfl, trimmed_stop hle (by simp), by omega, by omega⟩
  | c :: l, h, t, n, hapart, hwithin, hlo, hle, ht, hsize => by
    have hpos := hapart.pos c (by simp)
    have hbehind := hapart.behind
    have hc := hwithin c (by simp)
    have near {p q : Nat} (hp : lo ≤ p) (hp' : p < lo + 2147483648) (hq : lo ≤ q) (hq' : q < lo + 2147483648) :
        Near p q := near_of_within hp hp' hq hq'
    have hstop : (ofPosition c.1).add c.2.length = ofPosition c.stop := add_ofPosition ..
    rw [held_cons] at hsize
    rw [map_cons, trim]
    simp only [entry, hstop]
    rw [le_ofPosition (near (by omega) (by omega) (by omega) ht), gt_ofPosition (near (by omega) (by omega) hlo (by omega)),
      gt_ofPosition (near (by omega) (by omega) hlo (by omega)), lt_ofPosition (near (by omega) (by omega) (by omega) ht),
      le_ofPosition (near (by omega) (by omega) hlo (by omega)), ge_ofPosition (near (by omega) (by omega) (by omega) ht)]
    simp only [decide_eq_true_eq, Bool.and_eq_true]
    by_cases hfirst : c.1 ≤ t
    · rw [if_pos hfirst]
      by_cases hlast : h < c.stop
      · rw [if_pos hlast]
        by_cases hinside : h < c.1 ∧ c.stop < t
        · rw [if_pos hinside]
          obtain ⟨l', h', t', htrim, hr, hrest⟩ := trim_spec l h t n hapart.tail hwithin.tail hlo hle ht (by omega)
          refine ⟨l', h', t', ?_, hr.swallow hbehind hpos hinside.1 hinside.2, hrest⟩
          rw [← htrim, held_cons]
          congr 1
          unfold uint32
          lia
        · rw [if_neg hinside]
          by_cases htail : t ≤ c.stop
          · -- what follows starts behind the segment, and the loop stops
            refine ⟨c :: l, if c.1 ≤ h then c.stop else h, c.1, ?_,
              trimmed_cutTail hbehind hpos hle hfirst htail, by omega, by split <;> omega⟩
            have hstopped : ∀ s size, trim s (ofPosition c.1) size (l.map entry) = ⟨s, ofPosition c.1, size, l.map entry⟩ := by
              intro s size
              cases l with
              | nil => rfl
              | cons d l =>
                have hd := hbehind d (by simp)
                have hd' := hwithin d (by simp)
                have hd'' := hapart.pos d (by simp)
                rw [map_cons, trim, entry, le_ofPosition (near (by lia) (by lia) (by lia) (by lia)),
                  if_neg (by rw [decide_eq_true_eq]; lia)]
            rw [if_pos htail, hstopped]
            simp only [Trim.cons, map_cons, held_cons, entry, apply_ite ofPosition]
          · have hhead : c.1 ≤ h := by omega
            obtain ⟨l', h', t', htrim, hr, hrest⟩ := trim_spec l c.stop t (n + c.2.length) hapart.tail hwithin.tail
              (by omega) (by omega) ht (by omega)
            refine ⟨c :: l', h', t', ?_, hr.cutHead hhead hlast, hrest⟩
            rw [if_neg htail, if_pos hhead, held_cons, ← Nat.add_assoc, htrim, held_cons, ← Nat.add_assoc]
            rfl
      · rw [if_neg hlast]
        obtain ⟨l', h', t', htrim, hr, hrest⟩ := trim_spec l h t (n + c.2.length) hapart.tail hwithin.tail hlo hle ht
          (by omega)
        refine ⟨c :: l', h', t', ?_, hr.skip hpos (by omega), hrest⟩
        rw [held_cons, ← Nat.add_assoc, htrim, held_cons, ← Nat.add_assoc]
        rfl
    · rw [if_neg hfirst]
      refine ⟨c :: l, h, t, rfl, trimmed_stop hle fun d hd => ?_, by omega, by omega⟩
      rcases mem_cons.mp hd with rfl | hd
      · omega
      · have := hbehind d hd
        omega

/-! ## Storing a segment -/

theorem store_eq (p : Bytes) (hk : lo ≤ k) (hk' : k < lo + 2147483648) : ∀ (l : List Chunk), Within lo l →
    store (ofPosition k) p (l.map entry) = (insertEntry k p l).map entry
  | [], _ => rfl
  | c :: l, hwithin => by
    have hc := hwithin c (by simp)
    have hstop : c.1 ≤ c.stop := Nat.le_add_right _ _
    have hnear : Near k c.1 := near_of_within hk hk' hc.1 (by omega)
    have ih := store_eq p hk hk' l hwithin.tail
    have hbefore : (ofPosition k).lt (entry c).1 = decide (k < c.1) := lt_ofPosition hnear
    have hafter : (entry c).1.lt (ofPosition k) = decide (c.1 < k) := lt_ofPosition ⟨hnear.2, hnear.1⟩
    rw [map_cons, store, insertEntry]
    simp only [hbefore, hafter, decide_eq_true_eq]
    by_cases hlt : k < c.1
    · rw [if_pos hlt, if_pos hlt]
      rfl
    · rw [if_neg hlt, if_neg hlt]
      by_cases heq : k = c.1
      · rw [if_neg (by omega), if_pos heq, map_cons, entry, entry, heq]
      · rw [if_pos (by omega), if_neg heq, ih]
        rfl

theorem present_eq_false (hk : lo ≤ k) (hk' : k < lo + 2147483648) (hwithin : Within lo l)
    (hne : ∀ c ∈ l, c.1 ≠ k) : present (ofPosition k) (l.map entry) = false := by
  rw [present, List.any_eq_false]
  intro e he
  obtain ⟨c, hc, rfl⟩ := List.mem_map.mp he
  have hc' := hwithin c hc
  have hstop : c.1 ≤ c.stop := Nat.le_add_right _ _
  have hnear : Near k c.1 := near_of_within hk hk' hc'.1 (by omega)
  have := hne c hc
  simp only [entry, lt_ofPosition hnear, lt_ofPosition ⟨hnear.2, hnear.1⟩]
  simp only [Bool.and_eq_true, Bool.not_eq_true', decide_eq_false_iff_not]
  omega

theorem Apart.insert (hl : Apart l) {p : Bytes} (hp : k < k + p.length)
    (hgap : ∀ c ∈ l, c.stop ≤ k ∨ k + p.length ≤ c.1) :
    Apart (insertEntry k p l) ∧ (insertEntry k p l).Perm ((k, p) :: l) := by
  induction l with
  | nil => exact ⟨apart_cons hp (by simp) apart_nil, Perm.refl _⟩
  | cons c l ih =>
    have hpos := hl.pos c (by simp)
    have hc := hgap c (by simp)
    obtain ⟨hapart, hperm⟩ := ih hl.tail fun d hd => hgap d (mem_cons_of_mem _ hd)
    rw [insertEntry]
    by_cases hlt : k < c.1
    · rw [if_pos hlt]
      refine ⟨apart_cons hp (fun d hd => ?_) hl, Perm.refl _⟩
      have hle : k + p.length ≤ c.1 := by omega
      rcases mem_cons.mp hd with rfl | hd
      · exact hle
      · have := hl.behind d hd
        exact Nat.le_trans hle (by omega)
    · rw [if_neg hlt, if_neg (by omega)]
      refine ⟨apart_cons hpos (fun d hd => ?_) hapart, (hperm.cons c).trans (Perm.swap ..)⟩
      rcases mem_cons.mp (hperm.mem_iff.mp hd) with rfl | hd
      · omega
      · exact hl.behind d hd

theorem stored_perm (h : l.Perm l') (q : Nat) : Stored l q ↔ Stored l' q := by
  simp only [Stored, h.mem_iff]

theorem held_perm (h : l.Perm l') : held l = held l' := (h.map _).sum_nat

/-! ## Blocks of positions -/

def sackBlock (block : Nat × Nat) : SackBlock := (ofPosition block.1, ofPosition block.2)

/-- A property of blocks in the window that two adjoining ones pass on to their union. -/
structure Joins (lo : Nat) (G : Nat × Nat → Prop) : Prop where
  within : ∀ block, G block → lo ≤ block.1 ∧ block.1 < block.2 ∧ block.2 < lo + 2147483648
  join : ∀ x y, G x → G y → x.2 = y.1 → G (x.1, y.2)

/-- The first block that adjoins `begin`, joined with it, and the other blocks. -/
def joinBlock (begin : Nat × Nat) : List (Nat × Nat) → Option ((Nat × Nat) × List (Nat × Nat))
  | [] => none
  | current :: rest =>
    if begin.1 = current.2 then some ((current.1, begin.2), rest)
    else if begin.2 = current.1 then some ((begin.1, current.2), rest)
    else (joinBlock begin rest).map fun m => (m.1, current :: m.2)

def joinBlocks : Nat → Nat × Nat → List (Nat × Nat) → List (Nat × Nat)
  | 0, begin, blocks => begin :: blocks
  | rounds + 1, begin, blocks =>
    match joinBlock begin blocks with
    | none => begin :: blocks
    | some (merged, rest) => joinBlocks rounds merged rest

/-- No more than four blocks fit into the option. -/
def capBlocks (blocks : List (Nat × Nat)) : List (Nat × Nat) := if 4 < blocks.length then blocks.dropLast else blocks

def pushBlock (begin : Nat × Nat) (blocks : List (Nat × Nat)) : List (Nat × Nat) :=
  capBlocks (joinBlocks blocks.length begin blocks)

theorem joinBlock_none {begin : Nat × Nat} : ∀ {blocks : List (Nat × Nat)}, joinBlock begin blocks = none →
    ∀ x ∈ blocks, begin.1 ≠ x.2 ∧ begin.2 ≠ x.1
  | [], _ => by simp
  | current :: rest, h => by
    rw [joinBlock] at h
    by_cases h₁ : begin.1 = current.2
    · rw [if_pos h₁] at h
      cases h
    · rw [if_neg h₁] at h
      by_cases h₂ : begin.2 = current.1
      · rw [if_pos h₂] at h
        cases h
      · rw [if_neg h₂] at h
        intro x hx
        rcases List.mem_cons.mp hx with rfl | hx
        · exact ⟨h₁, h₂⟩
        · exact joinBlock_none (Option.map_eq_none_iff.mp h) x hx

theorem joinBlock_some {begin merged : Nat × Nat} : ∀ {blocks rest : List (Nat × Nat)},
    joinBlock begin blocks = some (merged, rest) → ∃ current : Nat × Nat, blocks.Perm (current :: rest) ∧
      (current.2 = begin.1 ∧ merged = (current.1, begin.2) ∨ begin.2 = current.1 ∧ merged = (begin.1, current.2))
  | [], _, h => by cases h
  | first :: others, rest, h => by
    rw [joinBlock] at h
    by_cases h₁ : begin.1 = first.2
    · rw [if_pos h₁] at h
      cases h
      exact ⟨first, List.Perm.refl _, .inl ⟨h₁.symm, rfl⟩⟩
    · rw [if_neg h₁] at h
      by_cases h₂ : begin.2 = first.1
      · rw [if_pos h₂] at h
        cases h
        exact ⟨first, List.Perm.refl _, .inr ⟨h₂, rfl⟩⟩
      · rw [if_neg h₂] at h
        obtain ⟨⟨m, l⟩, hjoin, heq⟩ := Option.map_eq_some_iff.mp h
        cases heq
        obtain ⟨current, hperm, hmerged⟩ := joinBlock_some hjoin
        exact ⟨current, (hperm.cons first).trans (Perm.swap ..), hmerged⟩

theorem joinBlocks_invariant (P : Nat × Nat → List (Nat × Nat) → Prop)
    (hstep : ∀ begin blocks merged rest, P begin blocks → joinBlock begin blocks = some (merged, rest) → P merged rest) :
    ∀ (rounds : Nat) (begin : Nat × Nat) (blocks : List (Nat × Nat)), P begin blocks →
      ∃ (merged : Nat × Nat) (rest : List (Nat × Nat)), joinBlocks rounds begin blocks = merged :: rest ∧ P merged rest ∧
        rest.length ≤ blocks.length ∧ (blocks.length ≤ rounds → joinBlock merged rest = none)
  | 0, begin, blocks, hP => by
    refine ⟨begin, blocks, rfl, hP, Nat.le_refl _, fun hle => ?_⟩
    rw [List.length_eq_zero_iff.mp (Nat.le_zero.mp hle)]
    rfl
  | rounds + 1, begin, blocks, hP => by
    rw [joinBlocks]
    cases hjoin : joinBlock begin blocks with
    | none => exact ⟨begin, blocks, rfl, hP, Nat.le_refl _, fun _ => hjoin⟩
    | some m =>
      obtain ⟨merged, rest⟩ := m
      obtain ⟨current, hperm, -⟩ := joinBlock_some hjoin
      have hlength := hperm.length_eq
      rw [length_cons] at hlength
      obtain ⟨merged', rest', hjoined, hP', hle, hnone⟩ := joinBlocks_invariant P hstep rounds merged rest
        (hstep begin blocks merged rest hP hjoin)
      exact ⟨merged', rest', hjoined, hP', by omega, fun hrounds => hnone (by omega)⟩

theorem capBlocks_sublist (blocks : List (Nat × Nat)) : (capBlocks blocks).Sublist blocks := by
  rw [capBlocks]
  split
  · exact dropLast_sublist blocks
  · exact Sublist.refl blocks

section
variable {lo : Nat} {G : Nat × Nat → Prop}

theorem mergeBlock_spec (hG : Joins lo G) {begin : Nat × Nat} (hbegin : G begin) : ∀ (blocks : List (Nat × Nat)),
    (∀ x ∈ blocks, G x) → mergeBlock (sackBlock begin) (blocks.map sackBlock) =
      some ((joinBlock begin blocks).map fun m => (sackBlock m.1, m.2.map sackBlock))
  | [], _ => rfl
  | current :: rest, hblocks => by
    have hcurrent := hblocks current (by simp)
    have hrest : ∀ x ∈ rest, G x := fun x hx => hblocks x (mem_cons_of_mem _ hx)
    have hb := hG.within begin hbegin
    have hc := hG.within current hcurrent
    have near {p q : Nat} (hp : lo ≤ p) (hp' : p < lo + 2147483648) (hq : lo ≤ q) (hq' : q < lo + 2147483648) :
        Near p q := near_of_within hp hp' hq hq'
    have hleft : (sackBlock begin).1 = (sackBlock current).2 ↔ begin.1 = current.2 :=
      ofPosition_inj (near (by omega) (by omega) (by omega) (by omega))
    have hright : (sackBlock begin).2 = (sackBlock current).1 ↔ begin.2 = current.1 :=
      ofPosition_inj (near (by omega) (by omega) (by omega) (by omega))
    have hlt₁ : (sackBlock current).1.lt (sackBlock begin).2 = decide (current.1 < begin.2) :=
      lt_ofPosition (near (by omega) (by omega) (by omega) (by omega))
    have hlt₂ : (sackBlock begin).1.lt (sackBlock current).2 = decide (begin.1 < current.2) :=
      lt_ofPosition (near (by omega) (by omega) (by omega) (by omega))
    rw [map_cons, mergeBlock, joinBlock]
    by_cases h₁ : begin.1 = current.2
    · rw [if_pos (hleft.mpr h₁), hlt₁, if_pos (decide_eq_true (by omega)), if_pos h₁]
      rfl
    · rw [if_neg (mt hleft.mp h₁), if_neg h₁]
      by_cases h₂ : begin.2 = current.1
      · rw [if_pos (hright.mpr h₂), hlt₂, if_pos (decide_eq_true (by omega)), if_pos h₂]
        rfl
      · rw [if_neg (mt hright.mp h₂), if_neg h₂, mergeBlock_spec hG hbegin rest hrest, Option.map_some, Option.map_map,
          Option.map_map]
        rfl

theorem joinBlock_joins (hG : Joins lo G) {begin merged : Nat × Nat} {blocks rest : List (Nat × Nat)} (hbegin : G begin)
    (hblocks : ∀ x ∈ blocks, G x) (hjoin : joinBlock begin blocks = some (merged, rest)) : G merged ∧ ∀ x ∈ rest, G x := by
  obtain ⟨current, hperm, hmerged⟩ := joinBlock_some hjoin
  have hcurrent := hblocks current (hperm.mem_iff.mpr (by simp))
  refine ⟨?_, fun x hx => hblocks x (hperm.mem_iff.mpr (mem_cons_of_mem _ hx))⟩
  rcases hmerged with ⟨heq, rfl⟩ | ⟨heq, rfl⟩
  · exact hG.join current begin hcurrent hbegin heq
  · exact hG.join begin current hbegin hcurrent heq

theorem mergeBlocks_spec (hG : Joins lo G) : ∀ (rounds : Nat) (begin : Nat × Nat) (blocks : List (Nat × Nat)), G begin →
    (∀ x ∈ blocks, G x) →
    mergeBlocks rounds (sackBlock begin) (blocks.map sackBlock) = some ((joinBlocks rounds begin blocks).map sackBlock)
  | 0, begin, blocks, _, _ => rfl
  | rounds + 1, begin, blocks, hbegin, hblocks => by
    rw [mergeBlocks, mergeBlock_spec hG hbegin blocks hblocks, joinBlocks]
    cases hjoin : joinBlock begin blocks with
    | none => rfl
    | some m =>
      obtain ⟨merged, rest⟩ := m
      obtain ⟨hmerged, hrest⟩ := joinBlock_joins hG hbegin hblocks hjoin
      exact mergeBlocks_spec hG rounds merged rest hmerged hrest

variable {blocks : List (Nat × Nat)}

/-- `UpdateSackList`, on plain positions. -/
theorem updateSackList_spec (hG : Joins lo G) {b : TcpRxBuffer} {next h t : Nat}
    (hnext : b.nextRxSeq = ofPosition next) (hlo : lo ≤ next) (hlt : next < h) (hblock : G (h, t))
    (hlist : b.sackList = blocks.map sackBlock) (hblocks : ∀ x ∈ blocks, G x) :
    b.updateSackList (ofPosition h) (ofPosition t) = some { b with sackList := (pushBlock (h, t) blocks).map sackBlock } ∧
      ∀ x ∈ pushBlock (h, t) blocks, G x := by
  have hwithin := hG.within (h, t) hblock
  have hmerge := mergeBlocks_spec hG b.sackList.length (h, t) blocks hblock hblocks
  rw [← hlist] at hmerge
  constructor
  · rw [updateSackList, hnext, gt_ofPosition (near_of_within (by omega) (by omega) hlo (by omega)),
      if_pos (decide_eq_true hlt)]
    rw [show (ofPosition h, ofPosition t) = sackBlock (h, t) from rfl, hmerge, Option.map_some, hlist]
    simp only [length_map, pushBlock, capBlocks, apply_ite (List.map sackBlock), map_dropLast]
  · intro x hx
    obtain ⟨merged, rest, hjoined, hall, -, -⟩ := joinBlocks_invariant (fun begin blocks => G begin ∧ ∀ x ∈ blocks, G x)
      (fun _ _ _ _ hP hjoin => joinBlock_joins hG hP.1 hP.2 hjoin) blocks.length (h, t) blocks ⟨hblock, hblocks⟩
    have hx' := (capBlocks_sublist _).subset hx
    rw [hjoined] at hx'
    rcases mem_cons.mp hx' with rfl | hx'
    · exact hall.1
    · exact hall.2 x hx'

theorem clearSackList_spec (hG : Joins lo G) {next : Nat} (hlo : lo ≤ next)
    (hnext : next < lo + 2147483648) (hblocks : ∀ x ∈ blocks, G x) :
    clearSackList (ofPosition next) (blocks.map sackBlock) =
      some ((blocks.filter fun block => next < block.2).map sackBlock) := by
  have hall : ((blocks.map sackBlock).all fun block => block.1.lt block.2) = true := by
    rw [List.all_eq_true]
    intro e he
    obtain ⟨x, hx, rfl⟩ := List.mem_map.mp he
    have hw := hG.within x (hblocks x hx)
    rw [sackBlock, lt_ofPosition ⟨by omega, by omega⟩]
    exact decide_eq_true hw.2.1
  rw [clearSackList, if_pos hall, List.filter_map]
  congr 2
  refine filter_congr fun x hx => ?_
  have hw := hG.within x (hblocks x hx)
  simp only [Function.comp_apply, sackBlock]
  rw [le_ofPosition (near_of_within (by omega) (by omega) hlo hnext), ← decide_not]
  exact decide_eq_decide.mpr Nat.not_le

end

/-! ## The data in order -/

/-- The first position from `next` on that is not stored. -/
structure Reached (l : List Chunk) (next next' : Nat) : Prop where
  le : next ≤ next'
  stored : ∀ q, next ≤ q → q < next' → Stored l q
  missing : ¬ Stored l next'

theorem advance_spec {G : Nat × Nat → Prop} (hG : Joins lo G) : ∀ (l : List Chunk) (b : TcpRxBuffer) (next : Nat)
    (blocks : List (Nat × Nat)), Apart l → Within lo l → (∀ c ∈ l, c.stop ≤ next ∨ next ≤ c.1) → lo ≤ next →
    next < lo + 2147483648 → b.nextRxSeq = ofPosition next → b.availBytes + held l < 4294967296 →
    b.sackList = blocks.map sackBlock → (∀ x ∈ blocks, G x ∧ next < x.2) →
    ∃ next', advance (l.map entry) b = some { b with
        nextRxSeq := ofPosition next'
        availBytes := b.availBytes + (next' - next)
        sackList := (blocks.filter fun block => next' < block.2).map sackBlock } ∧
      Reached l next next' ∧ next' < lo + 2147483648
  | [], b, next, blocks, _, _, _, _, hhi, hnext, _, hlist, hblocks => by
    have hall : blocks.filter (fun block => next < block.2) = blocks :=
      filter_eq_self.mpr fun x hx => decide_eq_true (hblocks x hx).2
    refine ⟨next, ?_, ⟨Nat.le_refl _, fun q hq hq' => by omega, by simp⟩, hhi⟩
    rw [hall, ← hlist, ← hnext, Nat.sub_self, Nat.add_zero]
    rfl
  | c :: l, b, next, blocks, hapart, hwithin, hsplit, hlo, hhi, hnext, havail, hlist, hblocks => by
    have hpos := hapart.pos c (by simp)
    have hbehind := hapart.behind
    have hc := hwithin c (by simp)
    have hcs := hsplit c (by simp)
    have hsplit' : ∀ d ∈ l, d.stop ≤ next ∨ next ≤ d.1 := fun d hd => hsplit d (mem_cons_of_mem _ hd)
    have hnear : Near c.1 next := near_of_within hc.1 (by omega) hlo hhi
    have hstop : (ofPosition c.1).add c.2.length = ofPosition c.stop := add_ofPosition ..
    rw [held_cons] at havail
    rw [map_cons, advance, hnext]
    simp only [entry, hstop]
    rw [lt_ofPosition hnear, gt_ofPosition hnear]
    simp only [decide_eq_true_eq]
    -- a chunk read before, the one that starts at `next`, or one behind a gap
    rcases Nat.lt_trichotomy c.1 next with hlt | heq | hgt
    · rw [if_pos hlt]
      obtain ⟨next', hadvance, hreached, hhi'⟩ := advance_spec hG l b next blocks hapart.tail hwithin.tail hsplit' hlo hhi
        hnext (by omega) hlist hblocks
      have hle := hreached.le
      refine ⟨next', hadvance, ⟨hle, fun q hq hq' => (stored_cons ..).mpr (.inr (hreached.stored q hq hq')), ?_⟩, hhi'⟩
      rw [stored_cons]
      rintro (hq | hq)
      · omega
      · exact hreached.missing hq
    · have hblocks' : ∀ x ∈ blocks, G x := fun x hx => (hblocks x hx).1
      have hcount : uint32 (b.availBytes + c.2.length) = b.availBytes + c.2.length := uint32_add (by omega)
      rw [if_neg (by omega), if_neg (by omega), hlist, clearSackList_spec hG (by omega) hc.2 hblocks', Option.bind_some,
        hcount]
      obtain ⟨next', hadvance, hreached, hhi'⟩ := advance_spec hG l
        { b with
          nextRxSeq := ofPosition c.stop
          availBytes := b.availBytes + c.2.length
          sackList := (blocks.filter fun block => c.stop < block.2).map sackBlock }
        c.stop (blocks.filter fun block => c.stop < block.2) hapart.tail hwithin.tail
        (fun d hd => .inr (hbehind d hd)) (by omega) hc.2 rfl (by show _ + _ + _ < _; omega) rfl
        (fun x hx => ⟨hblocks' x (mem_of_mem_filter hx), by simpa using (mem_filter.mp hx).2⟩)
      have hle := hreached.le
      refine ⟨next', ?_, ⟨by omega, fun q hq hq' => (stored_cons ..).mpr ?_, ?_⟩, hhi'⟩
      · have hfilter : (blocks.filter fun block => c.stop < block.2).filter (fun block => next' < block.2) =
            blocks.filter fun block => next' < block.2 := by
          rw [List.filter_filter]
          refine filter_congr fun x _ => ?_
          rw [Bool.eq_iff_iff, Bool.and_eq_true, decide_eq_true_eq, decide_eq_true_eq]
          omega
        have hamount : b.availBytes + c.2.length + (next' - c.stop) = b.availBytes + (next' - next) := by
          have : c.stop = c.1 + c.2.length := rfl
          lia
        rw [hadvance]
        simp only [hfilter, hamount]
      · rcases Nat.lt_or_ge q c.stop with hq'' | hq''
        · exact .inl ⟨by omega, hq''⟩
        · exact .inr (hreached.stored q hq'' hq')
      · rw [stored_cons]
        rintro (hq | hq)
        · omega
        · exact hreached.missing hq
    · have hall : blocks.filter (fun block => next < block.2) = blocks :=
        filter_eq_self.mpr fun x hx => decide_eq_true (hblocks x hx).2
      rw [if_neg (by omega), if_pos hgt]
      refine ⟨next, ?_, ⟨Nat.le_refl _, fun q hq hq' => by omega, ?_⟩, hhi⟩
      · rw [hall, ← hlist, ← hnext, Nat.sub_self, Nat.add_zero]
      · rintro ⟨d, hd, hd'⟩
        rcases mem_cons.mp hd with rfl | hd
        · omega
        · have := hbehind d hd
          omega

/-! ## Extracting -/

theorem store_rest {lo m : Nat} (hapart : Apart (c :: l)) (hwithin : Within lo (c :: l)) (hm : 0 < m)
    (hlt : m < c.2.length) :
    (store ((entry c).1.add m) ((entry c).2.drop m) ((c :: l).map entry)).eraseP (·.1 = (entry c).1) =
    ((c.1 + m, c.2.drop m) :: l).map entry ∧
    Chunk.stop (c.1 + m, c.2.drop m) = c.stop ∧ Apart ((c.1 + m, c.2.drop m) :: l) := by
  have hc := hwithin c (by simp)
  have hstop : c.stop = c.1 + c.2.length := rfl
  have hrest : Chunk.stop (c.1 + m, c.2.drop m) = c.stop := by
    simp only [Chunk.stop, length_drop]
    omega
  have hinsert : insertEntry (c.1 + m) (c.2.drop m) (c :: l) = c :: (c.1 + m, c.2.drop m) :: l := by
    rw [insertEntry, if_neg (by omega), if_neg (by omega)]
    cases l with
    | nil => rfl
    | cons d l =>
      have := hapart.behind d (by simp)
      rw [insertEntry, if_pos (by omega)]
  have hstore := store_eq (c.2.drop m) (k := c.1 + m) (by omega) (by omega) (c :: l) hwithin
  rw [hinsert] at hstore
  refine ⟨?_, hrest, apart_cons ?_ ?_ hapart.tail⟩
  · rw [show (entry c).1.add m = ofPosition (c.1 + m) from add_ofPosition .., show (entry c).2 = c.2 from rfl, hstore,
      map_cons, eraseP_cons_of_pos (by simp)]
  · omega
  · rw [hrest]
    exact hapart.behind

/-- The chunk is a piece of the stream whose first byte is at `base`. -/
def PieceOf (stream : Bytes) (base : Nat) (c : Chunk) : Prop :=
  base ≤ c.1 ∧ c.2 = (stream.drop (c.1 - base)).take c.2.length

/-- The bytes extracted are the next ones of the stream. -/
theorem extractLoop_spec {stream : Bytes} {base lo : Nat} (next : Nat) : ∀ (l : List Chunk) (e n : Nat), Apart l → Within lo l →
    (∀ c ∈ l, e ≤ c.1 ∧ PieceOf stream base c) → (∀ q, e ≤ q → q < e + n → Stored l q) → lo ≤ next →
    next < lo + 2147483648 → e + n ≤ next → base ≤ e →
    ∃ l', extractLoop (ofPosition next) (l.map entry) n = some (l'.map entry, (stream.drop (e - base)).take n) ∧
      Apart l' ∧ Within lo l' ∧ (∀ c ∈ l', e + n ≤ c.1 ∧ PieceOf stream base c) ∧
      (∀ q, Stored l' q ↔ Stored l q ∧ e + n ≤ q) ∧ held l = n + held l' ∧ ∀ c ∈ l, e + n ≤ c.1 → c ∈ l'
  | l, e, 0, hapart, hwithin, hpieces, _, _, _, _, _ => by
    refine ⟨l, by simp [extractLoop], hapart, hwithin, hpieces, fun q => ⟨fun hq => ⟨hq, ?_⟩, And.left⟩, by lia,
      fun _ hc _ => hc⟩
    obtain ⟨c, hc, hq, -⟩ := hq
    have := (hpieces c hc).1
    omega
  | [], e, n + 1, _, _, _, hstored, _, _, _, _ => absurd (hstored e (by omega) (by omega)) (stored_nil e)
  | c :: l, e, n + 1, hapart, hwithin, hpieces, hstored, hlo, hnext, hle, hbase => by
    have hpos := hapart.pos c (by simp)
    have hbehind := hapart.behind
    have hc := hwithin c (by simp)
    obtain ⟨hec, hpiece⟩ := hpieces c (by simp)
    have hfirst : c.1 = e := by
      obtain ⟨d, hd, hd'⟩ := hstored e (by omega) (by omega)
      rcases mem_cons.mp hd with rfl | hd
      · omega
      · have := hbehind d hd
        omega
    have hstop : c.stop = e + c.2.length := by rw [← hfirst]; rfl
    have hinOrder : (entry c).1.le (ofPosition next) = true := by
      rw [entry, le_ofPosition (near_of_within hc.1 (by omega) hlo hnext)]
      exact decide_eq_true (by omega)
    rw [map_cons, extractLoop, if_pos hinOrder]
    -- a chunk that fits leaves the map
    by_cases hfit : c.2.length ≤ n + 1
    · rw [if_pos (show (entry c).2.length ≤ n + 1 from hfit)]
      obtain ⟨l', hloop, hapart', hwithin', hpieces', hstored', hheld, hkept⟩ := extractLoop_spec next l (e + c.2.length)
        (n + 1 - c.2.length) hapart.tail hwithin.tail
        (fun d hd => ⟨by have := hbehind d hd; lia, (hpieces d (mem_cons_of_mem _ hd)).2⟩)
        (fun q hq hq' => by
          rcases (stored_cons ..).mp (hstored q (by omega) (by omega)) with hq'' | hq''
          · omega
          · exact hq'')
        hlo hnext (by omega) (by omega)
      have hend : e + c.2.length + (n + 1 - c.2.length) = e + (n + 1) := by omega
      rw [hend] at hpieces' hstored' hkept
      refine ⟨l', ?_, hapart', hwithin', hpieces', fun q => ?_, by rw [held_cons]; omega, fun d hd hle => ?_⟩
      · have hjoin : c.2 ++ (stream.drop (e + c.2.length - base)).take (n + 1 - c.2.length) =
            (stream.drop (e - base)).take (n + 1) := by
          have hskip : e + c.2.length - base = e - base + c.2.length := by omega
          have hsum : n + 1 = c.2.length + (n + 1 - c.2.length) := by omega
          have hbytes := hpiece.2
          rw [hfirst] at hbytes
          rw [hskip, ← drop_drop, hsum, take_add, ← hbytes, Nat.add_sub_cancel_left]
        rw [show (entry c).2 = c.2 from rfl, hloop, Option.map_some, hjoin]
      · rw [hstored', stored_cons]
        constructor
        · rintro ⟨hq, hq'⟩
          exact ⟨.inr hq, hq'⟩
        · rintro ⟨hq | hq, hq'⟩
          · lia
          · exact ⟨hq, hq'⟩
      · rcases mem_cons.mp hd with rfl | hd
        · lia
        · exact hkept d hd hle
    · -- the rest of the chunk takes its place
      rw [if_neg (show ¬ (entry c).2.length ≤ n + 1 from hfit)]
      obtain ⟨hstore, hrest, hapart'⟩ := store_rest hapart hwithin (Nat.succ_pos n) (Nat.lt_of_not_le hfit)
      rw [← map_cons, hstore, show (entry c).2 = c.2 from rfl]
      refine ⟨(c.1 + (n + 1), c.2.drop (n + 1)) :: l, ?_, hapart', ?_, ?_, fun q => ?_, ?_, fun d hd hle => ?_⟩
      · congr 2
        have hbytes := hpiece.2
        rw [hfirst] at hbytes
        conv_lhs => rw [hbytes]
        rw [take_take, Nat.min_eq_left (by omega)]
      · intro d hd
        rcases mem_cons.mp hd with rfl | hd
        · rw [hrest]
          exact ⟨by show lo ≤ c.1 + (n + 1); omega, hc.2⟩
        · exact hwithin d (mem_cons_of_mem _ hd)
      · intro d hd
        rcases mem_cons.mp hd with rfl | hd
        · refine ⟨by show e + (n + 1) ≤ c.1 + (n + 1); lia, by show base ≤ c.1 + (n + 1); lia, ?_⟩
          have hskip : c.1 + (n + 1) - base = c.1 - base + (n + 1) := by omega
          have hbytes := congrArg (drop (n + 1)) hpiece.2
          rw [drop_take, drop_drop] at hbytes
          rw [hskip, length_drop]
          exact hbytes
        · have := hbehind d hd
          exact ⟨by omega, (hpieces d (mem_cons_of_mem _ hd)).2⟩
      · rw [stored_cons, stored_cons, hrest]
        constructor
        · rintro (hq | hq)
          · exact ⟨.inl ⟨by omega, hq.2⟩, by have := hq.1; omega⟩
          · obtain ⟨d, hd, hd'⟩ := hq
            have := hbehind d hd
            exact ⟨.inr ⟨d, hd, hd'⟩, by omega⟩
        · rintro ⟨hq | hq, hq'⟩
          · exact .inl ⟨by show c.1 + (n + 1) ≤ q; omega, hq.2⟩
          · exact .inr hq
      · rw [held_cons, held_cons, length_drop]
        omega
      · rcases mem_cons.mp hd with rfl | hd
        · omega
        · exact mem_cons_of_mem _ hd

end TcpRxBuffer

end Ns3
