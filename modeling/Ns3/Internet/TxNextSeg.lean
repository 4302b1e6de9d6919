import Mathlib.Algebra.Order.Ring.Nat
import Mathlib.Algebra.Order.Sub.Basic
import Mathlib.Data.Nat.Cast.Order.Basic
import Mathlib.Data.Nat.SuccPred
import Mathlib.Order.Lattice.Nat
import Ns3.Internet.TxBufferSound

/-!
# The next segment

`NextSeg` against RFC 6675: the first lost item that is neither retransmitted
nor sacked; otherwise unsent data, as far as the window allows; otherwise, in
recovery, the first item that is neither retransmitted nor sacked.
-/

namespace Ns3

open TcpTxItem Option

namespace TcpTxItem

def isOpen (item : TcpTxItem) : Bool := !item.retrans && !item.sacked

def isLostOpen (item : TcpTxItem) : Bool := item.isOpen && item.lost

end TcpTxItem

namespace TcpTxBuffer

open SequenceNumber32

def firstStart (flag : TcpTxItem → Bool) : SequenceNumber32 → List TcpTxItem → Option SequenceNumber32
  | _, [] => none
  | begin, item :: rest => if flag item then some begin else firstStart flag (begin.add item.size) rest

def AnswersRfc (b : TcpTxBuffer) (rWnd : Nat) (isRecovery : Bool) : Prop :=
  match firstStart isLostOpen b.firstByteSeq b.sentList with
  | some seq => ∃ seqHigh, b.nextSeg rWnd isRecovery = some (seq, seqHigh)
  | none =>
    if b.sentSize < b.size then
      if b.sentSize < rWnd then
        ∃ seqHigh, b.nextSeg rWnd isRecovery = some (b.firstByteSeq.add b.sentSize, seqHigh) ∧
          seqHigh ≠ b.firstByteSeq.add b.sentSize
      else b.nextSeg rWnd isRecovery = none
    else
      (b.nextSeg rWnd isRecovery).map Prod.fst =
        if isRecovery then firstStart isOpen b.firstByteSeq b.sentList else none

/-- A buffer whose counters are the sizes of its lists. -/
structure Board (b : TcpTxBuffer) : Prop where
  head : b.firstByteSeq.value < 4294967296
  sentSize : b.sentSize = (bytesOf b.sentList).length
  size : b.size = b.sentSize + (bytesOf b.appList).length
  size_lt : b.size < 4294967296
  filled : ∀ i ∈ b.sentList, 0 < i.size

/-! ## The loop -/

section
variable {flag : TcpTxItem → Bool}

theorem firstStart_none : ∀ {l : List TcpTxItem} {begin : SequenceNumber32},
    firstStart flag begin l = none ↔ ∀ i ∈ l, flag i = false
  | [], _ => by simp [firstStart]
  | item :: l, begin => by
    rw [firstStart]
    by_cases hflag : flag item = true
    · simp [hflag]
    · simp [hflag, firstStart_none]

theorem firstStart_some : ∀ {l : List TcpTxItem} {p : Nat} {seq : SequenceNumber32}, (∀ i ∈ l, 0 < i.size) →
    firstStart flag (ofPosition p) l = some seq → ∃ k < (bytesOf l).length, seq = ofPosition (p + k)
  | [], _, _, _, h => by simp [firstStart] at h
  | item :: l, p, seq, hpos, h => by
    have hitem := hpos item (by simp)
    rw [firstStart] at h
    rw [length_bytesOf_cons]
    split at h
    · cases h
      exact ⟨0, by omega, rfl⟩
    · rw [add_ofPosition] at h
      obtain ⟨k, hk, rfl⟩ := firstStart_some (fun i hi => hpos i (by simp [hi])) h
      exact ⟨item.size + k, by omega, by rw [Nat.add_assoc]⟩

theorem ofPosition_ne {p k : Nat} (hk : 0 < k) (hlt : k < 4294967296) : ofPosition (p + k) ≠ ofPosition p := by
  simp only [ofPosition, ne_eq, SequenceNumber32.mk.injEq]
  omega

end

section
variable {isRecovery : Bool} {l : List TcpTxItem} {begin seq : SequenceNumber32} {rule3 : Option SequenceNumber32}

theorem nextLost_fst : (nextLost isRecovery begin l rule3).1 = firstStart isLostOpen begin l := by
  induction l generalizing begin rule3 with
  | nil => rfl
  | cons item l ih =>
    rw [nextLost, firstStart]
    by_cases hopen : item.retrans = false ∧ item.sacked = false
    · rw [if_pos hopen]
      by_cases hlost : item.lost = true
      · simp [isLostOpen, isOpen, hopen, hlost]
      · simp only [hlost, isLostOpen, Bool.and_false, Bool.false_eq_true, if_false]
        exact ih
    · have hclosed : item.isLostOpen = false := by
        simp only [isLostOpen, isOpen, Bool.and_eq_false_iff, Bool.not_eq_false']
        simp only [Bool.not_eq_false, not_and] at hopen
        cases hr : item.retrans with
        | true => exact .inl (.inl rfl)
        | false => exact .inl (.inr (hopen hr))
      rw [if_neg hopen, hclosed, if_neg Bool.false_ne_true]
      exact ih

theorem nextLost_keeps {P : Option SequenceNumber32 → Prop}
    (hnext : ∀ begin r, P r → P (if (r.getD ⟨0⟩).value = 0 ∧ isRecovery then some begin else r)) (h : P rule3) :
    P (nextLost isRecovery begin l rule3).2 := by
  induction l generalizing begin rule3 with
  | nil => exact h
  | cons item l ih =>
    rw [nextLost]
    split
    · split
      · exact h
      · exact ih (hnext begin rule3 h)
    · exact ih h

theorem nextLost_idle : (nextLost false begin l rule3).2 = rule3 := by
  refine nextLost_keeps (P := fun r => r = rule3) (fun begin r hr => ?_) rfl
  rwa [if_neg fun h => Bool.false_ne_true h.2]

theorem nextLost_kept (hseq : seq.value ≠ 0) : (nextLost isRecovery begin l (some seq)).2 = some seq := by
  refine nextLost_keeps (P := fun r => r = some seq) (fun begin r hr => ?_) rfl
  subst hr
  rw [getD_some, if_neg fun h => hseq h.1]

theorem nextLost_isSome : (nextLost isRecovery begin l (some seq)).2.isSome := by
  refine nextLost_keeps (P := fun r => r.isSome) (fun begin r hr => ?_) rfl
  split
  · rfl
  · exact hr

theorem nextLost_zero (hseq : seq.value = 0) :
    (nextLost true begin l (some seq)).2 = (nextLost true begin l none).2.or (some seq) := by
  induction l generalizing begin with
  | nil => rfl
  | cons item l ih =>
    rw [nextLost, nextLost]
    split
    · split
      · rfl
      · simp only [getD_some, getD_none, hseq, and_self, if_true]
        obtain ⟨seq', hsome⟩ := isSome_iff_exists.mp (@nextLost_isSome true l
          (begin.add item.size) begin)
        rw [hsome]
        rfl
    · exact ih

end

theorem isOpen_iff {item : TcpTxItem} : item.isOpen = true ↔ item.retrans = false ∧ item.sacked = false := by
  simp [isOpen]

theorem countP_pos_of_firstStart {flag : TcpTxItem → Bool} {l : List TcpTxItem} {begin : SequenceNumber32}
    (h : firstStart flag begin l ≠ none) : 0 < l.countP flag := by
  rw [List.countP_pos_iff]
  by_contra hnone
  push Not at hnone
  exact h (firstStart_none.mpr fun i hi => by simpa using hnone i hi)

theorem nextLost_snd : ∀ {l : List TcpTxItem} {p : Nat}, (∀ i ∈ l, 0 < i.size) → (bytesOf l).length < 4294967296 →
    firstStart isLostOpen (ofPosition p) l = none →
    ((nextLost true (ofPosition p) l none).2 = firstStart isOpen (ofPosition p) l ↔
      ¬ (firstStart isOpen (ofPosition p) l = some ⟨0⟩ ∧ 2 ≤ l.countP isOpen))
  | [], _, _, _, _ => by simp [nextLost, firstStart]
  | item :: l, p, hpos, hlen, hnone => by
    have hitem := hpos item (by simp)
    have hrest : ∀ i ∈ l, 0 < i.size := fun i hi => hpos i (by simp [hi])
    rw [length_bytesOf_cons] at hlen
    have hlost := firstStart_none.mp hnone
    have ih := nextLost_snd (p := p + item.size) hrest (by omega)
      (firstStart_none.mpr fun i hi => hlost i (by simp [hi]))
    rw [← add_ofPosition] at ih
    rw [nextLost, firstStart, List.countP_cons]
    by_cases hopen : item.isOpen = true
    · have hnotlost : item.lost = false := by
        have hitem' := hlost item (by simp)
        simpa [isLostOpen, hopen] using hitem'
      simp only [if_pos (isOpen_iff.mp hopen), hnotlost, hopen, Bool.false_eq_true, if_false, getD_none,
        and_self, if_true, Option.some.injEq]
      by_cases hzero : (ofPosition p).value = 0
      · -- the next candidate takes its place
        have hself : ofPosition p = ⟨0⟩ := by rw [← hzero]
        rw [nextLost_zero hzero]
        cases hfirst : firstStart isOpen ((ofPosition p).add item.size) l with
        | none =>
          have hcount : l.countP isOpen = 0 := by
            simpa [List.countP_eq_zero] using firstStart_none.mp hfirst
          rw [hfirst] at ih
          rw [ih.mpr (by simp), hcount]
          simp
        | some seq =>
          have hcount := @countP_pos_of_firstStart isOpen l _ (by rw [hfirst]; simp)
          rw [add_ofPosition] at hfirst
          obtain ⟨k, hk, rfl⟩ := firstStart_some hrest hfirst
          have hne : ofPosition (p + item.size + k) ≠ ofPosition p := by
            rw [Nat.add_assoc]
            exact ofPosition_ne (by omega) (by omega)
          rw [add_ofPosition, hfirst] at ih
          rw [add_ofPosition, ih.mpr (by rw [← hself]; simp [hne])]
          simp only [some_or, Option.some.injEq, hne, false_iff, not_not]
          exact ⟨hself, by omega⟩
      · rw [nextLost_kept hzero]
        have hne : ofPosition p ≠ ⟨0⟩ := by
          intro h
          exact hzero (by rw [h])
        simp [hne]
    · have hclosed : ¬ (item.retrans = false ∧ item.sacked = false) := fun h => hopen (isOpen_iff.mpr h)
      simpa [hclosed, hopen] using ih

theorem nextLost_none {l : List TcpTxItem} {begin : SequenceNumber32} (hnone : ∀ i ∈ l, i.isLostOpen = false) :
    (nextLost true begin l none).2 = none ↔ ∀ i ∈ l, i.isOpen = false := by
  induction l generalizing begin with
  | nil => simp [nextLost]
  | cons item l ih =>
    rw [nextLost]
    by_cases hopen : item.isOpen = true
    · have hnotlost : item.lost = false := by
        have hitem := hnone item (by simp)
        simpa [isLostOpen, hopen] using hitem
      have hsome := @nextLost_isSome true l (begin.add item.size) begin
      simp only [if_pos (isOpen_iff.mp hopen), hnotlost, Bool.false_eq_true, if_false, getD_none, and_self,
        if_true, List.forall_mem_cons, hopen, Bool.true_eq_false, false_and, iff_false]
      intro h
      simp [h] at hsome
    · have hclosed : ¬ (item.retrans = false ∧ item.sacked = false) := fun h => hopen (isOpen_iff.mpr h)
      simpa [hclosed, hopen] using ih fun i hi => hnone i (by simp [hi])

theorem nextLost_inside {isRecovery : Bool} : ∀ {l : List TcpTxItem} {p : Nat} {rule3 : Option SequenceNumber32}
    {seq : SequenceNumber32}, (∀ i ∈ l, 0 < i.size) → (nextLost isRecovery (ofPosition p) l rule3).2 = some seq →
    rule3 = some seq ∨ ∃ k < (bytesOf l).length, seq = ofPosition (p + k)
  | [], _, _, _, _, h => .inl h
  | item :: l, p, rule3, seq, hpos, h => by
    have hitem := hpos item (by simp)
    have hrest : ∀ i ∈ l, 0 < i.size := fun i hi => hpos i (by simp [hi])
    have hinside : (∃ k < (bytesOf l).length, seq = ofPosition (p + item.size + k)) →
        ∃ k < (bytesOf (item :: l)).length, seq = ofPosition (p + k) := by
      intro hk
      obtain ⟨k, hk, rfl⟩ := hk
      rw [length_bytesOf_cons]
      exact ⟨item.size + k, by omega, by rw [Nat.add_assoc]⟩
    rw [nextLost, add_ofPosition] at h
    split at h
    · split at h
      · exact .inl h
      · split at h
        · rcases nextLost_inside hrest h with heq | hk
          · cases heq
            refine .inr ⟨0, ?_, rfl⟩
            rw [length_bytesOf_cons]
            omega
          · exact .inr (hinside hk)
        · exact (nextLost_inside hrest h).imp_right hinside
    · exact (nextLost_inside hrest h).imp_right hinside

/-! ## The answer -/

section
variable {b : TcpTxBuffer}

theorem Board.position (h : Board b) : b.firstByteSeq = ofPosition b.firstByteSeq.value := by
  rw [ofPosition, Nat.mod_eq_of_lt h.head]

theorem sizeFromSequence_none (h : Board b) (heq : b.size = b.sentSize) :
    b.sizeFromSequence (b.firstByteSeq.add b.sentSize) = 0 := by
  have hge : Near (b.firstByteSeq.value + b.sentSize) (b.firstByteSeq.value + b.sentSize) := by
    unfold Near
    omega
  rw [sizeFromSequence, tailSequence, heq, h.position, add_ofPosition, ge_ofPosition hge,
    if_pos (by simp), diff_ofPosition (by omega) (by omega), Nat.sub_self]

theorem nextSeg_rule3 {rWnd : Nat} {isRecovery : Bool} (hnone : firstStart isLostOpen b.firstByteSeq b.sentList = none)
    (hsent : ¬ 0 < b.sizeFromSequence (b.firstByteSeq.add b.sentSize)) :
    (b.nextSeg rWnd isRecovery).map Prod.fst = (nextLost isRecovery b.firstByteSeq b.sentList none).2 := by
  have hfst := @nextLost_fst isRecovery b.sentList b.firstByteSeq none
  rw [hnone] at hfst
  simp only [nextSeg, hfst, if_neg hsent, Option.map_map]
  exact Option.map_id'

theorem nextSeg_rule2 {rWnd : Nat} {isRecovery : Bool} (hnone : firstStart isLostOpen b.firstByteSeq b.sentList = none)
    (hsent : 0 < b.sizeFromSequence (b.firstByteSeq.add b.sentSize)) : b.nextSeg rWnd isRecovery =
      if b.sentSize ≤ rWnd then
        some (b.firstByteSeq.add b.sentSize, (b.firstByteSeq.add b.sentSize).add (min b.segmentSize (rWnd - b.sentSize)))
      else none := by
  have hfst := @nextLost_fst isRecovery b.sentList b.firstByteSeq none
  rw [hnone] at hfst
  simp only [nextSeg, hfst, if_pos hsent]

/-- **The next segment.** -/
theorem nextSeg_iff (h : Board b) {rWnd : Nat} (hrWnd : rWnd < 4294967296) (isRecovery : Bool) :
    AnswersRfc b rWnd isRecovery ↔ (∃ i ∈ b.sentList, i.isLostOpen = true) ∨ if b.sentSize < b.size then
        if 0 < b.sizeFromSequence (b.firstByteSeq.add b.sentSize) then
          b.sentSize ≠ rWnd ∧ (b.sentSize < rWnd → 0 < b.segmentSize)
        else rWnd ≤ b.sentSize ∧ (isRecovery = true → ∀ i ∈ b.sentList, i.isOpen = false)
      else ¬ (isRecovery = true ∧ firstStart isOpen b.firstByteSeq b.sentList = some ⟨0⟩ ∧
        2 ≤ b.sentList.countP isOpen) := by
  have hsentSize := h.sentSize
  have hsize := h.size_lt
  have hsum := h.size
  have hlen : (bytesOf b.sentList).length < 4294967296 := by omega
  unfold AnswersRfc
  -- rule 1, and without a lost item rules 2 and 3
  cases hlost : firstStart isLostOpen b.firstByteSeq b.sentList with
  | some seq =>
    have hexists : ∃ i ∈ b.sentList, i.isLostOpen = true := by
      by_contra hno
      push Not at hno
      rw [firstStart_none.mpr fun i hi => by simpa using hno i hi] at hlost
      cases hlost
    have hfst := @nextLost_fst isRecovery b.sentList b.firstByteSeq none
    rw [hlost] at hfst
    refine iff_of_true ⟨seq.add b.segmentSize, ?_⟩ (.inl hexists)
    simp [nextSeg, hfst]
  | none =>
    have hnolost := firstStart_none.mp hlost
    have hno : ¬ ∃ i ∈ b.sentList, i.isLostOpen = true := by
      intro hi
      obtain ⟨i, hi, hopen⟩ := hi
      rw [hnolost i hi] at hopen
      cases hopen
    rw [or_iff_right hno]
    by_cases hunsent : b.sentSize < b.size
    · simp only [if_pos hunsent]
      by_cases hfound : 0 < b.sizeFromSequence (b.firstByteSeq.add b.sentSize)
      · rw [if_pos hfound, nextSeg_rule2 hlost hfound]
        by_cases hroom : b.sentSize < rWnd
        · -- a range of no bytes ends where it starts
          rw [if_pos hroom, if_pos (Nat.le_of_lt hroom), h.position, add_ofPosition, add_ofPosition]
          have hiff : (∃ seqHigh, some (ofPosition (b.firstByteSeq.value + b.sentSize),
              ofPosition (b.firstByteSeq.value + b.sentSize + min b.segmentSize (rWnd - b.sentSize))) =
                some (ofPosition (b.firstByteSeq.value + b.sentSize), seqHigh) ∧
              seqHigh ≠ ofPosition (b.firstByteSeq.value + b.sentSize)) ↔ 0 < b.segmentSize := by
            simp only [Option.some.injEq, Prod.mk.injEq, true_and, exists_eq_left']
            refine ⟨fun hne => Nat.pos_of_ne_zero fun hzero => hne ?_, fun hpos => ofPosition_ne ?_ ?_⟩
            · rw [hzero, Nat.zero_min, Nat.add_zero]
            · exact Nat.lt_min.mpr ⟨hpos, by omega⟩
            · exact Nat.lt_of_le_of_lt (Nat.min_le_right _ _) (by omega)
          rw [hiff]
          exact ⟨fun hpos => ⟨by omega, fun _ => hpos⟩, fun hcond => hcond.2 hroom⟩
        · rw [if_neg hroom]
          by_cases hequal : b.sentSize = rWnd
          · simp [hequal]
          · rw [if_neg (by omega)]
            exact iff_of_true rfl ⟨hequal, fun hlt => absurd hlt hroom⟩
      · have hrule3 := @nextSeg_rule3 b rWnd isRecovery hlost hfound
        rw [if_neg hfound]
        by_cases hroom : b.sentSize < rWnd
        · rw [if_pos hroom]
          refine iff_of_false ?_ (by omega)
          intro hanswer
          obtain ⟨seqHigh, hseg, -⟩ := hanswer
          rw [hseg, map_some] at hrule3
          rw [h.position] at hrule3
          rcases nextLost_inside h.filled hrule3.symm with hnil | hin
          · cases hnil
          · -- no sent item starts where the unsent data does
            obtain ⟨k, hk, heq⟩ := hin
            rw [add_ofPosition] at heq
            simp only [ofPosition, SequenceNumber32.mk.injEq] at heq
            omega
        · rw [if_neg hroom, ← map_eq_none_iff (f := Prod.fst), hrule3]
          cases isRecovery with
          | false =>
            rw [nextLost_idle]
            exact iff_of_true rfl ⟨by omega, fun h => by cases h⟩
          | true =>
            rw [nextLost_none hnolost]
            exact ⟨fun hclosed => ⟨by omega, fun _ => hclosed⟩, fun hcond => hcond.2 rfl⟩
    · have heq : b.size = b.sentSize := by omega
      have hfound : ¬ 0 < b.sizeFromSequence (b.firstByteSeq.add b.sentSize) := by
        rw [sizeFromSequence_none h heq]
        exact Nat.lt_irrefl 0
      simp only [if_neg hunsent]
      rw [nextSeg_rule3 hlost hfound]
      cases isRecovery with
      | false => simp [nextLost_idle]
      | true =>
        have hsnd := nextLost_snd (p := b.firstByteSeq.value) h.filled hlen (h.position ▸ hlost)
        rw [← h.position] at hsnd
        simpa using hsnd

end

def lostHead : TcpTxBuffer where
  firstByteSeq := ⟨4294967295⟩
  size := 3
  sentSize := 2
  segmentSize := 1
  sentList := [{ address := 0, packet := [1], lost := true }, { address := 1, packet := [2] }]
  appList := [{ address := 2, packet := [3] }]

theorem answersRfc_lostHead : AnswersRfc lostHead 2 true :=
  (nextSeg_iff ⟨by decide, by decide, by decide, by decide, by decide⟩ (by decide) true).mpr (.inl (by decide))

/-- Nothing is lost, and the bytes in flight fill a window of two bytes. -/
def fullWindow : TcpTxBuffer :=
  { lostHead with sentList := [{ address := 0, packet := [1, 2] }] }

theorem not_answersRfc_fullWindow : ¬ ∀ (b : TcpTxBuffer) (rWnd : Nat) (isRecovery : Bool), Board b →
    rWnd < 4294967296 → AnswersRfc b rWnd isRecovery := by
  intro h
  have hboard : Board fullWindow := ⟨by decide, by decide, by decide, by decide, by decide⟩
  have hanswer : fullWindow.nextSeg 2 false = none := h fullWindow 2 false hboard (by decide)
  revert hanswer
  decide

/-- The first candidate of rule 3 has number 0 and is passed over for the next one. -/
example : ({ lostHead with
      firstByteSeq := ⟨0⟩
      size := 2
      sentList := [{ address := 0, packet := [1] }, { address := 1, packet := [2] }]
      appList := [] } : TcpTxBuffer).nextSeg 10 true = some (⟨1⟩, ⟨2⟩) := by
  decide

end TcpTxBuffer

end Ns3
