import Ns3.Internet.TcpTxBuffer

/-!
# Lists of items

The bytes of a list of items, the bytes of those with a flag, the positions at
which items start and the positions that are sacked. A search cuts a segment
out of a run of items with equal flags; the run is replaced by one with the
same bytes and the same flags.
-/

namespace Ns3

open List

namespace TcpTxBuffer

open SequenceNumber32

def bytesOf (l : List TcpTxItem) : Bytes := l.flatMap (·.packet)

@[simp] theorem bytesOf_nil : bytesOf [] = [] := rfl

@[simp] theorem bytesOf_cons (item : TcpTxItem) (l : List TcpTxItem) :
    bytesOf (item :: l) = item.packet ++ bytesOf l := rfl

@[simp] theorem bytesOf_append (l l' : List TcpTxItem) : bytesOf (l ++ l') = bytesOf l ++ bytesOf l' :=
  flatMap_append

theorem length_bytesOf_cons (item : TcpTxItem) (l : List TcpTxItem) :
    (bytesOf (item :: l)).length = item.size + (bytesOf l).length := length_append

def total (flag : TcpTxItem → Bool) (l : List TcpTxItem) : Nat :=
  (l.map fun item => if flag item then item.size else 0).sum

section
variable (flag : TcpTxItem → Bool)

@[simp] theorem total_nil : total flag [] = 0 := rfl

@[simp] theorem total_cons (item : TcpTxItem) (l : List TcpTxItem) :
    total flag (item :: l) = (if flag item then item.size else 0) + total flag l := by
  simp [total]

@[simp] theorem total_append (l l' : List TcpTxItem) : total flag (l ++ l') = total flag l + total flag l' := by
  simp [total]

theorem total_map (f : TcpTxItem → TcpTxItem) (hpacket : ∀ i, (f i).packet = i.packet)
    (hflag : ∀ i, flag (f i) = flag i) : ∀ l : List TcpTxItem, total flag (l.map f) = total flag l
  | [] => rfl
  | item :: l => by
    rw [List.map_cons, total_cons, total_cons, total_map f hpacket hflag l, hflag, TcpTxItem.size, hpacket]

theorem total_le : ∀ l : List TcpTxItem, total flag l ≤ (bytesOf l).length
  | [] => Nat.le_refl 0
  | item :: l => by
    have ih := total_le l
    rw [total_cons, length_bytesOf_cons]
    split <;> omega

theorem total_of_all {l : List TcpTxItem} (h : ∀ item ∈ l, flag item = true) : total flag l = (bytesOf l).length := by
  induction l with
  | nil => rfl
  | cons item l ih =>
    rw [total_cons, length_bytesOf_cons, if_pos (h item (by simp)), ih fun i hi => h i (mem_cons_of_mem _ hi)]

theorem total_of_none {l : List TcpTxItem} (h : ∀ item ∈ l, flag item = false) : total flag l = 0 := by
  induction l with
  | nil => rfl
  | cons item l ih =>
    rw [total_cons, h item (by simp), ih fun i hi => h i (mem_cons_of_mem _ hi)]
    rfl

end

theorem total_add_le {f g : TcpTxItem → Bool} : ∀ {l : List TcpTxItem}, (∀ item ∈ l, ¬ (f item = true ∧ g item = true)) →
    total f l + total g l ≤ (bytesOf l).length
  | [], _ => Nat.le_refl 0
  | item :: l, h => by
    have ih := total_add_le fun i hi => h i (mem_cons_of_mem _ hi)
    have hitem := h item (by simp)
    rw [total_cons, total_cons, length_bytesOf_cons]
    by_cases hf : f item = true
    · rw [if_pos hf, if_neg fun hg => hitem ⟨hf, hg⟩]
      omega
    · rw [if_neg hf]
      split <;> omega

/-! ## Positions -/

/-- The items are not empty and start where the one before ends. -/
def Laid : Nat → List TcpTxItem → Prop
  | _, [] => True
  | p, item :: l => item.startSeq = ofPosition p ∧ 0 < item.size ∧ Laid (p + item.size) l

@[simp] theorem laid_nil (p : Nat) : Laid p [] := trivial

@[simp] theorem laid_cons (p : Nat) (item : TcpTxItem) (l : List TcpTxItem) :
    Laid p (item :: l) ↔ item.startSeq = ofPosition p ∧ 0 < item.size ∧ Laid (p + item.size) l := Iff.rfl

@[simp] theorem laid_append : ∀ (l : List TcpTxItem) (p : Nat) (l' : List TcpTxItem),
    Laid p (l ++ l') ↔ Laid p l ∧ Laid (p + (bytesOf l).length) l'
  | [], p, l' => by simp
  | item :: l, p, l' => by
    simp only [List.cons_append, laid_cons, laid_append l, length_bytesOf_cons, Nat.add_assoc, and_assoc]

variable {l : List TcpTxItem} {v : Bool}

theorem Laid.split {p : Nat} (h : Laid p l) {item : TcpTxItem} (hi : item ∈ l) :
    ∃ before after, l = before ++ item :: after ∧ item.startSeq = ofPosition (p + (bytesOf before).length) ∧
      0 < item.size := by
  obtain ⟨before, after, rfl⟩ := append_of_mem hi
  rw [laid_append, laid_cons] at h
  exact ⟨before, after, rfl, h.2.1, h.2.2.1⟩

def SackedAt : Nat → List TcpTxItem → Nat → Prop
  | _, [], _ => False
  | p, item :: l, q => (item.sacked = true ∧ p ≤ q ∧ q < p + item.size) ∨ SackedAt (p + item.size) l q

@[simp] theorem sackedAt_nil (p q : Nat) : ¬ SackedAt p [] q := id

@[simp] theorem sackedAt_cons (p : Nat) (item : TcpTxItem) (l : List TcpTxItem) (q : Nat) :
    SackedAt p (item :: l) q ↔ (item.sacked = true ∧ p ≤ q ∧ q < p + item.size) ∨ SackedAt (p + item.size) l q :=
  Iff.rfl

@[simp] theorem sackedAt_append : ∀ (l : List TcpTxItem) (p : Nat) (l' : List TcpTxItem) (q : Nat),
    SackedAt p (l ++ l') q ↔ SackedAt p l q ∨ SackedAt (p + (bytesOf l).length) l' q
  | [], p, l', q => by simp
  | item :: l, p, l', q => by
    simp only [List.cons_append, sackedAt_cons, sackedAt_append l, length_bytesOf_cons, Nat.add_assoc, or_assoc]

theorem SackedAt.le : ∀ {l : List TcpTxItem} {p q : Nat}, SackedAt p l q → p ≤ q
  | item :: l, p, q, h => by
    rcases h with ⟨-, h, -⟩ | h
    · exact h
    · have := SackedAt.le h
      omega

theorem sackedAt_head {p : Nat} (h : Laid p l) : SackedAt p l p ↔ ∃ i ∈ l.head?, i.sacked = true := by
  cases l with
  | nil => simp
  | cons item l =>
    simp only [sackedAt_cons, head?_cons, Option.mem_some_iff, exists_eq_left']
    constructor
    · rintro (h' | h')
      · exact h'.1
      · have := h'.le
        have := h.2.1
        omega
    · exact fun hs => .inl ⟨hs, Nat.le_refl p, Nat.lt_add_of_pos_right h.2.1⟩

theorem not_sackedAt_of_unsacked : ∀ {l : List TcpTxItem} {p q : Nat}, (∀ item ∈ l, item.sacked = false) →
    ¬ SackedAt p l q
  | [], _, _, _ => id
  | item :: l, p, q, h => by
    rw [sackedAt_cons, h item (by simp)]
    rintro (⟨hs, -⟩ | hs)
    · cases hs
    · exact not_sackedAt_of_unsacked (fun i hi => h i (List.mem_cons_of_mem _ hi)) hs

theorem SackedAt.of_map (f : TcpTxItem → TcpTxItem) (hpacket : ∀ i, (f i).packet = i.packet)
    (hsacked : ∀ i, (f i).sacked = true → i.sacked = true) :
    ∀ {l : List TcpTxItem} {p q : Nat}, SackedAt p (l.map f) q → SackedAt p l q
  | item :: l, p, q, h => by
    simp only [List.map_cons, sackedAt_cons, TcpTxItem.size, hpacket] at h ⊢
    rcases h with ⟨hs, h⟩ | h
    · exact .inl ⟨hsacked item hs, h⟩
    · exact .inr (SackedAt.of_map f hpacket hsacked h)

/-! ## Lost items come first -/

def LostFirst (l : List TcpTxItem) : Prop := l.Pairwise fun i j => j.lost = true → i.lost = true

theorem lostFirst_of_all (h : ∀ item ∈ l, item.lost = true) : LostFirst l :=
  pairwise_of_forall_mem_list fun i hi _ _ _ => h i hi

theorem LostFirst.congr {l l' : List TcpTxItem} (h : LostFirst l) (hsame : l'.map (·.lost) = l.map (·.lost)) :
    LostFirst l' := by
  have hiff : ∀ l : List TcpTxItem, LostFirst l ↔ (l.map (·.lost)).Pairwise fun i j => j = true → i = true := by
    intro l
    rw [pairwise_map]
    rfl
  rw [hiff, hsame, ← hiff]
  exact h

/-! ## Runs of equal flags -/

/-- Items that may be merged: none is sacked, and all are lost or none is. -/
structure Uniform (lost : Bool) (l : List TcpTxItem) : Prop where
  ne : l ≠ []
  unsacked : ∀ item ∈ l, item.sacked = false
  lost : ∀ item ∈ l, item.lost = lost

theorem Uniform.total_sacked (h : Uniform v l) : total (·.sacked) l = 0 :=
  total_of_none _ h.unsacked

theorem Uniform.total_lost (h : Uniform v l) : total (·.lost) l = if v then (bytesOf l).length else 0 := by
  cases v with
  | false => exact total_of_none _ h.lost
  | true => exact total_of_all _ h.lost

theorem LostFirst.replace {before old new after : List TcpTxItem} (hold : Uniform v old)
    (hnew : Uniform v new) (h : LostFirst (before ++ (old ++ after))) : LostFirst (before ++ (new ++ after)) := by
  obtain ⟨x, hx⟩ := exists_mem_of_ne_nil old hold.ne
  unfold LostFirst at h ⊢
  simp only [pairwise_append, mem_append] at h ⊢
  obtain ⟨hbefore, ⟨-, hafter, hoa⟩, hcross⟩ := h
  refine ⟨hbefore, ⟨?_, hafter, ?_⟩, ?_⟩
  · exact pairwise_of_forall_mem_list fun i hi j hj hl => by rw [hnew.lost i hi, ← hnew.lost j hj, hl]
  · intro i hi j hj hl
    rw [hnew.lost i hi, ← hold.lost x hx]
    exact hoa x hx j hj hl
  · rintro i hi j (hj | hj) hl
    · rw [hnew.lost j hj, ← hold.lost x hx] at hl
      exact hcross i hi x (.inl hx) hl
    · exact hcross i hi j (.inr hj) hl

theorem SackedAt.replace {p q : Nat} {before old new after : List TcpTxItem} (hnew : Uniform v new)
    (hbytes : bytesOf new = bytesOf old) (h : SackedAt p (before ++ (new ++ after)) q) :
    SackedAt p (before ++ (old ++ after)) q := by
  simp only [sackedAt_append, hbytes] at h ⊢
  rcases h with h | h | h
  · exact .inl h
  · exact absurd h (not_sackedAt_of_unsacked hnew.unsacked)
  · exact .inr (.inr h)

/-- Flags change and nothing else. -/
def Alike (l l' : List TcpTxItem) : Prop :=
  l'.map (fun item => (item.address, item.packet, item.startSeq)) =
    l.map fun item => (item.address, item.packet, item.startSeq)

theorem Alike.refl (l : List TcpTxItem) : Alike l l := rfl

theorem Alike.cons {i i' : TcpTxItem} {l l' : List TcpTxItem}
    (h : (i'.address, i'.packet, i'.startSeq) = (i.address, i.packet, i.startSeq)) (hl : Alike l l') :
    Alike (i :: l) (i' :: l') := by
  unfold Alike at hl ⊢
  rw [map_cons, map_cons, hl, h]

theorem Alike.append {l₁ l₁' l₂ l₂' : List TcpTxItem} (h₁ : Alike l₁ l₁') (h₂ : Alike l₂ l₂') :
    Alike (l₁ ++ l₂) (l₁' ++ l₂') := by
  unfold Alike at *
  rw [map_append, map_append, h₁, h₂]

theorem alike_map (f : TcpTxItem → TcpTxItem)
    (h : ∀ i, ((f i).address, (f i).packet, (f i).startSeq) = (i.address, i.packet, i.startSeq)) :
    ∀ l : List TcpTxItem, Alike l (l.map f)
  | [] => rfl
  | i :: l => Alike.cons (h i) (alike_map f h l)

theorem Alike.bytesOf_eq : ∀ {l l' : List TcpTxItem}, Alike l l' → bytesOf l' = bytesOf l
  | [], [], _ => rfl
  | i :: l, i' :: l', h => by
    unfold Alike at h
    simp only [List.map_cons, List.cons.injEq, Prod.mk.injEq] at h
    rw [bytesOf_cons, bytesOf_cons, h.1.2.1, Alike.bytesOf_eq h.2]

theorem Alike.laid : ∀ {l l' : List TcpTxItem} {p : Nat}, Alike l l' → Laid p l → Laid p l'
  | [], [], _, _, _ => trivial
  | i :: l, i' :: l', p, h, hl => by
    unfold Alike at h
    simp only [List.map_cons, List.cons.injEq, Prod.mk.injEq] at h
    have hsize : i'.size = i.size := congrArg List.length h.1.2.1
    exact ⟨h.1.2.2.trans hl.1, hsize ▸ hl.2.1, hsize ▸ Alike.laid h.2 hl.2.2⟩

/-! ## Searching for a segment -/

/-- A run of items with a segment of `n` bytes cut out at its start, and
`m_retrans` before and after. -/
structure Cut (v : Bool) (n : Nat) (old : List TcpTxItem) (retrans : Nat) (item : TcpTxItem) (extra : List TcpTxItem)
    (retrans' : Nat) : Prop where
  uniform : Uniform v (item :: extra)
  bytes : bytesOf (item :: extra) = bytesOf old
  size : item.size = n
  filled : ∀ i ∈ item :: extra, 0 < i.size
  laid : ∀ p, Laid p old → Laid p (item :: extra)
  count : retrans' + total (·.retrans) old = retrans + total (·.retrans) (item :: extra)
  fresh : (∀ i ∈ old, i.retrans = false) → ∀ i ∈ item :: extra, i.retrans = false

section
variable {v : Bool} {n retrans nextAddress : Nat} {x y : TcpTxItem} {run : List TcpTxItem}

theorem cut_whole (hu : Uniform v (x :: run)) (hpos : ∀ i ∈ x :: run, 0 < i.size) :
    Cut v x.size (x :: run) retrans x run retrans :=
  ⟨hu, rfl, rfl, hpos, fun _ h => h, rfl, fun h => h⟩

theorem cut_split (hu : Uniform v (x :: run)) (hpos : ∀ i ∈ x :: run, 0 < i.size) (hn : 0 < n) (hlt : n < x.size) :
    Cut v n (x :: run) retrans (splitItems nextAddress x n).1 ((splitItems nextAddress x n).2 :: run) retrans where
  uniform := by
    refine ⟨by simp, ?_, ?_⟩
    · simpa [splitItems] using hu.unsacked
    · simpa [splitItems] using hu.lost
  bytes := by
    simp only [bytesOf_cons, splitItems, ← append_assoc, take_append_drop]
  size := by
    simp only [splitItems, TcpTxItem.size, length_take] at hlt ⊢
    omega
  filled := by
    simp only [mem_cons, splitItems, TcpTxItem.size] at hpos hlt ⊢
    rintro i (rfl | rfl | hi)
    · simp only [length_take]
      omega
    · simp only [length_drop]
      omega
    · exact hpos i (.inr hi)
  laid := by
    rintro p ⟨hstart, -, hlaid⟩
    have htake : (x.packet.take n).length = n := by
      rw [length_take]
      exact Nat.min_eq_left (Nat.le_of_lt hlt)
    have hdrop : n + (x.packet.drop n).length = x.size := by
      rw [length_drop]
      exact Nat.add_sub_cancel' (Nat.le_of_lt hlt)
    simp only [laid_cons, splitItems, TcpTxItem.size, hstart, add_ofPosition, htake, Nat.add_assoc, hdrop]
    exact ⟨trivial, hn, trivial, by omega, hlaid⟩
  count := by
    have hdrop : n + (x.packet.drop n).length = x.packet.length := by
      rw [length_drop]
      exact Nat.add_sub_cancel' (Nat.le_of_lt hlt)
    have htake : (x.packet.take n).length = n := by
      rw [length_take]
      exact Nat.min_eq_left (Nat.le_of_lt hlt)
    simp only [total_cons, splitItems, TcpTxItem.size, htake]
    split <;> omega
  fresh := by
    simp only [mem_cons, splitItems]
    rintro h i (rfl | rfl | hi)
    · exact h x (.inl rfl)
    · exact h x (.inl rfl)
    · exact h i (.inr hi)

theorem mergeItems_run (hu : Uniform v (x :: y :: run)) (hret : total (·.retrans) (x :: y :: run) ≤ retrans)
    (hlt : retrans < 4294967296) :
    ∃ m retrans', mergeItems retrans x y = some (m, retrans') ∧ m.packet = x.packet ++ y.packet ∧
      m.startSeq = x.startSeq ∧ Uniform v (m :: run) ∧ m.retrans = (x.retrans && y.retrans) ∧ retrans' < 4294967296 ∧
      retrans' + total (·.retrans) (x :: y :: run) = retrans + total (·.retrans) (m :: run) := by
  have hsame : x.sacked = y.sacked ∧ x.lost = y.lost := by
    constructor
    · rw [hu.unsacked x (by simp), hu.unsacked y (by simp)]
    · rw [hu.lost x (by simp), hu.lost y (by simp)]
  refine ⟨_, _, if_pos hsame, rfl, rfl, ?_, rfl, ?_, ?_⟩
  · refine ⟨by simp, ?_, ?_⟩
    · rintro i hi
      rcases mem_cons.mp hi with rfl | hi
      · exact hu.unsacked x (by simp)
      · exact hu.unsacked i (by simp [hi])
    · rintro i hi
      rcases mem_cons.mp hi with rfl | hi
      · exact hu.lost x (by simp)
      · exact hu.lost i (by simp [hi])
  · unfold uint32
    split <;> [skip; split] <;> omega
  · simp only [total_cons, TcpTxItem.size, length_append] at hret ⊢
    cases hx : x.retrans <;> cases hy : y.retrans <;> simp [hx, hy, uint32] at hret ⊢ <;> omega

end

section
variable {valid : TcpTxItem → Bool} {n q retrans nextAddress : Nat}

theorem searchList_skip : ∀ (skipped before : List TcpTxItem) (p : Nat) (rest : List TcpTxItem),
    (∀ i ∈ skipped, valid i = true) → p + (bytesOf skipped).length ≤ q → q < p + 2147483648 →
    searchList valid n (ofPosition q) retrans nextAddress before (ofPosition p) (skipped ++ rest) =
      searchList valid n (ofPosition q) retrans nextAddress (before ++ skipped)
        (ofPosition (p + (bytesOf skipped).length)) rest
  | [], before, p, rest, _, _, _ => by simp
  | i :: skipped, before, p, rest, hvalid, hq, hfar => by
    rw [length_bytesOf_cons] at hq
    have hnear : Near q (p + i.size) := ⟨by omega, by omega⟩
    have hpast : ¬ (ofPosition q).lt ((ofPosition p).add i.size) = true := by
      rw [add_ofPosition, lt_ofPosition hnear, decide_eq_true_eq]
      omega
    rw [cons_append, searchList, if_pos (hvalid i (by simp)), if_neg hpast, add_ofPosition,
      searchList_skip skipped (before ++ [i]) (p + i.size) rest (fun j hj => hvalid j (by simp [hj])) (by omega)
        (by omega), length_bytesOf_cons, append_assoc, Nat.add_assoc]
    rfl

end

theorem getPacketFromList_run (valid : TcpTxItem → Bool) {n p : Nat} (before after : List TcpTxItem)
    (hvalid : ∀ i ∈ before, valid i = true) (hn : 0 < n) (hp : (bytesOf before).length + n < 2147483648) :
    ∀ (run : List TcpTxItem) (x : TcpTxItem) (rounds retrans nextAddress : Nat),
      Uniform v (x :: run) → (∀ i ∈ x :: run, 0 < i.size) → (∀ i, i.startSeq = x.startSeq → valid i = true) →
      n ≤ (bytesOf (x :: run)).length → (bytesOf before).length + (bytesOf (x :: run)).length < 2147483648 →
      total (·.retrans) (x :: run) ≤ retrans → retrans < 4294967296 → run.length < rounds →
      ∃ item extra retrans' nextAddress',
        getPacketFromList valid (ofPosition p) n (ofPosition (p + (bytesOf before).length)) rounds
    (before ++ (x :: run ++ after)) retrans nextAddress =
          some (⟨before, item, extra ++ after⟩, retrans', nextAddress') ∧ Cut v n (x :: run) retrans item extra retrans'
  | run, x, 0, _, _, _, _, _, _, _, _, _, hrounds => absurd hrounds (Nat.not_lt_zero _)
  | run, x, rounds + 1, retrans, nextAddress, hu, hpos, hx, hle, hbound, hret, hlt, hrounds => by
    have hxpos : 0 < x.size := hpos x (by simp)
    rw [length_bytesOf_cons] at hle hbound
    have hnear : ∀ k, k ≤ x.size + (bytesOf run).length →
        Near (p + (bytesOf before).length) (p + (bytesOf before).length + k) := fun k hk => ⟨by omega, by omega⟩
    have hin : (ofPosition (p + (bytesOf before).length)).lt
        ((ofPosition (p + (bytesOf before).length)).add x.size) = true := by
      rw [add_ofPosition, lt_ofPosition (hnear _ (by omega)), decide_eq_true_eq]
      omega
    have hend : ((ofPosition (p + (bytesOf before).length)).add n).le
        ((ofPosition (p + (bytesOf before).length)).add x.size) = decide (n ≤ x.size) := by
      have hnear' : Near (p + (bytesOf before).length + n) (p + (bytesOf before).length + x.size) :=
        ⟨by omega, by omega⟩
      rw [add_ofPosition, add_ofPosition, le_ofPosition hnear', decide_eq_decide]
      omega
    rw [getPacketFromList, searchList_skip before [] p _ hvalid (by omega) (by omega), nil_append,
      cons_append, searchList, if_pos (hx x rfl), if_pos hin, if_pos rfl, hend]
    -- the item is cut, is returned whole, or takes in the next one
    rcases Nat.lt_trichotomy n x.size with hlt' | rfl | hgt
    · rw [if_pos (decide_eq_true (Nat.le_of_lt hlt')), if_neg (Nat.ne_of_lt hlt'), if_pos hlt']
      exact ⟨_, _, _, _, rfl, cut_split hu hpos hn hlt'⟩
    · rw [if_pos (decide_eq_true (Nat.le_refl _)), if_pos rfl]
      exact ⟨_, _, _, _, rfl, cut_whole hu hpos⟩
    · rw [if_neg (by rw [decide_eq_true_eq]; omega)]
      cases run with
      | nil => simp only [bytesOf_nil, length_nil] at hle; omega
      | cons y run =>
        obtain ⟨m, retrans', hm, hpacket, hstart, hu', hflag, hlt'', hcount⟩ := mergeItems_run hu hret hlt
        have hbytes : bytesOf (m :: run) = bytesOf (x :: y :: run) := by simp [hpacket]
        have hsize : m.size = x.size + y.size := by simp [TcpTxItem.size, hpacket]
        have hlength : (bytesOf (m :: run)).length = x.size + (bytesOf (y :: run)).length := by
          rw [hbytes, length_bytesOf_cons]
        have hpos' : ∀ i ∈ m :: run, 0 < i.size := by
          intro i hi
          rcases mem_cons.mp hi with rfl | hi
          · omega
          · exact hpos i (by simp [hi])
        have hrounds' : run.length < rounds := by
          simp only [length_cons] at hrounds
          omega
        obtain ⟨item, extra, retrans'', nextAddress', hfound, hcut⟩ :=
          getPacketFromList_run valid before after hvalid hn hp run m rounds retrans' nextAddress hu' hpos'
            (fun i hi => hx i (hi.trans hstart)) (by omega) (by omega) (by omega) hlt'' hrounds'
        simp only [cons_append, mergeNext, hm, Option.map_some]
        refine ⟨item, extra, retrans'', nextAddress', hfound, hcut.uniform, hcut.bytes.trans hbytes, hcut.size,
          hcut.filled, ?_, ?_, ?_⟩
        · rintro p' ⟨hp', -, -, -, hrest⟩
          refine hcut.laid p' ⟨hstart.trans hp', by omega, ?_⟩
          rw [hsize, ← Nat.add_assoc]
          exact hrest
        · have := hcut.count
          omega
        · intro hold
          refine hcut.fresh ?_
          intro i hi
          rcases mem_cons.mp hi with rfl | hi
          · rw [hflag, hold x (by simp), Bool.false_and]
          · exact hold i (by simp [hi])

end TcpTxBuffer

end Ns3
