import Ns3.Internet.TxBufferSound

/-!
# Selective acknowledgments

`Update` marks the items inside the reported blocks and then counts down from
the highest sacked item to find the lost ones. The head stays out of every
block of a receiver that tells the truth.
-/

namespace Ns3

open List Option

namespace TcpTxBuffer

open SequenceNumber32

/-! ## One block along the sent list -/

/-- The block from position `l` to position `r`, compared with the `n` bytes from `p` on. -/
def NearBlock (p n l r : Nat) : Prop :=
  p + n < l + 2147483648 ∧ l < p + 2147483648 ∧ p + n < r + 2147483648 ∧ r < p + 2147483648

structure Marked (l r p : Nat) (items items' : List TcpTxItem) : Prop where
  alike : Alike items items'
  exclusive : ∀ i ∈ items', ¬ (i.sacked = true ∧ i.lost = true)
  kept : ∀ i ∈ items, i.sacked = true → i ∈ items'
  retrans : total (·.retrans) items' = total (·.retrans) items
  sackedAt : ∀ q, SackedAt p items' q → SackedAt p items q ∨ (l ≤ q ∧ q < r)

/-- The iterator has moved to an item of the list, if at all. -/
def Moved (hs hs' : Option Nat × SequenceNumber32) (items : List TcpTxItem) : Prop :=
  hs' = hs ∨ ∃ i ∈ items, i.sacked = true ∧ hs' = (some i.address, i.startSeq)

theorem Moved.cons {hs hs' : Option Nat × SequenceNumber32} {items : List TcpTxItem} (h : Moved hs hs' items)
    (item : TcpTxItem) : Moved hs hs' (item :: items) := by
  rcases h with h | ⟨i, hi, h⟩
  · exact .inl h
  · exact .inr ⟨i, mem_cons_of_mem _ hi, h⟩

section
variable {l r p : Nat}

theorem marked_refl {items : List TcpTxItem} (h : ∀ i ∈ items, ¬ (i.sacked = true ∧ i.lost = true)) :
    Marked l r p items items :=
  ⟨Alike.refl items, h, fun _ hi _ => hi, rfl, fun _ hq => .inl hq⟩

theorem Marked.keep {item : TcpTxItem} {items items' : List TcpTxItem} (h : Marked l r (p + item.size) items items')
    (hitem : ¬ (item.sacked = true ∧ item.lost = true)) : Marked l r p (item :: items) (item :: items') where
  alike := Alike.cons rfl h.alike
  exclusive := by
    intro i hi
    rcases mem_cons.mp hi with rfl | hi
    · exact hitem
    · exact h.exclusive i hi
  kept := by
    intro i hi hs
    rcases mem_cons.mp hi with rfl | hi
    · simp
    · exact mem_cons_of_mem _ (h.kept i hi hs)
  retrans := by rw [total_cons, total_cons, h.retrans]
  sackedAt := by
    rintro q (hq | hq)
    · exact .inl (.inl hq)
    · rcases h.sackedAt q hq with hq | hq
      · exact .inl (.inr hq)
      · exact .inr hq

theorem Marked.sack {item : TcpTxItem} {items items' : List TcpTxItem} (h : Marked l r (p + item.size) items items')
    (hitem : item.sacked = false) (hlo : l ≤ p) (hhi : p + item.size ≤ r) :
    Marked l r p (item :: items) ({ item with lost := false, sacked := true } :: items') where
  alike := Alike.cons rfl h.alike
  exclusive := by
    rintro i hi ⟨hs, hl⟩
    rcases mem_cons.mp hi with rfl | hi
    · cases hl
    · exact h.exclusive i hi ⟨hs, hl⟩
  kept := by
    intro i hi hs
    rcases mem_cons.mp hi with rfl | hi
    · rw [hitem] at hs
      cases hs
    · exact mem_cons_of_mem _ (h.kept i hi hs)
  retrans := by rw [total_cons, total_cons, h.retrans]
  sackedAt := by
    rintro q (⟨-, hq⟩ | hq)
    · exact .inr ⟨by omega, Nat.lt_of_lt_of_le hq.2 hhi⟩
    · rcases h.sackedAt q hq with hq | hq
      · exact .inl (.inr hq)
      · exact .inr hq

end

/-- Once bytes count as sacked the iterator stands somewhere. -/
def Tally.Set (t : Tally) : Prop := 0 < t.bytesSacked → t.highestSack.1.isSome = true

theorem Tally.set_sack (t : Tally) (begin : SequenceNumber32) (item : TcpTxItem) : (t.sack begin item).Set := by
  intro _
  unfold Tally.sack
  dsimp only
  split
  · rfl
  · rename_i h
    rw [isSome_iff_ne_none]
    exact fun hnone => h (.inl hnone)

/-- One block sacks the items inside of it, and the counters follow. -/
theorem updateItems_spec {l r : Nat} : ∀ (items : List TcpTxItem) (p : Nat) (t : Tally) (lost sacked : Nat),
    Laid p items → (∀ i ∈ items, ¬ (i.sacked = true ∧ i.lost = true)) → NearBlock p (bytesOf items).length l r →
    t.lostOut = lost + total (·.lost) items → t.sackedOut = sacked + total (·.sacked) items →
    lost + (bytesOf items).length < 2147483648 → sacked + (bytesOf items).length < 2147483648 →
    ∃ items' t', updateItems (ofPosition l, ofPosition r) (ofPosition p) items t = some (items', t') ∧
      Marked l r p items items' ∧ t'.lostOut = lost + total (·.lost) items' ∧
      t'.sackedOut = sacked + total (·.sacked) items' ∧ Moved t.highestSack t'.highestSack items' ∧ (t.Set → t'.Set)
  | [], _, t, _, _, _, hexcl, _, hl, hs, _, _ => ⟨[], t, rfl, marked_refl hexcl, hl, hs, .inl rfl, id⟩
  | item :: items, p, t, lost, sacked, hlaid, hexcl, hnear, hl, hs, hlost, hsacked => by
    obtain ⟨hstart, hpos, hlaid'⟩ := hlaid
    have hitem := hexcl item (by simp)
    have hexcl' : ∀ i ∈ items, ¬ (i.sacked = true ∧ i.lost = true) := fun i hi => hexcl i (mem_cons_of_mem _ hi)
    rw [length_bytesOf_cons] at hnear hlost hsacked
    unfold NearBlock at hnear
    have hnear' : NearBlock (p + item.size) (bytesOf items).length l r := by
      unfold NearBlock
      omega
    rw [updateItems]
    simp only [add_ofPosition, ge_ofPosition (p := p) (q := l) ⟨by omega, by omega⟩,
      le_ofPosition (p := p + item.size) (q := r) ⟨by omega, by omega⟩,
      gt_ofPosition (p := p + item.size) (q := r) ⟨by omega, by omega⟩, decide_eq_true_eq]
    rw [total_cons] at hl hs
    -- only an item wholly inside the block is sacked
    by_cases hin : l ≤ p ∧ p + item.size ≤ r
    · rw [if_pos hin]
      cases hflag : item.sacked with
      | true =>
        have hnot : item.lost = false := by
          cases hl' : item.lost with
          | false => rfl
          | true => exact absurd ⟨hflag, hl'⟩ hitem
        rw [hnot] at hl
        rw [hflag, if_pos rfl] at hs
        obtain ⟨items', t', hrun, hmarked, hl', hs', hmoved, hset⟩ := updateItems_spec items (p + item.size) t lost
          (sacked + item.size) hlaid' hexcl' hnear' (by simpa using hl) (by omega) (by omega) (by omega)
        rw [if_pos rfl, hnot, if_neg Bool.false_ne_true, hrun]
        refine ⟨item :: items', t', rfl, hmarked.keep hitem, ?_, ?_, hmoved.cons item, hset⟩
        · rw [total_cons, hnot, hl']
          simp
        · rw [total_cons, hflag, if_pos rfl, hs']
          omega
      | false =>
        rw [hflag] at hs
        have hclear : (t.sack (ofPosition p) item).lostOut = lost + total (·.lost) items :=
          count_clear (by omega) (by have := total_le (·.lost) items; split at hl <;> omega)
        have hadd : (t.sack (ofPosition p) item).sackedOut = sacked + item.size + total (·.sacked) items := by
          have := total_le (·.sacked) items
          simp only [Bool.false_eq_true, if_false, Nat.zero_add] at hs
          show uint32 (t.sackedOut + item.size) = _
          rw [uint32_add (by lia)]
          omega
        obtain ⟨items', t', hrun, hmarked, hl', hs', hmoved, hset⟩ := updateItems_spec items (p + item.size)
          (t.sack (ofPosition p) item) lost (sacked + item.size) hlaid' hexcl' hnear' hclear hadd (by omega) (by omega)
        rw [if_neg Bool.false_ne_true, hrun]
        refine ⟨{ item with lost := false, sacked := true } :: items', t', rfl, hmarked.sack hflag hin.1 hin.2, ?_, ?_, ?_,
          fun _ => hset (t.set_sack _ item)⟩
        · rw [total_cons, hl']
          simp
        · rw [total_cons, hs', if_pos rfl]
          show sacked + item.size + _ = sacked + (item.size + _)
          omega
        · rcases hmoved with hmoved | ⟨i, hi, hmoved⟩
          · rw [Moved, hmoved]
            unfold Tally.sack
            dsimp only
            split
            · exact .inr ⟨{ item with lost := false, sacked := true }, by simp, rfl, by rw [hstart]⟩
            · exact .inl rfl
          · exact .inr ⟨i, mem_cons_of_mem _ hi, hmoved⟩
    · rw [if_neg hin]
      by_cases hpast : r < p + item.size
      · rw [if_pos hpast]
        refine ⟨_, t, rfl, marked_refl hexcl, ?_, ?_, .inl rfl, id⟩
        · rw [total_cons]
          exact hl
        · rw [total_cons]
          exact hs
      · have hle : (if item.lost then item.size else 0) ≤ item.size := by split <;> omega
        have hle' : (if item.sacked then item.size else 0) ≤ item.size := by split <;> omega
        obtain ⟨items', t', hrun, hmarked, hl', hs', hmoved, hset⟩ := updateItems_spec items (p + item.size) t
          (lost + if item.lost then item.size else 0) (sacked + if item.sacked then item.size else 0) hlaid' hexcl' hnear'
          (by omega) (by omega) (by omega) (by omega)
        rw [if_neg hpast, hrun]
        refine ⟨item :: items', t', rfl, hmarked.keep hitem, ?_, ?_, hmoved.cons item, hset⟩
        · rw [total_cons, hl']
          omega
        · rw [total_cons, hs']
          omega

/-! ## The blocks in turn -/

/-- The block is near the sent data and does not hold the first byte. -/
def Reported (b : TcpTxBuffer) (P : Nat) (block : Nat × Nat) : Prop :=
  NearBlock P b.sentSize block.1 block.2 ∧ ¬ (block.1 ≤ P ∧ P < block.2)

def wireBlock (block : Nat × Nat) : SequenceNumber32 × SequenceNumber32 := (ofPosition block.1, ofPosition block.2)

section
variable {b : TcpTxBuffer} {P : Nat} {data : Bytes}

theorem Books.mark (h : Books b P data) (hmode : b.sackEnabled = true) {l r : Nat} {items : List TcpTxItem} {t : Tally}
    (hmarked : Marked l r P b.sentList items) (hl : t.lostOut = total (·.lost) items)
    (hs : t.sackedOut = total (·.sacked) items) (hmoved : Moved b.highestSack t.highestSack items)
    (hfirst : ¬ (l ≤ P ∧ P < r)) :
    Books { b with
      sentList := items
      lostOut := t.lostOut
      sackedOut := t.sackedOut
      highestSack := t.highestSack } P data := by
  refine { h.toStream.alike hmarked.alike with
    sackedOut := hs, lostOut := hl, retrans := ?_, exclusive := hmarked.exclusive, lostFirst := ?_, unsacked := ?_,
    highest := ?_ }
  · exact h.retrans.trans hmarked.retrans.symm
  · intro hreno
    rw [show b.sackEnabled = false from hreno] at hmode
    cases hmode
  · intro i hi
    cases hs' : i.sacked with
    | false => rfl
    | true =>
      have hfirst' := (sackedAt_head (hmarked.alike.laid h.laid)).mpr ⟨i, hi, hs'⟩
      rcases hmarked.sackedAt P hfirst' with hq | hq
      · exact absurd hq h.not_sackedAt
      · exact absurd hq hfirst
  · intro a ha
    rcases hmoved with hsame | ⟨i, hi, hs', hsame⟩
    · rw [show t.highestSack = b.highestSack from hsame] at ha ⊢
      obtain ⟨i, hi, haddr, hs', hstart⟩ := h.highest a ha
      exact ⟨i, hmarked.kept i hi hs', haddr, hs', hstart⟩
    · rw [show t.highestSack = _ from hsame] at ha ⊢
      cases ha
      exact ⟨i, hi, rfl, hs', rfl⟩

structure Sacks (b : TcpTxBuffer) (P : Nat) (blocks : List (Nat × Nat)) (b' : TcpTxBuffer) : Prop where
  sackEnabled : b'.sackEnabled = b.sackEnabled
  sentSize : b'.sentSize = b.sentSize
  nonempty : b.sentList ≠ [] → b'.sentList ≠ []
  sackedAt : ∀ q, SackedAt P b'.sentList q → SackedAt P b.sentList q ∨ ∃ block ∈ blocks, block.1 ≤ q ∧ q < block.2

theorem Sacks.refl (b : TcpTxBuffer) (P : Nat) (blocks : List (Nat × Nat)) : Sacks b P blocks b :=
  ⟨rfl, rfl, id, fun _ hq => .inl hq⟩

theorem Alike.ne_nil {l l' : List TcpTxItem} (h : Alike l l') (hne : l ≠ []) : l' ≠ [] := by
  rintro rfl
  unfold Alike at h
  exact hne (map_eq_nil_iff.mp h.symm)

theorem updateBlocks_spec : ∀ (blocks : List (Nat × Nat)) {b : TcpTxBuffer} (bytesSacked : Nat), Books b P data →
    b.sackEnabled = true → (∀ block ∈ blocks, Reported b P block) →
    (0 < bytesSacked → b.highestSack.1.isSome = true) →
    ∃ b' bytesSacked' finished, updateBlocks (blocks.map wireBlock) b bytesSacked = some (b', bytesSacked', finished) ∧
      Books b' P data ∧ Sacks b P blocks b' ∧ (0 < bytesSacked' → b'.highestSack.1.isSome = true)
  | [], b, bytesSacked, h, _, _, hset => ⟨b, bytesSacked, true, rfl, h, Sacks.refl b P [], hset⟩
  | block :: blocks, b, bytesSacked, h, hmode, hblocks, hset => by
    obtain ⟨hnear, hfirst⟩ := hblocks block (by simp)
    have hsent := h.sentSize
    have hlength := h.length_le
    have hbound := h.bound
    rw [map_cons, updateBlocks]
    split
    · exact ⟨b, bytesSacked, false, rfl, h, Sacks.refl b P _, hset⟩
    · obtain ⟨items, t, hrun, hmarked, hl, hs, hmoved, hset'⟩ := updateItems_spec b.sentList P
        ⟨b.lostOut, b.sackedOut, bytesSacked, b.highestSack⟩ 0 0 h.laid h.exclusive (hsent ▸ hnear)
        (by rw [Nat.zero_add]; exact h.lostOut) (by rw [Nat.zero_add]; exact h.sackedOut) (by omega) (by omega)
      rw [Nat.zero_add] at hl hs
      have hbooks := h.mark hmode hmarked hl hs hmoved hfirst
      obtain ⟨b', bytesSacked', finished, hrest, hbooks', hsacks, hset''⟩ := updateBlocks_spec blocks t.bytesSacked hbooks hmode
        (fun block hblock => hblocks block (mem_cons_of_mem _ hblock)) (hset' hset)
      rw [h.head, wireBlock, hrun, bind_some]
      refine ⟨b', bytesSacked', finished, h.head ▸ hrest, hbooks', ⟨hsacks.sackEnabled, hsacks.sentSize, ?_, ?_⟩, hset''⟩
      · exact fun hne => hsacks.nonempty (hmarked.alike.ne_nil hne)
      · intro q hq
        rcases hsacks.sackedAt q hq with hq | ⟨block', hblock', hq⟩
        · rcases hmarked.sackedAt q hq with hq | hq
          · exact .inl hq
          · exact .inr ⟨block, by simp, hq⟩
        · exact .inr ⟨block', by simp [hblock'], hq⟩

end

/-! ## The lost items -/

/-- All of an item but whether it is lost. -/
def board (i : TcpTxItem) : Nat × Bytes × SequenceNumber32 × Bool × Bool :=
  (i.address, i.packet, i.startSeq, i.retrans, i.sacked)

def OnlyLost (l l' : List TcpTxItem) : Prop := l'.map board = l.map board

section
variable {l l' : List TcpTxItem}

theorem OnlyLost.alike (h : OnlyLost l l') : Alike l l' := by
  have hmap : ∀ l : List TcpTxItem, l.map (fun i => (i.address, i.packet, i.startSeq)) =
      (l.map board).map fun k => (k.1, k.2.1, k.2.2.1) := by
    intro l
    rw [List.map_map]
    rfl
  unfold Alike
  rw [hmap, hmap, h]

theorem OnlyLost.total_eq (h : OnlyLost l l') {flag : TcpTxItem → Bool}
    (g : Nat × Bytes × SequenceNumber32 × Bool × Bool → Bool) (hflag : ∀ i, flag i = g (board i)) :
    total flag l' = total flag l := by
  have hmap : ∀ l : List TcpTxItem, total flag l =
      ((l.map board).map fun k => if g k then k.2.1.length else 0).sum := by
    intro l
    rw [List.map_map, total]
    congr 1
    refine map_congr_left fun i _ => ?_
    rw [hflag]
    rfl
  rw [hmap, hmap, h]

theorem OnlyLost.mem (h : OnlyLost l l') {i : TcpTxItem} (hi : i ∈ l) : ∃ j ∈ l', board j = board i :=
  List.mem_map.mp (h ▸ List.mem_map_of_mem hi)

theorem OnlyLost.symm (h : OnlyLost l l') : OnlyLost l' l := Eq.symm h

theorem OnlyLost.cons {i i' : TcpTxItem} (hi : board i' = board i) (h : OnlyLost l l') :
    OnlyLost (i :: l) (i' :: l') := by
  unfold OnlyLost at h ⊢
  rw [map_cons, map_cons, h, hi]

theorem OnlyLost.append {m m' : List TcpTxItem} (h : OnlyLost l l') (hm : OnlyLost m m') :
    OnlyLost (l ++ m) (l' ++ m') := by
  unfold OnlyLost at *
  rw [map_append, map_append, h, hm]

theorem OnlyLost.sackedAt : ∀ {l l' : List TcpTxItem} {p q : Nat}, OnlyLost l l' → SackedAt p l' q → SackedAt p l q
  | [], [], _, _, _, hq => hq
  | i :: l, i' :: l', p, q, h, hq => by
    unfold OnlyLost at h
    simp only [List.map_cons, List.cons.injEq, board, Prod.mk.injEq] at h
    have hsize : i'.size = i.size := congrArg List.length h.1.2.1
    rcases hq with hq | hq
    · exact .inl ⟨h.1.2.2.2.2 ▸ hq.1, hq.2.1, hsize ▸ hq.2.2⟩
    · exact .inr (OnlyLost.sackedAt h.2 (hsize ▸ hq))

end

/-- Behind `dupAckThresh` sacked items the others are lost. -/
def loseBehind (dupAckThresh : Nat) : List TcpTxItem → List TcpTxItem
  | [] => []
  | item :: rest =>
    { item with lost := item.lost || (!item.sacked && decide (dupAckThresh ≤ rest.countP (·.sacked))) } ::
      loseBehind dupAckThresh rest

theorem onlyLost_loseBehind (dupAckThresh : Nat) : ∀ l : List TcpTxItem, OnlyLost l (loseBehind dupAckThresh l)
  | [] => rfl
  | _ :: l => OnlyLost.cons rfl (onlyLost_loseBehind dupAckThresh l)

theorem mem_loseBehind {dupAckThresh : Nat} : ∀ {l : List TcpTxItem} {i : TcpTxItem}, i ∈ loseBehind dupAckThresh l →
    i.sacked = true → i ∈ l
  | item :: l, i, hi, hs => by
    rcases List.mem_cons.mp hi with rfl | hi
    · have hflag : item.sacked = true := hs
      have hlost : (item.lost || (!item.sacked && decide (dupAckThresh ≤ l.countP (·.sacked)))) = item.lost := by
        simp [hflag]
      rw [hlost]
      exact mem_cons_self
    · exact mem_cons_of_mem _ (mem_loseBehind hi hs)

theorem loseBelow_append (dupAckThresh : Nat) : ∀ (l l' : List TcpTxItem) (sacked lostOut : Nat),
    loseBelow dupAckThresh (l ++ l') sacked lostOut =
      ((loseBelow dupAckThresh l sacked lostOut).1 ++
        (loseBelow dupAckThresh l' (loseBelow dupAckThresh l sacked lostOut).2.1
          (loseBelow dupAckThresh l sacked lostOut).2.2).1,
        (loseBelow dupAckThresh l' (loseBelow dupAckThresh l sacked lostOut).2.1
          (loseBelow dupAckThresh l sacked lostOut).2.2).2)
  | [], _, _, _ => rfl
  | item :: l, l', sacked, lostOut => by
    simp only [List.cons_append, loseBelow, loseBelow_append dupAckThresh l l']

theorem loseBelow_reverse (dupAckThresh : Nat) : ∀ (l : List TcpTxItem) (lostOut lost : Nat),
    lostOut = lost + total (·.lost) l → lost + (bytesOf l).length < 2147483648 → l.length < 4294967296 →
    loseBelow dupAckThresh l.reverse 0 lostOut =
      ((loseBehind dupAckThresh l).reverse, l.countP (·.sacked), lost + total (·.lost) (loseBehind dupAckThresh l))
  | [], lostOut, lost, hl, _, _ => by
    rw [hl]
    rfl
  | item :: l, lostOut, lost, hl, hbound, hlength => by
    rw [total_cons] at hl
    rw [length_bytesOf_cons] at hbound
    rw [List.length_cons] at hlength
    have hrest := loseBelow_reverse dupAckThresh l lostOut (lost + if item.lost then item.size else 0) (by lia)
      (by split <;> lia) (by lia)
    have hle := total_le (·.lost) (loseBehind dupAckThresh l)
    rw [(onlyLost_loseBehind dupAckThresh l).alike.bytesOf_eq] at hle
    have hcount : l.countP (·.sacked) ≤ l.length := countP_le_length
    rw [reverse_cons, loseBelow_append, hrest, loseBehind, reverse_cons, countP_cons, total_cons]
    simp only [loseBelow]
    cases hs : item.sacked with
    | true =>
      simp only [if_true, Bool.not_true, Bool.and_false, Bool.false_and, Bool.or_false, Bool.false_eq_true, if_false]
      have hone : uint32 ((l.countP (·.sacked) : Int) + 1) = l.countP (·.sacked) + 1 :=
        @uint32_add (l.countP (·.sacked)) 1 (by omega)
      rw [hone, Nat.add_assoc]
    | false =>
      cases hl' : item.lost with
      | true => simp [Nat.add_assoc, TcpTxItem.size]
      | false =>
        simp only [Bool.not_false, Bool.and_true, Bool.true_and, Bool.false_or, Bool.false_eq_true, if_false, Nat.add_zero]
        by_cases hthresh : dupAckThresh ≤ l.countP (·.sacked)
        · rw [if_pos (decide_eq_true hthresh), if_pos (decide_eq_true hthresh), uint32_add (by omega), Nat.add_assoc,
            Nat.add_comm (total _ _)]
        · rw [if_neg (by simpa using hthresh), if_neg (by simpa using hthresh), Nat.zero_add]

theorem Laid.length_le : ∀ {l : List TcpTxItem} {p : Nat}, Laid p l → l.length ≤ (bytesOf l).length
  | [], _, _ => Nat.le_refl 0
  | item :: l, p, h => by
    have ih := Laid.length_le h.2.2
    have hpos := h.2.1
    rw [length_cons, length_bytesOf_cons]
    omega

theorem Ledger.updateLostCount {b b' : TcpTxBuffer} {P : Nat} {data : Bytes} (h : Ledger b P data)
    (hcount : b.updateLostCount = some b') :
    ∃ a head rest i items, b.highestSack.1 = some a ∧ b.sentList = head :: rest ∧
      i = (b.sentList.findIdx fun item => item.address = a) ∧ i < b.sentList.length ∧
      items = { head with
        lost := head.lost || decide (b.dupAckThresh ≤ (rest.take i).countP (·.sacked)) } ::
          (loseBehind b.dupAckThresh (rest.take i) ++ rest.drop i) ∧
      OnlyLost b.sentList items ∧ b' = { b with sentList := items, lostOut := total (·.lost) items } := by
  unfold TcpTxBuffer.updateLostCount at hcount
  cases ha : b.highestSack.1 with
  | none =>
    rw [ha] at hcount
    cases hcount
  | some a =>
    cases hlist : b.sentList with
    | nil =>
      rw [ha, hlist] at hcount
      cases hcount
    | cons head rest =>
      rw [ha, hlist] at hcount
      dsimp only at hcount
      obtain ⟨hfind, hcount⟩ := ite_none_right_eq_some.mp hcount
      generalize hi : (head :: rest).findIdx (fun item => item.address = a) = i at hcount hfind
      have hlost := h.lostOut
      have hlength := h.length_le
      have hbound := h.bound
      have hitems := h.laid.length_le
      have hrest : rest.take i ++ rest.drop i = rest := take_append_drop i rest
      rw [hlist] at hlost hlength hitems
      rw [← hrest, total_cons, total_append] at hlost
      rw [← hrest, length_bytesOf_cons, bytesOf_append, length_append] at hlength hitems
      rw [length_cons, length_append] at hitems
      have hle := total_le (·.lost) (rest.drop i)
      have hle' := total_le (·.lost) (loseBehind b.dupAckThresh (rest.take i))
      have hsame := onlyLost_loseBehind b.dupAckThresh (rest.take i)
      rw [hsame.alike.bytesOf_eq] at hle'
      have hrun := loseBelow_reverse b.dupAckThresh (rest.take i) b.lostOut
        ((if head.lost then head.size else 0) + total (·.lost) (rest.drop i)) (by lia) (by split <;> lia) (by lia)
      rw [hrun] at hcount
      refine ⟨a, head, rest, i, _, rfl, rfl, hi.symm, hfind, rfl, ?_, ?_⟩
      · have hdrop : OnlyLost (rest.drop i) (rest.drop i) := rfl
        have hparts := hsame.append hdrop
        rw [hrest] at hparts
        exact OnlyLost.cons rfl hparts
      · rw [← Option.some.inj hcount]
        simp only [reverse_reverse, total_cons, total_append]
        cases hflag : head.lost with
        | true =>
          simp only [Bool.not_true, Bool.and_false, Bool.or_false, Bool.true_or, Bool.false_eq_true, if_false, if_true]
          congr 1
          show _ = head.size + _
          omega
        | false =>
          simp only [Bool.not_false, Bool.and_true, Bool.false_or, Bool.false_eq_true, if_false, Nat.zero_add]
          by_cases hthresh : b.dupAckThresh ≤ (rest.take i).countP (·.sacked)
          · simp only [decide_eq_true hthresh, if_true]
            rw [uint32_add (by omega)]
            congr 1
            show _ = head.size + _
            omega
          · simp only [decide_eq_false hthresh, Bool.false_eq_true, if_false]
            congr 1
            omega

section
variable {b : TcpTxBuffer} {P : Nat} {data : Bytes}

theorem Books.onlyLost (h : Books b P data) (hmode : b.sackEnabled = true) {items : List TcpTxItem}
    (hsame : OnlyLost b.sentList items) (hexcl : ∀ i ∈ items, ¬ (i.sacked = true ∧ i.lost = true)) :
    Books { b with sentList := items, lostOut := total (·.lost) items } P data := by
  have hscored : Scored { b with sentList := items, lostOut := total (·.lost) items } P data := by
    refine { h.toStream.alike hsame.alike with
      sackedOut := ?_, lostOut := rfl, retrans := ?_, exclusive := hexcl, lostFirst := ?_, unsacked := ?_ }
    · exact h.sackedOut.trans (hsame.total_eq (fun k => k.2.2.2.2) fun _ => rfl).symm
    · exact h.retrans.trans (hsame.total_eq (fun k => k.2.2.2.1) fun _ => rfl).symm
    · intro hreno
      rw [show b.sackEnabled = false from hreno] at hmode
      cases hmode
    · intro i hi
      cases hs : i.sacked with
      | false => rfl
      | true =>
        have hfirst := (sackedAt_head (hsame.alike.laid h.laid)).mpr ⟨i, hi, hs⟩
        exact absurd (hsame.sackedAt hfirst) h.not_sackedAt
  refine h.of_scored hscored ?_ rfl
  intro i hi hs
  obtain ⟨j, hj, heq⟩ := hsame.mem hi
  simp only [board, Prod.mk.injEq] at heq
  exact ⟨j, hj, heq.1, heq.2.2.2.2.trans hs, heq.2.2.1⟩

theorem Books.updateLostCount (h : Books b P data) (hset : b.highestSack.1.isSome = true) :
    ∃ items, b.updateLostCount = some { b with sentList := items, lostOut := total (·.lost) items } ∧
      OnlyLost b.sentList items ∧ ∀ i ∈ items, ¬ (i.sacked = true ∧ i.lost = true) := by
  obtain ⟨a, ha⟩ := isSome_iff_exists.mp hset
  obtain ⟨i, hi, haddr, -, -⟩ := h.highest a ha
  have hfind : (b.sentList.findIdx fun item => item.address = a) < b.sentList.length :=
    findIdx_lt_length_of_exists ⟨i, hi, by simpa using haddr⟩
  have hsome : ∃ b', b.updateLostCount = some b' := by
    unfold TcpTxBuffer.updateLostCount
    cases hlist : b.sentList with
    | nil =>
      rw [hlist] at hi
      cases hi
    | cons head rest =>
      rw [hlist] at hfind
      simp only [ha]
      rw [if_pos hfind]
      exact ⟨_, rfl⟩
  obtain ⟨b', hb'⟩ := hsome
  obtain ⟨_, head, rest, k, items, -, hlist, -, -, hitems, hsame, rfl⟩ := h.ledger.updateLostCount hb'
  have hexcl := h.exclusive
  have hhead : head.sacked = false := h.unsacked head (by simp [hlist])
  rw [hlist] at hexcl
  refine ⟨items, hb', hsame, ?_⟩
  rintro i hi ⟨hs, hl⟩
  rw [hitems] at hi
  rcases mem_cons.mp hi with rfl | hi
  · rw [show head.sacked = true from hs] at hhead
    cases hhead
  · rcases mem_append.mp hi with hi | hi
    · exact hexcl i (mem_cons_of_mem _ (mem_of_mem_take (mem_loseBehind hi hs))) ⟨hs, hl⟩
    · exact hexcl i (mem_cons_of_mem _ (mem_of_mem_drop hi)) ⟨hs, hl⟩

theorem Books.update (h : Books b P data) (hmode : b.sackEnabled = true) (hne : b.sentList ≠ [])
    {blocks : List (Nat × Nat)} (hblocks : ∀ block ∈ blocks, Reported b P block) :
    ∃ b' bytesSacked, b.update (blocks.map wireBlock) = some (b', bytesSacked) ∧ Books b' P data ∧
      Sacks b P blocks b' := by
  obtain ⟨b₁, bytesSacked, finished, hrun, h₁, hsacks, hset⟩ := updateBlocks_spec blocks 0 h hmode hblocks
    (fun hlt => absurd hlt (Nat.lt_irrefl 0))
  have hmode₁ : b₁.sackEnabled = true := hsacks.sackEnabled.trans hmode
  have hne₁ : b₁.sentList ≠ [] := hsacks.nonempty hne
  rw [TcpTxBuffer.update, hrun, bind_some]
  cases finished with
  | false => exact ⟨b₁, bytesSacked, rfl, h₁, hsacks⟩
  | true =>
    have hfinal : ∃ b₂, (if 0 < bytesSacked then b₁.updateLostCount else some b₁) = some b₂ ∧ Books b₂ P data ∧
        OnlyLost b₁.sentList b₂.sentList ∧ b₂.sackEnabled = b₁.sackEnabled ∧ b₂.sentSize = b₁.sentSize := by
      by_cases hpos : 0 < bytesSacked
      · obtain ⟨items, hcount, hsame, hexcl⟩ := h₁.updateLostCount (hset hpos)
        rw [if_pos hpos]
        exact ⟨_, hcount, h₁.onlyLost hmode₁ hsame hexcl, hsame, rfl, rfl⟩
      · rw [if_neg hpos]
        exact ⟨b₁, rfl, h₁, rfl, rfl, rfl⟩
    obtain ⟨b₂, hb₂, h₂, hsame, hmode₂, hsent₂⟩ := hfinal
    have hsacks₂ : Sacks b P blocks b₂ :=
      ⟨hmode₂.trans hsacks.sackEnabled, hsent₂.trans hsacks.sentSize, fun _ => hsame.alike.ne_nil hne₁,
        fun q hq => hsacks.sackedAt q (hsame.sackedAt hq)⟩
    have hguard := h₂.leftOut_le
    have hunsacked := h₂.unsacked
    rw [if_pos rfl, hb₂, bind_some]
    cases hlist : b₂.sentList with
    | nil => exact absurd hlist (hsame.alike.ne_nil hne₁)
    | cons head rest =>
      rw [hlist] at hunsacked
      dsimp only
      rw [if_pos ⟨hunsacked head rfl, hguard⟩]
      exact ⟨b₂, bytesSacked, rfl, h₂, hsacks₂⟩

end

end TcpTxBuffer

end Ns3
