import Ns3.Lib.CachedMax
import Ns3.Internet.TxHistory

/-!
# The highest sacked item

`Update` moves the iterator to an item it sacks when the item ends at the
iterator's number or behind; `FindHighestSacked` reads the whole list. The two
agree unless the item right before the highest one is sacked after it. From
the iterator down the lost items are counted.
-/

namespace Ns3

open List

namespace TcpTxBuffer

open SequenceNumber32

/-! ## The keys of the sacked items -/

def sackedKeys (l : List TcpTxItem) : List (Nat × SequenceNumber32) :=
  (l.filter (·.sacked)).map fun i => (i.address, i.startSeq)

def iteratorAt : Option TcpTxItem → Option Nat × SequenceNumber32
  | none => (none, ⟨0⟩)
  | some i => (some i.address, i.startSeq)

def lastKey (keys : List (Nat × SequenceNumber32)) : Option Nat × SequenceNumber32 :=
  match keys.getLast? with
  | none => (none, ⟨0⟩)
  | some k => (some k.1, k.2)

@[simp] theorem sackedKeys_append (l l' : List TcpTxItem) : sackedKeys (l ++ l') = sackedKeys l ++ sackedKeys l' := by
  simp [sackedKeys]

theorem sackedKeys_cons_of_sacked {i : TcpTxItem} (h : i.sacked = true) (l : List TcpTxItem) :
    sackedKeys (i :: l) = (i.address, i.startSeq) :: sackedKeys l := by
  simp [sackedKeys, h]

theorem sackedKeys_cons_of_not {i : TcpTxItem} (h : i.sacked = false) (l : List TcpTxItem) :
    sackedKeys (i :: l) = sackedKeys l := by
  simp [sackedKeys, h]

theorem sackedKeys_nil {l : List TcpTxItem} (h : ∀ i ∈ l, i.sacked = false) : sackedKeys l = [] := by
  rw [sackedKeys, filter_eq_nil_iff.mpr fun i hi => by simp [h i hi]]
  rfl

theorem lastKey_sackedKeys (l : List TcpTxItem) : lastKey (sackedKeys l) = iteratorAt (l.filter (·.sacked)).getLast? := by
  rw [lastKey, sackedKeys, getLast?_map]
  cases (l.filter (·.sacked)).getLast? <;> rfl

theorem lastKey_cons (k : Nat × SequenceNumber32) (keys : List (Nat × SequenceNumber32)) :
    lastKey (k :: keys) = if keys = [] then (some k.1, k.2) else lastKey keys := by
  cases keys with
  | nil => rfl
  | cons k' keys => simp [lastKey, getLast?_cons_cons]

theorem highestSackedFrom_eq : ∀ {l : List TcpTxItem} {p : Nat} {ret : Option Nat × SequenceNumber32}, Laid p l →
    highestSackedFrom (ofPosition p) l ret = if sackedKeys l = [] then ret else lastKey (sackedKeys l)
  | [], _, _, _ => rfl
  | item :: l, p, ret, h => by
    rw [highestSackedFrom, add_ofPosition, highestSackedFrom_eq h.2.2]
    cases hs : item.sacked with
    | false => rw [sackedKeys_cons_of_not hs, if_neg Bool.false_ne_true]
    | true =>
      rw [sackedKeys_cons_of_sacked hs, lastKey_cons, if_pos rfl, if_neg (List.cons_ne_nil _ _), h.1]

theorem Ledger.findHighestSacked {b : TcpTxBuffer} {P : Nat} {data : Bytes} (h : Ledger b P data) :
    b.findHighestSacked = lastKey (sackedKeys b.sentList) := by
  rw [TcpTxBuffer.findHighestSacked, h.head, highestSackedFrom_eq h.laid]
  split
  · rename_i hnil
    rw [hnil]
    rfl
  · rfl

/-! ## What a call sacks -/

def newlySacked (block : SequenceNumber32 × SequenceNumber32) : SequenceNumber32 → List TcpTxItem → List TcpTxItem
  | _, [] => []
  | begin, item :: rest =>
    if begin.ge block.1 ∧ (begin.add item.size).le block.2 then
      (if item.sacked then [] else [item]) ++ newlySacked block (begin.add item.size) rest
    else if (begin.add item.size).gt block.2 then []
    else newlySacked block (begin.add item.size) rest

def newlySackedBlocks (head : SequenceNumber32) (sentSize : Nat) :
    List (SequenceNumber32 × SequenceNumber32) → List TcpTxItem → List TcpTxItem
  | [], _ => []
  | block :: list, items =>
    if (head.add sentSize).lt block.1 then []
    else newlySacked block head items ++ newlySackedBlocks head sentSize list (sackItems block head items)

/-- The iterator once an item is sacked. -/
def raise (hs : Option Nat × SequenceNumber32) (item : TcpTxItem) : Option Nat × SequenceNumber32 :=
  if hs.1 = none ∨ hs.2.le (item.startSeq.add item.size) then (some item.address, item.startSeq) else hs

def sackItem (item : TcpTxItem) : TcpTxItem := { item with lost := false, sacked := true }

section
variable {block : SequenceNumber32 × SequenceNumber32}

theorem newlySacked_subset : ∀ {items : List TcpTxItem} {begin : SequenceNumber32} {i : TcpTxItem},
    i ∈ newlySacked block begin items → i ∈ items ∧ i.sacked = false
  | item :: rest, begin, i, hi => by
    rw [newlySacked] at hi
    split at hi
    · rcases List.mem_append.mp hi with hi | hi
      · cases hs : item.sacked with
        | true =>
          rw [hs, if_pos rfl] at hi
          cases hi
        | false =>
          rw [hs, if_neg Bool.false_ne_true, List.mem_singleton] at hi
          exact ⟨hi ▸ List.mem_cons_self, hi ▸ hs⟩
      · obtain ⟨hi, hs⟩ := newlySacked_subset hi
        exact ⟨mem_cons_of_mem _ hi, hs⟩
    · split at hi
      · cases hi
      · obtain ⟨hi, hs⟩ := newlySacked_subset hi
        exact ⟨mem_cons_of_mem _ hi, hs⟩

theorem mem_sackItems : ∀ {items : List TcpTxItem} {begin : SequenceNumber32} {j : TcpTxItem},
    j ∈ sackItems block begin items → j.sacked = true → j ∈ items ∨ ∃ i ∈ newlySacked block begin items, j = sackItem i
  | item :: rest, begin, j, hj, hs => by
    rw [sackItems] at hj
    rw [newlySacked]
    split at hj
    · rename_i hin
      rw [if_pos hin]
      rcases List.mem_cons.mp hj with rfl | hj
      · cases hflag : item.sacked with
        | true => exact .inl (by simp)
        | false => exact .inr ⟨item, by simp, by simp [sackItem]⟩
      · rcases mem_sackItems hj hs with hj | ⟨i, hi, rfl⟩
        · exact .inl (List.mem_cons_of_mem _ hj)
        · exact .inr ⟨i, List.mem_append_right _ hi, rfl⟩
    · rename_i hin
      rw [if_neg hin]
      split at hj
      · exact .inl hj
      · rename_i hpast
        rw [if_neg hpast]
        rcases List.mem_cons.mp hj with rfl | hj
        · exact .inl List.mem_cons_self
        · rcases mem_sackItems hj hs with hj | hj
          · exact .inl (List.mem_cons_of_mem _ hj)
          · exact .inr hj

theorem kept_of_not_newly : ∀ {items : List TcpTxItem} {begin : SequenceNumber32} {i : TcpTxItem}, i ∈ items →
    i ∉ newlySacked block begin items → i ∈ sackItems block begin items
  | item :: rest, begin, i, hi, hnot => by
    rw [newlySacked] at hnot
    rw [sackItems]
    split at hnot
    · rename_i hin
      rw [if_pos hin]
      rw [List.mem_append, not_or] at hnot
      rcases List.mem_cons.mp hi with rfl | hi
      · cases hs : i.sacked with
        | true => exact List.mem_cons_self
        | false =>
          rw [hs] at hnot
          exact absurd (List.mem_singleton_self i) hnot.1
      · exact List.mem_cons_of_mem _ (kept_of_not_newly hi hnot.2)
    · rename_i hin
      rw [if_neg hin]
      split at hnot
      · rename_i hpast
        rw [if_pos hpast]
        exact hi
      · rename_i hpast
        rw [if_neg hpast]
        rcases List.mem_cons.mp hi with rfl | hi
        · exact List.mem_cons_self
        · exact List.mem_cons_of_mem _ (kept_of_not_newly hi hnot)

theorem sackItem_mem : ∀ {items : List TcpTxItem} {begin : SequenceNumber32} {i : TcpTxItem},
    i ∈ newlySacked block begin items → sackItem i ∈ sackItems block begin items
  | item :: rest, begin, i, hi => by
    rw [newlySacked] at hi
    rw [sackItems]
    split at hi
    · rename_i hin
      rw [if_pos hin]
      rcases List.mem_append.mp hi with hi | hi
      · cases hs : item.sacked with
        | true =>
          rw [hs, if_pos rfl] at hi
          cases hi
        | false =>
          rw [hs, if_neg Bool.false_ne_true, List.mem_singleton] at hi
          rw [hi]
          exact List.mem_cons_self
      · exact List.mem_cons_of_mem _ (sackItem_mem hi)
    · rename_i hin
      rw [if_neg hin]
      split at hi
      · cases hi
      · rename_i hpast
        rw [if_neg hpast]
        exact List.mem_cons_of_mem _ (sackItem_mem hi)

end

theorem sacked_mem : ∀ {l l' : List TcpTxItem}, List.Forall₂ NowSacked l l' → ∀ i ∈ l, i.sacked = true → i ∈ l'
  | _, _, .nil, _, hi, _ => hi
  | i :: l, _, .cons h t, j, hj, hs => by
    rcases List.mem_cons.mp hj with rfl | hj
    · rcases h with rfl | ⟨hnot, -⟩
      · exact List.mem_cons_self
      · rw [hnot] at hs
        cases hs
    · exact List.mem_cons_of_mem _ (sacked_mem t j hj hs)

section
variable {head : SequenceNumber32} {sentSize : Nat}

theorem newlySackedBlocks_subset : ∀ {list : List (SequenceNumber32 × SequenceNumber32)} {items : List TcpTxItem}
    {i : TcpTxItem}, i ∈ newlySackedBlocks head sentSize list items → i ∈ items ∧ i.sacked = false
  | block :: list, items, i, hi => by
    rw [newlySackedBlocks] at hi
    split at hi
    · cases hi
    · rcases List.mem_append.mp hi with hi | hi
      · exact newlySacked_subset hi
      · obtain ⟨hi, hs⟩ := newlySackedBlocks_subset hi
        obtain ⟨j, hj, hnow⟩ := nowSacked_mem (sackItems_related block items head) i hi
        rcases hnow with rfl | ⟨-, rfl⟩
        · exact ⟨hj, hs⟩
        · cases hs

theorem mem_sackBlocks : ∀ {list : List (SequenceNumber32 × SequenceNumber32)} {items : List TcpTxItem}
    {j : TcpTxItem}, j ∈ sackBlocks head sentSize list items → j.sacked = true →
    j ∈ items ∨ ∃ i ∈ newlySackedBlocks head sentSize list items, j = sackItem i
  | [], _, _, hj, _ => .inl hj
  | block :: list, items, j, hj, hs => by
    rw [sackBlocks] at hj
    rw [newlySackedBlocks]
    split at hj
    · exact .inl hj
    · rename_i hbeyond
      rw [if_neg hbeyond]
      rcases mem_sackBlocks hj hs with hj | ⟨i, hi, rfl⟩
      · rcases mem_sackItems hj hs with hj | ⟨i, hi, rfl⟩
        · exact .inl hj
        · exact .inr ⟨i, List.mem_append_left _ hi, rfl⟩
      · exact .inr ⟨i, List.mem_append_right _ hi, rfl⟩

theorem sackItem_mem_blocks : ∀ {list : List (SequenceNumber32 × SequenceNumber32)} {items : List TcpTxItem}
    {i : TcpTxItem}, i ∈ newlySackedBlocks head sentSize list items → sackItem i ∈ sackBlocks head sentSize list items
  | block :: list, items, i, hi => by
    rw [newlySackedBlocks] at hi
    rw [sackBlocks]
    split at hi
    · cases hi
    · rename_i hbeyond
      rw [if_neg hbeyond]
      rcases List.mem_append.mp hi with hi | hi
      · exact sacked_mem (sackBlocks_related head sentSize list _) _ (sackItem_mem hi) rfl
      · exact sackItem_mem_blocks hi

end

/-! ## The counts of a call -/

theorem updateItems_eq {block : SequenceNumber32 × SequenceNumber32} : ∀ {items : List TcpTxItem} {p : Nat} {t : Tally}
    {items' : List TcpTxItem} {t' : Tally}, Laid p items → updateItems block (ofPosition p) items t = some (items', t') →
    items' = sackItems block (ofPosition p) items ∧
      t' = (newlySacked block (ofPosition p) items).foldl (fun t item => t.sack item.startSeq item) t
  | [], _, _, _, _, _, h => by
    cases h
    exact ⟨rfl, rfl⟩
  | item :: rest, p, t, items', t', hlaid, h => by
    rw [updateItems] at h
    rw [sackItems, newlySacked]
    have hrest := hlaid.2.2
    rw [add_ofPosition] at h ⊢
    by_cases hin : (ofPosition p).ge block.1 ∧ (ofPosition (p + item.size)).le block.2
    · rw [if_pos hin] at h ⊢
      rw [if_pos hin]
      cases hs : item.sacked with
      | true =>
        rw [hs, if_pos rfl] at h
        by_cases hl : item.lost = true
        · rw [if_pos hl] at h
          cases h
        · rw [if_neg hl] at h
          obtain ⟨r, hr, heq⟩ := Option.map_eq_some_iff.mp h
          cases heq
          obtain ⟨hitems, htally⟩ := updateItems_eq hrest hr
          rw [if_pos rfl, if_pos rfl, ← hitems]
          exact ⟨rfl, htally⟩
      | false =>
        rw [hs, if_neg Bool.false_ne_true] at h
        obtain ⟨r, hr, heq⟩ := Option.map_eq_some_iff.mp h
        cases heq
        obtain ⟨hitems, htally⟩ := updateItems_eq hrest hr
        rw [if_neg Bool.false_ne_true, if_neg Bool.false_ne_true, ← hitems, htally, foldl_append, foldl_cons,
          foldl_nil, hlaid.1]
        exact ⟨rfl, rfl⟩
    · rw [if_neg hin] at h ⊢
      rw [if_neg hin]
      by_cases hpast : (ofPosition (p + item.size)).gt block.2 = true
      · rw [if_pos hpast] at h ⊢
        rw [if_pos hpast]
        cases h
        exact ⟨rfl, rfl⟩
      · rw [if_neg hpast] at h ⊢
        rw [if_neg hpast]
        obtain ⟨r, hr, heq⟩ := Option.map_eq_some_iff.mp h
        cases heq
        obtain ⟨hitems, htally⟩ := updateItems_eq hrest hr
        rw [← hitems]
        exact ⟨rfl, htally⟩

theorem foldl_sack : ∀ (items : List TcpTxItem) (t : Tally),
    (items.foldl (fun t item => t.sack item.startSeq item) t).highestSack = items.foldl raise t.highestSack ∧
      (items.foldl (fun t item => t.sack item.startSeq item) t).bytesSacked =
        items.foldl (fun n item => uint32 (n + item.size)) t.bytesSacked
  | [], _ => ⟨rfl, rfl⟩
  | item :: items, t => foldl_sack items (t.sack item.startSeq item)

theorem updateBlocks_eq {P : Nat} : ∀ {list : List (SequenceNumber32 × SequenceNumber32)} {b b' : TcpTxBuffer}
    {n n' : Nat} {finished : Bool}, updateBlocks list b n = some (b', n', finished) → b.firstByteSeq = ofPosition P →
    Laid P b.sentList →
    b'.highestSack = (newlySackedBlocks b.firstByteSeq b.sentSize list b.sentList).foldl raise b.highestSack ∧
      n' = (newlySackedBlocks b.firstByteSeq b.sentSize list b.sentList).foldl
        (fun n item => uint32 (n + item.size)) n ∧
      (finished = true ↔ ∀ block ∈ list, (b.firstByteSeq.add b.sentSize).lt block.1 = false)
  | [], b, b', n, n', finished, h, _, _ => by
    obtain ⟨rfl, hpair⟩ := Prod.mk.inj (Option.some.inj h)
    cases hpair
    exact ⟨rfl, rfl, by simp⟩
  | block :: list, b, b', n, n', finished, h, hhead, hlaid => by
    rw [updateBlocks] at h
    rw [newlySackedBlocks]
    by_cases hbeyond : (b.firstByteSeq.add b.sentSize).lt block.1 = true
    · rw [if_pos hbeyond] at h ⊢
      obtain ⟨rfl, hpair⟩ := Prod.mk.inj (Option.some.inj h)
      cases hpair
      refine ⟨rfl, rfl, ?_⟩
      constructor
      · intro hfinished
        cases hfinished
      · intro hall
        rw [hall block mem_cons_self] at hbeyond
        cases hbeyond
    · rw [if_neg hbeyond] at h ⊢
      obtain ⟨⟨items, t⟩, hitems, h⟩ := Option.bind_eq_some_iff.mp h
      rw [hhead] at hitems
      obtain ⟨rfl, rfl⟩ := updateItems_eq hlaid hitems
      have halike := (nowSacked_alike (sackItems_related block b.sentList (ofPosition P))).1
      obtain ⟨hhighest, hbytes, hfinished⟩ := updateBlocks_eq h hhead (halike.laid hlaid)
      obtain ⟨hraise, hcount⟩ := foldl_sack (newlySacked block (ofPosition P) b.sentList)
        ⟨b.lostOut, b.sackedOut, n, b.highestSack⟩
      rw [hhead] at hhighest hbytes ⊢
      rw [foldl_append, foldl_append, ← hraise, ← hcount]
      rw [hhead, Bool.not_eq_true] at hbeyond
      refine ⟨hhighest, hbytes, ?_⟩
      rw [hfinished, hhead, forall_mem_cons]
      exact ⟨fun hlist => ⟨hbeyond, hlist⟩, fun hlist => hlist.2⟩

/-! ## Places of the items -/

/-- Where an item starts, counted from position `P`. -/
def startOf (P : Nat) (item : TcpTxItem) : Nat := item.startSeq.diff (ofPosition P)

def stopOf (P : Nat) (item : TcpTxItem) : Nat := startOf P item + item.size

section
variable {P : Nat} {items : List TcpTxItem} {item : TcpTxItem}

theorem startOf_eq {k : Nat} (h : item.startSeq = ofPosition (P + k)) (hk : k < 4294967296) : startOf P item = k := by
  rw [startOf, h, diff_ofPosition (by omega) (by omega)]
  omega

theorem Laid.place (h : Laid P items) (hbound : (bytesOf items).length < 2147483648)
    (hi : item ∈ items) : item.startSeq = ofPosition (P + startOf P item) ∧ 0 < item.size ∧
      stopOf P item ≤ (bytesOf items).length := by
  obtain ⟨before, after, rfl, hstart, hpos⟩ := h.split hi
  rw [bytesOf_append, length_append, length_bytesOf_cons] at hbound ⊢
  have hplace := startOf_eq hstart (by omega)
  rw [stopOf, hplace]
  exact ⟨hstart, hpos, by omega⟩

theorem Laid.apart : ∀ {items : List TcpTxItem} {p : Nat}, Laid (P + p) items →
    p + (bytesOf items).length < 2147483648 →
    items.Pairwise (fun i j => stopOf P i ≤ startOf P j) ∧ ∀ i ∈ items, p ≤ startOf P i
  | [], _, _, _ => ⟨List.Pairwise.nil, by simp⟩
  | item :: items, p, h, hbound => by
    rw [length_bytesOf_cons] at hbound
    have hplace := startOf_eq h.1 (by omega)
    obtain ⟨hrest, hbehind⟩ := @Laid.apart items (p + item.size) (Nat.add_assoc P p item.size ▸ h.2.2)
      (by omega)
    refine ⟨pairwise_cons.mpr ⟨fun j hj => ?_, hrest⟩, fun i hi => ?_⟩
    · rw [stopOf, hplace]
      exact hbehind j hj
    · rcases mem_cons.mp hi with rfl | hi
      · exact Nat.le_of_eq hplace.symm
      · exact Nat.le_trans (Nat.le_add_right p item.size) (hbehind i hi)

theorem Laid.pairwise (h : Laid P items) (hbound : (bytesOf items).length < 2147483648) :
    items.Pairwise fun i j => stopOf P i ≤ startOf P j :=
  (Laid.apart (p := 0) h (by omega)).1

theorem Laid.distinct (h : Laid P items) (hbound : (bytesOf items).length < 2147483648) :
    items.Pairwise fun i j => i.startSeq ≠ j.startSeq := by
  refine (h.pairwise hbound).imp_of_mem fun hi hj hle heq => ?_
  obtain ⟨-, hpos, -⟩ := h.place hbound hi
  rw [stopOf, startOf, startOf, heq] at hle
  omega

theorem eq_of_startSeq (hdistinct : items.Pairwise fun i j => i.startSeq ≠ j.startSeq) {i j : TcpTxItem}
    (hi : i ∈ items) (hj : j ∈ items) (hstart : i.startSeq = j.startSeq) : i = j :=
  List.Pairwise.forall_of_forall_of_flip (R := fun i j => i.startSeq = j.startSeq → i = j) (fun _ _ _ => rfl)
    (hdistinct.imp fun hne heq => absurd heq hne) (hdistinct.imp fun hne heq => absurd heq.symm hne) hi hj hstart

theorem Laid.last_sacked (h : Laid P items) (hbound : (bytesOf items).length < 2147483648) {j : TcpTxItem}
    (hj : (items.filter (·.sacked)).getLast? = some j) :
    j ∈ items ∧ j.sacked = true ∧ ∀ i ∈ items, i.sacked = true → i = j ∨ stopOf P i ≤ startOf P j := by
  obtain ⟨init, hinit⟩ := getLast?_eq_some_iff.mp hj
  have hmem : j ∈ items.filter (·.sacked) := by
    rw [hinit]
    simp
  obtain ⟨hj, hs⟩ := mem_filter.mp hmem
  refine ⟨hj, hs, fun i hi hsacked => ?_⟩
  have hpair := (h.pairwise hbound).filter (·.sacked)
  rw [hinit] at hpair
  have hi' : i ∈ items.filter (·.sacked) := mem_filter.mpr ⟨hi, hsacked⟩
  rw [hinit] at hi'
  rcases mem_append.mp hi' with hi' | hi'
  · exact .inr ((pairwise_append.mp hpair).2.2 i hi' j (mem_singleton_self j))
  · exact .inl (mem_singleton.mp hi')

theorem raise_iteratorAt (h : Laid P items) (hbound : (bytesOf items).length < 2147483648) {highest : Option TcpTxItem}
    (hhighest : ∀ i ∈ highest, i ∈ items) (hitem : item ∈ items) :
    raise (iteratorAt highest) item = iteratorAt (follow (startOf P) (stopOf P) highest item) := by
  cases highest with
  | none => rfl
  | some i =>
    obtain ⟨hstart, -, hstop⟩ := h.place hbound (hhighest i rfl)
    obtain ⟨hstart', -, hstop'⟩ := h.place hbound hitem
    rw [stopOf] at hstop hstop'
    show (if some i.address = none ∨ i.startSeq.le (item.startSeq.add item.size) then
      (some item.address, item.startSeq) else iteratorAt (some i)) = _
    have hle : i.startSeq.le (item.startSeq.add item.size) = decide (startOf P i ≤ stopOf P item) := by
      rw [hstart, hstart', add_ofPosition, le_ofPosition ⟨by omega, by omega⟩, stopOf]
      exact decide_eq_decide.mpr (by omega)
    rw [hle, show follow (startOf P) (stopOf P) (some i) item =
      if startOf P i ≤ stopOf P item then some item else some i from rfl]
    by_cases hfollow : startOf P i ≤ stopOf P item
    · rw [if_pos hfollow, if_pos (.inr (decide_eq_true hfollow))]
      rfl
    · rw [if_neg hfollow, if_neg (by simpa using hfollow)]

theorem foldl_raise (h : Laid P items) (hbound : (bytesOf items).length < 2147483648) :
    ∀ {news : List TcpTxItem} {highest : Option TcpTxItem}, (∀ i ∈ highest, i ∈ items) → (∀ i ∈ news, i ∈ items) →
    news.foldl raise (iteratorAt highest) = iteratorAt (news.foldl (follow (startOf P) (stopOf P)) highest)
  | [], _, _, _ => rfl
  | item :: news, highest, hhighest, hnews => by
    have hitem := hnews item mem_cons_self
    rw [foldl_cons, foldl_cons, raise_iteratorAt h hbound hhighest hitem]
    refine foldl_raise h hbound (fun i hi => ?_) fun i hi => hnews i (mem_cons_of_mem _ hi)
    cases highest with
    | none =>
      cases hi
      exact hitem
    | some j =>
      rcases @follow_some _ (startOf P) (stopOf P) j item with hf | hf
      · rw [hf] at hi
        cases hi
        exact hitem
      · rw [hf] at hi
        exact hhighest i hi

end

/-! ## When an item is sacked -/

/-- The item lies in the block, and no item before it ends behind the block. -/
def covers (block : SequenceNumber32 × SequenceNumber32) (items : List TcpTxItem) (x : TcpTxItem) : Bool :=
  x.startSeq.ge block.1 &&
    (items.takeWhile (fun i => i.startSeq ≠ x.startSeq) ++ [x]).all fun i => (i.startSeq.add i.size).le block.2

/-- The number of the first block that covers the item, or 0 for a sacked one. -/
def arrival (blocks : List (SequenceNumber32 × SequenceNumber32)) (items : List TcpTxItem) (x : TcpTxItem) : Nat :=
  if x.sacked then 0 else blocks.findIdx (fun block => covers block items x) + 1

/-- The blocks up to one beyond the sent data. -/
def reached (head : SequenceNumber32) (sentSize : Nat) (list : List (SequenceNumber32 × SequenceNumber32)) :
    List (SequenceNumber32 × SequenceNumber32) :=
  list.takeWhile fun block => !(head.add sentSize).lt block.1

/-- The item right before the highest one that is sacked, or gets so, gets so after it. -/
def Overtaken (blocks : List (SequenceNumber32 × SequenceNumber32)) (items : List TcpTxItem) : Prop :=
  ∃ x ∈ items, ∃ y ∈ items, y.startSeq = x.startSeq.add x.size ∧ arrival blocks items y < arrival blocks items x ∧
    arrival blocks items x ≤ blocks.length ∧
    ∀ z ∈ items, arrival blocks items z ≤ blocks.length → z.startSeq.le y.startSeq

section
variable {block : SequenceNumber32 × SequenceNumber32} {blocks : List (SequenceNumber32 × SequenceNumber32)}

theorem covers_cons_self {item x : TcpTxItem} {rest : List TcpTxItem} (h : item.startSeq = x.startSeq) :
    covers block (item :: rest) x = (x.startSeq.ge block.1 && (x.startSeq.add x.size).le block.2) := by
  rw [covers, takeWhile_cons_of_neg (by simpa using h)]
  simp

theorem covers_cons {item x : TcpTxItem} {rest : List TcpTxItem} (h : item.startSeq ≠ x.startSeq) :
    covers block (item :: rest) x = ((item.startSeq.add item.size).le block.2 && covers block rest x) := by
  rw [covers, takeWhile_cons_of_pos (by simpa using h), covers, cons_append, all_cons, Bool.and_left_comm]

theorem Alike.covers : ∀ {items items' : List TcpTxItem}, Alike items items' → ∀ x : TcpTxItem,
    TcpTxBuffer.covers block items' x = TcpTxBuffer.covers block items x
  | [], [], _, _ => rfl
  | i :: items, i' :: items', h, x => by
    unfold Alike at h
    simp only [List.map_cons, List.cons.injEq, Prod.mk.injEq] at h
    have hsize : i'.size = i.size := congrArg List.length h.1.2.1
    by_cases heq : i.startSeq = x.startSeq
    · rw [covers_cons_self heq, covers_cons_self (h.1.2.2.trans heq)]
    · rw [covers_cons heq, covers_cons (h.1.2.2 ▸ heq), h.1.2.2, hsize, Alike.covers h.2]

theorem mem_newlySacked : ∀ {items : List TcpTxItem} {p : Nat} {x : TcpTxItem}, Laid p items →
    items.Pairwise (fun i j => i.startSeq ≠ j.startSeq) →
    (x ∈ newlySacked block (ofPosition p) items ↔ x ∈ items ∧ x.sacked = false ∧ covers block items x = true)
  | [], _, _, _, _ => by simp [newlySacked]
  | item :: rest, p, x, hlaid, hdistinct => by
    obtain ⟨hapart, hdistinct⟩ := pairwise_cons.mp hdistinct
    have ih := @mem_newlySacked rest (p + item.size) x hlaid.2.2 hdistinct
    rw [newlySacked, mem_cons, add_ofPosition]
    by_cases heq : item.startSeq = x.startSeq
    · -- the item itself
      have hnot : x ∉ rest := fun hx => hapart x hx heq
      have hnews : x ∉ newlySacked block (ofPosition (p + item.size)) rest := fun hx => hnot (newlySacked_subset hx).1
      rw [covers_cons_self heq, Bool.and_eq_true]
      by_cases hx : x = item
      · subst hx
        rw [hlaid.1, add_ofPosition]
        by_cases hin : (ofPosition p).ge block.1 = true ∧ (ofPosition (p + x.size)).le block.2 = true
        · cases hs : x.sacked <;> simp [hin, hnews]
        · rw [if_neg hin]
          split <;> simp [hin, hnews]
      · have hne : x ∉ (if item.sacked = true then [] else [item]) := by split <;> simp [hx]
        split
        · simp [hx, hnot, hne, hnews]
        · split <;> simp [hx, hnot, hnews]
    · -- an item behind it
      have hx : x ≠ item := fun hx => heq (hx ▸ rfl)
      have hne : x ∉ (if item.sacked = true then [] else [item]) := by split <;> simp [hx]
      rw [covers_cons heq, hlaid.1, add_ofPosition, Bool.and_eq_true]
      by_cases hin : (ofPosition p).ge block.1 = true ∧ (ofPosition (p + item.size)).le block.2 = true
      · rw [if_pos hin, mem_append, ih]
        simp [hx, hne, hin.2]
      · rw [if_neg hin]
        cases hpast : (ofPosition (p + item.size)).gt block.2 with
        | true => simp [le, hpast]
        | false => simp [le, hpast, hx, ih]

theorem newlySacked_sublist : ∀ (items : List TcpTxItem) (begin : SequenceNumber32),
    (newlySacked block begin items).Sublist items
  | [], _ => List.Sublist.slnil
  | item :: rest, begin => by
    have ih := newlySacked_sublist rest (begin.add item.size)
    rw [newlySacked]
    split
    · split
      · exact ih.cons item
      · exact ih.cons_cons item
    · split
      · exact nil_sublist _
      · exact ih.cons item

variable {items : List TcpTxItem} {x : TcpTxItem}

theorem arrival_of_sacked (h : x.sacked = true) : arrival blocks items x = 0 :=
  if_pos h

theorem arrival_of_covers (hs : x.sacked = false)
    (h : covers block items x = true) : arrival (block :: blocks) items x = 1 := by
  rw [arrival, hs, if_neg Bool.false_ne_true, findIdx_cons, h]
  rfl

theorem sackItems_distinct {P : Nat} (hdistinct : items.Pairwise fun i j => i.startSeq ≠ j.startSeq) :
    (sackItems block (ofPosition P) items).Pairwise fun i j => i.startSeq ≠ j.startSeq := by
  have halike := (nowSacked_alike (sackItems_related block items (ofPosition P))).1
  have hmap : ∀ l : List TcpTxItem, l.Pairwise (fun i j => i.startSeq ≠ j.startSeq) ↔
      (l.map fun i => (i.address, i.packet, i.startSeq)).Pairwise fun i j => i.2.2 ≠ j.2.2 := by
    intro l
    rw [pairwise_map]
  rw [hmap, halike, ← hmap]
  exact hdistinct

theorem arrival_next {P : Nat} (hlaid : Laid P items)
    (hdistinct : items.Pairwise fun i j => i.startSeq ≠ j.startSeq) (hx : x ∈ sackItems block (ofPosition P) items) (hs : x.sacked = false) :
    arrival (block :: blocks) items x = arrival blocks (sackItems block (ofPosition P) items) x + 1 := by
  have halike := (nowSacked_alike (sackItems_related block items (ofPosition P))).1
  have hnot : covers block items x = false := by
    rw [← Bool.not_eq_true]
    intro hcovers
    obtain ⟨i, hi, hnow⟩ := nowSacked_mem (sackItems_related block items (ofPosition P)) x hx
    rcases hnow with rfl | ⟨-, rfl⟩
    · have hnews := (mem_newlySacked hlaid hdistinct).mpr ⟨hi, hs, hcovers⟩
      have heq := eq_of_startSeq (sackItems_distinct hdistinct) hx (sackItem_mem hnews) rfl
      rw [heq] at hs
      cases hs
    · cases hs
  rw [arrival, arrival, hs, if_neg Bool.false_ne_true, if_neg Bool.false_ne_true, findIdx_cons, hnot]
  simp only [halike.covers]
  rfl

end

section
variable {P sentSize : Nat}

theorem reached_cons {block : SequenceNumber32 × SequenceNumber32} {list : List (SequenceNumber32 × SequenceNumber32)}
    {head : SequenceNumber32} (h : (head.add sentSize).lt block.1 ≠ true) :
    reached head sentSize (block :: list) = block :: reached head sentSize list :=
  takeWhile_cons_of_pos (by simpa using h)

theorem arrival_le : ∀ {list : List (SequenceNumber32 × SequenceNumber32)} {items : List TcpTxItem} {x : TcpTxItem},
    Laid P items → (bytesOf items).length < 2147483648 → x ∈ newlySackedBlocks (ofPosition P) sentSize list items →
    arrival (reached (ofPosition P) sentSize list) items x ≤ (reached (ofPosition P) sentSize list).length
  | block :: list, items, x, hlaid, hbound, hx => by
    have hdistinct := hlaid.distinct hbound
    rw [newlySackedBlocks] at hx
    by_cases hbeyond : ((ofPosition P).add sentSize).lt block.1 = true
    · rw [if_pos hbeyond] at hx
      cases hx
    · rw [if_neg hbeyond] at hx
      rw [reached_cons hbeyond, length_cons]
      rcases mem_append.mp hx with hx | hx
      · obtain ⟨-, hs, hcovers⟩ := (mem_newlySacked hlaid hdistinct).mp hx
        rw [arrival_of_covers hs hcovers]
        exact Nat.succ_le_succ (Nat.zero_le _)
      · have halike := (nowSacked_alike (sackItems_related block items (ofPosition P))).1
        obtain ⟨hmem, hs⟩ := newlySackedBlocks_subset hx
        rw [arrival_next hlaid hdistinct hmem hs]
        exact Nat.succ_le_succ (arrival_le (halike.laid hlaid) (by rw [halike.bytesOf_eq]; exact hbound) hx)

theorem arrival_lt : ∀ {list : List (SequenceNumber32 × SequenceNumber32)} {items before after : List TcpTxItem}
    {x y : TcpTxItem}, Laid P items → (bytesOf items).length < 2147483648 →
    newlySackedBlocks (ofPosition P) sentSize list items = before ++ x :: after →
    (y ∈ items ∧ y.sacked = true) ∨ y ∈ before → startOf P y = stopOf P x →
    arrival (reached (ofPosition P) sentSize list) items y < arrival (reached (ofPosition P) sentSize list) items x
  | [], _, before, _, _, _, _, _, hsplit, _, _ => by
    rw [newlySackedBlocks] at hsplit
    exact absurd hsplit.symm (by simp)
  | block :: list, items, before, after, x, y, hlaid, hbound, hsplit, hy, hstart => by
    have hdistinct := hlaid.distinct hbound
    rw [newlySackedBlocks] at hsplit
    -- a block beyond the sent data ends the loop
    by_cases hbeyond : ((ofPosition P).add sentSize).lt block.1 = true
    · rw [if_pos hbeyond] at hsplit
      exact absurd hsplit.symm (by simp)
    · rw [if_neg hbeyond] at hsplit
      have halike := (nowSacked_alike (sackItems_related block items (ofPosition P))).1
      have hlaid' := halike.laid hlaid
      have hbound' : (bytesOf (sackItems block (ofPosition P) items)).length < 2147483648 := by
        rw [halike.bytesOf_eq]
        exact hbound
      rw [reached_cons hbeyond]
      have hsplit' : (∃ as, newlySacked block (ofPosition P) items = before ++ x :: as) ∨
          ∃ before', before = newlySacked block (ofPosition P) items ++ before' ∧
            newlySackedBlocks (ofPosition P) sentSize list (sackItems block (ofPosition P) items) =
              before' ++ x :: after := by
        rcases append_eq_append_iff.mp hsplit with ⟨as, hbefore, hrest⟩ | ⟨as, hnews, hrest⟩
        · exact .inr ⟨as, hbefore, hrest⟩
        · cases as with
          | nil => exact .inr ⟨[], by simpa using hnews.symm, by simpa using hrest.symm⟩
          | cons z as =>
            obtain ⟨rfl, -⟩ := List.cons.inj hrest
            exact .inl ⟨as, hnews⟩
      rcases hsplit' with ⟨as, hnews⟩ | ⟨before', rfl, hrest⟩
      · -- the block sacks `x`
        have hx : x ∈ newlySacked block (ofPosition P) items := by
          rw [hnews]
          simp
        obtain ⟨-, hs, hcovers⟩ := (mem_newlySacked hlaid hdistinct).mp hx
        rw [arrival_of_covers hs hcovers]
        rcases hy with ⟨-, hy⟩ | hy
        · rw [arrival_of_sacked hy]
          exact Nat.zero_lt_one
        · have hpair := (hlaid.pairwise hbound).sublist (@newlySacked_sublist block items (ofPosition P))
          rw [hnews] at hpair
          have hle := (pairwise_append.mp hpair).2.2 y hy x mem_cons_self
          obtain ⟨-, hpos, -⟩ := hlaid.place hbound (newlySacked_subset hx).1
          rw [stopOf, hstart, stopOf] at hle
          lia
      · -- a block behind it does
        have hx : x ∈ newlySackedBlocks (ofPosition P) sentSize list (sackItems block (ofPosition P) items) := by
          rw [hrest]
          simp
        obtain ⟨hx, hs⟩ := newlySackedBlocks_subset hx
        rw [arrival_next hlaid hdistinct hx hs]
        have hlate : ∀ z, (z ∈ sackItems block (ofPosition P) items ∧ z.sacked = true) ∨ z ∈ before' →
            startOf P z = stopOf P x → _ := fun z hz hzx => arrival_lt hlaid' hbound' hrest hz hzx
        rcases hy with ⟨hy, hy'⟩ | hy
        · rw [arrival_of_sacked hy']
          exact Nat.succ_pos _
        · rcases mem_append.mp hy with hy | hy
          · obtain ⟨-, hy', hcovers⟩ := (mem_newlySacked hlaid hdistinct).mp hy
            have hlt := hlate (sackItem y) (.inl ⟨sackItem_mem hy, rfl⟩) hstart
            rw [arrival_of_covers hy' hcovers]
            exact Nat.succ_lt_succ (Nat.zero_lt_of_lt hlt)
          · have hlt := hlate y (.inr hy) hstart
            have hy' : y ∈ newlySackedBlocks (ofPosition P) sentSize list (sackItems block (ofPosition P) items) := by
              rw [hrest]
              exact mem_append_left _ hy
            obtain ⟨hmem, hs'⟩ := newlySackedBlocks_subset hy'
            rw [arrival_next hlaid hdistinct hmem hs']
            exact Nat.succ_lt_succ hlt

theorem sacked_of_arrival : ∀ {list : List (SequenceNumber32 × SequenceNumber32)} {items : List TcpTxItem}
    {z : TcpTxItem}, Laid P items → (bytesOf items).length < 2147483648 → z ∈ items →
    arrival (reached (ofPosition P) sentSize list) items z ≤ (reached (ofPosition P) sentSize list).length →
    ∃ z' ∈ sackBlocks (ofPosition P) sentSize list items, z'.sacked = true ∧ z'.startSeq = z.startSeq
  | list, items, z, hlaid, hbound, hz, hle => by
    cases hs : z.sacked with
    | true => exact ⟨z, sacked_mem (sackBlocks_related _ _ list items) z hz hs, hs, rfl⟩
    | false =>
      have hdistinct := hlaid.distinct hbound
      cases list with
      | nil =>
        rw [reached, takeWhile_nil, arrival, hs] at hle
        exact absurd hle (Nat.not_succ_le_zero _)
      | cons block list =>
        by_cases hbeyond : ((ofPosition P).add sentSize).lt block.1 = true
        · rw [reached, takeWhile_cons_of_neg (by simpa using hbeyond), arrival, hs] at hle
          exact absurd hle (Nat.not_succ_le_zero _)
        · have halike := (nowSacked_alike (sackItems_related block items (ofPosition P))).1
          rw [sackBlocks, if_neg hbeyond]
          by_cases hcovers : covers block items z = true
          · have hnews := (mem_newlySacked hlaid hdistinct).mpr ⟨hz, hs, hcovers⟩
            exact ⟨sackItem z, sacked_mem (sackBlocks_related _ _ list _) _ (sackItem_mem hnews) rfl, rfl, rfl⟩
          · have hnot : z ∈ sackItems block (ofPosition P) items :=
              kept_of_not_newly hz fun hnews => hcovers ((mem_newlySacked hlaid hdistinct).mp hnews).2.2
            rw [reached_cons hbeyond, arrival_next hlaid hdistinct hnot hs, length_cons] at hle
            exact sacked_of_arrival (halike.laid hlaid) (by rw [halike.bytesOf_eq]; exact hbound) hnot
              (Nat.le_of_succ_le_succ hle)
  termination_by list => list.length

end

section
variable {b b' : TcpTxBuffer} {P : Nat} {data : Bytes}

/-- **The iterator stays at the highest sacked item** when the item before it is
not sacked after it. -/
theorem Ledger.updateBlocks_highest (h : Ledger b P data) {list : List (SequenceNumber32 × SequenceNumber32)}
    {n n' : Nat} {finished : Bool} (hrun : TcpTxBuffer.updateBlocks list b n = some (b', n', finished))
    (hhighest : b.highestSack = lastKey (sackedKeys b.sentList))
    (horder : ¬ Overtaken (reached b.firstByteSeq b.sentSize list) b.sentList) :
    b'.highestSack = lastKey (sackedKeys (sackBlocks b.firstByteSeq b.sentSize list b.sentList)) := by
  have hlength := h.length_le
  have hbound := h.bound
  have hlaid := h.laid
  have hsmall : (bytesOf b.sentList).length < 2147483648 := by omega
  obtain ⟨hraised, -, -⟩ := updateBlocks_eq hrun h.head hlaid
  have hrelated := sackBlocks_related b.firstByteSeq b.sentSize list b.sentList
  have hsacks : ∀ x ∈ newlySackedBlocks b.firstByteSeq b.sentSize list b.sentList, x ∈ b.sentList :=
    fun x hx => (newlySackedBlocks_subset hx).1
  have hold : ∀ x ∈ (b.sentList.filter (·.sacked)).getLast?, x ∈ b.sentList ∧ x.sacked = true :=
    fun x hx => mem_filter.mp (mem_of_getLast? hx)
  rw [hraised, hhighest, lastKey_sackedKeys, lastKey_sackedKeys,
    foldl_raise hlaid hsmall (fun x hx => (hold x hx).1) hsacks]
  have halike := (nowSacked_alike hrelated).1
  have hlaid' := halike.laid hlaid
  have hsmall' : (bytesOf (sackBlocks b.firstByteSeq b.sentSize list b.sentList)).length < 2147483648 := by
    rw [halike.bytesOf_eq]
    exact hsmall
  cases hlast : ((sackBlocks b.firstByteSeq b.sentSize list b.sentList).filter (·.sacked)).getLast? with
  | none =>
    rw [getLast?_eq_none_iff, filter_eq_nil_iff] at hlast
    have hnews : newlySackedBlocks b.firstByteSeq b.sentSize list b.sentList = [] :=
      eq_nil_iff_forall_not_mem.mpr fun x hx => hlast _ (sackItem_mem_blocks hx) rfl
    have hnone : (b.sentList.filter (·.sacked)).getLast? = none := by
      rw [getLast?_eq_none_iff, filter_eq_nil_iff]
      exact fun x hx hs => hlast x (sacked_mem hrelated x hx hs) hs
    rw [hnews, hnone]
    rfl
  | some j =>
    obtain ⟨hj, hs, hmax⟩ := hlaid'.last_sacked hsmall' hlast
    have hdistinct := hlaid.distinct hsmall
    -- the item behind the last sacked one, as it was
    obtain ⟨m, hm, hsame, hmj⟩ : ∃ m ∈ b.sentList, iteratorAt (some m) = iteratorAt (some j) ∧
        ((b.sentList.filter (·.sacked)).getLast? = some m ∨
          m ∈ newlySackedBlocks b.firstByteSeq b.sentSize list b.sentList) := by
      rcases mem_sackBlocks hj hs with hj' | ⟨i, hi, rfl⟩
      · refine ⟨j, hj', rfl, .inl ?_⟩
        cases hy : (b.sentList.filter (·.sacked)).getLast? with
        | none =>
          rw [getLast?_eq_none_iff, filter_eq_nil_iff] at hy
          exact absurd hs (hy j hj')
        | some y =>
          obtain ⟨hy', hys, hymax⟩ := hlaid.last_sacked hsmall hy
          obtain ⟨-, hpos, -⟩ := hlaid.place hsmall hj'
          rcases hymax j hj' hs with rfl | hle
          · rfl
          · rcases hmax y (sacked_mem hrelated y hy' hys) hys with rfl | hle'
            · rfl
            · rw [stopOf] at hle hle'
              omega
      · exact ⟨i, hsacks i hi, rfl, .inr hi⟩
    have hstart : m.startSeq = j.startSeq := congrArg Prod.snd hsame
    have hplace : startOf P m = startOf P j := by rw [startOf, startOf, hstart]
    have htop : ∀ x ∈ b.sentList, ∀ x' ∈ sackBlocks b.firstByteSeq b.sentSize list b.sentList, x'.sacked = true →
        x'.startSeq = x.startSeq → x'.size = x.size → x = m ∨ stopOf P x ≤ startOf P m := by
      intro x hx x' hx' hs' hstart' hsize
      rcases hmax x' hx' hs' with rfl | hle
      · exact .inl (eq_of_startSeq hdistinct hx hm (hstart'.symm.trans hstart.symm))
      · rw [stopOf, startOf, hstart', hsize] at hle
        exact .inr (hplace ▸ hle)
    have htop' : ∀ x, (b.sentList.filter (·.sacked)).getLast? = some x ∨
        x ∈ newlySackedBlocks b.firstByteSeq b.sentSize list b.sentList →
        x ∈ b.sentList ∧ (x = m ∨ stopOf P x ≤ startOf P m) := by
      rintro x (hx | hx)
      · obtain ⟨hx', hs'⟩ := hold x hx
        exact ⟨hx', htop x hx' x (sacked_mem hrelated x hx' hs') hs' rfl rfl⟩
      · exact ⟨hsacks x hx, htop x (hsacks x hx) _ (sackItem_mem_blocks hx) rfl rfl rfl⟩
    refine (congrArg iteratorAt (foldl_follow_max (Nat.le_add_right (startOf P m) m.size) hmj
      (fun x hx => (htop' x hx).2) (fun x _ => Nat.le_add_right (startOf P x) x.size) ?_)).trans hsame
    -- an item sacked after the highest does not end there
    intro before x after hsplit hbefore hstop
    have hx : x ∈ newlySackedBlocks b.firstByteSeq b.sentSize list b.sentList := by
      rw [hsplit]
      simp
    obtain ⟨hxstart, -, hxstop⟩ := hlaid.place hsmall (hsacks x hx)
    obtain ⟨hmstart, -, hmstop⟩ := hlaid.place hsmall hm
    rw [h.head] at horder hsplit
    have harrival := arrival_lt hlaid hsmall hsplit
      (hbefore.imp_left fun hm' => ⟨hm, (hold m hm').2⟩) hstop.symm
    rw [h.head] at hx
    refine horder ⟨x, (newlySackedBlocks_subset hx).1, m, hm, ?_, harrival, arrival_le hlaid hsmall hx, fun z hz hle => ?_⟩
    · rw [hmstart, ← hstop, hxstart, add_ofPosition, stopOf, startOf_eq hxstart (by rw [stopOf] at hxstop; lia),
        Nat.add_assoc]
    · obtain ⟨z', hz', hs', hstart'⟩ := sacked_of_arrival hlaid hsmall hz hle
      obtain ⟨hzstart, -, hzstop⟩ := hlaid.place hsmall hz
      have hzm : startOf P z ≤ startOf P m := by
        rw [← h.head] at hz'
        rcases hmax z' hz' hs' with rfl | hle'
        · rw [hplace, startOf, startOf, hstart']
        · rw [stopOf, startOf, hstart'] at hle'
          exact hplace ▸ Nat.le_trans (Nat.le_add_right _ _) hle'
      rw [hzstart, hmstart, le_ofPosition ⟨by omega, by omega⟩, decide_eq_true_eq]
      omega

end

end TcpTxBuffer

end Ns3
