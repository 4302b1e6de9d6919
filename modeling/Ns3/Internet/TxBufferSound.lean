import Ns3.Internet.TxItems

/-!
# The books of a send buffer

`Books b P data`: the buffer holds `data`, whose first byte is at position `P`
of the stream, and its counters and flags agree with the items. Every operation
is defined on such a buffer, under what its caller grants, and keeps it so.
-/

namespace Ns3

open List

namespace TcpTxBuffer

open SequenceNumber32

theorem count_clear {c size rest : Nat} {flag : Bool} (h : c = (if flag then size else 0) + rest)
    (hlt : c < 4294967296) : (if flag then uint32 (c - size) else c) = rest := by
  cases flag with
  | false => simpa using h
  | true =>
    rw [if_pos rfl] at h ⊢
    rw [uint32_sub (by omega) hlt]
    omega

theorem count_set {c size rest : Nat} {flag : Bool} (h : c = (if flag then size else 0) + rest)
    (hlt : size + rest < 4294967296) : (if flag then c else uint32 (c + size)) = size + rest := by
  cases flag with
  | true => simpa using h
  | false =>
    rw [if_neg Bool.false_ne_true] at h ⊢
    rw [uint32_add (by omega)]
    omega

structure Stream (b : TcpTxBuffer) (P : Nat) (data : Bytes) : Prop where
  head : b.firstByteSeq = ofPosition P
  bytes : bytesOf b.sentList ++ bytesOf b.appList = data
  /-- Room for the FIN is left. -/
  bound : data.length < 2147483647
  size : b.size = data.length
  sentSize : b.sentSize = (bytesOf b.sentList).length
  laid : Laid P b.sentList
  app : ∀ i ∈ b.appList, 0 < i.size ∧ i.lost = false ∧ i.retrans = false ∧ i.sacked = false

structure Counted (b : TcpTxBuffer) : Prop where
  sackedOut : b.sackedOut = total (·.sacked) b.sentList
  lostOut : b.lostOut = total (·.lost) b.sentList
  retrans : b.retrans = total (·.retrans) b.sentList
  exclusive : ∀ i ∈ b.sentList, ¬ (i.sacked = true ∧ i.lost = true)
  lostFirst : b.sackEnabled = false → LostFirst b.sentList

structure Scored (b : TcpTxBuffer) (P : Nat) (data : Bytes) : Prop extends Stream b P data, Counted b where
  unsacked : ∀ i ∈ b.sentList.head?, i.sacked = false

structure Books (b : TcpTxBuffer) (P : Nat) (data : Bytes) : Prop extends Scored b P data where
  highest : ∀ a, b.highestSack.1 = some a →
    ∃ i ∈ b.sentList, i.address = a ∧ i.sacked = true ∧ i.startSeq = b.highestSack.2

/-- The bytes and the counters, whatever the flags. -/
structure Ledger (b : TcpTxBuffer) (P : Nat) (data : Bytes) : Prop extends Stream b P data where
  sackedOut : b.sackedOut = total (·.sacked) b.sentList
  lostOut : b.lostOut = total (·.lost) b.sentList
  retrans : b.retrans = total (·.retrans) b.sentList

/-- No byte becomes sacked. -/
structure Keeps (b : TcpTxBuffer) (P : Nat) (b' : TcpTxBuffer) (P' : Nat) : Prop where
  sackEnabled : b'.sackEnabled = b.sackEnabled
  sackedAt : ∀ q, SackedAt P' b'.sentList q → SackedAt P b.sentList q

section
variable {b : TcpTxBuffer} {P : Nat} {data : Bytes}

theorem Keeps.refl (b : TcpTxBuffer) (P : Nat) : Keeps b P b P := ⟨rfl, fun _ h => h⟩

def KeepsSacked (b b' : TcpTxBuffer) : Prop :=
  ∀ i ∈ b.sentList, i.sacked = true →
    ∃ j ∈ b'.sentList, j.address = i.address ∧ j.sacked = true ∧ j.startSeq = i.startSeq

theorem KeepsSacked.of_mem {b b' : TcpTxBuffer} (h : ∀ i ∈ b.sentList, i.sacked = true → i ∈ b'.sentList) :
    KeepsSacked b b' :=
  fun i hi hs => ⟨i, h i hi hs, rfl, hs, rfl⟩

variable {b' : TcpTxBuffer} {q n : Nat} {v : Bool} {x item : TcpTxItem} {before after app : List TcpTxItem}

theorem Books.of_scored (h : Books b P data) (h' : Scored b' P data) (hkept : KeepsSacked b b')
    (hsame : b'.highestSack = b.highestSack) : Books b' P data := by
  refine { h' with highest := ?_ }
  intro a ha
  rw [hsame] at ha ⊢
  obtain ⟨i, hi, haddr, hs, hstart⟩ := h.highest a ha
  obtain ⟨j, hj, haddr', hs', hstart'⟩ := hkept i hi hs
  exact ⟨j, hj, haddr'.trans haddr, hs', hstart'.trans hstart⟩

theorem Scored.ledger (h : Scored b P data) : Ledger b P data := { h with }

theorem Stream.length_le (h : Stream b P data) :
    (bytesOf b.sentList).length + (bytesOf b.appList).length = data.length := by
  rw [← h.bytes, length_append]

theorem Counted.sum_le (h : Counted b) : b.sackedOut + b.lostOut ≤ (bytesOf b.sentList).length := by
  rw [h.sackedOut, h.lostOut]
  exact total_add_le h.exclusive

theorem Scored.not_sackedAt (h : Scored b P data) : ¬ SackedAt P b.sentList P := by
  rw [sackedAt_head h.laid]
  rintro ⟨i, hi, hs⟩
  rw [h.unsacked i hi] at hs
  cases hs

theorem Scored.leftOut_le (h : Scored b P data) : uint32 (b.sackedOut + b.lostOut) ≤ b.sentSize := by
  have hsum := h.sum_le
  have hlength := h.length_le
  have hbound := h.bound
  rw [h.sentSize, uint32_add (by omega)]
  exact hsum

theorem Stream.tailSequence (h : Stream b P data) : b.tailSequence = ofPosition (P + data.length) := by
  rw [TcpTxBuffer.tailSequence, h.head, h.size, add_ofPosition]

theorem Stream.sizeFromSequence (h : Stream b P data) (hlo : P ≤ q) (hhi : q ≤ P + data.length) :
    b.sizeFromSequence (ofPosition q) = P + data.length - q := by
  have hbound := h.bound
  have hnear : Near (P + data.length) q := ⟨by omega, by omega⟩
  rw [TcpTxBuffer.sizeFromSequence, h.tailSequence, ge_ofPosition hnear, if_pos (decide_eq_true hhi),
    diff_ofPosition hhi (by omega)]

/-! ## `Add` -/

theorem add_sentList (p : Bytes) : (b.add p).1.sentList = b.sentList ∧ (b.add p).1.sackEnabled = b.sackEnabled := by
  unfold add
  split
  · split <;> exact ⟨rfl, rfl⟩
  · exact ⟨rfl, rfl⟩

theorem add_eq (b : TcpTxBuffer) (p : Bytes) :
    ∃ app size nextAddress, (b.add p).1 = { b with appList := app, size := size, nextAddress := nextAddress } := by
  unfold add
  split
  · split
    · exact ⟨_, _, _, rfl⟩
    · exact ⟨_, _, _, rfl⟩
  · exact ⟨_, _, _, rfl⟩

theorem Stream.add (h : Stream b P data) {p : Bytes} (hroom : data.length + p.length < 2147483647) :
    Stream (b.add p).1 P (if (b.add p).2 then data ++ p else data) := by
  unfold TcpTxBuffer.add
  split
  · split
    · rename_i hpos
      rw [if_pos rfl]
      refine { h with bytes := ?_, bound := ?_, size := ?_, app := ?_ }
      · rw [← h.bytes]
        simp
      · rw [length_append]
        exact hroom
      · rw [h.size, length_append]
        exact uint32_add (by omega)
      · intro i hi
        rcases mem_append.mp hi with hi | hi
        · exact h.app i hi
        · rw [mem_singleton.mp hi]
          exact ⟨hpos, rfl, rfl, rfl⟩
    · rename_i hnil
      rw [if_pos rfl, length_eq_zero_iff.mp (Nat.eq_zero_of_not_pos hnil), append_nil]
      exact h
  · exact h

theorem Books.add (h : Books b P data) {p : Bytes} (hroom : data.length + p.length < 2147483647) :
    Books (b.add p).1 P (if (b.add p).2 then data ++ p else data) := by
  have hstream := h.toStream.add hroom
  obtain ⟨app, size, nextAddress, heq⟩ := add_eq b p
  rw [heq] at hstream ⊢
  exact { hstream with
    sackedOut := h.sackedOut, lostOut := h.lostOut, retrans := h.retrans, exclusive := h.exclusive, lostFirst := h.lostFirst
    unsacked := h.unsacked, highest := h.highest }

/-! ## `CopyFromSequence` -/

theorem Books.replace (h : Books b P data) {before old new after : List TcpTxItem} {retrans nextAddress : Nat}
    (hlist : b.sentList = before ++ (old ++ after)) (hold : Uniform v old) (hnew : Uniform v new)
    (hbytes : bytesOf new = bytesOf old) (hlaid : ∀ p, Laid p old → Laid p new)
    (hcount : retrans + total (·.retrans) old = b.retrans + total (·.retrans) new) :
    Books { b with sentList := before ++ (new ++ after), retrans := retrans, nextAddress := nextAddress } P data := by
  have hmem : ∀ i ∈ before ++ (new ++ after), i ∈ b.sentList ∨ i.sacked = false := by
    intro i hi
    simp only [mem_append] at hi
    rw [hlist]
    rcases hi with hi | hi | hi
    · exact .inl (by simp [hi])
    · exact .inr (hnew.unsacked i hi)
    · exact .inl (by simp [hi])
  have hsame : bytesOf (before ++ (new ++ after)) = bytesOf b.sentList := by simp [hlist, hbytes]
  refine { h with
    bytes := ?_, sentSize := ?_, laid := ?_, sackedOut := ?_, lostOut := ?_, retrans := ?_, exclusive := ?_,
    lostFirst := ?_, unsacked := ?_, highest := ?_ }
  · rw [hsame, h.bytes]
  · rw [hsame, h.sentSize]
  · have hl := h.laid
    rw [hlist, laid_append, laid_append] at hl
    rw [laid_append, laid_append, hbytes]
    exact ⟨hl.1, hlaid _ hl.2.1, hl.2.2⟩
  · rw [h.sackedOut, hlist]
    simp only [total_append, hold.total_sacked, hnew.total_sacked]
  · rw [h.lostOut, hlist]
    simp only [total_append, hold.total_lost, hnew.total_lost, hbytes]
  · have hr := h.retrans
    rw [hlist] at hr
    simp only [total_append] at hr ⊢
    omega
  · rintro i hi ⟨hs, hl⟩
    rcases hmem i hi with hi' | hi'
    · exact h.exclusive i hi' ⟨hs, hl⟩
    · rw [hi'] at hs
      cases hs
  · intro hreno
    exact LostFirst.replace hold hnew (hlist ▸ h.lostFirst hreno)
  · have hh := h.unsacked
    rw [hlist] at hh
    cases before with
    | cons i before => exact hh
    | nil =>
      cases new with
      | nil => exact absurd rfl hnew.ne
      | cons i new =>
        intro j hj
        cases hj
        exact hnew.unsacked i (by simp)
  · intro a ha
    obtain ⟨i, hi, haddr, hs, hstart⟩ := h.highest a ha
    refine ⟨i, ?_, haddr, hs, hstart⟩
    rw [hlist] at hi
    simp only [mem_append] at hi ⊢
    rcases hi with hi | hi | hi
    · exact .inl hi
    · rw [hold.unsacked i hi] at hs
      cases hs
    · exact .inr (.inr hi)

theorem exists_run (n : Nat) (hx : x.sacked = false) (hpos : 0 < x.size) (hn : 0 < n)
    (after : List TcpTxItem) (hbound : (bytesOf (x :: after)).length < 2147483648) :
    ∃ run after', after = run ++ after' ∧ Uniform x.lost (x :: run) ∧ run.length ≤ 1 ∧
      0 < mergeableSize n x after ∧ mergeableSize n x after ≤ (bytesOf (x :: run)).length := by
  have halone : Uniform x.lost [x] := ⟨by simp, by simp [hx], by simp⟩
  have hlength := length_bytesOf_cons x []
  cases after with
  | nil =>
    rw [mergeableSize]
    exact ⟨[], [], rfl, halone, by simp, by omega, by omega⟩
  | cons next after =>
    rw [length_bytesOf_cons, length_bytesOf_cons] at hbound
    rw [mergeableSize]
    split
    · rename_i hmerge
      have hsacked : next.sacked = false := by simpa using hmerge.1
      have hpair : Uniform x.lost [x, next] := ⟨by simp, by simp [hx, hsacked], by simp [hmerge.2]⟩
      rw [uint32_add (by omega)]
      refine ⟨[next], after, rfl, hpair, Nat.le_refl 1, by omega, ?_⟩
      rw [length_bytesOf_cons, length_bytesOf_cons]
      omega
    · exact ⟨[], next :: after, rfl, halone, by simp, by omega, by omega⟩

theorem retransmitSize_skip (n : Nat) (x : TcpTxItem) (after : List TcpTxItem) :
    ∀ (before : List TcpTxItem) (p : Nat), Laid p (before ++ x :: after) → (bytesOf before).length < 2147483648 →
      retransmitSize n x.startSeq (before ++ x :: after) = mergeableSize n x after
  | [], _, _, _ => if_pos rfl
  | i :: before, p, hlaid, hbound => by
    rw [List.cons_append, laid_cons, laid_append, laid_cons] at hlaid
    obtain ⟨hi, hpos, hbefore, hx, hx'⟩ := hlaid
    rw [length_bytesOf_cons] at hbound
    have hnear : Near p (p + i.size + (bytesOf before).length) := ⟨by omega, by omega⟩
    have hne : i.startSeq ≠ x.startSeq := by
      rw [hi, hx, Ne, ofPosition_inj hnear]
      omega
    rw [cons_append, retransmitSize, if_neg hne]
    refine retransmitSize_skip n x after before (p + i.size) ?_ (by omega)
    rw [laid_append, laid_cons]
    exact ⟨hbefore, hx, hx'⟩

/-- The first bytes of the application as an item without flags. -/
structure NewItem (b : TcpTxBuffer) (P : Nat) (item : TcpTxItem) (app : List TcpTxItem) : Prop where
  bytes : item.packet ++ bytesOf app = bytesOf b.appList
  app : ∀ i ∈ app, 0 < i.size ∧ i.lost = false ∧ i.retrans = false ∧ i.sacked = false
  start : item.startSeq = ofPosition (P + (bytesOf b.sentList).length)
  pos : 0 < item.size
  lost : item.lost = false
  retrans : item.retrans = false
  sacked : item.sacked = false

/-- What a request for at most `n` bytes from position `q` on leaves, and the item it returns:
a segment cut out of unsacked items, which counts as retransmitted, or a new item. -/
inductive Copied (b : TcpTxBuffer) (now : Int) (n P q : Nat) : TcpTxBuffer → TcpTxItem → Prop
  | again {before run after : List TcpTxItem} {x item : TcpTxItem} {extra : List TcpTxItem} {retrans nextAddress : Nat}
      (hlist : b.sentList = before ++ (x :: run ++ after)) (hq : q = P + (bytesOf before).length)
      (hold : Uniform x.lost (x :: run)) (hcut : Cut x.lost item.size (x :: run) b.retrans item extra retrans)
      (hle : item.size ≤ n) :
      Copied b now n P q { b with
        sentList := before ++ ({ item with retrans := true, lastSent := now } :: extra ++ after)
        retrans := if item.retrans then retrans else uint32 (retrans + item.size)
        nextAddress := nextAddress } { item with retrans := true, lastSent := now }
  | new {item : TcpTxItem} {app : List TcpTxItem} {nextAddress : Nat} (hitem : NewItem b P item app)
      (hq : q = P + b.sentSize) (hle : item.size ≤ n) :
      Copied b now n P q { b with
        appList := app
        sentList := b.sentList ++ [item]
        sentSize := uint32 (b.sentSize + item.size)
        nextAddress := nextAddress } item

theorem Copied.mono {now : Int} {n n' q : Nat} (h : Copied b now n P q b' item)
    (hn : n ≤ n') : Copied b now n' P q b' item := by
  cases h with
  | again hlist hq hold hcut hle => exact .again hlist hq hold hcut (Nat.le_trans hle hn)
  | new hitem hq hle => exact .new hitem hq (Nat.le_trans hle hn)

theorem mergeableSize_le (n : Nat) (x : TcpTxItem) (after : List TcpTxItem) : mergeableSize n x after ≤ n := by
  cases after with
  | nil => exact Nat.min_le_left _ _
  | cons next after =>
    rw [mergeableSize]
    split <;> exact Nat.min_le_left _ _

theorem Ledger.copy_sent (h : Ledger b P data) {s : Nat} (now : Int)
    (hlist : b.sentList = before ++ x :: after) (hx : x.sacked = false) (hs : 0 < s)
    (hle : (bytesOf before).length + s ≤ b.sentSize) :
    ∃ b' item, ((b.getTransmittedSegment s (ofPosition (P + (bytesOf before).length))).bind fun r =>
      if r.2.item.sacked then none else sendItem now r.1 r.2) = some (b', some item) ∧
      Copied b now s P (P + (bytesOf before).length) b' item := by
  have hlaid := h.laid
  have hbound := h.bound
  have hlength := h.length_le
  have hsent := h.sentSize
  rw [hlist, laid_append, laid_cons] at hlaid
  obtain ⟨hbefore, hstart, hpos, -⟩ := hlaid
  rw [hlist, bytesOf_append, length_append] at hlength hsent
  obtain ⟨run, after', rfl, huniform, hrun, hn, hn'⟩ := exists_run s hx hpos hs after (by omega)
  have hsize : retransmitSize s (ofPosition (P + (bytesOf before).length)) b.sentList =
      mergeableSize s x (run ++ after') := by
    rw [hlist, ← hstart]
    exact retransmitSize_skip s x _ before P (hlist ▸ h.laid) (by omega)
  have hge : ∀ i : TcpTxItem, ∀ k, k < 2147483648 → i.startSeq = ofPosition (P + k) →
      i.startSeq.ge b.firstByteSeq = true := by
    intro i k hk hi
    rw [hi, h.head, ge_ofPosition ⟨by lia, by lia⟩]
    exact decide_eq_true (Nat.le_add_right P k)
  have hvalid : ∀ i ∈ before, i.startSeq.ge b.firstByteSeq = true := by
    intro i hi
    obtain ⟨u, w, rfl, hi', -⟩ := Laid.split hbefore hi
    rw [bytesOf_append, length_append] at hlength
    exact hge i _ (by omega) hi'
  have hlaid' := (laid_append _ _ _).mp (hlist ▸ h.laid)
  have hall : ∀ i ∈ x :: run, 0 < i.size := by
    intro i hi
    have hi' : i ∈ x :: (run ++ after') := by
      exact mem_append_left _ hi
    obtain ⟨-, -, -, -, hsize⟩ := Laid.split hlaid'.2 hi'
    exact hsize
  have hretrans : total (·.retrans) (x :: run) ≤ b.retrans := by
    rw [h.retrans, hlist, ← cons_append]
    simp only [total_append]
    lia
  have hretrans' : b.retrans < 2147483648 := by
    have := total_le (·.retrans) b.sentList
    rw [← h.retrans, ← h.sentSize] at this
    omega
  have hrunlength : (bytesOf (x :: (run ++ after'))).length = (bytesOf (x :: run)).length + (bytesOf after').length := by
    rw [← cons_append, bytesOf_append, length_append]
  obtain ⟨item, extra, retrans', nextAddress', hfound, hcut⟩ :=
    getPacketFromList_run (fun i => i.startSeq.ge b.firstByteSeq) before after' hvalid hn (by omega) run x
      (b.sentList.length + 2) b.retrans b.nextAddress huniform hall (fun i hi => hge i _ (by omega) (hi.trans hstart)) hn' (by omega) hretrans (by omega) (by omega)
  have heq : before ++ (x :: run ++ after') = b.sentList := hlist.symm
  rw [heq, ← h.head] at hfound
  have hguard : (ofPosition (P + (bytesOf before).length)).ge b.firstByteSeq = true ∧ s ≤ b.sentSize ∧
      1 ≤ b.sentList.length := by
    refine ⟨?_, by omega, ?_⟩
    · rw [← hstart]
      exact hge x _ (by omega) hstart
    · rw [hlist, length_append, length_cons]
      omega
  have hitem := (hcut.laid _ ((laid_append _ _ _).mp hlaid'.2).1).1
  have hsacked : item.sacked = false := hcut.uniform.unsacked item (by simp)
  have hshort := mergeableSize_le s x (run ++ after')
  have hitemsize := hcut.size
  rw [← hitemsize] at hcut hshort
  refine ⟨_, _, ?_, @Copied.again b now s P _ before run after' x item extra retrans' nextAddress' heq.symm rfl huniform
    hcut hshort⟩
  rw [getTransmittedSegment, if_pos hguard, hsize, hfound, Option.map_some, Option.bind_some,
    if_neg (by simp [hsacked]), sendItem, if_pos (hge _ _ (by lia) hitem)]
  rfl

theorem Ledger.copy_new (h : Ledger b P data) {s : Nat} (now : Int) (hs : 0 < s) (hle : s ≤ (bytesOf b.appList).length) :
    ∃ item app nextAddress, ((b.getNewSegment s).bind fun r => if r.2.item.retrans then none else sendItem now r.1 r.2) =
      some ({ b with
        appList := app
        sentList := b.sentList ++ [item]
        sentSize := uint32 (b.sentSize + item.size)
        nextAddress := nextAddress }, some item) ∧ NewItem b P item app ∧ item.size = s := by
  have hlength := h.length_le
  have hbound := h.bound
  have happ := h.app
  have hretrans : b.retrans < 2147483648 := by
    have := total_le (·.retrans) b.sentList
    rw [← h.retrans] at this
    omega
  cases hlist : b.appList with
  | nil => simp only [hlist, bytesOf_nil, length_nil] at hle; omega
  | cons x run =>
    rw [hlist] at happ hle hlength
    have huniform : Uniform false (x :: run) := ⟨by simp, fun i hi => (happ i hi).2.2.2, fun i hi => (happ i hi).2.1⟩
    have hnone : total (·.retrans) (x :: run) = 0 := total_of_none _ fun i hi => (happ i hi).2.2.1
    obtain ⟨item, extra, retrans', nextAddress', hfound, hcut⟩ :=
      getPacketFromList_run (p := P + b.sentSize) (fun _ => true) [] [] (by simp) hs
        (by simp only [bytesOf_nil, length_nil]; omega) run x (b.appList.length + 2) b.retrans b.nextAddress
        huniform (fun i hi => (happ i hi).1) (fun _ _ => rfl) hle (by simp only [bytesOf_nil, length_nil]; omega)
        (by omega) (by omega) (by rw [hlist, length_cons]; omega)
    have hfresh := hcut.fresh fun i hi => (happ i hi).2.2.1
    obtain rfl : retrans' = b.retrans := by
      have hc := hcut.count
      rw [hnone, total_of_none _ hfresh] at hc
      exact hc
    have hflag : item.retrans = false := hfresh item (by simp)
    have hnext : b.firstByteSeq.add b.sentSize = ofPosition (P + b.sentSize) := by rw [h.head, add_ofPosition]
    have hge : (ofPosition (P + b.sentSize)).ge b.firstByteSeq = true := by
      have hsent := h.sentSize
      rw [h.head, ge_ofPosition ⟨by omega, by omega⟩]
      exact decide_eq_true (Nat.le_add_right _ _)
    have hnew : NewItem b P { item with startSeq := ofPosition (P + b.sentSize), lastSent := now } extra := by
      refine ⟨?_, ?_, ?_, hcut.filled item (by simp), hcut.uniform.lost item (by simp), hflag,
        hcut.uniform.unsacked item (by simp)⟩
      · rw [hlist]
        exact hcut.bytes
      · exact fun i hi => ⟨hcut.filled i (by simp [hi]), hcut.uniform.lost i (by simp [hi]), hfresh i (by simp [hi]),
          hcut.uniform.unsacked i (by simp [hi])⟩
      · rw [h.sentSize]
    simp only [bytesOf_nil, length_nil, Nat.add_zero, append_nil, nil_append, ← hlist] at hfound
    rw [getNewSegment, hnext, hfound, Option.map_some, Option.bind_some, if_neg (by simp [hflag]), sendItem,
      if_pos hge]
    exact ⟨_, _, _, rfl, hnew, hcut.size⟩

theorem Ledger.copyRequest_new (h : Ledger b P data) (now : Int) (rounds : Nat)
    (hn : 0 < min n (data.length - b.sentSize)) :
    ∃ item app nextAddress, copyRequest now (ofPosition (P + b.sentSize)) (rounds + 1) b n =
      some ({ b with
        appList := app
        sentList := b.sentList ++ [item]
        sentSize := uint32 (b.sentSize + item.size)
        nextAddress := nextAddress }, some item) ∧ NewItem b P item app ∧
      item.size = min n (data.length - b.sentSize) := by
  have hlength := h.length_le
  have hbound := h.bound
  have hsent := h.sentSize
  have hgt : ¬ b.firstByteSeq.gt (ofPosition (P + b.sentSize)) = true := by
    rw [h.head, gt_ofPosition ⟨by omega, by omega⟩, decide_eq_true_eq]
    omega
  have hleft : b.sizeFromSequence (ofPosition (P + b.sentSize)) = data.length - b.sentSize := by
    rw [h.sizeFromSequence (Nat.le_add_right _ _) (by omega)]
    lia
  have hnext : b.firstByteSeq.add b.sentSize = ofPosition (P + b.sentSize) := by rw [h.head, add_ofPosition]
  rw [copyRequest, if_neg hgt]
  simp only [hleft]
  rw [if_neg (by omega), hnext, add_ofPosition, ge_ofPosition ⟨by omega, by omega⟩,
    le_ofPosition ⟨by omega, by omega⟩, if_neg (by rw [decide_eq_true_eq]; omega),
    if_pos (decide_eq_true (Nat.le_refl _)), if_pos rfl]
  exact h.copy_new now hn (by omega)

/-- What `TcpSocketBase` asks for: data from an item that is not sacked, or new data. -/
def Requestable (b : TcpTxBuffer) (P q : Nat) : Prop :=
  q = P + b.sentSize ∨ ∃ before x after, b.sentList = before ++ x :: after ∧ q = P + (bytesOf before).length ∧
    x.sacked = false

/-- The request does not reach over the end of the sent data and the end of the
sequence numbers at once. -/
def Straddles (b : TcpTxBuffer) (P q n : Nat) : Prop :=
  q < P + b.sentSize ∧ P + b.sentSize < q + min n (P + b.size - q) ∧
    4294967296 ≤ q % 4294967296 + min n (P + b.size - q)

theorem Requestable.bounds (h : Stream b P data) (hq : Requestable b P q) : P ≤ q ∧ q ≤ P + b.sentSize := by
  have hsent := h.sentSize
  rcases hq with rfl | ⟨before, x, after, hlist, rfl, -⟩
  · omega
  · rw [hlist, bytesOf_append, length_append] at hsent
    omega

theorem Ledger.copyRequest_sent (h : Ledger b P data) (now : Int)
    (rounds : Nat) (hlist : b.sentList = before ++ x :: after) (hx : x.sacked = false) (hn : 0 < n)
    (hle : (bytesOf before).length + min n (data.length - (bytesOf before).length) ≤ b.sentSize) :
    ∃ b' item, copyRequest now (ofPosition (P + (bytesOf before).length)) (rounds + 1) b n = some (b', some item) ∧
      Copied b now n P (P + (bytesOf before).length) b' item := by
  have hlength := h.length_le
  have hbound := h.bound
  have hlaid := h.laid
  have hxafter := length_bytesOf_cons x after
  rw [hlist, laid_append, laid_cons] at hlaid
  rw [hlist, bytesOf_append, length_append] at hlength
  have hgt : ¬ b.firstByteSeq.gt (ofPosition (P + (bytesOf before).length)) = true := by
    rw [h.head, gt_ofPosition ⟨by omega, by omega⟩, decide_eq_true_eq]
    omega
  have hleft : b.sizeFromSequence (ofPosition (P + (bytesOf before).length)) =
      data.length - (bytesOf before).length := by
    rw [h.sizeFromSequence (Nat.le_add_right _ _) (by omega)]
    lia
  have hge : (b.firstByteSeq.add b.sentSize).ge ((ofPosition (P + (bytesOf before).length)).add
      (min n (data.length - (bytesOf before).length))) = true := by
    have hsent := h.sentSize
    rw [hlist, bytesOf_append, length_append] at hsent
    rw [h.head, add_ofPosition, add_ofPosition, ge_ofPosition ⟨by lia, by lia⟩]
    exact decide_eq_true (by omega)
  rw [copyRequest, if_neg hgt]
  simp only [hleft]
  rw [if_neg (by omega), if_pos hge]
  obtain ⟨b', item, hcopy, hcopied⟩ := h.copy_sent now hlist hx (by omega) hle
  exact ⟨b', item, hcopy, hcopied.mono (Nat.min_le_left _ _)⟩

theorem Ledger.copy_nothing (h : Ledger b P data) (now : Int) (hq : Requestable b P q)
    (hn : min n (P + data.length - q) = 0) : b.copyFromSequence now n (ofPosition q) = some (b, none) := by
  have hlength := h.length_le
  have hbound := h.bound
  have hsent := h.sentSize
  have hlo := Requestable.bounds h.toStream hq
  have hgt : ¬ b.firstByteSeq.gt (ofPosition q) = true := by
    rw [h.head, gt_ofPosition ⟨by omega, by omega⟩, decide_eq_true_eq]
    omega
  rw [TcpTxBuffer.copyFromSequence, copyRequest, if_neg hgt]
  simp only [h.sizeFromSequence hlo.1 (by omega), hn, if_true]

theorem Ledger.copy_over (h : Ledger b P data) (now : Int) (hlo : P ≤ q) (hhi : q < P + b.sentSize)
    (hover : P + b.sentSize < q + min n (P + data.length - q)) :
    b.copyFromSequence now n (ofPosition q) =
      if (ofPosition q).value < (ofPosition (P + b.sentSize)).value ∧
    (ofPosition (P + b.sentSize)).value < (ofPosition (q + min n (P + data.length - q))).value then
        copyRequest now (ofPosition q) n b
    (uint32 ((ofPosition (P + b.sentSize)).value - (ofPosition q).value))
      else none := by
  have hbound := h.bound
  have hgt : ¬ b.firstByteSeq.gt (ofPosition q) = true := by
    rw [h.head, gt_ofPosition ⟨by omega, by omega⟩, decide_eq_true_eq]
    omega
  have hnext : b.firstByteSeq.add b.sentSize = ofPosition (P + b.sentSize) := by rw [h.head, add_ofPosition]
  rw [TcpTxBuffer.copyFromSequence, copyRequest, if_neg hgt]
  simp only [h.sizeFromSequence hlo (by omega)]
  rw [if_neg (by omega), hnext, add_ofPosition, ge_ofPosition ⟨by omega, by omega⟩,
    le_ofPosition ⟨by omega, by omega⟩, if_neg (by rw [decide_eq_true_eq]; omega),
    if_neg (by rw [decide_eq_true_eq]; omega)]

theorem Ledger.copy_straddles (h : Ledger b P data) (now : Int) (hq : Requestable b P q)
    (hwrap : Straddles b P q n) : b.copyFromSequence now n (ofPosition q) = none := by
  have hbound := h.bound
  have hlo := Requestable.bounds h.toStream hq
  obtain ⟨hhi, hover, hfar⟩ := hwrap
  rw [h.size] at hover hfar
  rw [h.copy_over now hlo.1 hhi hover, if_neg]
  simp only [ofPosition]
  omega

theorem ofPosition_value {p q : Nat} (hle : p ≤ q) (hfit : p % 4294967296 + (q - p) < 4294967296) :
    (ofPosition q).value = (ofPosition p).value + (q - p) := by
  simp only [ofPosition]
  omega

theorem Ledger.copy_old (h : Ledger b P data) (now : Int) {n count : Nat}
    (hlist : b.sentList = before ++ x :: after) (hx : x.sacked = false) (hold : (bytesOf before).length < b.sentSize)
    (hcount : min n (P + data.length - (P + (bytesOf before).length)) = count)
    (hover : b.sentSize < (bytesOf before).length + count)
    (hfit : (P + (bytesOf before).length) % 4294967296 + count < 4294967296) :
    ∃ b' item, b.copyFromSequence now n (ofPosition (P + (bytesOf before).length)) = some (b', some item) ∧
      Copied b now n P (P + (bytesOf before).length) b' item := by
  have hsent := ofPosition_value (q := P + b.sentSize) (p := P + (bytesOf before).length) (by lia) (by lia)
  have hend := ofPosition_value (p := P + (bytesOf before).length) (Nat.le_add_right _ count) (by omega)
  have hvalues : (ofPosition (P + (bytesOf before).length)).value < (ofPosition (P + b.sentSize)).value ∧
      (ofPosition (P + b.sentSize)).value < (ofPosition (P + (bytesOf before).length + count)).value := by
    omega
  have hamount : uint32 ((ofPosition (P + b.sentSize)).value - (ofPosition (P + (bytesOf before).length)).value) =
      b.sentSize - (bytesOf before).length := by
    rw [uint32_sub hvalues.1.le (Nat.mod_lt _ (by decide)), hsent]
    lia
  obtain ⟨k, rfl⟩ : ∃ k, n = k + 1 := ⟨n - 1, by omega⟩
  have hover' : P + b.sentSize < P + (bytesOf before).length + min (k + 1) (P + data.length - (P + (bytesOf before).length)) := by
    omega
  rw [h.copy_over now (Nat.le_add_right _ _) (by omega) hover', hcount, if_pos hvalues, hamount]
  obtain ⟨b', item, hcopy, hcopied⟩ := h.copyRequest_sent now k hlist hx
    (by lia : 0 < b.sentSize - (bytesOf before).length) (by lia)
  exact ⟨b', item, hcopy, hcopied.mono (by omega)⟩

theorem Ledger.copy_some (h : Ledger b P data) (now : Int) (hq : Requestable b P q)
    (hn : 0 < min n (P + data.length - q)) (hwrap : ¬ Straddles b P q n) :
    ∃ b' item, b.copyFromSequence now n (ofPosition q) = some (b', some item) ∧ Copied b now n P q b' item := by
  rcases hq with rfl | ⟨before, x, after, hlist, rfl, hx⟩
  · obtain ⟨item, app, nextAddress, hcopy, hitem, hcount⟩ := h.copyRequest_new now (n := n) n (by omega)
    exact ⟨_, item, hcopy, .new hitem rfl (by omega)⟩
  · obtain ⟨count, hcount⟩ : ∃ count, min n (P + data.length - (P + (bytesOf before).length)) = count := ⟨_, rfl⟩
    have hcount' : min n (data.length - (bytesOf before).length) = count := by rwa [Nat.add_sub_add_left] at hcount
    by_cases hall : (bytesOf before).length + count ≤ b.sentSize
    · have hpos : 0 < n := by omega
      obtain ⟨k, rfl⟩ : ∃ k, n = k + 1 := ⟨n - 1, by omega⟩
      exact h.copyRequest_sent now (k + 1) hlist hx hpos (by rwa [hcount'])
    · have hold : (bytesOf before).length < b.sentSize := by
        have hlaid := h.laid
        have hsent := h.sentSize
        have hxafter := length_bytesOf_cons x after
        rw [hlist, laid_append, laid_cons] at hlaid
        rw [hlist, bytesOf_append, length_append] at hsent
        omega
      refine h.copy_old now hlist hx hold hcount (by omega) ?_
      rw [Straddles, h.size, hcount] at hwrap
      omega

theorem cut_count {n retrans retrans' : Nat} {old extra : List TcpTxItem} (now : Int)
    (hcut : Cut v n old retrans item extra retrans') (hlt : retrans + (bytesOf old).length < 4294967296) :
    (if item.retrans then retrans' else uint32 (retrans' + item.size)) + total (·.retrans) old =
      retrans + total (·.retrans) ({ item with retrans := true, lastSent := now } :: extra) := by
  have hc := hcut.count
  have htotal := total_le (·.retrans) extra
  have hsize' := congrArg List.length hcut.bytes
  rw [length_bytesOf_cons] at hsize'
  rw [total_cons _ item] at hc
  rw [total_cons _ { item with retrans := true, lastSent := now }, if_pos rfl]
  cases hr : item.retrans with
  | true =>
    rw [hr, if_pos rfl] at hc
    exact hc
  | false =>
    rw [hr, if_neg Bool.false_ne_true] at hc
    rw [if_neg Bool.false_ne_true, uint32_add (by omega)]
    show retrans' + item.size + _ = retrans + (item.size + _)
    omega

theorem cut_uniform {n retrans retrans' : Nat} {old extra : List TcpTxItem} (now : Int)
    (hcut : Cut v n old retrans item extra retrans') :
    Uniform v ({ item with retrans := true, lastSent := now } :: extra) := by
  refine ⟨by simp, ?_, ?_⟩
  · simpa using hcut.uniform.unsacked
  · simpa using hcut.uniform.lost

theorem Ledger.append (h : Ledger b P data) (hitem : NewItem b P item app) (nextAddress : Nat) :
    Ledger { b with
      appList := app
      sentList := b.sentList ++ [item]
      sentSize := uint32 (b.sentSize + item.size)
      nextAddress := nextAddress } P data := by
  have hlength := h.length_le
  have hbound := h.bound
  have hsize := congrArg List.length hitem.bytes
  rw [length_append] at hsize
  refine { h with
    bytes := ?_, sentSize := ?_, laid := ?_, app := hitem.app, sackedOut := ?_, lostOut := ?_, retrans := ?_ }
  · simp only [bytesOf_append, bytesOf_cons, bytesOf_nil, append_nil, append_assoc, hitem.bytes, h.bytes]
  · have hsent := h.sentSize
    simp only [bytesOf_append, bytesOf_cons, bytesOf_nil, append_nil, length_append, ← hsent]
    exact uint32_add (by simp only [TcpTxItem.size]; omega)
  · rw [laid_append]
    exact ⟨h.laid, hitem.start, hitem.pos, trivial⟩
  · simp [h.sackedOut, hitem.sacked]
  · simp [h.lostOut, hitem.lost]
  · simp [h.retrans, hitem.retrans]

theorem Scored.append (h : Scored b P data) (hitem : NewItem b P item app) (nextAddress : Nat) :
    Scored { b with
      appList := app
      sentList := b.sentList ++ [item]
      sentSize := uint32 (b.sentSize + item.size)
      nextAddress := nextAddress } P data := by
  have hmem : ∀ i ∈ b.sentList ++ [item], i ∈ b.sentList ∨ i = item := by simp
  refine { h.ledger.append hitem nextAddress with exclusive := ?_, lostFirst := ?_, unsacked := ?_ }
  · rintro i hi ⟨hs, hl⟩
    rcases hmem i hi with hi | rfl
    · exact h.exclusive i hi ⟨hs, hl⟩
    · rw [hitem.sacked] at hs
      cases hs
  · intro hreno
    refine pairwise_append.mpr ⟨h.lostFirst hreno, pairwise_singleton _ _, ?_⟩
    intro i _ j hj hl
    rw [mem_singleton.mp hj, hitem.lost] at hl
    cases hl
  · have hh := h.unsacked
    revert hh
    cases b.sentList with
    | nil =>
      intro _ i hi
      cases hi
      exact hitem.sacked
    | cons i l => exact id

theorem NewItem.keeps (hitem : NewItem b P item app) (nextAddress : Nat) :
    Keeps b P { b with
      appList := app
      sentList := b.sentList ++ [item]
      sentSize := uint32 (b.sentSize + item.size)
      nextAddress := nextAddress } P := by
  refine ⟨rfl, fun q hq => ?_⟩
  rcases (sackedAt_append _ _ _ _).mp hq with hq | hq
  · exact hq
  · rcases hq with ⟨hs, -⟩ | hq
    · exact absurd hs (by simp [hitem.sacked])
    · exact absurd hq id

theorem Books.copied (h : Books b P data) {now : Int}
    (hcopied : Copied b now n P q b' item) : Books b' P data ∧ Keeps b P b' P := by
  cases hcopied with
  | @again before run after x item extra retrans nextAddress hlist hq hold hcut hle =>
    have hlength := h.length_le
    have hbound := h.bound
    have hretrans := total_le (·.retrans) b.sentList
    rw [← h.retrans] at hretrans
    rw [hlist, bytesOf_append, bytesOf_append, length_append, length_append] at hlength hretrans
    refine ⟨h.replace hlist hold (cut_uniform now hcut) hcut.bytes hcut.laid (cut_count now hcut (by omega)), rfl, ?_⟩
    intro q hq
    rw [hlist]
    exact SackedAt.replace (cut_uniform now hcut) hcut.bytes hq
  | new hitem hq hle =>
    refine ⟨h.of_scored (h.append hitem _) (KeepsSacked.of_mem fun i hi _ => ?_) rfl, hitem.keeps _⟩
    exact mem_append_left _ hi

theorem Books.copyFromSequence (h : Books b P data) (now : Int) (n : Nat) (hq : Requestable b P q)
    (hwrap : ¬ Straddles b P q n) :
    ∃ b' out, b.copyFromSequence now n (ofPosition q) = some (b', out) ∧ Books b' P data ∧ Keeps b P b' P := by
  by_cases hn : min n (P + data.length - q) = 0
  · exact ⟨b, none, h.ledger.copy_nothing now hq hn, h, Keeps.refl b P⟩
  · obtain ⟨b', item, hcopy, hcopied⟩ := h.ledger.copy_some now hq (Nat.pos_of_ne_zero hn) hwrap
    exact ⟨b', some item, hcopy, h.copied hcopied⟩

/-! ## Flags -/

theorem Stream.alike (h : Stream b P data) {l : List TcpTxItem} (hl : Alike b.sentList l) {lostOut sackedOut retrans : Nat}
    {highestSack : Option Nat × SequenceNumber32} :
    Stream { b with
      sentList := l, lostOut := lostOut, sackedOut := sackedOut, retrans := retrans, highestSack := highestSack } P data := by
  refine { h with bytes := ?_, sentSize := ?_, laid := hl.laid h.laid }
  · rw [hl.bytesOf_eq, h.bytes]
  · rw [hl.bytesOf_eq, h.sentSize]

theorem Stream.total_lt (h : Stream b P data) (flag : TcpTxItem → Bool) : total flag b.sentList < 2147483648 := by
  have := total_le flag b.sentList
  have := h.length_le
  have := h.bound
  omega

theorem Scored.setHead (h : Scored b P data) {head : TcpTxItem} {rest : List TcpTxItem} (head' : TcpTxItem)
    (lostOut retrans : Nat) (hlist : b.sentList = head :: rest)
    (hshape : (head'.address, head'.packet, head'.startSeq) = (head.address, head.packet, head.startSeq))
    (hs' : head'.sacked = false) (hl : head.lost = true → head'.lost = true)
    (hlostOut : lostOut = (if head'.lost then head'.size else 0) + total (·.lost) rest)
    (hretrans : retrans = (if head'.retrans then head'.size else 0) + total (·.retrans) rest) :
    Scored { b with sentList := head' :: rest, lostOut := lostOut, retrans := retrans } P data ∧
    KeepsSacked b { b with sentList := head' :: rest, lostOut := lostOut, retrans := retrans } ∧
    Keeps b P { b with sentList := head' :: rest, lostOut := lostOut, retrans := retrans } P := by
  have hhead : head.sacked = false := h.unsacked head (by simp [hlist])
  have halike : Alike b.sentList (head' :: rest) := by
    rw [hlist]
    exact Alike.cons hshape (Alike.refl rest)
  have hsize : head'.size = head.size := congrArg List.length (Prod.mk.inj (Prod.mk.inj hshape).2).1
  refine ⟨{ h.toStream.alike halike with
    sackedOut := ?_, lostOut := hlostOut, retrans := hretrans, exclusive := ?_, lostFirst := ?_, unsacked := ?_ },
    KeepsSacked.of_mem ?_, rfl, ?_⟩
  · rw [h.sackedOut, hlist, total_cons, total_cons, hhead, hs', hsize]
  · rintro i hi ⟨hs, hl⟩
    rcases mem_cons.mp hi with rfl | hi
    · rw [hs'] at hs
      cases hs
    · exact h.exclusive i (by simp [hlist, hi]) ⟨hs, hl⟩
  · intro hreno
    have hfirst := h.lostFirst hreno
    rw [hlist, LostFirst, pairwise_cons] at hfirst
    exact pairwise_cons.mpr ⟨fun j hj hlost => hl (hfirst.1 j hj hlost), hfirst.2⟩
  · intro i hi
    cases hi
    exact hs'
  · intro i hi hs
    rw [hlist] at hi
    rcases mem_cons.mp hi with rfl | hi
    · rw [hhead] at hs
      cases hs
    · exact mem_cons_of_mem _ hi
  · intro q hq
    rw [hlist]
    rcases hq with ⟨hs, -⟩ | hq
    · rw [hs'] at hs
      cases hs
    · exact .inr (hsize ▸ hq)

theorem Scored.markHeadAsLost (h : Scored b P data) :
    Scored b.markHeadAsLost P data ∧ KeepsSacked b b.markHeadAsLost ∧ b.markHeadAsLost.highestSack = b.highestSack ∧
      Keeps b P b.markHeadAsLost P := by
  unfold TcpTxBuffer.markHeadAsLost
  cases hlist : b.sentList with
  | nil => exact ⟨h, KeepsSacked.of_mem fun i hi _ => hi, rfl, Keeps.refl b P⟩
  | cons head rest =>
    have hhead : head.sacked = false := h.unsacked head (by simp [hlist])
    have hlost := h.lostOut
    have hretrans := h.retrans
    have hbound := h.total_lt (·.retrans)
    have hlength := h.length_le
    have hle := total_le (·.lost) rest
    have hdata := h.bound
    rw [hlist, total_cons] at hlost hretrans
    rw [← h.retrans] at hbound
    rw [hlist, length_bytesOf_cons] at hlength
    have hsackedOut : (if head.sacked then uint32 (b.sackedOut - head.size) else b.sackedOut) = b.sackedOut := by
      rw [hhead]
      rfl
    have hset := count_set hlost (by omega)
    have hclear := count_clear hretrans (by omega)
    obtain ⟨h', hkept, hkeeps⟩ := h.setHead { head with sacked := false, retrans := false, lost := true } _ _ hlist rfl
      rfl (fun _ => rfl) hset (hclear.trans (Nat.zero_add _).symm)
    dsimp only
    rw [hsackedOut]
    exact ⟨h', hkept, rfl, hkeeps⟩

theorem Books.markHeadAsLost (h : Books b P data) : Books b.markHeadAsLost P data ∧ Keeps b P b.markHeadAsLost P := by
  obtain ⟨h', hkept, hsame, hkeeps⟩ := h.toScored.markHeadAsLost
  exact ⟨h.of_scored h' hkept hsame, hkeeps⟩

/-- The item a Reno acknowledgment is counted on is not lost. -/
def RenoTarget (b : TcpTxBuffer) : Prop :=
  b.sentList ≠ [] ∧ ∀ i ∈ (b.sentList.tail.dropWhile (·.sacked)).head?, i.lost = false

theorem Scored.addRenoSack (h : Scored b P data) (hmode : b.sackEnabled = false) (htarget : RenoTarget b) :
    ∃ b', b.addRenoSack = some b' ∧ Scored b' P data ∧ KeepsSacked b b' ∧ b'.sackEnabled = false ∧
      (b'.highestSack = b.highestSack ∨
        ∃ i ∈ b'.sentList, i.sacked = true ∧ b'.highestSack = (some i.address, i.startSeq)) := by
  obtain ⟨hne, hnotlost⟩ := htarget
  have hlength : (if b.sackEnabled then 1 else 0) < b.sentList.length := by
    rw [hmode]
    exact length_pos_iff.mpr hne
  rw [TcpTxBuffer.addRenoSack, if_pos hlength]
  cases hlist : b.sentList with
  | nil => exact absurd hlist hne
  | cons head rest =>
    rw [hlist, tail_cons] at hnotlost
    dsimp only
    cases hrest : rest.dropWhile (·.sacked) with
    | nil => exact ⟨b, rfl, h, KeepsSacked.of_mem fun _ hi _ => hi, hmode, .inl rfl⟩
    | cons item after =>
      have hitem : item.lost = false := hnotlost item (by simp [hrest])
      have hunsacked : item.sacked = false := by
        have := head?_dropWhile_not (·.sacked) rest
        rw [hrest] at this
        simpa using this
      have hsplit : b.sentList = head :: (rest.takeWhile (·.sacked) ++ item :: after) := by
        rw [hlist, ← hrest, takeWhile_append_dropWhile]
      have halike : Alike b.sentList (head :: (rest.takeWhile (·.sacked) ++ { item with sacked := true } :: after)) := by
        rw [hsplit]
        exact Alike.cons rfl (Alike.append (Alike.refl _) (Alike.cons rfl (Alike.refl _)))
      have hmem : ∀ i ∈ head :: (rest.takeWhile (·.sacked) ++ { item with sacked := true } :: after),
          i ∈ b.sentList ∨ i = { item with sacked := true } := by
        intro i hi
        rw [hsplit]
        simp only [mem_cons, mem_append] at hi ⊢
        tauto
      refine ⟨_, rfl, { h.toStream.alike halike with
        sackedOut := ?_, lostOut := ?_, retrans := ?_, exclusive := ?_, lostFirst := ?_, unsacked := ?_ },
        KeepsSacked.of_mem ?_, hmode, .inr ⟨{ item with sacked := true }, by simp, rfl, rfl⟩⟩
      · have htotal : total (·.sacked) (head :: (rest.takeWhile (·.sacked) ++ { item with sacked := true } :: after)) =
            b.sackedOut + item.size := by
          rw [h.sackedOut, hsplit]
          simp only [total_cons, total_append, hunsacked, if_true, Bool.false_eq_true, if_false]
          show _ + (_ + (item.size + _)) = _
          omega
        have hlt := total_le (·.sacked) (head :: (rest.takeWhile (·.sacked) ++ { item with sacked := true } :: after))
        have hlength := h.length_le
        have hbound := h.bound
        rw [halike.bytesOf_eq, htotal] at hlt
        rw [htotal]
        exact uint32_add (by omega)
      · rw [h.lostOut, hsplit]
        simp only [total_cons, total_append]
      · rw [h.retrans, hsplit]
        simp only [total_cons, total_append]
      · rintro i hi ⟨hs, hl⟩
        rcases hmem i hi with hi | rfl
        · exact h.exclusive i hi ⟨hs, hl⟩
        · rw [hitem] at hl
          cases hl
      · intro _
        refine (h.lostFirst hmode).congr ?_
        rw [hsplit]
        simp
      · intro i hi
        cases hi
        exact h.unsacked head (by simp [hlist])
      · intro i hi hs
        rw [hsplit] at hi
        simp only [mem_cons, mem_append] at hi ⊢
        rcases hi with hi | hi | rfl | hi
        · exact .inl hi
        · exact .inr (.inl hi)
        · rw [hunsacked] at hs
          cases hs
        · exact .inr (.inr (.inr hi))

theorem Books.addRenoSack (h : Books b P data) (hmode : b.sackEnabled = false) (htarget : RenoTarget b) :
    ∃ b', b.addRenoSack = some b' ∧ Books b' P data ∧ b'.sackEnabled = false := by
  obtain ⟨b', hb', h', hkept, hmode', hsame | ⟨i, hi, hs, hhighest⟩⟩ := h.toScored.addRenoSack hmode htarget
  · exact ⟨b', hb', h.of_scored h' hkept hsame, hmode'⟩
  · refine ⟨b', hb', { h' with highest := ?_ }, hmode'⟩
    intro a ha
    rw [hhighest] at ha ⊢
    cases ha
    exact ⟨i, hi, rfl, hs, rfl⟩

def unsack (item : TcpTxItem) : TcpTxItem := { item with sacked := false }

theorem Books.resetRenoSack (h : Books b P data) : Books b.resetRenoSack P data ∧ Keeps b P b.resetRenoSack P := by
  have halike : Alike b.sentList (b.sentList.map unsack) := by
    apply alike_map
    intro i
    rfl
  have hnone : ∀ i ∈ b.sentList.map unsack, i.sacked = false := by simp [unsack]
  refine ⟨{ h.toStream.alike halike with
    sackedOut := ?_, lostOut := ?_, retrans := ?_, exclusive := ?_, lostFirst := ?_, unsacked := ?_, highest := ?_ },
    rfl, ?_⟩
  · exact (total_of_none _ hnone).symm
  · exact h.lostOut.trans (total_map _ unsack (fun _ => rfl) (fun _ => rfl) _).symm
  · exact h.retrans.trans (total_map _ unsack (fun _ => rfl) (fun _ => rfl) _).symm
  · rintro i hi ⟨hs, -⟩
    rw [hnone i hi] at hs
    cases hs
  · intro hreno
    refine (h.lostFirst hreno).congr ?_
    show (b.sentList.map unsack).map (·.lost) = _
    rw [List.map_map]
    rfl
  · intro i hi
    exact hnone i (mem_of_mem_head? hi)
  · intro a ha
    cases ha
  · intro q hq
    exact absurd hq (not_sackedAt_of_unsacked hnone)

theorem Stream.resetSentList (h : Stream b P data) : Stream b.resetSentList P data := by
  have halike : Alike b.sentList
      (b.sentList.map fun item => { item with retrans := false, sacked := false, lost := false }) := by
    apply alike_map
    intro i
    rfl
  refine { h with bytes := ?_, sentSize := rfl, laid := trivial, app := ?_ }
  · rw [← h.bytes]
    simp [TcpTxBuffer.resetSentList, halike.bytesOf_eq]
  · intro i hi
    rcases mem_append.mp hi with hi | hi
    · obtain ⟨j, hj, rfl⟩ := List.mem_map.mp hi
      obtain ⟨-, -, -, -, hpos⟩ := h.laid.split hj
      exact ⟨hpos, rfl, rfl, rfl⟩
    · exact h.app i hi

theorem Books.resetSentList (h : Books b P data) : Books b.resetSentList P data ∧ Keeps b P b.resetSentList P := by
  refine ⟨{ h.toStream.resetSentList with
    sackedOut := rfl, lostOut := rfl, retrans := rfl, exclusive := ?_, lostFirst := ?_, unsacked := ?_, highest := ?_ }, rfl, ?_⟩
  · intro i hi
    cases hi
  · intro _
    exact List.Pairwise.nil
  · intro i hi
    cases hi
  · intro a ha
    cases ha
  · intro q hq
    exact absurd hq id

theorem Books.deleteRetransmittedFlagFromHead (h : Books b P data) :
    ∃ b', b.deleteRetransmittedFlagFromHead = some b' ∧ Books b' P data ∧ Keeps b P b' P := by
  rw [TcpTxBuffer.deleteRetransmittedFlagFromHead]
  split
  · exact ⟨b, rfl, h, Keeps.refl b P⟩
  · rename_i hsent
    cases hlist : b.sentList with
    | nil =>
      rw [h.sentSize, hlist] at hsent
      exact absurd rfl hsent
    | cons head rest =>
      dsimp only
      split
      · rename_i hr
        have hretrans := h.retrans
        have hlost := h.lostOut
        have hbound := h.total_lt (·.retrans)
        have hhead : head.sacked = false := h.unsacked head (by simp [hlist])
        rw [hlist, total_cons] at hretrans hlost
        rw [← h.retrans] at hbound
        have hcount := count_clear hretrans (by omega)
        rw [if_pos hr] at hcount
        obtain ⟨h', hkept, hkeeps⟩ := h.setHead { head with retrans := false } _ _ hlist rfl hhead id hlost
          (hcount.trans (Nat.zero_add _).symm)
        exact ⟨_, rfl, h.of_scored h' hkept rfl, hkeeps⟩
      · exact ⟨b, rfl, h, Keeps.refl b P⟩

def loseItem (item : TcpTxItem) : TcpTxItem := { item with lost := item.lost || !item.sacked, retrans := false }

theorem loseUnsacked_eq : ∀ (l : List TcpTxItem) (lostOut : Nat), lostOut + (bytesOf l).length < 4294967296 →
    loseUnsacked l lostOut = (l.map loseItem, lostOut + total (·.lost) (l.map loseItem))
  | [], _, _ => rfl
  | item :: l, lostOut, hlt => by
    rw [length_bytesOf_cons] at hlt
    simp only [loseUnsacked, List.map_cons, total_cons]
    cases hl : (item.lost || !item.sacked) with
    | false =>
      simp only [Bool.false_eq_true, if_false]
      rw [loseUnsacked_eq l lostOut (by omega)]
      simp [loseItem, hl]
    | true =>
      simp only [if_true]
      rw [uint32_add (by omega), loseUnsacked_eq l (lostOut + item.size) (by omega)]
      simp [loseItem, hl, Nat.add_assoc]

theorem Books.setSentListLost (h : Books b P data) :
    ∃ b', b.setSentListLost (!b.sackEnabled) = some b' ∧ Books b' P data ∧ Keeps b P b' P := by
  have hlength := h.length_le
  have hbound := h.bound
  -- without SACK the marks are guesses, and forgotten
  cases hmode : b.sackEnabled with
  | false =>
    have halike : Alike b.sentList
        (b.sentList.map fun item => { item with sacked := false, lost := true, retrans := false }) := by
      apply alike_map
      intro i
      rfl
    have hflags : ∀ i ∈ b.sentList.map fun item => { item with sacked := false, lost := true, retrans := false },
        i.sacked = false ∧ i.lost = true ∧ i.retrans = false := by simp
    have hbooks : Books { b with
        retrans := 0
        sackedOut := 0
        lostOut := b.sentSize
        highestSack := (none, ⟨0⟩)
        sentList := b.sentList.map fun item => { item with sacked := false, lost := true, retrans := false } }
        P data := by
      refine { h.toStream.alike halike with
        sackedOut := ?_, lostOut := ?_, retrans := ?_, exclusive := ?_, lostFirst := ?_, unsacked := ?_, highest := ?_ }
      · exact (total_of_none _ fun i hi => (hflags i hi).1).symm
      · rw [total_of_all _ fun i hi => (hflags i hi).2.1, halike.bytesOf_eq]
        exact h.sentSize
      · exact (total_of_none _ fun i hi => (hflags i hi).2.2).symm
      · rintro i hi ⟨hs, -⟩
        rw [(hflags i hi).1] at hs
        cases hs
      · intro _
        exact lostFirst_of_all fun i hi => (hflags i hi).2.1
      · intro i hi
        exact (hflags i (mem_of_mem_head? hi)).1
      · intro a ha
        cases ha
    refine ⟨_, if_pos hbooks.leftOut_le, hbooks, rfl, ?_⟩
    intro q hq
    exact absurd hq (not_sackedAt_of_unsacked fun i hi => (hflags i hi).1)
  | true =>
    have halike : Alike b.sentList (b.sentList.map loseItem) := by
      apply alike_map
      intro i
      rfl
    have hlose := loseUnsacked_eq b.sentList 0 (by omega)
    have hscored : Scored { b with
        retrans := 0, sentList := (loseUnsacked b.sentList 0).1, lostOut := (loseUnsacked b.sentList 0).2 } P data := by
      rw [hlose, Nat.zero_add]
      refine { h.toStream.alike halike with
        sackedOut := ?_, lostOut := rfl, retrans := ?_, exclusive := ?_, lostFirst := ?_, unsacked := ?_ }
      · exact h.sackedOut.trans (total_map _ loseItem (fun _ => rfl) (fun _ => rfl) _).symm
      · exact (total_of_none _ (by simp [loseItem])).symm
      · rintro i hi ⟨hs, hl⟩
        obtain ⟨j, hj, rfl⟩ := List.mem_map.mp hi
        simp only [loseItem, Bool.or_eq_true, Bool.not_eq_true'] at hs hl
        rcases hl with hl | hl
        · exact h.exclusive j hj ⟨hs, hl⟩
        · rw [hl] at hs
          cases hs
      · intro hreno
        rw [hmode] at hreno
        cases hreno
      · intro i hi
        have hhead := h.unsacked
        revert hi hhead
        cases b.sentList with
        | nil => intro hi; cases hi
        | cons head rest =>
          intro hi hhead
          cases hi
          exact hhead head rfl
    have hbooks := h.of_scored hscored ?_ rfl
    · refine ⟨_, if_pos hbooks.leftOut_le, hbooks, rfl, ?_⟩
      intro q hq
      rw [hlose] at hq
      exact SackedAt.of_map loseItem (fun _ => rfl) (fun _ hs => hs) hq
    · intro i hi hs
      rw [hlose]
      exact ⟨loseItem i, List.mem_map_of_mem hi, rfl, hs, rfl⟩

end

end TcpTxBuffer

end Ns3
