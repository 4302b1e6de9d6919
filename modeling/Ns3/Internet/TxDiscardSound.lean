import Ns3.Internet.TxBufferSound

/-!
# Cumulative acknowledgments

`DiscardUpTo` removes the acknowledged bytes item by item. On the way the first
item may be sacked, and the iterator to the highest sacked item may dangle;
`Discarding` says what holds all along. At the end the iterator is dropped when
its sequence number has been passed.
-/

namespace Ns3

open List Option

namespace TcpTxBuffer

open SequenceNumber32

/-- The iterator stands at a sacked item, unless its number has been passed. -/
def Watched (b : TcpTxBuffer) (Q P : Nat) : Prop :=
  ∀ a, b.highestSack.1 = some a → ∃ q, b.highestSack.2 = ofPosition q ∧ Q ≤ q ∧ q < Q + 2147483648 ∧
    (P < q → ∃ i ∈ b.sentList, i.address = a ∧ i.sacked = true ∧ i.startSeq = ofPosition q)

/-- The books on the way from position `Q` to position `P`. -/
structure Discarding (b : TcpTxBuffer) (Q P : Nat) (data : Bytes) : Prop extends Stream b P data, Counted b where
  reached : Q ≤ P
  near : P + data.length < Q + 2147483648
  watched : Watched b Q P

section
variable {b : TcpTxBuffer} {Q P : Nat} {data : Bytes}

theorem Books.discarding (h : Books b P data) : Discarding b P P data := by
  have hlength := h.length_le
  have hbound := h.bound
  refine { h with reached := Nat.le_refl P, near := by omega, watched := ?_ }
  intro a ha
  obtain ⟨i, hi, haddr, hs, hstart⟩ := h.highest a ha
  obtain ⟨before, after, hlist, hpos, -⟩ := h.laid.split hi
  rw [hlist, bytesOf_append, length_append] at hlength
  exact ⟨_, hstart.symm.trans hpos, by omega, by omega, fun _ => ⟨i, hi, haddr, hs, hpos⟩⟩

variable {item : TcpTxItem} {n k A : Nat} {rest : List TcpTxItem}

theorem removeFromCounts_eq {n sackedOut lostOut retrans : Nat}
    (hs : b.sackedOut = (if item.sacked then n else 0) + sackedOut)
    (hl : b.lostOut = (if item.lost then n else 0) + lostOut)
    (hr : b.retrans = (if item.retrans then n else 0) + retrans)
    (hs' : b.sackedOut < 4294967296) (hl' : b.lostOut < 4294967296) (hr' : b.retrans < 4294967296) :
    b.removeFromCounts item n = some { b with sackedOut := sackedOut, lostOut := lostOut, retrans := retrans } := by
  have hguard : (item.sacked = true → n ≤ b.sackedOut) ∧ (item.retrans = true → n ≤ b.retrans) ∧
      (item.lost = true → n ≤ b.lostOut) := by
    refine ⟨fun h => ?_, fun h => ?_, fun h => ?_⟩
    · rw [hs, if_pos h]
      omega
    · rw [hr, if_pos h]
      omega
    · rw [hl, if_pos h]
      omega
  rw [removeFromCounts, if_pos hguard, count_clear hs hs', count_clear hl hl', count_clear hr hr']

def remainder (item : TcpTxItem) (n : Nat) : List TcpTxItem :=
  if item.size ≤ n then [] else [{ item with packet := item.packet.drop n, startSeq := item.startSeq.add n }]

theorem bytesOf_remainder (item : TcpTxItem) (n : Nat) : bytesOf (remainder item n) = item.packet.drop n := by
  unfold remainder
  split
  · rename_i hn
    rw [drop_eq_nil_of_le hn, bytesOf_nil]
  · simp

theorem mem_remainder {item i : TcpTxItem} (hi : i ∈ remainder item n) :
    i.sacked = item.sacked ∧ i.lost = item.lost ∧ i.retrans = item.retrans := by
  unfold remainder at hi
  split at hi
  · cases hi
  · rw [mem_singleton.mp hi]
    exact ⟨rfl, rfl, rfl⟩

theorem total_remainder {flag : TcpTxItem → Bool} (hn : n ≤ item.size)
    (hflag : ∀ i ∈ remainder item n, flag i = flag item) :
    (if flag item then item.size else 0) = (if flag item then n else 0) + total flag (remainder item n) := by
  have hsize : (bytesOf (remainder item n)).length = item.size - n := by rw [bytesOf_remainder, length_drop]
  cases hitem : flag item with
  | true =>
    rw [total_of_all flag fun i hi => (hflag i hi).trans hitem, hsize]
    simp only [if_true]
    omega
  | false =>
    rw [total_of_none flag fun i hi => (hflag i hi).trans hitem]
    rfl

theorem laid_remainder (hstart : item.startSeq = ofPosition P) : Laid (P + n) (remainder item n) := by
  unfold remainder
  split
  · trivial
  · rename_i hn
    refine ⟨?_, ?_, trivial⟩
    · rw [hstart, add_ofPosition]
    · simp only [TcpTxItem.size, length_drop] at hn ⊢
      omega

theorem sackedAt_remainder {n q : Nat} (h : SackedAt (P + n) (remainder item n) q) :
    item.sacked = true ∧ P ≤ q ∧ q < P + item.size := by
  unfold remainder at h
  split at h
  · exact absurd h id
  · rename_i hn
    simp only [sackedAt_cons, sackedAt_nil, or_false, TcpTxItem.size, length_drop] at h hn ⊢
    exact ⟨h.1, by omega, by omega⟩

def dropBytes (k : Nat) : List TcpTxItem → List TcpTxItem
  | [] => []
  | item :: rest => if k = 0 then item :: rest else remainder item k ++ dropBytes (k - item.size) rest

@[simp] theorem dropBytes_zero (l : List TcpTxItem) : dropBytes 0 l = l := by
  cases l <;> rfl

theorem dropBytes_whole (hk : 0 < k) (hle : item.size ≤ k) :
    dropBytes k (item :: rest) = dropBytes (k - item.size) rest := by
  rw [dropBytes, if_neg (by omega), remainder, if_pos hle, nil_append]

theorem dropBytes_part (hk : 0 < k) (hlt : k < item.size) : dropBytes k (item :: rest) = remainder item k ++ rest := by
  rw [dropBytes, if_neg (by omega), Nat.sub_eq_zero_of_le (by omega), dropBytes_zero]

theorem dropBytes_all : ∀ {l : List TcpTxItem} {p k : Nat}, Laid p l → (bytesOf l).length ≤ k → dropBytes k l = []
  | [], _, _, _, _ => rfl
  | item :: rest, p, k, hlaid, hk => by
    have hpos := hlaid.2.1
    rw [length_bytesOf_cons] at hk
    rw [dropBytes_whole (by omega) (by omega)]
    apply dropBytes_all hlaid.2.2
    omega

theorem mem_dropBytes : ∀ {l : List TcpTxItem} {k : Nat} {i : TcpTxItem}, i ∈ dropBytes k l →
    ∃ j ∈ l, i.address = j.address ∧ i.sacked = j.sacked ∧ i.lost = j.lost ∧ i.retrans = j.retrans
  | [], _, _, hi => by cases hi
  | item :: rest, k, i, hi => by
    rw [dropBytes] at hi
    split at hi
    · exact ⟨i, hi, rfl, rfl, rfl, rfl⟩
    · rcases List.mem_append.mp hi with hi | hi
      · have haddress : i.address = item.address := by
          unfold remainder at hi
          split at hi
          · cases hi
          · rw [mem_singleton.mp hi]
        obtain ⟨hs, hl, hr⟩ := mem_remainder hi
        exact ⟨item, by simp, haddress, hs, hl, hr⟩
      · obtain ⟨j, hj, hflags⟩ := mem_dropBytes hi
        exact ⟨j, mem_cons_of_mem _ hj, hflags⟩

theorem LostFirst.dropBytes : ∀ {l : List TcpTxItem} {k : Nat}, LostFirst l → LostFirst (dropBytes k l)
  | [], _, _ => List.Pairwise.nil
  | item :: rest, k, h => by
    obtain ⟨hitem, hrest⟩ := pairwise_cons.mp h
    rw [TcpTxBuffer.dropBytes]
    split
    · exact h
    · refine pairwise_append.mpr ⟨?_, LostFirst.dropBytes hrest, ?_⟩
      · unfold remainder
        split
        · exact List.Pairwise.nil
        · exact pairwise_singleton _ _
      · intro i hi j hj hl
        obtain ⟨j', hj', -, -, hl', -⟩ := mem_dropBytes hj
        rw [(mem_remainder hi).2.1]
        exact hitem j' hj' (hl' ▸ hl)

theorem mem_dropBytes_of_behind : ∀ {l : List TcpTxItem} {P k q : Nat} {i : TcpTxItem}, Laid P l →
    (bytesOf l).length < 2147483648 → i ∈ l → i.startSeq = ofPosition q → P + k ≤ q → q < P + 2147483648 →
    i ∈ dropBytes k l
  | [], _, _, _, _, _, _, hi, _, _, _ => hi
  | item :: rest, P, k, q, i, hlaid, hlen, hi, hstart, hle, hfar => by
    rw [laid_cons] at hlaid
    rw [length_bytesOf_cons] at hlen
    rw [dropBytes]
    split
    · exact hi
    · rename_i hk
      rcases List.mem_cons.mp hi with rfl | hi
      · rw [hlaid.1, ofPosition_inj ⟨by omega, by omega⟩] at hstart
        omega
      · obtain ⟨before, after, rfl, hstart', hpos⟩ := hlaid.2.2.split hi
        rw [bytesOf_append, length_append] at hlen
        rw [hstart', ofPosition_inj ⟨by omega, by omega⟩] at hstart
        refine mem_append_right _ (mem_dropBytes_of_behind hlaid.2.2 ?_ hi hstart' ?_ (by omega))
        · rw [bytesOf_append, length_append]
          omega
        · omega

theorem sackedAt_dropBytes : ∀ {l : List TcpTxItem} {P k q : Nat}, k ≤ (bytesOf l).length →
    SackedAt (P + k) (dropBytes k l) q → SackedAt P l q
  | [], P, k, q, _, h => absurd h id
  | item :: rest, P, k, q, hk, h => by
    rw [length_bytesOf_cons] at hk
    rw [dropBytes] at h
    split at h
    · rename_i hzero
      rwa [hzero, Nat.add_zero] at h
    · have hleft : (bytesOf (remainder item k)).length = item.size - k := by
        rw [bytesOf_remainder, length_drop]
      rcases (sackedAt_append _ _ _ _).mp h with h | h
      · exact .inl (sackedAt_remainder h)
      · refine .inr (sackedAt_dropBytes (k := k - item.size) (by omega) ?_)
        rw [hleft] at h
        have hpos : P + item.size + (k - item.size) = P + k + (item.size - k) := by omega
        rwa [hpos]

/-- What a discarded prefix of `k` bytes leaves alone. -/
structure Dropped (b : TcpTxBuffer) (k : Nat) (b' : TcpTxBuffer) : Prop where
  sentList : b'.sentList = dropBytes k b.sentList
  highestSack : b'.highestSack = b.highestSack
  sackEnabled : b'.sackEnabled = b.sackEnabled
  dupAckThresh : b'.dupAckThresh = b.dupAckThresh

theorem Ledger.cut (h : Ledger b P data) (hlist : b.sentList = item :: rest) (hn : n ≤ item.size) :
    ∃ sackedOut lostOut retrans, (b.advance n).removeFromCounts item n =
        some { b.advance n with sackedOut := sackedOut, lostOut := lostOut, retrans := retrans } ∧
      Ledger { b.advance n with
        sackedOut := sackedOut, lostOut := lostOut, retrans := retrans, sentList := remainder item n ++ rest }
        (P + n) (data.drop n) := by
  have hlaid := h.laid
  have hlength := h.length_le
  have hbound := h.bound
  have hleft : (bytesOf (remainder item n)).length = item.size - n := by rw [bytesOf_remainder, length_drop]
  have hbytes : bytesOf (remainder item n ++ rest) = (bytesOf b.sentList).drop n := by
    rw [hlist, bytesOf_append, bytesOf_cons, bytesOf_remainder, drop_append_of_le_length hn]
  have hsent : n ≤ (bytesOf b.sentList).length := by
    rw [hlist, length_bytesOf_cons]
    omega
  have hcount : ∀ flag : TcpTxItem → Bool, (∀ i ∈ remainder item n, flag i = flag item) →
      total flag b.sentList = (if flag item then n else 0) + total flag (remainder item n ++ rest) := by
    intro flag hflag
    have hitem := total_remainder hn hflag
    rw [hlist, total_cons, total_append]
    omega
  have hlt : ∀ flag, total flag b.sentList < 4294967296 := by
    intro flag
    have hle := total_le flag b.sentList
    omega
  rw [hlist, laid_cons] at hlaid
  refine ⟨_, _, _, removeFromCounts_eq (h.sackedOut.trans (hcount (·.sacked) fun i hi => (mem_remainder hi).1))
    (h.lostOut.trans (hcount (·.lost) fun i hi => (mem_remainder hi).2.1))
    (h.retrans.trans (hcount (·.retrans) fun i hi => (mem_remainder hi).2.2)) (h.sackedOut ▸ hlt _)
    (h.lostOut ▸ hlt _) (h.retrans ▸ hlt _), ⟨⟨?_, ?_, ?_, ?_, ?_, ?_, h.app⟩, rfl, rfl, rfl⟩⟩
  · show b.firstByteSeq.add n = ofPosition (P + n)
    rw [h.head, add_ofPosition]
  · show bytesOf (remainder item n ++ rest) ++ bytesOf b.appList = data.drop n
    rw [hbytes, ← h.bytes, drop_append_of_le_length hsent]
  · rw [length_drop]
    omega
  · show uint32 (b.size - n) = (data.drop n).length
    rw [h.size, uint32_sub (by omega) (by omega), length_drop]
  · show uint32 (b.sentSize - n) = (bytesOf (remainder item n ++ rest)).length
    rw [h.sentSize, uint32_sub (by omega) (by omega), hbytes, length_drop]
  · show Laid (P + n) (remainder item n ++ rest)
    rw [laid_append, hleft]
    refine ⟨laid_remainder hlaid.1, ?_⟩
    rw [Nat.add_assoc, Nat.add_sub_cancel' hn]
    exact hlaid.2.2

/-! ## The loop -/

theorem Ledger.fillSentList (h : Ledger b P data) (now : Int) {offset : Nat} (hoffset : 0 < offset)
    (hdata : 0 < data.length) :
    ∃ b' item rest, b.fillSentList now offset = some b' ∧ Ledger b' P data ∧ b'.highestSack = b.highestSack ∧
      b'.sackEnabled = b.sackEnabled ∧ b'.dupAckThresh = b.dupAckThresh ∧ b'.sentList = item :: rest ∧
      (b.sentList = item :: rest ∨ b.sentList = [] ∧ rest = [] ∧ item.size = min offset data.length) := by
  unfold TcpTxBuffer.fillSentList
  cases hlist : b.sentList with
  | cons item rest => exact ⟨b, item, rest, rfl, h, rfl, rfl, rfl, hlist, .inl rfl⟩
  | nil =>
    have hsent : b.sentSize = 0 := by rw [h.sentSize, hlist]; rfl
    obtain ⟨item, app, nextAddress, hcopy, hitem, hsize⟩ := h.copyRequest_new now (n := offset) offset (by omega)
    rw [hsent, Nat.add_zero, ← h.head] at hcopy
    rw [hsent, Nat.sub_zero] at hsize
    refine ⟨_, item, [], ?_, h.append hitem nextAddress, rfl, rfl, rfl, by rw [hlist, nil_append],
      .inr ⟨rfl, rfl, hsize⟩⟩
    dsimp only
    rw [copyFromSequence, hcopy]
    simp [hsent]

theorem discardLoop_stop (now : Int) (rounds : Nat) {offset : Nat} (h : ¬ (0 < b.size ∧ 0 < offset)) :
    discardLoop now (rounds + 1) b offset = some b := by
  rw [discardLoop, if_neg h]

theorem Ledger.discardLoop (now : Int) : ∀ (rounds : Nat) (b : TcpTxBuffer) (P : Nat) (data : Bytes) (offset : Nat),
    Ledger b P data → b.sentList.length + 2 ≤ rounds → ∃ b', TcpTxBuffer.discardLoop now rounds b offset = some b' ∧
      Ledger b' (P + min offset data.length) (data.drop (min offset data.length)) ∧
      Dropped b (min offset data.length) b'
  | 0, _, _, _, _, _, hrounds => by omega
  | rounds + 1, b, P, data, offset, h, hrounds => by
    by_cases hgo : 0 < b.size ∧ 0 < offset
    · have hsize := h.size
      obtain ⟨b₁, item, rest, hfill, h₁, hhighest₁, hmode₁, hthresh₁, hlist, hcase⟩ :=
        h.fillSentList now hgo.2 (by omega)
      have hlength := h₁.length_le
      have hitem := length_bytesOf_cons item rest
      have hlaid := h₁.laid
      rw [hlist] at hlength hlaid
      have hstart : item.startSeq = b₁.firstByteSeq := by rw [hlaid.1, h₁.head]
      rw [TcpTxBuffer.discardLoop, if_pos hgo, hfill, bind_some]
      simp only [hlist]
      rw [if_pos hstart]
      by_cases hle : item.size ≤ offset
      · -- the whole item
        obtain ⟨sackedOut, lostOut, retrans, hb₂, h₂⟩ := h₁.cut hlist (Nat.le_refl item.size)
        rw [if_pos hle, hb₂, bind_some]
        have hnil : remainder item item.size = [] := if_pos (Nat.le_refl _)
        rw [hnil, nil_append] at h₂
        rcases hcase with hcase | ⟨hcase, rfl, hfull⟩
        · have hlength' : rest.length + 2 ≤ rounds := by
            rw [hcase, length_cons] at hrounds
            omega
          obtain ⟨b', hb', h', hdropped⟩ := Ledger.discardLoop now rounds _ (P + item.size)
            (data.drop item.size) (offset - item.size) h₂ hlength'
          have hmin : item.size + min (offset - item.size) (data.drop item.size).length = min offset data.length := by
            rw [length_drop]
            lia
          rw [Nat.add_assoc, drop_drop, hmin] at h'
          have hpos := hlaid.2.1
          refine ⟨b', hb', h', ?_, hdropped.highestSack.trans hhighest₁, hdropped.sackEnabled.trans hmode₁,
            hdropped.dupAckThresh.trans hthresh₁⟩
          rw [hdropped.sentList, hcase, dropBytes_whole (by lia) (by lia)]
          congr 1
          omega
        · -- the data was not sent yet, and all of it that is acknowledged is gone
          obtain ⟨k, rfl⟩ : ∃ k, rounds = k + 1 := ⟨rounds - 1, by omega⟩
          have hend : ¬ (0 < uint32 (b₁.size - item.size) ∧ 0 < offset - item.size) := by
            have hsize₂ : uint32 (b₁.size - item.size) = (data.drop item.size).length := h₂.size
            rw [hsize₂, length_drop]
            omega
          rw [← hfull]
          refine ⟨_, discardLoop_stop now k hend, h₂, ?_, hhighest₁, hmode₁, hthresh₁⟩
          rw [hcase]
          rfl
      · -- a part of the item
        obtain ⟨sackedOut, lostOut, retrans, hb₂, h₂⟩ := h₁.cut hlist (Nat.le_of_lt (Nat.not_le.mp hle))
        rw [if_neg hle, hb₂, map_some]
        have hpart : remainder item offset =
            [{ item with packet := item.packet.drop offset, startSeq := item.startSeq.add offset }] := if_neg hle
        have hmin : min offset data.length = offset := by lia
        rw [hmin]
        rcases hcase with hcase | ⟨-, -, hfull⟩
        · refine ⟨_, rfl, ?_, ?_, hhighest₁, hmode₁, hthresh₁⟩
          · rw [hpart] at h₂
            exact h₂
          · rw [hcase, dropBytes_part hgo.2 (Nat.not_le.mp hle), hpart]
            rfl
        · omega
    · have hzero : min offset data.length = 0 := by
        rw [h.size] at hgo
        omega
      rw [hzero]
      exact ⟨b, discardLoop_stop now rounds hgo, h, ⟨(dropBytes_zero _).symm, rfl, rfl, rfl⟩⟩

theorem Discarding.dropped (h : Discarding b Q P data) {b' : TcpTxBuffer}
    (h' : Ledger b' (P + k) (data.drop k)) (hdropped : Dropped b k b') (hk : k ≤ data.length) :
    Discarding b' Q (P + k) (data.drop k) ∧ Keeps b P b' (P + k) := by
  have hlength := h.length_le
  have hbound := h.bound
  refine ⟨{ h' with exclusive := ?_, lostFirst := ?_, reached := ?_, near := ?_, watched := ?_ },
    hdropped.sackEnabled, ?_⟩
  · intro i hi
    rw [hdropped.sentList] at hi
    obtain ⟨j, hj, -, hs, hl, -⟩ := mem_dropBytes hi
    rw [hs, hl]
    exact h.exclusive j hj
  · intro hreno
    rw [hdropped.sentList]
    exact (h.lostFirst (hdropped.sackEnabled ▸ hreno)).dropBytes
  · have hreached := h.reached
    omega
  · have hnear := h.near
    rw [length_drop]
    omega
  · intro a ha
    rw [hdropped.highestSack] at ha ⊢
    obtain ⟨q, hq, hlo, hhi, hlive⟩ := h.watched a ha
    refine ⟨q, hq, hlo, hhi, fun hpast => ?_⟩
    obtain ⟨i, hi, haddr, hs, hstart⟩ := hlive (by omega)
    have hreached := h.reached
    rw [hdropped.sentList]
    exact ⟨i, mem_dropBytes_of_behind h.laid (by omega) hi hstart (by omega) (by omega), haddr, hs, hstart⟩
  · intro q hq
    rw [hdropped.sentList] at hq
    by_cases hsent : k ≤ (bytesOf b.sentList).length
    · exact sackedAt_dropBytes hsent hq
    · rw [dropBytes_all h.laid (Nat.le_of_lt (Nat.not_le.mp hsent))] at hq
      exact absurd hq id

/-! ## The head afterwards -/

theorem Watched.of_keepsSacked {b' : TcpTxBuffer} (h : Watched b Q P) (hkept : KeepsSacked b b')
    (hsame : b'.highestSack = b.highestSack) : Watched b' Q P := by
  intro a ha
  rw [hsame] at ha ⊢
  obtain ⟨q, hq, hlo, hhi, hlive⟩ := h a ha
  refine ⟨q, hq, hlo, hhi, fun hpast => ?_⟩
  obtain ⟨i, hi, haddr, hs, hstart⟩ := hlive hpast
  obtain ⟨j, hj, haddr', hs', hstart'⟩ := hkept i hi hs
  exact ⟨j, hj, haddr'.trans haddr, hs', hstart'.trans hstart⟩

theorem Discarding.moveSack (h : Discarding b Q P data) (hmode : b.sackEnabled = false) {head : TcpTxItem}
    (hlist : b.sentList = head :: rest) (hs : head.sacked = true) : ∃ b', ({ b with
        sentList := { head with sacked := false } :: rest
        sackedOut := uint32 (b.sackedOut - head.size) }.addRenoSack).map markHeadAsLost = some b' ∧
      Scored b' P data ∧ Watched b' Q P ∧ b'.sackEnabled = false := by
  have hlost : head.lost = false := by
    have := h.exclusive head (by simp [hlist])
    cases hl : head.lost with
    | false => rfl
    | true => exact absurd ⟨hs, hl⟩ this
  have hsacked := h.sackedOut
  have hlt := h.total_lt (·.sacked)
  have hfirst := h.lostFirst hmode
  rw [← hsacked] at hlt
  rw [hlist, total_cons, hs, if_pos rfl] at hsacked
  rw [hlist, LostFirst, pairwise_cons] at hfirst
  have halike : Alike b.sentList ({ head with sacked := false } :: rest) := by
    rw [hlist]
    exact Alike.cons rfl (Alike.refl rest)
  have hscored : Scored { b with
      sentList := { head with sacked := false } :: rest, sackedOut := uint32 (b.sackedOut - head.size) } P data := by
    refine { h.toStream.alike halike with
      sackedOut := ?_, lostOut := ?_, retrans := ?_, exclusive := ?_, lostFirst := ?_, unsacked := ?_ }
    · show uint32 (b.sackedOut - head.size) = 0 + total (·.sacked) rest
      rw [uint32_sub (by omega) (by omega)]
      omega
    · rw [h.lostOut, hlist, total_cons, total_cons]
    · rw [h.retrans, hlist, total_cons, total_cons]
    · rintro i hi ⟨hs, hl⟩
      rcases mem_cons.mp hi with rfl | hi
      · cases hs
      · exact h.exclusive i (by simp [hlist, hi]) ⟨hs, hl⟩
    · intro _
      exact pairwise_cons.mpr hfirst
    · intro i hi
      cases hi
      rfl
  have hwatched : Watched { b with
      sentList := { head with sacked := false } :: rest, sackedOut := uint32 (b.sackedOut - head.size) } Q P := by
    intro a ha
    obtain ⟨q, hq, hlo, hhi, hlive⟩ := h.watched a ha
    refine ⟨q, hq, hlo, hhi, fun hpast => ?_⟩
    obtain ⟨i, hi, haddr, hs', hstart⟩ := hlive hpast
    rw [hlist] at hi
    rcases mem_cons.mp hi with rfl | hi
    · have hlaid := h.laid
      have hreached := h.reached
      rw [hlist, laid_cons, hstart, ofPosition_inj ⟨by omega, by omega⟩] at hlaid
      omega
    · exact ⟨i, mem_cons_of_mem _ hi, haddr, hs', hstart⟩
  have htarget : RenoTarget { b with
      sentList := { head with sacked := false } :: rest, sackedOut := uint32 (b.sackedOut - head.size) } := by
    refine ⟨by simp, ?_⟩
    intro i hi
    have hmem : i ∈ rest := (dropWhile_suffix _).subset (mem_of_mem_head? hi)
    cases hl : i.lost with
    | false => rfl
    | true => exact absurd (hfirst.1 i hmem hl) (by simp [hlost])
  obtain ⟨b₁, hb₁, h₁, hkept₁, hmode₁, hhighest⟩ := hscored.addRenoSack hmode htarget
  obtain ⟨h₂, hkept₂, hsame₂, hkeeps₂⟩ := h₁.markHeadAsLost
  have hwatched₁ : Watched b₁ Q P := by
    rcases hhighest with hsame | ⟨i, hi, hs', hhighest⟩
    · exact hwatched.of_keepsSacked hkept₁ hsame
    · intro a ha
      obtain ⟨before, after, hsplit, hpos, hsize⟩ := h₁.laid.split hi
      have hlength := h₁.length_le
      have hnear := h.near
      have hreached := h.reached
      have hitem := length_bytesOf_cons i after
      rw [hsplit, bytesOf_append, length_append] at hlength
      rw [hhighest] at ha ⊢
      cases ha
      exact ⟨_, hpos, by omega, by omega, fun _ => ⟨i, hi, rfl, hs', hpos⟩⟩
  refine ⟨b₁.markHeadAsLost, ?_, h₂, hwatched₁.of_keepsSacked hkept₂ hsame₂, hkeeps₂.sackEnabled.trans hmode₁⟩
  rw [hb₁, map_some]

theorem Discarding.unsackHead (h : Discarding b Q P data) (htrue : b.sackEnabled = true → ¬ SackedAt P b.sentList P) :
    ∃ b', b.unsackHead = some b' ∧ Scored b' P data ∧ Watched b' Q P ∧ b'.sackEnabled = b.sackEnabled ∧
      (b.sackEnabled = true → b'.sentList = b.sentList) := by
  unfold TcpTxBuffer.unsackHead
  cases hlist : b.sentList with
  | nil => exact ⟨b, rfl, { h with unsacked := by simp [hlist] }, h.watched, rfl, fun _ => hlist⟩
  | cons head rest =>
    dsimp only
    cases hs : head.sacked with
    | false =>
      rw [if_neg Bool.false_ne_true]
      refine ⟨b, rfl, { h with unsacked := ?_ }, h.watched, rfl, fun _ => hlist⟩
      intro i hi
      rw [hlist] at hi
      cases hi
      exact hs
    | true =>
      have hlaid := h.laid
      rw [hlist] at hlaid
      by_cases hmode : b.sackEnabled = true
      · refine absurd ?_ (htrue hmode)
        rw [hlist]
        exact .inl ⟨hs, Nat.le_refl P, Nat.lt_add_of_pos_right hlaid.2.1⟩
      · have hlost := h.exclusive head (by simp [hlist])
        have hmode' : b.sackEnabled = false := Bool.not_eq_true _ ▸ hmode
        obtain ⟨b', hb', h', hwatched, hmode''⟩ := h.moveSack hmode' hlist hs
        rw [if_pos rfl, if_neg fun hl => hlost ⟨hs, hl⟩]
        exact ⟨b', hb', h', hwatched, hmode''.trans hmode'.symm, fun hm => absurd hm hmode⟩

theorem Discarding.skip (h : Discarding b Q P []) (hA : P ≤ A) (hnear : A < Q + 2147483648) :
    Discarding { b with firstByteSeq := ofPosition A } Q A [] ∧ b.sentList = [] := by
  have hnil : b.sentList = [] := by
    have hbytes := (append_eq_nil_iff.mp h.bytes).1
    have hlaid := h.laid
    revert hbytes hlaid
    cases b.sentList with
    | nil => intro _ _; rfl
    | cons i l =>
      intro hbytes hlaid
      have := hlaid.2.1
      rw [bytesOf_cons, append_eq_nil_iff] at hbytes
      simp [TcpTxItem.size, hbytes.1] at this
  have hreached := h.reached
  refine ⟨{ h with head := rfl, laid := ?_, reached := by omega, near := hnear, watched := ?_ }, hnil⟩
  · show Laid A b.sentList
    rw [hnil]
    trivial
  · intro a ha
    obtain ⟨q, hq, hlo, hhi, hlive⟩ := h.watched a ha
    refine ⟨q, hq, hlo, hhi, fun hpast => ?_⟩
    obtain ⟨i, hi, -⟩ := hlive (by omega)
    rw [hnil] at hi
    cases hi

theorem Discarding.arrive (h : Discarding b P (P + min (A - P) data.length) (data.drop (min (A - P) data.length)))
    (hA : P ≤ A) (hnear : A < P + 2147483648) :
    Discarding (if b.size = 0 then { b with firstByteSeq := ofPosition A } else b) P A (data.drop (A - P)) ∧
      ∀ q, SackedAt A b.sentList q → SackedAt (P + min (A - P) data.length) b.sentList q := by
  have hsize := h.size
  rw [length_drop] at hsize
  split
  · have hnil : data.drop (min (A - P) data.length) = [] := drop_eq_nil_of_le (by omega)
    have hnil' : data.drop (A - P) = [] := drop_eq_nil_of_le (by omega)
    rw [hnil] at h
    rw [hnil']
    obtain ⟨h', hlist⟩ := h.skip (A := A) (by omega) hnear
    refine ⟨h', fun q hq => ?_⟩
    rw [hlist] at hq
    exact absurd hq id
  · have hmin : min (A - P) data.length = A - P := by omega
    have hpos : P + (A - P) = A := by omega
    rw [hmin, hpos] at h ⊢
    exact ⟨h, fun _ hq => hq⟩

theorem Scored.dropIterator (h : Scored b P data) (hwatched : Watched b Q P) (hreached : Q ≤ P)
    (hnear : P < Q + 2147483648) :
    Books (if b.highestSack.2.le b.firstByteSeq then { b with highestSack := (none, ⟨0⟩) } else b) P data := by
  split
  · refine { h with highest := ?_ }
    intro a ha
    cases ha
  · rename_i hnot
    refine { h with highest := ?_ }
    intro a ha
    obtain ⟨q, hq, hlo, hhi, hlive⟩ := hwatched a ha
    rw [hq, h.head, le_ofPosition ⟨by omega, by omega⟩, decide_eq_true_eq] at hnot
    obtain ⟨i, hi, haddr, hs, hstart⟩ := hlive (by omega)
    exact ⟨i, hi, haddr, hs, hstart.trans hq.symm⟩

theorem Books.discardUpTo (h : Books b P data) (now : Int) (hA : A ≤ P + data.length + 1)
    (hold : P < A + 2147483648) (htrue : b.sackEnabled = true → ¬ SackedAt P b.sentList A) :
    ∃ b', b.discardUpTo now (ofPosition A) = some b' ∧ Books b' (max P A) (data.drop (A - P)) ∧
      b'.sackEnabled = b.sackEnabled ∧
    (b.sackEnabled = true → ∀ q, SackedAt (max P A) b'.sentList q → SackedAt P b.sentList q) := by
  have hbound := h.bound
  have hge : b.firstByteSeq.ge (ofPosition A) = decide (A ≤ P) := by
    rw [h.head, ge_ofPosition ⟨by omega, by omega⟩]
  unfold TcpTxBuffer.discardUpTo
  rw [hge]
  by_cases hle : A ≤ P
  · rw [if_pos (decide_eq_true hle), Nat.max_eq_left hle, Nat.sub_eq_zero_of_le hle, drop_zero]
    exact ⟨b, rfl, h, rfl, fun _ _ hq => hq⟩
  · rw [if_neg (by rw [decide_eq_true_eq]; exact hle), h.head, diff_ofPosition (by omega) (by omega)]
    obtain ⟨b₁, hb₁, hledger₁, hdropped⟩ := Ledger.discardLoop now (b.sentList.length + 2) b P data (A - P) h.ledger
      (Nat.le_refl _)
    obtain ⟨h₁, hkeeps₁⟩ := h.discarding.dropped hledger₁ hdropped (Nat.min_le_right _ _)
    obtain ⟨h₂, hsackedAt⟩ := h₁.arrive (by omega) (by omega)
    rw [hb₁, bind_some]
    have hlist₂ : (if b₁.size = 0 then { b₁ with firstByteSeq := ofPosition A } else b₁).sentList = b₁.sentList := by
      split <;> rfl
    have hmode₂ : (if b₁.size = 0 then { b₁ with firstByteSeq := ofPosition A } else b₁).sackEnabled =
        b.sackEnabled := by
      rw [← hkeeps₁.sackEnabled]
      split <;> rfl
    obtain ⟨b₃, hb₃, h₃, hwatched, hmode₃, hlist₃⟩ := h₂.unsackHead fun hmode hs => by
      rw [hlist₂] at hs
      exact htrue (hmode₂ ▸ hmode) (hkeeps₁.sackedAt A (hsackedAt A hs))
    have hhead : (b₃.sentList.head?.all fun head => head.startSeq = ofPosition A) = true := by
      have hlaid := h₃.laid
      revert hlaid
      cases b₃.sentList with
      | nil => intro _; rfl
      | cons head rest =>
        intro hlaid
        simpa using hlaid.1
    have h₄ := h₃.dropIterator hwatched (by omega) (by omega)
    have hmode₄ : (if b₃.highestSack.2.le b₃.firstByteSeq then { b₃ with highestSack := (none, ⟨0⟩) } else b₃).sackEnabled =
        b₃.sackEnabled := by
      split <;> rfl
    have hlist₄ : (if b₃.highestSack.2.le b₃.firstByteSeq then { b₃ with highestSack := (none, ⟨0⟩) } else b₃).sentList =
        b₃.sentList := by
      split <;> rfl
    simp only [hb₃, bind_some, hhead, if_true]
    rw [if_pos ⟨by rw [h₄.head, ge_ofPosition ⟨by omega, by omega⟩]; exact decide_eq_true (Nat.le_refl A), h₄.leftOut_le⟩,
      Nat.max_eq_right (by omega)]
    refine ⟨_, rfl, h₄, hmode₄.trans (hmode₃.trans hmode₂), ?_⟩
    intro hmode q hq
    rw [hlist₄, hlist₃ (hmode₂.trans hmode), hlist₂] at hq
    exact hkeeps₁.sackedAt q (hsackedAt q hq)

end

end TcpTxBuffer

end Ns3
