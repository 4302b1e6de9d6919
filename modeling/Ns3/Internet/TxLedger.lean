import Mathlib.Data.List.Forall2
import Mathlib.Data.List.TakeWhile
import Ns3.Internet.TxRecut
import Ns3.Internet.TxUpdateSound

/-!
# The ledger of a send buffer

Whatever is asked of the buffer, and in whatever order: a call that succeeds
keeps the bytes, the positions of the items and the three counters in step with
the flags.
-/

namespace Ns3

open List Option

namespace TcpTxBuffer

open SequenceNumber32

section
variable {b b' : TcpTxBuffer} {P : Nat} {data : Bytes}

theorem Ledger.total_lt (h : Ledger b P data) (flag : TcpTxItem → Bool) : total flag b.sentList < 2147483648 :=
  h.toStream.total_lt flag

theorem Ledger.reflag (h : Ledger b P data) {items : List TcpTxItem} (halike : Alike b.sentList items)
    {lostOut sackedOut retrans : Nat} {highestSack : Option Nat × SequenceNumber32}
    (hs : sackedOut = total (·.sacked) items) (hl : lostOut = total (·.lost) items)
    (hr : retrans = total (·.retrans) items) :
    Ledger { b with
      sentList := items
      lostOut := lostOut
      sackedOut := sackedOut
      retrans := retrans
      highestSack := highestSack } P data :=
  { h.toStream.alike halike with sackedOut := hs, lostOut := hl, retrans := hr }

/-! ## Sending -/

theorem Ledger.add (h : Ledger b P data) {p : Bytes} (hroom : data.length + p.length < 2147483647) :
    Ledger (b.add p).1 P (if (b.add p).2 then data ++ p else data) := by
  have hstream := h.toStream.add hroom
  obtain ⟨app, size, nextAddress, heq⟩ := add_eq b p
  rw [heq] at hstream ⊢
  exact { hstream with sackedOut := h.sackedOut, lostOut := h.lostOut, retrans := h.retrans }

variable {now : Int} {n s : Nat}

theorem Ledger.served (h : Ledger b P data) {item : TcpTxItem} (hserved : Served b now P b' item) :
    Ledger b' P data := by
  cases hserved with
  | @again l retrans nextAddress hre hs =>
    have hbytes : bytesOf l.list = bytesOf b.sentList := hre.bytes
    have hlaid : Laid P l.list := hre.laid P h.laid
    have hlt := h.total_lt (·.retrans)
    have hlength := h.length_le
    have hbound := h.bound
    have hretrans := h.retrans
    obtain ⟨hshrunk, hcount⟩ := hre.retrans (Nat.le_of_eq hretrans.symm) (show b.retrans < 4294967296 by omega)
    have htotal : retrans = total (·.retrans) l.list := by
      simp only at hcount
      omega
    have halike : Alike l.list (l.before ++ { l.item with retrans := true, lastSent := now } :: l.after) :=
      Alike.append (Alike.refl _) (Alike.cons rfl (Alike.refl _))
    have hle := total_le (·.retrans) l.list
    have hsame := halike.bytesOf_eq
    have hfull := total_le (·.retrans) (l.before ++ { l.item with retrans := true, lastSent := now } :: l.after)
    rw [hsame, hbytes] at hfull
    refine { h with
      bytes := ?_, sentSize := ?_, laid := halike.laid hlaid, sackedOut := ?_, lostOut := ?_, retrans := ?_ }
    · rw [hsame, hbytes, h.bytes]
    · rw [hsame, hbytes, h.sentSize]
    · have hsacked : total (·.sacked) l.list = total (·.sacked) b.sentList := hre.sacked
      rw [Located.list, total_append, total_cons] at hsacked
      rw [h.sackedOut, ← hsacked, total_append, total_cons]
    · have hlost : total (·.lost) l.list = total (·.lost) b.sentList := hre.lost
      rw [Located.list, total_append, total_cons] at hlost
      rw [h.lostOut, ← hlost, total_append, total_cons]
    · rw [Located.list, total_append, total_cons] at htotal
      rw [total_append, total_cons, if_pos rfl] at hfull ⊢
      have hset : (if l.item.retrans then retrans else uint32 (retrans + l.item.size)) =
          l.item.size + (total (·.retrans) l.before + total (·.retrans) l.after) := by
        apply count_set
        · omega
        · have hsize : TcpTxItem.size { l.item with retrans := true, lastSent := now } = l.item.size := rfl
          omega
      dsimp only
      rw [hset]
      show _ = _ + (l.item.size + _)
      omega
  | @new item app nextAddress hitem haddress => exact h.append hitem nextAddress

theorem Ledger.copyFromSequence (h : Ledger b P data) {out : Option TcpTxItem}
    (hcopy : b.copyFromSequence now n (ofPosition s) = some (b', out)) : Ledger b' P data := by
  rcases h.copyRequest_inv _ _ hcopy with ⟨rfl, -⟩ | ⟨item, -, hserved⟩
  · exact h
  · exact h.served hserved

theorem Ledger.resetLastSegmentSent (h : Ledger b P data)
    (hlast : ∀ i ∈ b.sentList.getLast?, i.lost = false ∧ i.retrans = false ∧ i.sacked = false) :
    Ledger b.resetLastSegmentSent P data := by
  unfold TcpTxBuffer.resetLastSegmentSent
  cases hitem : b.sentList.getLast? with
  | none => exact h
  | some item =>
    obtain ⟨hl, hr, hs⟩ := hlast item hitem
    obtain ⟨init, hsplit⟩ := getLast?_eq_some_iff.mp hitem
    have hlength := h.length_le
    have hbound := h.bound
    have hsent := h.sentSize
    have hlaid := h.laid
    have hbytes := h.bytes
    have hcount : ∀ flag : TcpTxItem → Bool, flag item = false → total flag b.sentList = total flag init := by
      intro flag hflag
      rw [hsplit, total_append, total_cons, hflag]
      rfl
    rw [hsplit, bytesOf_append, bytesOf_cons, bytesOf_nil, append_nil] at hbytes hsent hlength
    rw [hsplit, laid_append, laid_cons] at hlaid
    rw [length_append] at hsent hlength
    dsimp only
    rw [hr, if_neg Bool.false_ne_true, hsplit, dropLast_concat]
    refine { h with
      bytes := ?_, sentSize := ?_, laid := hlaid.1, app := ?_, sackedOut := ?_, lostOut := ?_, retrans := ?_ }
    · rw [← hbytes]
      simp
    · show uint32 (b.sentSize - item.packet.length) = (bytesOf init).length
      rw [uint32_sub (by omega) (by omega)]
      omega
    · intro i hi
      rcases mem_cons.mp hi with rfl | hi
      · exact ⟨hlaid.2.2.1, hl, hr, hs⟩
      · exact h.app i hi
    · exact h.sackedOut.trans (hcount _ hs)
    · exact h.lostOut.trans (hcount _ hl)
    · exact h.retrans.trans (hcount _ hr)

theorem Ledger.setHeadSequence (h : Ledger b P data) (hset : b.setHeadSequence (ofPosition s) = some b') :
    Ledger b' s data := by
  unfold TcpTxBuffer.setHeadSequence at hset
  split at hset
  · rename_i hnil
    cases hset
    refine { h with head := rfl, laid := ?_ }
    show Laid s b.sentList
    rw [hnil]
    trivial
  · cases hset

/-! ## Flags -/

theorem Ledger.markHeadAsLost (h : Ledger b P data) : Ledger b.markHeadAsLost P data := by
  unfold TcpTxBuffer.markHeadAsLost
  cases hlist : b.sentList with
  | nil => exact h
  | cons head rest =>
    have hs := h.sackedOut
    have hl := h.lostOut
    have hr := h.retrans
    have hslt := h.total_lt (·.sacked)
    have hrlt := h.total_lt (·.retrans)
    have hlength := h.length_le
    have hbound := h.bound
    have hle := total_le (·.lost) rest
    rw [← h.sackedOut] at hslt
    rw [← h.retrans] at hrlt
    rw [hlist, total_cons] at hs hl hr
    rw [hlist, length_bytesOf_cons] at hlength
    have hsclear := count_clear hs (by omega)
    have hlset := count_set hl (by omega)
    have hrclear := count_clear hr (by omega)
    exact h.reflag (hlist ▸ Alike.cons rfl (Alike.refl rest)) (hsclear.trans (Nat.zero_add _).symm) hlset
      (hrclear.trans (Nat.zero_add _).symm)

theorem addRenoSack_some (h : b.addRenoSack = some b') : (b' = b ∧ ∀ i ∈ b.sentList.tail, i.sacked = true) ∨
    ∃ head middle item after, b.sentList = head :: (middle ++ item :: after) ∧ (∀ i ∈ middle, i.sacked = true) ∧
      item.sacked = false ∧ b' = { b with
        sentList := head :: (middle ++ { item with sacked := true } :: after)
        sackedOut := uint32 (b.sackedOut + item.size)
        highestSack := (some item.address, item.startSeq) } := by
  obtain ⟨-, h⟩ := ite_none_right_eq_some.mp h
  cases hlist : b.sentList with
  | nil =>
    rw [hlist] at h
    cases h
  | cons head rest =>
    rw [hlist] at h
    dsimp only at h
    cases hrest : rest.dropWhile (·.sacked) with
    | nil =>
      rw [hrest] at h
      refine .inl ⟨(Option.some.inj h).symm, fun i hi => ?_⟩
      exact dropWhile_eq_nil_iff.mp hrest i hi
    | cons item after =>
      rw [hrest] at h
      have hitem := head?_dropWhile_not (·.sacked) rest
      rw [hrest] at hitem
      refine .inr ⟨head, rest.takeWhile (·.sacked), item, after, ?_, ?_, by simpa using hitem, (Option.some.inj h).symm⟩
      · rw [← hrest, takeWhile_append_dropWhile]
      · intro i hi
        exact mem_takeWhile_imp hi

theorem Ledger.addRenoSack (h : Ledger b P data) (hadd : b.addRenoSack = some b') : Ledger b' P data := by
  rcases addRenoSack_some hadd with ⟨rfl, -⟩ | ⟨head, middle, item, after, hlist, -, hitem, rfl⟩
  · exact h
  · have halike : Alike b.sentList (head :: (middle ++ { item with sacked := true } :: after)) := by
      rw [hlist]
      exact Alike.cons rfl (Alike.append (Alike.refl _) (Alike.cons rfl (Alike.refl _)))
    have htotal : total (·.sacked) (head :: (middle ++ { item with sacked := true } :: after)) =
        b.sackedOut + item.size := by
      rw [h.sackedOut, hlist]
      simp only [total_cons, total_append, hitem, if_true, Bool.false_eq_true, if_false]
      show _ + (_ + (item.size + _)) = _
      omega
    refine h.reflag halike ?_ ?_ ?_
    · have hle := total_le (·.sacked) (head :: (middle ++ { item with sacked := true } :: after))
      have hlength := h.length_le
      have hbound := h.bound
      rw [halike.bytesOf_eq, htotal] at hle
      rw [htotal]
      exact uint32_add (by omega)
    · rw [h.lostOut, hlist]
      simp only [total_cons, total_append]
    · rw [h.retrans, hlist]
      simp only [total_cons, total_append]

theorem Ledger.resetRenoSack (h : Ledger b P data) : Ledger b.resetRenoSack P data := by
  have halike : Alike b.sentList (b.sentList.map unsack) := by
    apply alike_map
    intro i
    rfl
  refine h.reflag halike ?_ ?_ ?_
  · exact (total_of_none _ (by simp [unsack])).symm
  · exact h.lostOut.trans (total_map _ unsack (fun _ => rfl) (fun _ => rfl) _).symm
  · exact h.retrans.trans (total_map _ unsack (fun _ => rfl) (fun _ => rfl) _).symm

theorem Ledger.resetSentList (h : Ledger b P data) : Ledger b.resetSentList P data :=
  { h.toStream.resetSentList with sackedOut := rfl, lostOut := rfl, retrans := rfl }

theorem deleteRetransmittedFlagFromHead_some (h : b.deleteRetransmittedFlagFromHead = some b') :
    b' = b ∨ ∃ head rest, b.sentList = head :: rest ∧ head.retrans = true ∧
      b' = { b with sentList := { head with retrans := false } :: rest, retrans := uint32 (b.retrans - head.size) } := by
  unfold TcpTxBuffer.deleteRetransmittedFlagFromHead at h
  split at h
  · exact .inl (Option.some.inj h).symm
  · cases hlist : b.sentList with
    | nil =>
      rw [hlist] at h
      cases h
    | cons head rest =>
      rw [hlist] at h
      dsimp only at h
      split at h
      · rename_i hflag
        exact .inr ⟨head, rest, rfl, hflag, (Option.some.inj h).symm⟩
      · exact .inl (Option.some.inj h).symm

theorem Ledger.deleteRetransmittedFlagFromHead (h : Ledger b P data)
    (hdelete : b.deleteRetransmittedFlagFromHead = some b') : Ledger b' P data := by
  rcases deleteRetransmittedFlagFromHead_some hdelete with rfl | ⟨head, rest, hlist, hflag, rfl⟩
  · exact h
  · have hr := h.retrans
    have hlt := h.total_lt (·.retrans)
    rw [← h.retrans] at hlt
    rw [hlist, total_cons] at hr
    have hcount := count_clear hr (by omega)
    rw [if_pos hflag] at hcount
    refine h.reflag (hlist ▸ Alike.cons rfl (Alike.refl rest)) ?_ ?_ (hcount.trans (Nat.zero_add _).symm)
    · rw [h.sackedOut, hlist, total_cons, total_cons]
    · rw [h.lostOut, hlist, total_cons, total_cons]

theorem setSentListLost_some {resetSack : Bool} (h : b.setSentListLost resetSack = some b') :
    b' = (if resetSack then
      { b with
        retrans := 0
        sackedOut := 0
        lostOut := b.sentSize
        highestSack := (none, ⟨0⟩)
        sentList := b.sentList.map fun item => { item with sacked := false, lost := true, retrans := false } }
    else
      { b with retrans := 0, sentList := (loseUnsacked b.sentList 0).1, lostOut := (loseUnsacked b.sentList 0).2 }) := by
  unfold TcpTxBuffer.setSentListLost at h
  cases resetSack with
  | true =>
    obtain ⟨-, heq⟩ := ite_none_right_eq_some.mp h
    exact (Option.some.inj heq).symm
  | false =>
    obtain ⟨-, heq⟩ := ite_none_right_eq_some.mp h
    exact (Option.some.inj heq).symm

theorem Ledger.setSentListLost (h : Ledger b P data) {resetSack : Bool}
    (hset : b.setSentListLost resetSack = some b') : Ledger b' P data := by
  rw [setSentListLost_some hset]
  have hlength := h.length_le
  have hbound := h.bound
  cases resetSack with
  | true =>
    have halike : Alike b.sentList
        (b.sentList.map fun item => { item with sacked := false, lost := true, retrans := false }) := by
      apply alike_map
      intro i
      rfl
    refine h.reflag halike ?_ ?_ ?_
    · exact (total_of_none _ (by simp)).symm
    · rw [total_of_all _ (by simp), halike.bytesOf_eq]
      exact h.sentSize
    · exact (total_of_none _ (by simp)).symm
  | false =>
    have halike : Alike b.sentList (b.sentList.map loseItem) := by
      apply alike_map
      intro i
      rfl
    rw [if_neg Bool.false_ne_true, loseUnsacked_eq b.sentList 0 (by omega), Nat.zero_add]
    refine h.reflag halike ?_ rfl ?_
    · exact h.sackedOut.trans (total_map _ loseItem (fun _ => rfl) (fun _ => rfl) _).symm
    · exact (total_of_none _ (by simp [loseItem])).symm

/-! ## Cumulative acknowledgments -/

theorem unsackHead_some (h : b.unsackHead = some b') :
    (b' = b ∧ ∀ i ∈ b.sentList.head?, i.sacked = false) ∨ ∃ head rest b₁, b.sentList = head :: rest ∧
      head.sacked = true ∧ head.lost = false ∧ { b with
        sentList := { head with sacked := false } :: rest
        sackedOut := uint32 (b.sackedOut - head.size) }.addRenoSack = some b₁ ∧ b' = b₁.markHeadAsLost := by
  unfold TcpTxBuffer.unsackHead at h
  cases hlist : b.sentList with
  | nil =>
    rw [hlist] at h
    exact .inl ⟨(Option.some.inj h).symm, by simp⟩
  | cons head rest =>
    rw [hlist] at h
    dsimp only at h
    cases hs : head.sacked with
    | false =>
      rw [hs, if_neg Bool.false_ne_true] at h
      refine .inl ⟨(Option.some.inj h).symm, fun i hi => ?_⟩
      cases hi
      exact hs
    | true =>
      rw [hs, if_pos rfl] at h
      by_cases hl : head.lost = true
      · rw [if_pos hl] at h
        cases h
      · rw [if_neg hl] at h
        obtain ⟨b₁, hadd, rfl⟩ := map_eq_some_iff.mp h
        exact .inr ⟨head, rest, b₁, rfl, hs, Bool.not_eq_true _ ▸ hl, hadd, rfl⟩

theorem Ledger.unsackHead (h : Ledger b P data) (hhead : b.unsackHead = some b') : Ledger b' P data := by
  rcases unsackHead_some hhead with ⟨rfl, -⟩ | ⟨head, rest, b₁, hlist, hs, -, hadd, rfl⟩
  · exact h
  · have hsacked := h.sackedOut
    have hlt := h.total_lt (·.sacked)
    rw [← hsacked] at hlt
    rw [hlist, total_cons, hs, if_pos rfl] at hsacked
    have halike : Alike b.sentList ({ head with sacked := false } :: rest) := by
      rw [hlist]
      exact Alike.cons rfl (Alike.refl rest)
    have hcleared : Ledger { b with
        sentList := { head with sacked := false } :: rest
        sackedOut := uint32 (b.sackedOut - head.size) } P data := by
      refine h.reflag halike ?_ ?_ ?_
      · rw [uint32_sub (by omega) (by omega), total_cons, if_neg Bool.false_ne_true]
        omega
      · rw [h.lostOut, hlist, total_cons, total_cons]
      · rw [h.retrans, hlist, total_cons, total_cons]
    exact (hcleared.addRenoSack hadd).markHeadAsLost

theorem exists_ahead (P s : Nat) : ∃ A, ofPosition s = ofPosition A ∧ P ≤ A ∧ A < P + 4294967296 := by
  refine ⟨P + (s + (4294967296 - P % 4294967296)) % 4294967296, ?_, by omega, by omega⟩
  simp only [ofPosition, SequenceNumber32.mk.injEq]
  omega

/-- Once the loop is done the head may move on over bytes that never were there. -/
def settleHead (b : TcpTxBuffer) (A : Nat) : TcpTxBuffer :=
  if b.size = 0 then { b with firstByteSeq := ofPosition A } else b

/-- The iterator is dropped when its number has been passed. -/
def dropIterator (b : TcpTxBuffer) : TcpTxBuffer :=
  if b.highestSack.2.le b.firstByteSeq then { b with highestSack := (none, ⟨0⟩) } else b

theorem Ledger.settleHead (h : Ledger b P data) (A : Nat) :
    Ledger (b.settleHead A) (if data = [] then A else P) data := by
  unfold TcpTxBuffer.settleHead
  have hsize := h.size
  cases hdata : data with
  | nil =>
    subst hdata
    rw [if_pos (show b.size = 0 from hsize), if_pos rfl]
    refine { h with head := rfl, laid := ?_ }
    have hlaid := h.laid
    have hlength := h.length_le
    show Laid A b.sentList
    cases hlist : b.sentList with
    | nil => trivial
    | cons i l =>
      rw [hlist] at hlaid hlength
      have hpos := hlaid.2.1
      rw [length_bytesOf_cons, length_nil] at hlength
      omega
  | cons x l =>
    subst hdata
    rw [if_neg (by rw [hsize]; simp), if_neg (by simp)]
    exact h

theorem Ledger.dropIterator (h : Ledger b P data) : Ledger b.dropIterator P data := by
  unfold TcpTxBuffer.dropIterator
  split
  · exact { h with }
  · exact h

theorem Ledger.discardUpTo_some (h : Ledger b P data) (hdiscard : b.discardUpTo now (ofPosition s) = some b') :
    b' = b ∨ b.firstByteSeq.ge (ofPosition s) = false ∧ ∃ A k b₁ b₂, ofPosition s = ofPosition A ∧ P < A ∧ A ≤ P + 2147483648 ∧ k = min (A - P) data.length ∧
      TcpTxBuffer.discardLoop now (b.sentList.length + 2) b (A - P) = some b₁ ∧ Ledger b₁ (P + k) (data.drop k) ∧ Dropped b k b₁ ∧
    (b₁.settleHead A).unsackHead = some b₂ ∧ b' = b₂.dropIterator := by
  unfold TcpTxBuffer.discardUpTo at hdiscard
  by_cases hge : b.firstByteSeq.ge (ofPosition s) = true
  · rw [if_pos hge] at hdiscard
    exact .inl (Option.some.inj hdiscard).symm
  · rw [if_neg hge] at hdiscard
    obtain ⟨A, hseq, hle, hlt⟩ := exists_ahead P s
    refine .inr ⟨Bool.not_eq_true _ ▸ hge, ?_⟩
    rw [hseq] at hdiscard hge
    have hA : P < A ∧ A ≤ P + 2147483648 := by
      rw [h.head, ge, Bool.or_eq_true, gt_iff, beq_iff_eq] at hge
      simp only [ofPosition, SequenceNumber32.mk.injEq] at hge
      omega
    obtain ⟨b₁, hloop, hledger, hdropped⟩ := Ledger.discardLoop now (b.sentList.length + 2) b P data (A - P) h
      (Nat.le_refl _)
    rw [h.head, diff_ofPosition hle hlt, hloop, bind_some] at hdiscard
    obtain ⟨b₂, hb₂, hdiscard⟩ := bind_eq_some_iff.mp hdiscard
    obtain ⟨-, hdiscard⟩ := ite_none_right_eq_some.mp hdiscard
    obtain ⟨-, hdiscard⟩ := ite_none_right_eq_some.mp hdiscard
    exact ⟨A, _, b₁, b₂, hseq, hA.1, hA.2, rfl, hloop, hledger, hdropped, hb₂, (Option.some.inj hdiscard).symm⟩

theorem Ledger.discardUpTo (h : Ledger b P data)
    (hdiscard : b.discardUpTo now (ofPosition s) = some b') : ∃ P' k, Ledger b' P' (data.drop k) := by
  rcases h.discardUpTo_some hdiscard with rfl | ⟨-, A, k, b₁, b₂, -, -, -, -, -, hledger, -, hhead, rfl⟩
  · exact ⟨P, 0, h⟩
  · exact ⟨_, k, ((hledger.settleHead A).unsackHead hhead).dropIterator⟩

/-! ## Selective acknowledgments -/

/-- The items once those inside the block are sacked. -/
def sackItems (block : SequenceNumber32 × SequenceNumber32) : SequenceNumber32 → List TcpTxItem → List TcpTxItem
  | _, [] => []
  | begin, item :: rest =>
    if begin.ge block.1 ∧ (begin.add item.size).le block.2 then
      (if item.sacked then item else { item with lost := false, sacked := true }) ::
        sackItems block (begin.add item.size) rest
    else if (begin.add item.size).gt block.2 then item :: rest
    else item :: sackItems block (begin.add item.size) rest

/-- The items once the blocks have been read, up to one beyond the sent data. -/
def sackBlocks (head : SequenceNumber32) (sentSize : Nat) :
    List (SequenceNumber32 × SequenceNumber32) → List TcpTxItem → List TcpTxItem
  | [], items => items
  | block :: list, items =>
    if (head.add sentSize).lt block.1 then items else sackBlocks head sentSize list (sackItems block head items)

def NowSacked (i j : TcpTxItem) : Prop := j = i ∨ i.sacked = false ∧ j = { i with lost := false, sacked := true }

theorem nowSacked_refl (l : List TcpTxItem) : List.Forall₂ NowSacked l l :=
  forall₂_same.mpr fun _ _ => .inl rfl

theorem NowSacked.trans {i j k : TcpTxItem} (h : NowSacked i j) (h' : NowSacked j k) : NowSacked i k := by
  rcases h with rfl | ⟨hs, rfl⟩
  · exact h'
  · rcases h' with rfl | ⟨hs', -⟩
    · exact .inr ⟨hs, rfl⟩
    · cases hs'

theorem nowSacked_trans : ∀ {l l' l'' : List TcpTxItem}, List.Forall₂ NowSacked l l' → List.Forall₂ NowSacked l' l'' →
    List.Forall₂ NowSacked l l''
  | _, _, _, .nil, .nil => .nil
  | _, _, _, .cons h t, .cons h' t' => .cons (h.trans h') (nowSacked_trans t t')

theorem nowSacked_mem : ∀ {l l' : List TcpTxItem}, List.Forall₂ NowSacked l l' → ∀ j ∈ l', ∃ i ∈ l, NowSacked i j
  | _, _, .nil, _, hj => by cases hj
  | i :: l, _, .cons h t, j, hj => by
    rcases List.mem_cons.mp hj with rfl | hj
    · exact ⟨i, List.mem_cons_self, h⟩
    · obtain ⟨i', hi', hnow⟩ := nowSacked_mem t j hj
      exact ⟨i', mem_cons_of_mem _ hi', hnow⟩

theorem sackItems_related (block : SequenceNumber32 × SequenceNumber32) : ∀ (items : List TcpTxItem)
    (begin : SequenceNumber32), List.Forall₂ NowSacked items (sackItems block begin items)
  | [], _ => List.Forall₂.nil
  | item :: rest, begin => by
    rw [sackItems]
    split
    · refine List.Forall₂.cons ?_ (sackItems_related block rest _)
      cases hs : item.sacked with
      | true => exact .inl (if_pos rfl)
      | false => exact .inr ⟨hs, if_neg Bool.false_ne_true⟩
    · split
      · exact nowSacked_refl _
      · exact List.Forall₂.cons (.inl rfl) (sackItems_related block rest _)

theorem sackBlocks_related (head : SequenceNumber32) (sentSize : Nat) :
    ∀ (list : List (SequenceNumber32 × SequenceNumber32)) (items : List TcpTxItem),
    List.Forall₂ NowSacked items (sackBlocks head sentSize list items)
  | [], items => nowSacked_refl items
  | block :: list, items => by
    rw [sackBlocks]
    split
    · exact nowSacked_refl items
    · exact nowSacked_trans (sackItems_related block items head) (sackBlocks_related head sentSize list _)

theorem nowSacked_alike : ∀ {l l' : List TcpTxItem}, List.Forall₂ NowSacked l l' →
    Alike l l' ∧ total (·.retrans) l' = total (·.retrans) l
  | _, _, .nil => ⟨rfl, rfl⟩
  | i :: l, j :: l', .cons h t => by
    obtain ⟨halike, htotal⟩ := nowSacked_alike t
    rw [total_cons, total_cons, htotal]
    rcases h with rfl | ⟨-, rfl⟩
    · exact ⟨Alike.cons rfl halike, rfl⟩
    · exact ⟨Alike.cons rfl halike, rfl⟩

theorem updateItems_some {block : SequenceNumber32 × SequenceNumber32} : ∀ (items : List TcpTxItem)
    (begin : SequenceNumber32) (t : Tally) (lost sacked : Nat) {items' : List TcpTxItem} {t' : Tally},
    updateItems block begin items t = some (items', t') →
    t.lostOut = lost + total (·.lost) items → t.sackedOut = sacked + total (·.sacked) items →
    lost + (bytesOf items).length < 2147483648 → sacked + (bytesOf items).length < 2147483648 →
    items' = sackItems block begin items ∧ t'.lostOut = lost + total (·.lost) items' ∧
      t'.sackedOut = sacked + total (·.sacked) items'
  | [], _, t, _, _, _, _, h, hl, hs, _, _ => by
    cases h
    exact ⟨rfl, hl, hs⟩
  | item :: rest, begin, t, lost, sacked, items', t', h, hl, hs, hlost, hsacked => by
    rw [total_cons] at hl hs
    rw [length_bytesOf_cons] at hlost hsacked
    have hle := total_le (·.lost) rest
    have hle' := total_le (·.sacked) rest
    rw [updateItems] at h
    rw [sackItems]
    by_cases hin : begin.ge block.1 ∧ (begin.add item.size).le block.2
    · rw [if_pos hin] at h ⊢
      cases hflag : item.sacked with
      | true =>
        rw [hflag, if_pos rfl] at h
        rw [hflag, if_pos rfl] at hs
        by_cases hlost' : item.lost = true
        · rw [if_pos hlost'] at h
          cases h
        · rw [if_neg hlost'] at h hl
          obtain ⟨r, hr, heq⟩ := map_eq_some_iff.mp h
          cases heq
          obtain ⟨hitems, hl', hs'⟩ := updateItems_some rest _ t lost (sacked + item.size) hr (by omega) (by omega)
            (by omega) (by omega)
          rw [total_cons, total_cons, if_neg hlost', hflag, if_pos rfl, if_pos rfl, ← hitems]
          exact ⟨rfl, by omega, by omega⟩
      | false =>
        rw [hflag, if_neg Bool.false_ne_true] at h hs
        obtain ⟨r, hr, heq⟩ := map_eq_some_iff.mp h
        cases heq
        have hclear : (t.sack begin item).lostOut = lost + total (·.lost) rest :=
          count_clear (by omega) (by split at hl <;> omega)
        have hset : (t.sack begin item).sackedOut = sacked + item.size + total (·.sacked) rest := by
          show uint32 (t.sackedOut + item.size) = _
          rw [uint32_add (by omega)]
          omega
        obtain ⟨hitems, hl', hs'⟩ := updateItems_some rest _ _ lost (sacked + item.size) hr hclear hset (by omega)
          (by omega)
        rw [if_neg Bool.false_ne_true, total_cons, total_cons, if_pos rfl, ← hitems]
        refine ⟨rfl, ?_, ?_⟩
        · rw [if_neg Bool.false_ne_true]
          omega
        · show _ = sacked + (item.size + _)
          omega
    · rw [if_neg hin] at h ⊢
      by_cases hpast : (begin.add item.size).gt block.2 = true
      · rw [if_pos hpast] at h ⊢
        cases h
        rw [total_cons, total_cons]
        exact ⟨rfl, hl, hs⟩
      · rw [if_neg hpast] at h ⊢
        obtain ⟨r, hr, heq⟩ := map_eq_some_iff.mp h
        cases heq
        obtain ⟨hitems, hl', hs'⟩ := updateItems_some rest _ t (lost + if item.lost then item.size else 0)
          (sacked + if item.sacked then item.size else 0) hr (by omega) (by omega) (by split <;> omega)
          (by split <;> omega)
        rw [total_cons, total_cons, ← hitems]
        exact ⟨rfl, by omega, by omega⟩

theorem Ledger.updateBlocks : ∀ (list : List (SequenceNumber32 × SequenceNumber32)) {b b' : TcpTxBuffer}
    (bytesSacked : Nat) {bytesSacked' : Nat} {finished : Bool}, Ledger b P data →
    TcpTxBuffer.updateBlocks list b bytesSacked = some (b', bytesSacked', finished) →
    Ledger b' P data ∧ b' = { b with
      sentList := sackBlocks b.firstByteSeq b.sentSize list b.sentList
      lostOut := b'.lostOut
      sackedOut := b'.sackedOut
      highestSack := b'.highestSack }
  | [], b, b', _, _, _, h, hrun => by
    cases hrun
    exact ⟨h, rfl⟩
  | block :: list, b, b', bytesSacked, _, _, h, hrun => by
    have hlength := h.length_le
    have hbound := h.bound
    rw [TcpTxBuffer.updateBlocks] at hrun
    rw [sackBlocks]
    by_cases hbeyond : (b.firstByteSeq.add b.sentSize).lt block.1 = true
    · rw [if_pos hbeyond] at hrun ⊢
      cases hrun
      exact ⟨h, rfl⟩
    · rw [if_neg hbeyond] at hrun ⊢
      obtain ⟨⟨items, t⟩, hitems, hrun⟩ := bind_eq_some_iff.mp hrun
      obtain ⟨rfl, hl, hs⟩ := updateItems_some b.sentList b.firstByteSeq _ 0 0 hitems
        (h.lostOut.trans (Nat.zero_add _).symm) (h.sackedOut.trans (Nat.zero_add _).symm) (by omega) (by omega)
      obtain ⟨halike, hretrans⟩ := nowSacked_alike (sackItems_related block b.sentList b.firstByteSeq)
      rw [Nat.zero_add] at hl hs
      have hledger : Ledger { b with
          sentList := sackItems block b.firstByteSeq b.sentList
          lostOut := t.lostOut
          sackedOut := t.sackedOut
          highestSack := t.highestSack } P data :=
        h.reflag halike hs hl (h.retrans.trans hretrans.symm)
      obtain ⟨h', hframe⟩ := Ledger.updateBlocks list _ hledger hrun
      exact ⟨h', hframe⟩

theorem update_some {list : List (SequenceNumber32 × SequenceNumber32)} (hupdate : b.update list = some (b', n)) :
    ∃ b₁ finished, TcpTxBuffer.updateBlocks list b 0 = some (b₁, n, finished) ∧
    (b' = b₁ ∧ (finished = false ∨ n = 0) ∨ 0 < n ∧ finished = true ∧ b₁.updateLostCount = some b') ∧
    (finished = true → ∀ i ∈ b'.sentList.head?, i.sacked = false) := by
  unfold TcpTxBuffer.update at hupdate
  obtain ⟨⟨b₁, n₁, finished⟩, hblocks, hupdate⟩ := bind_eq_some_iff.mp hupdate
  cases finished with
  | false =>
    cases hupdate
    exact ⟨b₁, false, hblocks, .inl ⟨rfl, .inl rfl⟩, fun hf => by cases hf⟩
  | true =>
    obtain ⟨b₂, hcount, hupdate⟩ := bind_eq_some_iff.mp hupdate
    cases hlist : b₂.sentList with
    | nil =>
      rw [hlist] at hupdate
      cases hupdate
    | cons head rest =>
      rw [hlist] at hupdate
      obtain ⟨⟨hhead, -⟩, hupdate⟩ := ite_none_right_eq_some.mp hupdate
      cases hupdate
      refine ⟨b₁, true, hblocks, ?_, fun _ i hi => ?_⟩
      · by_cases hpos : 0 < n₁
        · rw [if_pos hpos] at hcount
          exact .inr ⟨hpos, rfl, hcount⟩
        · rw [if_neg hpos] at hcount
          exact .inl ⟨(Option.some.inj hcount).symm, .inr (Nat.eq_zero_of_not_pos hpos)⟩
      · rw [hlist] at hi
        cases hi
        exact hhead

theorem Ledger.update (h : Ledger b P data) {list : List (SequenceNumber32 × SequenceNumber32)}
    (hupdate : b.update list = some (b', n)) : Ledger b' P data := by
  obtain ⟨b₁, finished, hblocks, hcase, -⟩ := update_some hupdate
  obtain ⟨h₁, -⟩ := Ledger.updateBlocks list 0 h hblocks
  rcases hcase with ⟨rfl, -⟩ | ⟨-, -, hcount⟩
  · exact h₁
  · obtain ⟨a, head, rest, i, items, -, -, -, -, -, hsame, rfl⟩ := h₁.updateLostCount hcount
    refine h₁.reflag hsame.alike ?_ rfl ?_
    · exact h₁.sackedOut.trans (hsame.total_eq (fun k => k.2.2.2.2) fun _ => rfl).symm
    · exact h₁.retrans.trans (hsame.total_eq (fun k => k.2.2.2.1) fun _ => rfl).symm

end

end TcpTxBuffer

end Ns3
