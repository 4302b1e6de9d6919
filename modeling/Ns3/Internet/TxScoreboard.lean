import Mathlib.Algebra.Order.BigOperators.Group.List
import Ns3.Internet.TxHighest

/-!
# The iterator through every call

`Straight` says that the iterator stands at the highest sacked item and that the
head is not sacked. Every call keeps it, where blocks sack in order and a guess
has no sacked item behind it.
-/

namespace Ns3

open List Option

namespace TcpTxBuffer

open SequenceNumber32

/-! ## Addresses -/

def addresses (b : TcpTxBuffer) : List Nat := (b.sentList ++ b.appList).map (·.address)

/-- The items of a buffer, to be told apart by their addresses. -/
structure Named (b : TcpTxBuffer) : Prop where
  nodup : b.addresses.Nodup
  fresh : ∀ a ∈ b.addresses, a < b.nextAddress

section
variable {b b' : TcpTxBuffer} {P : Nat} {data : Bytes}

theorem Named.of_readdressed (h : Named b) (h' : Readdressed b.addresses b.nextAddress b'.addresses b'.nextAddress) :
    Named b' :=
  ⟨h'.nodup h.nodup h.fresh, h'.bound h.fresh⟩

theorem Named.of_sublist (h : Named b) (hsub : b'.addresses.Sublist b.addresses)
    (hnext : b'.nextAddress = b.nextAddress) : Named b' :=
  ⟨h.nodup.sublist hsub, fun a ha => hnext ▸ h.fresh a (hsub.subset ha)⟩

theorem Alike.address {l l' : List TcpTxItem} (h : Alike l l') : l'.map (·.address) = l.map (·.address) := by
  have hmap : ∀ l : List TcpTxItem, l.map (·.address) =
      (l.map fun i => (i.address, i.packet, i.startSeq)).map Prod.fst := by
    intro l
    rw [List.map_map]
    rfl
  rw [hmap, hmap, h]

theorem Named.reflag (h : Named b) (halike : Alike b.sentList b'.sentList) (happ : b'.appList = b.appList)
    (hnext : b'.nextAddress = b.nextAddress) : Named b' := by
  have hsame : b'.addresses = b.addresses := by
    rw [addresses, addresses, map_append, map_append, happ, halike.address]
  exact h.of_sublist (hsame ▸ Sublist.refl _) hnext

theorem Named.add (h : Named b) (p : Bytes) : Named (b.add p).1 := by
  unfold TcpTxBuffer.add
  split
  · split
    · constructor
      · have hnew : b.nextAddress ∉ b.addresses := fun ha => Nat.lt_irrefl _ (h.fresh _ ha)
        have hnodup : (b.addresses ++ [b.nextAddress]).Nodup := by
          rw [nodup_append]
          refine ⟨h.nodup, by simp, fun a ha c hc heq => hnew ?_⟩
          rw [← mem_singleton.mp hc, ← heq]
          exact ha
        simpa [addresses] using hnodup
      · intro a ha
        have ha' : a ∈ b.addresses ++ [b.nextAddress] := by simpa [addresses] using ha
        rcases mem_append.mp ha' with ha' | ha'
        · exact Nat.lt_succ_of_lt (h.fresh a ha')
        · exact Nat.lt_succ_of_le (Nat.le_of_eq (mem_singleton.mp ha'))
    · exact h
  · exact h

theorem Named.served (h : Named b) {now : Int} {item : TcpTxItem} (hserved : Served b now P b' item) : Named b' := by
  apply h.of_readdressed
  unfold addresses
  cases hserved with
  | @again l retrans nextAddress hre hs =>
    have hframe := hre.addresses.frame [] (b.appList.map (·.address))
    simpa [Located.list, append_assoc] using hframe
  | @new item app nextAddress hitem haddress =>
    have hframe := haddress.frame (b.sentList.map (·.address)) []
    simpa [append_assoc] using hframe

theorem Named.copyFromSequence (h : Named b) (hledger : Ledger b P data) {now : Int} {n s : Nat}
    {out : Option TcpTxItem} (hcopy : b.copyFromSequence now n (ofPosition s) = some (b', out)) : Named b' := by
  rcases hledger.copyRequest_inv _ _ hcopy with ⟨rfl, -⟩ | ⟨item, -, hserved⟩
  · exact h
  · exact h.served hserved

theorem Named.discardLoop (now : Int) : ∀ (rounds : Nat) {b b' : TcpTxBuffer} {P : Nat} {data : Bytes} {offset : Nat},
    Ledger b P data → Named b → TcpTxBuffer.discardLoop now rounds b offset = some b' → Named b'
  | 0, _, _, _, _, _, _, _, hrun => by cases hrun
  | rounds + 1, b, b', P, data, offset, hledger, h, hrun => by
    rw [TcpTxBuffer.discardLoop] at hrun
    by_cases hgo : 0 < b.size ∧ 0 < offset
    · rw [if_pos hgo] at hrun
      obtain ⟨b₁, hfill, hrun⟩ := bind_eq_some_iff.mp hrun
      have hfilled : Ledger b₁ P data ∧ Named b₁ := by
        unfold TcpTxBuffer.fillSentList at hfill
        cases hlist : b.sentList with
        | nil =>
          rw [hlist, hledger.head] at hfill
          obtain ⟨⟨b₂, out⟩, hcopy, hfill⟩ := bind_eq_some_iff.mp hfill
          obtain ⟨item, -, rfl⟩ := map_eq_some_iff.mp hfill
          exact ⟨hledger.copyFromSequence hcopy, h.copyFromSequence hledger hcopy⟩
        | cons item rest =>
          rw [hlist] at hfill
          cases hfill
          exact ⟨hledger, h⟩
      obtain ⟨h₁, hnamed₁⟩ := hfilled
      cases hlist : b₁.sentList with
      | nil =>
        rw [hlist] at hrun
        cases hrun
      | cons item rest =>
        rw [hlist] at hrun
        obtain ⟨-, hrun⟩ := ite_none_right_eq_some.mp hrun
        by_cases hle : item.size ≤ offset
        · rw [if_pos hle] at hrun
          obtain ⟨sackedOut, lostOut, retrans, hcounts, h₂⟩ := h₁.cut hlist (Nat.le_refl item.size)
          have hnil : remainder item item.size = [] := if_pos (Nat.le_refl _)
          rw [hnil, nil_append] at h₂
          rw [hcounts, bind_some] at hrun
          refine Named.discardLoop now rounds h₂ ?_ hrun
          refine hnamed₁.of_sublist ?_ rfl
          simp [addresses, hlist, advance]
        · rw [if_neg hle] at hrun
          obtain ⟨sackedOut, lostOut, retrans, hcounts, -⟩ := h₁.cut hlist (Nat.le_of_lt (Nat.not_le.mp hle))
          rw [hcounts, map_some] at hrun
          cases hrun
          refine hnamed₁.of_sublist ?_ rfl
          simp [addresses, hlist, advance]
    · rw [if_neg hgo] at hrun
      cases hrun
      exact h

end

/-! ## The iterator -/

/-- The iterator stands at the highest sacked item, and the head is not sacked. -/
structure Straight (b : TcpTxBuffer) : Prop extends Named b where
  highest : b.highestSack = lastKey (sackedKeys b.sentList)
  unsacked : ∀ i ∈ b.sentList.head?, i.sacked = false

theorem sackedKeys_map (f : TcpTxItem → TcpTxItem)
    (h : ∀ i, ((f i).address, (f i).startSeq, (f i).sacked) = (i.address, i.startSeq, i.sacked)) :
    ∀ l : List TcpTxItem, sackedKeys (l.map f) = sackedKeys l
  | [] => rfl
  | i :: l => by
    have hi := h i
    simp only [Prod.mk.injEq] at hi
    rw [map_cons]
    cases hs : i.sacked with
    | true =>
      rw [sackedKeys_cons_of_sacked hs, sackedKeys_cons_of_sacked (hi.2.2.trans hs), sackedKeys_map f h l, hi.1, hi.2.1]
    | false => rw [sackedKeys_cons_of_not hs, sackedKeys_cons_of_not (hi.2.2.trans hs), sackedKeys_map f h l]

theorem OnlyLost.sackedKeys : ∀ {l l' : List TcpTxItem}, OnlyLost l l' →
    TcpTxBuffer.sackedKeys l' = TcpTxBuffer.sackedKeys l
  | [], [], _ => rfl
  | i :: l, i' :: l', h => by
    unfold OnlyLost at h
    simp only [List.map_cons, List.cons.injEq, board, Prod.mk.injEq] at h
    cases hs : i.sacked with
    | true =>
      rw [sackedKeys_cons_of_sacked hs, sackedKeys_cons_of_sacked (h.1.2.2.2.2.trans hs), OnlyLost.sackedKeys h.2, h.1.1,
        h.1.2.2.1]
    | false => rw [sackedKeys_cons_of_not hs, sackedKeys_cons_of_not (h.1.2.2.2.2.trans hs), OnlyLost.sackedKeys h.2]

theorem lastKey_suffix {l l' : List TcpTxItem} (h : l' <:+ l) (hne : sackedKeys l' ≠ []) :
    lastKey (sackedKeys l) = lastKey (sackedKeys l') := by
  obtain ⟨t, rfl⟩ := h
  rw [sackedKeys_append, lastKey, lastKey, getLast?_append_of_ne_nil _ hne]

section
variable {b b' : TcpTxBuffer} {P : Nat} {data : Bytes}

theorem Ledger.small (h : Ledger b P data) : (bytesOf b.sentList).length < 2147483648 := by
  have hlength := h.length_le
  have hbound := h.bound
  omega

theorem Straight.add (h : Straight b) (p : Bytes) : Straight (b.add p).1 := by
  have hnamed := h.toNamed.add p
  have hsent : (b.add p).1.sentList = b.sentList ∧ (b.add p).1.highestSack = b.highestSack := by
    unfold TcpTxBuffer.add
    split
    · split <;> exact ⟨rfl, rfl⟩
    · exact ⟨rfl, rfl⟩
  exact ⟨hnamed, by rw [hsent.1, hsent.2]; exact h.highest, by rw [hsent.1]; exact h.unsacked⟩

theorem Straight.of_keys (h : Straight b) (hledger : Ledger b P data) (hledger' : Ledger b' P data) (hnamed : Named b')
    (hkeys : sackedKeys b'.sentList = sackedKeys b.sentList) (hhighest : b'.highestSack = b.highestSack)
    (hat : SackedAt P b'.sentList P → SackedAt P b.sentList P) : Straight b' := by
  refine ⟨hnamed, by rw [hhighest, hkeys, h.highest], fun i hi => ?_⟩
  rw [← Bool.not_eq_true]
  intro hs
  obtain ⟨j, hj, hjs⟩ := (sackedAt_head hledger.laid).mp (hat ((sackedAt_head hledger'.laid).mpr ⟨i, hi, hs⟩))
  rw [h.unsacked j hj] at hjs
  cases hjs

theorem Served.sacked {now : Int} {item : TcpTxItem} (hserved : Served b now P b' item) :
    sackedKeys b'.sentList = sackedKeys b.sentList ∧ b'.highestSack = b.highestSack ∧
      ∀ q, SackedAt P b'.sentList q → SackedAt P b.sentList q := by
  cases hserved with
  | @again l retrans nextAddress hre hs =>
    have hlist : (l.list.filter (·.sacked)) = b.sentList.filter (·.sacked) := hre.untouched rfl
    refine ⟨?_, rfl, fun q hq => (hre.sackedAt P q).mp ?_⟩
    · rw [sackedKeys, sackedKeys, ← hlist, Located.list]
      simp [hs]
    · simp only [Located.list, sackedAt_append, sackedAt_cons] at hq ⊢
      exact hq
  | @new item app nextAddress hitem haddress =>
    refine ⟨?_, rfl, fun q hq => ?_⟩
    · simp [sackedKeys, hitem.sacked]
    · simp only [sackedAt_append, sackedAt_cons, sackedAt_nil, hitem.sacked, Bool.false_eq_true, false_and, or_false] at hq
      exact hq

theorem Straight.copyFromSequence (h : Straight b) (hledger : Ledger b P data) {now : Int} {n s : Nat}
    {out : Option TcpTxItem} (hcopy : b.copyFromSequence now n (ofPosition s) = some (b', out)) : Straight b' := by
  have hnamed := h.toNamed.copyFromSequence hledger hcopy
  rcases hledger.copyRequest_inv _ _ hcopy with ⟨rfl, -⟩ | ⟨item, -, hserved⟩
  · exact h
  · obtain ⟨hkeys, hhighest, hat⟩ := hserved.sacked
    exact h.of_keys hledger (hledger.served hserved) hnamed hkeys hhighest (hat P)

theorem Straight.of_unsacked (hnamed : Named b) (hnone : ∀ i ∈ b.sentList, i.sacked = false)
    (hhighest : b.highestSack = (none, ⟨0⟩)) : Straight b := by
  refine ⟨hnamed, ?_, fun i hi => hnone i (mem_of_head? hi)⟩
  rw [hhighest, sackedKeys_nil hnone]
  rfl

theorem Straight.resetLastSegmentSent (h : Straight b) (hlast : ∀ i ∈ b.sentList.getLast?, i.sacked = false) :
    Straight b.resetLastSegmentSent := by
  unfold TcpTxBuffer.resetLastSegmentSent
  cases hitem : b.sentList.getLast? with
  | none => exact h
  | some item =>
    obtain ⟨init, hsplit⟩ := getLast?_eq_some_iff.mp hitem
    have hflag := hlast item hitem
    have hhighest := h.highest
    have hunsacked := h.unsacked
    rw [hsplit, dropLast_concat]
    rw [hsplit, sackedKeys_append, sackedKeys_cons_of_not hflag, show sackedKeys [] = [] from rfl,
      append_nil] at hhighest
    refine ⟨h.toNamed.of_sublist ?_ rfl, hhighest, fun i hi => hunsacked i ?_⟩
    · simp [addresses, hsplit]
    · rw [hsplit, head?_append, mem_def.mp hi]
      rfl

theorem Straight.resetRenoSack (h : Straight b) : Straight b.resetRenoSack := by
  have halike : Alike b.sentList (b.sentList.map unsack) := by
    apply alike_map
    intro i
    rfl
  refine .of_unsacked (h.toNamed.reflag halike rfl rfl) ?_ rfl
  intro i hi
  obtain ⟨j, -, rfl⟩ := List.mem_map.mp hi
  rfl

theorem Straight.resetSentList (h : Straight b) : Straight b.resetSentList := by
  refine .of_unsacked (h.toNamed.of_sublist ?_ rfl) ?_ rfl
  · simp [addresses, TcpTxBuffer.resetSentList, Function.comp_def]
  · intro i hi
    cases hi

theorem Straight.setHeadSequence (h : Straight b) {seq : SequenceNumber32}
    (hset : b.setHeadSequence seq = some b') : Straight b' := by
  obtain ⟨hnil, hset⟩ := ite_none_right_eq_some.mp hset
  cases hset
  refine .of_unsacked (h.toNamed.of_sublist (Sublist.refl _) rfl) ?_ rfl
  rw [show ({ b with firstByteSeq := seq, highestSack := (none, ⟨0⟩) } : TcpTxBuffer).sentList = b.sentList from rfl, hnil]
  simp

theorem Straight.setSentListLost (h : Straight b) (hledger : Ledger b P data) {resetSack : Bool}
    (hset : b.setSentListLost resetSack = some b') : Straight b' := by
  rw [setSentListLost_some hset]
  have hsmall := hledger.small
  cases resetSack with
  | true =>
    have halike : Alike b.sentList
        (b.sentList.map fun item => { item with sacked := false, lost := true, retrans := false }) := by
      apply alike_map
      intro i
      rfl
    refine .of_unsacked (h.toNamed.reflag halike rfl rfl) ?_ rfl
    intro i hi
    obtain ⟨j, -, rfl⟩ := List.mem_map.mp hi
    rfl
  | false =>
    have halike : Alike b.sentList (b.sentList.map loseItem) := by
      apply alike_map
      intro i
      rfl
    rw [if_neg Bool.false_ne_true, loseUnsacked_eq b.sentList 0 (by omega)]
    refine ⟨h.toNamed.reflag halike rfl rfl, ?_, fun i hi => ?_⟩
    · rw [sackedKeys_map loseItem (fun _ => rfl), h.highest]
    · have hi' : i ∈ (b.sentList.map loseItem).head? := hi
      rw [head?_map] at hi'
      obtain ⟨j, hj, rfl⟩ := map_eq_some_iff.mp hi'
      exact h.unsacked j hj

theorem Straight.deleteRetransmittedFlagFromHead (h : Straight b)
    (hdelete : b.deleteRetransmittedFlagFromHead = some b') : Straight b' := by
  rcases deleteRetransmittedFlagFromHead_some hdelete with rfl | ⟨head, rest, hlist, -, rfl⟩
  · exact h
  · have hhead := h.unsacked head (by simp [hlist])
    have hhighest := h.highest
    rw [hlist, sackedKeys_cons_of_not hhead] at hhighest
    refine ⟨h.toNamed.reflag (hlist ▸ Alike.cons rfl (Alike.refl rest)) rfl rfl, ?_, fun i hi => ?_⟩
    · rw [hhighest, sackedKeys_cons_of_not (show ({ head with retrans := false } : TcpTxItem).sacked = false from hhead)]
    · cases hi
      exact hhead

theorem markHeadAsLost_highest {head : TcpTxItem} {rest : List TcpTxItem} (hlist : b.sentList = head :: rest) :
    b.markHeadAsLost.highestSack = b.highestSack ∧ sackedKeys b.markHeadAsLost.sentList = sackedKeys rest ∧
      (∀ i ∈ b.markHeadAsLost.sentList.head?, i.sacked = false) ∧ Alike b.sentList b.markHeadAsLost.sentList ∧
      b.markHeadAsLost.firstByteSeq = b.firstByteSeq := by
  unfold TcpTxBuffer.markHeadAsLost
  rw [hlist]
  refine ⟨rfl, sackedKeys_cons_of_not rfl rest, fun i hi => ?_, Alike.cons rfl (Alike.refl rest), rfl⟩
  cases hi
  rfl

theorem Named.markHeadAsLost (h : Named b) : Named b.markHeadAsLost := by
  cases hlist : b.sentList with
  | nil =>
    unfold TcpTxBuffer.markHeadAsLost
    rw [hlist]
    exact h
  | cons head rest =>
    refine h.reflag (markHeadAsLost_highest hlist).2.2.2.1 ?_ ?_ <;>
      (unfold TcpTxBuffer.markHeadAsLost; rw [hlist])

theorem Straight.markHeadAsLost (h : Straight b) : Straight b.markHeadAsLost := by
  cases hlist : b.sentList with
  | nil =>
    unfold TcpTxBuffer.markHeadAsLost
    rw [hlist]
    exact h
  | cons head rest =>
    obtain ⟨hhighest, hkeys, hhead, -, -⟩ := markHeadAsLost_highest hlist
    refine ⟨h.toNamed.markHeadAsLost, ?_, hhead⟩
    rw [hhighest, hkeys, h.highest, hlist, sackedKeys_cons_of_not (h.unsacked head (by simp [hlist]))]

/-- No item is sacked behind the first one that is not, the head apart. -/
def GuessedLast (items : List TcpTxItem) : Prop :=
  ∀ i ∈ (items.tail.dropWhile (·.sacked)).tail, i.sacked = false

theorem addRenoSack_highest (hadd : b.addRenoSack = some b') (hguess : GuessedLast b.sentList) :
    (b' = b ∧ ∀ i ∈ b.sentList.tail, i.sacked = true) ∨
      Alike b.sentList b'.sentList ∧ b'.appList = b.appList ∧ b'.nextAddress = b.nextAddress ∧
        b'.firstByteSeq = b.firstByteSeq ∧ b'.sentList.head? = b.sentList.head? ∧ sackedKeys b'.sentList.tail ≠ [] ∧
        b'.highestSack = lastKey (sackedKeys b'.sentList.tail) := by
  rcases addRenoSack_some hadd with hsame | ⟨head, middle, item, after, hlist, hmiddle, hitem, rfl⟩
  · exact .inl hsame
  · have hdrop : (middle ++ item :: after).dropWhile (·.sacked) = item :: after := by
      rw [dropWhile_append_of_pos hmiddle, dropWhile_cons_of_neg (by simp [hitem])]
    have hafter : sackedKeys after = [] := by
      apply sackedKeys_nil
      intro i hi
      apply hguess
      rw [hlist, tail_cons, hdrop]
      exact hi
    have hkeys : sackedKeys (middle ++ { item with sacked := true } :: after) =
        sackedKeys middle ++ [(item.address, item.startSeq)] := by
      rw [sackedKeys_append, sackedKeys_cons_of_sacked rfl, hafter]
    refine .inr ⟨?_, rfl, rfl, rfl, by rw [hlist]; rfl, ?_, ?_⟩
    · rw [hlist]
      exact Alike.cons rfl (Alike.append (Alike.refl _) (Alike.cons rfl (Alike.refl _)))
    · rw [tail_cons, hkeys]
      simp
    · rw [tail_cons, hkeys, lastKey, getLast?_concat]

theorem Straight.addRenoSack (h : Straight b) (hadd : b.addRenoSack = some b') (hguess : GuessedLast b.sentList) :
    Straight b' := by
  rcases addRenoSack_highest hadd hguess with ⟨rfl, -⟩ | ⟨halike, happ, hnext, -, hhead, hne, hhighest⟩
  · exact h
  · refine ⟨h.toNamed.reflag halike happ hnext, ?_, hhead ▸ h.unsacked⟩
    cases hlist : b'.sentList with
    | nil =>
      rw [hlist] at hne
      exact absurd rfl hne
    | cons head rest =>
      have hflag : head.sacked = false := h.unsacked head (by rw [← hhead, hlist]; rfl)
      rw [hhighest, hlist, sackedKeys_cons_of_not hflag]
      rfl

/-! ## Cumulative acknowledgments -/

theorem dropBytes_tail : ∀ (l : List TcpTxItem) (k : Nat), (dropBytes k l).tail <:+ l
  | [], _ => List.suffix_refl []
  | item :: rest, k => by
    rw [dropBytes]
    by_cases hzero : k = 0
    · rw [if_pos hzero]
      exact List.suffix_cons item rest
    · rw [if_neg hzero, remainder]
      by_cases hwhole : item.size ≤ k
      · rw [if_pos hwhole, List.nil_append]
        exact (dropBytes_tail rest _).trans (List.suffix_cons item rest)
      · rw [if_neg hwhole, List.singleton_append, List.tail_cons, Nat.sub_eq_zero_of_le (Nat.le_of_not_le hwhole),
          dropBytes_zero]
        exact List.suffix_cons item rest

theorem sackedKeys_ne_nil {l : List TcpTxItem} {i : TcpTxItem} (hi : i ∈ l) (hs : i.sacked = true) : sackedKeys l ≠ [] := by
  rw [sackedKeys, Ne, map_eq_nil_iff]
  exact ne_nil_of_mem (mem_filter.mpr ⟨hi, hs⟩)

theorem Straight.passed (h : Straight b) (hledger : Ledger b P data) {k P' : Nat} (hk : P + k ≤ P')
    (hnear : P' ≤ P + 2147483648) (hlaid : Laid P' (dropBytes k b.sentList))
    (hnone : sackedKeys (dropBytes k b.sentList).tail = []) :
    b.highestSack = (none, ⟨0⟩) ∨ b.highestSack.2.le (ofPosition P') = true := by
  have hsmall := hledger.small
  rw [h.highest, lastKey_sackedKeys]
  cases hlast : (b.sentList.filter (·.sacked)).getLast? with
  | none => exact .inl rfl
  | some j =>
    refine .inr ?_
    obtain ⟨hj, hs, -⟩ := hledger.laid.last_sacked hsmall hlast
    obtain ⟨hstart, -, hstop⟩ := hledger.laid.place hsmall hj
    rw [stopOf] at hstop
    have hbehind : startOf P j ≠ 0 := by
      intro hzero
      have hat := (sackedAt_head hledger.laid).not.mpr (by
        rintro ⟨i, hi, hs⟩
        rw [h.unsacked i hi] at hs
        cases hs)
      obtain ⟨before, after, hlist, hplace, hpos⟩ := hledger.laid.split hj
      apply hat
      rw [hlist, sackedAt_append, sackedAt_cons]
      rw [hlist, bytesOf_append, length_append] at hsmall
      rw [startOf_eq hplace (by omega)] at hzero
      exact .inr (.inl ⟨hs, by omega, by omega⟩)
    show j.startSeq.le (ofPosition P') = true
    by_cases hgone : startOf P j < k
    · rw [hstart, le_ofPosition ⟨by omega, by omega⟩, decide_eq_true_eq]
      omega
    · -- what is left of it is the head
      have hrest : j ∈ dropBytes k b.sentList :=
        mem_dropBytes_of_behind hledger.laid hsmall hj hstart (by omega) (by omega)
      cases hlist : dropBytes k b.sentList with
      | nil =>
        rw [hlist] at hrest
        cases hrest
      | cons head rest =>
        rw [hlist] at hrest hlaid hnone
        rcases mem_cons.mp hrest with rfl | hrest
        · rw [hlaid.1, le_ofPosition ⟨by omega, by omega⟩]
          exact decide_eq_true (Nat.le_refl _)
        · exact absurd hnone (sackedKeys_ne_nil hrest hs)

theorem dropIterator_behind (hhead : b.firstByteSeq = ofPosition P) (hlaid : Laid P b.sentList)
    (hsmall : (bytesOf b.sentList).length < 2147483648) (hne : sackedKeys b.sentList.tail ≠ [])
    (hhighest : b.highestSack = lastKey (sackedKeys b.sentList.tail)) : b.dropIterator = b := by
  unfold dropIterator
  rw [if_neg]
  rw [hhighest, lastKey_sackedKeys, hhead]
  cases hlist : b.sentList with
  | nil =>
    rw [hlist] at hne
    exact absurd rfl hne
  | cons head rest =>
    rw [hlist] at hlaid hsmall hne
    cases hlast : (rest.filter (·.sacked)).getLast? with
    | none =>
      rw [getLast?_eq_none_iff] at hlast
      rw [tail_cons, sackedKeys, hlast] at hne
      exact absurd rfl hne
    | some j =>
      rw [length_bytesOf_cons] at hsmall
      obtain ⟨hj, -, -⟩ := hlaid.2.2.last_sacked (by omega) hlast
      obtain ⟨before, after, rfl, hstart, -⟩ := hlaid.2.2.split hj
      have hpos := hlaid.2.1
      rw [bytesOf_append, length_append] at hsmall
      rw [tail_cons, hlast]
      show ¬ j.startSeq.le (ofPosition P) = true
      rw [hstart, le_ofPosition ⟨by omega, by omega⟩, decide_eq_true_eq]
      omega

theorem Straight.of_behind (hnamed : Named b) (hhead : b.firstByteSeq = ofPosition P) (hlaid : Laid P b.sentList)
    (hsmall : (bytesOf b.sentList).length < 2147483648) (hunsacked : ∀ i ∈ b.sentList.head?, i.sacked = false)
    (hne : sackedKeys b.sentList.tail ≠ []) (hhighest : b.highestSack = lastKey (sackedKeys b.sentList.tail)) :
    Straight b.dropIterator := by
  rw [dropIterator_behind hhead hlaid hsmall hne hhighest]
  refine ⟨hnamed, ?_, hunsacked⟩
  rw [hhighest]
  cases hlist : b.sentList with
  | nil => rfl
  | cons head rest => rw [sackedKeys_cons_of_not (hunsacked head (by simp [hlist])), tail_cons]

theorem Straight.of_tail {c : TcpTxBuffer} {P' k : Nat} {data' : Bytes} (h : Straight b) (hledger : Ledger b P data)
    (hk : P + k ≤ P') (hnear : P' ≤ P + 2147483648) (hlaid : Laid P' (dropBytes k b.sentList)) (hnamed : Named c)
    (hledger' : Ledger c P' data') (hunsacked : ∀ i ∈ c.sentList.head?, i.sacked = false)
    (htail : c.sentList.tail = (dropBytes k b.sentList).tail) (hhighest : c.highestSack = b.highestSack) :
    Straight c.dropIterator := by
  by_cases hnone : sackedKeys c.sentList.tail = []
  · have hpassed := h.passed hledger hk hnear hlaid (htail ▸ hnone)
    have hdrop : c.dropIterator = { c with highestSack := (none, ⟨0⟩) } := by
      unfold dropIterator
      rcases hpassed with hnone | hle
      · split
        · rfl
        · rw [← hnone, ← hhighest]
      · rw [hhighest, if_pos (hledger'.head ▸ hle)]
    have hkeys : sackedKeys c.sentList = [] := by
      cases hlist : c.sentList with
      | nil => rfl
      | cons head rest =>
        rw [hlist] at hnone hunsacked
        rw [sackedKeys_cons_of_not (hunsacked head rfl)]
        exact hnone
    rw [hdrop]
    refine ⟨hnamed.of_sublist (Sublist.refl _) rfl, ?_, hunsacked⟩
    rw [hkeys]
    rfl
  · apply Straight.of_behind hnamed hledger'.head hledger'.laid hledger'.small hunsacked hnone
    rw [hhighest, h.highest]
    rw [htail] at hnone ⊢
    exact lastKey_suffix (dropBytes_tail _ _) hnone

/-- Where the acknowledgment stops at a sacked item, its flag goes to one with no
sacked item behind it. -/
def StopsWell (b : TcpTxBuffer) (seq : SequenceNumber32) : Prop :=
  b.firstByteSeq.ge seq = false → ∀ i ∈ (dropBytes (seq.diff b.firstByteSeq) b.sentList).head?, i.sacked = true →
    GuessedLast (dropBytes (seq.diff b.firstByteSeq) b.sentList)

theorem Straight.discardUpTo (h : Straight b) (hledger : Ledger b P data) {now : Int} {s : Nat}
    (hstops : StopsWell b (ofPosition s)) (hdiscard : b.discardUpTo now (ofPosition s) = some b') : Straight b' := by
  rcases hledger.discardUpTo_some hdiscard with
    rfl | ⟨hge, A, k, b₁, b₂, hseq, hA, hA', hk, hloop, hledger₁, hdropped, hhead, rfl⟩
  · exact h
  · have hnamed₁ := h.toNamed.discardLoop now _ hledger hloop
    have hlength := hledger.length_le
    have hrest : dropBytes ((ofPosition s).diff b.firstByteSeq) b.sentList = dropBytes k b.sentList := by
      rw [hseq, hledger.head, diff_ofPosition (by omega) (by omega)]
      by_cases hmin : A - P ≤ data.length
      · rw [hk, Nat.min_eq_left hmin]
      · rw [dropBytes_all hledger.laid (by omega), dropBytes_all hledger.laid (by omega)]
    have hstops' := hstops hge
    rw [hrest] at hstops'
    have hsettled := hledger₁.settleHead A
    generalize hP' : (if data.drop k = [] then A else P + k) = P' at hsettled
    have hbounds : P + k ≤ P' ∧ P' ≤ P + 2147483648 := by
      rw [← hP']
      split <;> omega
    have hlist : (b₁.settleHead A).sentList = dropBytes k b.sentList := by
      rw [← hdropped.sentList]
      unfold TcpTxBuffer.settleHead
      split <;> rfl
    have hhighest : (b₁.settleHead A).highestSack = b.highestSack := by
      rw [← hdropped.highestSack]
      unfold TcpTxBuffer.settleHead
      split <;> rfl
    have hnamed : Named (b₁.settleHead A) := by
      apply hnamed₁.reflag <;> (unfold TcpTxBuffer.settleHead; split <;> rfl)
    have hledger₂ := hsettled.unsackHead hhead
    rcases unsackHead_some hhead with ⟨rfl, hunsacked⟩ | ⟨head, rest, b₃, hlist', hs, hl, hadd, rfl⟩
    · exact h.of_tail hledger hbounds.1 hbounds.2 (hlist ▸ hsettled.laid) hnamed hledger₂ hunsacked
        (congrArg tail hlist) hhighest
    · have hdrop := hlist.symm.trans hlist'
      rw [hdrop] at hstops'
      have hguess : GuessedLast (head :: rest) := hstops' head rfl hs
      have hcleared : Named { b₁.settleHead A with
          sentList := { head with sacked := false } :: rest
          sackedOut := uint32 ((b₁.settleHead A).sackedOut - head.size) } := by
        refine hnamed.reflag ?_ rfl rfl
        rw [hlist']
        exact Alike.cons rfl (Alike.refl rest)
      rcases addRenoSack_highest hadd hguess with ⟨rfl, -⟩ | ⟨halike, happ, hnext, -, -, hne, hhighest₃⟩
      · obtain ⟨hhighest₂, -, hunsacked, -, -⟩ := markHeadAsLost_highest (b := { b₁.settleHead A with
          sentList := { head with sacked := false } :: rest
          sackedOut := uint32 ((b₁.settleHead A).sackedOut - head.size) }) rfl
        exact h.of_tail hledger hbounds.1 hbounds.2 (hlist ▸ hsettled.laid) hcleared.markHeadAsLost hledger₂ hunsacked
          (by rw [hdrop]; rfl) (hhighest₂.trans hhighest)
      · cases hlist₃ : b₃.sentList with
        | nil =>
          rw [hlist₃] at hne
          exact absurd rfl hne
        | cons head₃ rest₃ =>
          obtain ⟨hhighest₂, -, hunsacked, -, -⟩ := markHeadAsLost_highest hlist₃
          have htail : b₃.markHeadAsLost.sentList.tail = b₃.sentList.tail := by
            unfold TcpTxBuffer.markHeadAsLost
            rw [hlist₃]
            rfl
          refine Straight.of_behind (hcleared.reflag halike happ hnext).markHeadAsLost hledger₂.head hledger₂.laid
            hledger₂.small hunsacked ?_ ?_
          · rw [htail]
            exact hne
          · rw [hhighest₂, htail]
            exact hhighest₃

end

/-! ## The bytes sacked -/

def sizes (items : List TcpTxItem) : Nat := (items.map (·.size)).sum

section
variable {block : SequenceNumber32 × SequenceNumber32}

theorem sizes_append (l l' : List TcpTxItem) : sizes (l ++ l') = sizes l + sizes l' := by
  simp [sizes]

theorem total_sackItems : ∀ (items : List TcpTxItem) (begin : SequenceNumber32),
    total (·.sacked) (sackItems block begin items) = total (·.sacked) items + sizes (newlySacked block begin items)
  | [], _ => rfl
  | item :: rest, begin => by
    have ih := total_sackItems rest (begin.add item.size)
    rw [sackItems, newlySacked]
    split
    · rw [total_cons, total_cons, ih, sizes_append]
      cases hs : item.sacked with
      | true =>
        rw [if_pos rfl, if_pos hs, if_pos rfl, if_pos rfl, show sizes [] = 0 from rfl]
        omega
      | false =>
        show item.size + _ = 0 + _ + (item.size + 0 + _)
        omega
    · split
      · rfl
      · rw [total_cons, total_cons, ih, Nat.add_assoc]

theorem sackItems_eq_self : ∀ {items : List TcpTxItem} {begin : SequenceNumber32},
    newlySacked block begin items = [] → sackItems block begin items = items
  | [], _, _ => rfl
  | item :: rest, begin, h => by
    rw [newlySacked] at h
    rw [sackItems]
    split at h
    · rename_i hin
      rw [if_pos hin]
      obtain ⟨hitem, hrest⟩ := append_eq_nil_iff.mp h
      cases hs : item.sacked with
      | true => rw [if_pos rfl, sackItems_eq_self hrest]
      | false =>
        rw [hs] at hitem
        cases hitem
    · rename_i hin
      rw [if_neg hin]
      split at h
      · rename_i hpast
        rw [if_pos hpast]
      · rename_i hpast
        rw [if_neg hpast, sackItems_eq_self h]

variable {head : SequenceNumber32} {sentSize : Nat}

theorem total_sackBlocks : ∀ (list : List (SequenceNumber32 × SequenceNumber32)) (items : List TcpTxItem),
    total (·.sacked) (sackBlocks head sentSize list items) =
      total (·.sacked) items + sizes (newlySackedBlocks head sentSize list items)
  | [], _ => rfl
  | block :: list, items => by
    rw [sackBlocks, newlySackedBlocks]
    split
    · rfl
    · rw [total_sackBlocks list, total_sackItems, sizes_append, Nat.add_assoc]

theorem sackBlocks_eq_self : ∀ {list : List (SequenceNumber32 × SequenceNumber32)} {items : List TcpTxItem},
    newlySackedBlocks head sentSize list items = [] → sackBlocks head sentSize list items = items
  | [], _, _ => rfl
  | block :: list, items, h => by
    rw [newlySackedBlocks] at h
    rw [sackBlocks]
    split at h
    · rename_i hbeyond
      rw [if_pos hbeyond]
    · rename_i hbeyond
      obtain ⟨hblock, hlist⟩ := append_eq_nil_iff.mp h
      rw [if_neg hbeyond, sackBlocks_eq_self hlist, sackItems_eq_self hblock]

theorem foldl_size : ∀ (items : List TcpTxItem) (n : Nat), n + sizes items < 4294967296 →
    items.foldl (fun n item => uint32 (n + item.size)) n = n + sizes items
  | [], _, _ => rfl
  | item :: items, n, h => by
    have hsizes : sizes (item :: items) = item.size + sizes items := by simp [sizes]
    rw [hsizes] at h ⊢
    rw [foldl_cons, uint32_add (by omega), foldl_size items _ (by omega), Nat.add_assoc]

end

/-! ## The lost items -/

section
variable {b b' : TcpTxBuffer} {P : Nat} {data : Bytes} {thresh : Nat}

theorem loseBehind_unsacked (hthresh : 0 < thresh) : ∀ {after : List TcpTxItem}, (∀ i ∈ after, i.sacked = false) →
    loseBehind thresh after = after
  | [], _ => rfl
  | item :: after, h => by
    have hnone : after.countP (·.sacked) = 0 := by
      rw [countP_eq_zero]
      intro i hi
      rw [h i (mem_cons_of_mem _ hi)]
      exact Bool.false_ne_true
    have hnot : decide (thresh ≤ 0) = false := decide_eq_false (Nat.not_le.mpr hthresh)
    rw [loseBehind, loseBehind_unsacked hthresh fun i hi => h i (mem_cons_of_mem _ hi), hnone, hnot, Bool.and_false,
      Bool.or_false]

theorem loseBehind_append (hthresh : 0 < thresh) {after : List TcpTxItem} (h : ∀ i ∈ after, i.sacked = false) :
    ∀ l : List TcpTxItem, loseBehind thresh (l ++ after) = loseBehind thresh l ++ after
  | [] => loseBehind_unsacked hthresh h
  | item :: l => by
    have hnone : after.countP (·.sacked) = 0 := by
      rw [countP_eq_zero]
      intro i hi
      rw [h i hi]
      exact Bool.false_ne_true
    rw [cons_append, loseBehind, loseBehind, loseBehind_append hthresh h l, countP_append, hnone, Nat.add_zero,
      cons_append]

theorem last_sacked_split {l : List TcpTxItem} {j : TcpTxItem} (h : (l.filter (·.sacked)).getLast? = some j) :
    ∃ before after, l = before ++ j :: after ∧ ∀ i ∈ after, i.sacked = false := by
  obtain ⟨init, hinit⟩ := getLast?_eq_some_iff.mp h
  obtain ⟨l₁, l₂, rfl, -, hl₂⟩ := filter_eq_append_iff.mp hinit
  obtain ⟨before, after, rfl, -, -, hafter⟩ := filter_eq_cons_iff.mp hl₂
  refine ⟨l₁ ++ before, after, by rw [append_assoc], fun i hi => ?_⟩
  simpa using filter_eq_nil_iff.mp hafter i hi

theorem Straight.updateLostCount (h : Straight b) (hledger : Ledger b P data) (hthresh : 0 < b.dupAckThresh)
    (hcount : b.updateLostCount = some b') :
    b' = { b with
      sentList := loseBehind b.dupAckThresh b.sentList
      lostOut := total (·.lost) (loseBehind b.dupAckThresh b.sentList) } := by
  obtain ⟨a, head, rest, i, items, ha, hlist, hi, -, hitems, -, rfl⟩ := hledger.updateLostCount hcount
  have hhighest := h.highest
  rw [lastKey_sackedKeys] at hhighest
  cases hlast : (b.sentList.filter (·.sacked)).getLast? with
  | none =>
    rw [hlast] at hhighest
    rw [hhighest] at ha
    cases ha
  | some j =>
    rw [hlast] at hhighest
    rw [hhighest] at ha
    obtain ⟨before, after, hsplit, hafter⟩ := last_sacked_split hlast
    have hj : j.sacked = true := (mem_filter.mp (mem_of_getLast? hlast)).2
    have hnodup := h.nodup
    rw [addresses, hsplit] at hnodup
    simp only [map_append, map_cons, nodup_append] at hnodup
    have hidx : i = before.length := by
      have hnot : before.findIdx (fun item => item.address = a) = before.length := by
        apply findIdx_eq_length_of_false
        intro k hk
        rw [decide_eq_false_iff_not]
        intro hka
        have hka' : k.address = j.address := hka.trans (Option.some.inj ha).symm
        exact hnodup.1.2.2 _ (List.mem_map_of_mem hk) _ mem_cons_self hka'
      have hat : decide (j.address = a) = true := decide_eq_true (Option.some.inj ha)
      rw [hi, hsplit, findIdx_append, hnot, if_neg (Nat.lt_irrefl _), findIdx_cons, hat]
      exact Nat.zero_add _
    cases before with
    | nil =>
      have hhead := h.unsacked j (by rw [hsplit]; rfl)
      rw [hj] at hhead
      cases hhead
    | cons first before =>
      have hparts := hlist.symm.trans hsplit
      obtain ⟨rfl, hrest⟩ := List.cons.inj hparts
      have hfirst : head.sacked = false := h.unsacked head (by simp [hlist])
      have hrest' : rest = (before ++ [j]) ++ after := by simp [hrest]
      have hlen : (before ++ [j]).length = i := by simp [hidx]
      have htake : rest.take i = before ++ [j] := by rw [hrest', take_left' hlen]
      have hdrop : rest.drop i = after := by rw [hrest', drop_left' hlen]
      have hnone : after.countP (·.sacked) = 0 := by
        rw [countP_eq_zero]
        intro k hk
        rw [hafter k hk]
        exact Bool.false_ne_true
      have hwhole : loseBehind b.dupAckThresh b.sentList = items := by
        rw [hitems, htake, hdrop, hlist, loseBehind, hrest', loseBehind_append hthresh hafter, countP_append, hnone,
          Nat.add_zero, hfirst, Bool.not_false, Bool.true_and]
      rw [hwhole]

/-- A block beyond the sent data ends the call before the lost items are counted. -/
def CutShort (b : TcpTxBuffer) (list : List (SequenceNumber32 × SequenceNumber32)) : Prop :=
  (∃ block ∈ list, (b.firstByteSeq.add b.sentSize).lt block.1 = true) ∧
    ∃ x ∈ b.sentList, x.sacked = false ∧
      arrival (reached b.firstByteSeq b.sentSize list) b.sentList x ≤ (reached b.firstByteSeq b.sentSize list).length

def InOrder (b : TcpTxBuffer) (list : List (SequenceNumber32 × SequenceNumber32)) : Prop :=
  0 < b.dupAckThresh ∧ ¬ Overtaken (reached b.firstByteSeq b.sentSize list) b.sentList ∧ ¬ CutShort b list

theorem Straight.update (h : Straight b) (hledger : Ledger b P data) {list : List (SequenceNumber32 × SequenceNumber32)}
    {n : Nat} (horder : InOrder b list) (hupdate : b.update list = some (b', n)) :
    Straight b' ∧ b'.dupAckThresh = b.dupAckThresh ∧ ((n = 0 ∧ b'.sentList = b.sentList) ∨
      (0 < n ∧ ∃ marked, List.Forall₂ NowSacked b.sentList marked ∧
        total (·.sacked) marked = total (·.sacked) b.sentList + n ∧
        b'.sentList = loseBehind b.dupAckThresh marked)) := by
  obtain ⟨hthresh, hovertaken, hcut⟩ := horder
  have hsmall := hledger.small
  obtain ⟨b₁, finished, hblocks, hcase, hhead⟩ := update_some hupdate
  obtain ⟨hledger₁, hframe⟩ := Ledger.updateBlocks list 0 hledger hblocks
  have hhighest₁ := hledger.updateBlocks_highest hblocks h.highest hovertaken
  obtain ⟨-, hbytes, hfinished⟩ := updateBlocks_eq hblocks hledger.head hledger.laid
  have hrelated := sackBlocks_related b.firstByteSeq b.sentSize list b.sentList
  have htotal := @total_sackBlocks b.firstByteSeq b.sentSize list b.sentList
  have halike := (nowSacked_alike hrelated).1
  have hlist₁ : b₁.sentList = sackBlocks b.firstByteSeq b.sentSize list b.sentList := by rw [hframe]
  have hthresh₁ : b₁.dupAckThresh = b.dupAckThresh := by rw [hframe]
  have hnamed₁ : Named b₁ := by
    refine h.toNamed.reflag (hlist₁ ▸ halike) ?_ ?_ <;> rw [hframe]
  have hle := total_le (·.sacked) (sackBlocks b.firstByteSeq b.sentSize list b.sentList)
  rw [halike.bytesOf_eq] at hle
  rw [foldl_size _ 0 (by omega), Nat.zero_add] at hbytes
  rw [← hbytes] at htotal
  by_cases hnone : newlySackedBlocks b.firstByteSeq b.sentSize list b.sentList = []
  · -- nothing is sacked
    have hzero : n = 0 := by
      rw [hbytes, hnone]
      rfl
    have hsame := sackBlocks_eq_self hnone
    rcases hcase with ⟨rfl, -⟩ | ⟨hpos, -, -⟩
    · rw [hsame] at hlist₁ hhighest₁
      exact ⟨⟨hnamed₁, by rw [hhighest₁, hlist₁], by rw [hlist₁]; exact h.unsacked⟩, hthresh₁, .inl ⟨hzero, hlist₁⟩⟩
    · omega
  · obtain ⟨x, hx⟩ := exists_mem_of_ne_nil _ hnone
    obtain ⟨hmem, hs⟩ := newlySackedBlocks_subset hx
    obtain ⟨-, hpos, -⟩ := hledger.laid.place hsmall hmem
    have hn : 0 < n := by
      rw [hbytes]
      exact Nat.lt_of_lt_of_le hpos (single_le_sum (by simp) _ (List.mem_map_of_mem hx))
    have hall : finished = true := by
      rw [hfinished]
      intro block hblock
      rw [← Bool.not_eq_true]
      intro hbeyond
      rw [hledger.head] at hx
      refine hcut ⟨⟨block, hblock, hbeyond⟩, x, hmem, hs, ?_⟩
      rw [hledger.head]
      exact arrival_le hledger.laid hsmall hx
    rcases hcase with ⟨-, hfalse | hzero⟩ | ⟨-, -, hcount⟩
    · rw [hall] at hfalse
      cases hfalse
    · omega
    · obtain ⟨_, _, _, _, items, -, -, -, -, -, honly, hb'⟩ := hledger₁.updateLostCount hcount
      have hitems : b'.sentList = items := by rw [hb']
      have hstraight₁ : Straight b₁ := by
        refine ⟨hnamed₁, by rw [hhighest₁, hlist₁], fun i hi => ?_⟩
        rw [← Bool.not_eq_true]
        intro hs'
        have hat := (sackedAt_head hledger₁.laid).mpr ⟨i, hi, hs'⟩
        have hlaid' := honly.alike.laid hledger₁.laid
        obtain ⟨j, hj, hjs⟩ := (sackedAt_head hlaid').mp (honly.symm.sackedAt hat)
        rw [hhead hall j (hitems ▸ hj)] at hjs
        cases hjs
      have hfinal := hstraight₁.updateLostCount hledger₁ (hthresh₁ ▸ hthresh) hcount
      have honly' := onlyLost_loseBehind b₁.dupAckThresh b₁.sentList
      rw [hfinal]
      refine ⟨⟨hnamed₁.reflag honly'.alike rfl rfl, ?_, ?_⟩, hthresh₁, .inr ⟨hn, _, hrelated, htotal, ?_⟩⟩
      · rw [honly'.sackedKeys]
        exact hstraight₁.highest
      · rw [hfinal] at hhead
        exact hhead hall
      · rw [hthresh₁, hlist₁]

end

end TcpTxBuffer

end Ns3
