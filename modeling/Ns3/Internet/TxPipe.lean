import Ns3.Internet.TxHistory

/-!
# Bytes in flight

`BytesInFlight` is computed from three counters. It is the pipe of the
scoreboard as long as no item is sacked and, at once, lost or counted as
retransmitted; sacking an item takes back the first flag and not the second.
-/

namespace Ns3

open List Option

namespace TcpTxBuffer

open SequenceNumber32

/-- The pipe: what is neither sacked nor lost, and what was sent again and is not sacked. -/
def pipe (b : TcpTxBuffer) : Nat :=
  total (fun i => !i.sacked && !i.lost) b.sentList + total (fun i => i.retrans && !i.sacked) b.sentList

/-- As many bytes are sacked and lost as are sacked and retransmitted, and the
first are no more than those that are neither sacked nor lost. -/
def Balanced (b : TcpTxBuffer) : Prop :=
  total (fun i => i.sacked && i.lost) b.sentList = total (fun i => i.retrans && i.sacked) b.sentList ∧
    total (fun i => i.sacked && i.lost) b.sentList ≤ total (fun i => !i.sacked && !i.lost) b.sentList

/-- No item is sacked and lost, or sacked and retransmitted. -/
def Apart (l : List TcpTxItem) : Prop := ∀ i ∈ l, i.sacked = true → i.lost = false ∧ i.retrans = false

theorem total_parts : ∀ l : List TcpTxItem, (bytesOf l).length + total (fun i => i.sacked && i.lost) l =
    total (fun i => !i.sacked && !i.lost) l + (total (·.sacked) l + total (·.lost) l)
  | [] => rfl
  | item :: l => by
    have ih := total_parts l
    simp only [length_bytesOf_cons, total_cons]
    cases item.sacked <;> cases item.lost <;> simp <;> omega

theorem total_retrans_parts : ∀ l : List TcpTxItem, total (·.retrans) l =
    total (fun i => i.retrans && !i.sacked) l + total (fun i => i.retrans && i.sacked) l
  | [] => rfl
  | item :: l => by
    have ih := total_retrans_parts l
    simp only [total_cons]
    cases item.sacked <;> cases item.retrans <;> simp <;> omega

section
variable {b b' : TcpTxBuffer} {P : Nat} {data : Bytes}

theorem Ledger.bytesInFlight_iff (h : Ledger b P data) : b.bytesInFlight = some b.pipe ↔ Balanced b := by
  have hparts := total_parts b.sentList
  have hretrans := total_retrans_parts b.sentList
  have hs := h.total_lt (·.sacked)
  have hl := h.total_lt (·.lost)
  have hr := h.total_lt (·.retrans)
  have hlength := h.length_le
  have hbound := h.bound
  unfold bytesInFlight pipe Balanced
  rw [h.sackedOut, h.lostOut, h.retrans, h.sentSize, uint32_add (by omega)]
  by_cases hle : total (·.sacked) b.sentList + total (·.lost) b.sentList ≤ (bytesOf b.sentList).length
  · rw [if_pos hle, uint32_sub hle (by lia), uint32_add (by lia), Option.some.injEq]
    omega
  · rw [if_neg hle]
    constructor
    · intro hnone
      cases hnone
    · rintro ⟨-, hmore⟩
      omega

theorem Apart.balanced (h : Apart b.sentList) : Balanced b := by
  have hlost : total (fun i => i.sacked && i.lost) b.sentList = 0 := by
    apply total_of_none
    intro i hi
    cases hs : i.sacked with
    | false => rfl
    | true => rw [(h i hi hs).1, Bool.and_false]
  have hretrans : total (fun i => i.retrans && i.sacked) b.sentList = 0 := by
    apply total_of_none
    intro i hi
    cases hs : i.sacked with
    | false => exact Bool.and_false _
    | true => rw [(h i hi hs).2, Bool.false_and]
  rw [Balanced, hlost, hretrans]
  exact ⟨rfl, Nat.zero_le _⟩

/-! ## The flags stay apart -/

theorem Apart.of_mem {l l' : List TcpTxItem} (h : Apart l)
    (hmem : ∀ i ∈ l', i.sacked = true → ∃ j ∈ l, j.sacked = true ∧ i.lost = j.lost ∧ (i.retrans = true → j.retrans = true)) :
    Apart l' := by
  intro i hi hs
  obtain ⟨j, hj, hs', hl, hr⟩ := hmem i hi hs
  obtain ⟨hl', hr'⟩ := h j hj hs'
  refine ⟨hl.trans hl', ?_⟩
  cases hi' : i.retrans with
  | false => rfl
  | true =>
    rw [hr hi'] at hr'
    cases hr'

theorem Apart.subset {l l' : List TcpTxItem} (h : Apart l) (hmem : ∀ i ∈ l', i.sacked = true → i ∈ l) : Apart l' :=
  fun i hi hs => h i (hmem i hi hs) hs

theorem Apart.served (h : Apart b.sentList) {now : Int} {item : TcpTxItem} (hserved : Served b now P b' item) :
    Apart b'.sentList := by
  cases hserved with
  | @again l retrans nextAddress hre hs =>
    refine h.of_mem fun i hi hsacked => ?_
    have hmem : i ∈ l.list := by
      simp only [Located.list, mem_append, mem_cons] at hi ⊢
      rcases hi with hi | rfl | hi
      · exact .inl hi
      · rw [show l.item.sacked = true from hsacked] at hs
        cases hs
      · exact .inr (.inr hi)
    obtain ⟨j, hj, hsame, hflags⟩ := hre.origin i hmem
    exact ⟨j, hj, hsame ▸ hsacked, hflags⟩
  | new hitem haddress =>
    refine h.subset fun i hi hsacked => ?_
    rcases mem_append.mp hi with hi | hi
    · exact hi
    · rw [mem_singleton.mp hi, hitem.sacked] at hsacked
      cases hsacked

theorem Apart.copyFromSequence (h : Apart b.sentList) (hledger : Ledger b P data) {now : Int} {n s : Nat}
    {out : Option TcpTxItem} (hcopy : b.copyFromSequence now n (ofPosition s) = some (b', out)) : Apart b'.sentList := by
  rcases hledger.copyRequest_inv _ _ hcopy with ⟨rfl, -⟩ | ⟨item, -, hserved⟩
  · exact h
  · exact h.served hserved

theorem Apart.markHeadAsLost (h : Apart b.sentList) : Apart b.markHeadAsLost.sentList := by
  unfold TcpTxBuffer.markHeadAsLost
  cases hlist : b.sentList with
  | nil => exact h
  | cons head rest =>
    rw [hlist] at h
    refine h.subset fun i hi hs => ?_
    rcases mem_cons.mp hi with rfl | hi
    · cases hs
    · exact mem_cons_of_mem _ hi

/-- The item a Reno acknowledgment is counted on has no flag. -/
def RenoApart (l : List TcpTxItem) : Prop :=
  ∀ i ∈ (l.tail.dropWhile (·.sacked)).head?, i.lost = false ∧ i.retrans = false

theorem Apart.addRenoSack (h : Apart b.sentList) (htarget : RenoApart b.sentList) (hadd : b.addRenoSack = some b') :
    Apart b'.sentList := by
  rcases addRenoSack_some hadd with ⟨rfl, -⟩ | ⟨head, middle, item, after, hlist, hmiddle, hitem, rfl⟩
  · exact h
  · have hdrop : (middle ++ item :: after).dropWhile (·.sacked) = item :: after := by
      rw [dropWhile_append_of_pos hmiddle, dropWhile_cons_of_neg (by simp [hitem])]
    rw [hlist, RenoApart, tail_cons, hdrop] at htarget
    rw [hlist] at h
    intro i hi hs
    simp only [mem_cons, mem_append] at hi
    rcases hi with rfl | hi | rfl | hi
    · exact h i (by simp) hs
    · exact h i (by simp [hi]) hs
    · exact htarget item rfl
    · exact h i (by simp [hi]) hs

theorem deleteRetransmittedFlagFromHead_mem (h : b.deleteRetransmittedFlagFromHead = some b') {i : TcpTxItem}
    (hi : i ∈ b'.sentList) (hs : i.sacked = true) :
    ∃ j ∈ b.sentList, j.sacked = true ∧ i.lost = j.lost ∧ (i.retrans = true → j.retrans = true) := by
  rcases deleteRetransmittedFlagFromHead_some h with rfl | ⟨head, rest, hlist, -, rfl⟩
  · exact ⟨i, hi, hs, rfl, id⟩
  · rw [hlist]
    rcases mem_cons.mp hi with rfl | hi
    · exact ⟨head, by simp, hs, rfl, fun hr => by cases hr⟩
    · exact ⟨i, mem_cons_of_mem _ hi, hs, rfl, id⟩

theorem Apart.update (h : Apart b.sentList) (hledger : Ledger b P data)
    {list : List (SequenceNumber32 × SequenceNumber32)} {n : Nat} (hupdate : b.update list = some (b', n))
    (hapart : ∀ i ∈ sackBlocks b.firstByteSeq b.sentSize list b.sentList, i.retrans = true → i.sacked = false) :
    Apart b'.sentList := by
  obtain ⟨b₁, finished, hblocks, hcase, hhead⟩ := update_some hupdate
  obtain ⟨hledger₁, hframe⟩ := Ledger.updateBlocks list 0 hledger hblocks
  have hlist : b₁.sentList = sackBlocks b.firstByteSeq b.sentSize list b.sentList := by rw [hframe]
  have h₁ : Apart b₁.sentList := by
    rw [hlist]
    intro i hi hs
    obtain ⟨j, hj, hnow⟩ := nowSacked_mem (sackBlocks_related b.firstByteSeq b.sentSize list b.sentList) i hi
    refine ⟨?_, ?_⟩
    · rcases hnow with rfl | ⟨-, rfl⟩
      · exact (h i hj hs).1
      · rfl
    · cases hr : i.retrans with
      | false => rfl
      | true =>
        rw [hapart i hi hr] at hs
        cases hs
  rcases hcase with ⟨rfl, -⟩ | ⟨-, hfinished, hcount⟩
  · exact h₁
  · obtain ⟨a, head, rest, k, items, -, hsplit, -, -, hitems, -, rfl⟩ := hledger₁.updateLostCount hcount
    rw [hsplit] at h₁
    refine h₁.subset fun i hi hs => ?_
    have hfirst := hhead hfinished
    rw [show ({ b₁ with sentList := items, lostOut := total (·.lost) items } : TcpTxBuffer).sentList = items from rfl,
      hitems] at hi hfirst
    rcases mem_cons.mp hi with rfl | hi
    · rw [hfirst _ rfl] at hs
      cases hs
    · rcases mem_append.mp hi with hi | hi
      · exact mem_cons_of_mem _ (mem_of_mem_take (mem_loseBehind hi hs))
      · exact mem_cons_of_mem _ (mem_of_mem_drop hi)

theorem Apart.discardUpTo (h : Apart b.sentList) (hledger : Ledger b P data) {now : Int} {s : Nat}
    (hdiscard : b.discardUpTo now (ofPosition s) = some b') (hreno : b.firstByteSeq.ge (ofPosition s) = false →
      ∀ head ∈ (dropBytes ((ofPosition s).diff b.firstByteSeq) b.sentList).head?, head.sacked = true →
        RenoApart (dropBytes ((ofPosition s).diff b.firstByteSeq) b.sentList)) : Apart b'.sentList := by
  rcases hledger.discardUpTo_some hdiscard with rfl | ⟨hge, A, k, b₁, b₂, hseq, hlo, hhi, hk, -, -, hdropped, hhead, rfl⟩
  · exact h
  · have hlength := hledger.length_le
    have hlist₁ : (b₁.settleHead A).sentList = dropBytes (A - P) b.sentList := by
      have hsame : (b₁.settleHead A).sentList = b₁.sentList := by
        unfold TcpTxBuffer.settleHead
        split <;> rfl
      rw [hsame, hdropped.sentList, hk]
      by_cases hle : A - P ≤ data.length
      · rw [Nat.min_eq_left hle]
      · rw [dropBytes_all hledger.laid (by omega), dropBytes_all hledger.laid (by omega)]
    have h₁ : Apart (b₁.settleHead A).sentList := by
      rw [hlist₁]
      refine h.of_mem fun i hi hs => ?_
      obtain ⟨j, hj, -, hs', hl, hr⟩ := mem_dropBytes hi
      exact ⟨j, hj, hs' ▸ hs, hl, fun hi => hr ▸ hi⟩
    have hkeep : ∀ b : TcpTxBuffer, b.dropIterator.sentList = b.sentList := by
      intro b
      unfold TcpTxBuffer.dropIterator
      split <;> rfl
    rw [hkeep]
    rcases unsackHead_some hhead with ⟨rfl, -⟩ | ⟨head, rest, b₃, hsplit, hs, -, hadd, rfl⟩
    · exact h₁
    · have htarget := hreno hge
      rw [hseq, hledger.head, diff_ofPosition (by omega) (by omega), ← hlist₁] at htarget
      rw [hsplit] at h₁ htarget
      refine Apart.markHeadAsLost (Apart.addRenoSack ?_ (htarget head rfl hs) hadd)
      refine h₁.subset fun i hi hsacked => ?_
      rcases mem_cons.mp hi with rfl | hi
      · cases hsacked
      · exact mem_cons_of_mem _ hi

end

end TcpTxBuffer

namespace TcpTxHistory

open Machine SequenceNumber32 TcpTxBuffer

/-- No retransmitted item is sacked, by a block or by a guess, and no lost item by
a guess. -/
def Unmixed (s : TcpTxHistory) : TcpTxCall → Prop
  | .update list => ∀ i ∈ sackBlocks s.txBuffer.firstByteSeq s.txBuffer.sentSize (list.map wireBlock) s.txBuffer.sentList,
      i.retrans = true → i.sacked = false
  | .addRenoSack => RenoApart s.txBuffer.sentList
  | .discardUpTo _ seq => s.txBuffer.firstByteSeq.ge (ofPosition seq) = false →
      ∀ head ∈ (dropBytes ((ofPosition seq).diff s.txBuffer.firstByteSeq) s.txBuffer.sentList).head?,
        head.sacked = true →
        RenoApart (dropBytes ((ofPosition seq).diff s.txBuffer.firstByteSeq) s.txBuffer.sentList)
  | e => Kept s e

theorem Unmixed.kept {s : TcpTxHistory} {e : TcpTxCall} (h : Unmixed s e) : Kept s e := by
  cases e <;> first | exact h | trivial

/-- Calls that mix nothing keep sacked items from being lost or retransmitted. -/
theorem apart_step {s s' : TcpTxHistory} {out : List TcpTxItem} (h : Apart s.txBuffer.sentList) (hinv : Inv s) :
    ∀ e : TcpTxCall, Unmixed s e → machine.step s e = some (s', out) → Apart s'.txBuffer.sentList
  | .add p, _, hstep => by
    cases hstep
    rw [show ((s.txBuffer.add p).1).sentList = s.txBuffer.sentList from (add_sentList p).1]
    exact h
  | .copyFromSequence now numBytes seq, _, hstep => by
    obtain ⟨P, data, hledger, -⟩ := hinv
    obtain ⟨⟨b, item⟩, hcopy, heq⟩ := map_eq_some_iff.mp hstep
    cases heq
    exact h.copyFromSequence hledger hcopy
  | .discardUpTo now seq, he, hstep => by
    obtain ⟨P, data, hledger, -⟩ := hinv
    obtain ⟨b, hdiscard, heq⟩ := map_eq_some_iff.mp hstep
    cases heq
    exact h.discardUpTo hledger hdiscard he
  | .update list, he, hstep => by
    obtain ⟨P, data, hledger, -⟩ := hinv
    obtain ⟨⟨b, n⟩, hupdate, heq⟩ := map_eq_some_iff.mp hstep
    cases heq
    exact h.update hledger hupdate he
  | .setSentListLost resetSack, _, hstep => by
    obtain ⟨P, data, hledger, -⟩ := hinv
    obtain ⟨b, hset, heq⟩ := map_eq_some_iff.mp hstep
    cases heq
    rw [setBuffer, setSentListLost_some hset]
    have hlength := hledger.length_le
    have hbound := hledger.bound
    cases resetSack with
    | true =>
      intro i hi hs
      obtain ⟨j, -, rfl⟩ := List.mem_map.mp hi
      cases hs
    | false =>
      rw [if_neg Bool.false_ne_true, loseUnsacked_eq _ 0 (by omega)]
      intro i hi hs
      obtain ⟨j, hj, rfl⟩ := List.mem_map.mp hi
      have hsacked : j.sacked = true := hs
      refine ⟨?_, rfl⟩
      simp only [loseItem, hsacked, (h j hj hsacked).1]
      rfl
  | .resetSentList, _, hstep => by
    cases hstep
    intro i hi
    cases hi
  | .resetLastSegmentSent, _, hstep => by
    cases hstep
    refine h.subset fun i hi _ => ?_
    unfold setBuffer TcpTxBuffer.resetLastSegmentSent at hi
    revert hi
    cases s.txBuffer.sentList.getLast? with
    | none => exact id
    | some item => exact fun hi => dropLast_subset _ hi
  | .resetRenoSack, _, hstep => by
    cases hstep
    intro i hi hs
    obtain ⟨j, -, rfl⟩ := List.mem_map.mp hi
    cases hs
  | .addRenoSack, he, hstep => by
    obtain ⟨b, hadd, heq⟩ := map_eq_some_iff.mp hstep
    cases heq
    exact h.addRenoSack he hadd
  | .markHeadAsLost, _, hstep => by
    cases hstep
    exact h.markHeadAsLost
  | .deleteRetransmittedFlagFromHead, _, hstep => by
    obtain ⟨b, hdelete, heq⟩ := map_eq_some_iff.mp hstep
    cases heq
    refine h.of_mem fun i hi hs => ?_
    exact deleteRetransmittedFlagFromHead_mem hdelete hi hs
  | .setHeadSequence seq, _, hstep => by
    obtain ⟨b, hset, heq⟩ := map_eq_some_iff.mp hstep
    cases heq
    obtain ⟨-, hset⟩ := ite_none_right_eq_some.mp hset
    cases hset
    exact h
  | .setMaxBufferSize _, _, hstep | .setSegmentSize _, _, hstep | .setDupAckThresh _, _, hstep
  | .setSackEnabled _, _, hstep => by
    cases hstep
    exact h

/-- **Bytes in flight.** In every state of every run the counters give the pipe just
when the flags balance; they do in every state of a run without mixed flags. -/
theorem bytesInFlight_pipe (firstSeq maxBuffer dupAckThresh segmentSize : Nat) (sackEnabled : Bool)
    (tr : List (TcpTxCall × List TcpTxItem)) (s : TcpTxHistory) :
    (Run machine Kept (start firstSeq maxBuffer dupAckThresh segmentSize sackEnabled) tr s →
      (s.txBuffer.bytesInFlight = some s.txBuffer.pipe ↔ Balanced s.txBuffer)) ∧
    (Run machine Unmixed (start firstSeq maxBuffer dupAckThresh segmentSize sackEnabled) tr s →
      s.txBuffer.bytesInFlight = some s.txBuffer.pipe) := by
  constructor
  · intro h
    obtain ⟨P, data, hledger, -⟩ := Inv.of_run h
    exact hledger.bytesInFlight_iff
  · intro h
    have hboth : Inv s ∧ Apart s.txBuffer.sentList := by
      refine Run.invariant (fun _ s => Inv s ∧ Apart s.txBuffer.sentList) ⟨inv_start .., ?_⟩ ?_ h
      · intro i hi
        cases hi
      · intro tr s e s' out hinv hunmixed hstep
        exact ⟨hinv.1.step e hunmixed.kept hstep, apart_step hinv.2 hinv.1 e hunmixed hstep⟩
    obtain ⟨⟨P, data, hledger, -⟩, hapart⟩ := hboth
    exact hledger.bytesInFlight_iff.mpr hapart.balanced

instance (l : List TcpTxItem) : Decidable (RenoApart l) := inferInstanceAs (Decidable (∀ i ∈ List.head? _, _))

instance (s : TcpTxHistory) : (e : TcpTxCall) → Decidable (Unmixed s e)
  | .update _ => inferInstanceAs (Decidable (∀ i ∈ sackBlocks _ _ _ _, _))
  | .addRenoSack => inferInstanceAs (Decidable (RenoApart _))
  | .discardUpTo _ _ => inferInstanceAs (Decidable (_ → ∀ i ∈ List.head? _, _))
  | .add p => inferInstanceAs (Decidable (Kept s (.add p)))
  | .resetLastSegmentSent => inferInstanceAs (Decidable (Kept s .resetLastSegmentSent))
  | .copyFromSequence .. | .setSentListLost _ | .resetSentList | .resetRenoSack | .markHeadAsLost
  | .deleteRetransmittedFlagFromHead | .setHeadSequence _ | .setMaxBufferSize _ | .setSegmentSize _
  | .setDupAckThresh _ | .setSackEnabled _ => .isTrue trivial

/-- The second segment is sacked, the first is marked as lost, sent again and acknowledged. -/
def headSentAgain : List TcpTxCall :=
  [.add [1, 2, 3, 4, 5, 6], .copyFromSequence 0 2 10, .copyFromSequence 0 2 12, .update [(12, 14)], .markHeadAsLost,
    .copyFromSequence 1 2 10, .copyFromSequence 2 2 14]

theorem headSentAgain_isSome : (machine.exec Unmixed (start 10 100 3 2 true) headSentAgain).isSome := by
  decide +kernel

theorem headSentAgain_pipe : ∃ tr s, Run machine Unmixed (start 10 100 3 2 true) tr s ∧ s.txBuffer.pipe = 4 ∧
    s.txBuffer.bytesInFlight = some s.txBuffer.pipe := by
  have hrun := run_of_isSome machine Unmixed _ _ headSentAgain_isSome
  exact ⟨_, _, hrun, by decide +kernel, (bytesInFlight_pipe _ _ _ _ _ _ _).2 hrun⟩

/-- Two segments are lost in a timeout, the second is sent again and then sacked. -/
def sentAgainThenSacked : List TcpTxCall :=
  [.add [1, 2, 3, 4], .copyFromSequence 0 2 10, .copyFromSequence 0 2 12, .setSentListLost false,
    .copyFromSequence 1 2 12, .update [(12, 14)]]

theorem sentAgainThenSacked_isSome : (machine.exec Kept (start 10 100 3 2 true) sentAgainThenSacked).isSome := by
  decide +kernel

/-- **A sacked byte in flight**: sacking a retransmitted item leaves `m_retrans` as it was. -/
theorem bytesInFlight_sacked : ∃ tr s, Run machine Kept (start 10 100 3 2 true) tr s ∧ s.txBuffer.pipe = 0 ∧
    s.txBuffer.bytesInFlight = some 2 := by
  have hrun := run_of_isSome machine Kept _ _ sentAgainThenSacked_isSome
  exact ⟨_, _, hrun, by decide +kernel, by decide +kernel⟩

end TcpTxHistory

end Ns3
