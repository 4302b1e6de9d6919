import Ns3.Internet.TxScoreboard

/-!
# The lost items of a run

An `Update` in order marks just the items with `dupAckThresh` sacked ones behind
them, so that the order in which blocks arrive does not show.
-/

namespace Ns3

open Machine SequenceNumber32 TcpTxBuffer List Option

namespace TcpTxBuffer

/-! ## The order of the blocks -/

/-- Every item not sacked is lost once `dupAckThresh` items behind it are sacked. -/
def LossMarked (b : TcpTxBuffer) : Prop :=
  ∀ before item after, b.sentList = before ++ item :: after → item.sacked = false →
    b.dupAckThresh ≤ after.countP (·.sacked) → item.lost = true

section
variable {thresh : Nat}

theorem OnlyLost.flags {l l' : List TcpTxItem} (h : OnlyLost l l') : l'.map (·.sacked) = l.map (·.sacked) := by
  have hmap : ∀ l : List TcpTxItem, l.map (·.sacked) = (l.map board).map fun k => k.2.2.2.2 := by
    intro l
    rw [List.map_map]
    rfl
  rw [hmap, hmap, h]

theorem countP_sacked {l l' : List TcpTxItem} (h : l'.map (·.sacked) = l.map (·.sacked)) :
    l'.countP (·.sacked) = l.countP (·.sacked) := by
  have hmap : ∀ l : List TcpTxItem, l.countP (·.sacked) = (l.map (·.sacked)).countP id := by
    intro l
    rw [countP_map]
    rfl
  rw [hmap, hmap, h]

theorem lost_of_loseBehind : ∀ {l before after : List TcpTxItem} {item : TcpTxItem},
    loseBehind thresh l = before ++ item :: after → item.sacked = false → thresh ≤ after.countP (·.sacked) →
    item.lost = true
  | [], before, _, _, h, _, _ => by
    rw [loseBehind] at h
    exact absurd h.symm (by simp)
  | i :: l, [], after, item, h, hs, hcount => by
    obtain ⟨rfl, rfl⟩ := List.cons.inj h
    have hflag : i.sacked = false := hs
    rw [countP_sacked (onlyLost_loseBehind thresh l).flags] at hcount
    simp [hflag, hcount]
  | i :: l, _ :: before, after, item, h, hs, hcount => lost_of_loseBehind (List.cons.inj h).2 hs hcount

theorem nowSacked_unique : ∀ {l m m' : List TcpTxItem}, List.Forall₂ NowSacked l m → List.Forall₂ NowSacked l m' →
    m.map (·.sacked) = m'.map (·.sacked) → m = m'
  | _, _, _, .nil, .nil, _ => rfl
  | i :: l, j :: m, j' :: m', .cons h t, .cons h' t', hsame => by
    obtain ⟨hflag, hrest⟩ := List.cons.inj hsame
    dsimp only at hflag
    rw [nowSacked_unique t t' hrest]
    rcases h with rfl | ⟨hs, rfl⟩
    · rcases h' with rfl | ⟨hs', rfl⟩
      · rfl
      · rw [hs'] at hflag
        cases hflag
    · rcases h' with rfl | ⟨-, rfl⟩
      · rw [hs] at hflag
        cases hflag
      · rfl

theorem loseBehind_again (thresh : Nat) : ∀ {l m m' : List TcpTxItem}, List.Forall₂ NowSacked l m →
    List.Forall₂ NowSacked (loseBehind thresh m) m' →
    ∃ m'', List.Forall₂ NowSacked l m'' ∧ m''.map (·.sacked) = m'.map (·.sacked) ∧
      total (·.sacked) m'' = total (·.sacked) m' ∧ m.countP (·.sacked) ≤ m'.countP (·.sacked) ∧
      loseBehind thresh m' = loseBehind thresh m''
  | _, _, _, .nil, .nil => ⟨[], .nil, rfl, rfl, Nat.le_refl _, rfl⟩
  | i :: l, j :: m, j' :: m', .cons h t, .cons h' t' => by
    obtain ⟨m'', hrelated, hflags, htotal, hcount, hlose⟩ := loseBehind_again thresh t t'
    have hcount'' := countP_sacked hflags
    rcases h' with rfl | ⟨hs', rfl⟩
    · -- as it was after the count
      rcases h with rfl | ⟨hs, rfl⟩
      · refine ⟨j :: m'', .cons (.inl rfl) hrelated, ?_, ?_, ?_, ?_⟩
        · rw [map_cons, map_cons, hflags]
        · rw [total_cons, total_cons, htotal]
        · rw [countP_cons, countP_cons]
          exact Nat.add_le_add_right hcount _
        · rw [loseBehind, loseBehind, hlose, hcount'']
          congr 2
          have hmono : decide (thresh ≤ m.countP (·.sacked)) = true →
              decide (thresh ≤ m'.countP (·.sacked)) = true := by
            rw [decide_eq_true_eq, decide_eq_true_eq]
            exact fun hle => Nat.le_trans hle hcount
          cases hl : j.lost <;> cases hs : j.sacked <;> simp at hmono ⊢
          exact hmono
      · refine ⟨{ i with lost := false, sacked := true } :: m'', .cons (.inr ⟨hs, rfl⟩) hrelated, ?_, ?_, ?_, ?_⟩
        · rw [map_cons, map_cons, hflags]
        · rw [total_cons, total_cons, htotal]
        · rw [countP_cons, countP_cons]
          exact Nat.add_le_add_right hcount _
        · rw [loseBehind, loseBehind, hlose]
          rfl
    · -- sacked after the count
      rcases h with rfl | ⟨hs, rfl⟩
      · refine ⟨{ j with lost := false, sacked := true } :: m'', .cons (.inr ⟨hs', rfl⟩) hrelated, ?_, ?_, ?_, ?_⟩
        · rw [map_cons, map_cons, hflags]
        · rw [total_cons, total_cons, htotal]
        · have hflag : j.sacked = false := hs'
          rw [countP_cons, countP_cons, hflag]
          exact Nat.le_trans hcount (Nat.le_add_right _ _)
        · rw [loseBehind, loseBehind, hlose]
          rfl
      · cases hs'

/-- The items after calls in order, from the list `l₀`. -/
def Settled (thresh : Nat) (l₀ l : List TcpTxItem) : Prop :=
  l = l₀ ∨ ∃ marked, List.Forall₂ NowSacked l₀ marked ∧ total (·.sacked) l₀ < total (·.sacked) marked ∧
    l = loseBehind thresh marked

theorem Settled.update {l₀ l l' marked : List TcpTxItem} {n : Nat} (h : Settled thresh l₀ l) (hn : 0 < n)
    (hmarked : List.Forall₂ NowSacked l marked) (htotal : total (·.sacked) marked = total (·.sacked) l + n)
    (hl' : l' = loseBehind thresh marked) : Settled thresh l₀ l' := by
  rcases h with rfl | ⟨before, hbefore, hlt, rfl⟩
  · exact .inr ⟨marked, hmarked, by omega, hl'⟩
  · obtain ⟨m'', hrelated, -, hsame, -, hlose⟩ := loseBehind_again thresh hbefore hmarked
    have hkept : total (·.sacked) (loseBehind thresh before) = total (·.sacked) before :=
      (onlyLost_loseBehind thresh before).total_eq (fun k => k.2.2.2.2) fun _ => rfl
    exact .inr ⟨m'', hrelated, by omega, hl'.trans hlose⟩

theorem Settled.unique {l₀ l l' : List TcpTxItem} (h : Settled thresh l₀ l) (h' : Settled thresh l₀ l')
    (hsame : l.map (·.sacked) = l'.map (·.sacked)) : l = l' := by
  have hkept : ∀ {m : List TcpTxItem}, Forall₂ NowSacked l₀ m → total (·.sacked) l₀ < total (·.sacked) m →
      l₀.map (·.sacked) ≠ m.map (·.sacked) := by
    intro m hm hlt heq
    rw [← nowSacked_unique (nowSacked_refl l₀) hm heq] at hlt
    exact Nat.lt_irrefl _ hlt
  rcases h with rfl | ⟨m, hm, hlt, rfl⟩
  · rcases h' with rfl | ⟨m', hm', hlt', rfl⟩
    · rfl
    · rw [(onlyLost_loseBehind thresh m').flags] at hsame
      exact absurd hsame (hkept hm' hlt')
  · rw [(onlyLost_loseBehind thresh m).flags] at hsame
    rcases h' with rfl | ⟨m', hm', hlt', rfl⟩
    · exact absurd hsame.symm (hkept hm hlt)
    · rw [(onlyLost_loseBehind thresh m').flags] at hsame
      rw [nowSacked_unique hm hm' hsame]

end

end TcpTxBuffer

/-! ## Runs -/

namespace TcpTxHistory

/-- The call leaves the iterator at the highest sacked item. -/
def Steady (s : TcpTxHistory) : TcpTxCall → Prop
  | .discardUpTo _ seq => StopsWell s.txBuffer (ofPosition seq)
  | .update list => s.txBuffer.InOrder (list.map wireBlock)
  | .addRenoSack => GuessedLast s.txBuffer.sentList
  | _ => True

def Orderly (s : TcpTxHistory) (e : TcpTxCall) : Prop := Kept s e ∧ Steady s e

def OrderlyBlocks (s : TcpTxHistory) (e : TcpTxCall) : Prop := Orderly s e ∧ ∃ list, e = .update list

section
variable {s s' : TcpTxHistory}

theorem straight_step {out : List TcpTxItem} (hinv : Inv s) (h : Straight s.txBuffer) : ∀ e : TcpTxCall, Orderly s e →
    machine.step s e = some (s', out) → Straight s'.txBuffer
  | .add p, _, hstep => by
    cases hstep
    exact h.add p
  | .copyFromSequence now numBytes seq, _, hstep => by
    obtain ⟨P, data, hledger, -⟩ := hinv
    obtain ⟨⟨b, item⟩, hcopy, heq⟩ := map_eq_some_iff.mp hstep
    cases heq
    exact h.copyFromSequence hledger hcopy
  | .discardUpTo now seq, he, hstep => by
    obtain ⟨P, data, hledger, -⟩ := hinv
    obtain ⟨b, hdiscard, heq⟩ := map_eq_some_iff.mp hstep
    cases heq
    exact h.discardUpTo hledger he.2 hdiscard
  | .update list, he, hstep => by
    obtain ⟨P, data, hledger, -⟩ := hinv
    obtain ⟨⟨b, n⟩, hupdate, heq⟩ := map_eq_some_iff.mp hstep
    cases heq
    exact (h.update hledger he.2 hupdate).1
  | .setSentListLost resetSack, _, hstep => by
    obtain ⟨P, data, hledger, -⟩ := hinv
    obtain ⟨b, hset, heq⟩ := map_eq_some_iff.mp hstep
    cases heq
    exact h.setSentListLost hledger hset
  | .resetSentList, _, hstep => by
    cases hstep
    exact h.resetSentList
  | .resetLastSegmentSent, he, hstep => by
    cases hstep
    exact h.resetLastSegmentSent fun i hi => (he.1 i hi).2.2
  | .resetRenoSack, _, hstep => by
    cases hstep
    exact h.resetRenoSack
  | .addRenoSack, he, hstep => by
    obtain ⟨b, hadd, heq⟩ := map_eq_some_iff.mp hstep
    cases heq
    exact h.addRenoSack hadd he.2
  | .markHeadAsLost, _, hstep => by
    cases hstep
    exact h.markHeadAsLost
  | .deleteRetransmittedFlagFromHead, _, hstep => by
    obtain ⟨b, hdelete, heq⟩ := map_eq_some_iff.mp hstep
    cases heq
    exact h.deleteRetransmittedFlagFromHead hdelete
  | .setHeadSequence seq, _, hstep => by
    obtain ⟨b, hset, heq⟩ := map_eq_some_iff.mp hstep
    cases heq
    exact h.setHeadSequence hset
  | .setMaxBufferSize _, _, hstep | .setSegmentSize _, _, hstep | .setDupAckThresh _, _, hstep
  | .setSackEnabled _, _, hstep => by
    cases hstep
    exact ⟨h.toNamed.of_sublist (Sublist.refl _) rfl, h.highest, h.unsacked⟩

theorem straight_start (firstSeq maxBuffer dupAckThresh segmentSize : Nat) (sackEnabled : Bool) :
    Straight (start firstSeq maxBuffer dupAckThresh segmentSize sackEnabled).txBuffer := by
  refine .of_unsacked ⟨nodup_nil, ?_⟩ ?_ rfl
  · intro a ha
    cases ha
  · intro i hi
    cases hi

theorem Straight.of_run {firstSeq maxBuffer dupAckThresh segmentSize : Nat} {sackEnabled : Bool}
    {tr : List (TcpTxCall × List TcpTxItem)}
    (h : Run machine Orderly (start firstSeq maxBuffer dupAckThresh segmentSize sackEnabled) tr s) :
    Inv s ∧ Straight s.txBuffer := by
  refine Run.invariant (fun _ s => Inv s ∧ Straight s.txBuffer) ⟨inv_start .., straight_start ..⟩ ?_ h
  intro tr s e s' out hinv horderly hstep
  exact ⟨hinv.1.step e horderly.1 hstep, straight_step hinv.1 hinv.2 e horderly hstep⟩

/-- Blocks in any order leave the list as one marking would. -/
theorem settled_of_run {s₀ : TcpTxHistory} {tr : List (TcpTxCall × List TcpTxItem)} (hinv : Inv s₀)
    (hstraight : Straight s₀.txBuffer) (h : Run machine OrderlyBlocks s₀ tr s) :
    Settled s₀.txBuffer.dupAckThresh s₀.txBuffer.sentList s.txBuffer.sentList := by
  have hall : Inv s ∧ Straight s.txBuffer ∧ s.txBuffer.dupAckThresh = s₀.txBuffer.dupAckThresh ∧
      Settled s₀.txBuffer.dupAckThresh s₀.txBuffer.sentList s.txBuffer.sentList := by
    refine Run.invariant (fun _ s => Inv s ∧ Straight s.txBuffer ∧ s.txBuffer.dupAckThresh = s₀.txBuffer.dupAckThresh ∧
      Settled s₀.txBuffer.dupAckThresh s₀.txBuffer.sentList s.txBuffer.sentList)
      ⟨hinv, hstraight, rfl, .inl rfl⟩ ?_ h
    intro tr s e s' out hbefore hblocks hstep
    obtain ⟨hinv, hstraight, hthresh, hsettled⟩ := hbefore
    obtain ⟨horderly, list, rfl⟩ := hblocks
    refine ⟨hinv.step _ horderly.1 hstep, straight_step hinv hstraight _ horderly hstep, ?_⟩
    obtain ⟨P, data, hledger, -⟩ := hinv
    obtain ⟨⟨b, n⟩, hupdate, heq⟩ := map_eq_some_iff.mp hstep
    cases heq
    obtain ⟨-, hthresh', hcase⟩ := hstraight.update hledger horderly.2 hupdate
    refine ⟨hthresh'.trans hthresh, ?_⟩
    rcases hcase with ⟨-, hsame⟩ | ⟨hn, marked, hmarked, htotal, hlist⟩
    · exact hsame ▸ hsettled
    · rw [hthresh] at hlist
      exact hsettled.update hn hmarked htotal hlist
  exact hall.2.2.2

end

/-- **Lost items.** In every run whose calls keep the order, the iterator stands at
the highest sacked item; blocks in order that sack something leave it there and
mark every item behind which enough are sacked; and whatever blocks arrive, in
whatever order, the same sacked items leave the same lost items. -/
theorem update_inOrder {firstSeq maxBuffer dupAckThresh segmentSize : Nat} {sackEnabled : Bool}
    {tr : List (TcpTxCall × List TcpTxItem)} {s : TcpTxHistory}
    (h : Run machine Orderly (start firstSeq maxBuffer dupAckThresh segmentSize sackEnabled) tr s) :
    s.txBuffer.highestSack = s.txBuffer.findHighestSacked ∧
      (∀ list b n, s.txBuffer.InOrder list → s.txBuffer.update list = some (b, n) → 0 < n →
        b.highestSack = b.findHighestSacked ∧ LossMarked b) ∧
      ∀ tr₁ s₁ tr₂ s₂, Run machine OrderlyBlocks s tr₁ s₁ → Run machine OrderlyBlocks s tr₂ s₂ →
        s₁.txBuffer.sentList.map (·.sacked) = s₂.txBuffer.sentList.map (·.sacked) →
        s₁.txBuffer.sentList = s₂.txBuffer.sentList := by
  obtain ⟨hinv, hstraight⟩ := Straight.of_run h
  obtain ⟨P, data, hledger, hdata⟩ := hinv
  refine ⟨by rw [hledger.findHighestSacked, hstraight.highest], ?_, ?_⟩
  · intro list b n horder hupdate hn
    obtain ⟨hstraight', hthresh, hcase⟩ := hstraight.update hledger horder hupdate
    refine ⟨by rw [(hledger.update hupdate).findHighestSacked, hstraight'.highest], ?_⟩
    rcases hcase with ⟨hzero, -⟩ | ⟨-, marked, -, -, hlist⟩
    · omega
    · intro before item after hsplit hs hcount
      rw [hthresh] at hcount
      exact lost_of_loseBehind (hlist.symm.trans hsplit) hs hcount
  · intro tr₁ s₁ tr₂ s₂ hrun₁ hrun₂ hsame
    have hinv : Inv s := ⟨P, data, hledger, hdata⟩
    exact (settled_of_run hinv hstraight hrun₁).unique (settled_of_run hinv hstraight hrun₂) hsame

instance (blocks : List (SequenceNumber32 × SequenceNumber32)) (items : List TcpTxItem) :
    Decidable (Overtaken blocks items) :=
  inferInstanceAs (Decidable (∃ x ∈ items, ∃ y ∈ items, _ ∧ _ ∧ _ ∧ ∀ z ∈ items, _ → _))

instance (b : TcpTxBuffer) (list : List (SequenceNumber32 × SequenceNumber32)) : Decidable (CutShort b list) :=
  inferInstanceAs (Decidable ((∃ block ∈ list, _) ∧ ∃ x ∈ b.sentList, _ ∧ _))

instance (b : TcpTxBuffer) (list : List (SequenceNumber32 × SequenceNumber32)) : Decidable (b.InOrder list) :=
  inferInstanceAs (Decidable (_ ∧ ¬ _ ∧ ¬ _))

instance (items : List TcpTxItem) : Decidable (GuessedLast items) :=
  inferInstanceAs (Decidable (∀ i ∈ _, _))

instance (b : TcpTxBuffer) (seq : SequenceNumber32) : Decidable (StopsWell b seq) :=
  inferInstanceAs (Decidable (b.firstByteSeq.ge seq = false →
    ∀ i ∈ (dropBytes (seq.diff b.firstByteSeq) b.sentList).head?, i.sacked = true → GuessedLast _))

instance (s : TcpTxHistory) : (e : TcpTxCall) → Decidable (Steady s e)
  | .discardUpTo _ _ => inferInstanceAs (Decidable (StopsWell _ _))
  | .update _ => inferInstanceAs (Decidable (TcpTxBuffer.InOrder _ _))
  | .addRenoSack => inferInstanceAs (Decidable (GuessedLast _))
  | .add _ | .copyFromSequence .. | .setSentListLost _ | .resetSentList | .resetLastSegmentSent | .resetRenoSack
  | .markHeadAsLost | .deleteRetransmittedFlagFromHead | .setHeadSequence _ | .setMaxBufferSize _
  | .setSegmentSize _ | .setDupAckThresh _ | .setSackEnabled _ => .isTrue trivial

instance (s : TcpTxHistory) (e : TcpTxCall) : Decidable (Orderly s e) := inferInstanceAs (Decidable (_ ∧ _))

/-- Four items of two bytes each are sent, and blocks arrive. -/
def fourSent (lists : List (List (Nat × Nat))) : List TcpTxCall :=
  [.add [1, 2, 3, 4, 5, 6, 7, 8], .copyFromSequence 0 2 10, .copyFromSequence 0 2 12, .copyFromSequence 0 2 14,
    .copyFromSequence 0 2 16] ++ lists.map .update

theorem thirdSacked_isSome : (machine.exec Orderly (start 10 100 2 2 true) (fourSent [[(14, 16)]])).any (fun r =>
    decide (r.2.txBuffer.InOrder [wireBlock (14, 18)]) &&
      (r.2.txBuffer.update [wireBlock (14, 18)]).any fun u => decide (u.1.lostOut = 4 ∧ 0 < u.2)) = true := by
  decide +kernel

theorem lossMarked_inOrder : ∃ tr s b n, Run machine Orderly (start 10 100 2 2 true) tr s ∧
    s.txBuffer.update [wireBlock (14, 18)] = some (b, n) ∧ b.lostOut = 4 ∧ b.highestSack = b.findHighestSacked ∧
      LossMarked b := by
  have hexec := thirdSacked_isSome
  obtain ⟨r, hr, hexec⟩ := (Option.any_eq_true _ _).mp hexec
  rw [Bool.and_eq_true, decide_eq_true_eq] at hexec
  obtain ⟨u, hu, hlost⟩ := (Option.any_eq_true _ _).mp hexec.2
  rw [decide_eq_true_eq] at hlost
  have hrun := run_of_exec machine Orderly _ hr
  have hmarked := (update_inOrder hrun).2.1 _ _ _ hexec.1 hu hlost.2
  exact ⟨r.1, r.2, u.1, u.2, hrun, hu, hlost.1, hmarked.1, hmarked.2⟩

theorem lastFirst_sacked : ((machine.exec Kept (start 10 100 2 2 true) (fourSent [[(16, 18)], [(14, 18)]])).any fun r =>
    (machine.exec Kept (start 10 100 2 2 true) (fourSent [[(14, 16)], [(14, 18)]])).any fun r' =>
      decide (r.2.txBuffer.sentList.map (·.sacked) = r'.2.txBuffer.sentList.map (·.sacked) ∧
        r.2.txBuffer.sentList.map (·.lost) ≠ r'.2.txBuffer.sentList.map (·.lost) ∧
        r.2.txBuffer.highestSack ≠ r.2.txBuffer.findHighestSacked ∧
        (r.2.txBuffer.sentList.head?.any fun i => !i.sacked && !i.lost) = true ∧
        r.2.txBuffer.dupAckThresh ≤ r.2.txBuffer.sentList.tail.countP (·.sacked))) = true := by
  decide +kernel

/-- **The iterator falls back** to the item sacked last, and the items before it
are not marked; in the other order they are. -/
theorem not_lossMarked_lastFirst : ∃ tr s tr' s', Run machine Kept (start 10 100 2 2 true) tr s ∧
    Run machine Kept (start 10 100 2 2 true) tr' s' ∧ s.txBuffer.highestSack ≠ s.txBuffer.findHighestSacked ∧
    ¬ LossMarked s.txBuffer ∧ s.txBuffer.sentList.map (·.sacked) = s'.txBuffer.sentList.map (·.sacked) ∧
    s.txBuffer.sentList.map (·.lost) ≠ s'.txBuffer.sentList.map (·.lost) := by
  obtain ⟨r, hr, hexec⟩ := (Option.any_eq_true _ _).mp lastFirst_sacked
  obtain ⟨r', hr', hexec⟩ := (Option.any_eq_true _ _).mp hexec
  rw [decide_eq_true_eq] at hexec
  obtain ⟨hsacked, hlost, hhighest, hhead, hcount⟩ := hexec
  refine ⟨r.1, r.2, r'.1, r'.2, run_of_exec machine Kept _ hr, run_of_exec machine Kept _ hr', hhighest, ?_, hsacked, hlost⟩
  intro hmarked
  obtain ⟨item, hitem, hflags⟩ := (Option.any_eq_true _ _).mp hhead
  rw [Bool.and_eq_true, Bool.not_eq_true', Bool.not_eq_true'] at hflags
  have hsplit : r.2.txBuffer.sentList = [] ++ item :: r.2.txBuffer.sentList.tail := eq_cons_of_mem_head? hitem
  rw [hmarked _ _ _ hsplit hflags.1 hcount] at hflags
  cases hflags.2

end TcpTxHistory

end Ns3
