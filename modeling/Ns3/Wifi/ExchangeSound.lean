import Ns3.Wifi.OriginatorSound

/-!
# The scoreboard, the bitmap and the whole exchange

The bits of a scoreboard are of frames received. The bitmap of a block ack is
the scoreboard, counted from its start; the originator counts the same way as
long as its MPDUs in flight are less than a circle ahead of that start.
-/

namespace Ns3

open Machine BlockAckWindow List Option

namespace RecipientBlockAckAgreement

/-! ## The scoreboard -/

structure Scored (w : BlockAckWindow) (size position : Nat) (received : List Nat) : Prop where
  valid : w.Valid size
  winStart : w.winStart = position % 4096
  bits : ∀ i < size, w.bit i = true → position + i ∈ received

section
variable {w : BlockAckWindow} {size position : Nat} {received : List Nat}

theorem Scored.mono (h : Scored w size position received) (p : Nat) : Scored w size position (p :: received) :=
  ⟨h.valid, h.winStart, fun i hi hbit => mem_cons_of_mem _ (h.bits i hi hbit)⟩

theorem Scored.mark (h : Scored w size position received) {i : Nat} (hi : i < size) :
    ∃ w', w.mark i = some w' ∧ Scored w' size position ((position + i) :: received) := by
  obtain ⟨w', hmark, hvalid, hstart, hbit⟩ := mark_eq h.valid hi
  refine ⟨w', hmark, hvalid, hstart.trans h.winStart, fun j hj hset => ?_⟩
  rw [hbit j hj, Bool.or_eq_true, decide_eq_true_eq] at hset
  rcases hset with rfl | hset
  · exact mem_cons_self
  · exact mem_cons_of_mem _ (h.bits j hj hset)

theorem Scored.advance (h : Scored w size position received) (count : Nat) :
    Scored (w.advance count) size (position + count) received := by
  obtain ⟨hvalid, hstart, hbit⟩ := advance_bit h.valid count
  refine ⟨hvalid, by rw [hstart, h.winStart]; lia, fun i hi hset => ?_⟩
  rw [hbit i hi] at hset
  split at hset
  · have := h.bits _ ‹_› hset
    rwa [Nat.add_assoc, Nat.add_comm count]
  · cases hset

theorem Scored.scoreMpdu (h : Scored w size position received) (hbounds : 0 < size ∧ size ≤ 256) {p : Nat}
    (hlo : position ≤ p) (hhi : p < position + 4096) : ∃ w', scoreMpdu w (p % 4096) = some w' ∧
      Scored w' size (if p < position + 2048 then max position (p + 1 - size) else position) (p :: received) := by
  have hsize := h.valid.winSize
  rw [RecipientBlockAckAgreement.scoreMpdu, h.winStart, getDistance_eq hlo hhi, bind_some]
  by_cases hin : p - position < size
  · rw [if_pos (by omega), if_pos (by omega), Nat.max_eq_left (by omega)]
    have hmark := h.mark hin
    rwa [Nat.add_sub_cancel' hlo] at hmark
  · rw [if_neg (by omega)]
    by_cases hnew : p - position < 2048
    · rw [if_pos hnew, if_pos (by omega), Nat.max_eq_right (by omega), hsize]
      have hmoved := h.advance (p - position - size + 1)
      rw [show position + (p - position - size + 1) = p + 1 - size by omega] at hmoved
      obtain ⟨w', hmark, hscored⟩ := hmoved.mark (show size - 1 < size by omega)
      rw [show p + 1 - size + (size - 1) = p by omega] at hscored
      refine ⟨w', ?_, hscored⟩
      dsimp only
      rw [hmoved.valid.winSize, hmark]
    · rw [if_neg hnew, if_neg (by omega)]
      exact ⟨w, rfl, h.mono p⟩

theorem Scored.scoreBar (h : Scored w size position received) (hbounds : 0 < size ∧ size ≤ 256) {p : Nat}
    (hlo : position ≤ p) (hhi : p < position + 4096) : ∃ w', scoreBar w (p % 4096) = some w' ∧
      Scored w' size (if p < position + 2048 then max position p else position) received := by
  have hsize := h.valid.winSize
  rw [RecipientBlockAckAgreement.scoreBar, h.winStart, getDistance_eq hlo hhi, bind_some, Nat.max_eq_right hlo]
  by_cases hin : 0 < p - position ∧ p - position < size
  · have hmoved := h.advance (p - position)
    rw [Nat.add_sub_cancel' hlo] at hmoved
    refine ⟨w.advance (p - position), ?_, ?_⟩
    · rw [if_pos (by omega)]
      exact if_pos hmoved.winStart
    · rw [if_pos (by omega)]
      exact hmoved
  · rw [if_neg (by omega)]
    by_cases hnew : 0 < p - position ∧ p - position < 2048
    · rw [if_pos hnew, if_pos (by omega), reset, show w.window.length = size from hsize]
      refine ⟨_, rfl, valid_init hbounds.1 (Nat.mod_lt _ (by decide)), rfl, fun i _ hset => ?_⟩
      rw [bit_init] at hset
      cases hset
    · rw [if_neg hnew]
      split
      · obtain rfl : p = position := by omega
        exact ⟨w, rfl, h⟩
      · exact ⟨w, rfl, h⟩

end

/-! ## What the recipient leaves of it -/

section
variable {a a' : RecipientBlockAckAgreement} {out : List WifiMpdu}

theorem passBufferedMpdusUntilFirstLost_scoreboard (h : a.passBufferedMpdusUntilFirstLost = some (a', out)) :
    a'.scoreboard = a.scoreboard ∧ a'.winSizeB = a.winSizeB := by
  unfold passBufferedMpdusUntilFirstLost at h
  split at h
  · cases h
    exact ⟨rfl, rfl⟩
  · cases h

theorem passBelowThenRun_scoreboard {start : Nat} (h : a.passBelowThenRun start = some (a', out)) :
    a'.scoreboard = a.scoreboard ∧ a'.winSizeB = a.winSizeB := by
  obtain ⟨r, hbelow, hrun⟩ := bind_eq_some_iff.mp h
  obtain ⟨r', hpass, heq⟩ := map_eq_some_iff.mp hrun
  cases heq
  obtain ⟨hscoreboard, hsize⟩ := passBufferedMpdusUntilFirstLost_scoreboard hpass
  rw [hscoreboard, hsize]
  unfold passBufferedMpdusWithSeqNumberLessThan at hbelow
  split at hbelow
  · obtain ⟨q, -, rfl⟩ := map_eq_some_iff.mp hbelow
    exact ⟨rfl, rfl⟩
  · cases hbelow

theorem notifyReceivedMpdu_scoreboard {m : WifiMpdu} (h : a.notifyReceivedMpdu m = some (a', out)) :
    scoreMpdu a.scoreboard m.sequenceNumber = some a'.scoreboard ∧ a'.winSizeB = a.winSizeB := by
  obtain ⟨w, hscore, hrest⟩ := bind_eq_some_iff.mp h
  obtain ⟨distance, -, hcall⟩ := bind_eq_some_iff.mp hrest
  rw [hscore]
  split at hcall
  · obtain ⟨hw, hsize⟩ := passBufferedMpdusUntilFirstLost_scoreboard hcall
    exact ⟨congrArg some hw.symm, hsize⟩
  · split at hcall
    · obtain ⟨hw, hsize⟩ := passBelowThenRun_scoreboard hcall
      exact ⟨congrArg some hw.symm, hsize⟩
    · cases hcall
      exact ⟨rfl, rfl⟩

theorem notifyReceivedBar_scoreboard {ssn : Nat} (h : a.notifyReceivedBar ssn = some (a', out)) :
    scoreBar a.scoreboard ssn = some a'.scoreboard ∧ a'.winSizeB = a.winSizeB := by
  obtain ⟨w, hscore, hrest⟩ := bind_eq_some_iff.mp h
  obtain ⟨distance, -, hcall⟩ := bind_eq_some_iff.mp hrest
  rw [hscore]
  split at hcall
  · obtain ⟨hw, hsize⟩ := passBelowThenRun_scoreboard hcall
    exact ⟨congrArg some hw.symm, hsize⟩
  · cases hcall
    exact ⟨rfl, rfl⟩

end

/-! ## The bitmap -/

theorem indexInBitmap_eq {h : CtrlBAckResponseHeader} {position p : Nat} (hstart : h.startingSeq = position % 4096)
    (hlo : position ≤ p) (hhi : p < position + 4096) :
    h.isInBitmap (p % 4096) = decide (p - position < h.bitmapLen * 8) ∧
      h.indexInBitmap (p % 4096) = if p - position < h.bitmapLen * 8 then some (p - position) else none := by
  have hcircle : (p % 4096 + 4096 - position % 4096) % 4096 = p - position := by omega
  have hindex : (if position % 4096 ≤ p % 4096 then p % 4096 - position % 4096 else 4096 - position % 4096 + p % 4096) =
      p - position := by
    split <;> omega
  constructor
  · rw [CtrlBAckResponseHeader.isInBitmap, hstart, hcircle]
  · simp only [CtrlBAckResponseHeader.indexInBitmap, hstart, hindex]

theorem fillBits_eq {w : BlockAckWindow} {size position length : Nat} (hvalid : w.Valid size) (hsize : size ≤ 256)
    (hstart : w.winStart = position % 4096) (hlength : size ≤ length * 8) : ∀ n ≤ size, ∃ bitmap,
    fillBits w ⟨w.winStart, length, List.replicate (length * 8) false⟩ n = some ⟨position % 4096, length, bitmap⟩ ∧
      bitmap.length = length * 8 ∧ ∀ i, bitmap.getD i false = (decide (i < n) && w.bit i)
  | 0, _ => ⟨_, by rw [fillBits, hstart], List.length_replicate, fun i => by
      rw [List.getD_eq_getElem?_getD, List.getElem?_replicate]
      split <;> simp⟩
  | n + 1, hn => by
    obtain ⟨bitmap, hfill, hbitmap, hbits⟩ := fillBits_eq hvalid hsize hstart hlength n (by omega)
    obtain ⟨hin, hindex⟩ := indexInBitmap_eq (h := ⟨position % 4096, length, bitmap⟩) rfl (Nat.le_add_right position n) (by omega)
    have hplace : position + n - position < length * 8 := by omega
    rw [fillBits, hfill, bind_some, get_eq hvalid (by omega), bind_some]
    by_cases hbit : w.bit n = true
    · refine ⟨bitmap.set n true, ?_, by rw [length_set, hbitmap], fun i => ?_⟩
      · rw [if_pos hbit, hstart, Nat.mod_add_mod, CtrlBAckResponseHeader.setReceivedPacket, hin, if_pos (decide_eq_true hplace), hindex,
          if_pos hplace, map_some, Nat.add_sub_cancel_left]
      · rw [getD_eq_getElem?_getD, getElem?_set]
        by_cases hi : n = i
        · subst hi
          rw [if_pos rfl, if_pos (by omega), hbit]
          simp
        · rw [if_neg hi, ← getD_eq_getElem?_getD, hbits i]
          congr 1
          exact decide_eq_decide.mpr (by omega)
    · refine ⟨bitmap, if_neg hbit, hbitmap, fun i => ?_⟩
      rw [hbits i]
      by_cases hi : i = n
      · subst hi
        rw [eq_false_of_ne_true hbit, Bool.and_false, Bool.and_false]
      · congr 1
        exact decide_eq_decide.mpr (by omega)

theorem fillBits_first {w : BlockAckWindow} {h h' : CtrlBAckResponseHeader} (hfirst : w.get 0 = some true)
    (hset : h.setReceivedPacket (w.winStart % 4096) = some h') :
    ∀ n, (∀ i < n, w.get (i + 1) = some false) → fillBits w h (n + 1) = some h'
  | 0, _ => by
    rw [fillBits, fillBits, Option.bind_some, hfirst, Option.bind_some, if_pos rfl, Nat.add_zero, hset]
  | n + 1, hrest => by
    rw [fillBits, fillBits_first hfirst hset n fun i hi => hrest i (Nat.lt_succ_of_lt hi), Option.bind_some,
      hrest n (Nat.lt_succ_self n), Option.bind_some, if_neg Bool.false_ne_true]

theorem fillBlockAckBitmap_eq {a : RecipientBlockAckAgreement} {size position : Nat} {received : List Nat}
    (h : Scored a.scoreboard size position received) (hsize : a.winSizeB = size) (hbounds : size ≤ 256) :
    ∃ blockAck, a.fillBlockAckBitmap = some blockAck ∧ ∀ p, position ≤ p → p < position + 4096 →
      ∃ b, blockAck.isPacketReceived (p % 4096) = some b ∧ (b = true → p ∈ received) := by
  have hlength : size ≤ a.bitmapLen * 8 := by
    rw [bitmapLen, hsize]
    split <;> omega
  obtain ⟨bitmap, hfill, hbitmap, hbits⟩ := fillBits_eq h.valid hbounds h.winStart hlength size (Nat.le_refl _)
  refine ⟨_, by rw [fillBlockAckBitmap, h.valid.winSize]; exact hfill, fun p hlo hhi => ?_⟩
  obtain ⟨hin, hindex⟩ := indexInBitmap_eq (h := ⟨position % 4096, a.bitmapLen, bitmap⟩) rfl hlo hhi
  rw [CtrlBAckResponseHeader.isPacketReceived, hin]
  by_cases hplace : p - position < a.bitmapLen * 8
  · rw [if_pos (decide_eq_true hplace), hindex, if_pos hplace]
    refine ⟨_, rfl, fun hset => ?_⟩
    dsimp only at hset
    rw [hbits, Bool.and_eq_true, decide_eq_true_eq] at hset
    have hmem := h.bits _ hset.1 hset.2
    rwa [Nat.add_sub_cancel' hlo] at hmem
  · rw [if_neg (by simpa using hplace)]
    exact ⟨false, rfl, fun h => by cases h⟩

end RecipientBlockAckAgreement

namespace BlockAckExchange

open OriginatorBlockAckAgreement BlockAckManager RecipientBlockAckAgreement

/-! ## Both ends -/

structure Agreed (s : BlockAckExchange) : Prop where
  received : ∀ p ∈ s.originator.agreement.acked, p ∈ s.received
  winStart : s.originator.agreement.txWindow.winStart = s.winStart % 4096
  firstOpen : FirstOpen s.originator.agreement.acked s.originator.agreement.passed s.winStart
  inFlight : ∀ x ∈ s.originator.inFlight, ∃ d < s.winSize,
    getDistance x.sequenceNumber s.originator.agreement.txWindow.winStart = some d
  sorted : s.originator.inFlight.Pairwise fun x y => ∀ d d',
    getDistance x.sequenceNumber s.originator.agreement.txWindow.winStart = some d →
    getDistance y.sequenceNumber s.originator.agreement.txWindow.winStart = some d' → d < d'

structure Inv (s : BlockAckExchange) (size : Nat) : Prop where
  originator : s.originator.Inv size
  scored : Scored s.recipient.scoreboard size s.scoreStart s.received
  winSizeB : s.recipient.winSizeB = size
  behind : s.scoreStart ≤ s.winStart
  acked : ∀ p ∈ s.originator.agreement.acked, p ∈ s.received

section
variable {s : BlockAckExchange} {size : Nat}

theorem Inv.winSize (h : Inv s size) : s.winSize = size := h.originator.placed.valid.winSize

theorem Inv.agreed (h : Inv s size) (hsize : size ≤ 256) : Agreed s := by
  obtain ⟨hascending, hnumbered, hwindow, -⟩ := h.originator.inFlight
  have hdistance : ∀ x ∈ s.originator.inFlight,
      getDistance x.sequenceNumber s.originator.agreement.txWindow.winStart = some (x.position - s.winStart) := fun x hx => by
    have := (hwindow x hx).2
    exact h.originator.placed.distance (hnumbered x hx) (hwindow x hx).1 (by omega)
  refine ⟨h.acked, h.originator.placed.winStart, start_spec _, fun x hx => ⟨_, ?_, hdistance x hx⟩, ?_⟩
  · obtain ⟨hlo, hhi⟩ := hwindow x hx
    rw [h.winSize, winStart]
    omega
  · refine List.Pairwise.imp_of_mem (fun {x y} hx hy hlt d d' hd hd' => ?_) hascending
    rw [hdistance x hx] at hd
    rw [hdistance y hy] at hd'
    cases hd
    cases hd'
    have := (hwindow x hx).1
    rw [winStart]
    omega

theorem Inv.originated (h : Inv s size) {o : BlockAckManager} {new : Nat → Prop} (hkept : Kept s.originator o size new)
    (hnew : ∀ p, new p → p ∈ s.received) : Inv { s with originator := o } size := by
  refine ⟨hkept.inv, h.scored, h.winSizeB, Nat.le_trans h.behind hkept.mono, fun p hp => ?_⟩
  rcases hkept.acked p hp with hp | hp
  · exact h.acked p hp
  · exact hnew p hp

theorem Inv.answer (h : Inv s size) (hbounds : 0 < size ∧ size ≤ 256) (hnear : s.winStart + s.winSize ≤ s.scoreStart + 4096) :
    ∃ blockAck, s.recipient.fillBlockAckBitmap = some blockAck ∧ ∀ x ∈ s.originator.inFlight,
      ∃ b, blockAck.isPacketReceived x.sequenceNumber = some b ∧ (b = true → x.position ∈ s.received) := by
  obtain ⟨blockAck, hfill, hread⟩ := fillBlockAckBitmap_eq h.scored h.winSizeB hbounds.2
  refine ⟨blockAck, hfill, fun x hx => ?_⟩
  obtain ⟨hlo, hhi⟩ := h.originator.inFlight.window x hx
  have hsize := h.winSize
  have hbehind := h.behind
  unfold winStart at hnear hbehind
  rw [h.originator.inFlight.numbered x hx]
  exact hread x.position (by omega) (by omega)

/-- The recipient keeps up with the window; a step not expired is possible. -/
theorem Inv.step (hbounds : 0 < size ∧ size ≤ 256) (h : Inv s size) : ∀ e : ExchangeEvent, Comparable s e →
    (∀ s' o, machine.step s e = some (s', o) → Inv s' size) ∧ (Unexpired s e → (machine.step s e).isSome)
  | .enqueue position, _ | .dequeue position, _ => by
    refine ⟨fun s' o hs' => ?_, fun _ => rfl⟩
    cases hs'
    exact h.originated ⟨⟨h.originator.placed, h.originator.inFlight⟩, Nat.le_refl _, fun p hp => .inl hp⟩ fun _ => False.elim
  | .storePacket mpdu, ⟨hseq, hacked, hlo, hhi, hkeeps⟩ => by
    rw [h.winSize] at hkeeps
    obtain ⟨o', hcall, hkept⟩ := h.originator.storePacket hbounds hseq hacked hlo hhi hkeeps
    have hstep : machine.step s (.storePacket mpdu) = some ({ s with originator := o' }, []) := congrArg (Option.map _) hcall
    rw [hstep]
    refine ⟨fun s' o hs' => ?_, fun _ => rfl⟩
    cases hs'
    exact h.originated hkept fun _ => False.elim
  | .discard mpdu, ⟨hseq, hlo, hhi⟩ => by
    rw [h.winSize] at hhi
    obtain ⟨o', hcall, hkept⟩ := h.originator.notifyDiscardedMpdu hbounds hseq hlo hhi
    have hstep : machine.step s (.discard mpdu) = some ({ s with originator := o' }, []) := congrArg (Option.map _) hcall
    rw [hstep]
    refine ⟨fun s' o hs' => ?_, fun _ => rfl⟩
    cases hs'
    exact h.originated hkept fun _ => False.elim
  | .deliverMpdu mpdu, ⟨hmem, hnear⟩ => by
    refine ⟨fun s' o hs' => ?_, fun hnot => hnot.elim⟩
    obtain ⟨r, hcall, heq⟩ := map_eq_some_iff.mp hs'
    cases heq
    obtain ⟨hscore, hsizeB⟩ := notifyReceivedMpdu_scoreboard hcall
    obtain ⟨hlo, hhi⟩ := h.originator.inFlight.window mpdu hmem
    have hsize := h.winSize
    have hbehind := h.behind
    unfold winStart at hnear hbehind
    obtain ⟨w, hw, hscored⟩ := h.scored.scoreMpdu hbounds (p := mpdu.position) (by omega) (by omega)
    rw [h.originator.inFlight.numbered mpdu hmem, hw] at hscore
    cases hscore
    rw [← hsize] at hscored
    refine ⟨h.originator, hsize ▸ hscored, hsizeB.trans h.winSizeB, ?_, fun p hp => mem_cons_of_mem _ (h.acked p hp)⟩
    show (if mpdu.position < s.scoreStart + 2048 then max s.scoreStart (mpdu.position + 1 - s.winSize) else s.scoreStart) ≤
      s.originator.agreement.start
    rw [hsize]
    split <;> omega
  | .deliverBar, hnear => by
    refine ⟨fun s' o hs' => ?_, fun hnot => hnot.elim⟩
    obtain ⟨r, hcall, heq⟩ := map_eq_some_iff.mp hs'
    cases heq
    obtain ⟨hscore, hsizeB⟩ := notifyReceivedBar_scoreboard hcall
    have hsize := h.winSize
    have hbehind := h.behind
    change s.winStart + s.winSize ≤ s.scoreStart + 4096 at hnear
    obtain ⟨w, hw, hscored⟩ := h.scored.scoreBar hbounds hbehind (by omega)
    rw [h.originator.placed.winStart, show s.originator.agreement.start = s.winStart from rfl, hw] at hscore
    cases hscore
    refine ⟨h.originator, hscored, hsizeB.trans h.winSizeB, ?_, h.acked⟩
    show (if s.winStart < s.scoreStart + 2048 then max s.scoreStart s.winStart else s.scoreStart) ≤ s.winStart
    split <;> omega
  | .blockAck expired, hnear => by
    obtain ⟨blockAck, hfill, hread⟩ := h.answer hbounds hnear
    have hstep : machine.step s (.blockAck expired) =
        (s.originator.notifyGotBlockAck blockAck expired).map fun o => ({ s with originator := o }, []) := by
      show (s.recipient.fillBlockAckBitmap).bind _ = _
      rw [hfill, bind_some]
    obtain ⟨hsound, hdefined⟩ := h.originator.sweep hbounds (fun mpdu => blockAck.isPacketReceived mpdu.sequenceNumber) expired rfl
    rw [hstep]
    constructor
    · intro s' o hs'
      obtain ⟨o', hcall, heq⟩ := map_eq_some_iff.mp hs'
      cases heq
      refine h.originated (hsound o' hcall) ?_
      rintro p ⟨x, hx, rfl, hreceived⟩
      obtain ⟨b, hb, hmem⟩ := hread x hx
      rw [hb] at hreceived
      cases hreceived
      exact hmem rfl
    · intro hfresh
      rw [isSome_map]
      refine hdefined fun x hx => ⟨?_, fun hexpired => hfresh x hx hexpired blockAck hfill⟩
      obtain ⟨b, hb, -⟩ := hread x hx
      rw [hb]
      rfl
  | .missedBlockAck expired, _ => by
    obtain ⟨hsound, hdefined⟩ := h.originator.sweep hbounds (fun _ => some false) expired rfl
    constructor
    · intro s' o hs'
      obtain ⟨o', hcall, heq⟩ := map_eq_some_iff.mp hs'
      cases heq
      refine h.originated (hsound o' hcall) ?_
      rintro p ⟨x, -, -, hreceived⟩
      cases hreceived
    · intro _
      show (Option.map _ (s.originator.notifyMissedBlockAck expired)).isSome
      rw [isSome_map]
      exact hdefined fun x _ => ⟨rfl, fun _ hreceived => by cases hreceived⟩

end

theorem inv_start {size : Nat} (hbounds : 0 < size ∧ size ≤ 256) (position : Nat) : Inv (start size position) size := by
  have hmod : position % 4096 < 4096 := Nat.mod_lt _ (by decide)
  have hstart : (start size position).originator.agreement.start = position := rfl
  refine ⟨⟨⟨valid_init hbounds.1 hmod, ?_, fun i _ => ?_, ?_⟩, ⟨List.Pairwise.nil, ?_, ?_, ?_⟩⟩,
    ⟨valid_init hbounds.1 hmod, rfl, fun i _ hset => ?_⟩, rfl, Nat.le_refl _, ?_⟩
  · rw [hstart]
    rfl
  · exact (bit_init ..).trans (by simp [start])
  · simp [start]
  · simp [start]
  · simp [start]
  · simp [start]
  · exact absurd hset (by simp [start, create, bit_init])
  · simp [start]

/-- **The block ack exchange.** What is removed as acknowledged was received, the
transmit window starts at the first position not acknowledged, discarded or
skipped, and the MPDUs in flight are in the order of their distance from there; no
call at the originator fails, with no MPDU acknowledged that has expired. -/
theorem exchange_agreed (size position : Nat) (hbounds : 0 < size ∧ size ≤ 256) {tr : List (ExchangeEvent × List Unit)}
    {s : BlockAckExchange} (hrun : Run machine Comparable (start size position) tr s) :
    Agreed s ∧ ∀ e, Comparable s e → Unexpired s e → (machine.step s e).isSome := by
  have hinv : Inv s size := Run.invariant (fun _ s => Inv s size) (inv_start hbounds position)
    (fun _ _ e s' o hinv he hstep => (hinv.step hbounds e he).1 s' o hstep) hrun
  exact ⟨hinv.agreed hbounds.2, fun e he hfresh => (hinv.step hbounds e he).2 hfresh⟩

instance (s : BlockAckExchange) : (e : ExchangeEvent) → Decidable (Transmitted s e)
  | .storePacket _ => inferInstanceAs (Decidable (_ ∧ _ ∧ _ ∧ _ ∧ _))
  | .discard _ => inferInstanceAs (Decidable (_ ∧ _ ∧ _))
  | .deliverMpdu _ => inferInstanceAs (Decidable (_ ∈ _))
  | .enqueue _ | .dequeue _ | .deliverBar | .blockAck _ | .missedBlockAck _ => .isTrue trivial

instance (s : BlockAckExchange) : (e : ExchangeEvent) → Decidable (Comparable s e)
  | .deliverMpdu mpdu => inferInstanceAs (Decidable (Transmitted s (.deliverMpdu mpdu) ∧ _))
  | .deliverBar | .blockAck _ => inferInstanceAs (Decidable (_ ≤ _))
  | .storePacket mpdu => inferInstanceAs (Decidable (Transmitted s (.storePacket mpdu)))
  | .discard mpdu => inferInstanceAs (Decidable (Transmitted s (.discard mpdu)))
  | .enqueue _ | .dequeue _ | .missedBlockAck _ => .isTrue trivial

def mpduOf (position : Nat) : WifiMpdu := { sequenceNumber := position % 4096, position := position }

/-- MPDUs around the wrap: one is lost and sent again, one expires and is discarded, a
block ack is lost. -/
def lossyRounds : List ExchangeEvent :=
  [.enqueue 4094, .enqueue 4095, .enqueue 4096, .enqueue 4097, .storePacket (mpduOf 4094), .storePacket (mpduOf 4096),
    .storePacket (mpduOf 4095), .deliverMpdu (mpduOf 4096), .deliverMpdu (mpduOf 4094), .missedBlockAck [],
    .storePacket (mpduOf 4094), .storePacket (mpduOf 4095), .storePacket (mpduOf 4096), .deliverMpdu (mpduOf 4096),
    .blockAck [], .storePacket (mpduOf 4097), .storePacket (mpduOf 4095), .missedBlockAck [4095], .deliverBar, .blockAck []]

theorem lossyRounds_acked : ((machine.exec Comparable (start 4 4094) lossyRounds).any fun r =>
    decide (r.2.originator.agreement.acked = [4096, 4094] ∧ r.2.originator.agreement.txWindow.winStart = 1)) = true := by
  decide +kernel

theorem lossyRounds_agreed : ∃ tr s, Run machine Comparable (start 4 4094) tr s ∧
    s.originator.agreement.acked = [4096, 4094] ∧ s.originator.agreement.txWindow.winStart = 1 ∧ Agreed s := by
  obtain ⟨tr, s, hrun, hacked⟩ := run_of_any machine Comparable lossyRounds_acked
  obtain ⟨hacked, hstart⟩ := of_decide_eq_true hacked
  exact ⟨tr, s, hrun, hacked, hstart, (exchange_agreed _ _ (by decide) hrun).1⟩

/-- One MPDU is acknowledged; then the last one of each window is discarded, until the
numbers come round again. -/
def circle : List ExchangeEvent :=
  [.enqueue 0, .storePacket (mpduOf 0), .deliverMpdu (mpduOf 0), .blockAck []] ++
    ((List.range 15).flatMap fun i =>
      [.enqueue (256 * (i + 1)), .storePacket (mpduOf (256 * (i + 1))), .missedBlockAck [], .dequeue (256 * (i + 1)),
        .discard (mpduOf (256 * (i + 1)))]) ++
    [.enqueue 4096, .storePacket (mpduOf 4096), .deliverBar, .blockAck []]

/-- The recipient that got the first MPDU, and its answer. -/
def servedFirst : RecipientBlockAckAgreement := ⟨⟨0, true :: List.replicate 255 false, 0⟩, 1, 256, []⟩

def firstAnswer : CtrlBAckResponseHeader := ⟨0, 32, true :: List.replicate 255 false⟩

theorem servedFirst_answer : servedFirst.fillBlockAckBitmap = some firstAnswer := by
  have hsize : servedFirst.scoreboard.winSize = 255 + 1 := by
    rw [BlockAckWindow.winSize, servedFirst, length_cons, length_replicate]
  rw [fillBlockAckBitmap, hsize]
  refine fillBits_first (by decide +kernel) (by decide +kernel) 255 fun i hi => ?_
  rw [BlockAckWindow.get, servedFirst, BlockAckWindow.winSize, length_cons, length_replicate, if_pos (by omega),
    Nat.zero_add, Nat.mod_eq_of_lt (by omega), getElem?_cons_succ, getElem?_replicate, if_pos hi]

def ofManager (o : BlockAckManager) : BlockAckExchange := ⟨o, servedFirst, 0, [0]⟩

theorem ofManager_blockAck {o o' : BlockAckManager} (h : o.notifyGotBlockAck firstAnswer [] = some o') :
    machine.step (ofManager o) (.blockAck []) = some (ofManager o', []) := by
  have hanswer : (ofManager o).recipient.fillBlockAckBitmap = some firstAnswer := servedFirst_answer
  simp only [machine, hanswer, bind_some]
  rw [show (ofManager o).originator = o from rfl, h]
  rfl

/-- The originator with the first MPDU in flight, with its answer, and once round. -/
def circleStart : BlockAckManager := ⟨{ txWindow := .init 0 256, passed := 0 }, [mpduOf 0], [0]⟩

def circleAcked : BlockAckManager :=
  ⟨{ txWindow := ⟨1, List.replicate 256 false, 1⟩, passed := 0, acked := [0] }, [], []⟩

def circleRound : BlockAckManager :=
  ⟨{ txWindow := .init 3841 256, passed := 3841, acked := [0] }, [mpduOf 4096], [4096]⟩

def circleEnd : BlockAckManager :=
  ⟨{ txWindow := ⟨3841, (List.replicate 256 false).set 255 true, 0⟩, passed := 3841, acked := [4096, 0] }, [], []⟩

theorem circle_start : (machine.exec Transmitted (start 256 0) (circle.take 3)).map Prod.snd = some (ofManager circleStart) := by
  decide +kernel

theorem circle_round : (machine.exec Transmitted (ofManager circleAcked) ((circle.drop 4).take 78)).map Prod.snd =
    some (ofManager circleRound) := by
  decide +kernel

theorem circle_acked : ((machine.exec Transmitted (start 256 0) circle).any fun r =>
    decide (4096 ∈ r.2.originator.agreement.acked ∧ 4096 ∉ r.2.received)) = true := by
  have hfirst : machine.step (ofManager circleStart) (.blockAck []) = some (ofManager circleAcked, []) :=
    ofManager_blockAck (by decide +kernel)
  have hlast : machine.step (ofManager circleRound) (.blockAck []) = some (ofManager circleEnd, []) :=
    ofManager_blockAck (by decide +kernel)
  obtain ⟨r₁, hr₁, hs₁⟩ := map_eq_some_iff.mp circle_start
  obtain ⟨r₂, hr₂, hs₂⟩ := map_eq_some_iff.mp circle_round
  rw [show circle = circle.take 3 ++ .blockAck [] :: ((circle.drop 4).take 78 ++ [.blockAck []]) from rfl, exec_append, hr₁,
    bind_some, hs₁, exec_cons trivial hfirst, exec_append, hr₂, bind_some, hs₂, exec_cons trivial hlast]
  rfl

/-- **Numbers that come round**: with a window of 256 whose frames are all lost the
scoreboard stays where it was, and its bit of the first MPDU acknowledges the one 4096
positions on. -/
theorem circle_acknowledged : ∃ tr s, Run machine Transmitted (start 256 0) tr s ∧
    4096 ∈ s.originator.agreement.acked ∧ 4096 ∉ s.received := by
  obtain ⟨tr, s, hrun, hacked⟩ := run_of_any machine Transmitted circle_acked
  exact ⟨tr, s, hrun, of_decide_eq_true hacked⟩

end BlockAckExchange

end Ns3
