import Ns3.Rlc.UmSound

/-!
# Unacknowledged mode over a lossy channel

Over a channel that loses, repeats and reorders PDUs, the receiver hands up
some of the packets submitted, each once and in order, as long as no PDU
arrives from outside of the reordering window, no header is longer than 16
bits can tell, and no packet gets between the two parts of another.
-/

namespace Ns3

open Machine LteRlcUmTx LteRlcHeader SequenceNumber10 List

/-- A sender, a receiver, the PDUs sent, and for the statements about them: the
SDUs accepted in the order the sender sends them, the highest index of a PDU
received, and the index `VR(UR)` stands for. -/
structure UmLink where
  tx : LteRlcUmTx := {}
  rx : LteRlcUmRx := {}
  sent : List Bytes := []
  order : List Bytes := []
  highest : Option Nat := none
  ur : Nat := 0

inductive UmLinkEvent where
  | sender (e : UmTxEvent)
  /-- Some copy of the PDU with send index `i` arrives. -/
  | arrive (i : Nat)
  | expire
  deriving DecidableEq

namespace UmLink

open LteRlcUmTx (Regular NonEmpty Stores)

/-- `VR(UR)` only moves forward, by less than 1024 at once. -/
def received (s : UmLink) (rx : LteRlcUmRx) : UmLink :=
  { s with rx := rx, ur := indexFrom s.ur rx.vrUr.value }

def machine : Machine UmLink UmLinkEvent Bytes where
  step s
    | .sender e =>
      match LteRlcUmTx.machine.step s.tx e with
      | none => none
      | some (tx, out) => some ({ s with tx := tx, sent := s.sent ++ out, order := s.tx.orderAfter s.order e }, [])
    | .arrive i =>
      match s.sent[i]? with
      | none => none
      | some b =>
        match s.rx.doReceivePdu b with
        | none => none
        | some (rx, sdus) => some ({ s.received rx with highest := some (max i (s.highest.getD 0)) }, sdus)
    | .expire =>
      if s.rx.reorderingTimer then
        match s.rx.expireReorderingTimer with
        | none => none
        | some (rx, sdus) => some (s.received rx, sdus)
      else none

/-- The sender's events meet `C`, and the index of an arriving PDU is at most
`back` below and 512 above the highest received, and within 512 of `VR(UR)`. -/
def Near (C : LteRlcUmTx → UmTxEvent → Prop) (back : Nat) (s : UmLink) : UmLinkEvent → Prop
  | .sender e => C s.tx e
  | .arrive i => (∀ h ∈ s.highest, h ≤ i + back ∧ i ≤ h + 512) ∧ s.ur ≤ i + 512 ∧ i ≤ s.ur + 512
  | .expire => True

instance {C : LteRlcUmTx → UmTxEvent → Prop} [∀ s e, Decidable (C s e)] (back : Nat) (s : UmLink) :
    (e : UmLinkEvent) → Decidable (Near C back s e)
  | .sender e => inferInstanceAs (Decidable (C s.tx e))
  | .arrive i => inferInstanceAs (Decidable ((∀ h ∈ s.highest, h ≤ i + back ∧ i ≤ h + 512) ∧ _ ≤ _ ∧ _ ≤ _))
  | .expire => .isTrue trivial

/-- What is handed up after the PDU before `E` was reassembled. -/
def Lossy (cs : List Content) (E : Nat) (ra : Reassembly) (out : List Bytes) : Prop :=
  Follows cs E ra ∧ E ≤ cs.length ∧ out.Sublist (absorbAll (cs.take E)).1

theorem lossy_reassembles {tx : LteRlcUmTx} {order sent : List Bytes} {cs : List Content}
    (h : Sends tx order sent cs) : LteRlcUmRx.Reassembles (fun i => sent[i]?) (Lossy cs) := by
  rintro p b E ra out hp hlo hhi ⟨hf, -, hsub⟩
  obtain ⟨c, hc, hb⟩ := LteRlcUmRx.content_of_sent h hp
  obtain ⟨ra', d, hrun, hf', hd, -⟩ := LteRlcUmRx.reassembleAndDeliver_eq h.chained hc hb hf hlo hhi
  refine ⟨ra', d, hrun, hf', (List.getElem?_eq_some_iff.mp hc).1, ?_⟩
  rw [absorbAll_take_succ hc]
  exact (hsub.trans (absorbAll_le_take cs hlo).sublist).append hd

theorem Lossy.append {cs : List Content} {E : Nat} {ra : Reassembly} {out : List Bytes} (h : Lossy cs E ra out)
    (new : List Content) : Lossy (cs ++ new) E ra out := by
  obtain ⟨hf, hE, hsub⟩ := h
  have htake : (cs ++ new).take E = cs.take E := take_append_of_le_length hE
  refine ⟨⟨?_, hf.number⟩, by simp; omega, ?_⟩
  · rw [htake]
    exact hf.kept
  · rw [htake]
    exact hsub

/-- The sender and the receiver of a link, after `out` was handed up. -/
structure Inv (s : UmLink) (out : List Bytes) (cs : List Content) (uh ux E : Nat) : Prop where
  sends : Sends s.tx s.order s.sent cs
  window : Window (fun i => s.sent[i]?) s.rx s.ur uh ux E
  lossy : Lossy cs E s.rx.reassembly out
  highest : uh ≤ (s.highest.map (· + 1)).getD 0

section
variable {s : UmLink} {out : List Bytes} {cs : List Content} {uh ux E : Nat}

theorem Inv.sender (h : Inv s out cs uh ux E) {e : UmTxEvent} (he : Near Regular 511 s (.sender e)) :
    ∃ s' cs', machine.step s (.sender e) = some (s', []) ∧ Inv s' out cs' uh ux E := by
  obtain ⟨tx, o, new, hstep, hsends⟩ := h.sends.step he
  refine ⟨{ s with tx := tx, sent := s.sent ++ o, order := s.tx.orderAfter s.order e }, cs ++ new, ?_, hsends, ?_,
    h.lossy.append new, h.highest⟩
  · simp [machine, hstep]
  · refine h.window.mono fun i b hb => ?_
    rw [getElem?_append_left (List.getElem?_eq_some_iff.mp hb).1]
    exact hb

theorem Inv.arrive (h : Inv s out cs uh ux E) {i : Nat} {b : Bytes} (hb : s.sent[i]? = some b)
    (hnear : Near Regular 511 s (.arrive i)) :
    ∃ s' o uh' ux' E', machine.step s (.arrive i) = some (s', o) ∧ Inv s' (out ++ o) cs uh' ux' E' := by
  obtain ⟨hhigh, -, hhi⟩ := hnear
  have hhighest := h.highest
  have hlo : uh ≤ i + 512 := by
    cases hs : s.highest with
    | none => simp [hs] at hhighest; omega
    | some k =>
      have := (hhigh k (by simp [hs])).1
      simp [hs] at hhighest
      omega
  obtain ⟨c, hc, hcarries⟩ := LteRlcUmRx.content_of_sent h.sends hb
  obtain ⟨rlcHeader, hd, hsn⟩ := hcarries.deserialize
  obtain ⟨rx, o, ur', uh', ux', E', hrecv, hwin, hlossy, hur, hur', huh, -⟩ :=
    h.window.doReceivePdu (lossy_reassembles h.sends) h.lossy hb hd hsn hlo hhi
  have hindex : indexFrom s.ur rx.vrUr.value = ur' := by
    have hup := h.window.pending.upper
    exact indexFrom_eq hur (by omega) (by rw [hwin.vrUr, Nat.mod_mod])
  refine ⟨{ s.received rx with highest := some (max i (s.highest.getD 0)) }, o, uh', ux', E', ?_, h.sends, ?_, hlossy,
    ?_⟩
  · simp only [machine, hb, hrecv]
  · simp only [received, hindex]
    exact hwin
  · cases hs : s.highest with
    | none =>
      simp [hs] at hhighest ⊢
      omega
    | some k =>
      simp [hs] at hhighest ⊢
      omega

theorem Inv.expire (h : Inv s out cs uh ux E) (ht : s.rx.reorderingTimer = true) :
    ∃ s' o ux' E', machine.step s .expire = some (s', o) ∧ Inv s' (out ++ o) cs uh ux' E' := by
  obtain ⟨rx, o, ur', ux', hexp, hwin, hlossy, hur⟩ :=
    h.window.expireReorderingTimer (lossy_reassembles h.sends) h.lossy ht
  have hindex : indexFrom s.ur rx.vrUr.value = ur' := by
    have h1 := h.window.pending.upper
    have h2 := hwin.pending.lower
    exact indexFrom_eq hur.le (by omega) (by rw [hwin.vrUr, Nat.mod_mod])
  refine ⟨s.received rx, o, ux', ur', ?_, h.sends, ?_, hlossy, h.highest⟩
  · simp only [machine, ht, hexp, if_true]
  · simp only [received, hindex]
    exact hwin

end

theorem inv_of_run {maxTxBufferSize : Nat} {tr : List (UmLinkEvent × List Bytes)} {s : UmLink}
    (h : Run machine (Near Regular 511) { tx := { maxTxBufferSize := maxTxBufferSize } } tr s) :
    ∃ cs uh ux E, Inv s (outputs tr) cs uh ux E := by
  refine Run.invariant (fun tr s => ∃ cs uh ux E, Inv s (outputs tr) cs uh ux E) ?_ ?_ h
  · exact ⟨[], 0, 0, 0, sends_init _, window_init _, ⟨⟨.inl ⟨rfl, rfl⟩, rfl⟩, Nat.le_refl 0,
      Sublist.refl _⟩, Nat.le_refl 0⟩
  · rintro tr s e s' o ⟨cs, uh, ux, E, hinv⟩ hnear hstep
    rw [outputs_snoc]
    cases e with
    | sender e =>
      obtain ⟨s'', cs', hstep', hinv'⟩ := hinv.sender hnear
      cases hstep.symm.trans hstep'
      exact ⟨cs', uh, ux, E, by simpa using hinv'⟩
    | arrive i =>
      cases hb : s.sent[i]? with
      | none => simp [machine, hb] at hstep
      | some b =>
        obtain ⟨s'', o', uh', ux', E', hstep', hinv'⟩ := hinv.arrive hb hnear
        cases hstep.symm.trans hstep'
        exact ⟨cs, uh', ux', E', hinv'⟩
    | expire =>
      cases ht : s.rx.reorderingTimer with
      | false => simp [machine, ht] at hstep
      | true =>
        obtain ⟨s'', o', ux', E', hstep', hinv'⟩ := hinv.expire ht
        cases hstep.symm.trans hstep'
        exact ⟨cs, uh, ux', E', hinv'⟩

/-- The SDUs no part of which is left in the buffer, in the order they were sent. -/
def sentSdus (s : UmLink) : List Bytes := s.order.take (s.order.length - s.tx.txBuffer.length)

/-- **Safety over a lossy channel.** In every run whose arriving PDUs are inside
the reordering window or at most 512 ahead of it, what is handed up is a
subsequence of the SDUs sent. -/
theorem delivered_sublist (maxTxBufferSize : Nat) {tr : List (UmLinkEvent × List Bytes)} {s : UmLink}
    (h : Run machine (Near Regular 511) { tx := { maxTxBufferSize := maxTxBufferSize } } tr s) :
    (outputs tr).Sublist s.sentSdus := by
  obtain ⟨cs, uh, ux, E, hinv⟩ := inv_of_run h
  obtain ⟨-, hE, hsub⟩ := hinv.lossy
  have hle := absorbAll_le_take cs hE
  rw [take_length] at hle
  have hsent : s.sentSdus = (absorbAll cs).1 := by
    rw [sentSdus, hinv.sends.order]
    exact take_left' (by simp [waiting_length])
  rw [hsent]
  exact hsub.trans hle.sublist

def sendEach (ps : List Bytes) : List UmLinkEvent :=
  ps.flatMap fun p => [.sender (.transmitPdcpPdu p 0), .sender (.txOpportunity 100)]

/-- The second of three PDUs comes too late. -/
def lateSecond : List UmLinkEvent := sendEach [[1], [2], [3]] ++ [.arrive 2, .arrive 0, .arrive 2, .expire, .arrive 1]

theorem lateSecond_isSome : (machine.exec (Near Regular 511) {} lateSecond).isSome := by
  decide +kernel

theorem late_second_delivered : ∃ tr s, outputs tr = [[1], [3]] ∧ s.sentSdus = [[1], [2], [3]] ∧
    Run machine (Near Regular 511) {} tr s ∧ (outputs tr).Sublist s.sentSdus := by
  have hrun := run_of_isSome machine (Near Regular 511) _ _ lateSecond_isSome
  exact ⟨_, _, by decide +kernel, by decide +kernel, hrun, delivered_sublist 20480 hrun⟩

/-- A packet of one byte, then one sent in 512 PDUs; the first PDU comes again
when the highest index received is 512. -/
def firstAgain : List UmLinkEvent :=
  sendEach [[1]] ++ .sender (.transmitPdcpPdu (List.replicate 512 2) 0) ::
    List.replicate 512 (.sender (.txOpportunity 3)) ++ [.arrive 0, .arrive 512, .arrive 0, .expire]

def middlePdu (b : UInt8) (sn : Nat) : Bytes :=
  [UInt8.ofNat ((((NO_FIRST_BYTE ||| NO_LAST_BYTE) &&& 0x3) <<< 3 &&& 0x18) |||
    ((DATA_FIELD_FOLLOWS <<< 2) &&& 0x04) ||| ((sn >>> 8) &&& 0x03)), UInt8.ofNat (sn &&& 0xff), b]

/-- A sender that has `n` bytes of a packet left. -/
def cutting (tx : LteRlcUmTx) (b : UInt8) (n sn : Nat) : LteRlcUmTx :=
  { tx with txBuffer := [⟨List.replicate n b, .lastSegment⟩], txBufferSize := n, sequenceNumber := ⟨sn, 0⟩ }

theorem cutting_step (tx : LteRlcUmTx) (b : UInt8) (n sn : Nat) (hn : n < 1024) (hsn : sn + 1 < 1024) :
    (cutting tx b (n + 2) sn).doNotifyTxOpportunity 3 = some (cutting tx b (n + 1) (sn + 1), [middlePdu b sn]) := by
  have hincr : (⟨sn, 0⟩ : SequenceNumber10).incr = ⟨sn + 1, 0⟩ := by
    simp [incr]
    omega
  have hcut : fillDataField ⟨replicate (n + 2) b, .lastSegment⟩ [] 0 1 1 =
      ⟨[⟨[b], .middleSegment⟩], [DATA_FIELD_FOLLOWS], [], [⟨replicate (n + 1) b, .lastSegment⟩], n + 1, 0⟩ := by
    have hadd : add32 0 (n + 1) = n + 1 := by
      simp only [add32]
      omega
    rw [fillDataField]
    simp [TxPdu.size, cutToFit, TxPdu.cut, TxPdu.cutStatus, hadd]
  have hsub : sub32 (n + 2) (n + 2) = 0 := by
    simp only [sub32]
    omega
  simp only [doNotifyTxOpportunity, cutting, TxPdu.size, length_replicate, hsub]
  rw [if_neg (by decide), hcut]
  simp [transmitPdu, buildPdu, framingInfoOf, addHeader, pushExtensionBit,
    serialize, serializeLi, setSequenceNumber, setFramingInfo, hincr,
    getSerializedSize, middlePdu, firstByteOf, lastByteOf, lengthWith]

theorem cutting_regular (tx : LteRlcUmTx) (b : UInt8) (n sn : Nat) :
    (cutting tx b (n + 2) sn).Regular (.txOpportunity 3) := by
  refine ⟨fun p hp => ?_, trivial, ?_⟩
  · cases hp
  · simp [ShortHeader, segmentsFor, cutting, fillDataField, TxPdu.size, cutToFit]

theorem exec_cutting (b : UInt8) (es : List UmLinkEvent) (n : Nat) : ∀ (s : UmLink) (sn : Nat), sn + n < 1024 →
    ∃ tr, outputs tr = [] ∧
      machine.exec (Near Regular 512) { s with tx := cutting s.tx b (n + 1) sn } (List.replicate n (.sender (.txOpportunity 3)) ++ es) =
        (machine.exec (Near Regular 512)
          { s with tx := cutting s.tx b 1 (sn + n), sent := s.sent ++ (List.range' sn n).map (middlePdu b) } es).map
          fun r => (tr ++ r.1, r.2) := by
  induction n with
  | zero =>
    intro s sn _
    refine ⟨[], rfl, ?_⟩
    simp
  | succ n ih =>
    intro s sn hsn
    obtain ⟨tr, hout, heq⟩ := ih { s with sent := s.sent ++ [middlePdu b sn] } (sn + 1) (by omega)
    have hstep : machine.step { s with tx := cutting s.tx b (n + 1 + 1) sn } (.sender (.txOpportunity 3)) =
        some ({ s with tx := cutting s.tx b (n + 1) (sn + 1), sent := s.sent ++ [middlePdu b sn] }, []) := by
      simp only [machine, LteRlcUmTx.machine, cutting_step s.tx b n sn (by omega) (by omega)]
      rfl
    refine ⟨(.sender (.txOpportunity 3), []) :: tr, by simpa [outputs] using hout, ?_⟩
    have hnear : Near Regular 512 { s with tx := cutting s.tx b (n + 1 + 1) sn } (.sender (.txOpportunity 3)) :=
      cutting_regular s.tx b n sn
    rw [replicate_succ, cons_append, exec, if_pos hnear, hstep]
    simp only
    rw [heq, range'_succ]
    simp [Nat.add_comm, Nat.add_left_comm]
    rfl

/-- The events before the first cut is done. -/
def opening : List UmLinkEvent :=
  sendEach [[1]] ++ [.sender (.transmitPdcpPdu (List.replicate 512 2) 0), .sender (.txOpportunity 3)]

set_option maxRecDepth 8000 in
theorem exec_opening : ∃ tr, outputs tr = [] ∧ machine.exec (Near Regular 512) {} opening = some (tr,
    { ({} : UmLink) with
      tx := cutting {} 2 511 2
      sent := [[0, 0, 1], [8, 1, 2]]
      order := [[1], List.replicate 512 2] }) := by
  refine ⟨_, ?_, rfl⟩
  rfl

theorem firstAgain_count : ((machine.exec (Near Regular 512) {} firstAgain).any fun r =>
    decide (r.2.sentSdus.count [1] < (outputs r.1).count [1])) = true := by
  have hsplit : firstAgain = opening ++ (replicate 510 (.sender (.txOpportunity 3)) ++
      [.sender (.txOpportunity 3), .arrive 0, .arrive 512, .arrive 0, .expire]) := by decide +kernel
  obtain ⟨tr, hout, hopening⟩ := exec_opening
  obtain ⟨tr', hout', hcut⟩ := exec_cutting 2 [.sender (.txOpportunity 3), .arrive 0, .arrive 512, .arrive 0, .expire] 510
    { ({} : UmLink) with
      sent := [[0, 0, 1], [8, 1, 2]]
      order := [[1], replicate 512 2] } 2 (by decide)
  rw [hsplit, exec_append, hopening, Option.bind_some, hcut, Option.map_map, Option.any_map]
  simp only [Function.comp_def, outputs_append, hout, hout', nil_append]
  decide +kernel

theorem first_again : ∃ tr s, Run machine (Near Regular 512) {} tr s ∧ ¬(outputs tr).Sublist s.sentSdus := by
  obtain ⟨tr, s, hrun, hcount⟩ := run_of_any machine (Near Regular 512) firstAgain_count
  exact ⟨tr, s, hrun, fun h => Nat.not_lt.mpr (h.count_le [1]) (of_decide_eq_true hcount)⟩

/-- The steps of a sender are steps of the link. -/
theorem run_sender (back : Nat) {tx₀ tx : LteRlcUmTx} {tr : List (UmTxEvent × List Bytes)}
    (h : Run LteRlcUmTx.machine Stores tx₀ tr tx) :
    Run machine (Near NonEmpty back) { tx := tx₀ } (tr.map fun e => (.sender e.1, []))
      { tx := tx, sent := outputs tr, order := submitted tr } := by
  induction h with
  | nil => exact .nil
  | @snoc tr tx e tx' out _ hstores hstep ih =>
    have hsub : submitted (tr ++ [(e, out)]) =
        submitted tr ++ (submittedBy e).toList := by
      cases hp : submittedBy e <;> simp [submitted, hp]
    rw [map_append]
    refine ih.snoc hstores.nonempty ?_
    simp only [machine, hstep]
    rw [hstores.orderAfter_eq, outputs_snoc, hsub]

theorem arrive_first {tx : LteRlcUmTx} {b : Bytes} {order sdus : List Bytes} {rx : LteRlcUmRx}
    (hreceive : LteRlcUmRx.doReceivePdu {} b = some (rx, sdus)) :
    machine.step { tx := tx, sent := [b], order := order } (.arrive 0) =
      some ({ ({ tx := tx, sent := [b], order := order } : UmLink).received rx with highest := some 0 }, sdus) := by
  simp [machine, hreceive]

/-- One PDU has 43691 packets. -/
theorem many_sdus_garbled : ∃ tr s, Run machine (Near NonEmpty 511) { tx := { maxTxBufferSize := 999999999 } } tr s ∧
    ¬(outputs tr).Sublist s.sentSdus := by
  obtain ⟨tx, b, others, hstep, hempty, hs, hbyte⟩ := manySdus_overlaid (n := 43689) rfl
  generalize hn : 43689 + 1 + 1 = n at hstep
  have hsent := run_sender 511 ((run_manySdus n (by omega)).snoc (by trivial) hstep)
  have hout : outputs (storedTrace n) = [] := by simp [outputs, storedTrace]
  have hsubmitted : submitted (storedTrace n ++ [(.txOpportunity 200000, [b])]) =
      submitted (storedTrace n) := by
    simp [submitted, submittedBy]
  rw [outputs_snoc, hout, hsubmitted] at hsent
  obtain ⟨r, -, hrun, -⟩ := LteRlcUmRx.receiveAll_take hs 1 (Nat.le_refl 1)
  obtain ⟨rx, hreceive⟩ : ∃ rx, LteRlcUmRx.doReceivePdu {} b = some (rx, others) := by
    simp only [take_succ_cons, take_zero, LteRlcUmRx.receiveAll] at hrun
    split at hrun
    · cases hrun
    · rename_i rx sdus hreceive
      cases hrun
      exact ⟨_, by simpa [absorbAll, Content.absorb] using hreceive⟩
  have hnear : Near NonEmpty 511 { tx := tx, sent := [b], order := submitted (storedTrace n) }
      (.arrive 0) := by simp [Near]
  refine ⟨_, _, hsent.snoc hnear (arrive_first hreceive), ?_⟩
  intro hsub
  obtain ⟨p, hp, hin⟩ := mem_flatten.mp hbyte
  have hmem := hsub.subset (by simpa [outputs] using hp)
  have hzero := storedTrace_zeros n 128 (mem_flatten.mpr ⟨p, mem_of_mem_take hmem, hin⟩)
  exact absurd hzero (by decide)

/-- Arrivals have nothing to do with the sender. -/
theorem step_arrival (tx : LteRlcUmTx) (order : List Bytes) (s : UmLink) (i : Nat) :
    machine.step { s with tx := tx, order := order } (.arrive i) =
      (machine.step s (.arrive i)).map fun r => ({ r.1 with tx := tx, order := order }, r.2) := by
  simp only [machine]
  cases s.sent[i]? with
  | none => rfl
  | some b =>
    dsimp only
    cases s.rx.doReceivePdu b <;> rfl

theorem exec_arrivals {C : LteRlcUmTx → UmTxEvent → Prop} [∀ s e, Decidable (C s e)] (back : Nat) (tx : LteRlcUmTx)
    (order : List Bytes) (is : List Nat) : ∀ s : UmLink,
      machine.exec (Near C back) { s with tx := tx, order := order } (is.map .arrive) =
        (machine.exec (Near C back) s (is.map .arrive)).map fun r => (r.1, { r.2 with tx := tx, order := order }) := by
  induction is with
  | nil => intro s; rfl
  | cons i is ih =>
    intro s
    have hnear : Near C back { s with tx := tx, order := order } (.arrive i) ↔ Near C back s (.arrive i) := Iff.rfl
    rw [map_cons, exec, exec, if_congr hnear rfl rfl, step_arrival]
    split
    · cases machine.step s (.arrive i) with
      | none => rfl
      | some r =>
        dsimp only [Option.map_some]
        rw [ih r.1, Option.map_map, Option.map_map]
        rfl
    · rfl

/-- A link whose last packet was stored with priority. -/
def stocked (txBuffer : List TxPdu) (txBufferSize sn : Nat) (sent order : List Bytes) : UmLink where
  tx := { txBuffer := txBuffer, txBufferSize := txBufferSize, sequenceNumber := ⟨sn, 0⟩, ncArqAddTop := 1 }
  sent := sent
  order := order

/-- One byte left in front of other packets is sent alone. -/
theorem stocked_step (b : UInt8) (status : SduStatus) (t : TxPdu) (q : List TxPdu) (size sn : Nat)
    (sent order : List Bytes) :
    machine.step (stocked (⟨[b], status⟩ :: t :: q) size sn sent order) (.sender (.txOpportunity 3)) =
      some (stocked (t :: q) (sub32 size 1) ((sn + 1) % 1024) (sent ++
        [[UInt8.ofNat ((((firstByteOf status ||| lastByteOf status) &&& 0x3) <<< 3 &&& 0x18) |||
          ((DATA_FIELD_FOLLOWS <<< 2) &&& 0x04) ||| ((sn >>> 8) &&& 0x03)), UInt8.ofNat (sn &&& 0xff), b]])
        order, []) := by
  have hfill : fillDataField ⟨[b], status⟩ (t :: q) (sub32 size 1) 1 1 =
      takeLast ⟨[b], status⟩ (t :: q) (sub32 size 1) 1 := by
    simp [fillDataField, TxPdu.size]
  simp only [machine, LteRlcUmTx.machine, stocked, doNotifyTxOpportunity, TxPdu.size, length_singleton,
    orderAfter]
  rw [if_neg (by decide), hfill]
  simp [transmitPdu, buildPdu, takeLast, framingInfoOf, addHeader,
    pushExtensionBit, serialize, serializeLi, setSequenceNumber,
    setFramingInfo, getSerializedSize, lengthWith, incr]

/-- A packet of two bytes is cut, one of `2 ^ 32 - 1` bytes makes the size of the
buffer zero, and one with priority is stored and sent before the rest of the first. -/
theorem run_parted {big : Bytes} (hbig : big.length = 4294967295) : ∃ tr size, outputs tr = [] ∧
    Run machine (Near NonEmpty 511) {} tr (stocked [⟨big, .fullSdu⟩] size 3 [[8, 0, 1], [0, 1, 3], [16, 2, 2]]
      [[3], [1, 2], big]) := by
  have hcut : machine.exec (Near NonEmpty 511) {} [.sender (.transmitPdcpPdu [1, 2] 0), .sender (.txOpportunity 3)] =
      some ([(.sender (.transmitPdcpPdu [1, 2] 0), []), (.sender (.txOpportunity 3), [])], {
        tx := { txBuffer := [⟨[2], .lastSegment⟩], txBufferSize := 1, sequenceNumber := ⟨1, 0⟩ }
        sent := [[8, 0, 1]], order := [[1, 2]] }) := rfl
  have hbigStep : machine.step {
        tx := { txBuffer := [⟨[2], .lastSegment⟩], txBufferSize := 1, sequenceNumber := ⟨1, 0⟩ }
        sent := [[8, 0, 1]], order := [[1, 2]] } (.sender (.transmitPdcpPdu big 0)) = some ({
        tx := { txBuffer := [⟨[2], .lastSegment⟩, ⟨big, .fullSdu⟩], txBufferSize := 0, sequenceNumber := ⟨1, 0⟩ }
        sent := [[8, 0, 1]], order := [[1, 2], big] }, []) := by
    simp [machine, LteRlcUmTx.machine, doTransmitPdcpPdu, storePdcpPdu, orderAfter,
      enqueue, hasRoom, hbig, add32]
  have htop : machine.step {
        tx := { txBuffer := [⟨[2], .lastSegment⟩, ⟨big, .fullSdu⟩], txBufferSize := 0, sequenceNumber := ⟨1, 0⟩ }
        sent := [[8, 0, 1]], order := [[1, 2], big] } (.sender (.transmitPdcpPdu [3] 1)) =
      some (stocked [⟨[3], .fullSdu⟩, ⟨[2], .lastSegment⟩, ⟨big, .fullSdu⟩] (add32 0 1) 1 [[8, 0, 1]]
        [[3], [1, 2], big], []) := rfl
  have hgrant : ∀ s : UmLink, Near NonEmpty 511 s (.sender (.txOpportunity 3)) := by
    rintro s p ⟨⟩
  refine ⟨_, _, ?_, (run_of_exec machine _ _ hcut).append (.cons ?_ hbigStep (.cons ?_ htop
    (.cons (hgrant _) (stocked_step 3 _ _ _ _ _ _ _) (.cons (hgrant _) (stocked_step 2 _ _ _ _ _ _ _) .nil))))⟩
  · rfl
  · rintro p ⟨⟩ rfl
    cases hbig
  · rintro p ⟨⟩ ⟨⟩

/-- The first packet is handed up with the one stored before its rest. -/
theorem sdu_parted : ∃ tr s, Run machine (Near NonEmpty 511) {} tr s ∧ ¬(outputs tr).Sublist s.sentSdus := by
  have hbig : (replicate 4294967295 (0 : UInt8)).length = 4294967295 := length_replicate ..
  generalize replicate 4294967295 (0 : UInt8) = big at hbig
  obtain ⟨tr, size, hout, hsent⟩ := run_parted hbig
  have hreceived : ((machine.exec (Near NonEmpty 511) { sent := [[8, 0, 1], [0, 1, 3], [16, 2, 2]] }
      ([0, 1, 2].map .arrive)).any fun r => decide (outputs r.1 = [[1, 3], [2]])) = true := by
    decide +kernel
  obtain ⟨r, hr, hhanded⟩ := (Option.any_eq_true _ _).mp hreceived
  have harrive := exec_arrivals (C := NonEmpty) 511
    { txBuffer := [⟨big, .fullSdu⟩], txBufferSize := size, sequenceNumber := ⟨3, 0⟩, ncArqAddTop := 1 }
    [[3], [1, 2], big] [0, 1, 2] { sent := [[8, 0, 1], [0, 1, 3], [16, 2, 2]] }
  rw [hr] at harrive
  refine ⟨_, _, hsent.append (run_of_exec machine _ _ harrive), ?_⟩
  rw [outputs_append, hout, of_decide_eq_true hhanded]
  change ¬ [[1, 3], [2]].Sublist ([[3], [1, 2], big].take 2)
  simp only [take_succ_cons, take_zero]
  decide

/-- **Neither of the conditions can be left out**: a PDU from 512 back is handed up
again, a header over the data field and a packet before the rest of an SDU
change what is handed up. -/
theorem delivered_not_sublist :
    (∃ tr s, Run machine (Near Regular 512) {} tr s ∧ ¬(outputs tr).Sublist s.sentSdus) ∧
    (∃ tr s, Run machine (Near NonEmpty 511) { tx := { maxTxBufferSize := 999999999 } } tr s ∧
      ¬(outputs tr).Sublist s.sentSdus) ∧
    ∃ tr s, Run machine (Near NonEmpty 511) {} tr s ∧ ¬(outputs tr).Sublist s.sentSdus :=
  ⟨first_again, many_sdus_garbled, sdu_parted⟩

end UmLink

end Ns3
