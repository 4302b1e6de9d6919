import Ns3.Internet.SackLoop

/-!
# The transfer from one application to the other

The two buffers and the network between them, seen from the applications: one
adds bytes to the send buffer and the other extracts packets from the receive
buffer. Whatever is lost, repeated or delayed, the packets extracted are a prefix
of the bytes added, every byte that left the send buffer is held by the receiver,
and once everything is acknowledged the rest can be extracted at once.
-/

namespace Ns3

open Machine SequenceNumber32 List Option

namespace TcpReception

section
variable {s : TcpReception} {chunks : List TcpRxBuffer.Chunk} {n : Nat} {blocks : List (Nat × Nat)}

theorem Inv.extract_length (h : Inv s chunks n blocks) (maxSize : Nat) {b : TcpRxBuffer} {packet : Option Bytes}
    (hextract : s.buffer.extract maxSize = some (b, packet)) : packet.toList.flatten.length = min maxSize (n - s.unread) := by
  rw [← h.availBytes]
  rw [TcpRxBuffer.extract] at hextract
  split at hextract
  · next hzero =>
    cases hextract
    simpa using hzero.symm
  · next hpos =>
    obtain ⟨chunks', hloop, hlength, -⟩ := h.extract_some (Nat.pos_of_ne_zero hpos) (Nat.min_le_right ..)
    rw [hloop] at hextract
    cases hextract
    have hne : ¬s.out (min maxSize s.buffer.availBytes) = [] := by
      intro hnil
      rw [hnil] at hlength
      exact hpos hlength.symm
    rw [if_neg hne, toList_some, flatten_singleton, hlength]

end

end TcpReception

namespace SackLoop

def handed (s : SackLoop) : SackEvent → List Bytes
  | .extract maxSize => ((s.reception.buffer.extract maxSize).bind Prod.snd).toList
  | _ => []

def transfer : Machine SackLoop SackEvent Bytes where
  step s e := (machine.step s e).map fun r => (r.1, s.handed e)

section
variable {s s' : SackLoop} {tr : List (SackEvent × List Bytes)}

structure Progress (s s' : SackLoop) (o : List Bytes) : Prop where
  accepted : ∃ more, s'.flow.accepted = s.flow.accepted ++ more
  extracted : s'.reception.extracted = s.reception.extracted + o.flatten.length
  bytes : o.flatten = s.reception.out o.flatten.length

theorem Progress.quiet (haccepted : ∃ more, s'.flow.accepted = s.flow.accepted ++ more)
    (hextracted : s'.reception.extracted = s.reception.extracted) : Progress s s' [] :=
  ⟨haccepted, hextracted, by simp [TcpReception.out]⟩

/-- **Step.** Bytes are added at the end of the stream and extracted at its front. -/
theorem Inv.progress (h : Inv s) {e : SackEvent} (he : Outstanding s e) :
    ∃ s' o, transfer.step s e = some (s', o) ∧ Inv s' ∧ Progress s s' o := by
  obtain ⟨s', out, hstep, hinv'⟩ := h.step e he
  refine ⟨s', s.handed e, by rw [transfer]; dsimp only; rw [hstep, map_some], hinv', ?_⟩
  cases e with
  | sender e =>
    obtain ⟨f, out, hsocket, -, hon, -⟩ := h.flow.socket e he.1 he.2
    obtain ⟨more, haccepted, -⟩ := hon.accepted
    obtain ⟨r, hr, heq⟩ := map_eq_some_iff.mp hstep
    cases hsocket.symm.trans hr
    cases heq
    exact .quiet ⟨more, haccepted⟩ rfl
  | deliver segment =>
    obtain ⟨r, -, heq⟩ := map_eq_some_iff.mp hstep
    cases heq
    exact .quiet ⟨[], (append_nil _).symm⟩ rfl
  | deliverFin =>
    cases hstep
    exact .quiet ⟨[], (append_nil _).symm⟩ rfl
  | extract maxSize =>
    obtain ⟨chunks, n, blocks, hr⟩ := h.reception
    obtain ⟨r, o, -, hextract, -, -, -, hcount, hbytes, -⟩ := hr.extract maxSize
    obtain ⟨p, hp, heq⟩ := map_eq_some_iff.mp hstep
    cases hextract.symm.trans hp
    cases heq
    obtain ⟨⟨b, packet⟩, hb, hpair⟩ := map_eq_some_iff.mp hextract
    cases hpair
    rw [handed, hb, bind_some]
    exact ⟨⟨[], (append_nil _).symm⟩, hcount, hbytes⟩
  | sendAck allowedSackBlocks =>
    cases hstep
    exact .quiet ⟨[], (append_nil _).symm⟩ rfl
  | receivedAck now ack =>
    obtain ⟨b, -, heq⟩ := map_eq_some_iff.mp hstep
    cases heq
    exact .quiet ⟨[], (append_nil _).symm⟩ rfl

def HandedOver (tr : List (SackEvent × List Bytes)) (s : SackLoop) : Prop :=
  s.reception.extracted ≤ s.flow.accepted.length ∧ (outputs tr).flatten = s.flow.accepted.take s.reception.extracted

theorem HandedOver.snoc (h : HandedOver tr s) (hinv : Inv s) {e : SackEvent} {o : List Bytes} (hp : Progress s s' o) :
    HandedOver (tr ++ [(e, o)]) s' := by
  obtain ⟨more, haccepted⟩ := hp.accepted
  obtain ⟨hle, hflat⟩ := h
  have hlength := congrArg List.length hp.bytes
  rw [TcpReception.out, length_take, length_drop, hinv.stream] at hlength
  refine ⟨?_, ?_⟩
  · rw [hp.extracted, haccepted, length_append]
    omega
  · rw [outputs_snoc, flatten_append, hflat, hp.extracted, haccepted, take_append_of_le_length (by omega), take_add]
    congr 1
    have hbytes := hp.bytes
    rwa [TcpReception.out, hinv.stream] at hbytes

theorem Inv.received_of_lt_head (h : Inv s) {q : Nat} (hfirst : s.flow.firstSeq ≤ q) (hq : q < s.flow.head)
    (hend : q < s.flow.endOfData) : s.reception.Received q := by
  have hmem : q ∈ s.flow.received := by
    obtain hstart | ⟨a, ha, hnumber⟩ := h.flow.origin
    · omega
    · exact (h.flow.below a ha).2 q (hnumber ▸ hq) hfirst
  rcases (h.received q).mp hmem with hq | hq
  · exact hq
  · omega

/-- **Run.** -/
theorem handedOver_of_run {firstSeq maxBuffer dupAckThresh segmentSize rxMaxBuffer : Nat} (hmax : rxMaxBuffer + 1 < 2147483648)
    (hrun : Run transfer Outstanding (start firstSeq maxBuffer dupAckThresh segmentSize rxMaxBuffer) tr s) :
    Inv s ∧ HandedOver tr s := by
  refine Run.invariant (fun tr s => Inv s ∧ HandedOver tr s) ⟨inv_start _ _ _ _ hmax, Nat.le_refl _, rfl⟩ ?_ hrun
  rintro tr s e s' o ⟨hinv, hhanded⟩ he hstep
  obtain ⟨s₁, o₁, hstep₁, hinv₁, hprogress⟩ := hinv.progress he
  cases hstep₁.symm.trans hstep
  exact ⟨hinv₁, hhanded.snoc hinv hprogress⟩

/-- What one application has been handed of the bytes the other one added. -/
structure Transferred (s : SackLoop) (handedOver : Bytes) : Prop where
  inOrder : handedOver <+: s.flow.accepted
  /-- The lists of the send buffer have the bytes from its head on. -/
  stored : s.flow.txBuffer.headSequence = ofPosition s.flow.head ∧
    TcpTxBuffer.bytesOf s.flow.txBuffer.sentList ++ TcpTxBuffer.bytesOf s.flow.txBuffer.appList =
      s.flow.accepted.drop (s.flow.head - s.flow.firstSeq)
  /-- The receiver holds those before it. -/
  held : ∀ q, s.flow.firstSeq ≤ q → q < s.flow.endOfData → q < s.flow.head → s.reception.Holds q
  /-- When the send buffer has nothing more to send, one call returns the rest. -/
  complete : s.flow.endOfData ≤ s.flow.head → ∀ maxSize, s.flow.accepted.length - handedOver.length ≤ maxSize →
    ∃ s' rest, transfer.step s (.extract maxSize) = some (s', rest) ∧ handedOver ++ rest.flatten = s.flow.accepted

/-- **The stream is transferred.** In every run of the two buffers over a network that loses, repeats and
delays segments and acknowledgments. -/
theorem stream_transferred (firstSeq maxBuffer dupAckThresh segmentSize rxMaxBuffer : Nat) (hmax : rxMaxBuffer + 1 < 2147483648)
    (hrun : Run transfer Outstanding (start firstSeq maxBuffer dupAckThresh segmentSize rxMaxBuffer) tr s) :
    Transferred s (outputs tr).flatten ∧ ∀ e, Outstanding s e → (transfer.step s e).isSome := by
  obtain ⟨hinv, hle, hflat⟩ := handedOver_of_run hmax hrun
  have hlength : (outputs tr).flatten.length = s.reception.extracted := by
    rw [hflat, length_take, Nat.min_eq_left hle]
  obtain ⟨chunks, n, blocks, hr⟩ := hinv.reception
  refine ⟨⟨?_, ⟨hinv.flow.books.head, hinv.flow.books.bytes⟩, fun q hfirst hend hq => ?_, fun hall maxSize hsize => ?_⟩,
    fun e he => ?_⟩
  · rw [hflat]
    exact take_prefix _ _
  · exact hr.holds (hinv.received_of_lt_head hfirst hq hend)
  · -- everything is acknowledged, so no byte before the end is missing
    have hn : n = s.flow.endOfData := by
      have hend := hr.le_end
      rw [hinv.endOfStream_eq] at hend
      refine Nat.le_antisymm hend (Nat.le_of_not_lt fun hlt => hr.missing ?_)
      have hfirst := hr.first_le
      rw [hinv.firstSeq] at hfirst
      exact hinv.received_of_lt_head hfirst (by omega) hlt
    obtain ⟨s', rest, hstep, -, hprogress⟩ := @Inv.progress s hinv (.extract maxSize) trivial
    refine ⟨s', rest, hstep, ?_⟩
    obtain ⟨r, -, heq⟩ := map_eq_some_iff.mp hstep
    cases heq
    obtain ⟨r', o, -, hextract, -⟩ := hr.extract maxSize
    obtain ⟨⟨b, packet⟩, hb, -⟩ := map_eq_some_iff.mp hextract
    have hcount := hr.extract_length maxSize hb
    have hbytes := hprogress.bytes
    rw [handed, hb, bind_some] at hbytes ⊢
    have hunread : n - s.reception.unread = s.flow.accepted.length - s.reception.extracted := by
      rw [hn, TcpReception.unread, hinv.firstSeq, TcpFlow.endOfData]
      omega
    rw [hunread, Nat.min_eq_right (by omega)] at hcount
    have hrest : (s.flow.accepted.drop s.reception.extracted).take (s.flow.accepted.length - s.reception.extracted) =
        s.flow.accepted.drop s.reception.extracted := take_of_length_le (by rw [length_drop])
    rw [hbytes, hcount, hflat, TcpReception.out, hinv.stream, hrest, take_append_drop]
  · obtain ⟨s', o, hstep, -⟩ := hinv.progress he
    rw [hstep]
    rfl

end

/-- Two segments that arrive in the other order are extracted in three bytes and one. -/
theorem reordered_transferred : ∃ tr s, Run transfer Outstanding (start 10 100 3 2 100) tr s ∧
    outputs tr = [[1, 2, 3], [4]] ∧ Transferred s [1, 2, 3, 4] := by
  obtain ⟨tr, s, hrun, hout⟩ := run_of_any transfer Outstanding (s := start 10 100 3 2 100)
    (p := fun r => outputs r.1 = [[1, 2, 3], [4]]) (by decide +kernel :
      (transfer.exec Outstanding (start 10 100 3 2 100) (reordered ++ [.receivedAck 1 wholeAck, .extract 3])).any _ = true)
  have hout : outputs tr = [[1, 2, 3], [4]] := of_decide_eq_true hout
  have htransferred := (stream_transferred _ _ _ _ _ (by decide) hrun).1
  rw [hout] at htransferred
  exact ⟨tr, s, hrun, hout, htransferred⟩

end SackLoop

end Ns3
