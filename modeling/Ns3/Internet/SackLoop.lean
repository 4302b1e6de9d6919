import Ns3.Internet.TcpFlow
import Ns3.Internet.RxReassembly

/-!
# A send buffer and a receive buffer

The two buffers of a connection with selective acknowledgments, and the network
between them: segments and acknowledgments sent stay available for ever, and any
of them may arrive at any time, again or never. An acknowledgment is what the
receive buffer says when it is sent; the sender processes it as `ReceivedAck`
does, the blocks first and then the number.

A segment is kept with the position of its first byte, and an acknowledgment
with the positions it stands for. These, like the histories of the two buffers,
are not read by the code.
-/

namespace Ns3

open Machine SequenceNumber32 TcpReception List

structure SackLoop where
  flow : TcpFlow
  reception : TcpReception
  segments : List (Nat × TcpTxItem) := []
  acks : List (TcpAck × SequenceNumber32 × List SackBlock) := []

inductive SackEvent where
  /-- A call on the send buffer that no acknowledgment makes. -/
  | sender (e : TcpEvent)
  | deliver (segment : Nat × TcpTxItem)
  | deliverFin
  | extract (maxSize : Nat)
  | sendAck (allowedSackBlocks : Nat)
  | receivedAck (now : Int) (ack : TcpAck × SequenceNumber32 × List SackBlock)

namespace SackLoop

def start (firstSeq maxBuffer dupAckThresh segmentSize rxMaxBuffer : Nat) : SackLoop where
  flow := TcpFlow.start firstSeq maxBuffer dupAckThresh segmentSize true
  reception := TcpReception.start firstSeq rxMaxBuffer []

def receivedAck (b : TcpTxBuffer) (now : Int) (ackNumber : SequenceNumber32) (sackList : List SackBlock) :
    Option TcpTxBuffer :=
  (if sackList = [] then some b else (b.update sackList).map Prod.fst).bind fun b =>
    if ackNumber.lt b.headSequence then some b else b.discardUpTo now ackNumber

/-- The positions an acknowledgment stands for, counted from the next byte expected. -/
def positions (s : TcpReception) (sackList : List SackBlock) : TcpAck where
  ackNumber := s.expected
  sackList := sackList.map fun block =>
    (s.expected + block.1.diff s.buffer.nextRxSeq, s.expected + block.2.diff s.buffer.nextRxSeq)

def machine : Machine SackLoop SackEvent Unit where
  step s
    | .sender e =>
      (TcpFlow.machine.step s.flow e).map fun r =>
        ({ s with
          flow := r.1
          reception := { s.reception with stream := r.1.accepted }
          segments := s.segments ++ r.2.map fun item =>
            (r.1.head + item.startSeq.diff r.1.txBuffer.headSequence, item) }, [])
    | .deliver (first, item) =>
      (s.reception.buffer.add item.packet item.startSeq).map fun r =>
        ({ s with
          flow := { s.flow with
            received := List.range' first (s.reception.cutoff (first + item.size) - first) ++ s.flow.received }
          reception := s.reception.receive r.1 first (s.reception.cutoff (first + item.size)) }, [])
    | .deliverFin =>
      (TcpReception.machine.step s.reception .fin).map fun r =>
        ({ s with flow := { s.flow with received := s.flow.endOfData :: s.flow.received }, reception := r.1 }, [])
    | .extract maxSize =>
      (TcpReception.machine.step s.reception (.extract maxSize)).map fun r => ({ s with reception := r.1 }, [])
    | .sendAck allowedSackBlocks =>
      let sackList := s.reception.buffer.sackList.take allowedSackBlocks
      let ack := positions s.reception sackList
      some ({ s with
        flow := { s.flow with acks := ack :: s.flow.acks }
        acks := (ack, s.reception.buffer.nextRxSeq, sackList) :: s.acks }, [])
    | .receivedAck now ack =>
      (receivedAck s.flow.txBuffer now ack.2.1 ack.2.2).map fun b =>
        ({ s with flow := { s.flow with txBuffer := b, head := max s.flow.head ack.1.ackNumber } }, [])

/-- The calls `TcpSocketBase` makes besides those for an acknowledgment. -/
def FromSocket : TcpEvent → Prop
  | .add _ | .close | .copyFromSequence .. | .setSentListLost _ | .markHeadAsLost | .deleteRetransmittedFlagFromHead => True
  | _ => False

/-- The network delivers what was sent; the FIN follows all data. Sequence
numbers and requests stay comparable. -/
def Delivered (s : SackLoop) : SackEvent → Prop
  | .sender e => FromSocket e ∧ TcpFlow.Sound s.flow e
  | .deliver segment => segment ∈ s.segments ∧
      Windowed s.reception (.segment segment.1 (segment.1 + segment.2.size))
  | .deliverFin => s.flow.closed = true ∧ s.flow.highTxMark = s.flow.endOfData ∧ Windowed s.reception .fin
  | .extract _ | .sendAck _ => True
  | .receivedAck _ ack => ack ∈ s.acks ∧ TcpFlow.Recent s.flow ack.1

/-- Moreover, blocks are read only while something is in the sent list. -/
def Outstanding (s : SackLoop) : SackEvent → Prop
  | .receivedAck now ack => Delivered s (.receivedAck now ack) ∧ (ack.2.2 ≠ [] → s.flow.txBuffer.sentList ≠ [])
  | e => Delivered s e

end SackLoop

/-! ## The item a request returns -/

namespace TcpTxBuffer

theorem sendItem_mem {now : Int} {b b' : TcpTxBuffer} {l : Located} {item : TcpTxItem}
    (h : sendItem now b l = some (b', some item)) : item ∈ b'.sentList := by
  simp only [sendItem] at h
  split at h
  · cases h
    simp [Located.list]
  · cases h

theorem copyRequest_mem (now : Int) (seq : SequenceNumber32) : ∀ (rounds : Nat) (b : TcpTxBuffer) (n : Nat)
    {b' : TcpTxBuffer} {item : TcpTxItem}, copyRequest now seq rounds b n = some (b', some item) → item ∈ b'.sentList
  | 0, _, _, _, _, h => by cases h
  | rounds + 1, b, n, b', item, h => by
    simp only [copyRequest] at h
    split at h
    · cases h
    split at h
    · cases h
    split at h
    · obtain ⟨r, -, hr⟩ := Option.bind_eq_some_iff.mp h
      split at hr
      · cases hr
      · exact sendItem_mem hr
    split at h
    · split at h
      · obtain ⟨r, -, hr⟩ := Option.bind_eq_some_iff.mp h
        split at hr
        · cases hr
        · exact sendItem_mem hr
      · cases h
    split at h
    · exact copyRequest_mem now seq rounds b _ h
    · cases h

end TcpTxBuffer

namespace TcpFlow

open TcpTxBuffer

variable {s : TcpFlow}

theorem Inv.item_position (h : Inv s) {item : TcpTxItem} (hi : item ∈ s.txBuffer.sentList) :
    ∃ first, item.startSeq = ofPosition first ∧ s.head + item.startSeq.diff s.txBuffer.headSequence = first ∧
      s.firstSeq ≤ first ∧ first + item.size ≤ s.head + s.txBuffer.sentSize ∧ first + item.size ≤ s.endOfData ∧
      item.packet = (s.accepted.drop (first - s.firstSeq)).take item.size := by
  obtain ⟨before, after, hlist, hstart, hpos⟩ := h.books.laid.split hi
  have hbytes := h.books.bytes
  have hbound := h.books.bound
  have hlength := h.books.length_le
  have hsent := h.books.sentSize
  have hlower := h.lower
  rw [hlist, bytesOf_append, bytesOf_cons, append_assoc, append_assoc] at hbytes
  rw [hlist, bytesOf_append, length_append, length_bytesOf_cons] at hsent hlength
  have hdrop := length_drop (l := s.accepted) (i := s.head - s.firstSeq)
  refine ⟨_, hstart, ?_, by omega, by omega, ?_, ?_⟩
  · rw [hstart, headSequence, h.books.head, diff_ofPosition (by omega) (by omega)]
    omega
  · unfold endOfData
    omega
  · have hoffset : s.head + (bytesOf before).length - s.firstSeq = s.head - s.firstSeq + (bytesOf before).length := by omega
    rw [hoffset, ← drop_drop, ← hbytes, drop_left, take_left]

/-- What the calls of the socket leave as it is, or only add to. -/
structure Onward (s s' : TcpFlow) : Prop where
  firstSeq : s'.firstSeq = s.firstSeq
  received : s'.received = s.received
  acks : s'.acks = s.acks
  sackEnabled : s'.txBuffer.sackEnabled = s.txBuffer.sackEnabled
  closed : s.closed = true → s'.closed = true
  accepted : ∃ more, s'.accepted = s.accepted ++ more ∧ (s.closed = true → more = [])
  highTxMark : s.highTxMark ≤ s'.highTxMark

theorem Onward.setBuffer {b : TcpTxBuffer} (hmode : b.sackEnabled = s.txBuffer.sackEnabled) :
    Onward s (s.setBuffer b) :=
  ⟨rfl, rfl, rfl, hmode, id, ⟨[], (append_nil _).symm, fun _ => rfl⟩, Nat.le_refl _⟩

theorem Inv.socket (h : Inv s) : ∀ e : TcpEvent, SackLoop.FromSocket e → Sound s e →
    ∃ s' out, machine.step s e = some (s', out) ∧ Inv s' ∧ Onward s s' ∧
      ∀ item ∈ out, item ∈ s'.txBuffer.sentList ∧ s'.head + s'.txBuffer.sentSize ≤ s'.highTxMark
  | .add p, _, he => by
    refine ⟨_, _, rfl, h.add he.1 he.2, ⟨rfl, rfl, rfl, (add_sentList p).2, id, ?_, Nat.le_refl _⟩, by simp⟩
    have hopen : s.closed = false := he.1
    refine ⟨if (s.txBuffer.add p).2 then p else [], ?_, fun hclosed => ?_⟩
    · split
      · rfl
      · rw [append_nil]
    · rw [hopen] at hclosed
      cases hclosed
  | .close, _, _ =>
    ⟨_, _, rfl, h.close, ⟨rfl, rfl, rfl, rfl, fun _ => rfl, ⟨[], (append_nil _).symm, fun _ => rfl⟩, Nat.le_refl _⟩,
      by simp⟩
  | .copyFromSequence now n seq, _, he => by
    obtain ⟨b, out, hb, h'⟩ := h.copyFromSequence now he.1 he.2
    refine ⟨_, _, congrArg (Option.map _) hb, h', ⟨rfl, rfl, rfl, ?_, id, ⟨[], (append_nil _).symm, fun _ => rfl⟩,
      Nat.le_max_left _ _⟩, ?_⟩
    · obtain ⟨q, rfl, hq⟩ := TcpFlow.requestable h.books.toStream he.1
      have hwrap := he.2
      rw [TcpFlow.wrapsAround_iff h.books.toStream hq] at hwrap
      obtain ⟨b₁, out₁, hcopy, -, hkeeps⟩ := h.books.copyFromSequence now n hq hwrap
      cases hcopy.symm.trans hb
      exact hkeeps.sackEnabled
    · intro item hitem
      obtain rfl : out = some item := Option.mem_toList.mp hitem
      exact ⟨copyRequest_mem now seq _ _ _ hb, Nat.le_max_right _ _⟩
  | .setSentListLost resetSack, _, he => by
    obtain ⟨b, hb, hbooks, hkeeps⟩ := h.books.setSentListLost
    obtain rfl : resetSack = !s.txBuffer.sackEnabled := he
    exact ⟨_, _, congrArg (Option.map _) hb, h.keeps hbooks hkeeps, Onward.setBuffer hkeeps.sackEnabled, by simp⟩
  | .markHeadAsLost, _, _ => by
    obtain ⟨hbooks, hkeeps⟩ := h.books.markHeadAsLost
    exact ⟨_, _, rfl, h.keeps hbooks hkeeps, Onward.setBuffer hkeeps.sackEnabled, by simp⟩
  | .deleteRetransmittedFlagFromHead, _, _ => by
    obtain ⟨b, hb, hbooks, hkeeps⟩ := h.books.deleteRetransmittedFlagFromHead
    exact ⟨_, _, congrArg (Option.map _) hb, h.keeps hbooks hkeeps, Onward.setBuffer hkeeps.sackEnabled, by simp⟩

theorem Inv.receiveAll : ∀ {qs : List Nat} {s : TcpFlow}, Inv s → (∀ q ∈ qs, Issued s (.receive q)) →
    Inv { s with received := qs ++ s.received }
  | [], _, h, _ => h
  | q :: qs, s, h, hqs => by
    have h' := Inv.receiveAll h fun q' hq' => hqs q' (mem_cons_of_mem _ hq')
    exact h'.receive (s := { s with received := qs ++ s.received }) (hqs q mem_cons_self)

theorem sackedAt_item {p : Nat} {before after : List TcpTxItem} {item : TcpTxItem} (hs : item.sacked = true) {q : Nat}
    (hlo : p + (bytesOf before).length ≤ q) (hhi : q < p + (bytesOf before).length + item.size) :
    SackedAt p (before ++ item :: after) q := by
  rw [sackedAt_append, sackedAt_cons]
  exact .inr (.inl ⟨hs, hlo, hhi⟩)

end TcpFlow

/-! ## The receiver while the stream grows -/

namespace TcpReception

open TcpRxBuffer

theorem PieceOf.append {stream : Bytes} {base : Nat} {c : Chunk} (h : PieceOf stream base c) (more : Bytes) :
    PieceOf (stream ++ more) base c := by
  have hlength := congrArg List.length h.2
  rw [length_take] at hlength
  refine ⟨h.1, ?_⟩
  rw [drop_append, take_append_of_le_length (by omega)]
  exact h.2

variable {s : TcpReception} {chunks : List Chunk} {n : Nat} {blocks : List (Nat × Nat)}

theorem Inv.grow (h : Inv s chunks n blocks) {more : Bytes} (hopen : s.announced = true → more = []) :
    Inv { s with stream := s.stream ++ more } chunks n blocks := by
  by_cases ha : s.announced = true
  · rw [hopen ha, append_nil]
    exact h
  have hend : s.endOfStream ≤ endOfStream { s with stream := s.stream ++ more } := by
    simp only [endOfStream, length_append]
    omega
  have hle := Nat.le_trans h.le_end hend
  have hnext : next { s with stream := s.stream ++ more } = n := firstMissing_eq _ _ h.first_le hle h.below h.missing
  refine { h with pieces := ?_, bounds := ?_, le_end := hle, fin := ?_, nextRxSeq := ?_ }
  · intro c hc
    exact ⟨(h.pieces c hc).1, PieceOf.append (h.pieces c hc).2 more⟩
  · intro q hq
    exact ⟨(h.bounds q hq).1, Nat.lt_of_lt_of_le (h.bounds q hq).2 hend⟩
  · intro ha'
    exact absurd ha' ha
  · rw [expected, hnext, if_neg fun h' => ha h'.1, h.nextRxSeq, h.expected_eq, if_neg fun h' => ha h'.1]

theorem Inv.block_lt (h : Inv s chunks n blocks) {x : Nat × Nat} (hx : x ∈ blocks) : x.2 ≤ n + 1073741824 := by
  obtain ⟨hlo, hlt, hall⟩ := h.blocks x hx
  have hunread := h.unread
  obtain ⟨c, hc, -, hstop⟩ := (h.stored (x.2 - 1)).mpr ⟨hall (x.2 - 1) (by omega) (by omega), by omega⟩
  have := h.ahead c hc
  omega

/-- A byte is held: the application has it, or it is stored. -/
def Holds (s : TcpReception) (q : Nat) : Prop :=
  (s.firstSeq ≤ q ∧ q < s.unread) ∨ ∃ c, entry c ∈ s.buffer.data ∧ PieceOf s.stream s.firstSeq c ∧ c.1 ≤ q ∧ q < c.stop

theorem Inv.holds (h : Inv s chunks n blocks) {q : Nat} (hq : s.Received q) : s.Holds q := by
  by_cases hlt : q < s.unread
  · exact .inl ⟨(h.bounds q hq).1, hlt⟩
  · obtain ⟨c, hc, hlo, hhi⟩ := (h.stored q).mpr ⟨hq, Nat.le_of_not_lt hlt⟩
    exact .inr ⟨c, by rw [h.data]; exact List.mem_map_of_mem hc, (h.pieces c hc).2, hlo, hhi⟩

end TcpReception

/-! ## The invariant -/

namespace SackLoop

open TcpTxBuffer

structure Sent (s : TcpFlow) (x : Nat × TcpTxItem) : Prop where
  startSeq : x.2.startSeq = ofPosition x.1
  first : s.firstSeq ≤ x.1
  mark : x.1 + x.2.size ≤ s.highTxMark
  stop : x.1 + x.2.size ≤ s.endOfData
  packet : x.2.packet = (s.accepted.drop (x.1 - s.firstSeq)).take x.2.size

structure Inv (s : SackLoop) : Prop where
  flow : TcpFlow.Inv s.flow
  reception : ∃ chunks n blocks, TcpReception.Inv s.reception chunks n blocks
  sackEnabled : s.flow.txBuffer.sackEnabled = true
  stream : s.reception.stream = s.flow.accepted
  firstSeq : s.reception.firstSeq = s.flow.firstSeq
  received : ∀ q, q ∈ s.flow.received ↔ s.reception.Received q ∨ s.reception.announced = true ∧ q = s.flow.endOfData
  announced : s.reception.announced = true → s.flow.closed = true
  segments : ∀ x ∈ s.segments, Sent s.flow x
  acks : ∀ x ∈ s.acks, x.1 ∈ s.flow.acks ∧ x.2.1 = ofPosition x.1.ackNumber ∧ x.2.2 = x.1.sackList.map wireBlock

theorem inv_start (firstSeq maxBuffer dupAckThresh segmentSize : Nat) {rxMaxBuffer : Nat}
    (hmax : rxMaxBuffer + 1 < 2147483648) : Inv (start firstSeq maxBuffer dupAckThresh segmentSize rxMaxBuffer) where
  flow := TcpFlow.inv_start ..
  reception := ⟨_, _, _, TcpReception.inv_start [] hmax⟩
  sackEnabled := rfl
  stream := rfl
  firstSeq := rfl
  received := by simp [start, TcpFlow.start, TcpReception.start, Received]
  announced := by simp [start, TcpReception.start]
  segments := by simp [start]
  acks := by simp [start]

section
variable {s : SackLoop}

theorem Sent.onward {f f' : TcpFlow} {x : Nat × TcpTxItem} (h : Sent f x) (hon : TcpFlow.Onward f f') : Sent f' x := by
  obtain ⟨more, haccepted, -⟩ := hon.accepted
  have hmark := hon.highTxMark
  have hlength := congrArg List.length haccepted
  have hstop := h.stop
  have hfirst := h.first
  rw [length_append] at hlength
  unfold TcpFlow.endOfData at hstop
  refine ⟨h.startSeq, ?_, Nat.le_trans h.mark hmark, ?_, ?_⟩
  · rw [hon.firstSeq]
    exact h.first
  · rw [TcpFlow.endOfData, hon.firstSeq]
    omega
  · rw [haccepted, hon.firstSeq, drop_append, take_append_of_le_length]
    · exact h.packet
    · rw [length_drop]
      omega

theorem Sent.congr {f f' : TcpFlow} {x : Nat × TcpTxItem} (h : Sent f x) (hfirst : f'.firstSeq = f.firstSeq)
    (hmark : f'.highTxMark = f.highTxMark) (haccepted : f'.accepted = f.accepted) : Sent f' x := by
  obtain ⟨h₁, h₂, h₃, h₄, h₅⟩ := h
  unfold TcpFlow.endOfData at h₄
  rw [← hfirst, ← haccepted] at h₄ h₅
  rw [← hfirst] at h₂
  rw [← hmark] at h₃
  exact ⟨h₁, h₂, h₃, h₄, h₅⟩

theorem Inv.endOfStream_eq (h : Inv s) : s.reception.endOfStream = s.flow.endOfData := by
  rw [endOfStream, h.firstSeq, h.stream]
  rfl

/-! ## The steps -/

theorem Inv.sender (h : Inv s) {e : TcpEvent} (hfrom : FromSocket e) (he : TcpFlow.Sound s.flow e) :
    ∃ s' out, machine.step s (.sender e) = some (s', out) ∧ Inv s' := by
  obtain ⟨f, out, hstep, hinv, hon, hout⟩ := h.flow.socket e hfrom he
  obtain ⟨more, haccepted, hopen⟩ := hon.accepted
  obtain ⟨chunks, n, blocks, hr⟩ := h.reception
  have hgrow := hr.grow fun ha => hopen (h.announced ha)
  rw [h.stream, ← haccepted] at hgrow
  refine ⟨_, _, congrArg (Option.map _) hstep, {
    flow := hinv
    reception := ⟨chunks, n, blocks, hgrow⟩
    sackEnabled := hon.sackEnabled.trans h.sackEnabled
    stream := rfl
    firstSeq := h.firstSeq.trans hon.firstSeq.symm
    received := fun q => ?_
    announced := fun ha => hon.closed (h.announced ha)
    segments := fun x hx => ?_
    acks := fun x hx => ?_ }⟩
  · have hend : s.reception.announced = true → f.endOfData = s.flow.endOfData := by
      intro ha
      rw [TcpFlow.endOfData, hon.firstSeq, haccepted, hopen (h.announced ha), append_nil]
      rfl
    rw [hon.received, h.received q]
    refine or_congr_right (and_congr_right fun ha => ?_)
    rw [hend ha]
  · rcases mem_append.mp hx with hx | hx
    · exact (h.segments x hx).onward hon
    · obtain ⟨item, hitem, rfl⟩ := List.mem_map.mp hx
      obtain ⟨hmem, hmark⟩ := hout item hitem
      obtain ⟨first, hstart, hfirst, hlo, hsent, hstop, hpacket⟩ := hinv.item_position hmem
      rw [hfirst]
      exact ⟨hstart, hlo, Nat.le_trans hsent hmark, hstop, hpacket⟩
  · rw [hon.acks]
    exact h.acks x hx

theorem Inv.deliver (h : Inv s) {first : Nat} {item : TcpTxItem} (hsent : (first, item) ∈ s.segments)
    (hwindowed : Windowed s.reception (.segment first (first + item.size))) :
    ∃ s' out, machine.step s (.deliver (first, item)) = some (s', out) ∧ Inv s' := by
  obtain ⟨chunks, n, blocks, hr⟩ := h.reception
  have hx := h.segments _ hsent
  obtain ⟨b, kept, chunks', n', blocks', hadd, hr', -⟩ := hr.segment hwindowed
  rw [h.stream, h.firstSeq, Nat.add_sub_cancel_left, ← hx.packet, ← hx.startSeq] at hadd
  have hcut := cutoff_le s.reception (first + item.size)
  have hmark := hx.mark
  have hfirst := hx.first
  refine ⟨_, _, congrArg (Option.map _) hadd, { h with
    flow := h.flow.receiveAll fun q hq => ?_
    reception := ⟨chunks', n', blocks', hr'⟩
    stream := h.stream
    firstSeq := h.firstSeq
    received := fun q => ?_
    announced := h.announced
    segments := fun x hx => ?_ }⟩
  · rw [mem_range'_1] at hq
    exact ⟨by dsimp only at hfirst; omega, .inl (by dsimp only at hmark; omega)⟩
  · rw [mem_append, mem_range'_1, received_receive, h.received q]
    constructor
    · rintro (hq | hq | hq)
      · exact .inl (.inr ⟨hq.1, by omega⟩)
      · exact .inl (.inl hq)
      · exact .inr hq
    · rintro ((hq | hq) | hq)
      · exact .inr (.inl hq)
      · exact .inl ⟨hq.1, by omega⟩
      · exact .inr (.inr hq)
  · exact (h.segments x hx).congr rfl rfl rfl

theorem Inv.deliverFin (h : Inv s) (hclosed : s.flow.closed = true) (hmark : s.flow.highTxMark = s.flow.endOfData)
    (hwindowed : Windowed s.reception .fin) : ∃ s' out, machine.step s .deliverFin = some (s', out) ∧ Inv s' := by
  obtain ⟨chunks, n, blocks, hr⟩ := h.reception
  have hissued : TcpFlow.Issued s.flow (.receive s.flow.endOfData) :=
    ⟨Nat.le_add_right _ _, .inr ⟨hclosed, hmark, rfl⟩⟩
  refine ⟨_, _, rfl, { h with
    flow := h.flow.receive hissued
    reception := ⟨chunks, n, blocks, hr.announce hwindowed⟩
    stream := h.stream
    firstSeq := h.firstSeq
    received := fun q => ?_
    announced := fun _ => hclosed
    segments := fun x hx => ?_ }⟩
  · rw [mem_cons, h.received q]
    constructor
    · rintro (hq | hq | hq)
      · exact .inr ⟨rfl, hq⟩
      · exact .inl hq
      · exact .inr ⟨rfl, hq.2⟩
    · rintro (hq | hq)
      · exact .inr (.inl hq)
      · exact .inl hq.2
  · exact (h.segments x hx).congr rfl rfl rfl

theorem Inv.extract (h : Inv s) (maxSize : Nat) : ∃ s' out, machine.step s (.extract maxSize) = some (s', out) ∧ Inv s' := by
  obtain ⟨chunks, n, blocks, hr⟩ := h.reception
  obtain ⟨r, o, chunks', n', blocks', hstep, hr', -⟩ := hr.step (.extract maxSize) trivial
  refine ⟨_, _, congrArg (Option.map _) hstep, ?_⟩
  obtain ⟨p, -, heq⟩ := Option.map_eq_some_iff.mp hstep
  cases heq
  exact { h with
    reception := ⟨chunks', n', blocks', hr'⟩
    stream := h.stream
    firstSeq := h.firstSeq
    received := h.received
    announced := h.announced }

theorem positions_eq {chunks : List TcpRxBuffer.Chunk} {n : Nat} {blocks : List (Nat × Nat)}
    (hr : TcpReception.Inv s.reception chunks n blocks) (k : Nat) :
    positions s.reception (s.reception.buffer.sackList.take k) = ⟨s.reception.expected, blocks.take k⟩ := by
  have hexpected := hr.expected_eq
  rw [positions, hr.sackList, ← map_take, List.map_map, TcpAck.mk.injEq]
  refine ⟨rfl, (map_congr_left fun x hx => ?_).trans (List.map_id _)⟩
  have hmem := mem_of_mem_take hx
  obtain ⟨hlo, hlt, hall⟩ := hr.blocks x hmem
  have hend := (hr.bounds _ (hall x.1 (Nat.le_refl _) hlt)).2
  have hfar := hr.block_lt hmem
  rw [if_neg (by omega)] at hexpected
  show (s.reception.expected + (ofPosition x.1).diff s.reception.buffer.nextRxSeq,
    s.reception.expected + (ofPosition x.2).diff s.reception.buffer.nextRxSeq) = x
  rw [hr.nextRxSeq, hexpected, diff_ofPosition (by omega) (by omega), diff_ofPosition (by omega) (by omega)]
  exact Prod.ext (by dsimp only; omega) (by dsimp only; omega)

theorem Inv.truthful (h : Inv s) {chunks : List TcpRxBuffer.Chunk} {n : Nat} {blocks : List (Nat × Nat)}
    (hr : TcpReception.Inv s.reception chunks n blocks) (k : Nat) :
    TcpFlow.Truthful s.flow ⟨s.reception.expected, blocks.take k⟩ := by
  have hend := h.endOfStream_eq
  have hfirst := h.firstSeq
  have hle' := hr.first_le
  have hexpected := hr.expected_eq
  unfold TcpFlow.Truthful
  simp only
  by_cases hfin : s.reception.announced = true ∧ n = s.reception.endOfStream
  · rw [if_pos hfin] at hexpected
    refine ⟨by omega, fun q hq hlo => (h.received q).mpr ?_, fun hq => ?_, fun x hx => ?_⟩
    · by_cases hlt : q < n
      · exact .inl (hr.below q (by omega) hlt)
      · exact .inr ⟨hfin.1, by omega⟩
    · rcases (h.received _).mp hq with hq | hq
      · have := (hr.bounds _ hq).2
        omega
      · omega
    · -- nothing is above the end of the stream
      obtain ⟨hlo, hlt, hall⟩ := hr.blocks x (mem_of_mem_take hx)
      have := (hr.bounds _ (hall x.1 (Nat.le_refl _) hlt)).2
      omega
  · rw [if_neg hfin] at hexpected
    rw [hexpected]
    refine ⟨by omega, fun q hq hlo => (h.received q).mpr (.inl (hr.below q (by omega) hq)), fun hq => ?_, fun x hx => ?_⟩
    · rcases (h.received _).mp hq with hq | hq
      · exact hr.missing hq
      · exact hfin ⟨hq.1, by omega⟩
    · obtain ⟨hlo, hlt, hall⟩ := hr.blocks x (mem_of_mem_take hx)
      exact ⟨hlo, hlt, fun q hq hq' => (h.received q).mpr (.inl (hall q hq' hq))⟩

theorem Inv.sendAck (h : Inv s) (k : Nat) : ∃ s' out, machine.step s (.sendAck k) = some (s', out) ∧ Inv s' := by
  obtain ⟨chunks, n, blocks, hr⟩ := h.reception
  refine ⟨_, _, rfl, { h with
    flow := ?_
    reception := ⟨chunks, n, blocks, hr⟩
    stream := h.stream
    firstSeq := h.firstSeq
    received := h.received
    segments := fun x hx => ?_
    acks := fun x hx => ?_ }⟩
  · rw [positions_eq hr]
    exact h.flow.acknowledge (h.truthful hr k)
  · exact (h.segments x hx).congr rfl rfl rfl
  · rcases mem_cons.mp hx with rfl | hx
    · refine ⟨mem_cons_self, hr.nextRxSeq, ?_⟩
      rw [positions_eq hr, hr.sackList, ← map_take]
      rfl
    · exact ⟨mem_cons_of_mem _ (h.acks x hx).1, (h.acks x hx).2⟩

theorem Inv.receivedAck (h : Inv s) (now : Int) {ack : TcpAck × SequenceNumber32 × List SackBlock} (hack : ack ∈ s.acks)
    (hrecent : TcpFlow.Recent s.flow ack.1) (hne : ack.2.2 ≠ [] → s.flow.txBuffer.sentList ≠ []) :
    ∃ s' out, machine.step s (.receivedAck now ack) = some (s', out) ∧ Inv s' := by
  obtain ⟨hmem, hnumber, hblocks⟩ := h.acks ack hack
  -- the blocks first
  have hupdate : ∃ b, (if ack.2.2 = [] then some s.flow.txBuffer else (s.flow.txBuffer.update ack.2.2).map Prod.fst) =
      some b ∧ TcpFlow.Inv (s.flow.setBuffer b) ∧ b.sackEnabled = true ∧ b.size = s.flow.txBuffer.size := by
    by_cases hnil : ack.2.2 = []
    · rw [if_pos hnil]
      exact ⟨_, rfl, h.flow, h.sackEnabled, rfl⟩
    · rw [if_neg hnil, hblocks]
      obtain ⟨b, n, hb, hinv, hmode⟩ := h.flow.update hmem h.sackEnabled (hne hnil) hrecent
      exact ⟨b, by rw [hb]; rfl, hinv, hmode, hinv.books.size.trans h.flow.books.size.symm⟩
  obtain ⟨b, hb, hinv, hmode, hsize⟩ := hupdate
  have hrecent' : TcpFlow.Recent (s.flow.setBuffer b) ack.1 := by
    show s.flow.head + b.size < _
    rw [hsize]
    exact hrecent
  -- then the number, unless it is old
  have hbelow := (h.flow.below _ hmem).1
  have hend := h.flow.endOfStream_le
  have hbound := h.flow.books.bound
  have hsize' := h.flow.books.size
  unfold TcpFlow.Recent at hrecent
  have hold : ack.2.1.lt b.headSequence = decide (ack.1.ackNumber < s.flow.head) := by
    rw [hnumber, headSequence, show b.firstByteSeq = ofPosition s.flow.head from hinv.books.head]
    exact lt_ofPosition ⟨by omega, by omega⟩
  have hdiscard : ∃ b', (if ack.2.1.lt b.headSequence then some b else b.discardUpTo now ack.2.1) = some b' ∧
      TcpFlow.Inv { s.flow with txBuffer := b', head := max s.flow.head ack.1.ackNumber } ∧ b'.sackEnabled = true := by
    by_cases hlt : ack.1.ackNumber < s.flow.head
    · rw [hold, if_pos (decide_eq_true hlt), Nat.max_eq_left (Nat.le_of_lt hlt)]
      exact ⟨b, rfl, hinv, hmode⟩
    · rw [hold, if_neg (by simpa using hlt), hnumber]
      obtain ⟨b', hb', hinv', hmode'⟩ := hinv.discardUpTo now hmem hrecent'
      exact ⟨b', hb', hinv', hmode'.trans hmode⟩
  obtain ⟨b', hb', hinv', hmode'⟩ := hdiscard
  have hstep : SackLoop.receivedAck s.flow.txBuffer now ack.2.1 ack.2.2 = some b' := by
    rw [SackLoop.receivedAck, hb]
    exact hb'
  refine ⟨_, _, congrArg (Option.map _) hstep, { h with
    flow := hinv'
    sackEnabled := hmode'
    stream := h.stream
    firstSeq := h.firstSeq
    received := h.received
    segments := fun x hx => ?_ }⟩
  exact (h.segments x hx).congr rfl rfl rfl

/-- Both ends take every outstanding event, with no read behind a list. -/
theorem Inv.step (h : Inv s) : ∀ e : SackEvent, Outstanding s e → ∃ s' out, machine.step s e = some (s', out) ∧ Inv s'
  | .sender _, he => h.sender he.1 he.2
  | .deliver (_, _), he => h.deliver he.1 he.2
  | .deliverFin, he => h.deliverFin he.1 he.2.1 he.2.2
  | .extract maxSize, _ => h.extract maxSize
  | .sendAck k, _ => h.sendAck k
  | .receivedAck now _, he => h.receivedAck now he.1.1 he.1.2 he.2

end

structure Scoreboard (s : SackLoop) : Prop where
  sacked : ∀ item ∈ s.flow.txBuffer.sentList, item.sacked = true →
    ∃ first, item.startSeq = ofPosition first ∧
      item.packet = (s.reception.stream.drop (first - s.reception.firstSeq)).take item.size ∧
      ∀ q, first ≤ q → q < first + item.size → s.reception.Holds q
  head : ∀ item ∈ s.flow.txBuffer.sentList.head?, item.sacked = false

theorem Inv.scoreboard {s : SackLoop} (h : Inv s) : Scoreboard s := by
  obtain ⟨chunks, n, blocks, hr⟩ := h.reception
  refine ⟨fun item hitem hs => ?_, h.flow.books.unsacked⟩
  obtain ⟨before, after, hlist, hstart, -⟩ := h.flow.books.laid.split hitem
  obtain ⟨first, hstart', hfirst, -, -, hstop, hpacket⟩ := h.flow.item_position hitem
  have hbound := h.flow.books.bound
  have hlength := h.flow.books.length_le
  rw [hlist, bytesOf_append, length_append, length_bytesOf_cons] at hlength
  have hsame : s.flow.head + (bytesOf before).length = first := by
    rw [hstart, headSequence, h.flow.books.head, diff_ofPosition (by omega) (by omega)] at hfirst
    omega
  refine ⟨first, hstart', by rw [h.stream, h.firstSeq]; exact hpacket, fun q hlo hhi => ?_⟩
  have hsacked : SackedAt s.flow.head s.flow.txBuffer.sentList q := by
    rw [hlist]
    exact TcpFlow.sackedAt_item hs (by omega) (by omega)
  rcases (h.received q).mp (h.flow.sacked h.sackEnabled q hsacked).1 with hq | hq
  · exact hr.holds hq
  · omega

theorem Inv.of_run {firstSeq maxBuffer dupAckThresh segmentSize rxMaxBuffer : Nat} (hmax : rxMaxBuffer + 1 < 2147483648)
    {tr : List (SackEvent × List Unit)} {s : SackLoop}
    (hrun : Run machine Outstanding (start firstSeq maxBuffer dupAckThresh segmentSize rxMaxBuffer) tr s) : Inv s := by
  refine Run.invariant (fun _ s => Inv s) (inv_start _ _ _ _ hmax) ?_ hrun
  intro tr s e s' out hinv he hstep
  obtain ⟨s₁, out₁, hstep₁, hinv₁⟩ := hinv.step e he
  cases hstep₁.symm.trans hstep
  exact hinv₁

/-- **The loop of selective acknowledgments.** In every run all bytes of a sacked
item are held by the receiver, the head is never sacked, and no call fails. -/
theorem sacked_bytes_held (firstSeq maxBuffer dupAckThresh segmentSize rxMaxBuffer : Nat)
    (hmax : rxMaxBuffer + 1 < 2147483648) {tr : List (SackEvent × List Unit)} {s : SackLoop}
    (hrun : Run machine Outstanding (start firstSeq maxBuffer dupAckThresh segmentSize rxMaxBuffer) tr s) :
    Scoreboard s ∧ ∀ e, Outstanding s e → (machine.step s e).isSome := by
  have hinv := Inv.of_run hmax hrun
  refine ⟨hinv.scoreboard, fun e he => ?_⟩
  obtain ⟨s', out, hstep, -⟩ := hinv.step e he
  rw [hstep]
  rfl

instance : (e : TcpEvent) → Decidable (FromSocket e)
  | .add _ | .close | .copyFromSequence .. | .setSentListLost _ | .markHeadAsLost | .deleteRetransmittedFlagFromHead =>
    .isTrue trivial
  | .discardUpTo .. | .update _ | .resetSentList | .resetRenoSack | .addRenoSack | .receive _ | .acknowledge _ => .isFalse id

instance (s : SackLoop) : (e : SackEvent) → Decidable (Delivered s e)
  | .sender _ | .deliver _ | .receivedAck .. => inferInstanceAs (Decidable (_ ∧ _))
  | .deliverFin => inferInstanceAs (Decidable (_ ∧ _ ∧ _))
  | .extract _ | .sendAck _ => .isTrue trivial

instance (s : SackLoop) : (e : SackEvent) → Decidable (Outstanding s e)
  | .receivedAck .. => inferInstanceAs (Decidable (_ ∧ (_ → _)))
  | .sender e => inferInstanceAs (Decidable (Delivered s (.sender e)))
  | .deliver x => inferInstanceAs (Decidable (Delivered s (.deliver x)))
  | .deliverFin => inferInstanceAs (Decidable (Delivered s .deliverFin))
  | .extract _ | .sendAck _ => .isTrue trivial

def segmentAt (address : Nat) (packet : Bytes) (seq : Nat) : Nat × TcpTxItem :=
  (seq, { address := address, packet := packet, startSeq := ⟨seq⟩, lastSent := 0 })

/-- The acknowledgments of the second segment alone and of both. -/
def gapAck : TcpAck × SequenceNumber32 × List SackBlock := (⟨10, [(12, 14)]⟩, ⟨10⟩, [(⟨12⟩, ⟨14⟩)])

def wholeAck : TcpAck × SequenceNumber32 × List SackBlock := (⟨14, []⟩, ⟨14⟩, [])

/-- Two segments are sent, the second arrives first, and each is acknowledged. -/
def reordered : List SackEvent :=
  [.sender (.add [1, 2, 3, 4]), .sender (.copyFromSequence 0 2 ⟨10⟩), .sender (.copyFromSequence 0 2 ⟨12⟩),
    .deliver (segmentAt 0 [3, 4] 12), .sendAck 3, .deliver (segmentAt 1 [1, 2] 10), .sendAck 3, .extract 3]

theorem reordered_isSome :
    (machine.exec Outstanding (start 10 100 3 2 100) (reordered ++ [.receivedAck 1 gapAck])).isSome := by
  decide +kernel

theorem reordered_bytes_held : ∃ tr s, Run machine Outstanding (start 10 100 3 2 100) tr s ∧
    s.flow.txBuffer.sackedOut = 2 ∧ Scoreboard s := by
  have hrun := run_of_isSome machine Outstanding _ _ reordered_isSome
  exact ⟨_, _, hrun, by decide +kernel, (sacked_bytes_held _ _ _ _ _ (by decide) hrun).1⟩

theorem staleBlocks_none :
    ((machine.exec Delivered (start 10 100 3 2 100) (reordered ++ [.receivedAck 1 wholeAck])).any fun r =>
      decide (Delivered r.2 (.receivedAck 2 gapAck)) && (machine.step r.2 (.receivedAck 2 gapAck)).isNone) = true := by
  decide +kernel

/-- **The first of no items**: an acknowledgment with blocks arrives after all data
was acknowledged, and the blocks are read before its number is found old. -/
theorem stale_blocks_fail : ∃ tr s e, Run machine Delivered (start 10 100 3 2 100) tr s ∧ Delivered s e ∧
    machine.step s e = none := by
  obtain ⟨tr, s, hrun, hnone⟩ := run_of_any machine Delivered staleBlocks_none
  rw [Bool.and_eq_true, decide_eq_true_eq, Option.isNone_iff_eq_none] at hnone
  exact ⟨tr, s, _, hrun, hnone⟩

end SackLoop

end Ns3
