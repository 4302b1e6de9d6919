import Ns3.Lib.Machine
import Ns3.Internet.TxDiscardSound
import Ns3.Internet.TxUpdateSound

/-!
# A send buffer and its receiver

`TcpSocketBase` drives the buffer; the receiver gets bytes that were sent, in
any order, and acknowledges what it has; the network delivers acknowledgments
in any order, late, again or never. The FIN counts as one more byte once the
socket is closed.

Positions count the bytes of the stream from the first sequence number on. An
old acknowledgment is ignored by an established connection, but still read in
`ProcessWait`, where it may find the sent list empty.
-/

namespace Ns3

open Machine SequenceNumber32 TcpTxBuffer List

/-- An acknowledgment: the first missing position and the blocks above it. -/
structure TcpAck where
  ackNumber : Nat
  sackList : List (Nat × Nat)
  deriving DecidableEq

structure TcpFlow where
  txBuffer : TcpTxBuffer
  /-- The position of the first byte. -/
  firstSeq : Nat
  /-- All bytes `Add` has accepted. -/
  accepted : Bytes := []
  /-- The position of `HeadSequence`. -/
  head : Nat
  /-- The position behind all that was sent. -/
  highTxMark : Nat
  closed : Bool := false
  /-- The positions the receiver has. -/
  received : List Nat := []
  /-- The acknowledgments it has sent. -/
  acks : List TcpAck := []

inductive TcpEvent where
  | add (p : Bytes)
  | close
  | copyFromSequence (now : Int) (numBytes : Nat) (seq : SequenceNumber32)
  | discardUpTo (now : Int) (ack : TcpAck)
  | update (ack : TcpAck)
  | setSentListLost (resetSack : Bool)
  | resetSentList
  | resetRenoSack
  | markHeadAsLost
  | deleteRetransmittedFlagFromHead
  | addRenoSack
  | receive (position : Nat)
  | acknowledge (ack : TcpAck)

namespace TcpFlow

def start (firstSeq maxBuffer dupAckThresh segmentSize : Nat) (sackEnabled : Bool) : TcpFlow where
  txBuffer := {
    firstByteSeq := ofPosition firstSeq
    maxBuffer := maxBuffer
    dupAckThresh := dupAckThresh
    segmentSize := segmentSize
    sackEnabled := sackEnabled }
  firstSeq := firstSeq
  head := firstSeq
  highTxMark := firstSeq

/-- The position behind the last byte, and behind the FIN. -/
def endOfData (s : TcpFlow) : Nat := s.firstSeq + s.accepted.length

def endOfStream (s : TcpFlow) : Nat := s.endOfData + if s.closed then 1 else 0

def setBuffer (s : TcpFlow) (b : TcpTxBuffer) : TcpFlow := { s with txBuffer := b }

def machine : Machine TcpFlow TcpEvent TcpTxItem where
  step s
    | .add p =>
      let r := s.txBuffer.add p
      some ({ s with txBuffer := r.1, accepted := if r.2 then s.accepted ++ p else s.accepted }, [])
    | .close => some ({ s with closed := true }, [])
    | .copyFromSequence now numBytes seq =>
      (s.txBuffer.copyFromSequence now numBytes seq).map fun r =>
        ({ s with txBuffer := r.1, highTxMark := max s.highTxMark (s.head + r.1.sentSize) }, r.2.toList)
    | .discardUpTo now ack =>
      (s.txBuffer.discardUpTo now (ofPosition ack.ackNumber)).map fun b =>
        ({ s with txBuffer := b, head := max s.head ack.ackNumber }, [])
    | .update ack => (s.txBuffer.update (ack.sackList.map wireBlock)).map fun r => (s.setBuffer r.1, [])
    | .setSentListLost resetSack => (s.txBuffer.setSentListLost resetSack).map fun b => (s.setBuffer b, [])
    | .resetSentList => some (s.setBuffer s.txBuffer.resetSentList, [])
    | .resetRenoSack => some (s.setBuffer s.txBuffer.resetRenoSack, [])
    | .markHeadAsLost => some (s.setBuffer s.txBuffer.markHeadAsLost, [])
    | .deleteRetransmittedFlagFromHead =>
      s.txBuffer.deleteRetransmittedFlagFromHead.map fun b => (s.setBuffer b, [])
    | .addRenoSack => s.txBuffer.addRenoSack.map fun b => (s.setBuffer b, [])
    | .receive position => some ({ s with received := position :: s.received }, [])
    | .acknowledge ack => some ({ s with acks := ack :: s.acks }, [])

/-- The receiver has all bytes below the number and those of the blocks, and
not the one the number asks for. -/
def Truthful (s : TcpFlow) (ack : TcpAck) : Prop :=
  s.firstSeq ≤ ack.ackNumber ∧ (∀ q < ack.ackNumber, s.firstSeq ≤ q → q ∈ s.received) ∧
    ack.ackNumber ∉ s.received ∧
    ∀ block ∈ ack.sackList, ack.ackNumber < block.1 ∧ block.1 < block.2 ∧
      ∀ q < block.2, block.1 ≤ q → q ∈ s.received

/-- The number is that of an item that is not sacked, or of the first byte not
sent yet. -/
def Requested (b : TcpTxBuffer) (seq : SequenceNumber32) : Prop :=
  seq = b.firstByteSeq.add b.sentSize ∨ ∃ i ∈ b.sentList, i.startSeq = seq ∧ i.sacked = false

/-- What `TcpSocketBase`, a truthful receiver and the network do. -/
def Issued (s : TcpFlow) : TcpEvent → Prop
  | .add _ => s.closed = false
  | .copyFromSequence _ _ seq => Requested s.txBuffer seq
  | .discardUpTo _ ack => ack ∈ s.acks
  | .update ack => ack ∈ s.acks ∧ ack.sackList ≠ [] ∧ s.txBuffer.sackEnabled = true
  | .setSentListLost resetSack => resetSack = !s.txBuffer.sackEnabled
  | .addRenoSack => s.txBuffer.sackEnabled = false ∧ s.txBuffer.sentList ≠ []
  | .receive position => s.firstSeq ≤ position ∧
      (position < s.highTxMark ∨ s.closed = true ∧ s.highTxMark = s.endOfData ∧ position = s.endOfData)
  | .acknowledge ack => Truthful s ack
  | .close | .resetSentList | .resetRenoSack | .markHeadAsLost | .deleteRetransmittedFlagFromHead => True

/-- A request for sent and unsent data whose sequence numbers wrap around. -/
def WrapsAround (b : TcpTxBuffer) (numBytes : Nat) (seq : SequenceNumber32) : Prop :=
  seq.lt (b.firstByteSeq.add b.sentSize) = true ∧
    (b.firstByteSeq.add b.sentSize).lt (seq.add (min numBytes (b.sizeFromSequence seq))) = true ∧
    4294967296 ≤ seq.value + min numBytes (b.sizeFromSequence seq)

section
variable {b : TcpTxBuffer} {P : Nat} {data : Bytes}

theorem requestable (h : Stream b P data) {seq : SequenceNumber32} (hseq : Requested b seq) :
    ∃ q, seq = ofPosition q ∧ Requestable b P q := by
  rcases hseq with rfl | ⟨i, hi, rfl, hs⟩
  · rw [h.head, add_ofPosition]
    exact ⟨_, rfl, .inl rfl⟩
  · obtain ⟨before, after, hlist, hstart, -⟩ := h.laid.split hi
    exact ⟨_, hstart, .inr ⟨before, i, after, hlist, rfl, hs⟩⟩

theorem wrapsAround_iff (h : Stream b P data) {q n : Nat} (hq : Requestable b P q) :
    WrapsAround b n (ofPosition q) ↔ Straddles b P q n := by
  have hsent := h.sentSize
  have hlength := h.length_le
  have hbound := h.bound
  have hsize := h.size
  have hlo := Requestable.bounds h hq
  rw [WrapsAround, Straddles, h.sizeFromSequence hlo.1 (by lia), h.head, add_ofPosition, add_ofPosition,
    lt_ofPosition ⟨by lia, by lia⟩, lt_ofPosition ⟨by lia, by lia⟩, decide_eq_true_eq, decide_eq_true_eq, hsize]
  rfl

end

/-- The number is less than half the sequence numbers behind the end of the data. -/
def Recent (s : TcpFlow) (ack : TcpAck) : Prop := s.head + s.txBuffer.size < ack.ackNumber + 2147483648

/-- Moreover, `Update` finds an item in the sent list, no request for sent and
unsent data wraps around, a Reno acknowledgment is not counted on a lost item,
and the data in the buffer and the delay of an acknowledgment stay below half
the sequence numbers. -/
def Sound (s : TcpFlow) : TcpEvent → Prop
  | .add p => Issued s (.add p) ∧ s.txBuffer.size + p.length < 2147483647
  | .copyFromSequence now numBytes seq =>
    Issued s (.copyFromSequence now numBytes seq) ∧ ¬ WrapsAround s.txBuffer numBytes seq
  | .discardUpTo now ack => Issued s (.discardUpTo now ack) ∧ Recent s ack
  | .update ack => Issued s (.update ack) ∧ s.txBuffer.sentList ≠ [] ∧ Recent s ack
  | .addRenoSack => Issued s .addRenoSack ∧ RenoTarget s.txBuffer
  | e => Issued s e

/-! ## The invariant -/

structure Inv (s : TcpFlow) : Prop where
  books : Books s.txBuffer s.head (s.accepted.drop (s.head - s.firstSeq))
  lower : s.firstSeq ≤ s.head
  upper : s.head ≤ s.endOfStream
  mark : s.highTxMark ≤ s.endOfStream
  received : ∀ q ∈ s.received, q < s.endOfStream
  below : ∀ a ∈ s.acks, a.ackNumber ≤ s.endOfStream ∧ ∀ q < a.ackNumber, s.firstSeq ≤ q → q ∈ s.received
  blocks : ∀ a ∈ s.acks, ∀ block ∈ a.sackList, a.ackNumber < block.1 ∧ block.1 < block.2 ∧
    block.2 ≤ s.endOfStream ∧ ∀ q < block.2, block.1 ≤ q → q ∈ s.received
  /-- No block holds a byte that some acknowledgment asked for. -/
  apart : ∀ a ∈ s.acks, ∀ c ∈ s.acks, ∀ block ∈ c.sackList, ¬ (block.1 ≤ a.ackNumber ∧ a.ackNumber < block.2)
  first : ∀ a ∈ s.acks, s.firstSeq ≤ a.ackNumber
  origin : s.head = s.firstSeq ∨ ∃ a ∈ s.acks, a.ackNumber = s.head
  sacked : s.txBuffer.sackEnabled = true → ∀ q, SackedAt s.head s.txBuffer.sentList q →
    q ∈ s.received ∧ ∀ a ∈ s.acks, a.ackNumber ≠ q

section
variable {s : TcpFlow}

theorem Inv.length_eq (h : Inv s) : s.txBuffer.size = s.accepted.length - (s.head - s.firstSeq) := by
  rw [h.books.size, length_drop]

theorem Inv.setBuffer (h : Inv s) {b : TcpTxBuffer}
    (hbooks : Books b s.head (s.accepted.drop (s.head - s.firstSeq)))
    (hmode : b.sackEnabled = s.txBuffer.sackEnabled)
    (hsacked : s.txBuffer.sackEnabled = true → ∀ q, SackedAt s.head b.sentList q → SackedAt s.head s.txBuffer.sentList q) :
    Inv (s.setBuffer b) := by
  refine { h with books := hbooks, sacked := ?_ }
  intro hm q hq
  have hm' : s.txBuffer.sackEnabled = true := hmode.symm.trans hm
  exact h.sacked hm' q (hsacked hm' q hq)

theorem Inv.keeps (h : Inv s) {b : TcpTxBuffer} (hbooks : Books b s.head (s.accepted.drop (s.head - s.firstSeq)))
    (hkeeps : Keeps s.txBuffer s.head b s.head) : Inv (s.setBuffer b) :=
  h.setBuffer hbooks hkeeps.sackEnabled fun _ => hkeeps.sackedAt

theorem inv_start (firstSeq maxBuffer dupAckThresh segmentSize : Nat) (sackEnabled : Bool) :
    Inv (start firstSeq maxBuffer dupAckThresh segmentSize sackEnabled) where
  books := {
    head := rfl
    bytes := by simp [start]
    bound := by simp [start]
    size := by simp [start]
    sentSize := rfl
    laid := trivial
    app := by simp [start]
    sackedOut := rfl
    lostOut := rfl
    retrans := rfl
    exclusive := by simp [start]
    lostFirst := fun _ => List.Pairwise.nil
    unsacked := by simp [start]
    highest := by simp [start] }
  lower := Nat.le_refl _
  upper := by simp [start, endOfStream, endOfData]
  mark := by simp [start, endOfStream, endOfData]
  received := by simp [start]
  below := by simp [start]
  blocks := by simp [start]
  apart := by simp [start]
  first := by simp [start]
  origin := .inl rfl
  sacked := fun _ q hq => absurd hq id

/-! ## The receiver -/

theorem Inv.receive (h : Inv s) {q : Nat} (hq : Issued s (.receive q)) :
    Inv { s with received := q :: s.received } := by
  have hmark := h.mark
  have hlt : q < s.endOfStream := by
    rcases hq with ⟨-, hq | ⟨hclosed, -, hq⟩⟩
    · omega
    · rw [endOfStream, hclosed, if_pos rfl]
      omega
  refine { h with received := ?_, below := ?_, blocks := ?_, sacked := ?_ }
  · intro q' hq'
    rcases mem_cons.mp hq' with rfl | hq'
    · exact hlt
    · exact h.received q' hq'
  · intro a ha
    exact ⟨(h.below a ha).1, fun q' hq' hlo => mem_cons_of_mem _ ((h.below a ha).2 q' hq' hlo)⟩
  · intro a ha block hblock
    obtain ⟨h₁, h₂, h₃, h₄⟩ := h.blocks a ha block hblock
    exact ⟨h₁, h₂, h₃, fun q' hq' hlo => mem_cons_of_mem _ (h₄ q' hq' hlo)⟩
  · intro hmode q' hq'
    exact ⟨mem_cons_of_mem _ (h.sacked hmode q' hq').1, (h.sacked hmode q' hq').2⟩

theorem Inv.acknowledge (h : Inv s) {ack : TcpAck} (ht : Truthful s ack) : Inv { s with acks := ack :: s.acks } := by
  obtain ⟨hfirst, hbelow, hmissing, hblocks⟩ := ht
  have hle : ack.ackNumber ≤ s.endOfStream := by
    by_cases hzero : ack.ackNumber = s.firstSeq
    · have := h.lower
      have := h.upper
      omega
    · have := h.received _ (hbelow (ack.ackNumber - 1) (by omega) (by omega))
      omega
  have hblocks' : ∀ block ∈ ack.sackList, ack.ackNumber < block.1 ∧ block.1 < block.2 ∧ block.2 ≤ s.endOfStream ∧
      ∀ q < block.2, block.1 ≤ q → q ∈ s.received := by
    intro block hblock
    obtain ⟨h₁, h₂, h₃⟩ := hblocks block hblock
    have := h.received _ (h₃ (block.2 - 1) (by omega) (by omega))
    exact ⟨h₁, h₂, by omega, h₃⟩
  refine { h with below := ?_, blocks := ?_, apart := ?_, first := ?_, origin := ?_, sacked := ?_ }
  · intro a ha
    rcases mem_cons.mp ha with rfl | ha
    · exact ⟨hle, hbelow⟩
    · exact h.below a ha
  · intro a ha
    rcases mem_cons.mp ha with rfl | ha
    · exact hblocks'
    · exact h.blocks a ha
  · rintro a ha c hc block hblock ⟨hlo, hhi⟩
    rcases mem_cons.mp hc with rfl | hc'
    · have habove := (hblocks' block hblock).1
      rcases mem_cons.mp ha with rfl | ha'
      · omega
      · -- a lower number is not missing any more, and the blocks are above it
        exact hmissing ((h.below a ha').2 _ (by omega) hfirst)
    · rcases mem_cons.mp ha with rfl | ha'
      · exact hmissing ((h.blocks c hc' block hblock).2.2.2 _ hhi hlo)
      · exact h.apart a ha' c hc' block hblock ⟨hlo, hhi⟩
  · intro a ha
    rcases mem_cons.mp ha with rfl | ha
    · exact hfirst
    · exact h.first a ha
  · rcases h.origin with horigin | ⟨a, ha, horigin⟩
    · exact .inl horigin
    · exact .inr ⟨a, mem_cons_of_mem _ ha, horigin⟩
  · intro hmode q hq
    obtain ⟨hgot, hnot⟩ := h.sacked hmode q hq
    refine ⟨hgot, ?_⟩
    intro a ha
    rcases mem_cons.mp ha with rfl | ha
    · exact fun heq => hmissing (heq ▸ hgot)
    · exact hnot a ha

/-! ## The data -/

theorem Inv.within (h : Inv s) {n : Nat} (hend : s.endOfStream ≤ n) :
    (∀ q ∈ s.received, q < n) ∧
    (∀ a ∈ s.acks, a.ackNumber ≤ n ∧ ∀ q < a.ackNumber, s.firstSeq ≤ q → q ∈ s.received) ∧
    ∀ a ∈ s.acks, ∀ block ∈ a.sackList, a.ackNumber < block.1 ∧ block.1 < block.2 ∧ block.2 ≤ n ∧
      ∀ q < block.2, block.1 ≤ q → q ∈ s.received := by
  refine ⟨fun q hq => ?_, fun a ha => ?_, fun a ha block hblock => ?_⟩
  · exact Nat.lt_of_lt_of_le (h.received q hq) hend
  · exact ⟨Nat.le_trans (h.below a ha).1 hend, (h.below a ha).2⟩
  · obtain ⟨h₁, h₂, h₃, h₄⟩ := h.blocks a ha block hblock
    exact ⟨h₁, h₂, Nat.le_trans h₃ hend, h₄⟩

theorem Inv.add (h : Inv s) {p : Bytes} (hopen : s.closed = false) (hroom : s.txBuffer.size + p.length < 2147483647) :
    Inv { s with
      txBuffer := (s.txBuffer.add p).1
      accepted := if (s.txBuffer.add p).2 then s.accepted ++ p else s.accepted } := by
  have hbooks := h.books.add (p := p) (by rw [← h.books.size]; exact hroom)
  have hlist := add_sentList (b := s.txBuffer) p
  have hupper := h.upper
  have hlower := h.lower
  have hmark := h.mark
  unfold endOfStream endOfData at hupper
  rw [hopen, if_neg Bool.false_ne_true] at hupper
  have hdrop : (if (s.txBuffer.add p).2 then s.accepted.drop (s.head - s.firstSeq) ++ p
      else s.accepted.drop (s.head - s.firstSeq)) =
      (if (s.txBuffer.add p).2 then s.accepted ++ p else s.accepted).drop (s.head - s.firstSeq) := by
    split
    · rw [drop_append_of_le_length (by omega)]
    · rfl
  have hgrow : s.accepted.length ≤ (if (s.txBuffer.add p).2 then s.accepted ++ p else s.accepted).length := by
    split
    · rw [length_append]
      omega
    · exact Nat.le_refl _
  have hend : s.endOfStream ≤ TcpFlow.endOfStream { s with
      txBuffer := (s.txBuffer.add p).1
      accepted := if (s.txBuffer.add p).2 then s.accepted ++ p else s.accepted } := by
    unfold endOfStream endOfData
    dsimp only
    omega
  obtain ⟨hreceived, hbelow, hblocks⟩ := h.within hend
  refine { h with
    books := ?_, upper := ?_, mark := ?_, received := hreceived, below := hbelow, blocks := hblocks, sacked := ?_ }
  · rw [← hdrop]
    exact hbooks
  · exact Nat.le_trans h.upper hend
  · exact Nat.le_trans hmark hend
  · intro hmode q hq
    rw [hlist.1] at hq
    exact h.sacked (hlist.2 ▸ hmode) q hq

theorem Inv.close (h : Inv s) : Inv { s with closed := true } := by
  have hend : s.endOfStream ≤ endOfStream { s with closed := true } := by
    unfold endOfStream endOfData
    dsimp only
    rw [if_pos rfl]
    split <;> omega
  obtain ⟨hreceived, hbelow, hblocks⟩ := h.within hend
  exact { h with
    upper := Nat.le_trans h.upper hend
    mark := Nat.le_trans h.mark hend
    received := hreceived
    below := hbelow
    blocks := hblocks }

theorem Inv.endOfStream_le (h : Inv s) : s.endOfStream ≤ s.head + s.txBuffer.size + 1 := by
  have hlower := h.lower
  rw [h.length_eq]
  unfold endOfStream endOfData
  split <;> omega

theorem Inv.copyFromSequence (h : Inv s) (now : Int) {n : Nat} {seq : SequenceNumber32}
    (hseq : Requested s.txBuffer seq) (hwrap : ¬ WrapsAround s.txBuffer n seq) :
    ∃ b out, s.txBuffer.copyFromSequence now n seq = some (b, out) ∧
      Inv { s with txBuffer := b, highTxMark := max s.highTxMark (s.head + b.sentSize) } := by
  obtain ⟨q, rfl, hq⟩ := requestable h.books.toStream hseq
  rw [wrapsAround_iff h.books.toStream hq] at hwrap
  obtain ⟨b, out, hcopy, hbooks, hkeeps⟩ := h.books.copyFromSequence now n hq hwrap
  refine ⟨b, out, hcopy, { h.keeps hbooks hkeeps with mark := ?_ }⟩
  have hmark := h.mark
  have hupper := h.upper
  have hlower := h.lower
  have hsent := hbooks.sentSize
  have hlength := hbooks.length_le
  rw [length_drop] at hlength
  unfold endOfStream endOfData at *
  dsimp only
  omega

/-! ## Acknowledgments -/

theorem Inv.discardUpTo (h : Inv s) (now : Int) {ack : TcpAck} (hack : ack ∈ s.acks) (hrecent : Recent s ack) :
    ∃ b, s.txBuffer.discardUpTo now (ofPosition ack.ackNumber) = some b ∧
      Inv { s with txBuffer := b, head := max s.head ack.ackNumber } ∧ b.sackEnabled = s.txBuffer.sackEnabled := by
  have hsize := h.books.size
  have hend := h.endOfStream_le
  have hlower := h.lower
  have hupper := h.upper
  have hbelow := (h.below ack hack).1
  have hfirst := h.first ack hack
  unfold Recent at hrecent
  obtain ⟨b, hb, hbooks, hmode, hsacked⟩ := h.books.discardUpTo now (A := ack.ackNumber) (by omega) (by omega)
    fun hmode hq => (h.sacked hmode _ hq).2 ack hack rfl
  have hdrop : (s.accepted.drop (s.head - s.firstSeq)).drop (ack.ackNumber - s.head) =
      s.accepted.drop (max s.head ack.ackNumber - s.firstSeq) := by
    rw [drop_drop]
    congr 1
    omega
  rw [hdrop] at hbooks
  refine ⟨b, hb, { h with books := hbooks, lower := ?_, upper := ?_, origin := ?_, sacked := ?_ }, hmode⟩
  · exact Nat.le_trans hlower (Nat.le_max_left _ _)
  · exact Nat.max_le.mpr ⟨hupper, hbelow⟩
  · rcases Nat.le_total ack.ackNumber s.head with hle | hle
    · dsimp only
      rw [Nat.max_eq_left hle]
      exact h.origin
    · exact .inr ⟨ack, hack, (Nat.max_eq_right hle).symm⟩
  · intro hm q hq
    have hm' : s.txBuffer.sackEnabled = true := hmode.symm.trans hm
    exact h.sacked hm' q (hsacked hm' q hq)

theorem Inv.reported (h : Inv s) {ack : TcpAck} (hack : ack ∈ s.acks) (hrecent : Recent s ack) {block : Nat × Nat}
    (hblock : block ∈ ack.sackList) : Reported s.txBuffer s.head block := by
  obtain ⟨h₁, h₂, h₃, -⟩ := h.blocks ack hack block hblock
  have hend := h.endOfStream_le
  have hsent := h.books.sentSize
  have hsize := h.books.size
  have hlength := h.books.length_le
  have hbound := h.books.bound
  unfold Recent at hrecent
  refine ⟨⟨by omega, by omega, by omega, by omega⟩, ?_⟩
  rcases h.origin with horigin | ⟨a, ha, horigin⟩
  · have hfirst := h.first ack hack
    omega
  · rw [← horigin]
    exact h.apart a ha ack hack block hblock

theorem Inv.update (h : Inv s) {ack : TcpAck} (hack : ack ∈ s.acks) (hmode : s.txBuffer.sackEnabled = true)
    (hne : s.txBuffer.sentList ≠ []) (hrecent : Recent s ack) :
    ∃ b n, s.txBuffer.update (ack.sackList.map wireBlock) = some (b, n) ∧ Inv (s.setBuffer b) ∧
      b.sackEnabled = true := by
  obtain ⟨b, n, hb, hbooks, hsacks⟩ := h.books.update hmode hne fun block hblock => h.reported hack hrecent hblock
  refine ⟨b, n, hb, { h with books := hbooks, sacked := ?_ }, hsacks.sackEnabled.trans hmode⟩
  intro _ q hq
  rcases hsacks.sackedAt q hq with hq | ⟨block, hblock, hlo, hhi⟩
  · exact h.sacked hmode q hq
  · refine ⟨(h.blocks ack hack block hblock).2.2.2 q hhi hlo, ?_⟩
    rintro a ha rfl
    exact h.apart a ha ack hack block hblock ⟨hlo, hhi⟩

/-! ## Runs -/

/-- Every sound event is possible, and what was acknowledged has been received. -/
theorem Inv.step (h : Inv s) : ∀ e : TcpEvent, Sound s e → ∃ s' out, machine.step s e = some (s', out) ∧ Inv s'
  | .add _, he => ⟨_, _, rfl, h.add he.1 he.2⟩
  | .close, _ => ⟨_, _, rfl, h.close⟩
  | .copyFromSequence now n seq, he => by
    obtain ⟨b, out, hb, h'⟩ := h.copyFromSequence now he.1 he.2
    exact ⟨_, _, congrArg (Option.map _) hb, h'⟩
  | .discardUpTo now ack, he => by
    obtain ⟨b, hb, h', -⟩ := h.discardUpTo now he.1 he.2
    exact ⟨_, _, congrArg (Option.map _) hb, h'⟩
  | .update ack, he => by
    obtain ⟨b, n, hb, h', -⟩ := h.update he.1.1 he.1.2.2 he.2.1 he.2.2
    exact ⟨_, _, congrArg (Option.map _) hb, h'⟩
  | .setSentListLost resetSack, he => by
    obtain ⟨b, hb, hbooks, hkeeps⟩ := h.books.setSentListLost
    obtain rfl : resetSack = !s.txBuffer.sackEnabled := he
    exact ⟨_, _, congrArg (Option.map _) hb, h.keeps hbooks hkeeps⟩
  | .resetSentList, _ => ⟨_, _, rfl, h.keeps h.books.resetSentList.1 h.books.resetSentList.2⟩
  | .resetRenoSack, _ => ⟨_, _, rfl, h.keeps h.books.resetRenoSack.1 h.books.resetRenoSack.2⟩
  | .markHeadAsLost, _ => ⟨_, _, rfl, h.keeps h.books.markHeadAsLost.1 h.books.markHeadAsLost.2⟩
  | .deleteRetransmittedFlagFromHead, _ => by
    obtain ⟨b, hb, hbooks, hkeeps⟩ := h.books.deleteRetransmittedFlagFromHead
    exact ⟨_, _, congrArg (Option.map _) hb, h.keeps hbooks hkeeps⟩
  | .addRenoSack, he => by
    obtain ⟨b, hb, hbooks, hmode⟩ := h.books.addRenoSack he.1.1 he.2
    refine ⟨_, _, congrArg (Option.map _) hb, h.setBuffer hbooks (hmode.trans he.1.1.symm) ?_⟩
    intro hsack
    rw [he.1.1] at hsack
    cases hsack
  | .receive _, he => ⟨_, _, rfl, h.receive he⟩
  | .acknowledge _, he => ⟨_, _, rfl, h.acknowledge he⟩

end

/-- The buffer holds the stream from its head on, and its books are right. -/
structure Consistent (s : TcpFlow) : Prop where
  head : s.txBuffer.headSequence = ofPosition s.head
  bytes : bytesOf s.txBuffer.sentList ++ bytesOf s.txBuffer.appList = s.accepted.drop (s.head - s.firstSeq)
  startSeq : ∀ before item after, s.txBuffer.sentList = before ++ item :: after →
    item.startSeq = s.txBuffer.headSequence.add (bytesOf before).length
  size : s.txBuffer.size = (bytesOf s.txBuffer.sentList ++ bytesOf s.txBuffer.appList).length
  sentSize : s.txBuffer.sentSize = (bytesOf s.txBuffer.sentList).length
  sackedOut : s.txBuffer.sackedOut = total (·.sacked) s.txBuffer.sentList
  lostOut : s.txBuffer.lostOut = total (·.lost) s.txBuffer.sentList
  retrans : s.txBuffer.retrans = total (·.retrans) s.txBuffer.sentList
  exclusive : ∀ item ∈ s.txBuffer.sentList, ¬ (item.sacked = true ∧ item.lost = true)
  unsacked : ∀ item ∈ s.txBuffer.sentList.head?, item.sacked = false

theorem Inv.consistent {s : TcpFlow} (h : Inv s) : Consistent s where
  head := h.books.head
  bytes := h.books.bytes
  startSeq := by
    intro before item after hlist
    have hlaid := h.books.laid
    rw [hlist, laid_append, laid_cons] at hlaid
    rw [headSequence, h.books.head, add_ofPosition]
    exact hlaid.2.1
  size := by rw [h.books.bytes, h.books.size]
  sentSize := h.books.sentSize
  sackedOut := h.books.sackedOut
  lostOut := h.books.lostOut
  retrans := h.books.retrans
  exclusive := h.books.exclusive
  unsacked := h.books.unsacked

theorem Inv.of_run {firstSeq maxBuffer dupAckThresh segmentSize : Nat} {sackEnabled : Bool}
    {tr : List (TcpEvent × List TcpTxItem)} {s : TcpFlow}
    (h : Run machine Sound (start firstSeq maxBuffer dupAckThresh segmentSize sackEnabled) tr s) : Inv s := by
  refine Run.invariant (fun _ s => Inv s) (inv_start ..) ?_ h
  intro tr s e s' out hinv hsound hstep
  obtain ⟨s₁, out₁, hstep₁, hinv₁⟩ := hinv.step e hsound
  cases hstep₁.symm.trans hstep
  exact hinv₁

/-- **The stream and its scoreboard.** In every sound run the buffer is consistent
in every state, and no call fails. -/
theorem buffer_consistent (firstSeq maxBuffer dupAckThresh segmentSize : Nat) (sackEnabled : Bool)
    {tr : List (TcpEvent × List TcpTxItem)} {s : TcpFlow}
    (h : Run machine Sound (start firstSeq maxBuffer dupAckThresh segmentSize sackEnabled) tr s) :
    Consistent s ∧ ∀ e, Sound s e → (machine.step s e).isSome := by
  have hinv := Inv.of_run h
  refine ⟨hinv.consistent, fun e he => ?_⟩
  obtain ⟨s', out, hstep, -⟩ := hinv.step e he
  rw [hstep]
  rfl

instance (s : TcpFlow) (ack : TcpAck) : Decidable (Truthful s ack) :=
  inferInstanceAs (Decidable (_ ∧ _ ∧ _ ∧ _))

instance (b : TcpTxBuffer) (seq : SequenceNumber32) : Decidable (Requested b seq) :=
  inferInstanceAs (Decidable (_ ∨ _))

instance (b : TcpTxBuffer) (n : Nat) (seq : SequenceNumber32) : Decidable (WrapsAround b n seq) :=
  inferInstanceAs (Decidable (_ ∧ _ ∧ _))

instance (s : TcpFlow) (ack : TcpAck) : Decidable (Recent s ack) := inferInstanceAs (Decidable (_ < _))

instance (b : TcpTxBuffer) : Decidable (RenoTarget b) := inferInstanceAs (Decidable (_ ∧ _))

instance (s : TcpFlow) : (e : TcpEvent) → Decidable (Issued s e)
  | .add _ | .setSentListLost _ => inferInstanceAs (Decidable (_ = _))
  | .copyFromSequence _ _ seq => inferInstanceAs (Decidable (Requested _ seq))
  | .discardUpTo _ ack => inferInstanceAs (Decidable (ack ∈ _))
  | .update _ => inferInstanceAs (Decidable (_ ∧ _ ∧ _))
  | .addRenoSack | .receive _ => inferInstanceAs (Decidable (_ ∧ _))
  | .acknowledge ack => inferInstanceAs (Decidable (Truthful s ack))
  | .close | .resetSentList | .resetRenoSack | .markHeadAsLost | .deleteRetransmittedFlagFromHead => .isTrue trivial

instance (s : TcpFlow) : (e : TcpEvent) → Decidable (Sound s e)
  | .add _ | .copyFromSequence .. | .discardUpTo .. | .update _ | .addRenoSack => inferInstanceAs (Decidable (_ ∧ _))
  | .setSentListLost b => inferInstanceAs (Decidable (Issued s (.setSentListLost b)))
  | .receive q => inferInstanceAs (Decidable (Issued s (.receive q)))
  | .acknowledge ack => inferInstanceAs (Decidable (Issued s (.acknowledge ack)))
  | .close | .resetSentList | .resetRenoSack | .markHeadAsLost | .deleteRetransmittedFlagFromHead => .isTrue trivial

/-- Three segments are sent and the first is lost; it is retransmitted after a
selective acknowledgment, and all is acknowledged. -/
def firstSegmentLost : List TcpEvent :=
  [.add [1, 2, 3, 4, 5, 6], .copyFromSequence 0 2 ⟨10⟩, .copyFromSequence 0 2 ⟨12⟩, .copyFromSequence 0 2 ⟨14⟩,
    .receive 12, .receive 13, .acknowledge ⟨10, [(12, 14)]⟩, .update ⟨10, [(12, 14)]⟩, .discardUpTo 1 ⟨10, [(12, 14)]⟩,
    .markHeadAsLost, .copyFromSequence 2 2 ⟨10⟩, .receive 10, .receive 11, .acknowledge ⟨14, []⟩,
    .discardUpTo 3 ⟨14, []⟩]

theorem firstSegmentLost_isSome : (machine.exec Sound (start 10 100 3 2 true) firstSegmentLost).isSome := by
  decide +kernel

theorem first_segment_lost_consistent : ∃ tr s, Run machine Sound (start 10 100 3 2 true) tr s ∧
    s.head = 14 ∧ s.txBuffer.sentSize = 2 ∧ Consistent s := by
  have hrun := run_of_isSome machine Sound _ _ firstSegmentLost_isSome
  exact ⟨_, _, hrun, by decide +kernel, by decide +kernel, (buffer_consistent _ _ _ _ _ hrun).1⟩

/-- One byte is sent, two more are added, and the whole is asked for again across
the end of the sequence numbers. -/
def requestAtWrap : List TcpEvent := [.add [1], .copyFromSequence 0 1 ⟨4294967294⟩, .add [2, 3]]

theorem requestAtWrap_none : ((machine.exec Issued (start 4294967294 100 3 3 true) requestAtWrap).any fun r =>
    decide (Issued r.2 (.copyFromSequence 1 3 ⟨4294967294⟩)) &&
      (machine.step r.2 (.copyFromSequence 1 3 ⟨4294967294⟩)).isNone) = true := by
  decide +kernel

/-- **No item is returned across the wrap**: the bounds of the request are compared
as plain values, no case applies, and the null item is written to. -/
theorem request_at_wrap_fails : ∃ tr s e, Run machine Issued (start 4294967294 100 3 3 true) tr s ∧
    Issued s e ∧ machine.step s e = none := by
  obtain ⟨tr, s, hrun, hnone⟩ := run_of_any machine Issued requestAtWrap_none
  rw [Bool.and_eq_true, decide_eq_true_eq, Option.isNone_iff_eq_none] at hnone
  exact ⟨tr, s, _, hrun, hnone⟩

end TcpFlow

end Ns3
