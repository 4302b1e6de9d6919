import Ns3.Internet.TcpFlow
import Ns3.Internet.TxLedger

/-!
# Histories of a send buffer

Every call of the class, with any arguments and in any order: requests for any
sequence number, blocks and acknowledgments of any receiver, in SACK and in
Reno mode. `accepted` is the stream `Add` has taken. Numbers are those of
positions, so that every value is one.
-/

namespace Ns3

open Machine SequenceNumber32 TcpTxBuffer List Option

structure TcpTxHistory where
  txBuffer : TcpTxBuffer
  accepted : Bytes := []

inductive TcpTxCall where
  | add (p : Bytes)
  | copyFromSequence (now : Int) (numBytes seq : Nat)
  | discardUpTo (now : Int) (seq : Nat)
  | update (list : List (Nat × Nat))
  | setSentListLost (resetSack : Bool)
  | resetSentList
  | resetLastSegmentSent
  | resetRenoSack
  | addRenoSack
  | markHeadAsLost
  | deleteRetransmittedFlagFromHead
  | setHeadSequence (seq : Nat)
  | setMaxBufferSize (n : Nat)
  | setSegmentSize (n : Nat)
  | setDupAckThresh (n : Nat)
  | setSackEnabled (enabled : Bool)

namespace TcpTxHistory

def start (firstSeq maxBuffer dupAckThresh segmentSize : Nat) (sackEnabled : Bool) : TcpTxHistory where
  txBuffer := {
    firstByteSeq := ofPosition firstSeq
    maxBuffer := maxBuffer
    dupAckThresh := dupAckThresh
    segmentSize := segmentSize
    sackEnabled := sackEnabled }

def setBuffer (s : TcpTxHistory) (b : TcpTxBuffer) : TcpTxHistory := { s with txBuffer := b }

def machine : Machine TcpTxHistory TcpTxCall TcpTxItem where
  step s
    | .add p =>
      let r := s.txBuffer.add p
      some ({ s with txBuffer := r.1, accepted := if r.2 then s.accepted ++ p else s.accepted }, [])
    | .copyFromSequence now numBytes seq =>
      (s.txBuffer.copyFromSequence now numBytes (ofPosition seq)).map fun r => (s.setBuffer r.1, r.2.toList)
    | .discardUpTo now seq => (s.txBuffer.discardUpTo now (ofPosition seq)).map fun b => (s.setBuffer b, [])
    | .update list => (s.txBuffer.update (list.map wireBlock)).map fun r => (s.setBuffer r.1, [])
    | .setSentListLost resetSack => (s.txBuffer.setSentListLost resetSack).map fun b => (s.setBuffer b, [])
    | .resetSentList => some (s.setBuffer s.txBuffer.resetSentList, [])
    | .resetLastSegmentSent => some (s.setBuffer s.txBuffer.resetLastSegmentSent, [])
    | .resetRenoSack => some (s.setBuffer s.txBuffer.resetRenoSack, [])
    | .addRenoSack => s.txBuffer.addRenoSack.map fun b => (s.setBuffer b, [])
    | .markHeadAsLost => some (s.setBuffer s.txBuffer.markHeadAsLost, [])
    | .deleteRetransmittedFlagFromHead =>
      s.txBuffer.deleteRetransmittedFlagFromHead.map fun b => (s.setBuffer b, [])
    | .setHeadSequence seq => (s.txBuffer.setHeadSequence (ofPosition seq)).map fun b => (s.setBuffer b, [])
    | .setMaxBufferSize n => some (s.setBuffer { s.txBuffer with maxBuffer := n }, [])
    | .setSegmentSize n => some (s.setBuffer { s.txBuffer with segmentSize := n }, [])
    | .setDupAckThresh n => some (s.setBuffer { s.txBuffer with dupAckThresh := n }, [])
    | .setSackEnabled enabled => some (s.setBuffer { s.txBuffer with sackEnabled := enabled }, [])

def remaining (s : TcpTxHistory) : Bytes := s.accepted.drop (s.accepted.length - s.txBuffer.size)

/-- The data in the buffer stays below half the sequence numbers, and
`ResetLastSegmentSent` takes back an item without flags, as it adjusts no
counter but `m_retrans`. -/
def Kept (s : TcpTxHistory) : TcpTxCall → Prop
  | .add p => s.txBuffer.size + p.length < 2147483647
  | .resetLastSegmentSent =>
    ∀ i ∈ s.txBuffer.sentList.getLast?, i.lost = false ∧ i.retrans = false ∧ i.sacked = false
  | _ => True

/-- The ledger holds the end of the stream. -/
def Inv (s : TcpTxHistory) : Prop := ∃ P data, Ledger s.txBuffer P data ∧ data <:+ s.accepted

section
variable {s s' : TcpTxHistory}

theorem inv_start (firstSeq maxBuffer dupAckThresh segmentSize : Nat) (sackEnabled : Bool) :
    Inv (start firstSeq maxBuffer dupAckThresh segmentSize sackEnabled) := by
  refine ⟨firstSeq, [], ?_, suffix_refl []⟩
  constructor
  · constructor
    · rfl
    · rfl
    · simp
    · rfl
    · rfl
    · trivial
    · simp [start]
  · rfl
  · rfl
  · rfl

theorem remaining_eq {P : Nat} {data : Bytes} (h : Ledger s.txBuffer P data) (hdata : data <:+ s.accepted) :
    s.remaining = data := by
  rw [remaining, h.size]
  exact (suffix_iff_eq_drop.mp hdata).symm

theorem inv_setBuffer {b : TcpTxBuffer} {P : Nat} {data : Bytes} (hdata : data <:+ s.accepted) (h : Ledger b P data) :
    Inv (s.setBuffer b) :=
  ⟨P, data, h, hdata⟩

/-- After each call the buffer holds the end of the stream. -/
theorem Inv.step {out : List TcpTxItem} (h : Inv s) : ∀ e : TcpTxCall, Kept s e → machine.step s e = some (s', out) →
    Inv s'
  | .add p, he, hstep => by
    obtain ⟨P, data, h, hdata⟩ := h
    cases hstep
    have hroom : data.length + p.length < 2147483647 := by
      rw [← h.size]
      exact he
    refine ⟨P, _, h.add hroom, ?_⟩
    cases (s.txBuffer.add p).2 with
    | true =>
      obtain ⟨t, ht⟩ := hdata
      exact ⟨t, by simp [← ht]⟩
    | false => exact hdata
  | .copyFromSequence now numBytes seq, _, hstep => by
    obtain ⟨P, data, h, hdata⟩ := h
    obtain ⟨⟨b, item⟩, hcopy, heq⟩ := map_eq_some_iff.mp hstep
    cases heq
    exact inv_setBuffer hdata (h.copyFromSequence hcopy)
  | .discardUpTo now seq, _, hstep => by
    obtain ⟨P, data, h, hdata⟩ := h
    obtain ⟨b, hdiscard, heq⟩ := map_eq_some_iff.mp hstep
    cases heq
    obtain ⟨P', k, h'⟩ := h.discardUpTo hdiscard
    exact inv_setBuffer ((drop_suffix k data).trans hdata) h'
  | .update list, _, hstep => by
    obtain ⟨P, data, h, hdata⟩ := h
    obtain ⟨⟨b, n⟩, hupdate, heq⟩ := map_eq_some_iff.mp hstep
    cases heq
    exact inv_setBuffer hdata (h.update hupdate)
  | .setSentListLost resetSack, _, hstep => by
    obtain ⟨P, data, h, hdata⟩ := h
    obtain ⟨b, hset, heq⟩ := map_eq_some_iff.mp hstep
    cases heq
    exact inv_setBuffer hdata (h.setSentListLost hset)
  | .resetSentList, _, hstep => by
    obtain ⟨P, data, h, hdata⟩ := h
    cases hstep
    exact inv_setBuffer hdata h.resetSentList
  | .resetLastSegmentSent, he, hstep => by
    obtain ⟨P, data, h, hdata⟩ := h
    cases hstep
    exact inv_setBuffer hdata (h.resetLastSegmentSent he)
  | .resetRenoSack, _, hstep => by
    obtain ⟨P, data, h, hdata⟩ := h
    cases hstep
    exact inv_setBuffer hdata h.resetRenoSack
  | .addRenoSack, _, hstep => by
    obtain ⟨P, data, h, hdata⟩ := h
    obtain ⟨b, hadd, heq⟩ := map_eq_some_iff.mp hstep
    cases heq
    exact inv_setBuffer hdata (h.addRenoSack hadd)
  | .markHeadAsLost, _, hstep => by
    obtain ⟨P, data, h, hdata⟩ := h
    cases hstep
    exact inv_setBuffer hdata h.markHeadAsLost
  | .deleteRetransmittedFlagFromHead, _, hstep => by
    obtain ⟨P, data, h, hdata⟩ := h
    obtain ⟨b, hdelete, heq⟩ := map_eq_some_iff.mp hstep
    cases heq
    exact inv_setBuffer hdata (h.deleteRetransmittedFlagFromHead hdelete)
  | .setHeadSequence seq, _, hstep => by
    obtain ⟨P, data, h, hdata⟩ := h
    obtain ⟨b, hset, heq⟩ := map_eq_some_iff.mp hstep
    cases heq
    exact inv_setBuffer hdata (h.setHeadSequence hset)
  | .setMaxBufferSize _, _, hstep | .setSegmentSize _, _, hstep | .setDupAckThresh _, _, hstep
  | .setSackEnabled _, _, hstep => by
    obtain ⟨P, data, h, hdata⟩ := h
    cases hstep
    exact inv_setBuffer hdata { h with }

end

theorem Inv.of_run {firstSeq maxBuffer dupAckThresh segmentSize : Nat} {sackEnabled : Bool}
    {tr : List (TcpTxCall × List TcpTxItem)} {s : TcpTxHistory}
    (h : Run machine Kept (start firstSeq maxBuffer dupAckThresh segmentSize sackEnabled) tr s) : Inv s := by
  refine Run.invariant (fun _ s => Inv s) (inv_start ..) ?_ h
  intro tr s e s' out hinv hkept hstep
  exact hinv.step e hkept hstep

/-! ## A request in the window -/

/-- The request has an item at the number, of at least one byte and no more than
asked for, with the bytes of the stream there. -/
def Provides (b : TcpTxBuffer) (stream : Bytes) (now : Int) (numBytes : Nat) (seq : SequenceNumber32) : Prop :=
  ∃ b' item, b.copyFromSequence now numBytes seq = some (b', some item) ∧ item.startSeq = seq ∧ 1 ≤ item.size ∧
    item.size ≤ numBytes ∧ item.packet = (stream.drop (seq.diff b.firstByteSeq)).take item.size

/-- A number of the window: that of an item that is not sacked, or of the first
byte not sent yet. -/
def InWindow (b : TcpTxBuffer) (seq : SequenceNumber32) : Prop :=
  TcpFlow.Requested b seq ∧ (seq = b.firstByteSeq.add b.sentSize → b.sentSize < b.size)

section
variable {b b' : TcpTxBuffer} {P : Nat} {data : Bytes}

theorem copied_item (h : Ledger b P data) {now : Int} {n q : Nat} {item : TcpTxItem} (hcopied : Copied b now n P q b' item) :
    item.startSeq = ofPosition q ∧ 1 ≤ item.size ∧ item.size ≤ n ∧ item.packet = (data.drop (q - P)).take item.size := by
  cases hcopied with
  | @again before run after x item extra retrans nextAddress hlist hq hold hcut hle =>
    have hlaid := h.laid
    have hbytes := h.bytes
    have hsame := hcut.bytes
    rw [bytesOf_cons] at hsame
    rw [hlist, laid_append, laid_append] at hlaid
    obtain ⟨hstart, hpos, -⟩ := hcut.laid _ hlaid.2.1
    refine ⟨by rw [hq]; exact hstart, hpos, hle, ?_⟩
    rw [hlist, bytesOf_append, bytesOf_append, ← hsame] at hbytes
    rw [← hbytes, hq, Nat.add_sub_cancel_left]
    simp only [append_assoc, drop_left, TcpTxItem.size, take_left]
  | new hitem hq hle =>
    have hbytes := h.bytes
    refine ⟨?_, hitem.pos, hle, ?_⟩
    · rw [hitem.start, hq, h.sentSize]
    · rw [← hbytes, ← hitem.bytes, hq, h.sentSize, Nat.add_sub_cancel_left]
      simp only [drop_left, TcpTxItem.size, take_left]

theorem provides_iff (h : Ledger b P data) (now : Int) {n : Nat} {seq : SequenceNumber32} (hn : 1 ≤ n)
    (hseq : InWindow b seq) : Provides b data now n seq ↔ ¬ TcpFlow.WrapsAround b n seq := by
  obtain ⟨hrequested, hunsent⟩ := hseq
  obtain ⟨q, rfl, hq⟩ := TcpFlow.requestable h.toStream hrequested
  have hlength := h.length_le
  have hbound := h.bound
  have hsent := h.sentSize
  have hsize := h.size
  have hbounds := Requestable.bounds h.toStream hq
  rw [TcpFlow.wrapsAround_iff h.toStream hq]
  constructor
  · rintro ⟨b', item, hcopy, -⟩ hwrap
    rw [h.copy_straddles now hq hwrap] at hcopy
    cases hcopy
  · intro hwrap
    have hleft : q < P + data.length := by
      rcases hq with rfl | ⟨before, x, after, hlist, rfl, -⟩
      · have hlt := hunsent (by rw [h.head, add_ofPosition])
        omega
      · have hlaid := h.laid
        have hcount := congrArg (fun l => (bytesOf l).length) hlist
        rw [hlist, laid_append, laid_cons] at hlaid
        have hpos := hlaid.2.2.1
        simp only [bytesOf_append, length_append, length_bytesOf_cons] at hcount
        omega
    obtain ⟨b', item, hcopy, hcopied⟩ := h.copy_some now hq (n := n) (by omega) hwrap
    obtain ⟨hstart, hpos, hle, hpacket⟩ := copied_item h hcopied
    refine ⟨b', item, hcopy, hstart, hpos, hle, ?_⟩
    rw [h.head, diff_ofPosition hbounds.1 (by omega)]
    exact hpacket

end

/-- **Requests in the window.** In every run a request for at least one byte at a
number of the window has an item with the bytes of the stream there, unless it is
for sent and unsent data whose numbers wrap around. -/
theorem copyFromSequence_iff {firstSeq maxBuffer dupAckThresh segmentSize : Nat} {sackEnabled : Bool}
    {tr : List (TcpTxCall × List TcpTxItem)} {s : TcpTxHistory}
    (h : Run machine Kept (start firstSeq maxBuffer dupAckThresh segmentSize sackEnabled) tr s) (now : Int)
    {numBytes : Nat} {seq : SequenceNumber32} (hn : 1 ≤ numBytes) (hseq : InWindow s.txBuffer seq) :
    Provides s.txBuffer s.remaining now numBytes seq ↔ ¬ TcpFlow.WrapsAround s.txBuffer numBytes seq := by
  obtain ⟨P, data, hledger, hdata⟩ := Inv.of_run h
  rw [remaining_eq hledger hdata]
  exact provides_iff hledger now hn hseq

instance (s : TcpTxHistory) : (e : TcpTxCall) → Decidable (Kept s e)
  | .add _ => inferInstanceAs (Decidable (_ < _))
  | .resetLastSegmentSent => inferInstanceAs (Decidable (∀ i ∈ s.txBuffer.sentList.getLast?, _))
  | .copyFromSequence .. | .discardUpTo .. | .update _ | .setSentListLost _ | .resetSentList | .resetRenoSack
  | .addRenoSack | .markHeadAsLost | .deleteRetransmittedFlagFromHead | .setHeadSequence _ | .setMaxBufferSize _
  | .setSegmentSize _ | .setDupAckThresh _ | .setSackEnabled _ => .isTrue trivial

instance (b : TcpTxBuffer) (seq : SequenceNumber32) : Decidable (InWindow b seq) :=
  inferInstanceAs (Decidable (_ ∧ _))

/-- Three bytes are sent across the end of the numbers, and the first is asked for again. -/
def sentAcrossWrap : List TcpTxCall :=
  [.add [1, 2, 3, 4], .copyFromSequence 0 3 4294967295, .setSentListLost false]

theorem sentAcrossWrap_isSome : (machine.exec Kept (start 4294967295 100 3 2 true) sentAcrossWrap).isSome := by
  decide +kernel

theorem provides_acrossWrap : ∃ tr s, Run machine Kept (start 4294967295 100 3 2 true) tr s ∧
    s.txBuffer.sentSize = 3 ∧ Provides s.txBuffer s.remaining 1 2 ⟨4294967295⟩ := by
  have hrun := run_of_isSome machine Kept _ _ sentAcrossWrap_isSome
  exact ⟨_, _, hrun, by decide +kernel, (copyFromSequence_iff hrun 1 (by decide) (by decide +kernel)).mpr (by decide +kernel)⟩

/-- One byte is sent, two more are added, and the whole is asked for again across
the end of the numbers. -/
def straddlingRequest : List TcpTxCall := [.add [1], .copyFromSequence 0 1 4294967294, .add [2, 3]]

theorem straddlingRequest_none : ((machine.exec Kept (start 4294967294 100 3 3 true) straddlingRequest).any fun r =>
      decide (InWindow r.2.txBuffer ⟨4294967294⟩) &&
        (r.2.txBuffer.copyFromSequence 1 3 ⟨4294967294⟩).isNone) = true := by
  decide +kernel

/-- **No branch is taken** where sent and unsent data lie across the wrap. -/
theorem not_provides_acrossWrap : ∃ tr s, Run machine Kept (start 4294967294 100 3 3 true) tr s ∧
    InWindow s.txBuffer ⟨4294967294⟩ ∧ ¬ Provides s.txBuffer s.remaining 1 3 ⟨4294967294⟩ := by
  obtain ⟨tr, s, hrun, hnone⟩ := run_of_any machine Kept straddlingRequest_none
  rw [Bool.and_eq_true, decide_eq_true_eq, isNone_iff_eq_none] at hnone
  refine ⟨tr, s, hrun, hnone.1, fun ⟨b', item, hcopy, _⟩ => ?_⟩
  rw [hnone.2] at hcopy
  cases hcopy

end TcpTxHistory

end Ns3
