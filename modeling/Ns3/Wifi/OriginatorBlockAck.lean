import Ns3.Wifi.RecipientBlockAck

/-!
# The originator of a block ack agreement

The transmit window of `OriginatorBlockAckAgreement`, the MPDUs in flight that
`BlockAckManager` keeps for one agreement, and the exchange with a recipient
over a channel that may lose every frame. A block ack is the answer to a frame
just received and carries the scoreboard of that moment.

The EDCA queue matters only by which MPDUs it holds and which lifetimes are
over. When the queue finds that an MPDU has expired it removes it and has it
reported as discarded, also while the manager handles that MPDU. Where this
takes the MPDU away under an iterator, and where an assertion fails, there is no
successor. Scheduled requests carry the start of the window of the moment they
are sent; fragments, which have the same number, are left out.

`acked`, `passed` and `received` record what happened; the code does not read
them.
-/

namespace Ns3

open Machine

/-! ## The block ack frame -/

/-- A compressed block ack; the bitmap is the list of its bits. -/
structure CtrlBAckResponseHeader where
  startingSeq : Nat
  bitmapLen : Nat
  bitmap : List Bool
  deriving DecidableEq

namespace CtrlBAckResponseHeader

def isInBitmap (h : CtrlBAckResponseHeader) (seq : Nat) : Bool := (seq + 4096 - h.startingSeq) % 4096 < h.bitmapLen * 8

def indexInBitmap (h : CtrlBAckResponseHeader) (seq : Nat) : Option Nat :=
  let i := if h.startingSeq ≤ seq then seq - h.startingSeq else 4096 - h.startingSeq + seq
  if i < h.bitmapLen * 8 then some i else none

def setReceivedPacket (h : CtrlBAckResponseHeader) (seq : Nat) : Option CtrlBAckResponseHeader :=
  if h.isInBitmap seq then (h.indexInBitmap seq).map fun i => { h with bitmap := h.bitmap.set i true } else some h

def isPacketReceived (h : CtrlBAckResponseHeader) (seq : Nat) : Option Bool :=
  if h.isInBitmap seq then (h.indexInBitmap seq).map fun i => h.bitmap.getD i false else some false

end CtrlBAckResponseHeader

namespace RecipientBlockAckAgreement

/-- `GetBlockAckType`: the length of the bitmap in bytes. -/
def bitmapLen (a : RecipientBlockAckAgreement) : Nat := if 64 < a.winSizeB then 32 else 8

/-- The loop of `FillBlockAckBitmap`, over the first `n` places. -/
def fillBits (w : BlockAckWindow) (h : CtrlBAckResponseHeader) : Nat → Option CtrlBAckResponseHeader
  | 0 => some h
  | n + 1 =>
    (fillBits w h n).bind fun h =>
      (w.get n).bind fun received => if received then h.setReceivedPacket ((w.winStart + n) % 4096) else some h

def fillBlockAckBitmap (a : RecipientBlockAckAgreement) : Option CtrlBAckResponseHeader :=
  fillBits a.scoreboard ⟨a.scoreboard.winStart, a.bitmapLen, List.replicate (a.bitmapLen * 8) false⟩ a.scoreboard.winSize

end RecipientBlockAckAgreement

/-! ## The transmit window -/

structure OriginatorBlockAckAgreement where
  txWindow : BlockAckWindow
  /-- The position behind all that was discarded or skipped. -/
  passed : Nat
  acked : List Nat := []
  deriving DecidableEq

namespace OriginatorBlockAckAgreement

/-- `AdvanceTxWindow`, given up after the given rounds. -/
def advanceTxWindow : Nat → BlockAckWindow → Option BlockAckWindow
  | 0, _ => none
  | rounds + 1, w => (w.get 0).bind fun acked => if acked then advanceTxWindow rounds (w.advance 1) else some w

def settle (a : OriginatorBlockAckAgreement) (w : BlockAckWindow) : Option OriginatorBlockAckAgreement :=
  (advanceTxWindow (w.winSize + 1) w).map fun w => { a with txWindow := w }

def notifyTransmittedMpdu (a : OriginatorBlockAckAgreement) (mpdu : WifiMpdu) : Option OriginatorBlockAckAgreement :=
  (getDistance mpdu.sequenceNumber a.txWindow.winStart).bind fun distance =>
    if 2048 ≤ distance then some a
    else if a.txWindow.winSize ≤ distance then
      { a with passed := max a.passed (mpdu.position + 1 - a.txWindow.winSize) }.settle
        (a.txWindow.advance (distance - a.txWindow.winSize + 1))
    else some a

def notifyAckedMpdu (a : OriginatorBlockAckAgreement) (mpdu : WifiMpdu) : Option OriginatorBlockAckAgreement :=
  let a := { a with acked := mpdu.position :: a.acked }
  (getDistance mpdu.sequenceNumber a.txWindow.winStart).bind fun distance =>
    if 2048 ≤ distance then some a else (a.txWindow.mark distance).bind a.settle

def notifyDiscardedMpdu (a : OriginatorBlockAckAgreement) (mpdu : WifiMpdu) : Option OriginatorBlockAckAgreement :=
  (getDistance mpdu.sequenceNumber a.txWindow.winStart).bind fun distance =>
    if 2048 ≤ distance then some a
    else { a with passed := max a.passed (mpdu.position + 1) }.settle (a.txWindow.advance (distance + 1))

/-- The first of `n` positions from `q` on that was not acknowledged. -/
def firstOpen (acked : List Nat) : Nat → Nat → Nat
  | 0, q => q
  | n + 1, q => if q ∈ acked then firstOpen acked n (q + 1) else q

/-- The first position neither acknowledged nor discarded or skipped. -/
def start (a : OriginatorBlockAckAgreement) : Nat := firstOpen a.acked a.acked.length a.passed

end OriginatorBlockAckAgreement

/-! ## The MPDUs in flight -/

/-- The part of `BlockAckManager` for one agreement, and the positions of the MPDUs
in the EDCA queue. -/
structure BlockAckManager where
  agreement : OriginatorBlockAckAgreement
  inFlight : List WifiMpdu := []
  queued : List Nat := []
  deriving DecidableEq

namespace BlockAckManager

/-- Where `StorePacket` puts an MPDU that is not there yet. -/
def insertMpdu (winStart : Nat) (mpdu : WifiMpdu) (mpduDist : Nat) : List WifiMpdu → Option (Option (List WifiMpdu))
  | [] => some (some [mpdu])
  | x :: l =>
    if mpdu.sequenceNumber = x.sequenceNumber then some none
    else
      (getDistance x.sequenceNumber winStart).bind fun dist =>
        if mpduDist < dist then some (some (mpdu :: x :: l))
        else (insertMpdu winStart mpdu mpduDist l).map fun r => r.map (x :: ·)

def storePacket (s : BlockAckManager) (mpdu : WifiMpdu) : Option BlockAckManager :=
  (getDistance mpdu.sequenceNumber s.agreement.txWindow.winStart).bind fun mpduDist =>
    if 2048 ≤ mpduDist then some s
    else
      (insertMpdu s.agreement.txWindow.winStart mpdu mpduDist s.inFlight).bind fun r =>
        match r with
        | none => some s
        | some l => (s.agreement.notifyTransmittedMpdu mpdu).map fun a => { s with agreement := a, inFlight := l }

/-- The loop of `NotifyDiscardedMpdu`: old MPDUs leave the EDCA queue, too. -/
def dropOld (winStart : Nat) : List WifiMpdu → List Nat → Option (List WifiMpdu × List Nat)
  | [], queued => some ([], queued)
  | x :: l, queued =>
    (getDistance x.sequenceNumber winStart).bind fun distance =>
      if 2048 ≤ distance then dropOld winStart l (queued.erase x.position) else some (x :: l, queued)

def notifyDiscardedMpdu (s : BlockAckManager) (mpdu : WifiMpdu) : Option BlockAckManager :=
  (getDistance mpdu.sequenceNumber s.agreement.txWindow.winStart).bind fun distance =>
    if 2048 ≤ distance then some s
    else
      (s.agreement.notifyDiscardedMpdu mpdu).bind fun a =>
        (dropOld a.txWindow.winStart s.inFlight s.queued).map fun r => ⟨a, r.1, r.2⟩

def dequeue (s : BlockAckManager) (position : Nat) : BlockAckManager := { s with queued := s.queued.erase position }

/-- `HandleInFlightMpdu` on the first MPDU in flight, acknowledged or to be
retransmitted, which leaves the others. -/
def handleInFlightMpdu (expired : List Nat) (acknowledged : Bool) (s : BlockAckManager) (mpdu : WifiMpdu)
    (rest : List WifiMpdu) : Option BlockAckManager :=
  if mpdu.position ∉ s.queued then some { s with inFlight := rest }
  else if acknowledged then
    if mpdu.position ∈ expired then
      -- the queue reports it, and its place in the list may be gone
      ((s.dequeue mpdu.position).notifyDiscardedMpdu mpdu).bind fun s =>
        if s.inFlight = mpdu :: rest then some { s with inFlight := rest } else none
    else some { s.dequeue mpdu.position with inFlight := rest }
  else
    (getDistance mpdu.sequenceNumber s.agreement.txWindow.winStart).bind fun distance =>
      if 2048 ≤ distance then some { s.dequeue mpdu.position with inFlight := rest }
      else if mpdu.position ∈ expired then
        -- the report removes it, and must not remove the next one
        ((s.dequeue mpdu.position).notifyDiscardedMpdu mpdu).bind fun s => if s.inFlight = rest then some s else none
      else some { s with inFlight := rest }

def sweep (received : WifiMpdu → Option Bool) (expired : List Nat) : List WifiMpdu → BlockAckManager → Option BlockAckManager
  | [], s => some s
  | mpdu :: rest, s =>
    (received mpdu).bind fun acknowledged =>
      (if acknowledged then s.agreement.notifyAckedMpdu mpdu else some s.agreement).bind fun a =>
        (handleInFlightMpdu expired acknowledged { s with agreement := a } mpdu rest).bind (sweep received expired rest)

def notifyGotBlockAck (s : BlockAckManager) (blockAck : CtrlBAckResponseHeader) (expired : List Nat) :
    Option BlockAckManager :=
  sweep (fun mpdu => blockAck.isPacketReceived mpdu.sequenceNumber) expired s.inFlight s

def notifyMissedBlockAck (s : BlockAckManager) (expired : List Nat) : Option BlockAckManager :=
  sweep (fun _ => some false) expired s.inFlight s

end BlockAckManager

/-! ## The exchange -/

structure BlockAckExchange where
  originator : BlockAckManager
  recipient : RecipientBlockAckAgreement
  /-- The position the scoreboard starts at. -/
  scoreStart : Nat
  received : List Nat := []
  deriving DecidableEq

inductive ExchangeEvent where
  | enqueue (position : Nat)
  | dequeue (position : Nat)
  | storePacket (mpdu : WifiMpdu)
  | deliverMpdu (mpdu : WifiMpdu)
  | deliverBar
  /-- The recipient answers, and the originator gets the answer. -/
  | blockAck (expired : List Nat)
  | missedBlockAck (expired : List Nat)
  | discard (mpdu : WifiMpdu)

namespace BlockAckExchange

def start (bufferSize position : Nat) : BlockAckExchange where
  originator := { agreement := { txWindow := .init (position % 4096) bufferSize, passed := position } }
  recipient := .create bufferSize (position % 4096)
  scoreStart := position

def winStart (s : BlockAckExchange) : Nat := s.originator.agreement.start

def winSize (s : BlockAckExchange) : Nat := s.originator.agreement.txWindow.winSize

def machine : Machine BlockAckExchange ExchangeEvent Unit where
  step s
    | .enqueue position => some ({ s with originator := { s.originator with queued := position :: s.originator.queued } }, [])
    | .dequeue position => some ({ s with originator := s.originator.dequeue position }, [])
    | .storePacket mpdu => (s.originator.storePacket mpdu).map fun o => ({ s with originator := o }, [])
    | .deliverMpdu mpdu =>
      (s.recipient.notifyReceivedMpdu mpdu).map fun r =>
        ({ s with
          recipient := r.1
          scoreStart := if mpdu.position < s.scoreStart + 2048 then max s.scoreStart (mpdu.position + 1 - s.winSize)
            else s.scoreStart
          received := mpdu.position :: s.received }, [])
    | .deliverBar =>
      (s.recipient.notifyReceivedBar s.originator.agreement.txWindow.winStart).map fun r =>
        ({ s with
          recipient := r.1
          scoreStart := if s.winStart < s.scoreStart + 2048 then max s.scoreStart s.winStart else s.scoreStart }, [])
    | .blockAck expired =>
      (s.recipient.fillBlockAckBitmap).bind fun blockAck =>
        (s.originator.notifyGotBlockAck blockAck expired).map fun o => ({ s with originator := o }, [])
    | .missedBlockAck expired => (s.originator.notifyMissedBlockAck expired).map fun o => ({ s with originator := o }, [])
    | .discard mpdu => (s.originator.notifyDiscardedMpdu mpdu).map fun o => ({ s with originator := o }, [])

/-- What `QosTxop` and the channel do: an MPDU stored was not acknowledged, and its
window keeps the MPDUs in flight; an MPDU discarded was in the window; a frame
delivered is in flight, or a request. -/
def Transmitted (s : BlockAckExchange) : ExchangeEvent → Prop
  | .storePacket mpdu => mpdu.sequenceNumber = mpdu.position % 4096 ∧ mpdu.position ∉ s.originator.agreement.acked ∧
      s.winStart ≤ mpdu.position + 2048 ∧ mpdu.position < s.winStart + 2048 ∧
      ∀ x ∈ s.originator.inFlight, mpdu.position < x.position + s.winSize
  | .discard mpdu => mpdu.sequenceNumber = mpdu.position % 4096 ∧ s.winStart ≤ mpdu.position + 2048 ∧
      mpdu.position < s.winStart + s.winSize
  | .deliverMpdu mpdu => mpdu ∈ s.originator.inFlight
  | _ => True

/-- Moreover, the window ends less than all the sequence numbers ahead of the
scoreboard when the recipient gets a frame. -/
def Comparable (s : BlockAckExchange) : ExchangeEvent → Prop
  | .deliverMpdu mpdu => Transmitted s (.deliverMpdu mpdu) ∧ s.winStart + s.winSize ≤ s.scoreStart + 4096
  | .deliverBar | .blockAck _ => s.winStart + s.winSize ≤ s.scoreStart + 4096
  | e => Transmitted s e

/-- A call at the originator, with no MPDU that is acknowledged and has expired. -/
def Unexpired (s : BlockAckExchange) : ExchangeEvent → Prop
  | .blockAck expired => ∀ x ∈ s.originator.inFlight, x.position ∈ expired → ∀ blockAck,
      s.recipient.fillBlockAckBitmap = some blockAck → blockAck.isPacketReceived x.sequenceNumber ≠ some true
  | .deliverMpdu _ | .deliverBar => False
  | _ => True

end BlockAckExchange

end Ns3
