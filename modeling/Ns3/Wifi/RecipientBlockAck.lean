import Ns3.Lib.Machine
import Ns3.Rlc.RlcHeader
import Ns3.Rlc.SequenceNumber10
import Ns3.Wifi.BlockAckWindow

/-!
# `RecipientBlockAckAgreement`

The recipient of a block ack agreement: the scoreboard of the MPDUs received,
and the buffer that puts them in order before they go up. The buffer is a
`std::map` whose comparator counts from `m_winStartB`; it is kept as the list of
its entries in their order, and a new key is put where the comparator puts it
among the others. A failed assertion leaves no successor.

`Reordering` is what the buffer is for: the same with numbers that never wrap. A
new MPDU or a block ack request moves the window; what falls out of it goes up
in order, and then all that follows without a gap.
-/

namespace Ns3

structure WifiMpdu where
  sequenceNumber : Nat
  packet : Bytes := []
  /-- The number it would have without a wrap; the code does not read it. -/
  position : Nat
  deriving DecidableEq

inductive RecipientEvent where
  | mpdu (m : WifiMpdu)
  /-- A request, with the position of its starting sequence number. -/
  | bar (startingSequenceNumber position : Nat)

structure RecipientBlockAckAgreement where
  scoreboard : BlockAckWindow
  winStartB : Nat
  winSizeB : Nat
  bufferedMpdus : List (Nat × WifiMpdu) := []
  deriving DecidableEq

namespace RecipientBlockAckAgreement

def create (bufferSize startingSeq : Nat) : RecipientBlockAckAgreement where
  scoreboard := .init startingSeq bufferSize
  winStartB := startingSeq
  winSizeB := bufferSize

def before (winStartB a b : Nat) : Bool :=
  ((a : Int) - winStartB + 4096).tmod 4096 < ((b : Int) - winStartB + 4096).tmod 4096

/-- `m_bufferedMpdus.insert`, which keeps an entry that is there. -/
def insert (winStartB : Nat) (m : WifiMpdu) : List (Nat × WifiMpdu) → List (Nat × WifiMpdu)
  | [] => [(m.sequenceNumber, m)]
  | e :: l =>
    if before winStartB m.sequenceNumber e.1 then (m.sequenceNumber, m) :: e :: l
    else if before winStartB e.1 m.sequenceNumber then e :: insert winStartB m l
    else e :: l

def noOldMpdus (a : RecipientBlockAckAgreement) : Bool :=
  a.bufferedMpdus.getLast?.all fun e => (getDistance e.1 a.winStartB).any (· < 2048)

/-- The loop of `PassBufferedMpdusUntilFirstLost`: the MPDUs passed, those left
and the new start. -/
def passRun : List (Nat × WifiMpdu) → Nat → List WifiMpdu × List (Nat × WifiMpdu) × Nat
  | [], winStartB => ([], [], winStartB)
  | e :: l, winStartB =>
    if e.1 = winStartB then
      let r := passRun l ((winStartB + 1) % 4096)
      (e.2 :: r.1, r.2)
    else ([], e :: l, winStartB)

def passBufferedMpdusUntilFirstLost (a : RecipientBlockAckAgreement) :
    Option (RecipientBlockAckAgreement × List WifiMpdu) :=
  if a.noOldMpdus then
    let r := passRun a.bufferedMpdus a.winStartB
    some ({ a with bufferedMpdus := r.2.1, winStartB := r.2.2 }, r.1)
  else none

/-- The loop of `PassBufferedMpdusWithSeqNumberLessThan`. -/
def passBelow (winStartB newWinStartB : Nat) : List (Nat × WifiMpdu) → Option (List WifiMpdu × List (Nat × WifiMpdu))
  | [] => some ([], [])
  | e :: l =>
    (getDistance e.1 winStartB).bind fun distance =>
      (getDistance newWinStartB winStartB).bind fun newDistance =>
        if distance < newDistance then (passBelow winStartB newWinStartB l).map fun r => (e.2 :: r.1, r.2)
        else some ([], e :: l)

def passBufferedMpdusWithSeqNumberLessThan (a : RecipientBlockAckAgreement) (newWinStartB : Nat) :
    Option (RecipientBlockAckAgreement × List WifiMpdu) :=
  if a.noOldMpdus then
    (passBelow a.winStartB newWinStartB a.bufferedMpdus).map fun r =>
      ({ a with bufferedMpdus := r.2, winStartB := newWinStartB }, r.1)
  else none

/-- One call after the other, with what both pass. -/
def passBelowThenRun (a : RecipientBlockAckAgreement) (newWinStartB : Nat) :
    Option (RecipientBlockAckAgreement × List WifiMpdu) :=
  (a.passBufferedMpdusWithSeqNumberLessThan newWinStartB).bind fun r =>
    r.1.passBufferedMpdusUntilFirstLost.map fun r' => (r'.1, r.2 ++ r'.2)

def scoreMpdu (w : BlockAckWindow) (mpduSeqNumber : Nat) : Option BlockAckWindow :=
  (getDistance mpduSeqNumber w.winStart).bind fun distance =>
    if distance < w.winSize then w.mark distance
    else if distance < 2048 then
      let w := w.advance (distance - w.winSize + 1)
      w.mark (w.winSize - 1)
    else some w

def notifyReceivedMpdu (a : RecipientBlockAckAgreement) (mpdu : WifiMpdu) :
    Option (RecipientBlockAckAgreement × List WifiMpdu) :=
  (scoreMpdu a.scoreboard mpdu.sequenceNumber).bind fun scoreboard =>
    (getDistance mpdu.sequenceNumber a.winStartB).bind fun distance =>
      if distance < a.winSizeB then
        { a with
          scoreboard := scoreboard
          bufferedMpdus := insert a.winStartB mpdu a.bufferedMpdus }.passBufferedMpdusUntilFirstLost
      else if distance < 2048 then
        { a with
          scoreboard := scoreboard
          bufferedMpdus := insert a.winStartB mpdu a.bufferedMpdus }.passBelowThenRun
            (uint16 (mpdu.sequenceNumber - a.winSizeB + 1))
      else some ({ a with scoreboard := scoreboard }, [])

def scoreBar (w : BlockAckWindow) (startingSequenceNumber : Nat) : Option BlockAckWindow :=
  (getDistance startingSequenceNumber w.winStart).bind fun distance =>
    if 0 < distance ∧ distance < w.winSize then
      let w := w.advance distance
      if w.winStart = startingSequenceNumber then some w else none
    else if 0 < distance ∧ distance < 2048 then some (w.reset startingSequenceNumber)
    else some w

def notifyReceivedBar (a : RecipientBlockAckAgreement) (startingSequenceNumber : Nat) :
    Option (RecipientBlockAckAgreement × List WifiMpdu) :=
  (scoreBar a.scoreboard startingSequenceNumber).bind fun scoreboard =>
    (getDistance startingSequenceNumber a.winStartB).bind fun distance =>
      if 0 < distance ∧ distance < 2048 then { a with scoreboard := scoreboard }.passBelowThenRun startingSequenceNumber
      else some ({ a with scoreboard := scoreboard }, [])

def receive (a : RecipientBlockAckAgreement) : RecipientEvent → Option (RecipientBlockAckAgreement × List WifiMpdu)
  | .mpdu m => a.notifyReceivedMpdu m
  | .bar startingSequenceNumber _ => a.notifyReceivedBar startingSequenceNumber

end RecipientBlockAckAgreement

/-! ## Without a wrap -/

structure Reordering where
  winStart : Nat
  winSize : Nat
  buffered : List WifiMpdu := []
  /-- The MPDUs the window had not moved past when they arrived. -/
  inTime : List WifiMpdu := []

namespace Reordering

def store (m : WifiMpdu) : List WifiMpdu → List WifiMpdu
  | [] => [m]
  | x :: l =>
    if m.position < x.position then m :: x :: l
    else if x.position < m.position then x :: store m l
    else x :: l

/-- What follows the start without a gap, what is left, and the start behind it. -/
def run : List WifiMpdu → Nat → List WifiMpdu × List WifiMpdu × Nat
  | [], winStart => ([], [], winStart)
  | x :: l, winStart =>
    if x.position = winStart then
      let r := run l (winStart + 1)
      (x :: r.1, r.2)
    else ([], x :: l, winStart)

def moveTo (s : Reordering) (start : Nat) : Reordering × List WifiMpdu :=
  let r := run (s.buffered.dropWhile (·.position < start)) start
  ({ s with buffered := r.2.1, winStart := r.2.2 }, s.buffered.takeWhile (·.position < start) ++ r.1)

def step (s : Reordering) : RecipientEvent → Reordering × List WifiMpdu
  | .mpdu m =>
    if m.position < s.winStart then (s, [])
    else
      { s with buffered := store m s.buffered, inTime := m :: s.inTime }.moveTo
        (max s.winStart (m.position + 1 - s.winSize))
  | .bar _ position => s.moveTo (max s.winStart position)

end Reordering

/-! ## Both -/

structure BlockAckRecipient where
  agreement : RecipientBlockAckAgreement
  reordering : Reordering

namespace BlockAckRecipient

def start (bufferSize position : Nat) : BlockAckRecipient where
  agreement := .create bufferSize (position % 4096)
  reordering := { winStart := position, winSize := bufferSize }

/-- The MPDUs put out are those `MacRxMiddle` gets from the agreement. -/
def machine : Machine BlockAckRecipient RecipientEvent WifiMpdu where
  step s e := (s.agreement.receive e).map fun r => (⟨r.1, (s.reordering.step e).1⟩, r.2)

/-- A number is that of a position less than half the numbers from the window. -/
def Numbered (s : BlockAckRecipient) (sequenceNumber position : Nat) : Prop :=
  sequenceNumber = position % 4096 ∧ s.reordering.winStart ≤ position + 2048 ∧ position < s.reordering.winStart + 2048

def Nearby (s : BlockAckRecipient) : RecipientEvent → Prop
  | .mpdu m => Numbered s m.sequenceNumber m.position
  | .bar startingSequenceNumber position => Numbered s startingSequenceNumber position

/-- An MPDU behind the window has a number not below the size of the window, less
one. -/
def NotWrapped (s : BlockAckRecipient) : RecipientEvent → Prop
  | .mpdu m => s.reordering.winStart + s.agreement.winSizeB ≤ m.position → s.agreement.winSizeB ≤ m.sequenceNumber + 1
  | .bar .. => True

end BlockAckRecipient

end Ns3
