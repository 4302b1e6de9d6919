import Mathlib.Algebra.Order.Ring.Nat
import Ns3.Internet.SequenceNumber32
import Ns3.Rlc.RlcHeader

/-!
# `TcpTxBuffer`

The send buffer of a TCP socket: the items sent and not acknowledged yet, with
the flags of the scoreboard, and behind them the data of the application. Items
are split and merged as segments are cut out of them; counters of the sacked,
lost and retransmitted bytes are kept along.

An item has the address it was allocated at, and an iterator is the address of
the item it stands at, or `none` for the end of the list. A failed assertion,
an abort, a null pointer and a dangling iterator leave no successor. The
callbacks of the rate estimator and `m_renoSack`, which nothing reads, are left
out.
-/

namespace Ns3

structure TcpTxItem where
  address : Nat
  packet : Bytes
  startSeq : SequenceNumber32 := ⟨0⟩
  lost : Bool := false
  retrans : Bool := false
  sacked : Bool := false
  /-- `Time::Max ()` until it is sent. -/
  lastSent : Int := 9223372036854775807
  deriving DecidableEq

abbrev TcpTxItem.size (item : TcpTxItem) : Nat := item.packet.length

structure TcpTxBuffer where
  maxBuffer : Nat := 32768
  size : Nat := 0
  sentSize : Nat := 0
  firstByteSeq : SequenceNumber32
  sentList : List TcpTxItem := []
  appList : List TcpTxItem := []
  highestSack : Option Nat × SequenceNumber32 := (none, ⟨0⟩)
  lostOut : Nat := 0
  sackedOut : Nat := 0
  retrans : Nat := 0
  dupAckThresh : Nat := 0
  segmentSize : Nat := 0
  sackEnabled : Bool := true
  nextAddress : Nat := 0

namespace TcpTxBuffer

open SequenceNumber32

def headSequence (b : TcpTxBuffer) : SequenceNumber32 := b.firstByteSeq

def tailSequence (b : TcpTxBuffer) : SequenceNumber32 := b.firstByteSeq.add b.size

def available (b : TcpTxBuffer) : Nat := uint32 (b.maxBuffer - b.size)

def add (b : TcpTxBuffer) (p : Bytes) : TcpTxBuffer × Bool :=
  if p.length ≤ b.available then
    if 0 < p.length then
      ({ b with
        appList := b.appList ++ [{ address := b.nextAddress, packet := p }]
        size := uint32 (b.size + p.length)
        nextAddress := b.nextAddress + 1 }, true)
    else (b, true)
  else (b, false)

def sizeFromSequence (b : TcpTxBuffer) (seq : SequenceNumber32) : Nat :=
  if b.tailSequence.ge seq then b.tailSequence.diff seq else 0

def setHeadSequence (b : TcpTxBuffer) (seq : SequenceNumber32) : Option TcpTxBuffer :=
  if b.sentList = [] then some { b with firstByteSeq := seq, highestSack := (none, ⟨0⟩) } else none

/-! ## Splitting and merging items -/

/-- A new item takes the first `size` bytes of `t2`. -/
def splitItems (address : Nat) (t2 : TcpTxItem) (size : Nat) : TcpTxItem × TcpTxItem :=
  ({ t2 with address := address, packet := t2.packet.take size },
    { t2 with packet := t2.packet.drop size, startSeq := t2.startSeq.add size })

/-- `t1` with the bytes of `t2`, and `m_retrans`: where only one of the two was
retransmitted, the merged item is not. -/
def mergeItems (retrans : Nat) (t1 t2 : TcpTxItem) : Option (TcpTxItem × Nat) :=
  if t1.sacked = t2.sacked ∧ t1.lost = t2.lost then
    some ({ t1 with
      packet := t1.packet ++ t2.packet
      retrans := t1.retrans && t2.retrans
      lastSent := if t1.lastSent < t2.lastSent then t2.lastSent else t1.lastSent },
      if t1.retrans = t2.retrans then retrans
      else if t1.retrans then uint32 (retrans - t1.size) else uint32 (retrans - t2.size))
  else none

structure Located where
  before : List TcpTxItem
  item : TcpTxItem
  after : List TcpTxItem

def Located.list (l : Located) : List TcpTxItem := l.before ++ l.item :: l.after

/-- A round of `GetPacketFromList` ends with the item, or with an edited list to
start again on. -/
inductive Search where
  | found (l : Located) (retrans nextAddress : Nat)
  | again (list : List TcpTxItem) (retrans nextAddress : Nat)

/-- The item at hand ends too early: it is merged with the next one, if any. -/
def mergeNext (retrans nextAddress : Nat) (before : List TcpTxItem) (current : TcpTxItem) :
    List TcpTxItem → Option Search
  | [] => some (.found ⟨before, current, []⟩ retrans nextAddress)
  | next :: rest => (mergeItems retrans current next).map fun m => .again (before ++ m.1 :: rest) m.2 nextAddress

/-- One round: to the item `seq` is in, which starts at `begin`. The item is
found in the round that reaches it, so that it never comes before the one at
hand. -/
def searchList (valid : TcpTxItem → Bool) (numBytes : Nat) (seq : SequenceNumber32) (retrans nextAddress : Nat) :
    List TcpTxItem → SequenceNumber32 → List TcpTxItem → Option Search
  | _, _, [] => none
  | before, begin, current :: rest =>
    if valid current then
      if seq.lt (begin.add current.size) then
        if seq = begin then
          if (seq.add numBytes).le (begin.add current.size) then
            if numBytes = current.size then some (.found ⟨before, current, rest⟩ retrans nextAddress)
            else if numBytes < current.size then
              let parts := splitItems nextAddress current numBytes
              some (.found ⟨before, parts.1, parts.2 :: rest⟩ retrans (nextAddress + 1))
            else none
          else mergeNext retrans nextAddress before current rest
        else if seq.gt begin then
          let parts := splitItems nextAddress current (seq.diff begin)
          some (.again (before ++ parts.1 :: parts.2 :: rest) retrans (nextAddress + 1))
        else none
      else searchList valid numBytes seq retrans nextAddress (before ++ [current]) (begin.add current.size) rest
    else none

/-- Every round after the first splits at `seq`, once, or merges two items. -/
def getPacketFromList (valid : TcpTxItem → Bool) (listStartFrom : SequenceNumber32) (numBytes : Nat)
    (seq : SequenceNumber32) : Nat → List TcpTxItem → Nat → Nat → Option (Located × Nat × Nat)
  | 0, _, _, _ => none
  | rounds + 1, list, retrans, nextAddress =>
    match searchList valid numBytes seq retrans nextAddress [] listStartFrom list with
    | none => none
    | some (.found l retrans nextAddress) => some (l, retrans, nextAddress)
    | some (.again list retrans nextAddress) =>
      getPacketFromList valid listStartFrom numBytes seq rounds list retrans nextAddress

/-! ## Cutting out a segment -/

def getNewSegment (b : TcpTxBuffer) (numBytes : Nat) : Option (TcpTxBuffer × Located) :=
  let startOfAppList := b.firstByteSeq.add b.sentSize
  (getPacketFromList (fun _ => true) startOfAppList numBytes startOfAppList (b.appList.length + 2) b.appList b.retrans
    b.nextAddress).map fun r =>
      let item := { r.1.item with startSeq := startOfAppList }
      ({ b with
        appList := r.1.before ++ r.1.after
        sentList := b.sentList ++ [item]
        sentSize := uint32 (b.sentSize + item.size)
        retrans := r.2.1
        nextAddress := r.2.2 }, ⟨b.sentList, item, []⟩)

/-- The bytes a retransmission of an item takes: of the item, or of two that may
be merged. -/
def mergeableSize (numBytes : Nat) (item : TcpTxItem) : List TcpTxItem → Nat
  | [] => min numBytes item.size
  | next :: _ =>
    if !next.sacked ∧ item.lost = next.lost then min numBytes (uint32 (item.size + next.size))
    else min numBytes item.size

def retransmitSize (numBytes : Nat) (seq : SequenceNumber32) : List TcpTxItem → Nat
  | [] => numBytes
  | item :: rest =>
    if item.startSeq = seq then mergeableSize numBytes item rest else retransmitSize numBytes seq rest

def getTransmittedSegment (b : TcpTxBuffer) (numBytes : Nat) (seq : SequenceNumber32) :
    Option (TcpTxBuffer × Located) :=
  if seq.ge b.firstByteSeq ∧ numBytes ≤ b.sentSize ∧ 1 ≤ b.sentList.length then
    (getPacketFromList (fun item => item.startSeq.ge b.firstByteSeq) b.firstByteSeq
      (retransmitSize numBytes seq b.sentList) seq (b.sentList.length + 2) b.sentList b.retrans b.nextAddress).map
      fun r =>
        let l : Located := { r.1 with item := { r.1.item with retrans := true } }
        ({ b with
          sentList := l.list
          retrans := if r.1.item.retrans then r.2.1 else uint32 (r.2.1 + r.1.item.size)
          nextAddress := r.2.2 }, l)
  else none

/-- What `CopyFromSequence` does with the item it returns. -/
def sendItem (now : Int) (b : TcpTxBuffer) (l : Located) : Option (TcpTxBuffer × Option TcpTxItem) :=
  let item := { l.item with lastSent := now }
  if item.startSeq.ge b.firstByteSeq then
    some ({ b with sentList := { l with item := item }.list }, some item)
  else none

/-- The bounds of a request for sent and unsent data are compared as plain
values; the inner request is for fewer bytes. Where no case applies the item is
null. -/
def copyRequest (now : Int) (seq : SequenceNumber32) : Nat → TcpTxBuffer → Nat → Option (TcpTxBuffer × Option TcpTxItem)
  | 0, _, _ => none
  | rounds + 1, b, numBytes =>
    if b.firstByteSeq.gt seq then none
    else
      let s := min numBytes (b.sizeFromSequence seq)
      let sentEnd := b.firstByteSeq.add b.sentSize
      if s = 0 then some (b, none)
      else if sentEnd.ge (seq.add s) then
        (b.getTransmittedSegment s seq).bind fun r => if r.2.item.sacked then none else sendItem now r.1 r.2
      else if sentEnd.le seq then
        if sentEnd = seq then
          (b.getNewSegment s).bind fun r => if r.2.item.retrans then none else sendItem now r.1 r.2
        else none
      else if seq.value < sentEnd.value ∧ sentEnd.value < (seq.add s).value then
        copyRequest now seq rounds b (uint32 (sentEnd.value - seq.value))
      else none

def copyFromSequence (b : TcpTxBuffer) (now : Int) (numBytes : Nat) (seq : SequenceNumber32) :
    Option (TcpTxBuffer × Option TcpTxItem) :=
  copyRequest now seq (numBytes + 1) b numBytes

/-! ## The scoreboard -/

def markHeadAsLost (b : TcpTxBuffer) : TcpTxBuffer :=
  match b.sentList with
  | [] => b
  | head :: rest =>
    { b with
      sentList := { head with sacked := false, retrans := false, lost := true } :: rest
      sackedOut := if head.sacked then uint32 (b.sackedOut - head.size) else b.sackedOut
      retrans := if head.retrans then uint32 (b.retrans - head.size) else b.retrans
      lostOut := if head.lost then b.lostOut else uint32 (b.lostOut + head.size) }

/-- The first item behind the head that is not sacked becomes so. -/
def addRenoSack (b : TcpTxBuffer) : Option TcpTxBuffer :=
  if (if b.sackEnabled then 1 else 0) < b.sentList.length then
    match b.sentList with
    | [] => none
    | head :: rest =>
      match rest.dropWhile (·.sacked) with
      | [] => some b
      | item :: after =>
        some { b with
          sentList := head :: (rest.takeWhile (·.sacked) ++ { item with sacked := true } :: after)
          sackedOut := uint32 (b.sackedOut + item.size)
          highestSack := (some item.address, item.startSeq) }
  else none

def resetRenoSack (b : TcpTxBuffer) : TcpTxBuffer :=
  { b with
    sackedOut := 0
    sentList := b.sentList.map fun item => { item with sacked := false }
    highestSack := (none, ⟨0⟩) }

def resetSentList (b : TcpTxBuffer) : TcpTxBuffer :=
  { b with
    sentList := []
    appList := b.sentList.map (fun item => { item with retrans := false, sacked := false, lost := false }) ++ b.appList
    sentSize := 0
    lostOut := 0
    retrans := 0
    sackedOut := 0
    highestSack := (none, ⟨0⟩) }

def deleteRetransmittedFlagFromHead (b : TcpTxBuffer) : Option TcpTxBuffer :=
  if b.sentSize = 0 then some b
  else
    match b.sentList with
    | [] => none
    | head :: rest =>
      if head.retrans then
        some { b with sentList := { head with retrans := false } :: rest, retrans := uint32 (b.retrans - head.size) }
      else some b

/-- The last item goes back to the application, as it is. -/
def resetLastSegmentSent (b : TcpTxBuffer) : TcpTxBuffer :=
  match b.sentList.getLast? with
  | none => b
  | some item =>
    { b with
      sentList := b.sentList.dropLast
      sentSize := uint32 (b.sentSize - item.size)
      retrans := if item.retrans then uint32 (b.retrans - item.size) else b.retrans
      appList := item :: b.appList }

/-- The loop of `SetSentListLost` where the sacked items stay so. -/
def loseUnsacked : List TcpTxItem → Nat → List TcpTxItem × Nat
  | [], lostOut => ([], lostOut)
  | item :: rest, lostOut =>
    let lost := item.lost || !item.sacked
    let r := loseUnsacked rest (if lost then uint32 (lostOut + item.size) else lostOut)
    ({ item with lost := lost, retrans := false } :: r.1, r.2)

def setSentListLost (b : TcpTxBuffer) (resetSack : Bool) : Option TcpTxBuffer :=
  let b :=
    if resetSack then
      { b with
        retrans := 0
        sackedOut := 0
        lostOut := b.sentSize
        highestSack := (none, ⟨0⟩)
        sentList := b.sentList.map fun item => { item with sacked := false, lost := true, retrans := false } }
    else
      let r := loseUnsacked b.sentList 0
      { b with retrans := 0, sentList := r.1, lostOut := r.2 }
  if uint32 (b.sackedOut + b.lostOut) ≤ b.sentSize then some b else none

/-! ## Cumulative acknowledgments -/

def removeFromCounts (b : TcpTxBuffer) (item : TcpTxItem) (size : Nat) : Option TcpTxBuffer :=
  if (item.sacked → size ≤ b.sackedOut) ∧ (item.retrans → size ≤ b.retrans) ∧ (item.lost → size ≤ b.lostOut) then
    some { b with
      sackedOut := if item.sacked then uint32 (b.sackedOut - size) else b.sackedOut
      retrans := if item.retrans then uint32 (b.retrans - size) else b.retrans
      lostOut := if item.lost then uint32 (b.lostOut - size) else b.lostOut }
  else none

/-- The counters and the head once `size` bytes of the first item are gone. -/
def advance (b : TcpTxBuffer) (size : Nat) : TcpTxBuffer :=
  { b with
    size := uint32 (b.size - size)
    sentSize := uint32 (b.sentSize - size)
    firstByteSeq := b.firstByteSeq.add size }

/-- Data acknowledged before it counts as sent is moved to the sent list first. -/
def fillSentList (b : TcpTxBuffer) (now : Int) (offset : Nat) : Option TcpTxBuffer :=
  match b.sentList with
  | [] => (b.copyFromSequence now offset b.firstByteSeq).bind fun r => r.2.map fun _ => r.1
  | _ :: _ => some b

/-- The loop of `DiscardUpTo`: each round but the last removes an item. -/
def discardLoop (now : Int) : Nat → TcpTxBuffer → Nat → Option TcpTxBuffer
  | 0, _, _ => none
  | rounds + 1, b, offset =>
    if 0 < b.size ∧ 0 < offset then
      (b.fillSentList now offset).bind fun b =>
        match b.sentList with
        | [] => none
        | item :: rest =>
          if item.startSeq = b.firstByteSeq then
            if item.size ≤ offset then
              ((b.advance item.size).removeFromCounts item item.size).bind fun b =>
                discardLoop now rounds { b with sentList := rest } (offset - item.size)
            else
              ((b.advance offset).removeFromCounts item offset).map fun b =>
                { b with
                  sentList :=
                    { item with packet := item.packet.drop offset, startSeq := item.startSeq.add offset } :: rest }
          else none
    else some b

/-- A sacked head is a wrong guess of the Reno acknowledgments: the flag moves
to another item. -/
def unsackHead (b : TcpTxBuffer) : Option TcpTxBuffer :=
  match b.sentList with
  | [] => some b
  | head :: rest =>
    if head.sacked then
      if head.lost then none
      else
        ({ b with
          sentList := { head with sacked := false } :: rest
          sackedOut := uint32 (b.sackedOut - head.size) }.addRenoSack).map markHeadAsLost
    else some b

def discardUpTo (b : TcpTxBuffer) (now : Int) (seq : SequenceNumber32) : Option TcpTxBuffer :=
  if b.firstByteSeq.ge seq then some b
  else
    (discardLoop now (b.sentList.length + 2) b (seq.diff b.firstByteSeq)).bind fun b =>
      -- the FIN has a sequence number and no byte
      let b := if b.size = 0 then { b with firstByteSeq := seq } else b
      b.unsackHead.bind fun b =>
        if b.sentList.head?.all fun head => head.startSeq = seq then
          let b := if b.highestSack.2.le b.firstByteSeq then { b with highestSack := (none, ⟨0⟩) } else b
          if b.firstByteSeq.ge seq ∧ uint32 (b.sackedOut + b.lostOut) ≤ b.sentSize then some b else none
        else none

/-! ## Selective acknowledgments -/

/-- What `Update` counts along the sent list. -/
structure Tally where
  lostOut : Nat
  sackedOut : Nat
  bytesSacked : Nat
  highestSack : Option Nat × SequenceNumber32

def Tally.sack (t : Tally) (begin : SequenceNumber32) (item : TcpTxItem) : Tally where
  lostOut := if item.lost then uint32 (t.lostOut - item.size) else t.lostOut
  sackedOut := uint32 (t.sackedOut + item.size)
  bytesSacked := uint32 (t.bytesSacked + item.size)
  highestSack :=
    if t.highestSack.1 = none ∨ t.highestSack.2.le (begin.add item.size) then (some item.address, begin)
    else t.highestSack

/-- One block along the sent list: only items wholly inside it are marked. -/
def updateItems (block : SequenceNumber32 × SequenceNumber32) :
    SequenceNumber32 → List TcpTxItem → Tally → Option (List TcpTxItem × Tally)
  | _, [], t => some ([], t)
  | begin, item :: rest, t =>
    if begin.ge block.1 ∧ (begin.add item.size).le block.2 then
      if item.sacked then
        if item.lost then none
        else (updateItems block (begin.add item.size) rest t).map fun r => (item :: r.1, r.2)
      else
        (updateItems block (begin.add item.size) rest (t.sack begin item)).map fun r =>
          ({ item with lost := false, sacked := true } :: r.1, r.2)
    else if (begin.add item.size).gt block.2 then some (item :: rest, t)
    else (updateItems block (begin.add item.size) rest t).map fun r => (item :: r.1, r.2)

/-- The blocks in turn, with the bytes sacked; a block beyond the sent data ends
the call at once (`false`). -/
def updateBlocks : List (SequenceNumber32 × SequenceNumber32) → TcpTxBuffer → Nat → Option (TcpTxBuffer × Nat × Bool)
  | [], b, bytesSacked => some (b, bytesSacked, true)
  | block :: list, b, bytesSacked =>
    if (b.firstByteSeq.add b.sentSize).lt block.1 then some (b, bytesSacked, false)
    else
      (updateItems block b.firstByteSeq b.sentList ⟨b.lostOut, b.sackedOut, bytesSacked, b.highestSack⟩).bind fun r =>
        updateBlocks list
          { b with
            sentList := r.1
            lostOut := r.2.lostOut
            sackedOut := r.2.sackedOut
            highestSack := r.2.highestSack } r.2.bytesSacked

/-- The loop of `UpdateLostCount`, over the items from the highest sacked one
down: behind `dupAckThresh` sacked items the others are lost. -/
def loseBelow (dupAckThresh : Nat) : List TcpTxItem → Nat → Nat → List TcpTxItem × Nat × Nat
  | [], sacked, lostOut => ([], sacked, lostOut)
  | item :: rest, sacked, lostOut =>
    let sacked := if item.sacked then uint32 (sacked + 1) else sacked
    let lose := decide (dupAckThresh ≤ sacked) && !item.sacked && !item.lost
    let r := loseBelow dupAckThresh rest sacked (if lose then uint32 (lostOut + item.size) else lostOut)
    ({ item with lost := item.lost || lose } :: r.1, r.2)

def updateLostCount (b : TcpTxBuffer) : Option TcpTxBuffer :=
  match b.highestSack.1, b.sentList with
  | some address, head :: rest =>
    let i := b.sentList.findIdx fun item => item.address = address
    if i < b.sentList.length then
      let r := loseBelow b.dupAckThresh (rest.take i).reverse 0 b.lostOut
      let lose := decide (b.dupAckThresh ≤ r.2.1) && !head.lost
      some { b with
        sentList := { head with lost := head.lost || lose } :: (r.1.reverse ++ rest.drop i)
        lostOut := if lose then uint32 (r.2.2 + head.size) else r.2.2 }
    else none
  | _, _ => none

/-- The last sacked item from `begin` on, with its sequence number. -/
def highestSackedFrom : SequenceNumber32 → List TcpTxItem → Option Nat × SequenceNumber32 →
    Option Nat × SequenceNumber32
  | _, [], ret => ret
  | begin, item :: rest, ret =>
    highestSackedFrom (begin.add item.size) rest (if item.sacked then (some item.address, begin) else ret)

def findHighestSacked (b : TcpTxBuffer) : Option Nat × SequenceNumber32 :=
  highestSackedFrom b.firstByteSeq b.sentList (none, ⟨0⟩)

/-- The final assertion reads the first item whether or not there is one. -/
def update (b : TcpTxBuffer) (list : List (SequenceNumber32 × SequenceNumber32)) : Option (TcpTxBuffer × Nat) :=
  (updateBlocks list b 0).bind fun r =>
    if r.2.2 then
      (if 0 < r.2.1 then r.1.updateLostCount else some r.1).bind fun b =>
        match b.sentList with
        | [] => none
        | head :: _ =>
          if head.sacked = false ∧ uint32 (b.sackedOut + b.lostOut) ≤ b.sentSize then some (b, r.2.1) else none
    else some (r.1, r.2.1)

/-! ## What the socket asks for -/

def bytesInFlight (b : TcpTxBuffer) : Option Nat :=
  if uint32 (b.sackedOut + b.lostOut) ≤ b.sentSize then
    some (uint32 (uint32 (b.sentSize - uint32 (b.sackedOut + b.lostOut)) + b.retrans))
  else none

/-- The first item lost and neither retransmitted nor sacked, and the first that
is only neither (rule 3), each by its sequence number. -/
def nextLost (isRecovery : Bool) : SequenceNumber32 → List TcpTxItem → Option SequenceNumber32 →
    Option SequenceNumber32 × Option SequenceNumber32
  | _, [], rule3 => (none, rule3)
  | begin, item :: rest, rule3 =>
    if item.retrans = false ∧ item.sacked = false then
      if item.lost then (some begin, rule3)
      else
        nextLost isRecovery (begin.add item.size) rest
          (if (rule3.getD ⟨0⟩).value = 0 ∧ isRecovery then some begin else rule3)
    else nextLost isRecovery (begin.add item.size) rest rule3

/-- `NextSeg`, with the window the receiver advertises: the bounds of the next
segment to send. -/
def nextSeg (b : TcpTxBuffer) (rWnd : Nat) (isRecovery : Bool) : Option (SequenceNumber32 × SequenceNumber32) :=
  let r := nextLost isRecovery b.firstByteSeq b.sentList none
  let unsent := b.firstByteSeq.add b.sentSize
  match r.1 with
  | some seq => some (seq, seq.add b.segmentSize)
  | none =>
    if 0 < b.sizeFromSequence unsent then
      if b.sentSize ≤ rWnd then some (unsent, unsent.add (min b.segmentSize (rWnd - b.sentSize))) else none
    else r.2.map fun seq => (seq, seq.add b.segmentSize)

end TcpTxBuffer

end Ns3
