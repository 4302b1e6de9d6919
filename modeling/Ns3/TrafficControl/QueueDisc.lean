import Ns3.Internet.SequenceNumber32
import Ns3.Lib.Machine

/-!
# The transmission path of `QueueDisc`

A root queue disc over one internal queue: `Enqueue`, `Peek`, `Dequeue` and
`Run`, and the device queues that `Run` stops at. One field, `m_requeued`, holds
an item that came back from a stopped device queue, or one that was only peeked.

The disc of a subclass matters by which items it accepts, how many items it drops
at the head of its queue before it dequeues one, and whether it peeks by a
`DoPeek` of its own, which looks at the internal queue and moves nothing. While
`m_send` runs, items arrive and device queues stop or wake; a `Run` in it returns
at once, since `m_running` is set. A device queue with an index out of range has
no result. Only the statistics that `GetStats` reads are kept, so the assertions
about the others are left out, and so is the priority tag.
-/

namespace Ns3

/-- What an item is given with. Its size counts the header from the start. -/
structure QueuedPacket where
  uid : Nat
  size : Nat
  txQueueIndex : Nat
  deriving DecidableEq

/-- An item, and how often `AddHeader` was called on it. -/
structure QueueDiscItem where
  packet : QueuedPacket
  headers : Nat := 0
  deriving DecidableEq

def QueueDiscItem.addHeader (item : QueueDiscItem) : QueueDiscItem := { item with headers := item.headers + 1 }

def uint64 (z : Int) : Nat := (z % 18446744073709551616).toNat

/-- A number of packets and a number of bytes of `Stats`. -/
structure Tally where
  packets : Nat := 0
  bytes : Nat := 0

def Tally.add (t : Tally) (p : QueuedPacket) : Tally := ⟨uint32 (t.packets + 1), uint64 (t.bytes + p.size)⟩

inductive QueueDiscOutput where
  | accepted (p : QueuedPacket)
  /-- An argument of `m_send`. -/
  | sent (item : QueueDiscItem)
  /-- A result of `Dequeue`. -/
  | dequeued (item : QueueDiscItem)
  | dropped (item : QueueDiscItem)

/-- What happens without the queue disc: an item arrives that it accepts or not, a device
queue stops or wakes. -/
inductive Arrival where
  | enqueue (p : QueuedPacket) (accepted : Bool)
  | setStopped (i : Nat) (stopped : Bool)

/-- What a call of `Restart` meets: the items dropped by `DoDequeue`, and what happens
while `m_send` runs. -/
structure Round where
  drops : Nat := 0
  during : List Arrival := []

inductive QueueDiscEvent where
  | arrival (a : Arrival)
  | peek (drops : Nat)
  | dequeue (drops : Nat)
  | run (quota : Nat) (rounds : Nat → Round)

structure QueueDisc where
  internalQueue : List QueueDiscItem := []
  requeued : Option QueueDiscItem := none
  peeked : Bool := false
  nPackets : Nat := 0
  totalDequeued : Tally := {}
  totalDroppedAfterDequeue : Tally := {}
  /-- Which transmission queues of the device are stopped. -/
  devQueueIface : Option (List Bool) := none
  /-- Whether the subclass has a `DoPeek` of its own. -/
  ownPeek : Bool := false

namespace QueueDisc

/-- `m_devQueueIface && m_devQueueIface->GetTxQueue (i)->IsStopped ()`. -/
def isStopped (s : QueueDisc) (i : Nat) : Option Bool :=
  match s.devQueueIface with
  | none => some false
  | some stopped => stopped[i]?

def getStats (s : QueueDisc) : Tally where
  packets := uint32 (s.totalDequeued.packets - (if s.requeued.isSome then 1 else 0) - s.totalDroppedAfterDequeue.packets)
  bytes := uint64 (s.totalDequeued.bytes - (match s.requeued with | some item => (item.packet.size : Int) | none => 0) -
    s.totalDroppedAfterDequeue.bytes)

/-- `PacketEnqueued`, after the item is put in the internal queue. -/
def packetEnqueued (s : QueueDisc) (item : QueueDiscItem) : QueueDisc :=
  { s with internalQueue := s.internalQueue ++ [item], nPackets := uint32 (s.nPackets + 1) }

def packetDequeued (s : QueueDisc) (item : QueueDiscItem) : QueueDisc :=
  if s.peeked then s
  else { s with nPackets := uint32 (s.nPackets - 1), totalDequeued := s.totalDequeued.add item.packet }

def dropAfterDequeue (s : QueueDisc) (item : QueueDiscItem) : QueueDisc :=
  let s := { s with totalDroppedAfterDequeue := s.totalDroppedAfterDequeue.add item.packet }
  if s.peeked then { ({ s with peeked := false }).packetDequeued item with peeked := true } else s

def arrive (s : QueueDisc) : Arrival → QueueDisc × List QueueDiscOutput
  | .enqueue p accepted => if accepted then (s.packetEnqueued ⟨p, 0⟩, [.accepted p]) else (s, [])
  | .setStopped i stopped => ({ s with devQueueIface := s.devQueueIface.map (·.set i stopped) }, [])

def arriveAll (s : QueueDisc) : List Arrival → QueueDisc × List QueueDiscOutput
  | [] => (s, [])
  | a :: l => (((s.arrive a).1.arriveAll l).1, (s.arrive a).2 ++ ((s.arrive a).1.arriveAll l).2)

/-- `DoDequeue` of a subclass that drops items at the head first. -/
def doDequeue (s : QueueDisc) (drops : Nat) : QueueDisc × Option QueueDiscItem × List QueueDiscOutput :=
  match s.internalQueue with
  | [] => (s, none, [])
  | item :: rest =>
    let s := { s with internalQueue := rest }.packetDequeued item
    match drops with
    | 0 => (s, some item, [])
    | drops + 1 =>
      let (s, next, o) := (s.dropAfterDequeue item).doDequeue drops
      (s, next, .dropped item :: o)

/-- The item leaves `m_requeued`, and is dequeued by that if it was peeked. -/
def takeRequeued (s : QueueDisc) (item : QueueDiscItem) : QueueDisc :=
  let s := { s with requeued := none }
  if s.peeked then { s with peeked := false }.packetDequeued item else s

def dequeue (s : QueueDisc) (drops : Nat) : QueueDisc × Option QueueDiscItem × List QueueDiscOutput :=
  match s.requeued with
  | some item => (s.takeRequeued item, some item, [])
  | none => s.doDequeue drops

def peek (s : QueueDisc) (drops : Nat) : QueueDisc × List QueueDiscOutput :=
  if s.ownPeek ∨ s.requeued.isSome then (s, [])
  else
    match { s with peeked := true }.dequeue drops with
    | (s, some item, o) => ({ s with requeued := some item }, o)
    | (s, none, o) => ({ s with requeued := none, peeked := false }, o)

/-- Whether a queue disc without a requeued packet is asked for one. -/
def mayDequeue (s : QueueDisc) : Option Bool :=
  match s.devQueueIface with
  | none => some true
  | some stopped => if 1 < stopped.length then some true else (stopped[0]?).map (!·)

def dequeuePacket (s : QueueDisc) (drops : Nat) : Option (QueueDisc × Option QueueDiscItem × List QueueDiscOutput) :=
  match s.requeued with
  | some item => (s.isStopped item.packet.txQueueIndex).map fun stopped =>
    if stopped then (s, none, []) else (s.takeRequeued item, some item, [])
  | none => s.mayDequeue.map fun may =>
    if may then
      let (s, item, o) := s.dequeue drops
      (s, item.map (·.addHeader), o)
    else (s, none, [])

def requeue (s : QueueDisc) (item : QueueDiscItem) : QueueDisc := { s with requeued := some item }

def transmit (s : QueueDisc) (item : QueueDiscItem) (during : List Arrival) :
    Option (QueueDisc × List QueueDiscOutput × Bool) :=
  (s.isStopped item.packet.txQueueIndex).bind fun stopped =>
    if stopped then some (s.requeue item, [], false)
    else
      let (s, o) := s.arriveAll during
      if s.nPackets = 0 then some (s, .sent item :: o, false)
      else (s.isStopped item.packet.txQueueIndex).map fun stopped => (s, .sent item :: o, !stopped)

def restart (s : QueueDisc) (r : Round) : Option (QueueDisc × List QueueDiscOutput × Bool) :=
  (s.dequeuePacket r.drops).bind fun (s, item, o) =>
    match item with
    | none => some (s, o, false)
    | some item => (s.transmit item r.during).map fun (s, o', more) => (s, o ++ o', more)

/-- The loop of `Run`, for the given number of rounds at most. -/
def runLoop (rounds : Nat → Round) : Nat → QueueDisc → Option (QueueDisc × List QueueDiscOutput)
  | 0, s => some (s, [])
  | n + 1, s => (s.restart (rounds n)).bind fun (s, o, more) =>
    if more then (runLoop rounds n s).map fun (s, o') => (s, o ++ o') else some (s, o)

/-- A quota of 0 wraps around. -/
def run (s : QueueDisc) (quota : Nat) (rounds : Nat → Round) : Option (QueueDisc × List QueueDiscOutput) :=
  runLoop rounds (if quota = 0 then 4294967296 else quota) s

def step (s : QueueDisc) : QueueDiscEvent → Option (QueueDisc × List QueueDiscOutput)
  | .arrival a => some (s.arrive a)
  | .peek drops => some (s.peek drops)
  | .dequeue drops =>
    let (s, item, o) := s.dequeue drops
    some (s, o ++ (item.map .dequeued).toList)
  | .run quota rounds => s.run quota rounds

def machine : Machine QueueDisc QueueDiscEvent QueueDiscOutput := ⟨step⟩

end QueueDisc

end Ns3
