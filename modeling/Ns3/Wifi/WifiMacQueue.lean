import Mathlib.Logic.Function.Basic
import Ns3.Internet.SequenceNumber32
import Ns3.Lib.Machine
import Ns3.Network.Mac48Address

/-!
# `WifiMacQueue`

A queue of frames whose lifetime ends after a delay. A node of the list has an
identity of its own, which an iterator keeps while other nodes come and go;
`none` is the end of the list. Expired frames are removed wherever a call comes
across them. A failed assertion and an iterator to nothing have no result.
-/

namespace Ns3

inductive AcIndex where
  | AC_BE
  | AC_BK
  | AC_VI
  | AC_VO
  | AC_BE_NQOS
  | AC_BEACON
  | AC_UNDEF
  deriving DecidableEq

/-- What is used of a frame, and where it is queued. -/
structure WifiMacQueueItem where
  m_packet : Nat := 0
  packetSize : Nat := 0
  headerSize : Nat := 0
  isData : Bool := false
  isQosData : Bool := false
  addr1 : Mac48Address := 0
  qosTid : UInt8 := 0
  m_tstamp : Int := 0
  m_queueAc : AcIndex := .AC_UNDEF
  m_queueIt : Nat := 0

namespace WifiMacQueueItem

def WIFI_MAC_FCS_LENGTH : Nat := 4

def getSize (item : WifiMacQueueItem) : Nat := uint32 (item.packetSize + item.headerSize + WIFI_MAC_FCS_LENGTH : Nat)

def isQueued (item : WifiMacQueueItem) : Bool := item.m_queueAc ≠ .AC_UNDEF

def addressTidPair (item : WifiMacQueueItem) : Mac48Address × UInt8 := (item.addr1, item.qosTid)

end WifiMacQueueItem

structure QueueNode where
  it : Nat
  item : Nat
  deriving DecidableEq

structure WifiMacQueueState where
  m_packets : List QueueNode := []
  /-- The identity of the next node. -/
  nextIt : Nat := 0
  m_nPackets : Nat := 0
  m_nBytes : Nat := 0
  m_nQueuedPackets : Mac48Address × UInt8 → Option Nat := fun _ => none
  m_nQueuedBytes : Mac48Address × UInt8 → Option Nat := fun _ => none
  items : Nat → WifiMacQueueItem := fun _ => {}
  now : Int := 0

inductive DropPolicy where
  | DROP_NEWEST
  | DROP_OLDEST

structure WifiMacQueue where
  m_ac : AcIndex
  m_maxSize : Nat
  m_maxDelay : Int
  m_dropPolicy : DropPolicy

inductive QueueOutput where
  | enqueued (item : Nat)
  | droppedBeforeEnqueue (item : Nat)
  | dequeued (item : Nat)
  | removed (item : Nat)
  | expired (item : Nat)
  | peeked (item : Nat)
  | answer (n : Nat)

namespace WifiMacQueueState

def start (s : WifiMacQueueState) : Option Nat := s.m_packets.head?.map QueueNode.it

def nodeAt (s : WifiMacQueueState) (pos : Option Nat) : Option QueueNode :=
  pos.bind fun pos => s.m_packets.find? fun n => n.it = pos

def getNPacketsOf (s : WifiMacQueueState) (addressTidPair : Mac48Address × UInt8) : Nat :=
  match s.m_nQueuedPackets addressTidPair with
  | none => 0
  | some nPackets => nPackets

def getNBytesOf (s : WifiMacQueueState) (addressTidPair : Mac48Address × UInt8) : Nat :=
  match s.m_nQueuedBytes addressTidPair with
  | none => 0
  | some nBytes => nBytes

/-! ## `Queue` -/

def insertBefore (l : List QueueNode) (pos : Option Nat) (n : QueueNode) : List QueueNode :=
  match pos with
  | none => l ++ [n]
  | some pos => (l.takeWhile fun m => m.it ≠ pos) ++ n :: (l.dropWhile fun m => m.it ≠ pos)

/-- `Queue::DoDequeue` and `Queue::DoRemove`, which differ in what they trace. -/
def queueTake (s : WifiMacQueueState) (pos : Option Nat) : Option (WifiMacQueueState × Option Nat) :=
  if s.m_nPackets = 0 then some (s, none)
  else
    (s.nodeAt pos).bind fun n =>
      let size := (s.items n.item).getSize
      if size ≤ s.m_nBytes then
        some ({ s with
          m_packets := s.m_packets.eraseP fun m => m.it = n.it
          m_nBytes := s.m_nBytes - size
          m_nPackets := s.m_nPackets - 1 }, some n.item)
      else none

/-- `Queue::DoEnqueue`, and the node of the new item unless the queue is full. -/
def queueDoEnqueue (s : WifiMacQueueState) (m_maxSize : Nat) (pos : Option Nat) (item : Nat) :
    Option (WifiMacQueueState × Option Nat) :=
  if uint32 (s.m_nPackets + 1 : Nat) > m_maxSize then some (s, none)
  else if pos = none ∨ (s.nodeAt pos).isSome then
    some ({ s with
      m_packets := insertBefore s.m_packets pos ⟨s.nextIt, item⟩
      nextIt := s.nextIt + 1
      m_nBytes := uint32 (s.m_nBytes + (s.items item).getSize : Nat)
      m_nPackets := uint32 (s.m_nPackets + 1 : Nat) }, some s.nextIt)
  else none

/-! ## Counters and marks -/

/-- What follows in the queue's own `DoDequeue` and `DoRemove`. -/
def unqueue (s : WifiMacQueueState) (item : Nat) : Option WifiMacQueueState :=
  let data := s.items item
  (if data.isQosData then
    (s.m_nQueuedPackets data.addressTidPair).bind fun nPackets =>
      let nBytes := s.getNBytesOf data.addressTidPair
      if 1 ≤ nPackets ∧ data.getSize ≤ nBytes then
        some { s with
          m_nQueuedPackets := Function.update s.m_nQueuedPackets data.addressTidPair (some (nPackets - 1))
          m_nQueuedBytes := Function.update s.m_nQueuedBytes data.addressTidPair (some (nBytes - data.getSize)) }
      else none
  else some s).bind fun s =>
    if data.isQueued then some { s with items := Function.update s.items item { data with m_queueAc := .AC_UNDEF } } else none

def countersOf (s : WifiMacQueueState) (addressTidPair : Mac48Address × UInt8) : Nat × Nat :=
  match s.m_nQueuedPackets addressTidPair with
  | none => (0, 0)
  | some nPackets => (nPackets, s.getNBytesOf addressTidPair)

/-- The counters after a frame was put in. -/
def countEnqueued (s : WifiMacQueueState) (data : WifiMacQueueItem) : WifiMacQueueState :=
  if data.isQosData then
    let counters := s.countersOf data.addressTidPair
    { s with
      m_nQueuedPackets := Function.update s.m_nQueuedPackets data.addressTidPair (some (uint32 (counters.1 + 1 : Nat)))
      m_nQueuedBytes := Function.update s.m_nQueuedBytes data.addressTidPair (some (uint32 (counters.2 + data.getSize : Nat))) }
  else s

/-- What follows in the queue's own `DoEnqueue`. -/
def enqueued (s : WifiMacQueueState) (m_ac : AcIndex) (item ret : Nat) : WifiMacQueueState :=
  { s.countEnqueued (s.items item) with
    items := Function.update s.items item { s.items item with m_queueAc := m_ac, m_queueIt := ret } }

end WifiMacQueueState

namespace WifiMacQueue

open WifiMacQueueState QueueOutput

variable (q : WifiMacQueue)

/-- Has a frame been in the queue for too long? -/
def isExpired (s : WifiMacQueueState) (item : Nat) : Bool := s.now > (s.items item).m_tstamp + q.m_maxDelay

def doRemove (s : WifiMacQueueState) (pos : Option Nat) : Option (WifiMacQueueState × Option Nat) :=
  (s.queueTake pos).bind fun
    | (s, none) => some (s, none)
    | (s, some item) => (s.unqueue item).map fun s => (s, some item)

def ttlExceeded (s : WifiMacQueueState) (n : QueueNode) : Option (WifiMacQueueState × Bool × List QueueOutput) :=
  if q.isExpired s n.item then (doRemove s n.it).map fun (s, item) => (s, true, item.toList.map expired)
  else some (s, false, [])

def doDequeue (s : WifiMacQueueState) (pos : Option Nat) : Option (WifiMacQueueState × List QueueOutput) :=
  (s.nodeAt pos).bind fun n =>
    (q.ttlExceeded s n).bind fun (s, exceeded, out) =>
      if exceeded then some (s, out)
      else
        (s.queueTake pos).bind fun
          | (s, none) => some (s, [])
          | (s, some item) => (s.unqueue item).map fun s => (s, [dequeued item])

def doEnqueue (s : WifiMacQueueState) (pos : Option Nat) (item : Nat) : Option (WifiMacQueueState × List QueueOutput) :=
  (s.queueDoEnqueue q.m_maxSize pos item).map fun
    | (s, none) => (s, [droppedBeforeEnqueue item])
    | (s, some ret) => (s.enqueued q.m_ac item ret, [.enqueued item])

/-! ## Calls -/

/-- The first expired node is removed; a position that was there moves to the next node. -/
def removeStale (pos : Option Nat) : List QueueNode → WifiMacQueueState →
    Option (Option (WifiMacQueueState × List QueueOutput × Option Nat))
  | [], _ => some none
  | n :: rest, s =>
    (q.ttlExceeded s n).bind fun (s, exceeded, out) =>
      if exceeded then some (some (s, out, if pos = some n.it then rest.head?.map QueueNode.it else pos))
      else removeStale pos rest s

def insert (s : WifiMacQueueState) (pos : Option Nat) (item : Nat) : Option (WifiMacQueueState × List QueueOutput) :=
  if s.m_nPackets < q.m_maxSize then q.doEnqueue s pos item
  else
    (q.removeStale pos s.m_packets s).bind fun
      | some (s, out, pos) => (q.doEnqueue s pos item).map fun (s, out') => (s, out ++ out')
      | none =>
        match q.m_dropPolicy with
        | .DROP_OLDEST =>
          (doRemove s s.start).bind fun (s', oldest) =>
            let pos := if pos = s.start then s'.start else pos
            (q.doEnqueue s' pos item).map fun (s, out) => (s, oldest.toList.map removed ++ out)
        | .DROP_NEWEST => q.doEnqueue s pos item

/-- The loops over the queue: expired nodes are removed, other ones passed, up to one that is looked for. -/
def walk (wanted : WifiMacQueueItem → Bool) : List QueueNode → WifiMacQueueState →
    Option (WifiMacQueueState × List QueueOutput × List QueueNode × Option QueueNode)
  | [], s => some (s, [], [], none)
  | n :: rest, s =>
    (q.ttlExceeded s n).bind fun (s, exceeded, out) =>
      if exceeded then (walk wanted rest s).map fun (s, out', passed, found) => (s, out ++ out', passed, found)
      else if wanted (s.items n.item) then some (s, [], [], some n)
      else (walk wanted rest s).map fun (s, out', passed, found) => (s, out', n :: passed, found)

def dequeue (s : WifiMacQueueState) : Option (WifiMacQueueState × List QueueOutput) :=
  (q.walk (fun _ => true) s.m_packets s).bind fun
    | (s, out, _, none) => some (s, out)
    | (s, out, _, some n) => (q.doDequeue s n.it).map fun (s, out') => (s, out ++ out')

def dequeueIfQueued (s : WifiMacQueueState) (mpdu : Nat) : Option (WifiMacQueueState × List QueueOutput) :=
  let data := s.items mpdu
  if data.isQueued then
    if data.m_queueAc = q.m_ac ∧ (s.nodeAt data.m_queueIt).map QueueNode.item = some mpdu then q.doDequeue s data.m_queueIt
    else none
  else some (s, [])

def remove (s : WifiMacQueueState) : Option (WifiMacQueueState × List QueueOutput) :=
  (q.walk (fun _ => true) s.m_packets s).bind fun
    | (s, out, _, none) => some (s, out)
    | (s, out, _, some n) => (doRemove s n.it).map fun (s, item) => (s, out ++ item.toList.map removed)

def removePacket (s : WifiMacQueueState) (packet : Nat) : Option (WifiMacQueueState × List QueueOutput) :=
  (q.walk (fun item => item.m_packet = packet) s.m_packets s).bind fun
    | (s, out, _, none) => some (s, out ++ [answer 0])
    | (s, out, _, some n) => (doRemove s n.it).map fun (s, item) => (s, out ++ item.toList.map removed ++ [answer 1])

/-- Expired nodes up to a position, and the node at it. -/
def removeUpTo (pos : Nat) : List QueueNode → WifiMacQueueState → Option (WifiMacQueueState × List QueueOutput)
  | [], s => some (s, [])
  | n :: rest, s =>
    if n.it = pos then (doRemove s pos).map fun (s, item) => (s, item.toList.map removed)
    else
      (q.ttlExceeded s n).bind fun (s, _, out) => (removeUpTo pos rest s).map fun (s, out') => (s, out ++ out')

def removeAt (s : WifiMacQueueState) (pos : Nat) (removeExpired : Bool) : Option (WifiMacQueueState × List QueueOutput) :=
  if removeExpired then q.removeUpTo pos s.m_packets s
  else (doRemove s pos).map fun (s, item) => (s, item.toList.map removed)

def countFrames (s : WifiMacQueueState) (counted : WifiMacQueueItem → Bool) : Option (WifiMacQueueState × List QueueOutput) :=
  (q.walk (fun _ => false) s.m_packets s).map fun (s, out, passed, _) =>
    (s, out ++ [answer (uint32 (passed.countP fun n => counted (s.items n.item)))])

def getNPacketsByAddress (s : WifiMacQueueState) (dest : Mac48Address) : Option (WifiMacQueueState × List QueueOutput) :=
  q.countFrames s fun item => item.isData ∧ item.addr1 = dest

def getNPacketsByTidAndAddress (s : WifiMacQueueState) (tid : UInt8) (dest : Mac48Address) :
    Option (WifiMacQueueState × List QueueOutput) :=
  q.countFrames s fun item => item.isQosData ∧ item.addr1 = dest ∧ item.qosTid = tid

def isEmpty (s : WifiMacQueueState) : Option (WifiMacQueueState × List QueueOutput) :=
  (q.walk (fun _ => true) s.m_packets s).map fun (s, out, _, found) => (s, out ++ [answer (if found.isNone then 1 else 0)])

def getNPackets (s : WifiMacQueueState) : Option (WifiMacQueueState × List QueueOutput) :=
  (q.walk (fun _ => false) s.m_packets s).map fun (s, out, _, _) => (s, out ++ [answer s.m_nPackets])

def getNBytes (s : WifiMacQueueState) : Option (WifiMacQueueState × List QueueOutput) :=
  (q.walk (fun _ => false) s.m_packets s).map fun (s, out, _, _) => (s, out ++ [answer s.m_nBytes])

/-! ## Peeking -/

def peek (s : WifiMacQueueState) : List QueueOutput :=
  match s.m_packets.find? fun n => !q.isExpired s n.item with
  | some n => if s.m_nPackets = 0 then [] else [peeked n.item]
  | none => []

/-- Where a search starts; `EMPTY` is none of the positions. -/
def searched (s : WifiMacQueueState) (pos : Option (Option Nat)) : Option (List QueueNode) :=
  match pos with
  | none => some s.m_packets
  | some none => some []
  | some (some pos) => (s.nodeAt pos).map fun n => s.m_packets.dropWhile fun m => m ≠ n

def peekFrom (s : WifiMacQueueState) (pos : Option (Option Nat)) (wanted : WifiMacQueueItem → Bool) :
    Option (WifiMacQueueState × List QueueOutput) :=
  (searched s pos).map fun nodes =>
    match nodes.find? fun n => !q.isExpired s n.item && wanted (s.items n.item) with
    | some n => (s, [peeked n.item])
    | none => (s, [])

def peekByAddress (s : WifiMacQueueState) (dest : Mac48Address) (pos : Option (Option Nat)) :
    Option (WifiMacQueueState × List QueueOutput) :=
  q.peekFrom s pos fun item => (item.isData || item.isQosData) && item.addr1 = dest

def peekByTid (s : WifiMacQueueState) (tid : UInt8) (pos : Option (Option Nat)) :
    Option (WifiMacQueueState × List QueueOutput) :=
  q.peekFrom s pos fun item => item.isQosData && item.qosTid = tid

def peekByTidAndAddress (s : WifiMacQueueState) (tid : UInt8) (dest : Mac48Address) (pos : Option (Option Nat)) :
    Option (WifiMacQueueState × List QueueOutput) :=
  q.peekFrom s pos fun item => item.isQosData && item.addr1 = dest && item.qosTid = tid

/-- The pairs that wait for a block ack response may be given. -/
def peekFirstAvailable (s : WifiMacQueueState) (blockedPackets : Option (List (Mac48Address × UInt8)))
    (pos : Option (Option Nat)) : Option (WifiMacQueueState × List QueueOutput) :=
  q.peekFrom s pos fun item => !item.isQosData ||
    match blockedPackets with
    | none => true
    | some blocked => !decide (item.addressTidPair ∈ blocked)

end WifiMacQueue

inductive WifiMacQueueEvent where
  | elapse (time : Nat)
  /-- A frame is made, or one that is not queued is changed. -/
  | assign (item : Nat) (data : WifiMacQueueItem)
  | enqueue (item : Nat)
  | pushFront (item : Nat)
  | insert (pos : Option Nat) (item : Nat)
  | dequeue
  | dequeueIfQueued (mpdu : Nat)
  | peek
  | peekByAddress (dest : Mac48Address) (pos : Option (Option Nat))
  | peekByTid (tid : UInt8) (pos : Option (Option Nat))
  | peekByTidAndAddress (tid : UInt8) (dest : Mac48Address) (pos : Option (Option Nat))
  | peekFirstAvailable (blockedPackets : Option (List (Mac48Address × UInt8))) (pos : Option (Option Nat))
  | remove
  | removePacket (packet : Nat)
  | removeAt (pos : Nat) (removeExpired : Bool)
  | getNPacketsByAddress (dest : Mac48Address)
  | getNPacketsByTidAndAddress (tid : UInt8) (dest : Mac48Address)
  | isEmpty
  | getNPackets
  | getNBytes
  | getNPacketsOf (tid : UInt8) (dest : Mac48Address)
  | getNBytesOf (tid : UInt8) (dest : Mac48Address)

namespace WifiMacQueue

def step (q : WifiMacQueue) (s : WifiMacQueueState) : WifiMacQueueEvent → Option (WifiMacQueueState × List QueueOutput)
  | .elapse time => some ({ s with now := s.now + time }, [])
  | .assign item data =>
    let old := s.items item
    some ({ s with
      items := Function.update s.items item { data with m_queueAc := old.m_queueAc, m_queueIt := old.m_queueIt } }, [])
  | .enqueue item => q.insert s none item
  | .pushFront item => q.insert s s.start item
  | .insert pos item => q.insert s pos item
  | .dequeue => q.dequeue s
  | .dequeueIfQueued mpdu => q.dequeueIfQueued s mpdu
  | .peek => some (s, q.peek s)
  | .peekByAddress dest pos => q.peekByAddress s dest pos
  | .peekByTid tid pos => q.peekByTid s tid pos
  | .peekByTidAndAddress tid dest pos => q.peekByTidAndAddress s tid dest pos
  | .peekFirstAvailable blockedPackets pos => q.peekFirstAvailable s blockedPackets pos
  | .remove => q.remove s
  | .removePacket packet => q.removePacket s packet
  | .removeAt pos removeExpired => q.removeAt s pos removeExpired
  | .getNPacketsByAddress dest => q.getNPacketsByAddress s dest
  | .getNPacketsByTidAndAddress tid dest => q.getNPacketsByTidAndAddress s tid dest
  | .isEmpty => q.isEmpty s
  | .getNPackets => q.getNPackets s
  | .getNBytes => q.getNBytes s
  | .getNPacketsOf tid dest => some (s, [.answer (s.getNPacketsOf (dest, tid))])
  | .getNBytesOf tid dest => some (s, [.answer (s.getNBytesOf (dest, tid))])

def machine (q : WifiMacQueue) : Machine WifiMacQueueState WifiMacQueueEvent QueueOutput := ⟨q.step⟩

end WifiMacQueue

end Ns3
