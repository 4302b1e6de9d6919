import Ns3.Core.Scheduler

/-!
# `CalendarScheduler`

The events are spread over buckets by their time, a bucket for each `width`
time units, round and round; each bucket is in order. A cursor stands at the
bucket of the last event removed, and the search for the next one goes round
once from there. The number of buckets follows the number of events, and with
it the width is chosen anew.
-/

namespace Ns3

/-- `m_reverse` stands for the three functions that `SetReverse` chooses. -/
structure CalendarScheduler where
  reverse : Bool
  buckets : List (List Event)
  nBuckets : Nat
  width : Nat
  lastBucket : Nat
  bucketTop : Nat
  lastPrio : Nat
  qSize : Nat

namespace CalendarScheduler

def wrap (x : Nat) : Nat := x % 2 ^ 64

/-! ## What `SetReverse` chooses -/

def gt (a b : EventKey) : Bool :=
  if a.ts > b.ts then true
  else if a.ts = b.ts ∧ a.uid > b.uid then true
  else false

def nextEvent (reverse : Bool) (bucket : List Event) : Option Event :=
  if reverse then bucket.getLast? else bucket.head?

def order (reverse : Bool) (a b : EventKey) : Bool := if reverse then gt a b else a.lt b

def pop (reverse : Bool) (bucket : List Event) : List Event :=
  if reverse then bucket.dropLast else bucket.tail

/-! ## Buckets -/

def hash (s : CalendarScheduler) (ts : Nat) : Nat := (ts / s.width) % s.nBuckets

/-- The end of the bucket that starts at or before `prio`. -/
def topOf (width prio : Nat) : Nat := wrap ((prio / width + 1) * width)

def init (s : CalendarScheduler) (nBuckets width startPrio : Nat) : CalendarScheduler :=
  { s with
    buckets := List.replicate nBuckets []
    nBuckets := nBuckets
    width := width
    lastPrio := startPrio
    lastBucket := (startPrio / width) % nBuckets
    bucketTop := topOf width startPrio }

def new (reverse : Bool) : CalendarScheduler :=
  init ⟨reverse, [], 0, 0, 0, 0, 0, 0⟩ 2 1 0

def insertInBucket (reverse : Bool) (ev : Event) : List Event → List Event
  | [] => [ev]
  | i :: bucket => if order reverse ev.key i.key then ev :: i :: bucket else i :: insertInBucket reverse ev bucket

def doInsert (s : CalendarScheduler) (ev : Event) : Option CalendarScheduler := do
  let bucket ← s.buckets[s.hash ev.key.ts]?
  some { s with buckets := s.buckets.set (s.hash ev.key.ts) (insertInBucket s.reverse ev bucket) }

def isEmpty (s : CalendarScheduler) : Bool := s.qSize = 0

/-! ## The search for the next event -/

/-- How the loop of `PeekNext` and `DoRemoveNext` ends: at an event of the
bucket's own time, or with the least of the events seen and its bucket. -/
inductive Search where
  | hit (bucket bucketTop : Nat) (next : Event)
  | least (minEvent : Option (Nat × Event))

/-- The loop, with at most as many rounds as its first argument. The key that
`minKey` starts with stands for no event. -/
def search (s : CalendarScheduler) : Nat → Nat → Nat → EventKey → Option (Nat × Event) → Option Search
  | 0, _, _, _, _ => none
  | rounds + 1, i, bucketTop, minKey, minEvent => do
    let goOn := fun (minKey : EventKey) (minEvent : Option (Nat × Event)) =>
      let i := (i + 1) % s.nBuckets
      if i ≠ s.lastBucket then search s rounds i (wrap (bucketTop + s.width)) minKey minEvent
      else some (.least minEvent)
    match nextEvent s.reverse (← s.buckets[i]?) with
    | none => goOn minKey minEvent
    | some next =>
      if next.key.ts < bucketTop then some (.hit i bucketTop next)
      else if next.key.lt minKey then goOn next.key (some (i, next))
      else goOn minKey minEvent

def noEvent : Event := ⟨0, 2 ^ 64 - 1, 2 ^ 32 - 1, 0⟩

def peekNext (s : CalendarScheduler) : Option Event :=
  if s.isEmpty then none
  else
    match s.search s.nBuckets s.lastBucket s.bucketTop noEvent.key none with
    | none => none
    | some (.hit _ _ next) => some next
    | some (.least none) => some noEvent
    | some (.least (some (_, minEvent))) => some minEvent

def noKey : EventKey := ⟨2 ^ 64 - 1, 0, 2 ^ 32 - 1⟩

def popBucket (s : CalendarScheduler) (i : Nat) : CalendarScheduler :=
  { s with buckets := s.buckets.modify i (pop s.reverse) }

/-- Without an event found, `minBucket` is still -1. -/
def doRemoveNext (s : CalendarScheduler) : Option (CalendarScheduler × Event) :=
  if s.isEmpty then none
  else
    match s.search s.nBuckets s.lastBucket s.bucketTop noKey none with
    | none => none
    | some (.hit i bucketTop next) =>
      some (popBucket { s with lastBucket := i, lastPrio := next.key.ts, bucketTop := bucketTop } i, next)
    | some (.least none) => none
    | some (.least (some (minBucket, minEvent))) =>
      some (popBucket { s with
        lastPrio := minEvent.key.ts
        lastBucket := s.hash minEvent.key.ts
        bucketTop := topOf s.width minEvent.key.ts } minBucket, minEvent)

/-! ## Resizing -/

def insertAll : List Event → CalendarScheduler → Option CalendarScheduler
  | [], s => some s
  | ev :: evs, s => do insertAll evs (← s.doInsert ev)

def gather : Nat → CalendarScheduler → Option (CalendarScheduler × List Event)
  | 0, s => some (s, [])
  | k + 1, s => do
    let (s, ev) ← s.doRemoveNext
    let (s, samples) ← gather k s
    some (s, ev :: samples)

/-- The time from each sample to the next, as far as it is at most `bound`, added up. -/
def separation (bound : Nat) : Nat → List Event → Nat
  | total, cur :: next :: samples =>
    let diff := wrap (next.key.ts + 2 ^ 64 - cur.key.ts)
    separation bound (if diff ≤ bound then wrap (total + diff) else total) (next :: samples)
  | total, _ => total

def nSamples (qSize : Nat) : Nat :=
  let n := if qSize ≤ 5 then qSize else 5 + qSize / 10
  if n > 25 then 25 else n

/-- In the first loop over the samples every difference counts. -/
def widthOf (nSamples : Nat) (samples : List Event) : Nat :=
  let twiceAvg := wrap (separation (2 ^ 64 - 1) 0 samples / (nSamples - 1) * 2)
  max (wrap (separation twiceAvg 0 samples * 3)) 1

def calculateNewWidth (s : CalendarScheduler) : Option (CalendarScheduler × Nat) :=
  if s.qSize < 2 then some (s, 1)
  else do
    let (s₁, samples) ← gather (nSamples s.qSize) s
    let s₂ ← insertAll samples s₁
    some ({ s₂ with lastBucket := s.lastBucket, bucketTop := s.bucketTop, lastPrio := s.lastPrio },
      widthOf (nSamples s.qSize) samples)

def doResize (s : CalendarScheduler) (newSize newWidth : Nat) : Option CalendarScheduler :=
  insertAll s.buckets.flatten (s.init newSize newWidth s.lastPrio)

def resize (s : CalendarScheduler) (newSize : Nat) : Option CalendarScheduler := do
  let (s, newWidth) ← s.calculateNewWidth
  s.doResize newSize newWidth

def resizeUp (s : CalendarScheduler) : Option CalendarScheduler :=
  if s.qSize > s.nBuckets * 2 ∧ s.nBuckets < 32768 then s.resize (s.nBuckets * 2) else some s

def resizeDown (s : CalendarScheduler) : Option CalendarScheduler :=
  if s.qSize < s.nBuckets / 2 then s.resize (s.nBuckets / 2) else some s

/-! ## The methods -/

def insert (s : CalendarScheduler) (ev : Event) : Option CalendarScheduler := do
  let s ← s.doInsert ev
  resizeUp { s with qSize := s.qSize + 1 }

def removeNext (s : CalendarScheduler) : Option (CalendarScheduler × Event) :=
  if s.isEmpty then none
  else do
    let (s, ev) ← s.doRemoveNext
    let s ← resizeDown { s with qSize := s.qSize - 1 }
    some (s, ev)

/-- The bucket without its first event of the same uid; that event must have
the same implementation. -/
def eraseUid (ev : Event) : List Event → Option (List Event)
  | [] => none
  | i :: bucket =>
    if i.key.uid = ev.key.uid then if ev.impl = i.impl then some bucket else none
    else (eraseUid ev bucket).map (i :: ·)

def remove (s : CalendarScheduler) (ev : Event) : Option CalendarScheduler :=
  if s.isEmpty then none
  else do
    let bucket ← s.buckets[s.hash ev.key.ts]?
    let bucket ← eraseUid ev bucket
    resizeDown { s with buckets := s.buckets.set (s.hash ev.key.ts) bucket, qSize := s.qSize - 1 }

def scheduler : Scheduler CalendarScheduler := ⟨insert, peekNext, removeNext, remove⟩

def events (s : CalendarScheduler) : List Event := s.buckets.flatten

end CalendarScheduler

end Ns3
