import Ns3.Core.PriorityQueue

/-!
# `DefaultSimulatorImpl`

The simulator over any event list. A run of a simulation is the program's
calls, the loop of `Run` and, between them, the calls of the events invoked, in
any order the program chooses. The program is on the thread of the simulator.
-/

namespace Ns3

/-- `impl` is `none` for a null pointer. -/
structure EventId where
  impl : Option Nat
  ts : Nat
  context : Nat
  uid : Nat
  deriving DecidableEq

def EventId.null : EventId := ⟨none, 0, 0, 0⟩

def Event.id (ev : Event) : EventId := ⟨some ev.impl, ev.key.ts, ev.key.context, ev.key.uid⟩

def EventId.event (id : EventId) (impl : Nat) : Event := ⟨impl, id.ts, id.uid, id.context⟩

structure EventWithContext where
  context : Nat
  timestamp : Int
  event : Nat

structure DefaultSimulatorImpl (σ : Type) where
  events : σ
  stop : Bool
  uid : Nat
  currentUid : Nat
  currentTs : Nat
  currentContext : Nat
  unscheduledEvents : Int
  eventCount : Nat
  destroyEvents : List EventId
  eventsWithContext : List EventWithContext

namespace DefaultSimulatorImpl

variable {σ : Type}

def toInt (x : Int) : Int := x.bmod (2 ^ 32)

def toUint64 (x : Int) : Nat := (x % 2 ^ 64).toNat

/-- `m_uid++`. -/
def nextUid (uid : Nat) : Nat := (uid + 1) % 2 ^ 32

def NO_CONTEXT : Nat := 0xffffffff

def new (events : σ) : DefaultSimulatorImpl σ := ⟨events, false, 4, 0, 0, NO_CONTEXT, 0, 0, [], []⟩

/-- `m_cancel` of an implementation. -/
def isCancelled (impls : List Bool) (impl : Nat) : Bool := impls.getD impl false

section
variable (Q : EventList σ) (m : DefaultSimulatorImpl σ)

/-! ## Scheduling -/

/-- What the functions that schedule an event have in common. -/
def insertEvent (ts context impl : Nat) : Option (DefaultSimulatorImpl σ × Event) :=
  let ev : Event := ⟨impl, ts, m.uid, context⟩
  (Q.insert m.events ev).map fun events =>
    ({ m with events := events, uid := nextUid m.uid, unscheduledEvents := toInt (m.unscheduledEvents + 1) }, ev)

def schedule (delay : Int) (impl : Nat) : Option (DefaultSimulatorImpl σ × Event) :=
  if 0 ≤ delay then m.insertEvent Q (toUint64 (delay + m.currentTs)) m.currentContext impl else none

def scheduleNow (impl : Nat) : Option (DefaultSimulatorImpl σ × Event) :=
  m.insertEvent Q m.currentTs m.currentContext impl

/-- On the thread of the simulator. -/
def scheduleWithContext (context : Nat) (delay : Int) (impl : Nat) : Option (DefaultSimulatorImpl σ × Event) :=
  m.insertEvent Q (toUint64 (delay + m.currentTs)) context impl

def scheduleDestroy (impl : Nat) : DefaultSimulatorImpl σ × EventId :=
  let id : EventId := ⟨some impl, m.currentTs, 0xffffffff, 2⟩
  ({ m with destroyEvents := m.destroyEvents ++ [id], uid := nextUid m.uid }, id)

/-! ## Expiry -/

def isExpired (impls : List Bool) (id : EventId) : Bool :=
  match id.impl with
  | none => true
  | some impl =>
    if id.uid = 2 then
      if isCancelled impls impl then true else !m.destroyEvents.contains id
    else if id.ts < m.currentTs ∨ (id.ts = m.currentTs ∧ id.uid ≤ m.currentUid) ∨ isCancelled impls impl then true
    else false

/-- The implementation is marked, unless the event has expired. -/
def cancel (impls : List Bool) (id : EventId) : List Bool :=
  if m.isExpired impls id then impls
  else
    match id.impl with
    | none => impls
    | some impl => impls.set impl true

def remove (impls : List Bool) (id : EventId) : Option (DefaultSimulatorImpl σ × List Bool × Option Event) :=
  if id.uid = 2 then some ({ m with destroyEvents := m.destroyEvents.erase id }, impls, none)
  else if m.isExpired impls id then some (m, impls, none)
  else
    match id.impl with
    | none => none
    | some impl =>
      (Q.remove m.events (id.event impl)).map fun events =>
        ({ m with events := events, unscheduledEvents := toInt (m.unscheduledEvents - 1) }, impls.set impl true,
          some (id.event impl))

/-! ## The loop -/

def processEventsWithContext : List EventWithContext → DefaultSimulatorImpl σ → Option (DefaultSimulatorImpl σ)
  | [], m => some m
  | event :: eventsWithContext, m => do
    let (m, _) ← m.insertEvent Q (toUint64 (m.currentTs + event.timestamp)) event.context event.event
    processEventsWithContext eventsWithContext m

/-- The queue is taken over first. -/
def processAllEventsWithContext : Option (DefaultSimulatorImpl σ) :=
  processEventsWithContext Q m.eventsWithContext { m with eventsWithContext := [] }

def isFinished : Bool := Q.isEmpty m.events || m.stop

/-- The event taken from the list becomes the current one. -/
def makeCurrent (events : σ) (next : Event) : DefaultSimulatorImpl σ :=
  { m with
    events := events
    unscheduledEvents := toInt (m.unscheduledEvents - 1)
    eventCount := (m.eventCount + 1) % 2 ^ 64
    currentTs := next.key.ts
    currentContext := next.key.context
    currentUid := next.key.uid }

/-- Up to `Invoke`. -/
def processOneEvent : Option (DefaultSimulatorImpl σ × Event) := do
  let (events, next) ← Q.removeNext m.events
  if m.currentTs ≤ next.key.ts then some (m.makeCurrent events next, next) else none

end

end DefaultSimulatorImpl

/-! ## Simulations -/

inductive SimulatorCall where
  | schedule (delay : Int)
  | scheduleNow
  | scheduleWithContext (context : Nat) (delay : Int)
  | scheduleDestroy
  | cancel (id : EventId)
  | remove (id : EventId)
  | stop

/-- The calls come from the main program or from the event invoked. `run` and
`finish` are the start and the end of `Run`; `processOneEvent` is a round of its
loop up to `Invoke`, and `return` what follows when the event returns. -/
inductive SimulatorStep where
  | call (c : SimulatorCall)
  | run
  | processOneEvent
  | return
  | finish

/-- What happens to an event; one that is dequeued is invoked or, cancelled
before, it is not. -/
inductive EventFate where
  | scheduled (ev : Event)
  | dequeued (ev : Event) (invoked : Bool)
  | removed (ev : Event)
  deriving DecidableEq

inductive Phase where
  | idle
  | looping
  | invoking
  deriving DecidableEq

/-- The simulator, the implementations of the events made so far (whether each
is cancelled), and the ids the program was given. -/
structure Simulation (σ : Type) where
  simulator : DefaultSimulatorImpl σ
  impls : List Bool
  ids : List EventId
  phase : Phase

namespace Simulation

open DefaultSimulatorImpl

variable {σ : Type}

def new (events : σ) : Simulation σ := ⟨.new events, [], [], .idle⟩

section
variable (Q : EventList σ) (s : Simulation σ)

/-- A new implementation is made for the event. -/
def scheduled (returned : Bool) (r : Option (DefaultSimulatorImpl σ × Event)) : Option (Simulation σ × List EventFate) :=
  r.map fun (m, ev) =>
    ({ s with
      simulator := m, impls := s.impls ++ [false], ids := if returned then s.ids ++ [ev.id] else s.ids },
      [.scheduled ev])

def call : SimulatorCall → Option (Simulation σ × List EventFate)
  | .schedule delay => s.scheduled true (s.simulator.schedule Q delay s.impls.length)
  | .scheduleNow => s.scheduled true (s.simulator.scheduleNow Q s.impls.length)
  | .scheduleWithContext context delay =>
    s.scheduled false (s.simulator.scheduleWithContext Q context delay s.impls.length)
  | .scheduleDestroy =>
    let (m, id) := s.simulator.scheduleDestroy s.impls.length
    some ({ s with simulator := m, impls := s.impls ++ [false], ids := s.ids ++ [id] }, [])
  | .cancel id => some ({ s with impls := s.simulator.cancel s.impls id }, [])
  | .remove id =>
    (s.simulator.remove Q s.impls id).map fun (m, impls, ev) =>
      ({ s with simulator := m, impls := impls }, ev.toList.map .removed)
  | .stop => some ({ s with simulator := { s.simulator with stop := true } }, [])

/-- A cancelled event has nothing to return from. -/
def step : SimulatorStep → Option (Simulation σ × List EventFate)
  | .call c => s.call Q c
  | .run => do
    let m ← s.simulator.processAllEventsWithContext Q
    some ({ s with simulator := { m with stop := false }, phase := .looping }, [])
  | .processOneEvent => do
    let (m, ev) ← s.simulator.processOneEvent Q
    if isCancelled s.impls ev.impl then
      let m ← m.processAllEventsWithContext Q
      some ({ s with simulator := m }, [.dequeued ev false])
    else some ({ s with simulator := m, phase := .invoking }, [.dequeued ev true])
  | .return => do
    let m ← s.simulator.processAllEventsWithContext Q
    some ({ s with simulator := m, phase := .looping }, [])
  | .finish =>
    if ¬Q.isEmpty s.simulator.events ∨ s.simulator.unscheduledEvents = 0 then some ({ s with phase := .idle }, [])
    else none

def machine : Machine (Simulation σ) SimulatorStep EventFate where
  step := step Q

/-- Room for one more event: fewer than `2 ^ 32 - 4` are ever made. -/
def Room : Prop := s.impls.length + 1 < 2 ^ 32 - 4

/-- Delays are not negative and times stay below `2 ^ 63`; the ids are ones that
were returned, or null. -/
def CallAllowed : SimulatorCall → Prop
  | .schedule delay => s.Room ∧ 0 ≤ delay ∧ delay + s.simulator.currentTs < 2 ^ 63
  | .scheduleNow => s.Room
  | .scheduleWithContext _ delay => s.Room ∧ 0 ≤ delay ∧ delay + s.simulator.currentTs < 2 ^ 63
  | .scheduleDestroy => s.Room
  | .cancel id => id = .null ∨ id ∈ s.ids
  | .remove id => id = .null ∨ id ∈ s.ids
  | .stop => True

/-- The steps the program and the loop can take now. -/
def Allowed : SimulatorStep → Prop
  | .call c => s.phase ≠ .looping ∧ s.CallAllowed c
  | .run => s.phase = .idle
  | .processOneEvent => s.phase = .looping ∧ s.simulator.isFinished Q = false
  | .return => s.phase = .invoking
  | .finish => s.phase = .looping ∧ s.simulator.isFinished Q = true

end

end Simulation

end Ns3
