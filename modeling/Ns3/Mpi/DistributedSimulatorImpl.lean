import Ns3.Core.DefaultSimulatorImpl
import Mathlib.Algebra.BigOperators.Fin
import Mathlib.Data.UInt

/-!
# `DistributedSimulatorImpl`

The ranks of a parallel simulation, each with its own simulator. A rank
executes its events up to a granted time; when its next event is later it takes
in the packets that have come from the other ranks and waits in `MPI_Allgather`
for everybody's next time. The functions that the class shares with
`DefaultSimulatorImpl` read the same.
-/

namespace Ns3

open Machine

/-- `GetMaximumSimulationTime`, which is also `Time::Max`. -/
def maximumSimulationTime : Int := 0x7fffffffffffffff

/-- A point-to-point channel, with the system ids of the nodes of its devices. -/
structure RankChannel (n : Nat) where
  device0 : Fin (n + 1)
  device1 : Fin (n + 1)
  delay : Int
  deriving DecidableEq

/-- `me` is the rank of one device and `remote`, which is another, that of the other. -/
def RankChannel.Between {n : Nat} (c : RankChannel n) (me remote : Fin (n + 1)) : Prop :=
  ((c.device0 = me ∧ c.device1 = remote) ∨ (c.device1 = me ∧ c.device0 = remote)) ∧ me ≠ remote

instance {n : Nat} (c : RankChannel n) (me remote : Fin (n + 1)) : Decidable (c.Between me remote) :=
  inferInstanceAs (Decidable (_ ∧ _))

/-! ## `CalculateLookAhead` -/

section
variable {n : Nat} (channels : List (RankChannel n)) (bound : Fin (n + 1) → Int) (me : Fin (n + 1))

/-- The least delay on a channel to another rank, from the bound that `BoundLookAhead` left. -/
def channelLookAhead : Int :=
  channels.foldl (fun m_lookAhead channel =>
    if (channel.device0 = me ∨ channel.device1 = me) ∧ channel.device0 ≠ channel.device1 ∧ channel.delay < m_lookAhead then
      channel.delay
    else m_lookAhead) (bound me)

def sendbuf : Int :=
  if channelLookAhead channels bound me = maximumSimulationTime then 0 else channelLookAhead channels bound me

/-- `MPI_Allreduce` with `MPI_MAX`. -/
def recvbuf : Int :=
  (List.finRange n).foldl (fun greatest i => max greatest (sendbuf channels bound i.succ)) (sendbuf channels bound 0)

def lookAhead : Int :=
  if n = 0 then 0
  else if channelLookAhead channels bound me = maximumSimulationTime ∧ recvbuf channels bound ≠ 0 then recvbuf channels bound
  else channelLookAhead channels bound me

end

/-! ## Ranks -/

structure LbtsMessage where
  m_rxCount : UInt32
  m_txCount : UInt32
  m_isFinished : Bool
  m_smallestTime : Int

/-- Where a rank is in its loop: between two rounds, taking in packets, or in `MPI_Allgather`. -/
inductive Place where
  | window
  | receiving
  | gathering
  deriving DecidableEq

/-- `round` counts the returns of `MPI_Allgather`. -/
structure RankState (σ : Type) where
  simulation : Simulation σ
  m_grantedTime : Int
  m_globalFinished : Bool
  g_rxCount : UInt32
  g_txCount : UInt32
  place : Place
  round : Nat

namespace RankState

variable {σ : Type} (Q : EventList σ) (r : RankState σ)

def now : Int := r.simulation.simulator.currentTs

def isLocalFinished : Bool := r.simulation.simulator.isFinished Q

def nextTs : Option Int :=
  if r.isLocalFinished Q then some maximumSimulationTime
  else (Q.peekNext r.simulation.simulator.events).map fun ev => (ev.key.ts : Int)

/-- The next event is not within the window, or there is none. -/
def mustSynchronize : Bool := r.isLocalFinished Q || (r.nextTs Q).any fun nextTime => r.m_grantedTime < nextTime

def lbts : Option LbtsMessage :=
  (r.nextTs Q).map fun nextTime => ⟨r.g_rxCount, r.g_txCount, r.isLocalFinished Q, nextTime⟩

/-- The main program of the rank has not called `Run`, or an event is being invoked. -/
def Active : Prop := r.simulation.phase = .invoking ∨ (r.simulation.phase = .idle ∧ r.m_globalFinished = false)

instance : Decidable r.Active := inferInstanceAs (Decidable (_ ∨ _))

def Looping : Prop := r.simulation.phase = .looping ∧ r.place = .window

instance : Decidable r.Looping := inferInstanceAs (Decidable (_ ∧ _))

end RankState

section
variable {n : Nat} (m_pLBTS : Fin (n + 1) → LbtsMessage)

def smallestTime : Int :=
  (List.finRange n).foldl (fun smallest i =>
    if (m_pLBTS i.succ).m_smallestTime < smallest then (m_pLBTS i.succ).m_smallestTime else smallest) (m_pLBTS 0).m_smallestTime

def totRx : UInt32 := ∑ i, (m_pLBTS i).m_rxCount

def totTx : UInt32 := ∑ i, (m_pLBTS i).m_txCount

def globalFinished : Bool :=
  ((List.finRange (n + 1)).all fun i => (m_pLBTS i).m_isFinished) && totRx m_pLBTS == totTx m_pLBTS

/-- The time up to which events may be executed next; the sum is one of 64 bits. -/
def grantedTime (m_lookAhead m_grantedTime : Int) : Int :=
  if totRx m_pLBTS = totTx m_pLBTS then
    if m_lookAhead = maximumSimulationTime then maximumSimulationTime
    else (smallestTime m_pLBTS + m_lookAhead).bmod (2 ^ 64)
  else m_grantedTime

end

/-! ## The parallel simulation -/

structure RankPacket (n : Nat) where
  dest : Fin (n + 1)
  rxTime : Int
  node : Nat

/-- `posted` are the messages of the `MPI_Allgather` that is not complete, and `gathered` what the
complete ones have gathered. -/
structure DistributedSimulation (σ : Type) (n : Nat) where
  ranks : Fin (n + 1) → RankState σ
  inFlight : List (RankPacket n)
  posted : Fin (n + 1) → Option LbtsMessage
  gathered : List (Fin (n + 1) → LbtsMessage)

/-- Steps of a rank. The calls and packets come from its main program before `run`, or from the event
it has invoked; `receive` is a packet that `MPI_Testany` finds. -/
inductive DistributedStep (n : Nat) where
  | call (me : Fin (n + 1)) (c : SimulatorCall)
  | sendPacket (me remote : Fin (n + 1)) (channel : RankChannel n) (txTime : Int) (node : Nat)
  | run (me : Fin (n + 1))
  | processOneEvent (me : Fin (n + 1))
  | return (me : Fin (n + 1))
  | receiveMessages (me : Fin (n + 1))
  | receive (me : Fin (n + 1)) (index : Nat)
  | allgather (me : Fin (n + 1))
  | gathered (me : Fin (n + 1))
  | finish (me : Fin (n + 1))

/-- What a rank does with its events, and the delays after which packets are scheduled. -/
inductive RankFate (n : Nat) where
  | event (me : Fin (n + 1)) (fate : EventFate)
  | arrived (me : Fin (n + 1)) (delay : Int)

namespace DistributedSimulation

variable {σ : Type} {n : Nat}

def new (events : σ) : DistributedSimulation σ n :=
  ⟨fun _ => ⟨.new events, 0, false, 0, 0, .window, 0⟩, [], fun _ => none, []⟩

section
variable (Q : EventList σ) (channels : List (RankChannel n)) (bound : Fin (n + 1) → Int) (s : DistributedSimulation σ n)

def setRank (me : Fin (n + 1)) (r : RankState σ) : DistributedSimulation σ n :=
  { s with ranks := Function.update s.ranks me r }

def inRank (me : Fin (n + 1)) (e : SimulatorStep) : Option (DistributedSimulation σ n × List (RankFate n)) :=
  ((s.ranks me).simulation.step Q e).map fun (simulation, o) =>
    (s.setRank me { s.ranks me with simulation := simulation }, o.map (.event me))

/-- `TransmitStart` of the remote channel and `SendPacket`. -/
def sendPacket (me remote : Fin (n + 1)) (channel : RankChannel n) (txTime : Int) (node : Nat) : DistributedSimulation σ n :=
  let rxTime := (s.ranks me).now + txTime + channel.delay
  { s.setRank me { s.ranks me with g_txCount := (s.ranks me).g_txCount + 1 } with
    inFlight := s.inFlight ++ [⟨remote, rxTime, node⟩] }

def receive (me : Fin (n + 1)) (index : Nat) : Option (DistributedSimulation σ n × List (RankFate n)) := do
  let packet ← s.inFlight[index]?
  let delay := packet.rxTime - (s.ranks me).now
  let (simulation, o) ← (s.ranks me).simulation.call Q (.scheduleWithContext packet.node delay)
  some ({ s.setRank me { s.ranks me with simulation := simulation, g_rxCount := (s.ranks me).g_rxCount + 1 } with
    inFlight := s.inFlight.eraseIdx index }, o.map (.event me) ++ [.arrived me delay])

/-- The messages are exchanged when the last rank has come. -/
def exchange : DistributedSimulation σ n :=
  if h : ∀ i, (s.posted i).isSome then
    { s with posted := fun _ => none, gathered := s.gathered ++ [fun i => (s.posted i).get (h i)] }
  else s

def allgather (me : Fin (n + 1)) : Option (DistributedSimulation σ n) :=
  ((s.ranks me).lbts Q).map fun lMsg =>
    { s.setRank me { s.ranks me with place := .gathering } with posted := Function.update s.posted me (some lMsg) }.exchange

/-- After `MPI_Allgather`. -/
def window (me : Fin (n + 1)) : Option (DistributedSimulation σ n) :=
  s.gathered[(s.ranks me).round]?.map fun m_pLBTS =>
    s.setRank me { s.ranks me with
      m_globalFinished := globalFinished m_pLBTS
      m_grantedTime := grantedTime m_pLBTS (lookAhead channels bound me) (s.ranks me).m_grantedTime
      place := .window
      round := (s.ranks me).round + 1 }

def step : DistributedStep n → Option (DistributedSimulation σ n × List (RankFate n))
  | .call me c => s.inRank Q me (.call c)
  | .sendPacket me remote channel txTime node => some (s.sendPacket me remote channel txTime node, [])
  | .run me => s.setRank me { s.ranks me with m_grantedTime := lookAhead channels bound me } |>.inRank Q me .run
  | .processOneEvent me => s.inRank Q me .processOneEvent
  | .return me => s.inRank Q me .return
  | .receiveMessages me => some (s.setRank me { s.ranks me with place := .receiving }, [])
  | .receive me index => s.receive Q me index
  | .allgather me => (s.allgather Q me).map fun s' => (s', [])
  | .gathered me => (s.window channels bound me).map fun s' => (s', [])
  | .finish me => s.inRank Q me .finish

def machine : Machine (DistributedSimulation σ n) (DistributedStep n) (RankFate n) where
  step := step Q channels bound

/-- The steps that the ranks can take now. Packets go over the channels, their times stay below `2 ^ 63` and fewer
than `2 ^ 32` are on their way at once. -/
def Allowed : DistributedStep n → Prop
  | .call me c => (s.ranks me).Active ∧ (s.ranks me).simulation.CallAllowed c
  | .sendPacket me remote channel txTime _ => (s.ranks me).Active ∧ channel ∈ channels ∧ channel.Between me remote ∧ 0 ≤ txTime ∧
      (s.ranks me).now + txTime + channel.delay < 2 ^ 63
  | .run me => (s.ranks me).simulation.phase = .idle ∧ (s.ranks me).m_globalFinished = false
  | .processOneEvent me => (s.ranks me).Looping ∧ (s.ranks me).m_globalFinished = false ∧ (s.ranks me).mustSynchronize Q = false
  | .return me => (s.ranks me).simulation.phase = .invoking
  | .receiveMessages me => (s.ranks me).Looping ∧ (s.ranks me).m_globalFinished = false ∧ (s.ranks me).mustSynchronize Q = true
  | .receive me index => (s.ranks me).place = .receiving ∧ (s.inFlight[index]?.any fun packet => packet.dest = me) ∧
      (s.ranks me).simulation.Room
  | .allgather me => (s.ranks me).place = .receiving ∧ s.inFlight.length < 2 ^ 32
  | .gathered me => (s.ranks me).place = .gathering ∧ (s.ranks me).round < s.gathered.length
  | .finish me => (s.ranks me).Looping ∧ (s.ranks me).m_globalFinished = true

end

end DistributedSimulation

end Ns3
