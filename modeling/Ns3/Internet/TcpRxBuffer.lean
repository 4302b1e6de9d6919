import Ns3.Lib.Machine
import Ns3.Internet.SequenceNumber32
import Ns3.Rlc.RlcHeader

/-!
# `TcpRxBuffer`

The receive buffer of a TCP socket: the segments received and not extracted
yet, without overlap, and the blocks to report above the next expected byte.

`m_data` is a `std::map` ordered by the comparison of sequence numbers; it is
kept as the list of its entries in that order, and a new key is put where the
comparison puts it among the others. A failed assertion and the first entry of
an empty map leave no successor.
-/

namespace Ns3

abbrev SackBlock := SequenceNumber32 × SequenceNumber32

structure TcpRxBuffer where
  nextRxSeq : SequenceNumber32
  finSeq : SequenceNumber32 := ⟨0⟩
  gotFin : Bool := false
  size : Nat := 0
  maxBuffer : Nat := 32768
  availBytes : Nat := 0
  data : List (SequenceNumber32 × Bytes) := []
  sackList : List SackBlock := []
  deriving DecidableEq

inductive TcpRxEvent where
  | add (p : Bytes) (seq : SequenceNumber32)
  | setFinSequence (s : SequenceNumber32)
  | extract (maxSize : Nat)

namespace TcpRxBuffer

def setFinSequence (b : TcpRxBuffer) (s : SequenceNumber32) : TcpRxBuffer :=
  { b with gotFin := true, finSeq := s, nextRxSeq := if b.nextRxSeq = s then s.add 1 else b.nextRxSeq }

def finished (b : TcpRxBuffer) : Bool := b.gotFin && b.finSeq.lt b.nextRxSeq

/-- `MaxRxSequence` as long as there is no FIN. -/
def windowEnd (b : TcpRxBuffer) : SequenceNumber32 :=
  match b.data with
  | [] => b.nextRxSeq.add b.maxBuffer
  | (first, _) :: _ => if b.nextRxSeq.gt first then first.add b.maxBuffer else b.nextRxSeq.add b.maxBuffer

def maxRxSequence (b : TcpRxBuffer) : SequenceNumber32 := if b.gotFin then b.finSeq else b.windowEnd

/-! ## Entries -/

/-- `m_data [key] = p`. -/
def store (key : SequenceNumber32) (p : Bytes) : List (SequenceNumber32 × Bytes) → List (SequenceNumber32 × Bytes)
  | [] => [(key, p)]
  | e :: l =>
    if key.lt e.1 then (key, p) :: e :: l
    else if e.1.lt key then e :: store key p l
    else (e.1, p) :: l

/-- `m_data.find (key) != m_data.end ()`. -/
def present (key : SequenceNumber32) (data : List (SequenceNumber32 × Bytes)) : Bool :=
  data.any fun e => !key.lt e.1 && !e.1.lt key

/-- What is left of a new segment, and the entries it does not swallow. -/
structure Trim where
  headSeq : SequenceNumber32
  tailSeq : SequenceNumber32
  size : Nat
  data : List (SequenceNumber32 × Bytes)

def Trim.cons (e : SequenceNumber32 × Bytes) (t : Trim) : Trim := { t with data := e :: t.data }

/-- The loop of `Add` that removes the overlapped bytes. -/
def trim (headSeq tailSeq : SequenceNumber32) (size : Nat) : List (SequenceNumber32 × Bytes) → Trim
  | [] => ⟨headSeq, tailSeq, size, []⟩
  | e :: rest =>
    if e.1.le tailSeq then
      let lastByteSeq := e.1.add e.2.length
      if lastByteSeq.gt headSeq then
        if e.1.gt headSeq && lastByteSeq.lt tailSeq then trim headSeq tailSeq (uint32 (size - e.2.length)) rest
        else
          (trim (if e.1.le headSeq then lastByteSeq else headSeq) (if lastByteSeq.ge tailSeq then e.1 else tailSeq)
            size rest).cons e
      else (trim headSeq tailSeq size rest).cons e
    else ⟨headSeq, tailSeq, size, e :: rest⟩

/-! ## The blocks to report -/

/-- The first block that adjoins `begin`, merged with it, and the other blocks. -/
def mergeBlock (begin : SackBlock) : List SackBlock → Option (Option (SackBlock × List SackBlock))
  | [] => some none
  | current :: rest =>
    if begin.1 = current.2 then
      if current.1.lt begin.2 then some (some ((current.1, begin.2), rest)) else none
    else if begin.2 = current.1 then
      if begin.1.lt current.2 then some (some ((begin.1, current.2), rest)) else none
    else (mergeBlock begin rest).map fun r => r.map fun m => (m.1, current :: m.2)

/-- The loop of `UpdateSackList`, which starts over after every merge. -/
def mergeBlocks : Nat → SackBlock → List SackBlock → Option (List SackBlock)
  | 0, begin, list => some (begin :: list)
  | rounds + 1, begin, list =>
    (mergeBlock begin list).bind fun r =>
      match r with
      | none => some (begin :: list)
      | some (merged, rest) => mergeBlocks rounds merged rest

def updateSackList (b : TcpRxBuffer) (head tail : SequenceNumber32) : Option TcpRxBuffer :=
  if head.gt b.nextRxSeq then
    (mergeBlocks b.sackList.length (head, tail) b.sackList).map fun list =>
      { b with sackList := if 4 < list.length then list.dropLast else list }
  else none

def clearSackList (seq : SequenceNumber32) (list : List SackBlock) : Option (List SackBlock) :=
  if list.all fun block => block.1.lt block.2 then some (list.filter fun block => !block.2.le seq) else none

/-! ## `Add` and `Extract` -/

/-- The loop of `Add` that moves `m_nextRxSeq` over the data now in order. -/
def advance : List (SequenceNumber32 × Bytes) → TcpRxBuffer → Option TcpRxBuffer
  | [], b => some b
  | e :: rest, b =>
    if e.1.lt b.nextRxSeq then advance rest b
    else if e.1.gt b.nextRxSeq then some b
    else
      let next := e.1.add e.2.length
      (clearSackList next b.sackList).bind fun list =>
        advance rest
          { b with nextRxSeq := next, availBytes := uint32 (b.availBytes + e.2.length), sackList := list }

/-- The bounds of a new segment within the receive window. -/
def fit (b : TcpRxBuffer) (seq tailSeq : SequenceNumber32) : SequenceNumber32 × SequenceNumber32 :=
  let headSeq := if seq.lt b.nextRxSeq then b.nextRxSeq else seq
  match b.data with
  | [] => (headSeq, tailSeq)
  | (first, _) :: _ =>
    let maxSeq := first.add b.maxBuffer
    let tailSeq := if maxSeq.lt tailSeq then maxSeq else tailSeq
    (if tailSeq.lt headSeq then tailSeq else headSeq, tailSeq)

/-- `Add` once it is known what to store. -/
def insert (b : TcpRxBuffer) (headSeq tailSeq : SequenceNumber32) (p : Bytes) : Option TcpRxBuffer :=
  if present headSeq b.data then none
  else
    let b := { b with data := store headSeq p b.data }
    (if headSeq.gt b.nextRxSeq then b.updateSackList headSeq tailSeq else some b).bind fun b =>
      (advance b.data { b with size := uint32 (b.size + p.length) }).map fun b =>
        if b.gotFin && b.nextRxSeq == b.finSeq then { b with nextRxSeq := b.nextRxSeq.add 1 } else b

def add (b : TcpRxBuffer) (p : Bytes) (seq : SequenceNumber32) : Option (TcpRxBuffer × Bool) :=
  let bounds := b.fit seq (seq.add p.length)
  let t := trim bounds.1 bounds.2 b.size b.data
  let b := { b with data := t.data, size := t.size }
  if t.headSeq.ge t.tailSeq then some (b, false)
  else
    let length := t.tailSeq.diff t.headSeq
    let fragment := (p.drop (t.headSeq.diff seq)).take length
    if length = fragment.length then (b.insert t.headSeq t.tailSeq fragment).map fun b => (b, true) else none

def extractLoop (nextRxSeq : SequenceNumber32) : List (SequenceNumber32 × Bytes) → Nat →
    Option (List (SequenceNumber32 × Bytes) × Bytes)
  | data, 0 => some (data, [])
  | [], _ + 1 => none
  | e :: rest, extractSize + 1 =>
    if e.1.le nextRxSeq then
      if e.2.length ≤ extractSize + 1 then
        (extractLoop nextRxSeq rest (extractSize + 1 - e.2.length)).map fun r => (r.1, e.2 ++ r.2)
      else
        some ((store (e.1.add (extractSize + 1)) (e.2.drop (extractSize + 1)) (e :: rest)).eraseP (·.1 = e.1),
          e.2.take (extractSize + 1))
    else none

/-- The packet is null when there is nothing to extract. -/
def extract (b : TcpRxBuffer) (maxSize : Nat) : Option (TcpRxBuffer × Option Bytes) :=
  let extractSize := min maxSize b.availBytes
  if extractSize = 0 then some (b, none)
  else
    (extractLoop b.nextRxSeq b.data extractSize).map fun r =>
      ({ b with
        data := r.1
        size := uint32 (b.size - extractSize)
        availBytes := uint32 (b.availBytes - extractSize) }, if r.2 = [] then none else some r.2)

end TcpRxBuffer

end Ns3
