import Ns3.Lib.BlockPool
import Ns3.Lib.Handles
import Ns3.Lib.Machine
import Ns3.Network.PacketWire

/-!
# `Buffer`

Buffers share their `Data`, and grow in it where no other buffer is in the
way. Between `m_zeroAreaStart` and `m_zeroAreaEnd` lie zeroes that are counted in
all offsets but not stored. Offsets are natural numbers; while all sizes are
below 2^31 none of the source's is reduced. An access outside of a `Data` and a
failed assertion have no result. New memory holds what `raw` says.

`ByteLists` is what the buffers are for: each is a list of bytes of its own.
-/

namespace Ns3

/-- `Buffer::Data`, without its count and size. -/
structure BufferData where
  dirtyStart : Nat
  dirtyEnd : Nat
  data : Nat → UInt8

structure Buffer where
  data : Nat
  maxZeroAreaStart : Nat
  zeroAreaStart : Nat
  zeroAreaEnd : Nat
  start : Nat
  stop : Nat

/-- The memory of all buffers, and `g_recommendedStart`. -/
structure BufferHeap where
  pool : Pool BufferData := {}
  recommendedStart : Nat := 0

namespace BufferHeap

def FREE_LIST_LIMIT : Nat := 1000

/-- `Buffer::Create`; a new block has at least one byte. -/
def create (raw : Nat → BufferData) (m : BufferHeap) (dataSize : Nat) : Option (BufferHeap × Nat) :=
  (m.pool.create dataSize (max dataSize 1) raw id).map fun r => ({ m with pool := r.1 }, r.2)

def modify (m : BufferHeap) (p : Nat) (f : BufferData → BufferData) : Option BufferHeap :=
  (m.pool.modify p f).map fun pool => { m with pool := pool }

/-- `m_count--`, and `Recycle`. -/
def release (m : BufferHeap) (p : Nat) : Option BufferHeap :=
  (m.pool.release FREE_LIST_LIMIT p).map fun pool => { m with pool := pool }

def retain (m : BufferHeap) (p : Nat) : Option BufferHeap :=
  (m.pool.retain p).map fun pool => { m with pool := pool }

/-- `memcpy` from a block; without bytes, the address may be anywhere. -/
def peek (m : BufferHeap) (p a n : Nat) : Option Bytes :=
  (m.pool.block p).bind fun d => if n = 0 ∨ a + n ≤ d.size then some (load d.body.data a n) else none

def poke (m : BufferHeap) (p a : Nat) (bs : Bytes) : Option BufferHeap :=
  (m.pool.block p).bind fun d =>
    if bs.length = 0 ∨ a + bs.length ≤ d.size then m.modify p fun body => { body with data := patch body.data a bs }
    else none

def setDirty (m : BufferHeap) (p dirtyStart dirtyEnd : Nat) : Option BufferHeap :=
  m.modify p fun body => { body with dirtyStart := dirtyStart, dirtyEnd := dirtyEnd }

end BufferHeap

namespace Buffer

open BufferHeap

def getSize (b : Buffer) : Nat := b.stop - b.start

def getInternalSize (b : Buffer) : Nat := b.zeroAreaStart - b.start + b.stop - b.zeroAreaEnd

def getInternalEnd (b : Buffer) : Nat := b.stop - (b.zeroAreaEnd - b.zeroAreaStart)

/-- The last assignment of most operations. -/
def raiseMax (b : Buffer) : Buffer := { b with maxZeroAreaStart := max b.maxZeroAreaStart b.zeroAreaStart }

/-! ## Iterators -/

structure Iterator where
  zeroStart : Nat
  zeroEnd : Nat
  dataStart : Nat
  dataEnd : Nat
  current : Nat
  data : Nat

def begin (b : Buffer) : Iterator := ⟨b.zeroAreaStart, b.zeroAreaEnd, b.start, b.stop, b.start, b.data⟩

def iterEnd (b : Buffer) : Iterator := ⟨b.zeroAreaStart, b.zeroAreaEnd, b.start, b.stop, b.stop, b.data⟩

namespace Iterator

def next (it : Iterator) (delta : Nat) : Option Iterator :=
  if it.current + delta ≤ it.dataEnd then some { it with current := it.current + delta } else none

def prev (it : Iterator) (delta : Nat) : Option Iterator :=
  if delta ≤ it.current then some { it with current := it.current - delta } else none

def checkNoZero (it : Iterator) (start stop : Nat) : Bool :=
  !(start < it.dataStart || stop > it.dataEnd ||
    (stop > it.zeroStart && start < it.zeroEnd && it.zeroEnd != it.zeroStart && start != stop))

/-- Where a block of bytes at the current position is stored. -/
def target (it : Iterator) : Nat :=
  if it.current ≤ it.zeroStart then it.current else it.current - (it.zeroEnd - it.zeroStart)

/-- `Write (buffer, size)`; the assertion takes the size for an offset. -/
def write (m : BufferHeap) (it : Iterator) (buffer : Bytes) : Option BufferHeap :=
  if it.checkNoZero it.current buffer.length then m.poke it.data it.target buffer else none

def writeU8 (m : BufferHeap) (it : Iterator) (data : UInt8) (len : Nat) : Option BufferHeap :=
  if it.checkNoZero it.current (it.current + len) then m.poke it.data it.target (List.replicate len data) else none

/-- `Write (start, end)`: the bytes before the zero area, the zeroes and the bytes after
it; all go to the current position, whatever lies before it. -/
def writeFrom (m : BufferHeap) (it start stop : Iterator) : Option BufferHeap :=
  if start.data = stop.data ∧ start.current ≤ stop.current ∧ start.zeroStart = stop.zeroStart ∧
      start.zeroEnd = stop.zeroEnd ∧ it.data ≠ start.data ∧
      it.checkNoZero it.current (it.current + (stop.current - start.current)) then
    let size := stop.current - start.current
    let front := if start.current ≤ start.zeroStart then min size (start.zeroStart - start.current) else 0
    let current := start.current + front
    let size := size - front
    let zeroes := if current ≤ start.zeroEnd then min size (start.zeroEnd - current) else 0
    let current := current + zeroes
    let back := min (size - zeroes) (start.dataEnd - current)
    (m.peek start.data start.current front).bind fun before =>
      (m.poke it.data it.current before).bind fun m =>
        (m.poke it.data (it.current + front) (List.replicate zeroes 0)).bind fun m =>
          (m.peek start.data (current - (start.zeroEnd - start.zeroStart)) back).bind fun after =>
            m.poke it.data (it.current + front + zeroes) after
  else none

end Iterator

section
variable (raw : Nat → BufferData)

/-! ## Construction and copies -/

def initialized (m : BufferHeap) (zeroSize : Nat) : Option (BufferHeap × Buffer) :=
  (m.create raw 0).bind fun (m, p) =>
    (m.pool.block p).bind fun d =>
      let start := min d.size m.recommendedStart
      (m.setDirty p start (start + zeroSize)).map fun m => (m, ⟨p, start, start, start + zeroSize, start, start + zeroSize⟩)

end

def copy (m : BufferHeap) (o : Buffer) : Option (BufferHeap × Buffer) :=
  (m.retain o.data).map fun m => (m, { o with maxZeroAreaStart := o.zeroAreaStart })

/-- `operator =`. -/
def assign (m : BufferHeap) (b o : Buffer) : Option (BufferHeap × Buffer) :=
  (if b.data ≠ o.data then (m.release b.data).bind fun m => m.retain o.data else some m).map fun m =>
    ({ m with recommendedStart := max m.recommendedStart b.maxZeroAreaStart }, o)

def destroy (m : BufferHeap) (b : Buffer) : Option BufferHeap :=
  BufferHeap.release { m with recommendedStart := max m.recommendedStart b.maxZeroAreaStart } b.data

/-! ## Removing bytes -/

def removeAtStart (b : Buffer) (start : Nat) : Buffer :=
  let newStart := b.start + start
  if newStart ≤ b.zeroAreaStart then
    -- only the start of the buffer
    raiseMax { b with start := newStart }
  else if newStart ≤ b.zeroAreaEnd then
    -- the start of the buffer and the start of the zero area
    let delta := newStart - b.zeroAreaStart
    raiseMax { b with start := b.zeroAreaStart, zeroAreaEnd := b.zeroAreaEnd - delta, stop := b.stop - delta }
  else if newStart ≤ b.stop then
    -- the start of the buffer, the zero area, and part of the end of the buffer
    let zeroSize := b.zeroAreaEnd - b.zeroAreaStart
    raiseMax { b with start := newStart - zeroSize, stop := b.stop - zeroSize, zeroAreaStart := newStart - zeroSize,
                      zeroAreaEnd := newStart - zeroSize }
  else
    let stop := b.stop - (b.zeroAreaEnd - b.zeroAreaStart)
    raiseMax { b with start := stop, stop := stop, zeroAreaStart := stop, zeroAreaEnd := stop }

def removeAtEnd (b : Buffer) (n : Nat) : Buffer :=
  let newEnd := b.stop - min n (b.stop - b.start)
  if newEnd > b.zeroAreaEnd then raiseMax { b with stop := newEnd }
  else if newEnd > b.zeroAreaStart then raiseMax { b with stop := newEnd, zeroAreaEnd := newEnd }
  else if newEnd > b.start then
    raiseMax { b with stop := newEnd, zeroAreaEnd := newEnd, zeroAreaStart := newEnd }
  else raiseMax { b with stop := b.start, zeroAreaEnd := b.start, zeroAreaStart := b.start }

def createFragment (m : BufferHeap) (b : Buffer) (start length : Nat) : Option (BufferHeap × Buffer) :=
  (copy m b).map fun (m, tmp) => (m, (tmp.removeAtStart start).removeAtEnd (sub32 b.getSize (start + length)))

/-! ## Adding bytes -/

section
variable (raw : Nat → BufferData)

/-- The new `Data` of a buffer that has to move, with its bytes from `offset` on. -/
def relocate (m : BufferHeap) (b : Buffer) (newSize offset : Nat) : Option (BufferHeap × Nat) :=
  (m.create raw newSize).bind fun (m, p) =>
    (m.peek b.data b.start b.getInternalSize).bind fun bytes =>
      (m.poke p offset bytes).bind fun m => (m.release b.data).map fun m => (m, p)

def addAtStart (m : BufferHeap) (b : Buffer) (start : Nat) : Option (BufferHeap × Buffer) :=
  (m.pool.block b.data).bind fun d =>
    let isDirty := d.count > 1 ∧ b.start > d.body.dirtyStart
    if b.start ≥ start ∧ ¬ isDirty then
      if d.count = 1 ∨ b.start = d.body.dirtyStart then
        (m.setDirty b.data (b.start - start) d.body.dirtyEnd).map fun m => (m, raiseMax { b with start := b.start - start })
      else none
    else
      (relocate raw m b (b.getInternalSize + start) start).bind fun (m, p) =>
        let b : Buffer :=
          { b with
            data := p
            start := 0
            zeroAreaStart := b.zeroAreaStart + start - b.start
            zeroAreaEnd := b.zeroAreaEnd + start - b.start
            stop := b.stop + start - b.start }
        (m.setDirty p b.start b.stop).map fun m => (m, b.raiseMax)

def addAtEnd (m : BufferHeap) (b : Buffer) (n : Nat) : Option (BufferHeap × Buffer) :=
  (m.pool.block b.data).bind fun d =>
    let isDirty := d.count > 1 ∧ b.stop < d.body.dirtyEnd
    if b.getInternalEnd + n ≤ d.size ∧ ¬ isDirty then
      if d.count = 1 ∨ b.stop = d.body.dirtyEnd then
        (m.setDirty b.data d.body.dirtyStart (b.stop + n)).map fun m => (m, raiseMax { b with stop := b.stop + n })
      else none
    else
      (relocate raw m b (b.getInternalSize + n) 0).bind fun (m, p) =>
        let b : Buffer :=
          { b with
            data := p
            start := 0
            zeroAreaStart := b.zeroAreaStart - b.start
            zeroAreaEnd := b.zeroAreaEnd - b.start
            stop := b.stop - b.start + n }
        (m.setDirty p b.start b.stop).map fun m => (m, b.raiseMax)

/-- `CreateFullCopy`: a buffer with its zero area written out. -/
def createFullCopy (m : BufferHeap) (b : Buffer) : Option (BufferHeap × Buffer) :=
  if b.zeroAreaEnd - b.zeroAreaStart ≠ 0 then
    (initialized raw m 0).bind fun (m, tmp) =>
      (addAtStart raw m tmp (b.zeroAreaEnd - b.zeroAreaStart)).bind fun (m, tmp) =>
        (tmp.begin.writeU8 m 0 (b.zeroAreaEnd - b.zeroAreaStart)).bind fun m =>
          (addAtStart raw m tmp (b.zeroAreaStart - b.start)).bind fun (m, tmp) =>
            (m.peek b.data b.start (b.zeroAreaStart - b.start)).bind fun before =>
              (tmp.begin.write m before).bind fun m =>
                (addAtEnd raw m tmp (b.stop - b.zeroAreaEnd)).bind fun (m, tmp) =>
                  (tmp.iterEnd.prev (b.stop - b.zeroAreaEnd)).bind fun i =>
                    (m.peek b.data b.zeroAreaStart (b.stop - b.zeroAreaEnd)).bind fun after =>
                      (i.write m after).map fun m => (m, tmp)
  else copy m b

/-- When two zero areas are put together. -/
def mergesZeroes (d : Block BufferData) (b o : Buffer) : Prop :=
  d.count = 1 ∧ (b.stop = b.zeroAreaEnd ∨ b.zeroAreaStart = b.zeroAreaEnd) ∧ b.stop = d.body.dirtyEnd ∧
    o.start = o.zeroAreaStart ∧ o.zeroAreaEnd - o.zeroAreaStart > 0

instance (d : Block BufferData) (b o : Buffer) : Decidable (mergesZeroes d b o) := by
  unfold mergesZeroes
  infer_instance

def addAtEndBuffer (m : BufferHeap) (b o : Buffer) : Option (BufferHeap × Buffer) :=
  (m.pool.block b.data).bind fun d =>
    if mergesZeroes d b o then
      let zeroAreaStart := if b.zeroAreaStart = b.zeroAreaEnd then b.stop else b.zeroAreaStart
      let stop := b.stop + (o.zeroAreaEnd - o.zeroAreaStart)
      let endData := o.stop - o.zeroAreaEnd
      (m.setDirty b.data d.body.dirtyStart stop).bind fun m =>
        (addAtEnd raw m { b with zeroAreaStart := zeroAreaStart, zeroAreaEnd := stop, stop := stop } endData).bind fun (m, b) =>
          (b.iterEnd.prev endData).bind fun dst =>
            (o.iterEnd.prev endData).bind fun src => (dst.writeFrom m src o.iterEnd).map fun m => (m, b)
    else
      (createFullCopy raw m b).bind fun (m, tmp) =>
        (assign m b tmp).bind fun (m, b) =>
          (destroy m tmp).bind fun m =>
            (addAtEnd raw m b o.getSize).bind fun (m, b) =>
              (b.iterEnd.prev o.getSize).bind fun destStart =>
                (destStart.writeFrom m o.begin o.iterEnd).map fun m => (m, b)

end

/-! ## What is read -/

/-- The bytes on both sides of the zero area, and its length. -/
def content (d : BufferData) (b : Buffer) : BufferContent :=
  ⟨load d.data b.start (b.zeroAreaStart - b.start), b.zeroAreaEnd - b.zeroAreaStart,
    load d.data b.zeroAreaStart (b.stop - b.zeroAreaEnd)⟩

def checkInternalState (d : Block BufferData) (b : Buffer) : Prop :=
  d.count > 0 ∧ (b.start ≤ b.zeroAreaStart ∧ b.zeroAreaStart ≤ b.zeroAreaEnd ∧ b.zeroAreaEnd ≤ b.stop) ∧
    (b.start ≥ d.body.dirtyStart ∧ b.stop ≤ d.body.dirtyEnd) ∧
    (b.stop - (b.zeroAreaEnd - b.zeroAreaStart) ≤ d.size ∧ b.start ≤ d.size ∧ b.zeroAreaStart ≤ d.size)

end Buffer

/-! ## A family of buffers -/

inductive BufferEvent where
  | create (zeroSize : Nat)
  | copy (o : Nat)
  | assign (buffer o : Nat)
  | destroy (buffer : Nat)
  | createFragment (o start length : Nat)
  | addAtStart (buffer n : Nat)
  | addAtEnd (buffer n : Nat)
  | addAtEndBuffer (buffer o : Nat)
  | removeAtStart (buffer n : Nat)
  | removeAtEnd (buffer n : Nat)
  | write (buffer offset : Nat) (bytes : Bytes)

/-- A buffer, and where in it bytes were added by its last operation. -/
structure BufferHandle where
  buffer : Buffer
  added : Option (Nat × Nat) := none

/-- All buffers, by handle; `none` for one that was destroyed. -/
structure Buffers where
  heap : BufferHeap := {}
  handles : Handles BufferHandle := []

namespace Buffers

def handle (s : Buffers) (i : Nat) : Option BufferHandle := Handles.get s.handles i

def buffer (s : Buffers) (i : Nat) : Option Buffer := (s.handle i).map (·.buffer)

/-- Operations on the buffer of a handle, which has no bytes to write afterwards. -/
def set (s : Buffers) (i : Nat) (m : BufferHeap) (h : Option BufferHandle) : Buffers :=
  ⟨m, s.handles.set i h⟩

def push (s : Buffers) (m : BufferHeap) (b : Buffer) : Buffers := ⟨m, s.handles ++ [some ⟨b, none⟩]⟩

/-- Copies are made of a buffer whose bytes are all written. -/
def settle (s : Buffers) (i : Nat) : Buffers :=
  { s with handles := s.handles.modify i (·.map fun h => { h with added := none }) }

def machine (raw : Nat → BufferData) : Machine Buffers BufferEvent Unit where
  step s
    | .create zeroSize => (Buffer.initialized raw s.heap zeroSize).map fun (m, b) => (s.push m b, [])
    | .copy o => (s.buffer o).bind fun ob => (Buffer.copy s.heap ob).map fun (m, b) => ((s.settle o).push m b, [])
    | .assign i o =>
      (s.buffer i).bind fun b => (s.buffer o).bind fun ob =>
        (Buffer.assign s.heap b ob).map fun (m, b) => ((s.settle o).set i m (some ⟨b, none⟩), [])
    | .destroy i => (s.buffer i).bind fun b => (Buffer.destroy s.heap b).map fun m => (s.set i m none, [])
    | .createFragment o start length =>
      (s.buffer o).bind fun ob =>
        (Buffer.createFragment s.heap ob start length).map fun (m, b) => ((s.settle o).push m b, [])
    | .addAtStart i n =>
      (s.buffer i).bind fun b =>
        (Buffer.addAtStart raw s.heap b n).map fun (m, b) => (s.set i m (some ⟨b, some (0, n)⟩), [])
    | .addAtEnd i n =>
      (s.buffer i).bind fun b =>
        (Buffer.addAtEnd raw s.heap b n).map fun (m, b) => (s.set i m (some ⟨b, some (b.getSize - n, n)⟩), [])
    | .addAtEndBuffer i o =>
      (s.buffer i).bind fun b => (s.buffer o).bind fun ob =>
        (Buffer.addAtEndBuffer raw s.heap b ob).map fun (m, b) => (s.set i m (some ⟨b, none⟩), [])
    | .removeAtStart i n => (s.buffer i).map fun b => (s.set i s.heap (some ⟨b.removeAtStart n, none⟩), [])
    | .removeAtEnd i n => (s.buffer i).map fun b => (s.set i s.heap (some ⟨b.removeAtEnd n, none⟩), [])
    | .write i offset bytes =>
      (s.handle i).bind fun h =>
        (h.buffer.begin.next offset).bind fun it => (it.write s.heap bytes).map fun m => (s.set i m (some h), [])

end Buffers

/-! ## Each buffer on its own -/

/-- The bytes of each buffer; `none` for one that was destroyed. -/
abbrev ByteLists := Handles Bytes

namespace ByteLists

open Handles

/-- What an operation does to the lists; bytes that were added are unknown until they are
written. -/
inductive Step (s : ByteLists) : BufferEvent → ByteLists → Prop
  | create (n : Nat) : Step s (.create n) (s ++ [some (List.replicate n 0)])
  | copy {o : Nat} {l : Bytes} : get s o = some l → Step s (.copy o) (s ++ [some l])
  | assign {i o : Nat} {l k : Bytes} : get s i = some l → get s o = some k → Step s (.assign i o) (s.set i (some k))
  | destroy {i : Nat} {l : Bytes} : get s i = some l → Step s (.destroy i) (s.set i none)
  | createFragment {o start length : Nat} {l : Bytes} : get s o = some l →
      Step s (.createFragment o start length) (s ++ [some ((l.drop start).take length)])
  | addAtStart {i n : Nat} {l fresh : Bytes} : get s i = some l → fresh.length = n →
      Step s (.addAtStart i n) (s.set i (some (fresh ++ l)))
  | addAtEnd {i n : Nat} {l fresh : Bytes} : get s i = some l → fresh.length = n →
      Step s (.addAtEnd i n) (s.set i (some (l ++ fresh)))
  | addAtEndBuffer {i o : Nat} {l k : Bytes} : get s i = some l → get s o = some k →
      Step s (.addAtEndBuffer i o) (s.set i (some (l ++ k)))
  | removeAtStart {i n : Nat} {l : Bytes} : get s i = some l → Step s (.removeAtStart i n) (s.set i (some (l.drop n)))
  | removeAtEnd {i n : Nat} {l : Bytes} : get s i = some l →
      Step s (.removeAtEnd i n) (s.set i (some (l.take (l.length - n))))
  | write {i offset : Nat} {bytes l : Bytes} : get s i = some l →
      Step s (.write i offset bytes) (s.set i (some (splice l offset bytes)))

inductive Reaches : List BufferEvent → ByteLists → Prop
  | nil : Reaches [] []
  | snoc {es : List BufferEvent} {e : BufferEvent} {s s' : ByteLists} : Reaches es s → Step s e s' → Reaches (es ++ [e]) s'

end ByteLists

def Buffers.view (s : Buffers) : ByteLists :=
  s.handles.map fun h => h.bind fun h => (s.heap.pool.block h.buffer.data).map fun d => (h.buffer.content d.body).bytes

end Ns3
