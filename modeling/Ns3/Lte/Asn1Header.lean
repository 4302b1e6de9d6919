import Mathlib.Data.Nat.Log
import Ns3.Lib.BitStream

/-!
# `Asn1Header`

The packed encoding rules as the RRC headers use them. `SerializeBitset` and
`DeserializeBitset` carry the bits of an unfinished octet in one register, the
writer filling it from the top and the reader shifting it out at the top. The
other calls put their value into a bitset of the width its constraint asks for.
-/

namespace Ns3

open BitStream (set)

/-- `m_serializationResult` is the list of its octets, and an iterator into a
buffer the list of the octets from there on. -/
structure Asn1Header where
  serializationPendingBits : BitVec 8
  numSerializationPendingBits : Nat
  serializationResult : List (BitVec 8)
deriving DecidableEq

namespace Asn1Header

variable {n : Nat}

def new : Asn1Header := ⟨0, 0, []⟩

def writeOctet (h : Asn1Header) (octet : BitVec 8) : Asn1Header :=
  { h with serializationResult := h.serializationResult ++ [octet] }

/-! ## Writing a bitset -/

/-- The loop that fills the octet in the register: what is left of
`pendingBits`, the register and the number of bits in it. -/
def completeOctet (data : BitVec n) : Nat → BitVec 8 → BitVec 8 → Nat → Nat × BitVec 8 × Nat
  | 0, _, octet, num => (0, octet, num)
  | p + 1, mask, octet, num =>
    if num < 8 then
      completeOctet data p ((mask >>> 1) &&& ~~~mask) (octet ||| if data.getLsbD p then mask else 0) (num + 1)
    else (p + 1, octet, num)

/-- The loop that puts the last bits, fewer than eight, into the register. -/
def storePendingBits (data : BitVec n) : Nat → BitVec 8 → BitVec 8 → BitVec 8
  | 0, _, octet => octet
  | p + 1, mask, octet =>
    storePendingBits data p ((mask >>> 1) &&& ~~~mask) (octet ||| if data.getLsbD p then mask else 0)

/-- The loop over `j` that collects an octet from its lowest bit on. -/
def octetToWrite (data : BitVec n) (pendingBits : Nat) : Nat → BitVec 8 → BitVec 8 → BitVec 8
  | 0, _, octet => octet
  | j + 1, mask, octet =>
    octetToWrite data pendingBits j ((mask <<< 1) &&& ~~~mask)
      (octet ||| if data.getLsbD (pendingBits - (j + 1)) then mask else 0)

/-- The loop `while (pendingBits > 0)`. -/
def serializePending (data : BitVec n) : Nat → Asn1Header → Asn1Header
  | 0, h => h
  | p + 8, h => serializePending data p (h.writeOctet (octetToWrite data (p + 8) 8 1#8 0#8))
  | p, h =>
    { h with
      numSerializationPendingBits := p
      serializationPendingBits := storePendingBits data p 0x80#8 h.serializationPendingBits }

/-- `pendingBits` has eight bits. -/
def serializeBitset (data : BitVec n) (h : Asn1Header) : Asn1Header :=
  if n = 0 then h
  else if n ≤ 65536 then
    let pendingBits := n % 256
    if 0 < h.numSerializationPendingBits then
      let (pendingBits, octet, num) := completeOctet data pendingBits (0x80#8 >>> h.numSerializationPendingBits)
        h.serializationPendingBits h.numSerializationPendingBits
      if 8 ≤ num then
        serializePending data pendingBits
          { h.writeOctet octet with numSerializationPendingBits := 0, serializationPendingBits := 0 }
      else
        serializePending data pendingBits
          { h with numSerializationPendingBits := num, serializationPendingBits := octet }
    else serializePending data pendingBits h
  else h

/-! ## Writing a value -/

def serializeBitstring (data : BitVec n) (h : Asn1Header) : Asn1Header := serializeBitset data h

def serializeBoolean (value : Bool) (h : Asn1Header) : Asn1Header := serializeBitset (BitVec.ofBool value) h

def serializeSequence (optionalOrDefaultMask : BitVec n) (isExtensionMarkerPresent : Bool) (h : Asn1Header) :
    Asn1Header :=
  serializeBitstring optionalOrDefaultMask (if isExtensionMarkerPresent then serializeBoolean false h else h)

/-- `std::ceil (std::log (range) / std::log (2.0))`. -/
def requiredBits (range : Int) : Nat := Nat.clog 2 range.toNat

/-- `none`: the assertion fails, or there is no case for the number of bits. -/
def serializeInteger (n nmin nmax : Int) (h : Asn1Header) : Option Asn1Header :=
  if nmin - n ≤ 0 ∧ n ≤ nmax then
    let range := nmax - nmin + 1
    if range ≤ 1 then some h
    else if 1 ≤ requiredBits range ∧ requiredBits range ≤ 20 then
      some (serializeBitset (BitVec.ofInt (requiredBits range) (n - nmin)) h)
    else none
  else none

def serializeSequenceOf (numElems nMax nMin : Int) (h : Asn1Header) : Option Asn1Header :=
  serializeInteger numElems nMin nMax h

def serializeEnum (numElems selectedElem : Int) (h : Asn1Header) : Option Asn1Header :=
  serializeInteger selectedElem 0 (numElems - 1) h

def serializeChoice (numOptions selectedOption : Int) (isExtensionMarkerPresent : Bool) (h : Asn1Header) :
    Option Asn1Header :=
  let h := if isExtensionMarkerPresent then serializeBoolean false h else h
  if numOptions < 2 then some h else serializeInteger selectedOption 0 (numOptions - 1) h

/-- The register itself is not reset. -/
def finalizeSerialization (h : Asn1Header) : Asn1Header :=
  if 0 < h.numSerializationPendingBits then
    serializeBitset h.serializationPendingBits { h with numSerializationPendingBits := 0 }
  else h

/-! ## Reading a bitset -/

/-- The loop over the bits in the register: what is left of `bitsToRead`, the
bitset, the register and the number of bits in it. -/
def readPendingBits : Nat → BitVec n → BitVec 8 → Nat → Nat × BitVec n × BitVec 8 × Nat
  | 0, data, octet, num => (0, data, octet, num)
  | k + 1, data, octet, 0 => (k + 1, data, octet, 0)
  | k + 1, data, octet, num + 1 =>
    readPendingBits k (set data k (octet &&& 0x80#8 != 0)) (octet <<< 1) num

/-- `j` rounds of the loop over the bits of an octet. -/
def readOctetBits (octet : BitVec 8) : Nat → BitVec 8 → Nat → BitVec n → BitVec n
  | 0, _, _, data => data
  | j + 1, mask, bitsToRead, data =>
    readOctetBits octet j (mask >>> 1) (bitsToRead - 1) (set data (bitsToRead - 1) (octet &&& mask != 0))

/-- The loop `while (bitsToRead > 0)`; `none` when the buffer ends before it. -/
def readOctets : Nat → BitVec n → Asn1Header → List (BitVec 8) → Option (BitVec n × Asn1Header × List (BitVec 8))
  | 0, data, h, bIterator => some (data, h, bIterator)
  | _ + 1, _, _, [] => none
  | k + 8, data, h, octet :: bIterator => readOctets k (readOctetBits octet 8 0x80#8 (k + 8) data) h bIterator
  | k, data, h, octet :: bIterator =>
    some (readOctetBits octet k 0x80#8 k data,
      { h with numSerializationPendingBits := 8 - k, serializationPendingBits := octet <<< k }, bIterator)

def deserializeBitset (data : BitVec n) (h : Asn1Header) (bIterator : List (BitVec 8)) :
    Option (BitVec n × Asn1Header × List (BitVec 8)) :=
  let (bitsToRead, data, octet, num) :=
    readPendingBits n data h.serializationPendingBits h.numSerializationPendingBits
  readOctets bitsToRead data { h with serializationPendingBits := octet, numSerializationPendingBits := num } bIterator

/-! ## Reading a value

The first argument is what the output variable holds before the call. -/

def deserializeBitstring (data : BitVec n) (h : Asn1Header) (bIterator : List (BitVec 8)) :
    Option (BitVec n × Asn1Header × List (BitVec 8)) :=
  deserializeBitset data h bIterator

def deserializeBoolean (h : Asn1Header) (bIterator : List (BitVec 8)) : Option (Bool × Asn1Header × List (BitVec 8)) := do
  let (readBit, h, bIterator) ← deserializeBitset (0 : BitVec 1) h bIterator
  some (readBit.getLsbD 0, h, bIterator)

/-- The extension marker is read and dropped. -/
def skipMarker (isExtensionMarkerPresent : Bool) (h : Asn1Header) (bIterator : List (BitVec 8)) :
    Option (Asn1Header × List (BitVec 8)) :=
  if isExtensionMarkerPresent then (deserializeBoolean h bIterator).map (·.2) else some (h, bIterator)

def deserializeSequence (optionalOrDefaultMask : BitVec n) (isExtensionMarkerPresent : Bool) (h : Asn1Header)
    (bIterator : List (BitVec 8)) : Option (BitVec n × Asn1Header × List (BitVec 8)) := do
  let (h, bIterator) ← skipMarker isExtensionMarkerPresent h bIterator
  deserializeBitset optionalOrDefaultMask h bIterator

/-- With a single value in the range the function returns before `*n` is
written. -/
def deserializeInteger (n nmin nmax : Int) (h : Asn1Header) (bIterator : List (BitVec 8)) :
    Option (Int × Asn1Header × List (BitVec 8)) :=
  let (nmin, nmax) := if nmax < nmin then (nmax, nmin) else (nmin, nmax)
  let range := nmax - nmin + 1
  if range = 1 then some (n, h, bIterator)
  else if 1 ≤ requiredBits range ∧ requiredBits range ≤ 20 then do
    let (bitsRead, h, bIterator) ← deserializeBitset (0 : BitVec (requiredBits range)) h bIterator
    some (bitsRead.toNat + nmin, h, bIterator)
  else none

def deserializeSequenceOf (numElems nMax nMin : Int) (h : Asn1Header) (bIterator : List (BitVec 8)) :
    Option (Int × Asn1Header × List (BitVec 8)) :=
  deserializeInteger numElems nMin nMax h bIterator

def deserializeEnum (numElems selectedElem : Int) (h : Asn1Header) (bIterator : List (BitVec 8)) :
    Option (Int × Asn1Header × List (BitVec 8)) :=
  deserializeInteger selectedElem 0 (numElems - 1) h bIterator

def deserializeChoice (numOptions : Int) (isExtensionMarkerPresent : Bool) (selectedOption : Int) (h : Asn1Header)
    (bIterator : List (BitVec 8)) : Option (Int × Asn1Header × List (BitVec 8)) := do
  let (h, bIterator) ← skipMarker isExtensionMarkerPresent h bIterator
  deserializeInteger selectedOption 0 (numOptions - 1) h bIterator

end Asn1Header

end Ns3
