import Ns3.Lib.BitField
import Ns3.Lib.NetOrder
import Ns3.Network.Mac48Address
import Ns3.Rlc.RlcHeader

/-!
# `CtrlBAckResponseHeader`

The block ack response frame: a control field, and for each acknowledged
station an instance of the BA information, with a bitmap that counts sequence
numbers from a starting one. Only the Multi-STA variant has more than one. There
the length of a bitmap is found in the fragment number bits of the starting
sequence control, and whether there is one at all in the ack type and the TID.

The lists `m_baInfo` and `m_baType.m_bitmapLen` grow together, so they are
one list here. A failed assertion, an index out of range and a variant that is
not supported have no result.
-/

namespace Ns3.CtrlHeaders

namespace BlockAckType

inductive Variant where
  | BASIC
  | COMPRESSED
  | EXTENDED_COMPRESSED
  | MULTI_TID
  | MULTI_STA
  deriving DecidableEq

def bitmapLen : Variant → List Nat
  | .BASIC => [128]
  | .COMPRESSED => [8]
  | .EXTENDED_COMPRESSED => [8]
  | .MULTI_TID => []
  | .MULTI_STA => []

end BlockAckType

open BlockAckType

/-- An entry of `m_baInfo`, and its length in `m_bitmapLen`. -/
structure BaInfoInstance where
  bitmapLen : Nat := 0
  aidTidInfo : Nat := 0
  startingSeq : Nat := 0
  bitmap : Bytes := []
  ra : Mac48Address := 0
  deriving DecidableEq

namespace BaInfoInstance

def getAid11 (e : BaInfoInstance) : Nat := e.aidTidInfo &&& 0x07ff

def getAckType (e : BaInfoInstance) : Bool := (e.aidTidInfo >>> 11) &&& 0x0001 ≠ 0

def getTidInfo (e : BaInfoInstance) : Nat := (e.aidTidInfo >>> 12) &&& 0x000f

def cleared (bitmapLen : Nat) : BaInfoInstance := { bitmapLen := bitmapLen, bitmap := List.replicate bitmapLen 0 }

/-- The bits that encode the length of the bitmap. -/
def fragmentNumber (v : Variant) (e : BaInfoInstance) : Nat :=
  match v with
  | .COMPRESSED => if e.bitmapLen = 32 then 0x0004 else 0
  | .MULTI_STA => if e.bitmapLen = 16 then 0x0002 else if e.bitmapLen = 32 then 0x0004 else if e.bitmapLen = 4 then 0x0006 else 0
  | _ => 0

def getStartingSequenceControl (v : Variant) (e : BaInfoInstance) : Option Nat :=
  if v = .MULTI_STA ∧ e.bitmap.length = 0 then none
  else some (((e.startingSeq <<< 4) &&& 0xfff0) ||| e.fragmentNumber v)

def setStartingSequenceControl (v : Variant) (e : BaInfoInstance) (seqControl : Nat) : Option BaInfoInstance :=
  let startingSeq := (seqControl >>> 4) &&& 0x0fff
  match v with
  | .COMPRESSED =>
    if seqControl &&& 0x0001 = 1 then none
    else if (seqControl >>> 3) &&& 0x0001 = 0 ∧ (seqControl >>> 1) &&& 0x0003 = 0 then
      some { cleared 8 with startingSeq := startingSeq }
    else if (seqControl >>> 3) &&& 0x0001 = 0 ∧ (seqControl >>> 1) &&& 0x0003 = 2 then
      some { cleared 32 with startingSeq := startingSeq }
    else none
  | .MULTI_STA =>
    if seqControl &&& 0x0001 = 1 then none
    else if (seqControl >>> 3) &&& 0x0001 = 0 then
      let bitmapLen := match (seqControl >>> 1) &&& 0x0003 with
        | 0 => 8
        | 1 => 16
        | 2 => 32
        | _ => 4
      some { e with bitmapLen := bitmapLen, bitmap := List.replicate bitmapLen 0, startingSeq := startingSeq }
    else none
  | _ => some { e with startingSeq := startingSeq }

def deserializeBitmap (e : BaInfoInstance) (i : Bytes) : Option (BaInfoInstance × Bytes) :=
  (readBytes e.bitmapLen i).map fun (bitmap, i) => ({ e with bitmap := bitmap }, i)

/-! ## The bitmap -/

def nAckedMpdus (v : Variant) (e : BaInfoInstance) : Nat := if v = .BASIC then e.bitmapLen * 8 / 16 else e.bitmapLen * 8

def isInBitmap (v : Variant) (e : BaInfoInstance) (seq : Nat) : Bool :=
  ((seq : Int) - e.startingSeq + 4096).tmod 4096 < e.nAckedMpdus v

def indexInBitmap (v : Variant) (e : BaInfoInstance) (seq : Nat) : Option Nat :=
  let i := if e.startingSeq ≤ seq then seq - e.startingSeq else 4096 - e.startingSeq + seq
  if i < e.nAckedMpdus v then some i else none

/-- `m_bitmap[k] |= (uint8_t (0x01) << j)`. -/
def setBit (e : BaInfoInstance) (k j : Nat) : Option BaInfoInstance :=
  (e.bitmap[k]?).map fun b => { e with bitmap := e.bitmap.set k (UInt8.ofNat (b.toNat ||| (1 <<< j))) }

def setReceivedPacket (v : Variant) (e : BaInfoInstance) (seq : Nat) : Option BaInfoInstance :=
  if !e.isInBitmap v seq then some e
  else
    match v with
    | .MULTI_TID => none
    | .BASIC => (e.indexInBitmap v seq).bind fun i => e.setBit (i * 2) 0
    | _ => (e.indexInBitmap v seq).bind fun i => e.setBit (i / 8) (i % 8)

def isPacketReceived (v : Variant) (e : BaInfoInstance) (seq : Nat) : Option Bool :=
  if v = .MULTI_STA ∧ e.getAckType = true ∧ e.getTidInfo = 14 then some true
  else if !e.isInBitmap v seq then some false
  else
    match v with
    | .MULTI_TID => none
    | .BASIC => some false
    | _ => (e.indexInBitmap v seq).bind fun i => (e.bitmap[i / 8]?).map fun b => b.toNat &&& (1 <<< (i % 8)) ≠ 0

end BaInfoInstance

structure CtrlBAckResponseHeader where
  baAckPolicy : Bool := false
  variant : Variant := .BASIC
  tidInfo : Nat := 0
  baInfo : List BaInfoInstance := [.cleared 128]
  deriving DecidableEq

namespace CtrlBAckResponseHeader

open BaInfoInstance

/-- `GetType`, but for the variant. -/
def bitmapLens (h : CtrlBAckResponseHeader) : List Nat := h.baInfo.map (·.bitmapLen)

def setType (h : CtrlBAckResponseHeader) (v : Variant) (bitmapLens : List Nat) : CtrlBAckResponseHeader :=
  { h with variant := v, baInfo := bitmapLens.map cleared }

/-- Only the Multi-STA variant has other indices than 0. -/
def info (h : CtrlBAckResponseHeader) (index : Nat) : Option BaInfoInstance :=
  if h.variant = .MULTI_STA ∨ index = 0 then h.baInfo[index]? else none

def getSerializedSize (h : CtrlBAckResponseHeader) : Option Nat :=
  match h.variant with
  | .MULTI_TID => some (2 + (2 + 2 + 8) * (h.tidInfo + 1))
  | .MULTI_STA => some (2 + (h.bitmapLens.map fun bitmapLen => 2 + (if 0 < bitmapLen then 2 else 0) + bitmapLen).sum)
  | _ => h.bitmapLens.head?.map fun bitmapLen => 2 + (2 + bitmapLen)

def variantBits : Variant → Nat
  | .BASIC => 0
  | .COMPRESSED => 0x02 <<< 1
  | .EXTENDED_COMPRESSED => 0x01 <<< 1
  | .MULTI_TID => 0x03 <<< 1
  | .MULTI_STA => 0x0b <<< 1

def getBaControl (h : CtrlBAckResponseHeader) : Nat :=
  let res := (if h.baAckPolicy then 0x1 else 0) ||| variantBits h.variant
  if h.variant = .MULTI_STA then res else res ||| ((h.tidInfo <<< 12) &&& (0xf <<< 12))

def variantOf (ba : Nat) : Option Variant :=
  match (ba >>> 1) &&& 0x0f with
  | 0x03 => some .MULTI_TID
  | 0x01 => some .EXTENDED_COMPRESSED
  | 0x02 => some .COMPRESSED
  | 0 => some .BASIC
  | 0x0b => some .MULTI_STA
  | _ => none

def setBaControl (h : CtrlBAckResponseHeader) (ba : Nat) : Option CtrlBAckResponseHeader :=
  (variantOf ba).map fun v =>
    let h := { h with baAckPolicy := ba &&& 0x01 = 1 }.setType v (bitmapLen v)
    if v = .MULTI_STA then h else { h with tidInfo := (ba >>> 12) &&& 0x0f }

/-- A Per AID TID Info subfield. -/
def serializeInfo (e : BaInfoInstance) : Option Bytes :=
  if e.getAid11 ≠ 2045 then
    if 0 < e.bitmap.length then
      (e.getStartingSequenceControl .MULTI_STA).map fun c => leBytes 2 e.aidTidInfo ++ (leBytes 2 c ++ e.bitmap)
    else some (leBytes 2 e.aidTidInfo)
  else some (leBytes 2 e.aidTidInfo ++ (leBytes 4 0 ++ writeHton 6 e.ra))

def serialize (h : CtrlBAckResponseHeader) : Option Bytes :=
  match h.variant with
  | .MULTI_TID => none
  | .MULTI_STA => (h.baInfo.mapM serializeInfo).map fun l => leBytes 2 h.getBaControl ++ l.flatten
  | v => h.baInfo.head?.bind fun e => (e.getStartingSequenceControl v).map fun c =>
    leBytes 2 h.getBaControl ++ (leBytes 2 c ++ e.bitmap)

/-- A round of the loop over the subfields. -/
def deserializeInfo (i : Bytes) : Option (BaInfoInstance × Bytes) :=
  (readLsbtoh 2 i).bind fun (aidTidInfo, i) =>
    let e : BaInfoInstance := { aidTidInfo := aidTidInfo }
    if e.getAid11 ≠ 2045 then
      if e.getAckType = false ∧ e.getTidInfo < 8 then
        (readLsbtoh 2 i).bind fun (c, i) => (e.setStartingSequenceControl .MULTI_STA c).bind fun e => e.deserializeBitmap i
      else some (e, i)
    else
      (readLsbtoh 4 i).bind fun (_, i) => (readNtoh 6 i).bind fun (ra, i) =>
        -- the length of the subfield is 12 then, and this length makes up the size
        some ({ e with ra := Fin.ofNat 281474976710656 ra, bitmapLen := 8 }, i)

/-- The loop: each subfield takes two bytes at least. -/
def deserializeInfos : Nat → Bytes → Option (List BaInfoInstance)
  | 0, i => if i = [] then some [] else none
  | rounds + 1, i =>
    if i = [] then some []
    else (deserializeInfo i).bind fun (e, i) => (deserializeInfos rounds i).map (e :: ·)

/-- What follows the control field, and what is left of the bytes. -/
def deserializeBaInfo (h : CtrlBAckResponseHeader) (i : Bytes) : Option (List BaInfoInstance × Bytes) :=
  match h.variant with
  | .MULTI_TID => none
  | .MULTI_STA => (deserializeInfos i.length i).map (·, [])
  | v => h.baInfo.head?.bind fun e => (readLsbtoh 2 i).bind fun (c, i) =>
    (e.setStartingSequenceControl v c).bind fun e => (e.deserializeBitmap i).map fun (e, i) => ([e], i)

/-- `Deserialize` of all bytes there are, and the distance it returns. -/
def deserialize (h : CtrlBAckResponseHeader) (bytes : Bytes) : Option (CtrlBAckResponseHeader × Nat) :=
  (readLsbtoh 2 bytes).bind fun (ba, i) => (h.setBaControl ba).bind fun h =>
    (h.deserializeBaInfo i).map fun (l, rest) => ({ h with baInfo := l }, bytes.length - rest.length)

def setReceivedPacket (h : CtrlBAckResponseHeader) (seq index : Nat) : Option CtrlBAckResponseHeader :=
  (h.info index).bind fun e => (e.setReceivedPacket h.variant seq).map fun e => { h with baInfo := h.baInfo.set index e }

def setReceivedPackets (h : CtrlBAckResponseHeader) (calls : List (Nat × Nat)) : Option CtrlBAckResponseHeader :=
  calls.foldlM (fun h c => h.setReceivedPacket c.1 c.2) h

def isPacketReceived (h : CtrlBAckResponseHeader) (seq index : Nat) : Option Bool :=
  (h.info index).bind fun e => e.isPacketReceived h.variant seq

end CtrlBAckResponseHeader

end Ns3.CtrlHeaders
