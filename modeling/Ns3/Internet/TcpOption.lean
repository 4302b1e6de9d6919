import Ns3.Lib.NetOrder
import Ns3.Rlc.RlcHeader

/-!
# `TcpOption`

The classes of options, with the bytes that each writes and reads. `deserialize`
creates the option for the kind in front, as `TcpHeader` does, so that no class
reads another's kind. An option that does not parse keeps its defaults and
reports the size 0; a segment size of another length aborts, and past the end
there is nothing to read.
-/

namespace Ns3

inductive TcpOption where
  | eol
  | nop
  | mss (m : UInt16)
  | winScale (scale : UInt8)
  | sackPermitted
  | sack (sackList : List (UInt32 × UInt32))
  | ts (timestamp echo : UInt32)
  | unknown (kind size : UInt8) (content : Bytes)
  deriving DecidableEq

namespace TcpOption

def END : UInt8 := 0
def NOP : UInt8 := 1
def MSS : UInt8 := 2
def WINSCALE : UInt8 := 3
def SACKPERMITTED : UInt8 := 4
def SACK : UInt8 := 5
def TS : UInt8 := 8

def getKind : TcpOption → UInt8
  | eol => END
  | nop => NOP
  | mss _ => MSS
  | winScale _ => WINSCALE
  | sackPermitted => SACKPERMITTED
  | sack _ => SACK
  | ts .. => TS
  | unknown kind _ _ => kind

def isKindKnown (kind : UInt8) : Bool :=
  kind = END || kind = NOP || kind = MSS || kind = WINSCALE || kind = SACKPERMITTED || kind = SACK || kind = TS

def getSerializedSize : TcpOption → Nat
  | eol => 1
  | nop => 1
  | mss _ => 4
  | winScale _ => 3
  | sackPermitted => 2
  | sack sackList => 2 + sackList.length * 8
  | ts .. => 10
  | unknown _ size _ => size.toNat

def serializeBlocks : List (UInt32 × UInt32) → Bytes
  | [] => []
  | s :: sackList => writeHton 4 s.1.toNat ++ writeHton 4 s.2.toNat ++ serializeBlocks sackList

def serialize : TcpOption → Bytes
  | eol => [END]
  | nop => [NOP]
  | mss m => [MSS, 4] ++ writeHton 2 m.toNat
  | winScale scale => [WINSCALE, 3, scale]
  | sackPermitted => [SACKPERMITTED, 2]
  | sack sackList => [SACK, UInt8.ofNat (sackList.length * 8 + 2)] ++ serializeBlocks sackList
  | ts timestamp echo => [TS, 10] ++ writeHton 4 timestamp.toNat ++ writeHton 4 echo.toNat
  | unknown kind size content => if size = 0 then [] else [kind, size] ++ content

/-- The loop over the blocks of a SACK option. -/
def deserializeBlocks : Nat → Bytes → Option (List (UInt32 × UInt32))
  | 0, _ => some []
  | sackCount + 1, bytes =>
    (readNtoh 4 bytes).bind fun (leftEdge, bytes) =>
      (readNtoh 4 bytes).bind fun (rightEdge, bytes) =>
        (deserializeBlocks sackCount bytes).map fun sackList => (UInt32.ofNat leftEdge, UInt32.ofNat rightEdge) :: sackList

/-- The option in front, and the size that its `Deserialize` returns. -/
def deserialize (bytes : Bytes) : Option (TcpOption × Nat) :=
  (readU8 bytes).bind fun (kind, bytes) =>
    if kind = END then some (eol, eol.getSerializedSize)
    else if kind = NOP then some (nop, nop.getSerializedSize)
    else
      (readU8 bytes).bind fun (size, bytes) =>
        if kind = MSS then
          if size = 4 then (readNtoh 2 bytes).map fun (m, _) => (mss (UInt16.ofNat m), 4) else none
        else if kind = WINSCALE then
          if size = 3 then (readU8 bytes).map fun (scale, _) => (winScale scale, 3) else some (winScale 0, 0)
        else if kind = SACKPERMITTED then some (sackPermitted, if size = 2 then 2 else 0)
        else if kind = SACK then
          (deserializeBlocks ((size.toNat - 2) / 8) bytes).map fun sackList => (sack sackList, (sack sackList).getSerializedSize)
        else if kind = TS then
          if size = 10 then
            (readNtoh 4 bytes).bind fun (timestamp, bytes) =>
              (readNtoh 4 bytes).map fun (echo, _) => (ts (UInt32.ofNat timestamp) (UInt32.ofNat echo), 10)
          else some (ts 0 0, 0)
        else if size.toNat < 2 ∨ 40 < size.toNat then some (unknown kind size [], 0)
        else (readBytes (size.toNat - 2) bytes).map fun (content, _) => (unknown kind size content, size.toNat)

/-! ## Reading what was written -/

@[simp] theorem length_serializeBlocks (sackList : List (UInt32 × UInt32)) :
    (serializeBlocks sackList).length = sackList.length * 8 := by
  induction sackList with
  | nil => rfl
  | cons s sackList ih =>
    simp only [serializeBlocks, List.length_append, length_writeHton, ih, List.length_cons]
    omega

theorem deserializeBlocks_serializeBlocks (sackList : List (UInt32 × UInt32)) (rest : Bytes) :
    deserializeBlocks sackList.length (serializeBlocks sackList ++ rest) = some sackList := by
  induction sackList with
  | nil => rfl
  | cons s sackList ih =>
    have hleft := s.1.toNat_lt
    have hright := s.2.toNat_lt
    simp only [List.length_cons, deserializeBlocks, serializeBlocks, List.append_assoc, readNtoh_writeHton, Option.bind_some, ih,
      Option.map_some]
    rw [Nat.mod_eq_of_lt (by simpa using hleft), Nat.mod_eq_of_lt (by simpa using hright), UInt32.ofNat_toNat, UInt32.ofNat_toNat]

/-- An option of a known kind that is not there to be read only. -/
def Known : TcpOption → Prop
  | eol | unknown .. => False
  | _ => True

theorem length_serialize {op : TcpOption} (h : Known op) : op.serialize.length = op.getSerializedSize := by
  cases op with
  | eol => exact h.elim
  | unknown kind size content => exact h.elim
  | sack sackList =>
    simp only [serialize, getSerializedSize, List.length_append, length_serializeBlocks, List.length_cons, List.length_nil]
  | mss m => simp [serialize, getSerializedSize]
  | ts timestamp echo => simp [serialize, getSerializedSize]
  | nop => rfl
  | winScale scale => rfl
  | sackPermitted => rfl

theorem deserialize_serialize {op : TcpOption} (h : Known op) (hsize : op.getSerializedSize ≤ 40) (rest : Bytes) :
    deserialize (op.serialize ++ rest) = some (op, op.getSerializedSize) := by
  cases op with
  | eol => exact h.elim
  | unknown kind size content => exact h.elim
  | nop => rfl
  | winScale scale => rfl
  | sackPermitted => rfl
  | mss m =>
    have hlt := m.toNat_lt
    have hread : deserialize ((mss m).serialize ++ rest) =
        (readNtoh 2 (writeHton 2 m.toNat ++ rest)).map fun (m, _) => (mss (UInt16.ofNat m), 4) := rfl
    simp only [hread, readNtoh_writeHton, Option.map_some, getSerializedSize]
    rw [Nat.mod_eq_of_lt (by simpa using hlt), UInt16.ofNat_toNat]
  | ts timestamp echo =>
    have hts := timestamp.toNat_lt
    have hecho := echo.toNat_lt
    have hread : deserialize ((ts timestamp echo).serialize ++ rest) =
        (readNtoh 4 (writeHton 4 timestamp.toNat ++ writeHton 4 echo.toNat ++ rest)).bind fun (timestamp, bytes) =>
          (readNtoh 4 bytes).map fun (echo, _) => (ts (UInt32.ofNat timestamp) (UInt32.ofNat echo), 10) := rfl
    simp only [hread, List.append_assoc, readNtoh_writeHton, Option.bind_some, Option.map_some, getSerializedSize]
    rw [Nat.mod_eq_of_lt (by simpa using hts), Nat.mod_eq_of_lt (by simpa using hecho), UInt32.ofNat_toNat, UInt32.ofNat_toNat]
  | sack sackList =>
    simp only [getSerializedSize] at hsize
    have hcount : ((UInt8.ofNat (sackList.length * 8 + 2)).toNat - 2) / 8 = sackList.length := by
      rw [UInt8.toNat_ofNat', Nat.mod_eq_of_lt (by omega)]
      omega
    have hread : deserialize ((sack sackList).serialize ++ rest) =
        (deserializeBlocks (((UInt8.ofNat (sackList.length * 8 + 2)).toNat - 2) / 8) (serializeBlocks sackList ++ rest)).map
          fun sackList => (sack sackList, (sack sackList).getSerializedSize) := rfl
    rw [hread, hcount, deserializeBlocks_serializeBlocks]
    rfl

end TcpOption

end Ns3
