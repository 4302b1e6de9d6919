import Ns3.Lib.BitField
import Ns3.Lib.NetOrder
import Ns3.Rlc.RlcHeader

/-!
# `SixLowPanIphc`

The compressed header and its bytes. The first two bytes hold the modes of the
fields; each setter is called once, so a mode is a field here and `baseFormat`
puts them together.
-/

namespace Ns3

open List Option

inductive TrafficClassFlowLabel where
  | TF_FULL
  | TF_DSCP_ELIDED
  | TF_FL_ELIDED
  | TF_ELIDED
  deriving DecidableEq

namespace TrafficClassFlowLabel

def value : TrafficClassFlowLabel → Nat
  | TF_FULL => 0
  | TF_DSCP_ELIDED => 1
  | TF_FL_ELIDED => 2
  | TF_ELIDED => 3

def ofValue : Nat → TrafficClassFlowLabel
  | 0 => TF_FULL
  | 1 => TF_DSCP_ELIDED
  | 2 => TF_FL_ELIDED
  | _ => TF_ELIDED

@[simp] theorem ofValue_value (x : TrafficClassFlowLabel) : ofValue x.value = x := by cases x <;> rfl

theorem value_lt (x : TrafficClassFlowLabel) : x.value < 4 := by cases x <;> decide

end TrafficClassFlowLabel

inductive Hlim where
  | HLIM_INLINE
  | HLIM_COMPR_1
  | HLIM_COMPR_64
  | HLIM_COMPR_255
  deriving DecidableEq

namespace Hlim

def value : Hlim → Nat
  | HLIM_INLINE => 0
  | HLIM_COMPR_1 => 1
  | HLIM_COMPR_64 => 2
  | HLIM_COMPR_255 => 3

def ofValue : Nat → Hlim
  | 0 => HLIM_INLINE
  | 1 => HLIM_COMPR_1
  | 2 => HLIM_COMPR_64
  | _ => HLIM_COMPR_255

@[simp] theorem ofValue_value (x : Hlim) : ofValue x.value = x := by cases x <;> rfl

theorem value_lt (x : Hlim) : x.value < 4 := by cases x <;> decide

end Hlim

inductive HeaderCompression where
  | HC_INLINE
  | HC_COMPR_64
  | HC_COMPR_16
  | HC_COMPR_0
  deriving DecidableEq

namespace HeaderCompression

def value : HeaderCompression → Nat
  | HC_INLINE => 0
  | HC_COMPR_64 => 1
  | HC_COMPR_16 => 2
  | HC_COMPR_0 => 3

def ofValue : Nat → HeaderCompression
  | 0 => HC_INLINE
  | 1 => HC_COMPR_64
  | 2 => HC_COMPR_16
  | _ => HC_COMPR_0

@[simp] theorem ofValue_value (x : HeaderCompression) : ofValue x.value = x := by cases x <;> rfl

theorem value_lt (x : HeaderCompression) : x.value < 4 := by cases x <;> decide

end HeaderCompression

structure IphcModes where
  tf : TrafficClassFlowLabel := .TF_FULL
  nh : Bool := false
  hlim : Hlim := .HLIM_INLINE
  cid : Bool := false
  sac : Bool := false
  sam : HeaderCompression := .HC_INLINE
  m : Bool := false
  dac : Bool := false
  dam : HeaderCompression := .HC_INLINE

namespace IphcModes

/-- `m_baseFormat`, after the dispatch 011. -/
def baseFormat (x : IphcModes) : Nat :=
  (0x60 <<< 8) ||| (x.tf.value <<< 11) ||| (x.nh.toNat <<< 10) ||| (x.hlim.value <<< 8) ||| (x.cid.toNat <<< 7) |||
    (x.sac.toNat <<< 6) ||| (x.sam.value <<< 4) ||| (x.m.toNat <<< 3) ||| (x.dac.toNat <<< 2) ||| x.dam.value

def ofBaseFormat (m_baseFormat : Nat) : IphcModes where
  tf := .ofValue ((m_baseFormat >>> 11) &&& 0x3)
  nh := (m_baseFormat >>> 10) &&& 0x1 ≠ 0
  hlim := .ofValue ((m_baseFormat >>> 8) &&& 0x3)
  cid := (m_baseFormat >>> 7) &&& 0x1 ≠ 0
  sac := (m_baseFormat >>> 6) &&& 0x1 ≠ 0
  sam := .ofValue ((m_baseFormat >>> 4) &&& 0x3)
  m := (m_baseFormat >>> 3) &&& 0x1 ≠ 0
  dac := (m_baseFormat >>> 2) &&& 0x1 ≠ 0
  dam := .ofValue (m_baseFormat &&& 0x3)

theorem baseFormat_eq (x : IphcModes) : x.baseFormat = 0x60 <<< 8 + x.tf.value * 2 ^ 11 + x.nh.toNat * 2 ^ 10 +
    x.hlim.value * 2 ^ 8 + x.cid.toNat * 2 ^ 7 + x.sac.toNat * 2 ^ 6 + x.sam.value * 2 ^ 4 + x.m.toNat * 2 ^ 3 +
    x.dac.toNat * 2 ^ 2 + x.dam.value := by
  obtain ⟨htf, h1⟩ := or_field (a := 0x60 <<< 8) 11 2 (by decide) x.tf.value_lt
  obtain ⟨hnh, h2⟩ := or_field 10 1 h1 x.nh.toNat_lt
  obtain ⟨hhlim, h3⟩ := or_field 8 2 h2 x.hlim.value_lt
  obtain ⟨hcid, h4⟩ := or_field 7 1 h3 x.cid.toNat_lt
  obtain ⟨hsac, h5⟩ := or_field 6 1 h4 x.sac.toNat_lt
  obtain ⟨hsam, h6⟩ := or_field 4 2 h5 x.sam.value_lt
  obtain ⟨hm, h7⟩ := or_field 3 1 h6 x.m.toNat_lt
  obtain ⟨hdac, h8⟩ := or_field 2 1 h7 x.dac.toNat_lt
  rw [baseFormat, htf, hnh, hhlim, hcid, hsac, hsam, hm, hdac, or_eq_add 2 h8 x.dam.value_lt]

theorem baseFormat_fields (x : IphcModes) : x.baseFormat < 2 ^ 16 ∧ x.baseFormat / 2 ^ 11 % 2 ^ 2 = x.tf.value ∧
    x.baseFormat / 2 ^ 10 % 2 ^ 1 = x.nh.toNat ∧ x.baseFormat / 2 ^ 8 % 2 ^ 2 = x.hlim.value ∧
    x.baseFormat / 2 ^ 7 % 2 ^ 1 = x.cid.toNat ∧ x.baseFormat / 2 ^ 6 % 2 ^ 1 = x.sac.toNat ∧
    x.baseFormat / 2 ^ 4 % 2 ^ 2 = x.sam.value ∧ x.baseFormat / 2 ^ 3 % 2 ^ 1 = x.m.toNat ∧
    x.baseFormat / 2 ^ 2 % 2 ^ 1 = x.dac.toNat ∧ x.baseFormat % 2 ^ 2 = x.dam.value := by
  have htf := x.tf.value_lt
  have hnh := x.nh.toNat_lt
  have hhlim := x.hlim.value_lt
  have hcid := x.cid.toNat_lt
  have hsac := x.sac.toNat_lt
  have hsam := x.sam.value_lt
  have hm := x.m.toNat_lt
  have hdac := x.dac.toNat_lt
  have hdam := x.dam.value_lt
  rw [baseFormat_eq]
  refine ⟨?_, ?_, ?_, ?_, ?_, ?_, ?_, ?_, ?_, ?_⟩ <;> omega

@[simp] theorem ofBaseFormat_baseFormat (x : IphcModes) : ofBaseFormat x.baseFormat = x := by
  obtain ⟨-, htf, hnh, hhlim, hcid, hsac, hsam, hm, hdac, hdam⟩ := x.baseFormat_fields
  have hlow : x.baseFormat &&& 0x3 = x.baseFormat % 2 ^ 2 := Nat.and_two_pow_sub_one_eq_mod _ 2
  rw [ofBaseFormat, field_high (m := 0x3) _ 2 11 rfl, field_high (m := 0x1) _ 1 10 rfl, field_high (m := 0x3) _ 2 8 rfl, field_high (m := 0x1) _ 1 7 rfl, field_high (m := 0x1) _ 1 6 rfl,
    field_high (m := 0x3) _ 2 4 rfl, field_high (m := 0x1) _ 1 3 rfl, field_high (m := 0x1) _ 1 2 rfl, hlow, htf, hnh, hhlim, hcid, hsac, hsam, hm, hdac, hdam]
  simp

end IphcModes

/-- The header; an inline part holds the bytes that were set, and zeros behind them. -/
structure SixLowPanIphc where
  modes : IphcModes := {}
  m_srcdstContextId : UInt8 := 0
  m_ecn : BitVec 2 := 0
  m_dscp : BitVec 6 := 0
  m_flowLabel : BitVec 20 := 0
  m_nextHeader : UInt8 := 0
  m_hopLimit : UInt8 := 0
  m_srcInlinePart : Bytes := []
  m_dstInlinePart : Bytes := []

namespace SixLowPanIphc

open TrafficClassFlowLabel Hlim HeaderCompression

def inlineBytes (size : Nat) (part : Bytes) : Bytes := (part ++ List.replicate 16 0).take size

@[simp] theorem length_inlineBytes {size : Nat} (h : size ≤ 16) (part : Bytes) : (inlineBytes size part).length = size := by
  rw [inlineBytes, length_take, length_append, length_replicate]
  omega

theorem inlineBytes_eq {size : Nat} {part : Bytes} (h : part.length = size) : inlineBytes size part = part := take_left' h

instance contextId_neZero : NeZero 16 := ⟨by decide⟩

def getSrcContextId (h : SixLowPanIphc) : Fin 16 := Fin.ofNat 16 (h.m_srcdstContextId.toNat >>> 4)

def getDstContextId (h : SixLowPanIphc) : Fin 16 := Fin.ofNat 16 (h.m_srcdstContextId.toNat &&& 0xf)

/-! ## Sizes -/

def tfSize : TrafficClassFlowLabel → Nat
  | TF_FULL => 4
  | TF_DSCP_ELIDED => 3
  | TF_FL_ELIDED => 1
  | TF_ELIDED => 0

def srcSize (x : IphcModes) : Nat :=
  match x.sam with
  | HC_INLINE => if x.sac then 0 else 16
  | HC_COMPR_64 => 8
  | HC_COMPR_16 => 2
  | HC_COMPR_0 => 0

def dstSize (x : IphcModes) : Nat :=
  if !x.m then
    match x.dam with
    | HC_INLINE => if x.dac then 0 else 16
    | HC_COMPR_64 => 8
    | HC_COMPR_16 => 2
    | HC_COMPR_0 => 0
  else
    match x.dam with
    | HC_INLINE => if x.dac then 6 else 16
    | HC_COMPR_64 => if x.dac then 0 else 6
    | HC_COMPR_16 => if x.dac then 0 else 4
    | HC_COMPR_0 => if x.dac then 0 else 1

/-- The size that is written of the destination, whatever the context. -/
def dstWritten (x : IphcModes) : Nat :=
  if !x.m then
    match x.dam with
    | HC_INLINE => 16
    | HC_COMPR_64 => 8
    | HC_COMPR_16 => 2
    | HC_COMPR_0 => 0
  else
    match x.dam with
    | HC_INLINE => 16
    | HC_COMPR_64 => 6
    | HC_COMPR_16 => 4
    | HC_COMPR_0 => 1

def readSize (x : IphcModes) : Nat :=
  2 + (if x.cid then 1 else 0) + tfSize x.tf + (if !x.nh then 1 else 0) + (if x.hlim = HLIM_INLINE then 1 else 0) + srcSize x +
    dstWritten x

def getSerializedSize (h : SixLowPanIphc) : Nat :=
  2 + (if h.modes.cid then 1 else 0) + tfSize h.modes.tf + (if !h.modes.nh then 1 else 0) +
    (if h.modes.hlim = HLIM_INLINE then 1 else 0) + srcSize h.modes + dstSize h.modes

/-! ## Writing -/

def cidBytes (h : SixLowPanIphc) : Bytes := if h.modes.cid then [h.m_srcdstContextId] else []

def tfBytes (h : SixLowPanIphc) : Bytes :=
  match h.modes.tf with
  | TF_FULL => [UInt8.ofNat ((h.m_ecn.toNat <<< 6) ||| h.m_dscp.toNat), UInt8.ofNat (h.m_flowLabel.toNat >>> 16),
      UInt8.ofNat ((h.m_flowLabel.toNat >>> 8) &&& 0xff), UInt8.ofNat (h.m_flowLabel.toNat &&& 0xff)]
  | TF_DSCP_ELIDED => [UInt8.ofNat ((h.m_ecn.toNat <<< 6) ||| (h.m_flowLabel.toNat >>> 16)),
      UInt8.ofNat ((h.m_flowLabel.toNat >>> 8) &&& 0xff), UInt8.ofNat (h.m_flowLabel.toNat &&& 0xff)]
  | TF_FL_ELIDED => [UInt8.ofNat ((h.m_ecn.toNat <<< 6) ||| h.m_dscp.toNat)]
  | TF_ELIDED => []

def nhBytes (h : SixLowPanIphc) : Bytes := if !h.modes.nh then [h.m_nextHeader] else []

def hlimBytes (h : SixLowPanIphc) : Bytes := if h.modes.hlim = HLIM_INLINE then [h.m_hopLimit] else []

def serialize (h : SixLowPanIphc) : Bytes :=
  writeHton 2 h.modes.baseFormat ++ h.cidBytes ++ h.tfBytes ++ h.nhBytes ++ h.hlimBytes ++
    inlineBytes (srcSize h.modes) h.m_srcInlinePart ++ inlineBytes (dstWritten h.modes) h.m_dstInlinePart

/-- `AddHeader`: bytes that are written past the size overwrite the packet, up to its end. -/
def addTo (h : SixLowPanIphc) (packet : Bytes) : Option Bytes :=
  if h.serialize.length ≤ h.getSerializedSize + packet.length then
    some (h.serialize ++ packet.drop (h.serialize.length - h.getSerializedSize))
  else none

/-! ## Reading -/

def readCid (x : IphcModes) (bytes : Bytes) : Option (UInt8 × Bytes) := if x.cid then readU8 bytes else some (0, bytes)

def readTf (x : IphcModes) (bytes : Bytes) : Option ((BitVec 2 × BitVec 6 × BitVec 20) × Bytes) :=
  match x.tf with
  | TF_FULL => (readBytes 4 bytes).map fun (temp, bytes) =>
      ((BitVec.ofNat 2 ((temp.getD 0 0).toNat >>> 6), BitVec.ofNat 6 ((temp.getD 0 0).toNat &&& 0x3f),
        BitVec.ofNat 20 (((((temp.getD 1 0).toNat <<< 8) ||| (temp.getD 2 0).toNat) <<< 8) ||| (temp.getD 3 0).toNat)), bytes)
  | TF_DSCP_ELIDED => (readBytes 3 bytes).map fun (temp, bytes) =>
      ((BitVec.ofNat 2 ((temp.getD 0 0).toNat >>> 6), 0,
        BitVec.ofNat 20 ((((((temp.getD 0 0).toNat &&& 0x3f) <<< 8) ||| (temp.getD 1 0).toNat) <<< 8) ||| (temp.getD 2 0).toNat)), bytes)
  | TF_FL_ELIDED => (readU8 bytes).map fun (temp, bytes) =>
      ((BitVec.ofNat 2 (temp.toNat >>> 6), BitVec.ofNat 6 (temp.toNat &&& 0x3f), 0), bytes)
  | TF_ELIDED => some ((0, 0, 0), bytes)

def readNh (x : IphcModes) (bytes : Bytes) : Option (UInt8 × Bytes) := if !x.nh then readU8 bytes else some (0, bytes)

def readHlim (x : IphcModes) (bytes : Bytes) : Option (UInt8 × Bytes) :=
  match x.hlim with
  | HLIM_INLINE => readU8 bytes
  | HLIM_COMPR_1 => some (1, bytes)
  | HLIM_COMPR_64 => some (64, bytes)
  | HLIM_COMPR_255 => some (255, bytes)

def deserialize (bytes : Bytes) : Option (SixLowPanIphc × Nat) :=
  (readNtoh 2 bytes).bind fun (m_baseFormat, i) =>
    let x := IphcModes.ofBaseFormat m_baseFormat
    (readCid x i).bind fun (m_srcdstContextId, i) =>
      (readTf x i).bind fun ((m_ecn, m_dscp, m_flowLabel), i) =>
        (readNh x i).bind fun (m_nextHeader, i) =>
          (readHlim x i).bind fun (m_hopLimit, i) =>
            (readBytes (srcSize x) i).bind fun (m_srcInlinePart, i) =>
              (readBytes (dstWritten x) i).map fun (m_dstInlinePart, _) =>
                let h : SixLowPanIphc :=
                  ⟨x, m_srcdstContextId, m_ecn, m_dscp, m_flowLabel, m_nextHeader, m_hopLimit, m_srcInlinePart, m_dstInlinePart⟩
                (h, h.getSerializedSize)

/-! ## Reading what was written -/

/-- What is left of a header where its modes leave something out. -/
def received (h : SixLowPanIphc) : SixLowPanIphc where
  modes := h.modes
  m_srcdstContextId := if h.modes.cid then h.m_srcdstContextId else 0
  m_ecn := if h.modes.tf = TF_ELIDED then 0 else h.m_ecn
  m_dscp := if h.modes.tf = TF_ELIDED ∨ h.modes.tf = TF_DSCP_ELIDED then 0 else h.m_dscp
  m_flowLabel := if h.modes.tf = TF_ELIDED ∨ h.modes.tf = TF_FL_ELIDED then 0 else h.m_flowLabel
  m_nextHeader := if h.modes.nh then 0 else h.m_nextHeader
  m_hopLimit :=
    match h.modes.hlim with
    | HLIM_INLINE => h.m_hopLimit
    | HLIM_COMPR_1 => 1
    | HLIM_COMPR_64 => 64
    | HLIM_COMPR_255 => 255
  m_srcInlinePart := inlineBytes (srcSize h.modes) h.m_srcInlinePart
  m_dstInlinePart := inlineBytes (dstWritten h.modes) h.m_dstInlinePart

section
variable (h : SixLowPanIphc) (rest : Bytes)

theorem readCid_cidBytes : readCid h.modes (h.cidBytes ++ rest) = some (h.received.m_srcdstContextId, rest) := by
  rw [readCid, cidBytes, received]
  cases h.modes.cid <;> rfl

theorem readNh_nhBytes : readNh h.modes (h.nhBytes ++ rest) = some (h.received.m_nextHeader, rest) := by
  rw [readNh, nhBytes, received]
  cases h.modes.nh <;> rfl

theorem readHlim_hlimBytes : readHlim h.modes (h.hlimBytes ++ rest) = some (h.received.m_hopLimit, rest) := by
  rw [readHlim, hlimBytes, received]
  cases h.modes.hlim <;> rfl

theorem ecnDscp_eq (ecn : BitVec 2) {dscp : Nat} (hdscp : dscp < 2 ^ 6) :
    BitVec.ofNat 2 ((UInt8.ofNat ((ecn.toNat <<< 6) ||| dscp)).toNat >>> 6) = ecn ∧
      (UInt8.ofNat ((ecn.toNat <<< 6) ||| dscp)).toNat &&& 0x3f = dscp := by
  have hecn := ecn.isLt
  have hor : (ecn.toNat <<< 6) ||| dscp = ecn.toNat * 2 ^ 6 + dscp := by
    rw [Nat.shiftLeft_eq]
    exact or_eq_add 6 (by omega) hdscp
  have hbyte : (UInt8.ofNat ((ecn.toNat <<< 6) ||| dscp)).toNat = ecn.toNat * 2 ^ 6 + dscp := by
    rw [hor, UInt8.toNat_ofNat']
    lia
  have hmask : (ecn.toNat * 2 ^ 6 + dscp) &&& 0x3f = (ecn.toNat * 2 ^ 6 + dscp) % 2 ^ 6 := Nat.and_two_pow_sub_one_eq_mod _ 6
  rw [hbyte]
  refine ⟨BitVec.eq_of_toNat_eq ?_, ?_⟩
  · rw [BitVec.toNat_ofNat, Nat.shiftRight_eq_div_pow]
    lia
  · rw [hmask]
    omega

theorem flowLabel_eq (flowLabel : BitVec 20) {high : Nat} (hhigh : high = flowLabel.toNat >>> 16) :
    BitVec.ofNat 20 ((((high <<< 8) ||| (UInt8.ofNat ((flowLabel.toNat >>> 8) &&& 0xff)).toNat) <<< 8) |||
      (UInt8.ofNat (flowLabel.toNat &&& 0xff)).toNat) = flowLabel := by
  have hlabel := flowLabel.isLt
  have hmiddle : (UInt8.ofNat ((flowLabel.toNat >>> 8) &&& 0xff)).toNat = flowLabel.toNat / 2 ^ 8 % 2 ^ 8 := by
    rw [field_high (m := 0xff) _ 8 8 rfl, UInt8.toNat_ofNat']
    lia
  have hlow : (UInt8.ofNat (flowLabel.toNat &&& 0xff)).toNat = flowLabel.toNat % 2 ^ 8 := by
    have hmask : flowLabel.toNat &&& 0xff = flowLabel.toNat % 2 ^ 8 := Nat.and_two_pow_sub_one_eq_mod _ 8
    rw [hmask, UInt8.toNat_ofNat']
    lia
  refine BitVec.eq_of_toNat_eq ?_
  rw [hmiddle, hlow, hhigh, Nat.shiftRight_eq_div_pow, Nat.shiftLeft_eq, Nat.shiftLeft_eq,
    or_eq_add (a := flowLabel.toNat / 2 ^ 16 * 2 ^ 8) 8 (by lia) (by lia), or_eq_add 8 (by lia) (by lia),
    BitVec.toNat_ofNat]
  lia

theorem readTf_tfBytes : readTf h.modes (h.tfBytes ++ rest) =
    some ((h.received.m_ecn, h.received.m_dscp, h.received.m_flowLabel), rest) := by
  have hlabel := h.m_flowLabel.isLt
  obtain ⟨hecn, hdscp⟩ := ecnDscp_eq h.m_ecn h.m_dscp.isLt
  have hhigh : h.m_flowLabel.toNat >>> 16 < 2 ^ 6 := by
    rw [Nat.shiftRight_eq_div_pow]
    omega
  obtain ⟨hecn', hhigh'⟩ := ecnDscp_eq h.m_ecn hhigh
  rw [readTf, tfBytes, received]
  cases htf : h.modes.tf with
  | TF_FULL =>
    have hbyte : (UInt8.ofNat (h.m_flowLabel.toNat >>> 16)).toNat = h.m_flowLabel.toNat >>> 16 := by
      rw [UInt8.toNat_ofNat']
      omega
    simp only [cons_append, nil_append, readBytes, length_cons, take_succ_cons, take_zero, drop_succ_cons, drop_zero]
    rw [if_pos (by omega)]
    simp only [map_some, getD_cons_zero, getD_cons_succ, hecn, hdscp, flowLabel_eq h.m_flowLabel hbyte, BitVec.ofNat_toNat, BitVec.setWidth_eq]
    rfl
  | TF_DSCP_ELIDED =>
    simp only [cons_append, nil_append, readBytes, length_cons, take_succ_cons, take_zero, drop_succ_cons, drop_zero]
    rw [if_pos (by omega)]
    simp only [map_some, getD_cons_zero, getD_cons_succ, hecn', flowLabel_eq h.m_flowLabel hhigh']
    rfl
  | TF_FL_ELIDED =>
    simp only [cons_append, nil_append, readU8_cons, map_some, hecn, hdscp, BitVec.ofNat_toNat, BitVec.setWidth_eq]
    rfl
  | TF_ELIDED => rfl

theorem srcSize_le (x : IphcModes) : srcSize x ≤ 16 := by
  rw [srcSize]
  cases x.sam <;> cases x.sac <;> decide

theorem dstWritten_le (x : IphcModes) : dstWritten x ≤ 16 := by
  rw [dstWritten]
  cases x.m <;> cases x.dam <;> decide

theorem deserialize_serialize : deserialize (h.serialize ++ rest) = some (h.received, h.getSerializedSize) := by
  have hlt := h.modes.baseFormat_fields.1
  simp only [deserialize, serialize, append_assoc, readNtoh_writeHton, bind_some]
  rw [Nat.mod_eq_of_lt (by simpa using hlt)]
  simp only [IphcModes.ofBaseFormat_baseFormat, readCid_cidBytes, readTf_tfBytes, readNh_nhBytes, readHlim_hlimBytes, bind_some,
    readBytes_of_length (length_inlineBytes (srcSize_le _) _), readBytes_of_length (length_inlineBytes (dstWritten_le _) _),
    map_some]
  rfl

theorem length_serialize_eq : h.serialize.length = readSize h.modes := by
  have hcid : h.cidBytes.length = if h.modes.cid then 1 else 0 := by
    rw [cidBytes]
    cases h.modes.cid <;> rfl
  have htf : h.tfBytes.length = tfSize h.modes.tf := by
    rw [tfBytes]
    cases h.modes.tf <;> rfl
  have hnh : h.nhBytes.length = if !h.modes.nh then 1 else 0 := by
    rw [nhBytes]
    cases h.modes.nh <;> rfl
  have hhlim : h.hlimBytes.length = if h.modes.hlim = HLIM_INLINE then 1 else 0 := by
    rw [hlimBytes]
    cases h.modes.hlim <;> rfl
  simp only [serialize, length_append, length_writeHton, hcid, htf, hnh, hhlim, length_inlineBytes (srcSize_le _),
    length_inlineBytes (dstWritten_le _), readSize]

theorem length_serialize (hdst : dstSize h.modes = dstWritten h.modes) : h.serialize.length = h.getSerializedSize := by
  rw [length_serialize_eq, readSize, getSerializedSize, hdst]

theorem addTo_eq (hlength : h.serialize.length = h.getSerializedSize) (packet : Bytes) : h.addTo packet = some (h.serialize ++ packet) := by
  rw [addTo, hlength, if_pos (Nat.le_add_right _ _), Nat.sub_self, drop_zero]

end

end SixLowPanIphc

end Ns3
