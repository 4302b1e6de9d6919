import Ns3.Rlc.AmHeader

/-!
# The bytes of `LteRlcAmHeader`

A data PDU has a fixed part of four bytes and then the same loop over length
indicators as in unacknowledged mode. A STATUS PDU has the number acknowledged
and the NACKs, of ten bits each, two in three bytes, each with the bit that
says whether another one follows.
-/

namespace Ns3

open List

namespace LteRlcAmHeader

open LteRlcHeader (serializeLi deserializeLi extensionBitsFor)

def DATA_FIELD_FOLLOWS : Nat := 0
def E_LI_FIELDS_FOLLOWS : Nat := 1

/-- The loop over the NACKs, from one whose highest bit is written already. -/
def serializeNacks : Nat → List Nat → Bytes
  | oddNack, [] => [UInt8.ofNat ((oddNack >>> 1) &&& 0xff), UInt8.ofNat ((oddNack <<< 7) &&& 0x80)]
  | oddNack, [evenNack] =>
    [UInt8.ofNat ((oddNack >>> 1) &&& 0xff),
      UInt8.ofNat (((oddNack <<< 7) &&& 0x80) ||| 0x40 ||| ((evenNack >>> 5) &&& 0x1f)),
      UInt8.ofNat ((evenNack <<< 3) &&& 0xf8)]
  | oddNack, evenNack :: nextNack :: nacks =>
    UInt8.ofNat ((oddNack >>> 1) &&& 0xff) ::
      UInt8.ofNat (((oddNack <<< 7) &&& 0x80) ||| 0x40 ||| ((evenNack >>> 5) &&& 0x1f)) ::
      UInt8.ofNat (((evenNack <<< 3) &&& 0xf8) ||| 0x04 ||| ((nextNack >>> 9) &&& 0x01)) ::
      serializeNacks nextNack nacks

def serializeControl (h : LteRlcAmHeader) : Bytes :=
  UInt8.ofNat (((CONTROL_PDU <<< 7) &&& 0x80) ||| ((h.controlPduType <<< 4) &&& 0x70) |||
      ((h.ackSn.value >>> 6) &&& 0x0f)) ::
    match h.nackSnList with
    | [] => [UInt8.ofNat ((h.ackSn.value <<< 2) &&& 0xfc)]
    | oddNack :: nacks =>
      UInt8.ofNat (((h.ackSn.value <<< 2) &&& 0xfc) ||| 0x02 ||| ((oddNack >>> 9) &&& 0x01)) ::
        serializeNacks oddNack nacks

/-- The iterator to the first extension bit is read in any case. -/
def serializeData (h : LteRlcAmHeader) : Option Bytes :=
  match h.extensionBits with
  | [] => none
  | e :: es =>
    some (UInt8.ofNat (((DATA_PDU <<< 7) &&& 0x80) ||| ((h.resegmentationFlag <<< 6) &&& 0x40) |||
        ((h.pollingBit <<< 5) &&& 0x20) ||| ((h.framingInfo <<< 3) &&& 0x18) ||| ((e <<< 2) &&& 0x04) |||
        ((h.sequenceNumber.value >>> 8) &&& 0x03)) ::
      UInt8.ofNat (h.sequenceNumber.value &&& 0xff) ::
      UInt8.ofNat (((h.lastSegmentFlag <<< 7) &&& 0x80) ||| ((h.segmentOffset >>> 8) &&& 0x7f)) ::
      UInt8.ofNat (h.segmentOffset &&& 0xff) :: serializeLi es h.lengthIndicators)

def serialize (h : LteRlcAmHeader) : Option Bytes :=
  if h.dataControlBit = DATA_PDU then h.serializeData else some h.serializeControl

/-- The loop `while (moreNacks == 1)`, from the byte that begins the next NACK:
the NACKs and the bytes read. -/
def deserializeNacks (byte : UInt8) : Bytes → Option (List Nat × Nat)
  | [] => none
  | nextByte :: bytes =>
    let evenNack := ((byte.toNat &&& 0x1f) <<< 5) ||| ((nextByte.toNat &&& 0xf8) >>> 3)
    if (nextByte.toNat &&& 0x04) >>> 2 = 1 then
      match bytes with
      | middleByte :: finalByte :: bytes =>
        let oddNack := ((nextByte.toNat &&& 0x01) <<< 9) ||| (middleByte.toNat <<< 1) |||
          ((finalByte.toNat &&& 0x80) >>> 7)
        if (finalByte.toNat &&& 0x40) >>> 6 = 1 then
          (deserializeNacks finalByte bytes).map fun r => (evenNack :: oddNack :: r.1, r.2 + 3)
        else some ([evenNack, oddNack], 3)
      | _ => none
    else some ([evenNack], 1)

def deserializeControl (byte1 : UInt8) : Bytes → Option LteRlcAmHeader
  | [] => none
  | byte2 :: bytes =>
    let controlPduType := (byte1.toNat &&& 0x70) >>> 4
    let ackSn := SequenceNumber10.ofValue (((byte1.toNat &&& 0x0f) <<< 6) ||| ((byte2.toNat &&& 0xfc) >>> 2))
    let h : LteRlcAmHeader := { dataControlBit := CONTROL_PDU, controlPduType := controlPduType, ackSn := ackSn }
    if (byte2.toNat &&& 0x02) >>> 1 = 1 then
      match bytes with
      | byte3 :: byte4 :: bytes =>
        let nack := ((byte2.toNat &&& 0x01) <<< 9) ||| (byte3.toNat <<< 1) ||| ((byte4.toNat &&& 0x80) >>> 7)
        if (byte4.toNat &&& 0x40) >>> 6 = 1 then
          (deserializeNacks byte4 bytes).map fun r => { h with headerLength := 4 + r.2, nackSnList := nack :: r.1 }
        else some { h with headerLength := 4, nackSnList := [nack] }
      | _ => none
    else some { h with headerLength := 2 }

/-- The low byte of the segment offset is not put below the high one. -/
def deserializeData (byte1 : UInt8) : Bytes → Option LteRlcAmHeader
  | byte2 :: byte3 :: byte4 :: bytes =>
    let extensionBit := (byte1.toNat &&& 0x04) >>> 2
    let h : LteRlcAmHeader :=
      { headerLength := 4
        dataControlBit := DATA_PDU
        resegmentationFlag := (byte1.toNat &&& 0x40) >>> 6
        pollingBit := (byte1.toNat &&& 0x20) >>> 5
        framingInfo := (byte1.toNat &&& 0x18) >>> 3
        sequenceNumber := .ofValue (((byte1.toNat &&& 0x03) <<< 8) ||| byte2.toNat)
        lastSegmentFlag := (byte3.toNat &&& 0x80) >>> 7
        segmentOffset := (byte3.toNat &&& 0x7f) ||| byte4.toNat
        extensionBits := [extensionBit] }
    if extensionBit = DATA_FIELD_FOLLOWS then some h
    else
      (deserializeLi bytes).map fun r =>
        { h with headerLength := 4 + r.2.2, extensionBits := extensionBit :: r.1, lengthIndicators := r.2.1 }
  | _ => none

def deserialize : Bytes → Option LteRlcAmHeader
  | [] => none
  | byte1 :: bytes =>
    if (byte1.toNat &&& 0x80) >>> 7 = DATA_PDU then deserializeData byte1 bytes else deserializeControl byte1 bytes

/-! ## STATUS PDUs -/

theorem or_bit_eq_add {a b c : Nat} (k : Nat) (hb : b = 2 ^ k) (ha : a % 2 ^ (k + 1) = 0) (hc : c < 2 ^ k) :
    a ||| b ||| c = a + b + c := by
  subst hb
  have hpow : 2 ^ k < 2 ^ (k + 1) := Nat.pow_lt_pow_right (by decide) (Nat.lt_succ_self k)
  have hdvd : 2 ^ k ∣ a := (Nat.pow_dvd_pow 2 (Nat.le_succ k)).trans (Nat.dvd_of_mod_eq_zero ha)
  rw [or_eq_add (k + 1) ha hpow, or_eq_add k (Nat.mod_eq_zero_of_dvd ((Nat.dvd_add_right hdvd).mpr dvd_rfl)) hc]

theorem ackLowByte_toNat (ack : Nat) {nack : Nat} (hnack : nack < 1024) :
    (UInt8.ofNat (((ack <<< 2) &&& 0xfc) ||| 0x02 ||| ((nack >>> 9) &&& 0x01))).toNat =
      ack % 64 * 4 + 2 + nack / 512 := by
  have h1 : (ack <<< 2) &&& 0xfc = ack % 64 * 4 := field_put ack 6 2 (by decide)
  have h2 : (nack >>> 9) &&& 0x01 = nack / 512 := by
    rw [field_high nack 1 9 (by decide)]
    omega
  rw [h1, h2, or_bit_eq_add 1 (by decide) (by omega) (by omega), UInt8.toNat_ofNat', Nat.mod_eq_of_lt (by omega)]

theorem middleByte_toNat (nack : Nat) :
    (UInt8.ofNat ((nack >>> 1) &&& 0xff)).toNat = nack / 2 % 256 := by
  rw [field_high nack 8 1 (by decide), UInt8.toNat_ofNat']
  omega

theorem finalByte_toNat (oddNack : Nat) {evenNack : Nat} (hnack : evenNack < 1024) :
    (UInt8.ofNat (((oddNack <<< 7) &&& 0x80) ||| 0x40 ||| ((evenNack >>> 5) &&& 0x1f))).toNat =
      oddNack % 2 * 128 + 64 + evenNack / 32 := by
  have h1 : (oddNack <<< 7) &&& 0x80 = oddNack % 2 * 128 := field_put oddNack 1 7 (by decide)
  have h2 : (evenNack >>> 5) &&& 0x1f = evenNack / 32 := by
    rw [field_high evenNack 5 5 (by decide)]
    omega
  rw [h1, h2, or_bit_eq_add 6 (by decide) (by omega) (by omega), UInt8.toNat_ofNat', Nat.mod_eq_of_lt (by omega)]

theorem lastFinalByte_toNat (oddNack : Nat) :
    (UInt8.ofNat ((oddNack <<< 7) &&& 0x80)).toNat = oddNack % 2 * 128 := by
  rw [field_put oddNack 1 7 (by decide), UInt8.toNat_ofNat']
  omega

theorem nextByte_toNat (evenNack : Nat) {nextNack : Nat} (hnack : nextNack < 1024) :
    (UInt8.ofNat (((evenNack <<< 3) &&& 0xf8) ||| 0x04 ||| ((nextNack >>> 9) &&& 0x01))).toNat =
      evenNack % 32 * 8 + 4 + nextNack / 512 := by
  have h1 : (evenNack <<< 3) &&& 0xf8 = evenNack % 32 * 8 := field_put evenNack 5 3 (by decide)
  have h2 : (nextNack >>> 9) &&& 0x01 = nextNack / 512 := by
    rw [field_high nextNack 1 9 (by decide)]
    omega
  rw [h1, h2, or_bit_eq_add 2 (by decide) (by lia) (by lia), UInt8.toNat_ofNat', Nat.mod_eq_of_lt (by lia)]

theorem lastNextByte_toNat (evenNack : Nat) :
    (UInt8.ofNat ((evenNack <<< 3) &&& 0xf8)).toNat = evenNack % 32 * 8 := by
  rw [field_put evenNack 5 3 (by decide), UInt8.toNat_ofNat']
  omega

theorem odd_nack_read {first middle last : UInt8} {nack x y : Nat} (hnack : nack < 1024)
    (hfirst : first.toNat = x * 2 + nack / 512) (hmiddle : middle.toNat = nack / 2 % 256)
    (hlast : last.toNat = nack % 2 * 128 + y) (hy : y < 128) :
    ((first.toNat &&& 0x01) <<< 9 ||| middle.toNat <<< 1 ||| (last.toNat &&& 0x80) >>> 7) = nack := by
  have hhigh : (x * 2 + nack / 512) % 2 ^ 1 * 2 ^ 9 ||| nack / 2 % 256 * 2 ^ 1 =
      (x * 2 + nack / 512) % 2 ^ 1 * 2 ^ 9 + nack / 2 % 256 * 2 ^ 1 := or_eq_add 9 (by omega) (by omega)
  rw [hfirst, hmiddle, hlast, Nat.and_two_pow_sub_one_eq_mod _ 1, field_get _ 1 7 (by decide), Nat.shiftLeft_eq,
    Nat.shiftLeft_eq, hhigh, or_eq_add 1 (by omega) (by omega)]
  omega

theorem even_nack_read {byte next : UInt8} {nack x y : Nat} (hnack : nack < 1024)
    (hbyte : byte.toNat = x * 32 + nack / 32) (hnext : next.toNat = nack % 32 * 8 + y) (hy : y < 8) :
    ((byte.toNat &&& 0x1f) <<< 5 ||| (next.toNat &&& 0xf8) >>> 3) = nack := by
  rw [hbyte, hnext, Nat.and_two_pow_sub_one_eq_mod _ 5, field_get _ 5 3 (by decide), Nat.shiftLeft_eq,
    or_eq_add 5 (by omega) (by omega)]
  omega

/-- The bytes of the NACKs after the first bit. -/
def nacksSize (n : Nat) : Nat := n + (n + 1) / 2

theorem serializeNacks_length : ∀ (oddNack : Nat) (nacks : List Nat),
    (serializeNacks oddNack nacks).length = nacksSize (nacks.length + 1)
  | _, [] => rfl
  | _, [_] => by simp [serializeNacks, nacksSize]
  | _, _ :: nextNack :: nacks => by
    simp only [serializeNacks, List.length_cons, serializeNacks_length nextNack nacks, nacksSize]
    lia

/-- What follows the byte in which an even NACK begins. -/
def afterFinal (evenNack : Nat) : List Nat → Bytes
  | [] => [UInt8.ofNat ((evenNack <<< 3) &&& 0xf8)]
  | nextNack :: nacks =>
    UInt8.ofNat (((evenNack <<< 3) &&& 0xf8) ||| 0x04 ||| ((nextNack >>> 9) &&& 0x01)) :: serializeNacks nextNack nacks

theorem serializeNacks_cons (oddNack evenNack : Nat) (nacks : List Nat) :
    serializeNacks oddNack (evenNack :: nacks) = UInt8.ofNat ((oddNack >>> 1) &&& 0xff) ::
      UInt8.ofNat (((oddNack <<< 7) &&& 0x80) ||| 0x40 ||| ((evenNack >>> 5) &&& 0x1f)) ::
      afterFinal evenNack nacks := by
  cases nacks with
  | nil => simp [serializeNacks, afterFinal]
  | cons nextNack nacks => simp [serializeNacks, afterFinal]

theorem deserializeNacks_eq (rest : Bytes) : ∀ (evenNack : Nat) (nacks : List Nat) (byte : UInt8) (x : Nat),
    (∀ n ∈ evenNack :: nacks, n < 1024) → byte.toNat = x * 32 + evenNack / 32 →
      deserializeNacks byte (afterFinal evenNack nacks ++ rest) =
        some (evenNack :: nacks, nacks.length + 1 + (nacks.length + 1) / 2)
  | evenNack, [], byte, x, hnacks, hbyte => by
    have hlast := lastNextByte_toNat evenNack
    have heven := even_nack_read (hnacks evenNack (by simp)) hbyte (y := 0) hlast (by omega)
    have hmore : ((UInt8.ofNat ((evenNack <<< 3) &&& 0xf8)).toNat &&& 0x04) >>> 2 = 0 := by
      rw [hlast, field_get _ 1 2 (by decide)]
      lia
    rw [afterFinal, cons_append, nil_append]
    unfold deserializeNacks
    simp only [hmore, heven]
    rfl
  | evenNack, nextNack :: nacks, byte, x, hnacks, hbyte => by
    have hnextNack : nextNack < 1024 := hnacks nextNack (by simp)
    have hnext := nextByte_toNat evenNack hnextNack
    have heven := even_nack_read (hnacks evenNack (by simp)) hbyte (y := 4 + nextNack / 512) (by rw [hnext]; lia)
      (by lia)
    have hmore : ((UInt8.ofNat (((evenNack <<< 3) &&& 0xf8) ||| 0x04 ||| ((nextNack >>> 9) &&& 0x01))).toNat &&& 0x04)
        >>> 2 = 1 := by
      rw [hnext, field_get _ 1 2 (by decide)]
      omega
    cases nacks with
    | nil =>
      have hlast := lastFinalByte_toNat nextNack
      have hodd := odd_nack_read (x := evenNack % 32 * 4 + 2) hnextNack (by rw [hnext]; lia)
        (middleByte_toNat nextNack) (y := 0) hlast (by lia)
      have hend : ((UInt8.ofNat ((nextNack <<< 7) &&& 0x80)).toNat &&& 0x40) >>> 6 = 0 := by
        rw [hlast, field_get _ 1 6 (by decide)]
        lia
      simp only [afterFinal, serializeNacks, cons_append, nil_append, deserializeNacks, hmore, heven, hodd,
        hend, if_true]
      simp
    | cons evenNack₂ nacks =>
      have hnack₂ : evenNack₂ < 1024 := hnacks evenNack₂ (by simp)
      have hfinal := finalByte_toNat nextNack hnack₂
      have hodd := odd_nack_read (x := evenNack % 32 * 4 + 2) hnextNack (by rw [hnext]; lia)
        (middleByte_toNat nextNack) (y := 64 + evenNack₂ / 32) (by rw [hfinal]; lia) (by lia)
      have hgoesOn : ((UInt8.ofNat (((nextNack <<< 7) &&& 0x80) ||| 0x40 ||| ((evenNack₂ >>> 5) &&& 0x1f))).toNat &&&
          0x40) >>> 6 = 1 := by
        rw [hfinal, field_get _ 1 6 (by decide)]
        omega
      have ih := deserializeNacks_eq rest evenNack₂ nacks _ (nextNack % 2 * 4 + 2)
        (fun n hn => hnacks n (by simp_all)) (by rw [hfinal]; omega)
      rw [afterFinal, serializeNacks_cons]
      simp only [cons_append, deserializeNacks, hmore, heven, hodd, hgoesOn, ih,
        if_true, Option.map_some, length_cons, Option.some.injEq, Prod.mk.injEq, true_and]
      omega

/-- The header of a STATUS PDU: the NACKs are pushed one after another. -/
def buildStatus (ackSn : SequenceNumber10) (nacks : List Nat) : Option LteRlcAmHeader :=
  (nacks.foldlM pushNack (setControlPdu {} STATUS_PDU)).map fun h => h.setAckSn ackSn

theorem foldlM_pushNack : ∀ (nacks : List Nat) (h : LteRlcAmHeader), h.isStatusPdu = true →
    h.headerLength = 2 + nacksSize h.nackSnList.length →
    nacks.foldlM pushNack h = some { h with
      nackSnList := h.nackSnList ++ nacks
      headerLength := 2 + nacksSize (h.nackSnList.length + nacks.length) } := by
  intro nacks
  induction nacks with
  | nil =>
    intro h hstatus hsize
    simp [← hsize]
  | cons nack nacks ih =>
    intro h hstatus hsize
    have hpush : h.pushNack nack = some { h with
        nackSnList := h.nackSnList ++ [nack], headerLength := 2 + nacksSize (h.nackSnList.length + 1) } := by
      have hlength : (if (h.nackSnList.length + 1) % 2 = 0 then h.headerLength + 1 else h.headerLength + 2) =
          2 + nacksSize (h.nackSnList.length + 1) := by
        rw [hsize]
        simp only [nacksSize]
        split <;> omega
      simp [pushNack, hstatus, hlength]
    have hnext := ih { h with
      nackSnList := h.nackSnList ++ [nack], headerLength := 2 + nacksSize (h.nackSnList.length + 1) } hstatus (by simp)
    rw [foldlM_cons, hpush, Option.bind_eq_bind, Option.bind_some, hnext]
    simp [Nat.add_assoc, Nat.add_comm 1]

theorem buildStatus_eq (ackSn : SequenceNumber10) (nacks : List Nat) :
    buildStatus ackSn nacks = some { setControlPdu {} STATUS_PDU with
      ackSn := ackSn, nackSnList := nacks, headerLength := 2 + nacksSize nacks.length } := by
  rw [buildStatus, foldlM_pushNack nacks _ rfl rfl]
  simp [setAckSn, setControlPdu]

/-- The bytes have the serialized size, and `Deserialize` of them finds the same
ACK_SN and NACKs and returns that size. -/
def StatusRoundTrips (ackSn : SequenceNumber10) (nacks : List Nat) : Prop :=
  ∃ h bytes, buildStatus ackSn nacks = some h ∧ h.serialize = some bytes ∧ bytes.length = h.getSerializedSize ∧
    ∃ h', deserialize bytes = some h' ∧ h'.ackSn.value = ackSn.value ∧ h'.nackSnList = nacks ∧
      h'.getSerializedSize = h.getSerializedSize

theorem serializeControl_length (h : LteRlcAmHeader) :
    h.serializeControl.length = 2 + nacksSize h.nackSnList.length := by
  unfold serializeControl
  cases h.nackSnList with
  | nil => rfl
  | cons oddNack nacks =>
    simp only [length_cons, serializeNacks_length]
    omega

theorem ack_read {byte1 byte2 : UInt8} {ack x : Nat} (hack : ack < 1024) (h1 : byte1.toNat = ack / 64)
    (h2 : byte2.toNat = ack % 64 * 4 + x) (hx : x < 4) :
    ((byte1.toNat &&& 0x0f) <<< 6 ||| (byte2.toNat &&& 0xfc) >>> 2) = ack := by
  rw [h1, h2, Nat.and_two_pow_sub_one_eq_mod _ 4, field_get _ 6 2 (by decide), Nat.shiftLeft_eq,
    or_eq_add 6 (by omega) (by omega)]
  omega

theorem deserialize_serializeControl {h : LteRlcAmHeader} (htype : h.controlPduType = STATUS_PDU)
    (hack : h.ackSn.value < 1024) (hnacks : ∀ n ∈ h.nackSnList, n < 1024) :
    ∃ h', deserialize h.serializeControl = some h' ∧ h'.ackSn.value = h.ackSn.value ∧ h'.nackSnList = h.nackSnList ∧
      h'.headerLength = 2 + nacksSize h.nackSnList.length := by
  have hfirst : (UInt8.ofNat (((CONTROL_PDU <<< 7) &&& 0x80) ||| ((h.controlPduType <<< 4) &&& 0x70) |||
      ((h.ackSn.value >>> 6) &&& 0x0f))).toNat = h.ackSn.value / 64 := by
    have h1 : (h.ackSn.value >>> 6) &&& 0x0f = h.ackSn.value / 64 := by
      rw [field_high _ 4 6 (by decide)]
      omega
    rw [htype, h1]
    simp only [CONTROL_PDU, STATUS_PDU, Nat.zero_shiftLeft, Nat.zero_and, Nat.zero_or]
    rw [UInt8.toNat_ofNat', Nat.mod_eq_of_lt (by omega)]
  have hcontrol : ((UInt8.ofNat (((CONTROL_PDU <<< 7) &&& 0x80) ||| ((h.controlPduType <<< 4) &&& 0x70) |||
      ((h.ackSn.value >>> 6) &&& 0x0f))).toNat &&& 0x80) >>> 7 ≠ DATA_PDU := by
    rw [hfirst, field_get _ 1 7 (by decide), DATA_PDU]
    omega
  unfold serializeControl deserialize
  dsimp only
  rw [if_neg hcontrol]
  cases hlist : h.nackSnList with
  | nil =>
    have hlow : (UInt8.ofNat ((h.ackSn.value <<< 2) &&& 0xfc)).toNat = h.ackSn.value % 64 * 4 := by
      rw [field_put _ 6 2 (by decide), UInt8.toNat_ofNat']
      omega
    have hnone : ((UInt8.ofNat ((h.ackSn.value <<< 2) &&& 0xfc)).toNat &&& 0x02) >>> 1 ≠ 1 := by
      rw [hlow, field_get _ 1 1 (by decide)]
      omega
    have hread := ack_read hack hfirst (x := 0) hlow (by omega)
    simp only [deserializeControl, hread, if_neg hnone]
    exact ⟨_, rfl, Nat.mod_eq_of_lt hack, rfl, rfl⟩
  | cons oddNack nacks =>
    rw [hlist] at hnacks
    have hodd : oddNack < 1024 := hnacks oddNack (by simp)
    have hlow := ackLowByte_toNat h.ackSn.value hodd
    have hsome : ((UInt8.ofNat (((h.ackSn.value <<< 2) &&& 0xfc) ||| 0x02 ||| ((oddNack >>> 9) &&& 0x01))).toNat &&&
        0x02) >>> 1 = 1 := by
      rw [hlow, field_get _ 1 1 (by decide)]
      omega
    have hread := ack_read hack hfirst (x := 2 + oddNack / 512) (by rw [hlow]; omega) (by omega)
    cases nacks with
    | nil =>
      have hlast := lastFinalByte_toNat oddNack
      have hnack := odd_nack_read (x := h.ackSn.value % 64 * 2 + 1) hodd (by rw [hlow]; omega)
        (middleByte_toNat oddNack) (y := 0) hlast (by omega)
      have hend : ((UInt8.ofNat ((oddNack <<< 7) &&& 0x80)).toNat &&& 0x40) >>> 6 ≠ 1 := by
        rw [hlast, field_get _ 1 6 (by decide)]
        omega
      simp only [serializeNacks, deserializeControl, hread, hnack, if_pos hsome, if_neg hend]
      exact ⟨_, rfl, Nat.mod_eq_of_lt hack, rfl, by simp [nacksSize]⟩
    | cons evenNack nacks =>
      have heven : evenNack < 1024 := hnacks evenNack (by simp)
      have hfinal := finalByte_toNat oddNack heven
      have hnack := odd_nack_read (x := h.ackSn.value % 64 * 2 + 1) hodd (by rw [hlow]; omega)
        (middleByte_toNat oddNack) (y := 64 + evenNack / 32) (by rw [hfinal]; omega) (by omega)
      have hgoesOn : ((UInt8.ofNat (((oddNack <<< 7) &&& 0x80) ||| 0x40 ||| ((evenNack >>> 5) &&& 0x1f))).toNat &&&
          0x40) >>> 6 = 1 := by
        rw [hfinal, field_get _ 1 6 (by decide)]
        omega
      have hloop := deserializeNacks_eq [] evenNack nacks _ (oddNack % 2 * 4 + 2) (fun n hn => hnacks n (by simp_all))
        (by rw [hfinal]; omega)
      rw [append_nil] at hloop
      simp only [serializeNacks_cons, deserializeControl, hread, hnack, if_pos hsome, if_pos hgoesOn, hloop,
        Option.map_some]
      refine ⟨_, rfl, Nat.mod_eq_of_lt hack, rfl, ?_⟩
      simp only [length_cons, nacksSize]
      omega

section
variable {ackSn : SequenceNumber10} {nacks : List Nat}

/-- **Round trip.** The codec of every STATUS PDU of up to 43688 NACKs; the header
with one more has 65536 bytes. -/
theorem status_roundTrips (hack : ackSn.value < 1024) (hnacks : ∀ n ∈ nacks, n < 1024) (hlength : nacks.length < 43689) :
    StatusRoundTrips ackSn nacks := by
  obtain ⟨h', hread, hack', hnacks', hsize⟩ := deserialize_serializeControl
    (h := { setControlPdu {} STATUS_PDU with
      ackSn := ackSn, nackSnList := nacks, headerLength := 2 + nacksSize nacks.length }) rfl hack hnacks
  refine ⟨_, _, buildStatus_eq ackSn nacks, rfl, ?_, h', hread, hack', hnacks', ?_⟩
  · rw [serializeControl_length, getSerializedSize]
    simp only [nacksSize]
    omega
  · rw [getSerializedSize, hsize, getSerializedSize]

theorem length_of_statusRoundTrips (h : StatusRoundTrips ackSn nacks) : nacks.length < 43689 := by
  obtain ⟨h, bytes, hbuild, hs, hlen, -⟩ := h
  cases hbuild.symm.trans (buildStatus_eq ackSn nacks)
  cases hs
  rw [serializeControl_length, getSerializedSize] at hlen
  simp only [nacksSize] at hlen
  omega

end

theorem status_roundTrips_three : StatusRoundTrips (.ofValue 1023) [0, 1023, 512] :=
  status_roundTrips (by decide) (by decide) (by decide)

/-- **The size of 16 bits overflows** at 43689 NACKs: it is 0. -/
theorem status_not_roundTrips : ¬ ∀ nacks : List Nat, (∀ n ∈ nacks, n < 1024) → StatusRoundTrips (.ofValue 0) nacks := by
  intro hall
  have hlt := length_of_statusRoundTrips (hall (replicate 43689 0) fun n hn => by
    rw [eq_of_mem_replicate hn]
    decide)
  rw [length_replicate] at hlt
  exact absurd hlt (Nat.lt_irrefl 43689)

/-! ## Data PDUs -/

/-- The header of a data PDU with all its fields. -/
def buildData (sequenceNumber : SequenceNumber10) (framingInfo pollingBit resegmentationFlag lastSegmentFlag
    segmentOffset : Nat) (lengthIndicators : List Nat) : LteRlcAmHeader :=
  let h := (extensionBitsFor lengthIndicators.length).foldl pushExtensionBit (setDataPdu {})
  let h := lengthIndicators.foldl pushLengthIndicator h
  let h := (h.setSequenceNumber sequenceNumber).setResegmentationFlag resegmentationFlag
  let h := (h.setLastSegmentFlag lastSegmentFlag).setSegmentOffset segmentOffset
  (h.setFramingInfo framingInfo).setPollingBit pollingBit

/-- The bytes have the serialized size, and `Deserialize` of them finds the same
fields and returns that size. -/
def DataRoundTrips (h : LteRlcAmHeader) : Prop :=
  ∃ bytes, h.serialize = some bytes ∧ bytes.length = h.getSerializedSize ∧
    ∃ h', deserialize bytes = some h' ∧ h'.dataControlBit = h.dataControlBit ∧
      h'.sequenceNumber.value = h.sequenceNumber.value ∧ h'.framingInfo = h.framingInfo ∧
      h'.pollingBit = h.pollingBit ∧ h'.resegmentationFlag = h.resegmentationFlag ∧
      h'.lastSegmentFlag = h.lastSegmentFlag ∧ h'.segmentOffset = h.segmentOffset ∧
      h'.extensionBits = h.extensionBits ∧ h'.lengthIndicators = h.lengthIndicators ∧
      h'.getSerializedSize = h.getSerializedSize

/-- A data header with fields that fit their bits. -/
structure IsBuilt (h : LteRlcAmHeader) : Prop where
  data : h.dataControlBit = DATA_PDU
  number : h.sequenceNumber.value < 1024
  framing : h.framingInfo < 4
  polling : h.pollingBit < 2
  resegmentation : h.resegmentationFlag < 2
  lastSegment : h.lastSegmentFlag < 2
  offset : h.segmentOffset < 32768
  extension : h.extensionBits = extensionBitsFor h.lengthIndicators.length
  lengths : ∀ li ∈ h.lengthIndicators, li < 2048
  size : h.headerLength = h.lengthIndicators.length + 4 + (h.lengthIndicators.length + 1) / 2

theorem buildData_isBuilt {sequenceNumber : SequenceNumber10} (framingInfo pollingBit resegmentationFlag
    lastSegmentFlag segmentOffset : Nat) {lengthIndicators : List Nat} (hsn : sequenceNumber.value < 1024)
    (hli : ∀ li ∈ lengthIndicators, li < 2048) :
    IsBuilt (buildData sequenceNumber framingInfo pollingBit resegmentationFlag lastSegmentFlag segmentOffset
      lengthIndicators) := by
  simp only [buildData, foldl_pushExtensionBit _ (setDataPdu {}) rfl, foldl_pushLengthIndicator, setSequenceNumber,
    setResegmentationFlag, setLastSegmentFlag, setSegmentOffset, setFramingInfo, setPollingBit]
  refine ⟨rfl, hsn, ?_, ?_, ?_, ?_, ?_, by simp [setDataPdu], hli, ?_⟩
  · exact Nat.lt_succ_of_le Nat.and_le_right
  · exact Nat.lt_succ_of_le Nat.and_le_right
  · exact Nat.lt_succ_of_le Nat.and_le_right
  · exact Nat.lt_succ_of_le Nat.and_le_right
  · exact Nat.lt_succ_of_le Nat.and_le_right
  · simp [setDataPdu, dataSize]

section
variable {h : LteRlcAmHeader}

theorem firstByte_toNat {e : Nat} (hb : IsBuilt h) (he : e < 2) :
    (UInt8.ofNat (((DATA_PDU <<< 7) &&& 0x80) ||| ((h.resegmentationFlag <<< 6) &&& 0x40) |||
        ((h.pollingBit <<< 5) &&& 0x20) ||| ((h.framingInfo <<< 3) &&& 0x18) ||| ((e <<< 2) &&& 0x04) |||
        ((h.sequenceNumber.value >>> 8) &&& 0x03))).toNat =
      128 + h.resegmentationFlag * 64 + h.pollingBit * 32 + h.framingInfo * 8 + e * 4 +
        h.sequenceNumber.value / 256 := by
  obtain ⟨-, hsn, hfi, hp, hr, -, -, -, -, -⟩ := hb
  have h1 : (DATA_PDU <<< 7) &&& 0x80 = 128 := rfl
  have h2 : (h.resegmentationFlag <<< 6) &&& 0x40 = h.resegmentationFlag * 64 := by
    rw [field_put _ 1 6 (by decide)]
    omega
  have h3 : (h.pollingBit <<< 5) &&& 0x20 = h.pollingBit * 32 := by
    rw [field_put _ 1 5 (by decide)]
    lia
  have h4 : (h.framingInfo <<< 3) &&& 0x18 = h.framingInfo * 8 := by
    rw [field_put _ 2 3 (by decide)]
    omega
  have h5 : (e <<< 2) &&& 0x04 = e * 4 := by
    rw [field_put _ 1 2 (by decide)]
    lia
  have h6 : (h.sequenceNumber.value >>> 8) &&& 0x03 = h.sequenceNumber.value / 256 := by
    rw [field_high _ 2 8 (by decide)]
    lia
  have o1 : 128 ||| h.resegmentationFlag * 64 = 128 + h.resegmentationFlag * 64 := or_eq_add 7 (by omega) (by omega)
  have o2 : 128 + h.resegmentationFlag * 64 ||| h.pollingBit * 32 =
      128 + h.resegmentationFlag * 64 + h.pollingBit * 32 := or_eq_add 6 (by omega) (by omega)
  have o3 : 128 + h.resegmentationFlag * 64 + h.pollingBit * 32 ||| h.framingInfo * 8 =
      128 + h.resegmentationFlag * 64 + h.pollingBit * 32 + h.framingInfo * 8 := or_eq_add 5 (by omega) (by omega)
  have o4 : 128 + h.resegmentationFlag * 64 + h.pollingBit * 32 + h.framingInfo * 8 ||| e * 4 =
      128 + h.resegmentationFlag * 64 + h.pollingBit * 32 + h.framingInfo * 8 + e * 4 :=
    or_eq_add 3 (by omega) (by omega)
  rw [h1, h2, h3, h4, h5, h6, o1, o2, o3, o4, or_eq_add 2 (by omega) (by omega), UInt8.toNat_ofNat',
    Nat.mod_eq_of_lt (by omega)]

theorem fixed_read {x y : UInt8} {rf p fi e sn : Nat} (hr : rf < 2) (hp : p < 2) (hf : fi < 4) (he : e < 2)
    (hn : sn < 1024) (hx : x.toNat = 128 + rf * 64 + p * 32 + fi * 8 + e * 4 + sn / 256) (hy : y.toNat = sn % 256) :
    (x.toNat &&& 0x80) >>> 7 = DATA_PDU ∧ (x.toNat &&& 0x40) >>> 6 = rf ∧ (x.toNat &&& 0x20) >>> 5 = p ∧
      (x.toNat &&& 0x18) >>> 3 = fi ∧ (x.toNat &&& 0x04) >>> 2 = e ∧ (((x.toNat &&& 0x03) <<< 8) ||| y.toNat) = sn := by
  rw [hx, hy, field_get _ 1 7 (by decide), field_get _ 1 6 (by decide), field_get _ 1 5 (by decide),
    field_get _ 2 3 (by decide), field_get _ 1 2 (by decide), Nat.and_two_pow_sub_one_eq_mod _ 2,
    Nat.shiftLeft_eq, or_eq_add 8 (by lia) (by lia), DATA_PDU]
  refine ⟨?_, ?_, ?_, ?_, ?_, ?_⟩ <;> omega

theorem offset_read {lsf so : Nat} (hl : lsf < 2) (hs : so < 32768) {x y : UInt8}
    (hx : x = UInt8.ofNat (((lsf <<< 7) &&& 0x80) ||| ((so >>> 8) &&& 0x7f))) (hy : y = UInt8.ofNat (so &&& 0xff)) :
    (x.toNat &&& 0x80) >>> 7 = lsf ∧ (x.toNat &&& 0x7f ||| y.toNat) = (so / 256 ||| so % 256) := by
  have h1 : (lsf <<< 7) &&& 0x80 = lsf * 128 := by
    rw [field_put _ 1 7 (by decide)]
    omega
  have h2 : (so >>> 8) &&& 0x7f = so / 256 := by
    rw [field_high _ 7 8 (by decide)]
    omega
  have hx' : x.toNat = lsf * 128 + so / 256 := by
    rw [hx, h1, h2, or_eq_add 7 (by omega) (by omega), UInt8.toNat_ofNat', Nat.mod_eq_of_lt (by omega)]
  have hy' : y.toNat = so % 256 := by rw [hy, LteRlcHeader.lowByte_toNat]
  have hlow : (lsf * 128 + so / 256) % 2 ^ 7 = so / 256 := by omega
  rw [hx', hy', field_get _ 1 7 (by decide), Nat.and_two_pow_sub_one_eq_mod _ 7, hlow]
  exact ⟨by omega, rfl⟩

theorem IsBuilt.serialize_length (hb : IsBuilt h) : ∃ bytes, h.serialize = some bytes ∧
    bytes.length = h.headerLength := by
  have hext := hb.extension
  unfold serialize serializeData
  rw [if_pos hb.data, hb.size]
  cases hl : h.lengthIndicators with
  | nil =>
    rw [hl] at hext
    rw [hext]
    exact ⟨_, rfl, rfl⟩
  | cons li lis =>
    rw [hl, length_cons, LteRlcHeader.extensionBitsFor_succ] at hext
    rw [hext]
    refine ⟨_, rfl, ?_⟩
    simp only [length_cons, LteRlcHeader.serializeLi_length]
    omega

/-- The header that `Deserialize` finds: all fields are those of `h`, but for
the segment offset. -/
def readBack (h : LteRlcAmHeader) : LteRlcAmHeader :=
  { headerLength := h.headerLength
    dataControlBit := DATA_PDU
    resegmentationFlag := h.resegmentationFlag
    pollingBit := h.pollingBit
    framingInfo := h.framingInfo
    sequenceNumber := .ofValue h.sequenceNumber.value
    lastSegmentFlag := h.lastSegmentFlag
    segmentOffset := h.segmentOffset / 256 ||| h.segmentOffset % 256
    extensionBits := h.extensionBits
    lengthIndicators := h.lengthIndicators }

theorem IsBuilt.deserialize_serialize (hb : IsBuilt h) {bytes : Bytes} (hs : h.serialize = some bytes) :
    deserialize bytes = some h.readBack := by
  have hext := hb.extension
  have hsize := hb.size
  have hlow := LteRlcHeader.lowByte_toNat h.sequenceNumber.value
  obtain ⟨hlsf, hso⟩ := offset_read hb.lastSegment hb.offset rfl rfl
  unfold serialize serializeData at hs
  rw [if_pos hb.data] at hs
  unfold readBack
  cases hl : h.lengthIndicators with
  | nil =>
    rw [hl] at hext hsize hs
    rw [hext] at hs ⊢
    obtain ⟨hkind, hR, hP, hF, hE, hN⟩ := fixed_read hb.resegmentation hb.polling hb.framing
      (show LteRlcHeader.DATA_FIELD_FOLLOWS < 2 by decide) hb.number (firstByte_toNat hb (by decide)) hlow
    cases hs
    simp only [deserialize, deserializeData, hkind, hR, hP, hF, hE, hN, hlsf, hso, hsize]
    rfl
  | cons li lis =>
    have hli := hb.lengths
    rw [hl] at hext hsize hs hli
    rw [length_cons, LteRlcHeader.extensionBitsFor_succ] at hext
    rw [hext] at hs ⊢
    obtain ⟨hkind, hR, hP, hF, hE, hN⟩ := fixed_read hb.resegmentation hb.polling hb.framing
      (show LteRlcHeader.E_LI_FIELDS_FOLLOWS < 2 by decide) hb.number (firstByte_toNat hb (by decide)) hlow
    have hloop := LteRlcHeader.deserializeLi_serializeLi [] li lis hli
    rw [append_nil] at hloop
    have hmore : LteRlcHeader.E_LI_FIELDS_FOLLOWS ≠ DATA_FIELD_FOLLOWS := by decide
    have hlength : 4 + (lis.length + 1 + (lis.length + 2) / 2) = h.headerLength := by
      rw [hsize, length_cons]
      lia
    cases hs
    simp only [deserialize, deserializeData, hkind, hR, hP, hF, hE, hN, hlsf, hso, if_neg hmore, hloop, Option.map_some,
      hlength, if_true]

theorem offset_kept_iff {so : Nat} (hso : so < 32768) : (so / 256 ||| so % 256) = so ↔ so < 256 := by
  constructor
  · intro heq
    rw [← heq]
    exact Nat.or_lt_two_pow (n := 8) (by omega) (by omega)
  · intro hlt
    rw [Nat.div_eq_of_lt hlt, Nat.mod_eq_of_lt hlt, Nat.zero_or]

/-- **Round trip.** The codec of a data header, exactly when its segment offset
fits one byte and its length 16 bits. -/
theorem IsBuilt.readsBack_iff (hb : IsBuilt h) :
    DataRoundTrips h ↔ h.segmentOffset < 256 ∧ h.lengthIndicators.length < 43688 := by
  obtain ⟨bytes, hs, hlen⟩ := hb.serialize_length
  have hread := hb.deserialize_serialize hs
  have hsize := hb.size
  constructor
  · rintro ⟨bytes', hs', hlen', h', hread', -, -, -, -, -, -, hoffset, -, -, -⟩
    cases hs.symm.trans hs'
    cases hread.symm.trans hread'
    rw [hlen, getSerializedSize] at hlen'
    exact ⟨(offset_kept_iff hb.offset).mp hoffset, by omega⟩
  · rintro ⟨hoffset, hlength⟩
    refine ⟨bytes, hs, ?_, _, hread, hb.data.symm, Nat.mod_eq_of_lt hb.number, rfl, rfl, rfl, rfl,
      (offset_kept_iff hb.offset).mpr hoffset, rfl, rfl, rfl⟩
    rw [hlen, getSerializedSize]
    omega

end

/-- **Round trip.** The codec of every data header whose segment offset is below
256 and that has up to 43688 extension bits, and of no other. -/
theorem data_roundTrips_iff (sequenceNumber : SequenceNumber10) (framingInfo pollingBit resegmentationFlag
    lastSegmentFlag segmentOffset : Nat) (lengthIndicators : List Nat) (hsn : sequenceNumber.value < 1024)
    (hso : segmentOffset < 32768) (hli : ∀ li ∈ lengthIndicators, li < 2048) :
    DataRoundTrips (buildData sequenceNumber framingInfo pollingBit resegmentationFlag lastSegmentFlag segmentOffset
      lengthIndicators) ↔ segmentOffset < 256 ∧ lengthIndicators.length < 43688 := by
  have hb := buildData_isBuilt framingInfo pollingBit resegmentationFlag lastSegmentFlag segmentOffset hsn hli
  have hmask : segmentOffset &&& 0x7FFF = segmentOffset := by
    rw [Nat.and_two_pow_sub_one_eq_mod _ 15]
    exact Nat.mod_eq_of_lt hso
  rw [hb.readsBack_iff]
  simp only [buildData, foldl_pushExtensionBit _ (setDataPdu {}) rfl, foldl_pushLengthIndicator, setSequenceNumber,
    setResegmentationFlag, setLastSegmentFlag, setSegmentOffset, setFramingInfo, setPollingBit, hmask]
  rfl

theorem data_roundTrips_low : DataRoundTrips (buildData (.ofValue 1023) 3 1 1 1 255 [2047, 5]) :=
  (data_roundTrips_iff _ _ _ _ _ _ _ (by decide) (by decide) (by decide)).mpr (by decide)

/-- **The segment offset is lost**: 256 is read back as 1. -/
theorem data_offset_lost : ¬ DataRoundTrips (buildData (.ofValue 0) 0 0 1 1 256 []) ∧
    (((buildData (.ofValue 0) 0 0 1 1 256 []).serialize.bind deserialize).map segmentOffset) = some 1 := by
  refine ⟨fun h => ?_, by decide⟩
  have hb : IsBuilt (buildData (.ofValue 0) 0 0 1 1 256 []) := buildData_isBuilt 0 0 1 1 256 (by decide) (by decide)
  exact absurd (hb.readsBack_iff.mp h).1 (by decide)

end LteRlcAmHeader

end Ns3
