import Ns3.Rlc.Segment

/-!
# Reassembly

The reassembling state machine of a receiving RLC entity, from the list of
segments of a PDU to the SDUs handed up. Both modes have it; they differ in
two transitions when nothing was lost.

A PDU whose content is known either continues the SDU kept from the PDU before
it, or starts over and drops the segment it cannot join.
-/

namespace Ns3

inductive ReassemblingState where
  | waitingS0Full
  | waitingSiSf

structure Reassembly where
  sdusBuffer : List Bytes := []
  reassemblingState : ReassemblingState := .waitingS0Full
  keepS0 : Option Bytes := none
  expectedSeqNumber : SequenceNumber10 := .ofValue 0

/-- The loop over the extension bits: a data field cut at its length
indicators. -/
def splitSdus : List Nat → List Nat → Bytes → Option (List Bytes)
  | 0 :: _, _, packet => some [packet]
  | extensionBit :: es, lengthIndicator :: lis, packet =>
    if lengthIndicator ≤ packet.length then
      if extensionBit = 1 then
        (splitSdus es lis (packet.drop lengthIndicator)).map (packet.take lengthIndicator :: ·)
      else some [packet.take lengthIndicator]
    else none
  | _, _, _ => none

namespace Reassembly

/-- Compares the number of a PDU with the expected one: whether PDUs were lost,
and the number expected next. -/
def noteSeqNumber (r : Reassembly) (currSeqNumber : SequenceNumber10) : Bool × Reassembly :=
  if currSeqNumber.eq r.expectedSeqNumber then
    (false, { r with expectedSeqNumber := r.expectedSeqNumber.incr })
  else (true, { r with expectedSeqNumber := currSeqNumber.add 1 })

def deliverAll (r : Reassembly) : Option (Reassembly × List Bytes) :=
  some ({ r with sdusBuffer := [] }, r.sdusBuffer)

/-- Delivers all but the last segment and keeps that one. -/
def keepLast (r : Reassembly) : Option (Reassembly × List Bytes) :=
  match r.sdusBuffer.getLast? with
  | none => none
  | some s0 => some ({ r with sdusBuffer := [], keepS0 := some s0 }, r.sdusBuffer.dropLast)

def popFront (r : Reassembly) : Option Reassembly :=
  match r.sdusBuffer with
  | [] => none
  | _ :: rest => some { r with sdusBuffer := rest }

/-- The transitions from `WAITING_S0_FULL`, and those after losses, where a kept
segment has been dropped before. -/
def startOver (r : Reassembly) (framingInfo : Nat) : Option (Reassembly × List Bytes) :=
  match framingInfo with
  | 0 => { r with reassemblingState := .waitingS0Full }.deliverAll
  | 1 => { r with reassemblingState := .waitingSiSf }.keepLast
  | 2 =>
    match { r with reassemblingState := .waitingS0Full }.popFront with
    | none => none
    | some r => r.deliverAll
  | 3 =>
    if r.sdusBuffer.length = 1 then
      some ({ r with reassemblingState := .waitingS0Full, sdusBuffer := [] }, [])
    else
      match { r with reassemblingState := .waitingSiSf }.popFront with
      | none => none
      | some r => r.keepLast
  | _ => some (r, [])

/-- The transitions from `WAITING_SI_SF` when nothing was lost: a PDU that does
not continue the kept segment is an error and changes nothing. -/
def continueSdu (r : Reassembly) (framingInfo : Nat) : Option (Reassembly × List Bytes) :=
  match framingInfo, r.keepS0, r.sdusBuffer with
  | 2, some s0, sn :: rest =>
    some ({ r with reassemblingState := .waitingS0Full, keepS0 := some (s0 ++ sn), sdusBuffer := [] },
      (s0 ++ sn) :: rest)
  | 3, some s0, [si] =>
    some ({ r with reassemblingState := .waitingSiSf, keepS0 := some (s0 ++ si), sdusBuffer := [] }, [])
  | 3, some s0, sn :: rest =>
    match { r with reassemblingState := .waitingSiSf, sdusBuffer := rest }.keepLast with
    | none => none
    | some (r, sdus) => some (r, (s0 ++ sn) :: sdus)
  | 2, _, _ => none
  | 3, _, _ => none
  | _, _, _ => some (r, [])

/-! ## PDUs of known content -/

/-- The kept segment, if any, is `kept`, and no segment is left over. -/
def Holds (r : Reassembly) (kept : Option Bytes) : Prop :=
  r.sdusBuffer = [] ∧ match kept with
    | none => r.reassemblingState = .waitingS0Full
    | some p => r.reassemblingState = .waitingSiSf ∧ r.keepS0 = some p

end Reassembly

/-- The SDUs a data field holds whole, and the beginning it ends with. -/
def Content.restart : Content → List Bytes × Option Bytes
  | .middle _ => ([], none)
  | .sdus _ full first => (full, first)

theorem Content.absorb_none {c : Content} (h : c.continues = false) : c.absorb none = c.restart := by
  cases c with
  | middle segment => cases h
  | sdus last full first =>
    cases last with
    | none => rfl
    | some y => cases h

theorem Content.restart_sublist (c : Content) (kept : Option Bytes) : c.restart.1.Sublist (c.absorb kept).1 := by
  cases c with
  | middle segment => exact List.Sublist.refl _
  | sdus last full first => exact List.sublist_append_right ..

theorem Content.restart_kept (c : Content) (kept : Option Bytes) :
    c.restart.2 = none ∨ c.restart.2 = (c.absorb kept).2 := by
  cases c with
  | middle segment => exact .inl rfl
  | sdus last full first => exact .inr rfl

namespace Reassembly

variable {r : Reassembly} {c : Content}

theorem keepLast_append {l : List Bytes} {x : Bytes} (h : r.sdusBuffer = l ++ [x]) :
    r.keepLast = some ({ r with sdusBuffer := [], keepS0 := some x }, l) := by
  simp [keepLast, h]

theorem startOver_content (hbuf : r.sdusBuffer = c.packets) :
    ∃ r', r.startOver c.framingInfo = some (r', c.restart.1) ∧ r'.Holds c.restart.2 ∧
      r'.expectedSeqNumber = r.expectedSeqNumber := by
  cases c with
  | middle segment =>
    have hlen : r.sdusBuffer.length = 1 := by simp [hbuf, Content.packets]
    exact ⟨_, if_pos hlen, ⟨rfl, rfl⟩, rfl⟩
  | sdus last full first =>
    cases last with
    | none =>
      cases first with
      | none =>
        have hfull : r.sdusBuffer = full := by simpa [Content.packets] using hbuf
        subst hfull
        exact ⟨_, rfl, ⟨rfl, rfl⟩, rfl⟩
      | some x =>
        have hfull : r.sdusBuffer = full ++ [x] := by simpa [Content.packets] using hbuf
        exact ⟨_, keepLast_append (r := { r with reassemblingState := .waitingSiSf }) hfull, ⟨rfl, rfl, rfl⟩, rfl⟩
    | some y =>
      cases first with
      | none =>
        have hfull : r.sdusBuffer = y :: full := by simpa [Content.packets] using hbuf
        refine ⟨{ r with reassemblingState := .waitingS0Full, sdusBuffer := [] }, ?_, ⟨rfl, rfl⟩, rfl⟩
        simp [startOver, Content.framingInfo, Content.continues, Content.stops, popFront, hfull, deliverAll,
          Content.restart]
      | some x =>
        have hfull : r.sdusBuffer = y :: (full ++ [x]) := by simpa [Content.packets] using hbuf
        refine ⟨{ r with reassemblingState := .waitingSiSf, sdusBuffer := [], keepS0 := some x }, ?_, ⟨rfl, rfl, rfl⟩,
          rfl⟩
        simp [startOver, Content.framingInfo, Content.continues, Content.stops, popFront, hfull, keepLast,
          Content.restart]

theorem continueSdu_content {p : Bytes} (hkept : r.keepS0 = some p) (hbuf : r.sdusBuffer = c.packets)
    (hc : c.continues = true) :
    ∃ r', r.continueSdu c.framingInfo = some (r', (c.absorb (some p)).1) ∧ r'.Holds (c.absorb (some p)).2 ∧
      r'.expectedSeqNumber = r.expectedSeqNumber := by
  cases c with
  | middle segment =>
    refine ⟨{ r with reassemblingState := .waitingSiSf, keepS0 := some (p ++ segment), sdusBuffer := [] }, ?_,
      ⟨rfl, rfl, rfl⟩, rfl⟩
    simp [continueSdu, Content.framingInfo, Content.continues, Content.stops, hkept, hbuf, Content.packets,
      Content.absorb]
  | sdus last full first =>
    cases last with
    | none => cases hc
    | some y =>
      cases first with
      | none =>
        refine ⟨{ r with reassemblingState := .waitingS0Full, keepS0 := some (p ++ y), sdusBuffer := [] }, ?_,
          ⟨rfl, rfl⟩, rfl⟩
        simp [continueSdu, Content.framingInfo, Content.continues, Content.stops, hkept, hbuf, Content.packets,
          Content.absorb]
      | some x =>
        have hlast := keepLast_append (r := { r with reassemblingState := .waitingSiSf, sdusBuffer := full ++ [x] }) rfl
        refine ⟨{ r with reassemblingState := .waitingSiSf, sdusBuffer := [], keepS0 := some x }, ?_, ⟨rfl, rfl, rfl⟩,
          rfl⟩
        cases full with
        | nil =>
          simp_all [continueSdu, Content.framingInfo, Content.continues, Content.stops, Content.packets, Content.absorb]
        | cons b full =>
          simp_all [continueSdu, Content.framingInfo, Content.continues, Content.stops, Content.packets, Content.absorb]

end Reassembly

theorem splitSdus_flatten : ∀ packets : List Bytes, packets ≠ [] →
    splitSdus (LteRlcHeader.extensionBitsFor (packets.dropLast.map List.length).length)
      (packets.dropLast.map List.length) packets.flatten = some packets
  | [], h => absurd rfl h
  | [packet], _ => by simp [LteRlcHeader.extensionBitsFor, LteRlcHeader.DATA_FIELD_FOLLOWS, splitSdus]
  | p :: q :: packets, _ => by
    have ih := splitSdus_flatten (q :: packets) (by simp)
    simp only [List.dropLast_cons_cons, List.map_cons, List.length_cons, LteRlcHeader.extensionBitsFor_succ,
      LteRlcHeader.E_LI_FIELDS_FOLLOWS, splitSdus, List.flatten_cons (l := p)]
    rw [if_pos (by simp), if_pos trivial, List.drop_left, List.take_left, ih, Option.map_some]

theorem Filled.splits {kept : Option Bytes} {q : List TxPdu} {d : DataField} {c : Content} (h : Filled kept q d c) :
    splitSdus d.extensionBits d.lengthIndicators (d.segments.map TxPdu.pdu).flatten = some c.packets := by
  rw [h.segments, Content.segments_pdu, h.bits, h.indicators]
  exact splitSdus_flatten _ h.nonempty

end Ns3
