import Mathlib.Algebra.BigOperators.Group.List.Basic
import Ns3.Rlc.Um

/-!
# `BwpManagerGnb`

A transmission opportunity of a logical channel with two RLC entities, which
take turns as long as there is room. An entity answers with the bytes that
remain and two flags: whether it offers them to the other one, and whether it
had nothing to send. Each PDU goes to the MAC, which adds its header and
checks that the transport block holds all.
-/

namespace Ns3

open LteRlcHeader List

namespace NrMacHeaderVsDl

/-- `m_size` has 16 bits. -/
def getSerializedSize (size : Nat) : Nat := if size % 65536 > 127 then 4 else 3

end NrMacHeaderVsDl

/-- What a PDU takes of the transport block. -/
def macSize (pdu : Bytes) : Nat := NrMacHeaderVsDl.getSerializedSize pdu.length + pdu.length

/-- The part of `DoTransmitPdu` that counts the bytes of the transport block. -/
def NrGnbMac.doTransmitPdu (tbSize used : Nat) (pdu : Bytes) : Option Nat :=
  if used + macSize pdu ≤ tbSize then some (used + macSize pdu) else none

/-- The manager, with the RLC entities of the channel and of the channel plus 99. -/
structure BwpManagerGnb where
  flagForRlc2 : Nat := 0
  rlc0 : LteRlcUmTx := {}
  rlc2 : LteRlcUmTx := {}

namespace BwpManagerGnb

structure Turn where
  signOfRlc : Nat
  bytes : Nat
  pdus : List Bytes

structure Loop where
  manager : BwpManagerGnb
  toogleOfRlc0 : Bool := true
  toogleOfRlc2 : Bool := true
  noDataRlc0 : Bool := false
  noDataRlc2 : Bool := false
  remain : Nat := 0
  toogleInt : Nat := 0
  turns : List Turn := []

namespace Loop

/-- `NotifyTxOpportunity` of the first entity; the flags are copied by the SAP. -/
def notifyRlc0 (l : Loop) (bytes : Nat) : Option Loop :=
  match l.manager.rlc0.doNotifyTxOpportunityFlag bytes 0 with
  | none => none
  | some (rlc0, pdus, remain) =>
    some { l with
      manager := { l.manager with rlc0 := rlc0 }
      remain := remain % 4294967296
      toogleOfRlc0 := rlc0.toogleFlagRlc
      noDataRlc0 := rlc0.noDataFlagRlc
      turns := l.turns ++ [⟨0, bytes, pdus⟩] }

def notifyRlc2 (l : Loop) (bytes : Nat) : Option Loop :=
  match l.manager.rlc2.doNotifyTxOpportunityFlag bytes 2 with
  | none => none
  | some (rlc2, pdus, remain) =>
    some { l with
      manager := { l.manager with rlc2 := rlc2 }
      remain := remain % 4294967296
      toogleOfRlc2 := rlc2.toogleFlagRlc
      noDataRlc2 := rlc2.noDataFlagRlc
      turns := l.turns ++ [⟨2, bytes, pdus⟩] }

def next (l : Loop) : Option Loop :=
  let bytes := sub32 (sub32 l.remain 3) 1
  let l' := { l with toogleInt := l.toogleInt + 1 }
  if l.toogleInt % 2 = 1 then l'.notifyRlc2 bytes else l'.notifyRlc0 bytes

def setFlagForRlc2 (l : Loop) (flag : Nat) : Loop := { l with manager := { l.manager with flagForRlc2 := flag } }

/-- `while (toogleOfRlc0 && toogleOfRlc2)`. -/
def run : Nat → Loop → Option Loop
  | 0, _ => none
  | fuel + 1, l =>
    if l.toogleOfRlc0 && l.toogleOfRlc2 then
      match l.next with
      | none => none
      | some l =>
        if l.noDataRlc0 && l.noDataRlc2 then some (l.setFlagForRlc2 0) else run fuel (l.setFlagForRlc2 l.remain)
    else some l

end Loop

/-- The first call, and then the loop; `toogleInt` only counts the first one
when it is that of the first entity. -/
def serve (m : BwpManagerGnb) (bytes : Nat) : Option (BwpManagerGnb × List Turn) :=
  match if m.flagForRlc2 = 0 then Loop.notifyRlc0 { manager := m, toogleInt := 1 } bytes
    else Loop.notifyRlc2 { manager := m } bytes with
  | none => none
  | some l =>
    match l.run (2 * bytes + 3) with
    | none => none
    | some l => some (l.manager, l.turns)

/-- A byte is taken off for the sign of the RLC in the MAC header. -/
def doNotifyTxOpportunity (m : BwpManagerGnb) (bytes : Nat) : Option (BwpManagerGnb × List Turn) :=
  m.serve (sub32 bytes 1)

end BwpManagerGnb

/-! ## What an entity answers -/

namespace LteRlcUmTx

/-- No packet of the buffer is empty. -/
def Stocked (s : LteRlcUmTx) : Prop := ∀ t ∈ s.txBuffer, t.pdu ≠ []

theorem buildPdu_single (sn : SequenceNumber10) {d : DataField} {t : TxPdu} (hsegments : d.segments = [t])
    (hbits : d.extensionBits = [DATA_FIELD_FOLLOWS]) (hlengths : d.lengthIndicators = []) :
    ∃ packet, buildPdu sn d = some packet ∧ packet.length = t.size + 2 := by
  unfold buildPdu
  rw [hsegments, hbits, hlengths]
  simp [framingInfoOf, addHeader, getSerializedSize, pushExtensionBit,
    lengthWith, setSequenceNumber, setFramingInfo, serialize, serializeLi, TxPdu.size]

/-- What an entity does with an opportunity: it is too small for more than it
sends, or there is nothing to send, or a whole SDU is sent and more fits. -/
inductive Answer (bytes : Nat) (s' : LteRlcUmTx) : List Bytes → Nat → Prop
  | done {pdus remain} : s'.toogleFlagRlc = false → s'.noDataFlagRlc = false → pdus.length ≤ 1 →
      (∀ p ∈ pdus, p.length ≤ bytes) → Answer bytes s' pdus remain
  | noData : s'.toogleFlagRlc = true → s'.noDataFlagRlc = true → Answer bytes s' [] (bytes + 4)
  | more {p} : s'.toogleFlagRlc = true → s'.noDataFlagRlc = false → p.length + 5 ≤ bytes →
      Answer bytes s' [p] (bytes - p.length)

theorem cutToFit_stocked (firstSegment : TxPdu) {txBuffer : List TxPdu} (h : ∀ t ∈ txBuffer, t.pdu ≠ [])
    (txBufferSize nextSegmentSize : Nat) :
    ∀ t ∈ (cutToFit firstSegment txBuffer txBufferSize nextSegmentSize).txBuffer, t.pdu ≠ [] := by
  intro t ht
  unfold cutToFit TxPdu.cut at ht
  dsimp only at ht
  split at ht
  · rename_i hlt
    rcases mem_cons.mp ht with rfl | ht
    · simp only [TxPdu.size] at hlt
      simpa [TxPdu.size] using hlt
    · exact h t ht
  · exact h t ht

theorem transmitPdu_single (s : LteRlcUmTx) {d : DataField} {t : TxPdu} (hd : ∀ t ∈ d.txBuffer, t.pdu ≠ [])
    (hsegments : d.segments = [t]) (hbits : d.extensionBits = [DATA_FIELD_FOLLOWS])
    (hlengths : d.lengthIndicators = []) :
    ∃ s' packet, s.transmitPdu d = some (s', [packet]) ∧ packet.length = t.size + 2 ∧ s'.Stocked ∧
      s'.noDataFlagRlc = s.noDataFlagRlc := by
  obtain ⟨packet, hbuild, hlength⟩ := buildPdu_single s.sequenceNumber hsegments hbits hlengths
  refine ⟨{ s with
    txBuffer := d.txBuffer, txBufferSize := d.txBufferSize, sequenceNumber := s.sequenceNumber.incr }, packet, ?_,
    hlength, hd, rfl⟩
  rw [LteRlcUmTx.transmitPdu, hbuild]

theorem Stocked.answer {s : LteRlcUmTx} (h : s.Stocked) (bytes flag : Nat) :
    ∃ s' pdus remain, s.doNotifyTxOpportunityFlag bytes flag = some (s', pdus, remain) ∧ s'.Stocked ∧
      Answer bytes s' pdus remain := by
  unfold doNotifyTxOpportunityFlag
  dsimp only
  by_cases hsmall : bytes ≤ 4
  · rw [if_pos hsmall]
    exact ⟨_, _, _, rfl, h, .done rfl rfl (by simp) (by simp)⟩
  · rw [if_neg hsmall]
    cases hbuffer : s.txBuffer with
    | nil => exact ⟨_, _, _, rfl, by simp [Stocked], .noData rfl rfl⟩
    | cons firstSegment txBuffer =>
      have hstock : ∀ t ∈ txBuffer, t.pdu ≠ [] := fun t ht => h t (by simp [hbuffer, ht])
      have hfirst : firstSegment.pdu ≠ [] := h firstSegment (by simp [hbuffer])
      have hpos : firstSegment.size ≠ 0 := by simpa [TxPdu.size] using hfirst
      dsimp only
      rw [if_neg hpos]
      by_cases hcut : firstSegment.size > bytes - 2 ∨ firstSegment.size > 2047
      · simp only [decide_eq_true hcut, if_true]
        obtain ⟨s', packet, hrun, hlength, hstocked, hnoData⟩ := transmitPdu_single
          { s with txBuffer := firstSegment :: txBuffer, toogleFlagRlc := false, noDataFlagRlc := false }
          (t := (firstSegment.cut (min firstSegment.size (bytes - 2))).1)
          (cutToFit_stocked firstSegment hstock (sub32 s.txBufferSize firstSegment.size) (bytes - 2)) rfl rfl rfl
        rw [hrun]
        have hle := firstSegment.cut_size (bytes - 2)
        exact ⟨_, _, _, rfl, hstocked, .done rfl hnoData (by simp) (by simp; omega)⟩
      · simp only [decide_eq_false hcut, Bool.false_eq_true, if_false]
        obtain ⟨s', packet, hrun, hlength, hstocked, hnoData⟩ := transmitPdu_single
          { s with txBuffer := firstSegment :: txBuffer, toogleFlagRlc := false, noDataFlagRlc := false }
          (d := takeLast firstSegment txBuffer (sub32 s.txBufferSize firstSegment.size) (bytes - 2)) hstock rfl rfl rfl
        rw [hrun]
        have hle : firstSegment.size ≤ bytes - 2 := by omega
        by_cases hroom : bytes - 2 - firstSegment.size ≤ 4
        · refine ⟨_, _, _, rfl, hstocked, .done ?_ hnoData (by simp) (by simp; omega)⟩
          simp [takeLast, remainAfter, hroom]
        · refine ⟨_, _, _, rfl, hstocked, ?_⟩
          have hremain : remainAfter flag false (bytes - 2 - firstSegment.size) = (bytes - packet.length, true) := by
            rw [remainAfter, if_neg Bool.false_ne_true, if_neg hroom]
            exact Prod.ext (by dsimp only; omega) rfl
          simp only [takeLast, hremain]
          exact .more rfl hnoData (by omega)

end LteRlcUmTx

/-! ## The turns -/

/-- The bytes set aside for PDUs, each with the longest MAC header. -/
def reserve (pdus : List Bytes) : Nat := (pdus.map fun p => p.length + 4).sum

@[simp] theorem reserve_nil : reserve [] = 0 := rfl

@[simp] theorem reserve_cons (p : Bytes) (pdus : List Bytes) : reserve (p :: pdus) = p.length + 4 + reserve pdus := by
  simp [reserve]

@[simp] theorem reserve_append (pdus pdus' : List Bytes) : reserve (pdus ++ pdus') = reserve pdus + reserve pdus' := by
  simp [reserve]

theorem macSize_le (pdu : Bytes) : macSize pdu ≤ pdu.length + 4 := by
  unfold macSize NrMacHeaderVsDl.getSerializedSize
  split <;> omega

theorem sum_macSize_le (pdus : List Bytes) : (pdus.map macSize).sum ≤ reserve pdus := by
  induction pdus with
  | nil => exact Nat.le_refl 0
  | cons p pdus ih =>
    have := macSize_le p
    simp only [map_cons, sum_cons, reserve_cons]
    omega

/-- **One turn**, with `r` bytes set aside before: the last PDU overdraws what is
left by its MAC header; when bytes are offered they are what is left. -/
theorem LteRlcUmTx.Answer.account {b r B remain : Nat} {s' : LteRlcUmTx} {pdus : List Bytes}
    (h : Answer b s' pdus remain) (hroom : b + r ≤ B) :
    r + reserve pdus ≤ B + 4 ∧ (s'.toogleFlagRlc = true → ∃ b', remain = b' + 4 ∧ b' + (r + reserve pdus) ≤ B ∧
      (s'.noDataFlagRlc = false → b' < b) ∧ (s'.noDataFlagRlc = true → b' = b)) := by
  cases h with
  | done htoogle _ hone hshort =>
    refine ⟨?_, fun hon => by rw [htoogle] at hon; cases hon⟩
    match pdus, hone with
    | [], _ =>
      rw [reserve_nil]
      omega
    | [p], _ =>
      have := hshort p mem_cons_self
      simp only [reserve_cons, reserve_nil]
      omega
  | noData _ hdata =>
    rw [reserve_nil]
    refine ⟨by omega, fun _ => ⟨b, rfl, by omega, fun hon => ?_, fun _ => rfl⟩⟩
    rw [hdata] at hon
    cases hon
  | @more p _ hdata hfits =>
    simp only [reserve_cons, reserve_nil]
    refine ⟨by omega, fun _ => ⟨b - p.length - 4, by omega, by omega, fun _ => by omega, fun hon => ?_⟩⟩
    rw [hdata] at hon
    cases hon

namespace BwpManagerGnb.Loop

def sent (l : Loop) : List Bytes := l.turns.flatMap Turn.pdus

/-- Opportunities of at most `B` bytes were given, and all PDUs fit `B + 4`. -/
structure Inv (B : Nat) (l : Loop) : Prop where
  stocked0 : l.manager.rlc0.Stocked
  stocked2 : l.manager.rlc2.Stocked
  bytes : ∀ t ∈ l.turns, t.bytes ≤ B
  fits : reserve l.sent ≤ B + 4

/-- What remains is `b` and a MAC header. -/
def Offers (B b : Nat) (l : Loop) : Prop := l.remain = (b + 4) % 4294967296 ∧ b + reserve l.sent ≤ B

section
variable {B b : Nat} {l : Loop}

theorem Inv.turn (h : Inv B l) (hb : b + reserve l.sent ≤ B) {s' : LteRlcUmTx} {pdus : List Bytes} {remain : Nat}
    (hanswer : LteRlcUmTx.Answer b s' pdus remain) (signOfRlc : Nat) :
    (∀ t ∈ l.turns ++ [Turn.mk signOfRlc b pdus], t.bytes ≤ B) ∧
      reserve ((l.turns ++ [Turn.mk signOfRlc b pdus]).flatMap Turn.pdus) ≤ B + 4 ∧
      (s'.toogleFlagRlc = true → ∃ b', (remain % 4294967296 = (b' + 4) % 4294967296 ∧
        b' + reserve ((l.turns ++ [Turn.mk signOfRlc b pdus]).flatMap Turn.pdus) ≤ B) ∧
        (s'.noDataFlagRlc = false → b' < b) ∧ (s'.noDataFlagRlc = true → b' = b)) := by
  obtain ⟨hfits, hoffer⟩ := hanswer.account hb
  simp only [flatMap_append, flatMap_singleton, reserve_append]
  refine ⟨fun t ht => ?_, hfits, fun hon => ?_⟩
  · rcases mem_append.mp ht with ht | ht
    · exact h.bytes t ht
    · obtain rfl := mem_singleton.mp ht
      dsimp only
      omega
  · obtain ⟨b', hremain, hroom, hdata⟩ := hoffer hon
    exact ⟨b', ⟨by rw [hremain], hroom⟩, hdata⟩

theorem Inv.notifyRlc0 (h : Inv B l) (hb : b + reserve l.sent ≤ B) :
    ∃ l', l.notifyRlc0 b = some l' ∧ Inv B l' ∧ l'.toogleInt = l.toogleInt ∧ l'.noDataRlc2 = l.noDataRlc2 ∧
      (l'.toogleOfRlc0 = true → ∃ b', Offers B b' l' ∧ (l'.noDataRlc0 = false → b' < b) ∧
        (l'.noDataRlc0 = true → b' = b)) := by
  obtain ⟨s', pdus, remain, hrun, hstocked, hanswer⟩ := h.stocked0.answer b 0
  obtain ⟨hbytes, hfits, hoffer⟩ := h.turn hb hanswer 0
  cases hl : l.notifyRlc0 b with
  | none =>
    rw [Loop.notifyRlc0, hrun] at hl
    cases hl
  | some l' =>
    rw [Loop.notifyRlc0, hrun] at hl
    cases hl
    exact ⟨_, rfl, ⟨hstocked, h.stocked2, hbytes, hfits⟩, rfl, rfl, hoffer⟩

theorem Inv.notifyRlc2 (h : Inv B l) (hb : b + reserve l.sent ≤ B) :
    ∃ l', l.notifyRlc2 b = some l' ∧ Inv B l' ∧ l'.toogleInt = l.toogleInt ∧ l'.noDataRlc0 = l.noDataRlc0 ∧
      (l'.toogleOfRlc2 = true → ∃ b', Offers B b' l' ∧ (l'.noDataRlc2 = false → b' < b) ∧
        (l'.noDataRlc2 = true → b' = b)) := by
  obtain ⟨s', pdus, remain, hrun, hstocked, hanswer⟩ := h.stocked2.answer b 2
  obtain ⟨hbytes, hfits, hoffer⟩ := h.turn hb hanswer 2
  cases hl : l.notifyRlc2 b with
  | none =>
    rw [Loop.notifyRlc2, hrun] at hl
    cases hl
  | some l' =>
    rw [Loop.notifyRlc2, hrun] at hl
    cases hl
    exact ⟨_, rfl, ⟨h.stocked0, hstocked, hbytes, hfits⟩, rfl, rfl, hoffer⟩

theorem le_of_noData {b' : Nat} {noData : Bool} (hless : noData = false → b' < b) (hsame : noData = true → b' = b) :
    b' ≤ b := by
  cases noData with
  | false => exact Nat.le_of_lt (hless rfl)
  | true => exact Nat.le_of_eq (hsame rfl)

/-- The entity that had the last turn had nothing to send. -/
def lastNoData (l : Loop) : Bool := if l.toogleInt % 2 = 1 then l.noDataRlc0 else l.noDataRlc2

theorem offered_bytes {remain : Nat} (h : remain = (b + 4) % 4294967296) (hb : b < 4294967296) :
    sub32 (sub32 remain 3) 1 = b := by
  simp only [sub32, h]
  omega

theorem Inv.next (h : Inv B l) (hB : B < 4294967296) (hoffers : Offers B b l) :
    ∃ l', l.next = some l' ∧ Inv B l' ∧ (l'.noDataRlc0 && l'.noDataRlc2) = (l'.lastNoData && l.lastNoData) ∧
      (l'.toogleOfRlc0 = true → l'.toogleOfRlc2 = true → ∃ b', Offers B b' l' ∧ (l'.lastNoData = false → b' < b) ∧
        (l'.lastNoData = true → b' = b)) := by
  obtain ⟨hremain, hb⟩ := hoffers
  have hbytes := offered_bytes hremain (by omega)
  unfold Loop.next
  dsimp only
  rw [hbytes]
  have h' : Inv B { l with toogleInt := l.toogleInt + 1 } := ⟨h.stocked0, h.stocked2, h.bytes, h.fits⟩
  by_cases hodd : l.toogleInt % 2 = 1
  · rw [if_pos hodd]
    obtain ⟨l', hrun, hinv, hint, hother, hoffer⟩ := h'.notifyRlc2 hb
    have hlast' : l'.lastNoData = l'.noDataRlc2 := by
      unfold lastNoData
      rw [hint, if_neg (by dsimp only; omega)]
    have hlast : l.lastNoData = l.noDataRlc0 := by rw [lastNoData, if_pos hodd]
    refine ⟨l', hrun, hinv, by rw [hlast', hlast, hother, Bool.and_comm], fun _ hon => ?_⟩
    rw [hlast']
    exact hoffer hon
  · rw [if_neg hodd]
    obtain ⟨l', hrun, hinv, hint, hother, hoffer⟩ := h'.notifyRlc0 hb
    have hlast' : l'.lastNoData = l'.noDataRlc0 := by
      unfold lastNoData
      rw [hint, if_pos (by dsimp only; omega)]
    have hlast : l.lastNoData = l.noDataRlc2 := by rw [lastNoData, if_neg hodd]
    refine ⟨l', hrun, hinv, by rw [hlast', hlast, hother], fun hon _ => ?_⟩
    rw [hlast']
    exact hoffer hon

theorem Inv.setFlagForRlc2 (h : Inv B l) (flag : Nat) : Inv B (l.setFlagForRlc2 flag) :=
  ⟨h.stocked0, h.stocked2, h.bytes, h.fits⟩

/-- **The loop ends.** Two turns in a row with nothing to send are the last ones,
any other two take bytes of what is offered. -/
theorem Inv.run (hB : B < 4294967296) : ∀ (fuel : Nat) (l : Loop), Inv B l → 0 < fuel →
    (l.toogleOfRlc0 = true → l.toogleOfRlc2 = true → ∃ b, Offers B b l ∧ 2 * b + (!l.lastNoData).toNat + 1 < fuel) →
    ∃ l', l.run fuel = some l' ∧ Inv B l'
  | 0, _, _, hfuel, _ => by omega
  | fuel + 1, l, h, _, hoffers => by
    unfold Loop.run
    by_cases hon : (l.toogleOfRlc0 && l.toogleOfRlc2) = true
    · rw [if_pos hon]
      obtain ⟨hon0, hon2⟩ := Bool.and_eq_true_iff.mp hon
      obtain ⟨b, hoffer, hfuel⟩ := hoffers hon0 hon2
      obtain ⟨l', hnext, hinv, hboth, hoffer'⟩ := h.next hB hoffer
      simp only [hnext]
      by_cases hstop : (l'.noDataRlc0 && l'.noDataRlc2) = true
      · rw [if_pos hstop]
        exact ⟨_, rfl, hinv.setFlagForRlc2 0⟩
      · rw [if_neg hstop]
        refine Inv.run hB fuel _ (hinv.setFlagForRlc2 _) (by omega) fun hon0' hon2' => ?_
        obtain ⟨b', hb', hless, hsame⟩ := hoffer' hon0' hon2'
        refine ⟨b', hb', ?_⟩
        rw [hboth] at hstop
        change 2 * b' + (!l'.lastNoData).toNat + 1 < fuel
        cases hlast' : l'.lastNoData with
        | false =>
          have := hless hlast'
          have := Bool.toNat_le (!l.lastNoData)
          simp only [Bool.not_false, Bool.toNat_true]
          omega
        | true =>
          have := hsame hlast'
          have hlast : l.lastNoData = false := by simpa [hlast'] using hstop
          rw [hlast] at hfuel
          simp only [Bool.not_false, Bool.toNat_true, Bool.not_true, Bool.toNat_false] at hfuel ⊢
          omega
    · rw [if_neg hon]
      exact ⟨l, rfl, h⟩

end

end BwpManagerGnb.Loop

/-! ## The transport block -/

theorem doTransmitPdu_all {tbSize : Nat} : ∀ (pdus : List Bytes) (used : Nat),
    used + (pdus.map macSize).sum ≤ tbSize → (pdus.foldlM (NrGnbMac.doTransmitPdu tbSize) used).isSome
  | [], _, _ => rfl
  | p :: pdus, used, hfits => by
    simp only [List.map_cons, List.sum_cons] at hfits
    rw [List.foldlM_cons, NrGnbMac.doTransmitPdu, if_pos (by omega)]
    exact doTransmitPdu_all pdus (used + macSize p) (by omega)

namespace BwpManagerGnb

open Loop in
/-- **An opportunity of `B` bytes.** The turns end, none is given more than
`B - 1` bytes, and all PDUs with their MAC headers fit `B + 3` bytes, so that the
check of the MAC holds for a transport block of that size. -/
theorem opportunity_fits (m : BwpManagerGnb) (B : Nat) (h0 : m.rlc0.Stocked) (h2 : m.rlc2.Stocked) (hB : 1 ≤ B)
    (hB' : B < 4294967296) : ∃ m' turns, m.doNotifyTxOpportunity B = some (m', turns) ∧ (∀ t ∈ turns, t.bytes < B) ∧
      ((turns.flatMap Turn.pdus).map macSize).sum ≤ B + 3 ∧ ∀ tbSize, B + 3 ≤ tbSize →
        ((turns.flatMap Turn.pdus).foldlM (NrGnbMac.doTransmitPdu tbSize) 0).isSome := by
  have hbytes : sub32 B 1 = B - 1 := by
    simp only [sub32]
    omega
  obtain ⟨l, hfirst, hinv, hoffer⟩ : ∃ l, (if m.flagForRlc2 = 0 then
      Loop.notifyRlc0 { manager := m, toogleInt := 1 } (B - 1) else Loop.notifyRlc2 { manager := m } (B - 1)) = some l ∧
      Inv (B - 1) l ∧ (l.toogleOfRlc0 = true → l.toogleOfRlc2 = true → ∃ b, Offers (B - 1) b l ∧ b ≤ B - 1) := by
    by_cases hflag : m.flagForRlc2 = 0
    · have hstart : Inv (B - 1) { manager := m, toogleInt := 1 } := ⟨h0, h2, by simp, by simp [sent]⟩
      obtain ⟨l, hrun, hinv, -, -, hoffer⟩ := hstart.notifyRlc0 (b := B - 1) (by simp [sent])
      refine ⟨l, by rw [if_pos hflag, hrun], hinv, fun hon _ => ?_⟩
      obtain ⟨b, hb, hless, hsame⟩ := hoffer hon
      exact ⟨b, hb, le_of_noData hless hsame⟩
    · have hstart : Inv (B - 1) { manager := m } := ⟨h0, h2, by simp, by simp [sent]⟩
      obtain ⟨l, hrun, hinv, -, -, hoffer⟩ := hstart.notifyRlc2 (b := B - 1) (by simp [sent])
      refine ⟨l, by rw [if_neg hflag, hrun], hinv, fun _ hon => ?_⟩
      obtain ⟨b, hb, hless, hsame⟩ := hoffer hon
      exact ⟨b, hb, le_of_noData hless hsame⟩
  obtain ⟨l', hrun, hinv'⟩ := Inv.run (by omega) (2 * (B - 1) + 3) l hinv (by omega) fun hon0 hon2 => by
    obtain ⟨b, hb, hle⟩ := hoffer hon0 hon2
    have := Bool.toNat_le (!l.lastNoData)
    exact ⟨b, hb, by omega⟩
  have hsum : (l'.sent.map macSize).sum ≤ B + 3 := by
    have := sum_macSize_le l'.sent
    have := hinv'.fits
    omega
  refine ⟨l'.manager, l'.turns, ?_, fun t ht => ?_, hsum, fun tbSize htb => doTransmitPdu_all _ 0 ?_⟩
  · rw [doNotifyTxOpportunity, hbytes, serve, hfirst]
    simp only [hrun]
  · have := hinv'.bytes t ht
    omega
  · change 0 + (l'.sent.map macSize).sum ≤ tbSize
    omega

def threeSdus : BwpManagerGnb where
  rlc0 := { txBuffer := [⟨[1, 2, 3], .fullSdu⟩, ⟨[4], .fullSdu⟩], txBufferSize := 4 }
  rlc2 := { txBuffer := [⟨[5, 6], .fullSdu⟩], txBufferSize := 2 }

theorem three_sdus_fit : ∃ m' turns, threeSdus.doNotifyTxOpportunity 40 = some (m', turns) ∧
    (∀ t ∈ turns, t.bytes < 40) ∧ ((turns.flatMap Turn.pdus).map macSize).sum ≤ 40 + 3 ∧
    ∀ tbSize, 40 + 3 ≤ tbSize → ((turns.flatMap Turn.pdus).foldlM (NrGnbMac.doTransmitPdu tbSize) 0).isSome :=
  opportunity_fits threeSdus 40 (by simp [LteRlcUmTx.Stocked, threeSdus]) (by simp [LteRlcUmTx.Stocked, threeSdus])
    (by decide) (by decide)

example : (threeSdus.doNotifyTxOpportunity 40).map (fun r => r.2.map fun t => (t.signOfRlc, t.bytes, t.pdus.length)) =
    some [(0, 39, 1), (2, 30, 1), (0, 22, 1), (2, 15, 0), (0, 15, 0)] := by
  decide +kernel

end BwpManagerGnb

end Ns3
