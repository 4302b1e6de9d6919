import Ns3.Lib.Machine
import Ns3.Rlc.UmReassemblySound
import Ns3.Rlc.UmWindow

/-!
# Unacknowledged mode from end to end

A sender takes packets and transmission opportunities in any order. Over a
channel that keeps every PDU and their order, its peer hands up the packets
submitted, as long as no PDU has so many of them that its header is longer
than 16 bits can tell.
-/

namespace Ns3

open Machine List

/-! ## The sender -/

inductive UmTxEvent where
  | transmitPdcpPdu (p : Bytes) (ncArqAddTop : Nat)
  | transmitPdcpPdu2 (p : Bytes) (ncArqAddTop : Nat)
  | txOpportunity (bytes : Nat)
  | txOpportunityFlag (bytes flag : Nat)
  deriving DecidableEq

namespace LteRlcUmTx

def machine : Machine LteRlcUmTx UmTxEvent Bytes where
  step s
    | .transmitPdcpPdu p top => some ({ s with ncArqAddTop := top }.doTransmitPdcpPdu p, [])
    | .transmitPdcpPdu2 p top => some ({ s with ncArqAddTop := top }.doTransmitPdcpPdu2 p, [])
    | .txOpportunity bytes => s.doNotifyTxOpportunity bytes
    | .txOpportunityFlag bytes flag =>
      match s.doNotifyTxOpportunityFlag bytes flag with
      | none => none
      | some (s, out, _) => some (s, out)

def orderAfter (s : LteRlcUmTx) (order : List Bytes) : UmTxEvent → List Bytes
  | .transmitPdcpPdu p top => { s with ncArqAddTop := top }.enqueue order p
  | .transmitPdcpPdu2 p top => { s with ncArqAddTop := top }.enqueue order p
  | .txOpportunity _ => order
  | .txOpportunityFlag _ _ => order

def submittedBy : UmTxEvent → Option Bytes
  | .transmitPdcpPdu p _ => some p
  | .transmitPdcpPdu2 p _ => some p
  | .txOpportunity _ => none
  | .txOpportunityFlag _ _ => none

def NonEmpty {σ : Type} (_ : σ) (e : UmTxEvent) : Prop := ∀ p ∈ submittedBy e, p ≠ []

instance {σ : Type} (s : σ) (e : UmTxEvent) : Decidable (NonEmpty s e) :=
  inferInstanceAs (Decidable (∀ p ∈ submittedBy e, p ≠ []))

/-- No packet with priority is stored in front of the rest of an SDU. -/
def KeepsSdus (s : LteRlcUmTx) : UmTxEvent → Prop
  | .transmitPdcpPdu p top => s.partsSdu p top = false
  | .transmitPdcpPdu2 p top => s.partsSdu p top = false
  | .txOpportunity _ => True
  | .txOpportunityFlag _ _ => True

/-- Fewer than 43690 SDUs and segments go into a PDU, and its header is shorter
than 65536 bytes. -/
def ShortHeader (s : LteRlcUmTx) : UmTxEvent → Prop
  | .transmitPdcpPdu _ _ => True
  | .transmitPdcpPdu2 _ _ => True
  | .txOpportunity bytes => (s.segmentsFor bytes).length < 43690
  | .txOpportunityFlag _ _ => True

instance (s : LteRlcUmTx) : (e : UmTxEvent) → Decidable (s.KeepsSdus e)
  | .transmitPdcpPdu p top => inferInstanceAs (Decidable (s.partsSdu p top = false))
  | .transmitPdcpPdu2 p top => inferInstanceAs (Decidable (s.partsSdu p top = false))
  | .txOpportunity _ => .isTrue trivial
  | .txOpportunityFlag _ _ => .isTrue trivial

instance (s : LteRlcUmTx) : (e : UmTxEvent) → Decidable (s.ShortHeader e)
  | .transmitPdcpPdu _ _ => .isTrue trivial
  | .transmitPdcpPdu2 _ _ => .isTrue trivial
  | .txOpportunity bytes => inferInstanceAs (Decidable ((s.segmentsFor bytes).length < 43690))
  | .txOpportunityFlag _ _ => .isTrue trivial

def Regular (s : LteRlcUmTx) (e : UmTxEvent) : Prop := NonEmpty s e ∧ s.KeepsSdus e ∧ s.ShortHeader e

instance (s : LteRlcUmTx) (e : UmTxEvent) : Decidable (s.Regular e) := inferInstanceAs (Decidable (_ ∧ _ ∧ _))

variable {s : LteRlcUmTx} {order out : List Bytes} {cs : List Content}

/-- Each regular step sends bytes off the front of the order. -/
theorem Sends.step (h : Sends s order out cs) {e : UmTxEvent} (he : s.Regular e) :
    ∃ s' o new, machine.step s e = some (s', o) ∧ Sends s' (s.orderAfter order e) (out ++ o) (cs ++ new) := by
  obtain ⟨hne, hparts, hshort⟩ := he
  have htop : ∀ top, Sends { s with ncArqAddTop := top } order (out ++ []) (cs ++ []) := fun top => by
    rw [append_nil, append_nil]
    exact h.restock rfl h.queue h.order h.size
  cases e with
  | transmitPdcpPdu p top => exact ⟨_, [], [], rfl, (htop top).store (hne p rfl) hparts⟩
  | transmitPdcpPdu2 p top => exact ⟨_, [], [], rfl, (htop top).store (hne p rfl) hparts⟩
  | txOpportunity bytes => exact h.doNotifyTxOpportunity hshort
  | txOpportunityFlag bytes flag =>
    obtain ⟨s', o, remain, new, hrun, hs⟩ := h.doNotifyTxOpportunityFlag bytes flag
    exact ⟨s', o, new, by simp [machine, hrun], hs⟩

/-! ## A channel that keeps every PDU -/

/-- The packet of an event is not empty, is stored at the end of the buffer, and
the buffer has room for it. -/
def Stores (s : LteRlcUmTx) : UmTxEvent → Prop
  | .transmitPdcpPdu p top => p ≠ [] ∧ top = 0 ∧ s.hasRoom p = true
  | .transmitPdcpPdu2 p top => p ≠ [] ∧ top = 0 ∧ s.hasRoom p = true
  | .txOpportunity _ => True
  | .txOpportunityFlag _ _ => True

instance (s : LteRlcUmTx) : (e : UmTxEvent) → Decidable (s.Stores e)
  | .transmitPdcpPdu p top => inferInstanceAs (Decidable (p ≠ [] ∧ top = 0 ∧ s.hasRoom p = true))
  | .transmitPdcpPdu2 p top => inferInstanceAs (Decidable (p ≠ [] ∧ top = 0 ∧ s.hasRoom p = true))
  | .txOpportunity _ => .isTrue trivial
  | .txOpportunityFlag _ _ => .isTrue trivial

def Accepts (s : LteRlcUmTx) (e : UmTxEvent) : Prop := s.Stores e ∧ s.ShortHeader e

instance (s : LteRlcUmTx) (e : UmTxEvent) : Decidable (s.Accepts e) := inferInstanceAs (Decidable (_ ∧ _))

def submitted (tr : List (UmTxEvent × List Bytes)) : List Bytes := tr.filterMap fun e => submittedBy e.1

theorem Stores.nonempty {e : UmTxEvent} (h : s.Stores e) : NonEmpty s e := by
  intro p hp
  cases e with
  | transmitPdcpPdu q top =>
    cases hp
    exact h.1
  | transmitPdcpPdu2 q top =>
    cases hp
    exact h.1
  | txOpportunity bytes => cases hp
  | txOpportunityFlag bytes flag => cases hp

theorem Accepts.regular {e : UmTxEvent} (h : s.Accepts e) : s.Regular e := by
  refine ⟨h.1.nonempty, ?_, h.2⟩
  cases e with
  | transmitPdcpPdu p top => simp [KeepsSdus, partsSdu, h.1.2.1]
  | transmitPdcpPdu2 p top => simp [KeepsSdus, partsSdu, h.1.2.1]
  | txOpportunity bytes => trivial
  | txOpportunityFlag bytes flag => trivial

theorem Stores.orderAfter_eq {e : UmTxEvent} (h : s.Stores e) :
    s.orderAfter order e = order ++ (submittedBy e).toList := by
  cases e with
  | transmitPdcpPdu p top =>
    obtain ⟨-, rfl, hroom⟩ := h
    have hroom' : { s with ncArqAddTop := 0 }.hasRoom p = true := hroom
    simp [orderAfter, enqueue, submittedBy, hroom']
  | transmitPdcpPdu2 p top =>
    obtain ⟨-, rfl, hroom⟩ := h
    have hroom' : { s with ncArqAddTop := 0 }.hasRoom p = true := hroom
    simp [orderAfter, enqueue, submittedBy, hroom']
  | txOpportunity bytes => simp [orderAfter, submittedBy]
  | txOpportunityFlag bytes flag => simp [orderAfter, submittedBy]

/-- The contents sent and the buffer make up the SDUs accepted. -/
theorem sends_of_run {maxTxBufferSize : Nat} {tr : List (UmTxEvent × List Bytes)}
    (h : Run machine Accepts { maxTxBufferSize := maxTxBufferSize } tr s) :
    ∃ cs, Sends s (submitted tr) (outputs tr) cs := by
  refine Run.invariant (fun tr s => ∃ cs, Sends s (submitted tr) (outputs tr) cs) ⟨[], sends_init maxTxBufferSize⟩ ?_ h
  rintro tr s e s' o ⟨cs, hs⟩ hacc hstep
  obtain ⟨s'', o', new, hstep', hs'⟩ := hs.step hacc.regular
  cases hstep.symm.trans hstep'
  rw [hacc.1.orderAfter_eq] at hs'
  have hsub : submitted (tr ++ [(e, o)]) = submitted tr ++ (submittedBy e).toList := by
    cases hp : submittedBy e <;> simp [submitted, hp]
  exact ⟨_, by rw [hsub, outputs_snoc]; exact hs'⟩

end LteRlcUmTx

namespace LteRlcUmRx

def receiveAll : LteRlcUmRx → List Bytes → Option (LteRlcUmRx × List Bytes)
  | r, [] => some (r, [])
  | r, p :: ps =>
    match r.doReceivePdu p with
    | none => none
    | some (r, sdus) =>
      match receiveAll r ps with
      | none => none
      | some (r, more) => some (r, sdus ++ more)

theorem receiveAll_snoc {p : Bytes} : ∀ {ps : List Bytes} {r r₁ r₂ : LteRlcUmRx} {o₁ o₂ : List Bytes},
    r.receiveAll ps = some (r₁, o₁) → r₁.doReceivePdu p = some (r₂, o₂) → r.receiveAll (ps ++ [p]) = some (r₂, o₁ ++ o₂)
  | [], r, r₁, r₂, o₁, o₂, h, hp => by
    cases h
    simp [receiveAll, hp]
  | q :: ps, r, r₁, r₂, o₁, o₂, h, hp => by
    unfold receiveAll at h
    split at h
    · cases h
    · rename_i r' o' hq
      split at h
      · cases h
      · rename_i r'' o'' hps
        cases h
        simp [receiveAll, hq, receiveAll_snoc hps hp]

section
variable {s : LteRlcUmTx} {order out : List Bytes} {cs : List Content}

theorem content_of_sent (h : LteRlcUmTx.Sends s order out cs) {p : Nat} {b : Bytes} (hb : out[p]? = some b) :
    ∃ c, cs[p]? = some c ∧ Carries p b c := by
  have hlt : p < cs.length := h.count ▸ (List.getElem?_eq_some_iff.mp hb).1
  exact ⟨cs[p], getElem?_eq_getElem hlt, h.carries p b _ hb (getElem?_eq_getElem hlt)⟩

/-- Everything up to `E` was reassembled, for `E` at most one ahead of `n`. -/
def Exact (cs : List Content) (n E : Nat) (ra : Reassembly) (out : List Bytes) : Prop :=
  Follows cs E ra ∧ n ≤ E ∧
    (E ≤ n + 1 → ra.Holds (absorbAll (cs.take E)).2 ∧ out = (absorbAll (cs.take E)).1)

theorem exact_reassembles (h : LteRlcUmTx.Sends s order out cs) (n : Nat) :
    Reassembles (fun i => out[i]?) (Exact cs n) := by
  rintro p b E ra o hp hlo hhi ⟨hf, hn, hexact⟩
  obtain ⟨c, hc, hb⟩ := content_of_sent h hp
  obtain ⟨ra', d, hrun, hf', -, hstep⟩ := reassembleAndDeliver_eq h.chained hc hb hf hlo hhi
  refine ⟨ra', d, hrun, hf', by omega, fun hle => ?_⟩
  obtain ⟨hholds, rfl⟩ := hexact (by omega)
  obtain rfl : p = E := by omega
  obtain ⟨rfl, hholds'⟩ := hstep rfl hholds
  exact ⟨hholds', by rw [absorbAll_take_succ hc]⟩

theorem receiveAll_take (h : LteRlcUmTx.Sends s order out cs) : ∀ n, n ≤ out.length →
    ∃ r ux, receiveAll {} (out.take n) = some (r, (absorbAll (cs.take n)).1) ∧
      Window (fun i => out[i]?) r n n ux n ∧ Exact cs n n r.reassembly (absorbAll (cs.take n)).1 := by
  intro n
  induction n with
  | zero =>
    intro _
    exact ⟨{}, 0, rfl, window_init _, ⟨.inl ⟨rfl, rfl⟩, rfl⟩, Nat.le_refl 0, fun _ => ⟨⟨rfl, rfl⟩, rfl⟩⟩
  | succ n ih =>
    intro hn
    obtain ⟨r, ux, hrun, hwin, hex⟩ := ih (by omega)
    have hb : out[n]? = some out[n] := getElem?_eq_getElem (by omega)
    obtain ⟨c, hc, hcarries⟩ := content_of_sent h hb
    obtain ⟨rlcHeader, hd, hsn⟩ := hcarries.deserialize
    obtain ⟨r', o, ur', uh', ux', E', hrecv, hwin', hex', -, -, -, hboth⟩ :=
      hwin.doReceivePdu (exact_reassembles h n) hex hb hd hsn (by omega) (by omega)
    obtain ⟨rfl, rfl⟩ := hboth rfl rfl
    obtain rfl := hwin'.pending.idle rfl
    obtain ⟨hf', -, hexact'⟩ := hex'
    obtain ⟨hholds, hout⟩ := hexact' (Nat.le_refl _)
    have hsnoc := receiveAll_snoc hrun hrecv
    rw [← take_succ_eq_append_getElem hn, hout] at hsnoc
    rw [hout] at hexact'
    exact ⟨r', ux', hsnoc, hwin', hf', Nat.le_refl _, fun _ => hexact' (Nat.le_refl _)⟩

end

end LteRlcUmRx

/-- **Lossless delivery.** No step of a sender is undefined, and once its buffer
is empty, a peer that receives its PDUs in order hands up exactly the packets
submitted, in order, and never has its reordering timer running at the end. -/
theorem LteRlcUmTx.lossless_delivery (maxTxBufferSize : Nat) {tr : List (UmTxEvent × List Bytes)} {s : LteRlcUmTx}
    (h : Run machine Accepts { maxTxBufferSize := maxTxBufferSize } tr s) :
    (∀ e, s.Accepts e → (machine.step s e).isSome) ∧
      (s.txBuffer = [] → ∃ r : LteRlcUmRx, LteRlcUmRx.receiveAll {} (outputs tr) = some (r, submitted tr) ∧
        r.reorderingTimer = false) := by
  obtain ⟨cs, hs⟩ := sends_of_run h
  refine ⟨fun e he => ?_, fun hempty => ?_⟩
  · obtain ⟨s', o, new, hstep, -⟩ := hs.step he.regular
    rw [hstep]
    rfl
  · obtain ⟨r, ux, hrun, hwin, -⟩ := LteRlcUmRx.receiveAll_take hs _ (Nat.le_refl _)
    have horder := hs.order
    rw [hempty, waiting, append_nil] at horder
    rw [take_length, take_of_length_le hs.count.ge, ← horder] at hrun
    refine ⟨r, hrun, ?_⟩
    cases ht : r.reorderingTimer with
    | false => rfl
    | true =>
      have := hwin.timer ht
      omega

/-- Three packets: the first is cut, the second part of it goes out with the
second packet, and an opportunity too small sends nothing. -/
def mixedOpportunities : List UmTxEvent :=
  [.transmitPdcpPdu [1, 2, 3] 0, .transmitPdcpPdu2 [4, 5] 0, .txOpportunity 4, .txOpportunity 2,
    .transmitPdcpPdu [6, 7, 8, 9] 0, .txOpportunity 9, .txOpportunityFlag 10 0]

theorem LteRlcUmTx.mixed_opportunities_delivery :
    ∃ r : LteRlcUmRx, LteRlcUmRx.receiveAll {} [[8, 0, 1, 2], [20, 1, 0, 16, 3, 4, 5], [0, 2, 6, 7, 8, 9]] =
        some (r, [[1, 2, 3], [4, 5], [6, 7, 8, 9]]) ∧ r.reorderingTimer = false :=
  (lossless_delivery 20480 (run_of_isSome machine Accepts _ mixedOpportunities (by decide +kernel))).2
    (by decide +kernel)

/-! ### PDUs with many SDUs -/

namespace LteRlcUmTx

/-- A sender with `n` packets of two bytes in its buffer. -/
def manySdus (n : Nat) : LteRlcUmTx :=
  { maxTxBufferSize := 999999999, txBuffer := List.replicate n ⟨[0, 0], .fullSdu⟩, txBufferSize := 2 * n }

def storedTrace (n : Nat) : List (UmTxEvent × List Bytes) := List.replicate n (.transmitPdcpPdu [0, 0] 0, [])

theorem manySdus_sizes (n : Nat) : sizes (manySdus n).txBuffer = 2 * n := by
  simp [manySdus, sizes, TxPdu.size, Nat.mul_comm]

theorem manySdus_pdus (n : Nat) : (manySdus n).txBuffer.map TxPdu.pdu = List.replicate n [0, 0] := by
  simp [manySdus]

theorem run_manySdus : ∀ n, 2 * n ≤ 999999999 →
    Run machine Stores { maxTxBufferSize := 999999999 } (storedTrace n) (manySdus n)
  | 0, _ => .nil
  | n + 1, hn => by
    have hadd : add32 (2 * n) 2 = 2 * n + 2 := by
      simp only [add32]
      omega
    have hstores : (manySdus n).Stores (.transmitPdcpPdu [0, 0] 0) := by
      refine ⟨by simp, rfl, ?_⟩
      simp only [hasRoom, manySdus, length_cons, length_nil, hadd]
      exact decide_eq_true (by omega)
    have hstep : machine.step (manySdus n) (.transmitPdcpPdu [0, 0] 0) = some (manySdus (n + 1), []) := by
      have hroom : 2 * n + 2 ≤ 999999999 := by omega
      simp [machine, doTransmitPdcpPdu, storePdcpPdu, manySdus, hadd, hroom, replicate_succ', Nat.mul_add]
    rw [storedTrace, replicate_succ']
    exact .snoc (run_manySdus n (by omega)) hstores hstep

theorem submitted_storedTrace (n : Nat) : submitted (storedTrace n) = List.replicate n [0, 0] := by
  simp [submitted, storedTrace, submittedBy]

/-- All packets go into one PDU. -/
theorem manySdus_filled (n bytes : Nat) (hn : 2 * (n + 1) ≤ 999999999) (hbytes : 4 * n + 6 ≤ bytes) : ∃ d,
    (manySdus (n + 1)).doNotifyTxOpportunity bytes = (manySdus (n + 1)).transmitPdu d ∧
      Filled none (manySdus (n + 1)).txBuffer d (.sdus none (List.replicate (n + 1) [0, 0]) none) ∧
      d.segments.length = n + 1 ∧ d.lengthIndicators = List.replicate n 2 ∧
      (d.segments.map TxPdu.pdu).flatten.length = 2 * (n + 1) ∧ d.txBuffer = [] ∧ d.txBufferSize = 0 := by
  have hqueue : Queue none (manySdus (n + 1)).txBuffer := by
    refine .of_full fun t ht => ?_
    obtain rfl := eq_of_mem_replicate ht
    simp
  obtain ⟨first, q, hq⟩ : ∃ first q, (manySdus (n + 1)).txBuffer = first :: q := ⟨_, _, replicate_succ⟩
  have hlen : q.length = n := by
    have := congrArg List.length hq
    simpa [manySdus] using this.symm
  have hsizes := manySdus_sizes (n + 1)
  rw [hq] at hsizes
  have hempty := fillDataField_empties q first (sub32 (manySdus (n + 1)).txBufferSize first.size) (bytes - 2) 1
    (fun t ht => by
      rw [← hq] at ht
      obtain rfl := eq_of_mem_replicate ht
      simp [TxPdu.size])
    (by rw [hsizes, hlen, indicatorBytes_eq]; omega)
  obtain ⟨c, hc⟩ := fillDataField_filled q none first (sub32 (manySdus (n + 1)).txBufferSize first.size) (bytes - 2) 1
    (hq ▸ hqueue) (by omega)
  have hrest : sub32 (manySdus (n + 1)).txBufferSize first.size = sizes q % 4294967296 := by
    have hcount : (manySdus (n + 1)).txBufferSize = (sizes q + first.size) % 4294967296 := by
      rw [Nat.add_comm (sizes q), ← sizes_cons, hsizes, Nat.mod_eq_of_lt (by omega)]
      rfl
    rw [hcount, sub32_add]
  have hsize := fillDataField_size hrest first (bytes - 2) 1
  rw [hempty] at hsize
  obtain rfl := hc.whole hempty
  rw [← hq, manySdus_pdus] at hc
  refine ⟨_, ?_, hc, ?_, ?_, ?_, hempty, hsize⟩
  · simp only [doNotifyTxOpportunity, hq]
    rw [if_neg (by omega)]
  · rw [hc.segments]
    simp [Content.segments]
  · rw [hc.indicators]
    simp [Content.packets, dropLast_replicate]
  · rw [hc.segments, Content.segments_pdu]
    simp [Content.packets, Nat.mul_comm]

theorem manySdus_aborts {n : Nat} (hn : n + 1 = 43690) :
    machine.step (manySdus (n + 1)) (.txOpportunity 200000) = none := by
  obtain ⟨d, hnotify, hd, hcount, -⟩ := manySdus_filled n 200000 (by omega) (by omega)
  have hstep : machine.step (manySdus (n + 1)) (.txOpportunity 200000) =
      (manySdus (n + 1)).doNotifyTxOpportunity 200000 := rfl
  rw [hstep, hnotify, transmitPdu, buildPdu_aborts hd (hcount.trans hn)]

/-- The PDU is that of other SDUs, which have bytes of the header. -/
theorem manySdus_overlaid {n : Nat} (hn : n + 1 = 43690) : ∃ s b others,
    machine.step (manySdus (n + 1 + 1)) (.txOpportunity 200000) = some (s, [b]) ∧ s.txBuffer = [] ∧
      Sends s others [b] [.sdus none others none] ∧ 128 ∈ others.flatten := by
  obtain ⟨d, hnotify, hd, -, hlis, hdata, hempty, hsize⟩ :=
    manySdus_filled (n + 1) 200000 (by omega) (by omega)
  have hsum : d.lengthIndicators.sum = 2 * (n + 1) := by
    rw [hlis]
    simp [Nat.mul_comm]
  obtain ⟨b, others, hbuild, hcarries, hne, hbyte⟩ := buildPdu_overlaid hd hlis
    (by rw [length_replicate]; omega) (by rw [hdata]; omega) (by rw [hsum, hdata]; omega)
  have hnumber : (manySdus (n + 1 + 1)).sequenceNumber = .ofValue 0 := rfl
  have hstep : machine.step (manySdus (n + 1 + 1)) (.txOpportunity 200000) =
      (manySdus (n + 1 + 1)).doNotifyTxOpportunity 200000 := rfl
  refine ⟨{ manySdus (n + 1 + 1) with
    txBuffer := d.txBuffer, txBufferSize := d.txBufferSize, sequenceNumber := (SequenceNumber10.ofValue 0).incr },
    b, others, ?_, hempty, ?_, hbyte⟩
  · rw [hstep, hnotify, transmitPdu, hnumber, hbuild]
  · constructor
    · rfl
    · intro i b' c' hb' hc'
      cases i with
      | zero =>
        cases hb'
        cases hc'
        exact hcarries
      | succ i => cases hb'
    · rfl
    · exact Chained.nil.snoc rfl (by simpa [Content.packets] using hne)
    · rw [hempty]
      rfl
    · rw [hempty]
      simp [absorbAll, Content.absorb]
    · rw [hempty, hsize]
      rfl

theorem storedTrace_zeros (n : Nat) : ∀ x ∈ (submitted (storedTrace n)).flatten, x = 0 := by
  intro x hx
  obtain ⟨p, hp, hin⟩ := mem_flatten.mp hx
  rw [submitted_storedTrace] at hp
  rw [eq_of_mem_replicate hp] at hin
  simpa using hin

/-- **Too many SDUs in one PDU**: with 43691 of them the peer hands up other
bytes than those submitted, and with 43690 the sender aborts. -/
theorem many_sdus_not_delivered :
    (∃ tr s r sdus, Run machine Stores { maxTxBufferSize := 999999999 } tr s ∧ s.txBuffer = [] ∧
      LteRlcUmRx.receiveAll {} (outputs tr) = some (r, sdus) ∧ sdus ≠ submitted tr) ∧
    ∃ tr s, Run machine Stores { maxTxBufferSize := 999999999 } tr s ∧ machine.step s (.txOpportunity 200000) = none := by
  refine ⟨?_, storedTrace (43689 + 1), manySdus (43689 + 1), run_manySdus _ (by decide), manySdus_aborts rfl⟩
  obtain ⟨s, b, others, hstep, hempty, hs, hbyte⟩ := manySdus_overlaid (n := 43689) rfl
  generalize hn : 43689 + 1 + 1 = n at hstep
  have hstored := run_manySdus n (by omega)
  obtain ⟨r, -, hrun, -⟩ := LteRlcUmRx.receiveAll_take hs 1 (Nat.le_refl 1)
  have hout : outputs (storedTrace n) = [] := by simp [outputs, storedTrace]
  have hsubmitted : submitted (storedTrace n ++ [(.txOpportunity 200000, [b])]) = submitted (storedTrace n) := by
    simp [submitted, submittedBy]
  refine ⟨_, s, r, others, hstored.snoc (by trivial) hstep, hempty, ?_, ?_⟩
  · rw [outputs_snoc, hout]
    simpa [absorbAll, Content.absorb] using hrun
  · intro hsame
    rw [hsame, hsubmitted] at hbyte
    exact absurd (storedTrace_zeros n 128 hbyte) (by decide)

end LteRlcUmTx

end Ns3
