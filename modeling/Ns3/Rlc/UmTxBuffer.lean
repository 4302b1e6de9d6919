import Ns3.Rlc.UmSound

/-!
# The transmission buffer

No byte of a packet that was accepted is lost or sent twice: at any time, the
data fields of the PDUs sent, and then the packets of the buffer, are the
packets accepted, in some order. The size of the buffer is counted right and
bounded, an SDU that was cut is the first of the buffer, and no PDU is longer
than its opportunity. Both counters, of 32 and of 16 bits, must be wide enough.
-/

namespace Ns3

open Machine LteRlcHeader List Option

/-! ## The bytes of contents and buffers -/

theorem Chained.bytes {cs : List Content} (h : Chained cs) :
    (cs.flatMap Content.packets).flatten = (absorbAll cs).1.flatten ++ (absorbAll cs).2.getD [] := by
  induction cs using reverseRecOn with
  | nil => rfl
  | append_singleton cs c ih =>
    have hcs : Chained cs := by
      intro n c' hn
      have hlt : n < cs.length := (List.getElem?_eq_some_iff.mp hn).1
      have := h n c' (by rw [getElem?_append_left hlt]; exact hn)
      rwa [take_append_of_le_length hlt.le] at this
    have hc := (h cs.length c (by simp)).1
    rw [take_left] at hc
    rw [absorbAll_snoc, flatMap_append, flatten_append, ih hcs, flatMap_singleton]
    cases c with
    | middle segment =>
      obtain ⟨kept, hkept⟩ := isSome_iff_exists.mp hc.symm
      simp [hkept, Content.absorb, Content.packets]
    | sdus last full first =>
      cases hkept : (absorbAll cs).2 with
      | none =>
        cases first <;> simp [Content.absorb, Content.packets]
      | some kept =>
        obtain ⟨y, rfl⟩ : ∃ y, last = some y := by
          rw [hkept] at hc
          exact isSome_iff_exists.mp hc
        cases first <;> simp [Content.absorb, Content.packets]

def bytesOf (q : List TxPdu) : Bytes := (q.map TxPdu.pdu).flatten

theorem bytesOf_length (q : List TxPdu) : (bytesOf q).length = sizes q := by
  simp only [bytesOf, sizes, length_flatten, List.map_map]
  rfl

theorem waiting_flatten {kept : Option Bytes} {q : List TxPdu} (h : Queue kept q) :
    (waiting kept q).flatten = kept.getD [] ++ bytesOf q := by
  cases q with
  | nil =>
    obtain rfl : kept = none := h
    rfl
  | cons t q => simp [bytesOf]

theorem Queue.tags {kept : Option Bytes} : ∀ {q : List TxPdu}, Queue kept q → ∀ i t, q[i]? = some t →
    t.status = .fullSdu ∨ (i = 0 ∧ t.status = .lastSegment)
  | [], _, i, t, ht => by simp at ht
  | first :: q, h, 0, t, ht => by
    cases ht
    rw [h.1]
    cases kept <;> simp
  | first :: q, h, i + 1, t, ht => .inl (h.2.2 t (List.mem_of_getElem? ht)).1

/-! ## The length of a PDU -/

namespace LteRlcUmTx

theorem buildPdu_length {sn : SequenceNumber10} {d : DataField} {packet : Bytes} (h : buildPdu sn d = some packet) :
    packet.length = sizeFor d.extensionBits.length % 65536 + sizes d.segments := by
  have hdata := bytesOf_length d.segments
  rw [bytesOf] at hdata
  unfold buildPdu at h
  split at h
  · cases h
  · dsimp only at h
    split at h
    · cases h
    · rw [addHeader] at h
      split at h
      · cases h
      · split at h
        · rename_i bytes _ hroom
          cases h
          rw [length_append, length_drop]
          simp only [foldl_pushExtensionBit _ {} rfl, foldl_pushLengthIndicator,
            getSerializedSize, setSequenceNumber, setFramingInfo, length_nil, Nat.zero_add] at hroom ⊢
          omega
        · cases h

end LteRlcUmTx

/-! ## The data field of a PDU -/

theorem LteRlcHeader.deserializeLi_bits : ∀ (bytes : Bytes) {r : List Nat × List Nat × Nat},
    deserializeLi bytes = some r → ∀ e ∈ r.1, e < 2
  | [], r, h => by cases h
  | [_], r, h => by cases h
  | byte1 :: byte2 :: bytes, r, h => by
    have hodd : (byte1.toNat &&& 0x80) >>> 7 < 2 := by
      rw [field_get _ 1 7 (by decide)]
      exact Nat.mod_lt _ (by decide)
    have heven : (byte2.toNat &&& 0x08) >>> 3 < 2 := by
      rw [field_get _ 1 3 (by decide)]
      exact Nat.mod_lt _ (by decide)
    unfold deserializeLi at h
    dsimp only at h
    split at h
    · cases bytes with
      | nil => cases h
      | cons byte3 bytes =>
        dsimp only at h
        split at h
        · obtain ⟨r', hr', rfl⟩ := map_eq_some_iff.mp h
          intro e he
          rcases mem_cons.mp he with rfl | he
          · exact hodd
          · rcases mem_cons.mp he with rfl | he
            · exact heven
            · exact deserializeLi_bits bytes hr' e he
        · cases h
          intro e he
          rcases mem_pair.mp he with rfl | rfl
          · exact hodd
          · exact heven
    · cases h
      intro e he
      rw [mem_singleton.mp he]
      exact hodd

theorem LteRlcHeader.deserialize_bits {packet : Bytes} {h : LteRlcHeader} (hd : deserialize packet = some h) :
    ∀ e ∈ h.extensionBits, e < 2 := by
  unfold deserialize at hd
  split at hd
  · rename_i byte1 byte2 bytes
    have hbit : (byte1.toNat &&& 0x04) >>> 2 < 2 := by
      rw [field_get _ 1 2 (by decide)]
      exact Nat.mod_lt _ (by decide)
    dsimp only at hd
    split at hd
    · cases hd
      simpa using hbit
    · obtain ⟨r, hr, rfl⟩ := map_eq_some_iff.mp hd
      intro e he
      rcases mem_cons.mp he with rfl | he
      · exact hbit
      · exact deserializeLi_bits bytes hr e he
  · cases hd

theorem splitSdus_data : ∀ (es lis : List Nat) (data : Bytes) {packets : List Bytes}, (∀ e ∈ es, e < 2) →
    splitSdus es lis data = some packets → packets.flatten = data := by
  intro es lis data
  fun_induction splitSdus es lis data with
  | case1 lis packet =>
    intro packets _ h
    cases h
    simp
  | case2 es li lis packet hle hzero ih =>
    intro packets hes h
    obtain ⟨rest, hrest, rfl⟩ := map_eq_some_iff.mp h
    rw [flatten_cons, ih (fun e he => hes e (by simp [he])) hrest, take_append_drop]
  | case3 e es li lis packet hne hle hone =>
    -- an extension bit is zero or one
    intro packets hes h
    have := hes e (by simp)
    exact (hne (by omega)).elim
  | case4 => intro packets _ h; cases h
  | case5 => intro packets _ h; cases h

def dataFieldOf (packet : Bytes) : Bytes := ((removeHeader packet).map Prod.snd).getD []

theorem Carries.data {n : Nat} {b : Bytes} {c : Content} (h : Carries n b c) : dataFieldOf b = c.packets.flatten := by
  obtain ⟨rlcHeader, data, hr, -, -, hsplit⟩ := h
  obtain ⟨rlcHeader', hd, he⟩ := map_eq_some_iff.mp hr
  cases he
  rw [dataFieldOf, hr, splitSdus_data _ _ _ (deserialize_bits hd) hsplit]
  rfl

/-! ## The buffer in any run -/

namespace LteRlcUmTx

variable {s : LteRlcUmTx} {order out : List Bytes} {cs : List Content}

theorem Sends.data (h : Sends s order out cs) : out.map dataFieldOf = cs.map fun c => c.packets.flatten := by
  refine ext_getElem (by simp [h.count]) fun n hn hn' => ?_
  rw [length_map] at hn hn'
  rw [getElem_map, getElem_map]
  exact (h.carries n _ _ (getElem?_eq_getElem hn) (getElem?_eq_getElem hn')).data

/-- **No byte is lost or sent twice.** -/
theorem Sends.bytes (h : Sends s order out cs) :
    (out.map dataFieldOf).flatten ++ bytesOf s.txBuffer = order.flatten := by
  have hsent : (out.map dataFieldOf).flatten = (cs.flatMap Content.packets).flatten := by
    rw [h.data, flatMap_def, flatten_flatten, List.map_map]
    rfl
  rw [hsent, h.chained.bytes, h.order, flatten_append, waiting_flatten h.queue, append_assoc]

theorem enqueue_perm {p : Bytes} : (s.enqueue order p).Perm (if s.hasRoom p then order ++ [p] else order) := by
  unfold enqueue
  by_cases hroom : s.hasRoom p = true
  · rw [if_pos hroom, if_pos hroom]
    by_cases htop : s.ncArqAddTop = 1
    · rw [if_pos htop]
      refine perm_middle.trans ?_
      rw [take_append_drop]
      exact perm_append_singleton p order |>.symm
    · rw [if_neg htop]
  · rw [if_neg hroom, if_neg hroom]

variable {pdus : List Bytes} {s' : LteRlcUmTx} {e : UmTxEvent}

theorem transmitPdu_spec {s s' : LteRlcUmTx} {d : DataField} (h : s.transmitPdu d = some (s', pdus)) :
    (∀ packet ∈ pdus, packet.length = sizeFor d.extensionBits.length % 65536 + sizes d.segments) ∧
      s'.maxTxBufferSize = s.maxTxBufferSize := by
  unfold transmitPdu at h
  split at h
  · cases h
  · rename_i packet hbuild
    cases h
    refine ⟨fun b hb => ?_, rfl⟩
    obtain rfl := mem_singleton.mp hb
    exact buildPdu_length hbuild

theorem Sends.notify_fits (h : Sends s order out cs) {bytes : Nat}
    (hrun : s.doNotifyTxOpportunity bytes = some (s', pdus)) :
    (∀ packet ∈ pdus, packet.length ≤ bytes) ∧ s'.maxTxBufferSize = s.maxTxBufferSize := by
  unfold LteRlcUmTx.doNotifyTxOpportunity at hrun
  split at hrun
  · cases hrun
    exact ⟨by simp, rfl⟩
  · have hqueue := h.queue
    cases hq : s.txBuffer with
    | nil =>
      rw [hq] at hrun
      cases hrun
      exact ⟨by simp, rfl⟩
    | cons first q =>
      rw [hq] at hrun hqueue
      dsimp only at hrun
      generalize sub32 s.txBufferSize first.size = size at hrun
      obtain ⟨c, hc⟩ := fillDataField_filled q _ first size (bytes - 2) 1 hqueue (by omega)
      have hfits := fillDataField_fits q first size (bytes - 2) 1
      have hbits := congrArg List.length hc.bits
      rw [extensionBitsFor_length] at hbits
      rw [indicatorBytes_eq] at hfits
      obtain ⟨hlength, hmax⟩ := transmitPdu_spec hrun
      refine ⟨fun packet hp => ?_, hmax⟩
      rw [hlength packet hp, hbits, sizeFor]
      omega

theorem notifyFlag_fits {bytes flag : Nat} {s s' : LteRlcUmTx} {remain : Nat}
    (hrun : s.doNotifyTxOpportunityFlag bytes flag = some (s', pdus, remain)) :
    (∀ packet ∈ pdus, packet.length ≤ bytes) ∧ s'.maxTxBufferSize = s.maxTxBufferSize := by
  unfold LteRlcUmTx.doNotifyTxOpportunityFlag at hrun
  dsimp only at hrun
  split at hrun
  · obtain ⟨rfl, rfl, -⟩ := by simpa using hrun
    exact ⟨by simp, rfl⟩
  · split at hrun
    · obtain ⟨rfl, rfl, -⟩ := by simpa using hrun
      exact ⟨by simp, rfl⟩
    · rename_i first q hq
      split at hrun
      · cases hrun
      · split at hrun
        · cases hrun
        · rename_i s₁ pdus₁ htransmit
          obtain ⟨rfl, rfl, -⟩ := by simpa using hrun
          obtain ⟨hlength, hmax⟩ := transmitPdu_spec htransmit
          refine ⟨fun packet hp => ?_, hmax⟩
          rw [hlength packet hp]
          by_cases hcut : first.size > bytes - 2 ∨ first.size > 2047
          · have := first.cut_size (bytes - 2)
            simp [hcut, cutToFit, sizes, sizeFor]
            omega
          · simp [hcut, takeLast, sizes, sizeFor]
            omega

/-- The size of the buffer with the packet of an event has 32 bits. -/
def KeepsSize (s : LteRlcUmTx) (e : UmTxEvent) : Prop :=
  ∀ p ∈ submittedBy e, s.hasRoom p = true → s.txBufferSize + p.length < 4294967296

instance (s : LteRlcUmTx) (e : UmTxEvent) : Decidable (s.KeepsSize e) :=
  inferInstanceAs (Decidable (∀ p ∈ submittedBy e, s.hasRoom p = true → _ < _))

def grantOf : UmTxEvent → Nat
  | .transmitPdcpPdu _ _ => 0
  | .transmitPdcpPdu2 _ _ => 0
  | .txOpportunity bytes => bytes
  | .txOpportunityFlag bytes _ => bytes

def acceptedBy (s : LteRlcUmTx) (e : UmTxEvent) : List Bytes := (submittedBy e).toList.filter s.hasRoom

theorem Sends.step_fits (h : Sends s order out cs) (hstep : machine.step s e = some (s', pdus)) :
    (∀ packet ∈ pdus, packet.length ≤ grantOf e) ∧ s'.maxTxBufferSize = s.maxTxBufferSize := by
  have hstore : ∀ p top, ({ s with ncArqAddTop := top }.storePdcpPdu p).maxTxBufferSize = s.maxTxBufferSize := by
    intro p top
    unfold storePdcpPdu
    split <;> rfl
  cases e with
  | transmitPdcpPdu p top =>
    cases hstep
    exact ⟨by simp, hstore p top⟩
  | transmitPdcpPdu2 p top =>
    cases hstep
    exact ⟨by simp, hstore p top⟩
  | txOpportunity bytes => exact h.notify_fits hstep
  | txOpportunityFlag bytes flag =>
    simp only [machine] at hstep
    split at hstep
    · cases hstep
    · rename_i hrun
      cases hstep
      exact notifyFlag_fits hrun

theorem orderAfter_perm (s : LteRlcUmTx) (order : List Bytes) (e : UmTxEvent) :
    (s.orderAfter order e).Perm (order ++ s.acceptedBy e) := by
  have hstore : ∀ p top, ({ s with ncArqAddTop := top }.enqueue order p).Perm (order ++ [p].filter s.hasRoom) := by
    intro p top
    refine enqueue_perm.trans ?_
    change (if s.hasRoom p then order ++ [p] else order).Perm _
    by_cases hroom : s.hasRoom p
    · rw [if_pos hroom, filter_cons_of_pos hroom]
      exact .refl _
    · rw [if_neg hroom, filter_cons_of_neg hroom]
      simp
  cases e with
  | transmitPdcpPdu p top => exact hstore p top
  | transmitPdcpPdu2 p top => exact hstore p top
  | txOpportunity bytes => simp [orderAfter, acceptedBy, submittedBy]
  | txOpportunityFlag bytes flag => simp [orderAfter, acceptedBy, submittedBy]

theorem Sends.step_sizes (h : Sends s order out cs)
    {new : List Content} (h' : Sends s' (s.orderAfter order e) (out ++ pdus) (cs ++ new)) :
    (pdus.map dataFieldOf).flatten.length + sizes s'.txBuffer = sizes s.txBuffer + (s.acceptedBy e).flatten.length := by
  have hbytes := congrArg List.length h.bytes
  have hbytes' := congrArg List.length h'.bytes
  rw [(orderAfter_perm s order e).flatten.length_eq] at hbytes'
  simp only [map_append, flatten_append, length_append, bytesOf_length] at hbytes hbytes'
  omega

/-- **The size of the buffer** stays exact and bounded while it has 32 bits. -/
theorem Sends.step_size (h : Sends s order out cs) {new : List Content} (hstep : machine.step s e = some (s', pdus))
    (h' : Sends s' (s.orderAfter order e) (out ++ pdus) (cs ++ new)) (hsize : s.txBufferSize = sizes s.txBuffer)
    (hkeeps : s.KeepsSize e) (hmax : s.txBufferSize ≤ s.maxTxBufferSize) :
    s'.txBufferSize = sizes s'.txBuffer ∧ s'.txBufferSize ≤ s.maxTxBufferSize := by
  have hsizes := h.step_sizes h'
  have hcount := h.size
  have hcount' := h'.size
  have hstore : ∀ p top, ({ s with ncArqAddTop := top }.storePdcpPdu p).txBufferSize ≤ s.maxTxBufferSize := by
    intro p top
    unfold storePdcpPdu
    split
    · assumption
    · exact hmax
  have haccepted : sizes s.txBuffer + (s.acceptedBy e).flatten.length < 4294967296 := by
    unfold acceptedBy
    cases hp : submittedBy e with
    | none =>
      simp only [toList_none, filter_nil, flatten_nil, length_nil]
      omega
    | some p =>
      by_cases hroom : s.hasRoom p = true
      · have := hkeeps p hp hroom
        simpa [hroom, ← hsize] using this
      · simp only [toList_some, filter_cons, hroom, filter_nil]
        simp only [Bool.false_eq_true, if_false, flatten_nil, length_nil]
        omega
  rw [Nat.mod_eq_of_lt (by omega)] at hcount'
  refine ⟨hcount', ?_⟩
  cases e with
  | transmitPdcpPdu p top =>
    cases hstep
    exact hstore p top
  | transmitPdcpPdu2 p top =>
    cases hstep
    exact hstore p top
  | txOpportunity bytes =>
    have hnone : (s.acceptedBy (.txOpportunity bytes)).flatten.length = 0 := rfl
    omega
  | txOpportunityFlag bytes flag =>
    have hnone : (s.acceptedBy (.txOpportunityFlag bytes flag)).flatten.length = 0 := rfl
    omega

/-- While the size is exact, it is zero of an empty buffer only. -/
theorem Sends.keepsSdus (h : Sends s order out cs) (hsize : s.txBufferSize = sizes s.txBuffer) (e : UmTxEvent) :
    s.KeepsSdus e := by
  have hparts : ∀ p top, s.partsSdu p top = false := by
    intro p top
    unfold partsSdu
    have hqueue := h.queue
    cases hq : s.txBuffer with
    | nil => simp
    | cons t q =>
      rw [hq] at hqueue hsize
      have := length_pos_of_ne_nil hqueue.2.1
      have hpos : s.txBufferSize ≠ 0 := by
        rw [hsize, sizes_cons, TxPdu.size]
        omega
      simp [hpos]
  cases e with
  | transmitPdcpPdu p top => exact hparts p top
  | transmitPdcpPdu2 p top => exact hparts p top
  | txOpportunity bytes => trivial
  | txOpportunityFlag bytes flag => trivial

end LteRlcUmTx

/-- A sender, with the packets it accepted so far. -/
structure UmTxHistory where
  tx : LteRlcUmTx
  accepted : List Bytes := []

namespace UmTxHistory

open LteRlcUmTx

def machine : Machine UmTxHistory UmTxEvent Bytes where
  step h e :=
    match LteRlcUmTx.machine.step h.tx e with
    | none => none
    | some (tx, pdus) => some (⟨tx, h.accepted ++ h.tx.acceptedBy e⟩, pdus)

/-- No packet is empty, and both counters are wide enough. -/
def Counts (h : UmTxHistory) (e : UmTxEvent) : Prop := NonEmpty h e ∧ h.tx.KeepsSize e ∧ h.tx.ShortHeader e

instance (h : UmTxHistory) (e : UmTxEvent) : Decidable (Counts h e) := inferInstanceAs (Decidable (_ ∧ _ ∧ _))

structure Inv (maxTxBufferSize : Nat) (tr : List (UmTxEvent × List Bytes)) (h : UmTxHistory) (order : List Bytes)
    (cs : List Content) : Prop where
  sends : Sends h.tx order (outputs tr) cs
  perm : order.Perm h.accepted
  max : h.tx.maxTxBufferSize = maxTxBufferSize
  size : h.tx.txBufferSize = sizes h.tx.txBuffer
  bounded : h.tx.txBufferSize ≤ h.tx.maxTxBufferSize
  fits : ∀ eo ∈ tr, ∀ pdu ∈ eo.2, pdu.length ≤ grantOf eo.1

section
variable {maxTxBufferSize : Nat} {tr : List (UmTxEvent × List Bytes)} {h : UmTxHistory} {order : List Bytes}
  {cs : List Content}

/-- The counter stays the sum of the sizes as packets come and go. -/
theorem Inv.step (hinv : Inv maxTxBufferSize tr h order cs) {e : UmTxEvent} (he : Counts h e) :
    ∃ h' pdus new, machine.step h e = some (h', pdus) ∧
      Inv maxTxBufferSize (tr ++ [(e, pdus)]) h' (h.tx.orderAfter order e) (cs ++ new) := by
  obtain ⟨hne, hkeeps, hshort⟩ := he
  obtain ⟨tx, pdus, new, hstep, hsends⟩ := hinv.sends.step ⟨hne, hinv.sends.keepsSdus hinv.size e, hshort⟩
  obtain ⟨hfits, hmax⟩ := hinv.sends.step_fits hstep
  obtain ⟨hsize, hbounded⟩ := hinv.sends.step_size hstep hsends hinv.size hkeeps hinv.bounded
  refine ⟨⟨tx, h.accepted ++ h.tx.acceptedBy e⟩, pdus, new, by simp [machine, hstep], ?_, ?_, ?_, hsize, ?_, ?_⟩
  · rw [outputs_snoc]
    exact hsends
  · exact (orderAfter_perm h.tx order e).trans (hinv.perm.append_right _)
  · exact hmax.trans hinv.max
  · rwa [← hmax] at hbounded
  · intro eo heo
    rcases mem_append.mp heo with heo | heo
    · exact hinv.fits eo heo
    · obtain rfl := mem_singleton.mp heo
      exact hfits

theorem inv_of_run (hrun : Run machine Counts ⟨{ maxTxBufferSize := maxTxBufferSize }, []⟩ tr h) :
    ∃ order cs, Inv maxTxBufferSize tr h order cs := by
  refine Run.invariant (fun tr h => ∃ order cs, Inv maxTxBufferSize tr h order cs) ?_ ?_ hrun
  · exact ⟨[], [], sends_init _, .nil, rfl, rfl, Nat.zero_le _, by simp⟩
  · rintro tr h e h' pdus ⟨order, cs, hinv⟩ he hstep
    obtain ⟨h'', pdus', new, hstep', hinv'⟩ := hinv.step he
    cases hstep.symm.trans hstep'
    exact ⟨_, _, hinv'⟩

end

/-- The data fields sent and the buffer are the packets accepted, one after the
other in some order. -/
def AllBytes (tr : List (UmTxEvent × List Bytes)) (h : UmTxHistory) : Prop :=
  ∃ order : List Bytes, order.Perm h.accepted ∧
    ((outputs tr).map dataFieldOf).flatten ++ bytesOf h.tx.txBuffer = order.flatten

/-- **The transmission buffer.** In every run the events can be served, and the
size, the tags, the lengths of the PDUs and the bytes are as they should. -/
theorem txBuffer_sound (maxTxBufferSize : Nat) {tr : List (UmTxEvent × List Bytes)} {h : UmTxHistory}
    (hrun : Run machine Counts ⟨{ maxTxBufferSize := maxTxBufferSize }, []⟩ tr h) :
    (∀ e, Counts h e → (machine.step h e).isSome) ∧
      h.tx.txBufferSize = sizes h.tx.txBuffer ∧ h.tx.txBufferSize ≤ maxTxBufferSize ∧
      (∀ i t, h.tx.txBuffer[i]? = some t → t.status = .fullSdu ∨ (i = 0 ∧ t.status = .lastSegment)) ∧
      (∀ eo ∈ tr, ∀ pdu ∈ eo.2, pdu.length ≤ grantOf eo.1) ∧ AllBytes tr h := by
  obtain ⟨order, cs, hinv⟩ := inv_of_run hrun
  refine ⟨fun e he => ?_, hinv.size, ?_, hinv.sends.queue.tags, hinv.fits, order, hinv.perm, hinv.sends.bytes⟩
  · obtain ⟨h', pdus, new, hstep, -⟩ := hinv.step he
    rw [hstep]
    rfl
  · rw [← hinv.max]
    exact hinv.bounded

/-- A packet is cut, and one with priority gets behind its rest. -/
def priorityBehindRest : List UmTxEvent :=
  [.transmitPdcpPdu [1, 2, 3] 0, .transmitPdcpPdu2 [4, 5] 0, .txOpportunity 4, .transmitPdcpPdu [6, 7] 1,
    .txOpportunityFlag 5 0, .txOpportunity 3]

theorem priorityBehindRest_isSome : (machine.exec Counts ⟨{ maxTxBufferSize := 7 }, []⟩ priorityBehindRest).isSome := by
  decide +kernel

theorem priority_behind_rest : ∃ tr h, Run machine Counts ⟨{ maxTxBufferSize := 7 }, []⟩ tr h ∧
    h.tx.txBuffer = [⟨[7], .lastSegment⟩, ⟨[4, 5], .fullSdu⟩] ∧ h.tx.txBufferSize ≤ 7 ∧ AllBytes tr h := by
  have hrun := run_of_isSome machine Counts _ _ priorityBehindRest_isSome
  obtain ⟨-, -, hmax, -, -, hbytes⟩ := txBuffer_sound 7 hrun
  exact ⟨_, _, hrun, by decide +kernel, hmax, hbytes⟩

/-- The steps of a sender, with what it accepts. -/
theorem run_history {tx₀ tx : LteRlcUmTx} {tr : List (UmTxEvent × List Bytes)}
    (h : Run LteRlcUmTx.machine Stores tx₀ tr tx) : Run machine NonEmpty ⟨tx₀, []⟩ tr ⟨tx, submitted tr⟩ := by
  induction h with
  | nil => exact .nil
  | @snoc tr tx e tx' pdus _ hstores hstep ih =>
    refine ih.snoc hstores.nonempty ?_
    have haccepted : tx.acceptedBy e = (submittedBy e).toList := by
      cases e with
      | transmitPdcpPdu p top => simp [acceptedBy, submittedBy, hstores.2.2]
      | transmitPdcpPdu2 p top => simp [acceptedBy, submittedBy, hstores.2.2]
      | txOpportunity bytes => rfl
      | txOpportunityFlag bytes flag => rfl
    have hsub : submitted (tr ++ [(e, pdus)]) = submitted tr ++ (submittedBy e).toList := by
      cases hp : submittedBy e <;> simp [submitted, hp]
    simp only [machine, hstep]
    rw [haccepted, hsub]

/-- Two packets of `2 ^ 32 + 50` bytes together have room in the buffer. -/
theorem size_wraps {first second : Bytes} (hfirst : first.length = 100) (hsecond : second.length = 4294967246) :
    ∃ tr h, Run machine NonEmpty ⟨{}, []⟩ tr h ∧ h.tx.txBufferSize ≠ sizes h.tx.txBuffer := by
  have hne : ∀ p : Bytes, p.length ≠ 0 → NonEmpty () (.transmitPdcpPdu p 0) := by
    rintro p hp p' ⟨⟩ rfl
    exact hp rfl
  have hstep : machine.step ⟨{}, []⟩ (.transmitPdcpPdu first 0) =
      some (⟨{ txBuffer := [⟨first, .fullSdu⟩], txBufferSize := 100 }, [first]⟩, []) := by
    simp [machine, LteRlcUmTx.machine, doTransmitPdcpPdu, storePdcpPdu, acceptedBy, submittedBy, hasRoom, hfirst, add32]
  have hstep' : machine.step ⟨{ txBuffer := [⟨first, .fullSdu⟩], txBufferSize := 100 }, [first]⟩
      (.transmitPdcpPdu second 0) = some (⟨{
        txBuffer := [⟨first, .fullSdu⟩, ⟨second, .fullSdu⟩], txBufferSize := 50 }, [first, second]⟩, []) := by
    simp [machine, LteRlcUmTx.machine, doTransmitPdcpPdu, storePdcpPdu, acceptedBy, submittedBy, hasRoom, hsecond, add32]
  refine ⟨_, _, .cons (hne first (by omega)) hstep (.cons (hne second (by omega)) hstep' .nil), ?_⟩
  simp only [sizes_cons, TxPdu.size, hfirst]
  omega

theorem bytes_overlaid : ∃ tr h, Run machine NonEmpty ⟨{ maxTxBufferSize := 999999999 }, []⟩ tr h ∧ ¬ AllBytes tr h := by
  obtain ⟨tx, b, others, hstep, hempty, hs, hbyte⟩ := manySdus_overlaid (n := 43689) rfl
  generalize hn : 43689 + 1 + 1 = n at hstep
  have hrun := run_history ((run_manySdus n (by omega)).snoc (by trivial) hstep)
  have hout : outputs (storedTrace n) = [] := by simp [outputs, storedTrace]
  have hsubmitted : submitted (storedTrace n ++ [(.txOpportunity 200000, [b])]) = submitted (storedTrace n) := by
    simp [submitted, submittedBy]
  rw [hsubmitted] at hrun
  refine ⟨_, _, hrun, ?_⟩
  rintro ⟨order, hperm, hbytes⟩
  have hdata : dataFieldOf b = others.flatten := by
    simpa [Content.packets] using (hs.carries 0 b _ rfl rfl).data
  rw [outputs_snoc, hout, hempty] at hbytes
  have hin : 128 ∈ order.flatten := by
    rw [← hbytes]
    simpa [hdata, bytesOf] using hbyte
  obtain ⟨p, hp, hin⟩ := mem_flatten.mp hin
  have hzero := storedTrace_zeros n 128 (mem_flatten.mpr ⟨p, hperm.subset hp, hin⟩)
  exact absurd hzero (by decide)

theorem step_none {h : UmTxHistory} {e : UmTxEvent} (hnone : LteRlcUmTx.machine.step h.tx e = none) :
    machine.step h e = none := by
  simp only [machine, hnone]

/-- **Both counters overflow**: the size of the buffer at `2 ^ 32` bytes, and the
length of a header with 43690 SDUs or more. -/
theorem counters_overflow : (∃ tr h, Run machine NonEmpty ⟨{}, []⟩ tr h ∧ h.tx.txBufferSize ≠ sizes h.tx.txBuffer) ∧
    (∃ tr h, Run machine NonEmpty ⟨{ maxTxBufferSize := 999999999 }, []⟩ tr h ∧ ¬ AllBytes tr h) ∧
    ∃ tr h, Run machine NonEmpty ⟨{ maxTxBufferSize := 999999999 }, []⟩ tr h ∧
      machine.step h (.txOpportunity 200000) = none := by
  have hfirst : (replicate 100 (0 : UInt8)).length = 100 := length_replicate ..
  have hsecond : (replicate 4294967246 (0 : UInt8)).length = 4294967246 := length_replicate ..
  exact ⟨size_wraps hfirst hsecond, bytes_overlaid, _, _, run_history (run_manySdus (43689 + 1) (by decide)),
    step_none (manySdus_aborts rfl)⟩

end UmTxHistory

end Ns3
