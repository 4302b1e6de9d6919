import Ns3.Rlc.Um

/-!
# The transmitting side sends the SDUs in order

`Sends s order out cs`: the PDUs `out` emitted so far carry the contents `cs`,
and the SDUs these complete, followed by those waiting in the buffer, are
`order`. Storing a packet adds it to `order`; a transmission opportunity
leaves `order` as it is.
-/

namespace Ns3

open LteRlcHeader List

/-! ## Sequences of contents -/

/-- The SDUs completed by a sequence of contents, and the beginning kept. -/
def absorbAll (cs : List Content) : List Bytes × Option Bytes :=
  cs.foldl (fun st c => (st.1 ++ (c.absorb st.2).1, (c.absorb st.2).2)) ([], none)

theorem absorbAll_snoc (cs : List Content) (c : Content) :
    absorbAll (cs ++ [c]) = ((absorbAll cs).1 ++ (c.absorb (absorbAll cs).2).1, (c.absorb (absorbAll cs).2).2) := by
  simp [absorbAll, foldl_append]

/-- Each content continues an SDU exactly when the ones before it left one
unfinished. -/
def Chained (cs : List Content) : Prop :=
  ∀ n c, cs[n]? = some c → c.continues = (absorbAll (cs.take n)).2.isSome ∧ c.packets ≠ []

theorem Chained.nil : Chained [] := by
  intro n c h
  simp at h

theorem Chained.snoc {cs : List Content} {c : Content} (h : Chained cs)
    (hc : c.continues = (absorbAll cs).2.isSome) (hne : c.packets ≠ []) : Chained (cs ++ [c]) := by
  intro n c' hn
  rcases Nat.lt_trichotomy n cs.length with hlt | heq | hgt
  · rw [getElem?_append_left hlt] at hn
    rw [take_append_of_le_length hlt.le]
    exact h n c' hn
  · subst heq
    simp only [getElem?_concat_length, Option.some.injEq] at hn
    subst hn
    simpa using ⟨hc, hne⟩
  · rw [getElem?_eq_none (by simp; omega)] at hn
    cases hn

/-! ## PDUs -/

/-- The bytes `b` are the PDU with number `n` and content `c`. -/
def Carries (n : Nat) (b : Bytes) (c : Content) : Prop :=
  ∃ rlcHeader data, removeHeader b = some (rlcHeader, data) ∧
    rlcHeader.sequenceNumber = .ofIndex n 0 ∧ rlcHeader.framingInfo = c.framingInfo ∧
    splitSdus rlcHeader.extensionBits rlcHeader.lengthIndicators data = some c.packets

theorem Carries.deserialize {n : Nat} {b : Bytes} {c : Content} (h : Carries n b c) :
    ∃ rlcHeader, deserialize b = some rlcHeader ∧ rlcHeader.sequenceNumber = .ofIndex n 0 := by
  obtain ⟨rlcHeader, data, hr, hn, -, -⟩ := h
  obtain ⟨rlcHeader', hd, he⟩ := Option.map_eq_some_iff.mp hr
  obtain ⟨rfl, -⟩ := Prod.mk.inj he
  exact ⟨rlcHeader', hd, hn⟩

theorem Content.framingInfo_lt (c : Content) : c.framingInfo < 4 := by
  unfold Content.framingInfo
  cases c.continues <;> cases c.stops <;> decide

namespace LteRlcUmTx

variable {kept : Option Bytes} {q : List TxPdu} {d : DataField} {c : Content}

/-- The header of a PDU with the data field `d`, of content `c`. -/
def headerOf (sn : SequenceNumber10) (d : DataField) (c : Content) : LteRlcHeader :=
  ⟨sizeFor d.extensionBits.length, c.framingInfo, sn, d.extensionBits, d.lengthIndicators⟩

theorem buildPdu_eq (hd : Filled kept q d c) (sn : SequenceNumber10) : buildPdu sn d =
    if (headerOf sn d c).getSerializedSize < 1 then none
    else (headerOf sn d c).addHeader (d.segments.map TxPdu.pdu).flatten := by
  have hfi : framingInfoOf d.segments = some c.framingInfo := by
    rw [hd.segments, Content.framingInfoOf_segments hd.nonempty]
  have hmask : c.framingInfo &&& 0x03 = c.framingInfo := by
    rw [Nat.and_two_pow_sub_one_eq_mod _ 2]
    exact Nat.mod_eq_of_lt c.framingInfo_lt
  rw [buildPdu, hfi]
  simp only [foldl_pushExtensionBit _ {} rfl, foldl_pushLengthIndicator,
    setSequenceNumber, setFramingInfo, hmask, nil_append, length_nil, Nat.zero_add]
  rfl

theorem headerOf_built (hd : Filled kept q d c) (sn : SequenceNumber10) (hsn : sn.value < 1024) :
    (headerOf sn d c).Built :=
  ⟨c.framingInfo_lt, hsn, hd.bits, hd.short, rfl⟩

theorem headerOf_length (hd : Filled kept q d c) (sn : SequenceNumber10) :
    (headerOf sn d c).headerLength = d.segments.length + 1 + d.segments.length / 2 := by
  have hsome := length_pos_of_ne_nil hd.segments_ne_nil
  obtain ⟨m, hm⟩ := Nat.exists_eq_succ_of_ne_zero (Nat.ne_of_gt hsome)
  simp only [headerOf, hd.bits_length, hm, sizeFor]

theorem buildPdu_carries (hd : Filled kept q d c) (hcount : d.segments.length < 43690) {sn : SequenceNumber10} {n : Nat}
    (hn : sn.value = n % 1024) : ∃ b, buildPdu sn d = some b ∧ Carries n b c := by
  have hlength := headerOf_length hd sn
  have hshort : (headerOf sn d c).headerLength < 65536 := by omega
  have hbuilt := headerOf_built hd sn (by omega)
  obtain ⟨b, hadd, hremove⟩ := hbuilt.removeHeader_addHeader hshort (d.segments.map TxPdu.pdu).flatten
  refine ⟨b, ?_, _, _, hremove, ?_, rfl, hd.splits⟩
  · rw [buildPdu_eq hd, if_neg, hadd]
    rw [getSerializedSize]
    omega
  · simp only [headerOf, hn, SequenceNumber10.ofValue, SequenceNumber10.ofIndex, Nat.mod_mod, Nat.zero_mod]

/-! ## Headers of 65536 bytes or more -/

/-- The serialized size of the header is zero. -/
theorem buildPdu_aborts (hd : Filled kept q d c) (hcount : d.segments.length = 43690) (sn : SequenceNumber10) :
    buildPdu sn d = none := by
  rw [buildPdu_eq hd, if_pos]
  rw [getSerializedSize, headerOf_length hd, hcount]
  decide

theorem splitSdus_isSome : ∀ (lis : List Nat) (data : Bytes), lis.sum ≤ data.length →
    ∃ packets, splitSdus (extensionBitsFor lis.length) lis data = some packets ∧ packets ≠ [] ∧ packets.flatten = data
  | [], data, _ => ⟨[data], rfl, by simp, by simp⟩
  | li :: lis, data, hle => by
    rw [List.sum_cons] at hle
    obtain ⟨packets, hsplit, -, hflat⟩ := splitSdus_isSome lis (data.drop li) (by rw [length_drop]; omega)
    refine ⟨data.take li :: packets, ?_, by simp, ?_⟩
    · simp only [length_cons, extensionBitsFor_succ, E_LI_FIELDS_FOLLOWS, splitSdus]
      rw [if_pos (by omega), if_pos trivial, hsplit, Option.map_some]
    · rw [flatten_cons, hflat, take_append_drop]

/-- **A header of 65537 bytes** has only its first byte in front of the data
field and lies over it with the others: the SDUs of the PDU have bytes of it. -/
theorem buildPdu_overlaid {full : List Bytes} {li : Nat} {lis : List Nat} (hd : Filled none q d (.sdus none full none))
    (hlis : d.lengthIndicators = li :: lis) (hcount : lis.length = 43689)
    (hdata : 65536 ≤ (d.segments.map TxPdu.pdu).flatten.length)
    (hsum : d.lengthIndicators.sum ≤ (d.segments.map TxPdu.pdu).flatten.length) :
    ∃ b others, buildPdu (.ofValue 0) d = some b ∧ Carries 0 b (.sdus none others none) ∧ others ≠ [] ∧
      oddByte 1 li ∈ others.flatten := by
  have hbits := hd.bits
  have hsegments := hd.bits_length
  rw [hlis, length_cons, extensionBitsFor_succ] at hbits
  rw [hbits, length_cons, extensionBitsFor_length, hcount] at hsegments
  have hlength := headerOf_length hd (.ofValue 0)
  rw [← hsegments] at hlength
  have hsize : (headerOf (.ofValue 0) d (.sdus none full none)).getSerializedSize = 1 := by
    rw [getSerializedSize, hlength]
  have hbuilt := headerOf_built hd (.ofValue 0) (by decide)
  obtain ⟨bytes, hs, hlen, hadd⟩ := hbuilt.addHeader_eq (d.segments.map TxPdu.pdu).flatten (by omega)
  have hremove := hbuilt.deserialize_serialize hs
    ((d.segments.map TxPdu.pdu).flatten.drop (65537 - 1))
  rw [hsize, hlength] at hadd
  generalize hb : bytes ++ (d.segments.map TxPdu.pdu).flatten.drop (65537 - 1) = b at hadd hremove
  have hrest : (b.drop 1).length = (d.segments.map TxPdu.pdu).flatten.length := by
    rw [← hb, length_drop, length_append, length_drop, hlen]
    omega
  obtain ⟨others, hsplit, hne, hflat⟩ := splitSdus_isSome d.lengthIndicators (b.drop 1) (by omega)
  have hread : removeHeader b = some (headerOf (.ofValue 0) d (.sdus none full none), b.drop 1) := by
    rw [removeHeader, hremove, Option.map_some]
    simp only [getSerializedSize] at hsize ⊢
    rw [hsize]
    rfl
  refine ⟨b, others, ?_, ⟨_, _, hread, rfl, rfl, ?_⟩, hne, ?_⟩
  · rw [buildPdu_eq hd, hsize, if_neg (by decide), hadd]
  · rw [← hd.bits] at hsplit
    simpa [headerOf, Content.packets] using hsplit
  · -- the first byte of the length indicators is the second of the data field
    have hcons : ∃ x y rest, bytes = x :: y :: oddByte 1 li :: rest := by
      obtain ⟨li', lis, rfl⟩ := exists_cons_of_length_eq_add_one hcount
      obtain ⟨li'', lis, rfl⟩ := exists_cons_of_length_eq_add_one (Nat.succ.inj hcount)
      simp only [headerOf, serialize, hbits, hlis, length_cons, extensionBitsFor_succ,
        serializeLi, Option.some.injEq] at hs
      exact ⟨_, _, _, hs.symm⟩
    obtain ⟨x, y, rest, rfl⟩ := hcons
    rw [hflat, ← hb]
    simp

/-! ## The invariant -/

structure Sends (s : LteRlcUmTx) (order out : List Bytes) (cs : List Content) : Prop where
  count : out.length = cs.length
  carries : ∀ n b c, out[n]? = some b → cs[n]? = some c → Carries n b c
  number : s.sequenceNumber.value = out.length % 1024
  chained : Chained cs
  queue : Queue (absorbAll cs).2 s.txBuffer
  order : order = (absorbAll cs).1 ++ waiting (absorbAll cs).2 s.txBuffer
  size : s.txBufferSize = sizes s.txBuffer % 4294967296

theorem sends_init (maxTxBufferSize : Nat) : Sends { maxTxBufferSize := maxTxBufferSize } [] [] [] where
  count := rfl
  carries := by intro n b c h; simp at h
  number := rfl
  chained := .nil
  queue := rfl
  order := rfl
  size := rfl

variable {s : LteRlcUmTx} {order out : List Bytes} {cs : List Content}

theorem Sends.restock (h : Sends s order out cs) {s' : LteRlcUmTx} {order' : List Bytes}
    (hn : s'.sequenceNumber = s.sequenceNumber) (hq : Queue (absorbAll cs).2 s'.txBuffer)
    (ho : order' = (absorbAll cs).1 ++ waiting (absorbAll cs).2 s'.txBuffer)
    (hs : s'.txBufferSize = sizes s'.txBuffer % 4294967296) : Sends s' order' out cs where
  count := h.count
  carries := h.carries
  number := by rw [hn]; exact h.number
  chained := h.chained
  queue := hq
  order := ho
  size := hs

/-- The packet `p` is stored: the buffer has room for it. -/
def hasRoom (s : LteRlcUmTx) (p : Bytes) : Bool := decide (add32 s.txBufferSize p.length ≤ s.maxTxBufferSize)

/-- Where the order has a packet stored now: at its end, or behind the first
packet of the buffer, which holds the last entries of the order. -/
def enqueue (s : LteRlcUmTx) (order : List Bytes) (p : Bytes) : List Bytes :=
  if s.hasRoom p then
    if s.ncArqAddTop = 1 then
      let k := order.length - s.txBuffer.length + if s.txBufferSize ≠ 0 then 1 else 0
      order.take k ++ p :: order.drop k
    else order ++ [p]
  else order

/-- A packet with priority is stored in front of the rest of an SDU: the size
of the buffer is zero, modulo `2 ^ 32`, with that rest in it. -/
def partsSdu (s : LteRlcUmTx) (p : Bytes) (top : Nat) : Bool :=
  top = 1 && s.hasRoom p && s.txBufferSize = 0 && s.txBuffer.head?.any fun t => t.status = .lastSegment

section
variable {p : Bytes}

theorem waiting_snoc (h : Queue kept q) : waiting kept (q ++ [⟨p, .fullSdu⟩]) = waiting kept q ++ [p] := by
  cases q with
  | nil =>
    obtain rfl : kept = none := h
    simp
  | cons t q => simp

theorem Queue.second {t : TxPdu} (h : Queue kept (t :: q)) (hp : p ≠ []) : Queue kept (t :: ⟨p, .fullSdu⟩ :: q) := by
  refine ⟨h.1, h.2.1, fun x hx => ?_⟩
  rcases mem_cons.mp hx with rfl | hx
  · exact ⟨rfl, hp⟩
  · exact h.2.2 x hx

theorem Queue.front (h : Queue none q) (hp : p ≠ []) : Queue none (⟨p, .fullSdu⟩ :: q) := by
  refine ⟨rfl, hp, fun x hx => ?_⟩
  cases q with
  | nil => cases hx
  | cons t q =>
    rcases mem_cons.mp hx with rfl | hx
    · exact ⟨h.1, h.2.1⟩
    · exact h.2.2 x hx

theorem Queue.kept_none (h : Queue kept q) (hfirst : ¬ (q.head?.any fun t => t.status = .lastSegment) = true) :
    kept = none := by
  cases q with
  | nil => exact h
  | cons t q =>
    cases kept with
    | none => rfl
    | some b => simp [h.1] at hfirst

/-- **Storing a packet** puts it where `enqueue` says. -/
theorem Sends.store (h : Sends s order out cs) (hp : p ≠ []) (hparts : s.partsSdu p s.ncArqAddTop = false) :
    Sends (s.storePdcpPdu p) (s.enqueue order p) out cs := by
  have hlen : order.length = (absorbAll cs).1.length + s.txBuffer.length := by
    rw [h.order, length_append, waiting_length]
  have hcount : add32 s.txBufferSize p.length = (sizes s.txBuffer + p.length) % 4294967296 := by
    rw [h.size, add32_mod_left]
  unfold storePdcpPdu enqueue
  unfold partsSdu hasRoom at hparts
  unfold hasRoom
  by_cases hfits : add32 s.txBufferSize p.length ≤ s.maxTxBufferSize
  · rw [if_pos hfits, if_pos (by simpa using hfits)]
    by_cases htop : s.ncArqAddTop = 1
    · by_cases hzero : s.txBufferSize = 0
      · -- the packet goes to the front, where no SDU is begun
        have hroom := hfits
        rw [hzero] at hroom
        have hkept : (absorbAll cs).2 = none := Queue.kept_none h.queue (by simpa [htop, hzero, hroom] using hparts)
        have hqueue := h.queue
        have horder := h.order
        rw [hkept] at hqueue horder
        have hk : order.length - s.txBuffer.length + 0 = (absorbAll cs).1.length := by omega
        refine h.restock rfl ?_ ?_ ?_
        · simpa [htop, hzero, hkept] using Queue.front hqueue hp
        · simp only [htop, hzero, ne_eq, not_true_eq_false, if_true, if_false]
          rw [hk, hkept, horder, take_left, drop_left]
          simp
        · rw [hzero] at hcount
          simp [htop, hzero, hcount, TxPdu.size, Nat.add_comm]
      · cases hq : s.txBuffer with
        | nil =>
          rw [h.size, hq] at hzero
          exact absurd rfl hzero
        | cons t q =>
          have hqueue := h.queue
          have horder := h.order
          rw [hq] at hqueue horder hlen hcount
          have hsplit : order = ((absorbAll cs).1 ++ [(absorbAll cs).2.getD [] ++ t.pdu]) ++ q.map TxPdu.pdu := by
            simpa using horder
          have hk : ((absorbAll cs).1 ++ [(absorbAll cs).2.getD [] ++ t.pdu]).length =
              order.length - (t :: q).length + 1 := by
            simp only [length_append, length_singleton]
            omega
          simp only [htop, if_true, ne_eq, hzero, not_false_eq_true]
          refine h.restock rfl ?_ ?_ ?_
          · exact Queue.second hqueue hp
          · rw [hsplit] at hk ⊢
            rw [take_left' hk, drop_left' hk]
            simp
          · simp only [hcount, sizes_cons, TxPdu.size, take_succ_cons, take_zero, drop_succ_cons,
              drop_zero, singleton_append]
            congr 1
            omega
    · refine h.restock rfl ?_ ?_ ?_
      · simpa [htop] using Queue.snoc h.queue hp
      · simp [htop, waiting_snoc h.queue, h.order]
      · simp [htop, sizes_snoc, hcount, TxPdu.size]
  · rw [if_neg hfits, if_neg (by simpa using hfits)]
    exact h

end

/-! ## Transmission opportunities -/

theorem Sends.transmitPdu (h : Sends s order out cs) (hd : Filled (absorbAll cs).2 s.txBuffer d c)
    (hcount : d.segments.length < 43690) (hsize : d.txBufferSize = sizes d.txBuffer % 4294967296) :
    ∃ s' b, s.transmitPdu d = some (s', [b]) ∧ Sends s' order (out ++ [b]) (cs ++ [c]) := by
  obtain ⟨b, hb, hcarries⟩ := buildPdu_carries hd hcount h.number
  refine ⟨_, b, by rw [LteRlcUmTx.transmitPdu, hb], ?_⟩
  constructor
  · simp [h.count]
  · intro n b' c' hb' hc'
    rcases Nat.lt_trichotomy n cs.length with hlt | rfl | hgt
    · rw [getElem?_append_left (by rw [h.count]; exact hlt)] at hb'
      rw [getElem?_append_left hlt] at hc'
      exact h.carries n b' c' hb' hc'
    · rw [← h.count, getElem?_concat_length] at hb'
      rw [getElem?_concat_length] at hc'
      cases hb'
      cases hc'
      exact h.count ▸ hcarries
    · rw [getElem?_eq_none (by simp; omega)] at hc'
      cases hc'
  · simp [SequenceNumber10.incr, h.number]
  · exact h.chained.snoc hd.fits hd.nonempty
  · rw [absorbAll_snoc]
    exact hd.queue
  · rw [absorbAll_snoc, h.order, hd.order, append_assoc]
  · exact hsize

/-- The SDUs and segments that an opportunity takes into one PDU. -/
def segmentsFor (s : LteRlcUmTx) (bytes : Nat) : List TxPdu :=
  match s.txBuffer with
  | [] => []
  | first :: q => (fillDataField first q (sub32 s.txBufferSize first.size) (bytes - 2) 1).segments

/-- **An opportunity** of any size, of either kind: at most one PDU is sent and
the order of the SDUs stays. -/
theorem Sends.doNotifyTxOpportunity (h : Sends s order out cs) {bytes : Nat}
    (hcount : (s.segmentsFor bytes).length < 43690) :
    ∃ s' o new, s.doNotifyTxOpportunity bytes = some (s', o) ∧ Sends s' order (out ++ o) (cs ++ new) := by
  unfold LteRlcUmTx.doNotifyTxOpportunity
  by_cases hbytes : bytes ≤ 2
  · exact ⟨s, [], [], if_pos hbytes, by simpa using h⟩
  · rw [if_neg hbytes]
    cases hq : s.txBuffer with
    | nil => exact ⟨s, [], [], rfl, by simpa using h⟩
    | cons first q =>
      simp only [segmentsFor, hq] at hcount
      have hsize : sub32 s.txBufferSize first.size = sizes q % 4294967296 := by
        rw [h.size, hq, sizes_cons, Nat.add_comm, sub32_add]
      obtain ⟨c, hc⟩ := fillDataField_filled q _ first (sub32 s.txBufferSize first.size) (bytes - 2) 1
        (hq ▸ h.queue) (by omega)
      obtain ⟨s', b, hs', hsends⟩ := h.transmitPdu (hq ▸ hc) hcount (fillDataField_size hsize first (bytes - 2) 1)
      exact ⟨s', [b], [c], hs', hsends⟩

/-- The data field of an opportunity with a flag. -/
def fillOne (first : TxPdu) (q : List TxPdu) (size next : Nat) (isCut : Bool) : DataField :=
  if isCut then cutToFit first q size next else takeLast first q size next

theorem fillOne_filled {first : TxPdu} (hq : Queue kept (first :: q)) (size next : Nat) (isCut : Bool) :
    ∃ c, Filled kept (first :: q) (fillOne first q size next isCut) c := by
  cases isCut with
  | true => exact cutToFit_filled hq size next
  | false => exact takeLast_filled hq size next

theorem fillOne_size {q : List TxPdu} {size : Nat} (hsize : size = sizes q % 4294967296) (first : TxPdu) (next : Nat)
    (isCut : Bool) :
    (fillOne first q size next isCut).txBufferSize = sizes (fillOne first q size next isCut).txBuffer % 4294967296 := by
  cases isCut with
  | true => exact cutToFit_size hsize first next
  | false => exact hsize

theorem fillOne_segments (first : TxPdu) (q : List TxPdu) (size next : Nat) (isCut : Bool) :
    (fillOne first q size next isCut).segments.length = 1 := by
  cases isCut <;> rfl

theorem Sends.doNotifyTxOpportunityFlag (h : Sends s order out cs) (bytes flag : Nat) :
    ∃ s' o remain new, s.doNotifyTxOpportunityFlag bytes flag = some (s', o, remain) ∧
      Sends s' order (out ++ o) (cs ++ new) := by
  have h0 : Sends { s with toogleFlagRlc := false, noDataFlagRlc := false } order out cs :=
    h.restock rfl h.queue h.order h.size
  unfold LteRlcUmTx.doNotifyTxOpportunityFlag
  by_cases hbytes : bytes ≤ 4
  · exact ⟨_, [], _, [], if_pos hbytes, by simpa using h0⟩
  · simp only [if_neg hbytes]
    cases hq : s.txBuffer with
    | nil =>
      have h1 : Sends { s with toogleFlagRlc := true, noDataFlagRlc := true } order out cs :=
        h.restock rfl h.queue h.order h.size
      exact ⟨_, [], _, [], rfl, by simpa [hq] using h1⟩
    | cons first q =>
      have hqueue : Queue (absorbAll cs).2 (first :: q) := hq ▸ h.queue
      have hsize : sub32 s.txBufferSize first.size = sizes q % 4294967296 := by
        rw [h.size, hq, sizes_cons, Nat.add_comm, sub32_add]
      have hpos : first.size ≠ 0 := by simpa [TxPdu.size] using hqueue.2.1
      obtain ⟨c, hc⟩ := fillOne_filled hqueue (sub32 s.txBufferSize first.size) (bytes - 2)
        (decide (first.size > bytes - 2 ∨ first.size > 2047))
      have hone := fillOne_segments first q (sub32 s.txBufferSize first.size) (bytes - 2)
        (decide (first.size > bytes - 2 ∨ first.size > 2047))
      obtain ⟨s', b, hs', hsends⟩ := h0.transmitPdu (by simpa only [hq] using hc) (by omega)
        (fillOne_size hsize first (bytes - 2) _)
      unfold fillOne at hs'
      simp only [if_neg hpos]
      simp only [hq] at hs'
      rw [hs']
      exact ⟨_, [b], _, [c], rfl, hsends.restock rfl hsends.queue hsends.order hsends.size⟩

end LteRlcUmTx

end Ns3
