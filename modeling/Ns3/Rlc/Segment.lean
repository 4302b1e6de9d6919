import Mathlib.Data.List.Forall2
import Ns3.Lib.Word32
import Ns3.Rlc.RlcHeader

/-!
# Segmentation

How an RLC entity fills the data field of a PDU from its transmission buffer,
the same code in both modes. The status tag of a packet says which part of an
SDU it is.

`Content` is what such a data field holds, and `absorb` what it adds to the
SDUs sent before it. The SDUs of a buffer, after those sent, are the SDUs
submitted: segmentation loses and reorders no byte.
-/

namespace Ns3

open LteRlcHeader List

inductive SduStatus where
  | fullSdu
  | firstSegment
  | middleSegment
  | lastSegment
  deriving DecidableEq

structure TxPdu where
  pdu : Bytes
  status : SduStatus
  deriving DecidableEq

namespace TxPdu

def size (t : TxPdu) : Nat := t.pdu.length

/-- Tags of the segment taken and of what remains, when a packet with tag
`status` is cut. -/
def cutStatus : SduStatus → SduStatus × SduStatus
  | .fullSdu => (.firstSegment, .lastSegment)
  | .lastSegment => (.middleSegment, .lastSegment)
  | status => (status, status)

/-- The tag of a segment that turned out to be the whole packet. -/
def wholeStatus : SduStatus → SduStatus
  | .firstSegment => .fullSdu
  | .middleSegment => .lastSegment
  | status => status

/-- The segment with the first `currSegmentSize` bytes, and what is given back. -/
def cut (first : TxPdu) (currSegmentSize : Nat) : TxPdu × Option TxPdu :=
  let (newStatus, oldStatus) := cutStatus first.status
  if currSegmentSize < first.size then
    (⟨first.pdu.take currSegmentSize, newStatus⟩, some ⟨first.pdu.drop currSegmentSize, oldStatus⟩)
  else (⟨first.pdu, wholeStatus newStatus⟩, none)

theorem cut_of_lt {b : Bytes} {n : Nat} (h : n < b.length) (status : SduStatus) :
    cut ⟨b, status⟩ n = (⟨b.take n, (cutStatus status).1⟩, some ⟨b.drop n, (cutStatus status).2⟩) := if_pos h

theorem cut_of_le {b : Bytes} {n : Nat} (h : b.length ≤ n) (status : SduStatus) :
    cut ⟨b, status⟩ n = (⟨b, wholeStatus (cutStatus status).1⟩, none) := if_neg (Nat.not_lt.mpr h)

theorem cut_size (t : TxPdu) (n : Nat) : (t.cut (min t.size n)).1.size ≤ n := by
  unfold cut
  dsimp only
  split
  · simp only [size, length_take]
    omega
  · simp only [size] at *
    omega

end TxPdu

/-- The data field, with the bits and indicators pushed to the header, and
what is left of the buffer and of the opportunity. -/
structure DataField where
  segments : List TxPdu
  extensionBits : List Nat
  lengthIndicators : List Nat
  txBuffer : List TxPdu
  txBufferSize : Nat
  nextSegmentSize : Nat

/-- The end of a data field: a segment too long for the opportunity or for a
length indicator. -/
def cutToFit (firstSegment : TxPdu) (txBuffer : List TxPdu) (txBufferSize nextSegmentSize : Nat) : DataField :=
  let (newSegment, rest) := firstSegment.cut (min firstSegment.size nextSegmentSize)
  { segments := [newSegment]
    extensionBits := [DATA_FIELD_FOLLOWS]
    lengthIndicators := []
    txBuffer := rest.toList ++ txBuffer
    txBufferSize := add32 txBufferSize ((rest.map TxPdu.size).getD 0)
    nextSegmentSize := nextSegmentSize - newSegment.size }

/-- The end of a data field: a packet taken whole, without length indicator. -/
def takeLast (firstSegment : TxPdu) (txBuffer : List TxPdu) (txBufferSize nextSegmentSize : Nat) : DataField :=
  { segments := [firstSegment]
    extensionBits := [DATA_FIELD_FOLLOWS]
    lengthIndicators := []
    txBuffer := txBuffer
    txBufferSize := txBufferSize
    nextSegmentSize := nextSegmentSize - firstSegment.size }

/-- The loop over the transmission buffer, from a first packet already
removed from it. An empty packet ends it and is lost. -/
def fillDataField (firstSegment : TxPdu) (txBuffer : List TxPdu) (txBufferSize nextSegmentSize nextSegmentId : Nat) :
    DataField :=
  if firstSegment.size = 0 ∨ nextSegmentSize = 0 then ⟨[], [], [], txBuffer, txBufferSize, nextSegmentSize⟩
  else if firstSegment.size > nextSegmentSize ∨ firstSegment.size > 2047 then
    cutToFit firstSegment txBuffer txBufferSize nextSegmentSize
  else
    match txBuffer with
    | [] => takeLast firstSegment [] txBufferSize nextSegmentSize
    | secondSegment :: txBuffer =>
      if nextSegmentSize - firstSegment.size ≤ 2 then
        takeLast firstSegment (secondSegment :: txBuffer) txBufferSize nextSegmentSize
      else
        let headerSize := if nextSegmentId % 2 = 1 then 2 else 1
        let d := fillDataField secondSegment txBuffer (sub32 txBufferSize secondSegment.size)
          (nextSegmentSize - (headerSize + firstSegment.size)) (nextSegmentId + 1)
        { d with
          segments := firstSegment :: d.segments
          extensionBits := E_LI_FIELDS_FOLLOWS :: d.extensionBits
          lengthIndicators := firstSegment.size :: d.lengthIndicators }

def firstByteOf (status : SduStatus) : Nat :=
  if status = .fullSdu ∨ status = .firstSegment then FIRST_BYTE else NO_FIRST_BYTE

def lastByteOf (status : SduStatus) : Nat :=
  if status = .fullSdu ∨ status = .lastSegment then LAST_BYTE else NO_LAST_BYTE

/-- The framing info of a data field, from the tags of its first and last
segments; there is none without a segment. -/
def framingInfoOf (segments : List TxPdu) : Option Nat :=
  match segments.head?, segments.getLast? with
  | some first, some last => some (firstByteOf first.status ||| lastByteOf last.status)
  | _, _ => none

/-! ## What a data field holds -/

/-- Either a middle segment alone, or the end of an SDU begun before, then
whole SDUs, then the beginning of one. -/
inductive Content where
  | middle (segment : Bytes)
  | sdus (last : Option Bytes) (full : List Bytes) (first : Option Bytes)

namespace Content

def segments : Content → List TxPdu
  | middle segment => [⟨segment, .middleSegment⟩]
  | sdus last full first =>
    last.toList.map (⟨·, .lastSegment⟩) ++ full.map (⟨·, .fullSdu⟩) ++ first.toList.map (⟨·, .firstSegment⟩)

def packets : Content → List Bytes
  | middle segment => [segment]
  | sdus last full first => last.toList ++ full ++ first.toList

/-- It begins with a segment that is not the first of its SDU. -/
def continues : Content → Bool
  | middle _ => true
  | sdus last _ _ => last.isSome

/-- It ends with a segment that is not the last of its SDU. -/
def stops : Content → Bool
  | middle _ => true
  | sdus _ _ first => first.isSome

def framingInfo (c : Content) : Nat := (if c.continues then 2 else 0) + if c.stops then 1 else 0

/-- The SDUs completed, and the beginning kept, after `kept` bytes of an SDU
were sent before. -/
def absorb (kept : Option Bytes) : Content → List Bytes × Option Bytes
  | middle segment => ([], kept.map (· ++ segment))
  | sdus last full first => ((last.map (kept.getD [] ++ ·)).toList ++ full, first)

theorem segments_pdu (c : Content) : c.segments.map TxPdu.pdu = c.packets := by
  have hmap : ∀ (status : SduStatus) (l : List Bytes), (l.map (TxPdu.mk · status)).map TxPdu.pdu = l := by
    intro status l
    simp [Function.comp_def]
  cases c with
  | middle segment => rfl
  | sdus last full first => simp only [segments, packets, map_append, hmap]

variable {c : Content}

theorem head_segments (h : c.packets ≠ []) :
    ∃ t, c.segments.head? = some t ∧ firstByteOf t.status = if c.continues then 2 else 0 := by
  cases c with
  | middle segment => exact ⟨_, rfl, rfl⟩
  | sdus last full first =>
    cases last with
    | some y => exact ⟨⟨y, .lastSegment⟩, rfl, rfl⟩
    | none =>
      cases full with
      | cons b full => exact ⟨⟨b, .fullSdu⟩, rfl, rfl⟩
      | nil =>
        cases first with
        | some x => exact ⟨⟨x, .firstSegment⟩, rfl, rfl⟩
        | none => exact absurd rfl h

theorem last_segments (h : c.packets ≠ []) :
    ∃ t, c.segments.getLast? = some t ∧ lastByteOf t.status = if c.stops then 1 else 0 := by
  cases c with
  | middle segment => exact ⟨_, rfl, rfl⟩
  | sdus last full first =>
    cases first with
    | some x => exact ⟨⟨x, .firstSegment⟩, by simp [segments], rfl⟩
    | none =>
      rcases eq_nil_or_concat full with rfl | ⟨full, b, rfl⟩
      · cases last with
        | some y => exact ⟨⟨y, .lastSegment⟩, rfl, rfl⟩
        | none => exact absurd rfl h
      · exact ⟨⟨b, .fullSdu⟩, by simp [segments], rfl⟩

theorem framingInfoOf_segments (h : c.packets ≠ []) : framingInfoOf c.segments = some c.framingInfo := by
  obtain ⟨first, hfirst, hf⟩ := head_segments h
  obtain ⟨last, hlast, hl⟩ := last_segments h
  rw [framingInfoOf, hfirst, hlast]
  simp only [hf, hl, framingInfo]
  cases c.continues <;> cases c.stops <;> rfl

end Content

/-! ## The transmission buffer -/

/-- Only the first packet can be the rest of an SDU, and it is exactly when
`kept` bytes of that SDU were sent; no packet is empty. -/
def Queue (kept : Option Bytes) : List TxPdu → Prop
  | [] => kept = none
  | t :: q => t.status = (if kept.isSome then .lastSegment else .fullSdu) ∧ t.pdu ≠ [] ∧
      ∀ x ∈ q, x.status = .fullSdu ∧ x.pdu ≠ []

/-- The SDUs not yet completely sent. -/
def waiting (kept : Option Bytes) : List TxPdu → List Bytes
  | [] => []
  | t :: q => (kept.getD [] ++ t.pdu) :: q.map TxPdu.pdu

def sizes (q : List TxPdu) : Nat := (q.map TxPdu.size).sum

variable {q q' : List TxPdu} {kept : Option Bytes} {d : DataField} {c : Content}

theorem Queue.of_full (h : ∀ x ∈ q, x.status = .fullSdu ∧ x.pdu ≠ []) : Queue none q := by
  cases q with
  | nil => rfl
  | cons t q => exact ⟨(h t (by simp)).1, (h t (by simp)).2, fun x hx => h x (by simp [hx])⟩

theorem Queue.snoc {p : Bytes} (h : Queue kept q) (hp : p ≠ []) :
    Queue kept (q ++ [⟨p, .fullSdu⟩]) := by
  cases q with
  | nil =>
    obtain rfl : kept = none := h
    exact ⟨rfl, hp, by simp⟩
  | cons t q =>
    refine ⟨h.1, h.2.1, fun x hx => ?_⟩
    rcases mem_append.mp hx with hx | hx
    · exact h.2.2 x hx
    · obtain rfl := mem_singleton.mp hx
      exact ⟨rfl, hp⟩

@[simp] theorem waiting_cons (kept : Option Bytes) (t : TxPdu) (q : List TxPdu) :
    waiting kept (t :: q) = (kept.getD [] ++ t.pdu) :: q.map TxPdu.pdu := rfl

@[simp] theorem sizes_cons (t : TxPdu) (q : List TxPdu) : sizes (t :: q) = t.size + sizes q := by
  simp [sizes]

theorem sizes_snoc (q : List TxPdu) (t : TxPdu) : sizes (q ++ [t]) = sizes q + t.size := by
  simp [sizes]

@[simp] theorem waiting_none (q : List TxPdu) : waiting none q = q.map TxPdu.pdu := by
  cases q <;> simp [waiting]

theorem waiting_length (kept : Option Bytes) (q : List TxPdu) : (waiting kept q).length = q.length := by
  cases q <;> simp [waiting]

/-- What a data field is, taken from the buffer `q` after `kept`: its content
continues what was sent, and the SDUs waiting are those it completes and those
still waiting. -/
structure Filled (kept : Option Bytes) (q : List TxPdu) (d : DataField) (c : Content) : Prop where
  segments : d.segments = c.segments
  nonempty : c.packets ≠ []
  fits : c.continues = kept.isSome
  bits : d.extensionBits = extensionBitsFor d.lengthIndicators.length
  indicators : d.lengthIndicators = c.packets.dropLast.map List.length
  short : ∀ li ∈ d.lengthIndicators, li < 2048
  queue : Queue (c.absorb kept).2 d.txBuffer
  order : waiting kept q = (c.absorb kept).1 ++ waiting (c.absorb kept).2 d.txBuffer

section
variable {kept : Option Bytes} {first : TxPdu} {q : List TxPdu}

theorem takeLast_filled (hq : Queue kept (first :: q)) (size next : Nat) :
    ∃ c, Filled kept (first :: q) (takeLast first q size next) c := by
  obtain ⟨b, status⟩ := first
  obtain ⟨hstatus, -, hrest⟩ := hq
  have hnone := Queue.of_full hrest
  cases kept with
  | none =>
    refine ⟨.sdus none [b] none, ?_⟩
    constructor <;> simp_all [takeLast, Content.segments, Content.packets, Content.continues, Content.absorb,
      extensionBitsFor]
  | some p =>
    refine ⟨.sdus (some b) [] none, ?_⟩
    constructor <;> simp_all [takeLast, Content.segments, Content.packets, Content.continues, Content.absorb,
      extensionBitsFor]

theorem cutToFit_filled (hq : Queue kept (first :: q)) (size next : Nat) :
    ∃ c, Filled kept (first :: q) (cutToFit first q size next) c := by
  rcases Nat.lt_or_ge (min first.size next) first.size with hlt | hge
  · obtain ⟨b, status⟩ := first
    have hcut := TxPdu.cut_of_lt (b := b) hlt status
    cases kept with
    | none =>
      refine ⟨.sdus none [] (some (b.take (min b.length next))), ?_⟩
      constructor <;> simp_all [cutToFit, TxPdu.cutStatus, TxPdu.size, Content.segments, Content.packets,
        Content.continues, Content.absorb, extensionBitsFor, Queue]
    | some p =>
      refine ⟨.middle (b.take (min b.length next)), ?_⟩
      constructor <;> simp_all [cutToFit, TxPdu.cutStatus, TxPdu.size, Content.segments, Content.packets,
        Content.continues, Content.absorb, extensionBitsFor, Queue]
  · -- the whole packet is taken, under the tag it had
    have hsame : cutToFit first q size next = takeLast first q (add32 size 0) next := by
      obtain ⟨b, status⟩ := first
      obtain ⟨hstatus, -, -⟩ := hq
      have hwhole : TxPdu.wholeStatus (TxPdu.cutStatus status).1 = status := by
        cases kept <;> simp_all [TxPdu.cutStatus, TxPdu.wholeStatus]
      simp [cutToFit, takeLast, TxPdu.cut_of_le (b := b) hge status, hwhole]
    rw [hsame]
    exact takeLast_filled hq _ next

theorem Filled.cons (hq : Queue kept (first :: q)) {d : DataField} {c : Content} (hd : Filled none q d c)
    (hshort : first.size < 2048) :
    ∃ c', Filled kept (first :: q)
      { d with
        segments := first :: d.segments
        extensionBits := E_LI_FIELDS_FOLLOWS :: d.extensionBits
        lengthIndicators := first.size :: d.lengthIndicators } c' := by
  obtain ⟨b, status⟩ := first
  obtain ⟨hstatus, -, -⟩ := hq
  obtain ⟨hseg, hne, hfits, hbits, hli, hlt, hqueue, horder⟩ := hd
  cases c with
  | middle segment => cases hfits
  | sdus last full rest =>
    cases last with
    | some y => cases hfits
    | none =>
      cases kept with
      | none =>
        refine ⟨.sdus none (b :: full) rest, ?_⟩
        constructor <;> simp_all [Content.segments, Content.packets, Content.continues, Content.absorb,
          extensionBitsFor_succ, TxPdu.size, dropLast_cons_of_ne_nil]
      | some p =>
        refine ⟨.sdus (some b) full rest, ?_⟩
        constructor <;> simp_all [Content.segments, Content.packets, Content.continues, Content.absorb,
          extensionBitsFor_succ, TxPdu.size, dropLast_cons_of_ne_nil]

end

/-- **The data field.** From a buffer in order and an opportunity of at least
one byte, the loop takes what `Filled` says. -/
theorem fillDataField_filled : ∀ (q : List TxPdu) (kept : Option Bytes) (first : TxPdu) (size next id : Nat),
    Queue kept (first :: q) → next ≠ 0 → ∃ c, Filled kept (first :: q) (fillDataField first q size next id) c
  | [], kept, first, size, next, id, hq, hnext => by
    have hpos : ¬(first.size = 0 ∨ next = 0) := by simp [TxPdu.size, hq.2.1, hnext]
    unfold fillDataField
    rw [if_neg hpos]
    split
    · exact cutToFit_filled hq size next
    · exact takeLast_filled hq size next
  | second :: q, kept, first, size, next, id, hq, hnext => by
    have hpos : ¬(first.size = 0 ∨ next = 0) := by simp [TxPdu.size, hq.2.1, hnext]
    have hrest : Queue none (second :: q) := .of_full hq.2.2
    unfold fillDataField
    rw [if_neg hpos]
    split
    · exact cutToFit_filled hq size next
    · dsimp only
      by_cases hlast : next - first.size ≤ 2
      · rw [if_pos hlast]
        exact takeLast_filled hq size next
      · rw [if_neg hlast]
        have hleft : next - ((if id % 2 = 1 then 2 else 1) + first.size) ≠ 0 := by split <;> omega
        obtain ⟨c, hc⟩ := fillDataField_filled q none second (sub32 size second.size) _ (id + 1) hrest hleft
        exact Filled.cons hq hc (by omega)

/-- A buffer in which no SDU is begun, and which is emptied, is sent as it is. -/
theorem Filled.whole (hd : Filled none q d c) (hempty : d.txBuffer = []) :
    c = .sdus none (q.map TxPdu.pdu) none := by
  have hqueue := hd.queue
  have horder := hd.order
  have hfits := hd.fits
  rw [hempty] at hqueue horder
  cases c with
  | middle segment => cases hfits
  | sdus last full first =>
    obtain rfl : first = none := hqueue
    cases last with
    | some y => cases hfits
    | none => simpa [Content.absorb] using horder.symm

theorem Filled.segments_ne_nil (hd : Filled kept q d c) : d.segments ≠ [] := by
  intro hnil
  have hpackets := c.segments_pdu
  rw [← hd.segments, hnil] at hpackets
  exact hd.nonempty hpackets.symm

theorem Filled.bits_length (hd : Filled kept q d c) : d.extensionBits.length = d.segments.length := by
  have hpackets := congrArg List.length c.segments_pdu
  have hsome := length_pos_of_ne_nil hd.nonempty
  rw [length_map] at hpackets
  rw [hd.bits, extensionBitsFor_length, hd.indicators, hd.segments, hpackets, length_map,
    length_dropLast]
  omega

/-! ## The size of the buffer -/

theorem cutToFit_size {size : Nat} (hsize : size = sizes q % 4294967296) (first : TxPdu) (next : Nat) :
    (cutToFit first q size next).txBufferSize = sizes (cutToFit first q size next).txBuffer % 4294967296 := by
  subst hsize
  unfold cutToFit
  dsimp only
  rw [add32_mod_left]
  cases (first.cut (min first.size next)).2 with
  | none => simp
  | some rest => simp [sizes_cons, Nat.add_comm]

/-- **The size of the buffer** is that of what is left, modulo `2 ^ 32`, when it
was that of what follows the first packet. -/
theorem fillDataField_size : ∀ {q : List TxPdu} {size : Nat}, size = sizes q % 4294967296 →
    ∀ (first : TxPdu) (next id : Nat),
      (fillDataField first q size next id).txBufferSize = sizes (fillDataField first q size next id).txBuffer % 4294967296
  | [], size, hsize, first, next, id => by
    unfold fillDataField
    split
    · exact hsize
    · split
      · exact cutToFit_size hsize first next
      · exact hsize
  | second :: q, size, hsize, first, next, id => by
    unfold fillDataField
    split
    · exact hsize
    · split
      · exact cutToFit_size hsize first next
      · dsimp only
        split
        · exact hsize
        · refine fillDataField_size ?_ second _ _
          rw [hsize, sizes_cons, Nat.add_comm, sub32_add]

/-! ## What leaves the buffer -/

/-- The packets `q'` are those of `q` behind the first ones, the first of them
perhaps without its beginning. -/
def Leaves (q q' : List TxPdu) : Prop := ∃ n, List.Forall₂ (fun t' t => t'.pdu <:+ t.pdu) q' (q.drop n)

theorem Leaves.refl (q : List TxPdu) : Leaves q q := ⟨0, forall₂_same.mpr fun t _ => suffix_refl t.pdu⟩

theorem Leaves.cons {first : TxPdu} (h : Leaves q q') : Leaves (first :: q) q' :=
  h.imp' (· + 1) fun _ => id

theorem cutToFit_leaves (first : TxPdu) (q : List TxPdu) (size next : Nat) :
    Leaves (first :: q) (cutToFit first q size next).txBuffer := by
  unfold cutToFit TxPdu.cut
  dsimp only
  split
  · exact ⟨0, .cons (drop_suffix _ _) (forall₂_same.mpr fun t _ => suffix_refl t.pdu)⟩
  · exact (Leaves.refl q).cons

theorem fillDataField_leaves : ∀ (q : List TxPdu) (first : TxPdu) (size next id : Nat),
    Leaves (first :: q) (fillDataField first q size next id).txBuffer
  | [], first, size, next, id => by
    unfold fillDataField
    split
    · exact (Leaves.refl []).cons
    · split
      · exact cutToFit_leaves first [] size next
      · exact (Leaves.refl []).cons
  | second :: q, first, size, next, id => by
    unfold fillDataField
    split
    · exact (Leaves.refl _).cons
    · split
      · exact cutToFit_leaves first _ size next
      · dsimp only
        split
        · exact (Leaves.refl _).cons
        · exact (fillDataField_leaves q second _ _ _).cons

theorem sizes_le_of_suffix (h : List.Forall₂ (fun t' t => t'.pdu <:+ t.pdu) q' q) :
    sizes q' ≤ sizes q := by
  induction h with
  | nil => exact Nat.le_refl _
  | cons hsuffix _ ih =>
    have := hsuffix.length_le
    simp only [sizes_cons, TxPdu.size]
    omega

theorem Leaves.sizes_le (h : Leaves q q') : sizes q' ≤ sizes q := by
  obtain ⟨n, h⟩ := h
  have hsplit : sizes (q.take n ++ q.drop n) = sizes (q.take n) + sizes (q.drop n) := by
    rw [sizes, map_append, sum_append, sizes, sizes]
  rw [take_append_drop] at hsplit
  have := sizes_le_of_suffix h
  omega

/-! ## The length of the data field -/

/-- The bytes of the header for `n` length indicators, the next of them with
number `id`. -/
def indicatorBytes : Nat → Nat → Nat
  | _, 0 => 0
  | id, n + 1 => (if id % 2 = 1 then 2 else 1) + indicatorBytes (id + 1) n

theorem indicatorBytes_eq : ∀ id n, indicatorBytes id n = n + (n + id % 2) / 2
  | _, 0 => by
    unfold indicatorBytes
    omega
  | id, n + 1 => by
    rw [indicatorBytes, indicatorBytes_eq (id + 1) n]
    split <;> omega

theorem fillDataField_fits : ∀ (q : List TxPdu) (first : TxPdu) (size next id : Nat),
    sizes (fillDataField first q size next id).segments +
      indicatorBytes id (fillDataField first q size next id).lengthIndicators.length ≤ next
  | q, first, size, next, id => by
    unfold fillDataField
    split
    · exact Nat.zero_le _
    · split
      · have := first.cut_size next
        simpa [cutToFit, sizes, indicatorBytes] using this
      · have htake : ∀ q, sizes (takeLast first q size next).segments +
            indicatorBytes id (takeLast first q size next).lengthIndicators.length ≤ next := by
          intro q
          simp [takeLast, sizes, indicatorBytes]
          omega
        cases q with
        | nil => exact htake []
        | cons second q =>
          dsimp only
          by_cases hlast : next - first.size ≤ 2
          · rw [if_pos hlast]
            exact htake _
          · rw [if_neg hlast]
            have ih := fillDataField_fits q second (sub32 size second.size)
              (next - ((if id % 2 = 1 then 2 else 1) + first.size)) (id + 1)
            simp only [sizes_cons, length_cons, indicatorBytes]
            split at ih <;> simp_all <;> omega

theorem fillDataField_bits : ∀ (q : List TxPdu) (first : TxPdu) (size next id : Nat),
    (fillDataField first q size next id).extensionBits.length ≤
      (fillDataField first q size next id).lengthIndicators.length + 1
  | [], first, size, next, id => by
    unfold fillDataField
    split
    · exact Nat.zero_le _
    · split <;> exact Nat.le_refl 1
  | second :: q, first, size, next, id => by
    unfold fillDataField
    split
    · exact Nat.zero_le _
    · split
      · exact Nat.le_refl 1
      · dsimp only
        split
        · exact Nat.le_refl 1
        · exact Nat.succ_le_succ (fillDataField_bits q second _ _ _)

/-- **An opportunity large enough** empties the buffer. -/
theorem fillDataField_empties : ∀ (q : List TxPdu) (first : TxPdu) (size next id : Nat),
    (∀ t ∈ first :: q, 0 < t.size ∧ t.size < 2048) → sizes (first :: q) + indicatorBytes id q.length < next →
      (fillDataField first q size next id).txBuffer = []
  | q, first, size, next, id, hall, hnext => by
    obtain ⟨hpos, hshort⟩ := hall first (by simp)
    rw [sizes_cons] at hnext
    unfold fillDataField
    rw [if_neg (by omega), if_neg (by omega)]
    cases q with
    | nil => rfl
    | cons second q =>
      have hsecond := (hall second (by simp)).1
      rw [sizes_cons, length_cons, indicatorBytes] at hnext
      dsimp only
      rw [if_neg (by split at hnext <;> omega)]
      refine fillDataField_empties q second _ _ _ (fun t ht => hall t (mem_cons_of_mem _ ht)) ?_
      rw [sizes_cons]
      omega

end Ns3
