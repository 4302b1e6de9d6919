import Ns3.Network.PacketWire

/-!
# `Packet::RemoveHeader`

A header is taken off the bytes, the byte tags and the metadata of a packet, in
this order. Only the metadata can tell that it was not the header in front, so
when it does, the bytes and the byte tags have changed already.
-/

namespace Ns3

open List

/-- A type of headers: its number, and how many of the given bytes `Deserialize` reads. -/
structure HeaderType where
  tid : TypeId
  deserialize : Bytes → Option Nat
  reads : ∀ {i n}, deserialize i = some n → n ≤ i.length

/-- `PacketMetadata::m_enable` and `m_enableChecking`. -/
structure MetadataSwitches where
  enable : Bool := false
  enableChecking : Bool := false

namespace BufferContent

def removeAtStart (b : BufferContent) (start : Nat) : BufferContent :=
  if start ≤ b.dataStart.length then { b with dataStart := b.dataStart.drop start }
  else if start ≤ b.dataStart.length + b.zeroSize then
    { b with dataStart := [], zeroSize := b.zeroSize - (start - b.dataStart.length) }
  else ⟨[], 0, b.dataEnd.drop (start - b.dataStart.length - b.zeroSize)⟩

theorem bytes_removeAtStart (b : BufferContent) (start : Nat) : (b.removeAtStart start).bytes = b.bytes.drop start := by
  unfold removeAtStart bytes
  by_cases hstart : start ≤ b.dataStart.length
  · rw [if_pos hstart, drop_append_of_le_length (by simp; omega), drop_append_of_le_length hstart]
  · rw [if_neg hstart]
    by_cases hzero : start ≤ b.dataStart.length + b.zeroSize
    · rw [if_pos hzero, drop_append_of_le_length (by simpa using hzero), drop_append, drop_of_length_le (by omega),
        drop_replicate]
    · have hlength : (b.dataStart ++ replicate b.zeroSize 0).length = b.dataStart.length + b.zeroSize := by simp
      have hnone : (b.dataStart ++ replicate b.zeroSize 0).drop start = [] := drop_of_length_le (by omega)
      have hdrop := @List.drop_append _ (b.dataStart ++ replicate b.zeroSize 0) b.dataEnd start
      rw [hnone, hlength, ← Nat.sub_sub, nil_append] at hdrop
      rw [if_neg hzero, hdrop]
      rfl

end BufferContent

namespace MetadataItem

/-- The number of bytes of the packet that an item stands for. -/
def realSize (item : MetadataItem) : Nat := sub32 item.fragmentEnd item.fragmentStart

def Unexpected (item : MetadataItem) (tid : TypeId) (size : Nat) : Prop := item.uid ≠ tid ∨ item.size ≠ size

def Incomplete (item : MetadataItem) (size : Nat) : Prop :=
  item.isBig = 1 ∧ (item.fragmentStart ≠ 0 ∨ item.fragmentEnd ≠ size)

instance (item : MetadataItem) (tid : TypeId) (size : Nat) : Decidable (item.Unexpected tid size) :=
  inferInstanceAs (Decidable (_ ∨ _))

instance (item : MetadataItem) (size : Nat) : Decidable (item.Incomplete size) := inferInstanceAs (Decidable (_ ∧ _))

end MetadataItem

namespace PacketMetadata

/-- Whether the header is removed. There is nothing to read where there is no item. -/
def removeHeader (sw : MetadataSwitches) (m : PacketMetadata) (tid : TypeId) (size : Nat) : Option (Bool × PacketMetadata) :=
  if !sw.enable then some (true, m)
  else
    match m.items with
    | [] => none
    | item :: rest =>
      if item.Unexpected tid size then
        if sw.enableChecking then some (false, m) else some (true, { m with items := rest })
      else if item.Incomplete size then
        if sw.enableChecking then some (false, m) else some (true, { m with items := rest })
      else some (true, { m with items := rest })

def getTotalSize (m : PacketMetadata) : Nat := m.items.foldl (fun totalSize item => add32 totalSize item.realSize) 0

end PacketMetadata

namespace WirePacket

def removeHeader (sw : MetadataSwitches) (header : HeaderType) (packet : WirePacket) : Option (Nat × WirePacket) :=
  (header.deserialize packet.buffer.bytes).bind fun deserialized =>
    if deserialized = 0 then some (0, packet)
    else
      let packet := { packet with
        buffer := packet.buffer.removeAtStart deserialized
        byteTagList := packet.byteTagList.adjust (-deserialized) }
      (packet.metadata.removeHeader sw header.tid deserialized).map fun (removed, metadata) =>
        (if removed then deserialized else 0, { packet with metadata := metadata })

/-- Nothing is gone, or just the first `n` bytes and the item that stands for them. -/
def AllOrNothing (sw : MetadataSwitches) (packet : WirePacket) (n : Nat) (packet' : WirePacket) : Prop :=
  if n = 0 then
    packet'.buffer.bytes = packet.buffer.bytes ∧ packet'.byteTagList = packet.byteTagList ∧ packet'.metadata = packet.metadata
  else
    packet'.buffer.bytes = packet.buffer.bytes.drop n ∧ packet'.byteTagList = packet.byteTagList.adjust (-n) ∧
      if sw.enable then
        packet'.metadata.packetUid = packet.metadata.packetUid ∧
          ∃ item, packet.metadata.items = item :: packet'.metadata.items ∧ item.realSize = n
      else packet'.metadata = packet.metadata

/-- The first item stands for the first `n` bytes, and is the header when this is checked. -/
def Fits (sw : MetadataSwitches) (tid : TypeId) (n : Nat) (packet : WirePacket) : Prop :=
  ∀ item ∈ packet.metadata.items.head?, item.realSize = n ∧
    (sw.enableChecking = true → ¬ item.Unexpected tid n ∧ ¬ item.Incomplete n)

def Described (packet : WirePacket) : Prop := packet.metadata.getTotalSize = packet.buffer.bytes.length % 4294967296

section
variable {sw : MetadataSwitches} {header : HeaderType} {packet packet' : WirePacket} {n deserialized : Nat}

theorem removeHeader_some (hread : header.deserialize packet.buffer.bytes = some deserialized)
    (h : packet.removeHeader sw header = some (n, packet')) : (deserialized = 0 ∧ n = 0 ∧ packet' = packet) ∨
    (deserialized ≠ 0 ∧ packet'.buffer.bytes = packet.buffer.bytes.drop deserialized ∧
      packet'.byteTagList = packet.byteTagList.adjust (-deserialized) ∧
      ∃ removed, packet.metadata.removeHeader sw header.tid deserialized = some (removed, packet'.metadata) ∧
        n = if removed then deserialized else 0) := by
  rw [removeHeader, hread, Option.bind_some] at h
  by_cases hzero : deserialized = 0
  · rw [if_pos hzero] at h
    cases h
    exact .inl ⟨hzero, rfl, rfl⟩
  · rw [if_neg hzero] at h
    obtain ⟨⟨removed, metadata⟩, hmetadata, heq⟩ := Option.map_eq_some_iff.mp h
    cases heq
    exact .inr ⟨hzero, BufferContent.bytes_removeAtStart .., rfl, removed, hmetadata, rfl⟩

theorem metadata_removeHeader_some {m m' : PacketMetadata} {removed : Bool} (henable : sw.enable = true) {tid : TypeId} {size : Nat}
    (h : m.removeHeader sw tid size = some (removed, m')) : ∃ item rest, m.items = item :: rest ∧
      ((sw.enableChecking = true ∧ (item.Unexpected tid size ∨ item.Incomplete size) ∧ removed = false ∧ m' = m) ∨
      ((sw.enableChecking = true → ¬ item.Unexpected tid size ∧ ¬ item.Incomplete size) ∧ removed = true ∧
        m' = { m with items := rest })) := by
  rw [PacketMetadata.removeHeader, henable, Bool.not_true, if_neg Bool.false_ne_true] at h
  cases hitems : m.items with
  | nil =>
    rw [hitems] at h
    cases h
  | cons item rest =>
    rw [hitems] at h
    refine ⟨item, rest, rfl, ?_⟩
    simp only at h
    by_cases hunexpected : item.Unexpected tid size
    · rw [if_pos hunexpected] at h
      cases hchecking : sw.enableChecking with
      | true =>
        rw [hchecking, if_pos rfl] at h
        cases h
        exact .inl ⟨rfl, .inl hunexpected, rfl, rfl⟩
      | false =>
        rw [hchecking, if_neg Bool.false_ne_true] at h
        cases h
        exact .inr ⟨(fun hfalse => by cases hfalse), rfl, rfl⟩
    · rw [if_neg hunexpected] at h
      by_cases hincomplete : item.Incomplete size
      · rw [if_pos hincomplete] at h
        cases hchecking : sw.enableChecking with
        | true =>
          rw [hchecking, if_pos rfl] at h
          cases h
          exact .inl ⟨rfl, .inr hincomplete, rfl, rfl⟩
        | false =>
          rw [hchecking, if_neg Bool.false_ne_true] at h
          cases h
          exact .inr ⟨(fun hfalse => by cases hfalse), rfl, rfl⟩
      · rw [if_neg hincomplete] at h
        cases h
        exact .inr ⟨fun _ => ⟨hunexpected, hincomplete⟩, rfl, rfl⟩

theorem drop_ne (hread : header.deserialize packet.buffer.bytes = some deserialized) (hzero : deserialized ≠ 0) :
    packet.buffer.bytes.drop deserialized ≠ packet.buffer.bytes := by
  intro heq
  have hlength := congrArg List.length heq
  have hle := header.reads hread
  rw [length_drop] at hlength
  omega

theorem getTotalSize_eq (m : PacketMetadata) : m.getTotalSize = (m.items.map (·.realSize)).sum % 4294967296 := by
  have hfold (l : List MetadataItem) : ∀ k < 4294967296, l.foldl (fun totalSize item => add32 totalSize item.realSize) k =
      (k + (l.map (·.realSize)).sum) % 4294967296 := by
    induction l with
    | nil =>
      intro k hk
      simp [Nat.mod_eq_of_lt hk]
    | cons item l ih =>
      intro k hk
      rw [foldl_cons, add32, ih _ (Nat.mod_lt _ (by decide)), map_cons, sum_cons]
      omega
  rw [PacketMetadata.getTotalSize, hfold m.items 0 (by decide), Nat.zero_add]

theorem AllOrNothing.described (h : AllOrNothing sw packet n packet') (hle : n ≤ packet.buffer.bytes.length)
    (henable : sw.enable = true) (hdescribed : packet.Described) : packet'.Described := by
  unfold AllOrNothing at h
  unfold Described at hdescribed ⊢
  rw [getTotalSize_eq] at hdescribed ⊢
  by_cases hzero : n = 0
  · rw [if_pos hzero] at h
    rw [h.1, h.2.2]
    exact hdescribed
  · rw [if_neg hzero, if_pos henable] at h
    obtain ⟨hbytes, -, -, item, hitems, hsize⟩ := h
    rw [hitems, map_cons, sum_cons, hsize] at hdescribed
    rw [hbytes, length_drop]
    omega

end

/-- **`RemoveHeader`.** It is all or nothing just when it reads no byte, when there is no metadata,
or when the first item of the metadata stands for the bytes read and passes the check; and then
the metadata still describes all bytes. -/
theorem removeHeader_allOrNothing (sw : MetadataSwitches) (header : HeaderType) (packet packet' : WirePacket) (n deserialized : Nat)
    (hread : header.deserialize packet.buffer.bytes = some deserialized) (h : packet.removeHeader sw header = some (n, packet')) :
    (AllOrNothing sw packet n packet' ↔ deserialized = 0 ∨ sw.enable = false ∨ Fits sw header.tid deserialized packet) ∧
      (AllOrNothing sw packet n packet' → sw.enable = true → packet.Described → packet'.Described) := by
  rcases removeHeader_some hread h with ⟨hzero, rfl, rfl⟩ | ⟨hzero, hbytes, htags, removed, hmetadata, hn⟩
  · refine ⟨⟨fun _ => .inl hzero, fun _ => ⟨rfl, rfl, rfl⟩⟩, fun _ _ hdescribed => hdescribed⟩
  · have hle : n ≤ packet.buffer.bytes.length := by
      have hreads := header.reads hread
      cases removed <;> simp only [hn, if_true, Bool.false_eq_true, if_false] <;> omega
    refine ⟨?_, fun hall henable hdescribed => hall.described hle henable hdescribed⟩
    unfold AllOrNothing
    cases henable : sw.enable with
    | false =>
      rw [PacketMetadata.removeHeader, henable, Bool.not_false, if_pos rfl] at hmetadata
      obtain ⟨hremoved, hkept⟩ := Prod.mk.inj (Option.some.inj hmetadata)
      rw [← hremoved, if_pos rfl] at hn
      rw [hn, if_neg hzero, if_neg Bool.false_ne_true]
      exact ⟨fun _ => .inr (.inl rfl), fun _ => ⟨hbytes, htags, hkept.symm⟩⟩
    | true =>
      obtain ⟨item, rest, hitems, hcase⟩ := metadata_removeHeader_some henable hmetadata
      have hfits : Fits sw header.tid deserialized packet ↔ item.realSize = deserialized ∧
          (sw.enableChecking = true → ¬ item.Unexpected header.tid deserialized ∧ ¬ item.Incomplete deserialized) := by
        simp [Fits, hitems]
      rw [hfits]
      rcases hcase with ⟨hchecking, hfound, rfl, heq⟩ | ⟨hpassed, rfl, heq⟩
      · -- the bytes are gone already when the item is found to be another one
        rw [if_neg Bool.false_ne_true] at hn
        subst hn
        rw [if_pos rfl]
        constructor
        · intro hall
          exact absurd (hbytes.symm.trans hall.1) (drop_ne hread hzero)
        · rintro (hno | hno | ⟨-, hno⟩)
          · exact absurd hno hzero
          · cases hno
          · exact (hfound.elim (hno hchecking).1 (hno hchecking).2).elim
      · rw [if_pos rfl] at hn
        subst hn
        rw [if_neg hzero, if_pos rfl]
        constructor
        · rintro ⟨-, -, -, item', hitems', hsize⟩
          rw [hitems] at hitems'
          obtain ⟨rfl, -⟩ := List.cons.inj hitems'
          exact .inr (.inr ⟨hsize, hpassed⟩)
        · rintro (hno | hno | ⟨hsize, -⟩)
          · exact absurd hno hzero
          · cases hno
          · exact ⟨hbytes, htags, by rw [heq], item, by rw [heq, hitems], hsize⟩

def fourBytes : HeaderType where
  tid := 5
  deserialize i := if 4 ≤ i.length then some 4 else none
  reads := by
    intro i n h
    by_cases hle : 4 ≤ i.length
    · rw [if_pos hle] at h
      cases h
      exact hle
    · rw [if_neg hle] at h
      cases h

def headed (tid : TypeId) : WirePacket where
  buffer := ⟨[1, 2, 3, 4], 2, [7]⟩
  metadata := ⟨3, [⟨2 * tid, 4, 0, 0, 4, 3⟩, ⟨0, 3, 1, 0, 3, 3⟩]⟩

theorem headed_removed : ∃ packet', AllOrNothing ⟨true, true⟩ (headed 5) 4 packet' ∧ packet'.Described := by
  have hread : fourBytes.deserialize (headed 5).buffer.bytes = some 4 := by decide
  have hremove : (headed 5).removeHeader ⟨true, true⟩ fourBytes =
      some (4, { headed 5 with buffer := ⟨[], 2, [7]⟩, byteTagList := { adjustment := -4 }, metadata := ⟨3, [⟨0, 3, 1, 0, 3, 3⟩]⟩ }) := by
    decide
  obtain ⟨hiff, hdescribed⟩ := removeHeader_allOrNothing ⟨true, true⟩ fourBytes (headed 5) _ 4 4 hread hremove
  have hfits : Fits ⟨true, true⟩ fourBytes.tid 4 (headed 5) := by
    intro item hitem
    cases hitem
    decide
  have hall := hiff.mpr (.inr (.inr hfits))
  exact ⟨_, hall, hdescribed hall rfl rfl⟩

/-- The check finds a header of another type, and the packet has lost four bytes. -/
theorem unexpected_removed : ∃ packet', (headed 6).removeHeader ⟨true, true⟩ fourBytes = some (0, packet') ∧
    packet'.buffer.bytes = [0, 0, 7] ∧ packet'.metadata = (headed 6).metadata ∧ ¬ AllOrNothing ⟨true, true⟩ (headed 6) 0 packet' := by
  refine ⟨{ headed 6 with buffer := ⟨[], 2, [7]⟩, byteTagList := { adjustment := -4 } }, by decide, by decide, rfl, ?_⟩
  intro hall
  exact absurd hall.1 (by decide)

end WirePacket

end Ns3
