import Ns3.Network.PacketWire

/-!
# A packet's bytes and the room for them

`GetSerializedSize` is the number of bytes a packet is written to, the words in
front of its parts included. `Serialize` counts the parts alone, so what it
asks for is less than what it writes.
-/

namespace Ns3

/-! ## The sizes of the parts -/

theorem foldl_add32_mod {α : Type} (f : α → Nat) (hf : ∀ a, f a % 4 = 0) (items : List α) :
    ∀ size, size % 4 = 0 → items.foldl (fun size a => add32 size (f a)) size % 4 = 0 := by
  induction items with
  | nil => intro size h; exact h
  | cons a items ih => intro size h; exact ih _ (add32_mod h (hf a))

theorem foldl_add32_lt {α : Type} (f : α → Nat) (items : List α) :
    ∀ size < 4294967296, items.foldl (fun size a => add32 size (f a)) size < 4294967296 := by
  induction items with
  | nil => intro size h; exact h
  | cons a items ih => intro size h; exact ih _ (add32_lt _ _)

def Aligned (n : Nat) : Prop := n % 4 = 0 ∧ n < 4294967296

theorem Aligned.pad {n : Nat} (h : Aligned n) : pad4 n = n := by
  obtain ⟨hmod, hlt⟩ := h
  simp only [pad4, add32]
  omega

theorem NixVector.aligned (nix : NixVector) : Aligned nix.getSerializedSize := by
  simp only [Aligned, NixVector.getSerializedSize]
  omega

theorem ByteTagList.aligned (l : ByteTagList) : Aligned l.getSerializedSize := by
  constructor
  · refine foldl_add32_mod _ (fun item => ?_) _ _ (by decide)
    have h := pad4_mod item.tag.data.length
    omega
  · exact foldl_add32_lt _ _ _ (by decide)

theorem PacketTagList.aligned (tags : List Tag) : Aligned (PacketTagList.getSerializedSize tags) := by
  constructor
  · refine foldl_add32_mod _ (fun tag => ?_) _ _ (by decide)
    have h := pad4_mod tag.data.length
    omega
  · exact foldl_add32_lt _ _ _ (by decide)

theorem BufferContent.aligned (b : BufferContent) : Aligned b.getSerializedSize :=
  ⟨add32_mod (add32_mod (by decide) (pad4_mod _)) (pad4_mod _), add32_lt _ _⟩

theorem PacketMetadata.getSerializedSize_lt (ids : TypeIds) (enable : Bool) (m : PacketMetadata) :
    m.getSerializedSize ids enable < 4294967296 := by
  have hfold : ∀ (items : List MetadataItem), ∀ size < 4294967296, items.foldl (fun totalSize item =>
      add32 (add32 totalSize (if item.uid = 0 then 4 else 4 + (ids.name item.uid).length))
        (1 + 4 + 2 + 4 + 4 + 8)) size < 4294967296 := by
    intro items
    induction items with
    | nil => intro size h; exact h
    | cons item items ih => intro size h; exact ih _ (add32_lt _ _)
  unfold getSerializedSize
  split
  · decide
  · exact hfold _ _ (by decide)

/-! ## The first word of a buffer -/

theorem BufferContent.serialize_first {b : BufferContent} {buffer maxSize : Nat} {ws : Writes}
    (h : b.serialize buffer maxSize = .ok ws) : ∀ w ∈ storeAt buffer (leBytes 4 b.zeroSize), w ∈ ws := by
  unfold serialize at h
  obtain ⟨c₁, h₁, h⟩ := bind_ok.1 h
  obtain ⟨c₂, h₂, h⟩ := bind_ok.1 h
  obtain ⟨c₃, h₃, h⟩ := bind_ok.1 h
  obtain ⟨c₄, h₄, h⟩ := bind_ok.1 h
  obtain ⟨c₅, h₅, h⟩ := bind_ok.1 h
  obtain rfl : c₅.out = ws := Except.ok.inj h
  obtain rfl := Cursor.put_ok h₁
  obtain rfl := Cursor.put_ok h₂
  obtain rfl := Cursor.put_ok h₃
  obtain rfl := Cursor.put_ok h₄
  obtain rfl := Cursor.put_ok h₅
  intro w hw
  simp [hw]

namespace WirePacket

variable {ids : TypeIds} {enable : Bool}

/-! ## Parts -/

theorem putPart_ok {maxSize partSize : Nat} {serialize : Nat → Nat → Except Writes Writes} {c c' : Cursor} :
    putPart maxSize partSize serialize c = .ok c' ↔
      add32 c.size partSize ≤ maxSize ∧ ∃ ws, serialize (c.p + 4) partSize = .ok ws ∧
        c' = ⟨c.p + 4 + pad4 partSize, add32 c.size partSize, c.out ++ storeAt c.p (leBytes 4 (partSize + 4)) ++ ws⟩ := by
  unfold putPart
  by_cases hroom : add32 c.size partSize ≤ maxSize
  · rw [if_pos hroom]
    cases hs : serialize (c.p + 4) partSize with
    | error ws => simp
    | ok ws => simp [hroom, eq_comm]
  · simp [hroom]

/-- What the part for the path vector counts and writes. -/
def nixSize (nixVector : Option NixVector) : Nat :=
  match nixVector with
  | some nix => nix.getSerializedSize
  | none => 4

/-- Where the next part begins. -/
def nixEnd (nixVector : Option NixVector) : Nat :=
  match nixVector with
  | some nix => 4 + pad4 nix.getSerializedSize
  | none => 4

theorem serializeNix_ok {maxSize buffer : Nat} {nixVector : Option NixVector} {c : Cursor}
    (h : serializeNix maxSize nixVector { p := buffer } = .ok c) :
    c.p = buffer + nixEnd nixVector ∧ c.size = nixSize nixVector ∧
      ∀ room, nixSize nixVector ≤ room → serializeNix room nixVector { p := buffer } = .ok c := by
  cases nixVector with
  | some nix =>
    obtain ⟨hroom, ws, hws, rfl⟩ := putPart_ok.1 h
    have hzero : add32 0 nix.getSerializedSize = nix.getSerializedSize := by
      have hlt := nix.aligned.2
      simp only [add32]
      omega
    refine ⟨by simp only [nixEnd]; omega, hzero, fun room hle => ?_⟩
    exact putPart_ok.2 ⟨by rw [hzero]; exact hle, ws, hws, rfl⟩
  | none =>
    obtain rfl := Cursor.put_ok h
    refine ⟨rfl, rfl, fun room hle => ?_⟩
    simp only [serializeNix, Cursor.putWord, Cursor.put]
    exact if_pos hle

/-! ## What a packet counts and where it is written -/

section
variable (ids enable)

def countedMetadata (packet : WirePacket) : Nat :=
  add32 (add32 (add32 (nixSize packet.nixVector) packet.byteTagList.getSerializedSize)
    (PacketTagList.getSerializedSize packet.packetTagList)) (packet.metadata.getSerializedSize ids enable)

def countedBuffer (packet : WirePacket) : Nat :=
  add32 (packet.countedMetadata ids enable) packet.buffer.getSerializedSize

/-- How far the first four parts reach. -/
def bufferOffset (packet : WirePacket) : Nat :=
  nixEnd packet.nixVector + 4 + pad4 packet.byteTagList.getSerializedSize + 4 +
    pad4 (PacketTagList.getSerializedSize packet.packetTagList) + 4 +
    pad4 (packet.metadata.getSerializedSize ids enable)

def Room (packet : WirePacket) (maxSize : Nat) : Prop :=
  nixSize packet.nixVector ≤ maxSize ∧
  add32 (nixSize packet.nixVector) packet.byteTagList.getSerializedSize ≤ maxSize ∧
  add32 (add32 (nixSize packet.nixVector) packet.byteTagList.getSerializedSize)
    (PacketTagList.getSerializedSize packet.packetTagList) ≤ maxSize ∧
  packet.countedMetadata ids enable ≤ maxSize ∧
  packet.countedBuffer ids enable ≤ maxSize

end

theorem serialize_ok {packet : WirePacket} {buffer maxSize : Nat} {ws : Writes}
    (h : packet.serialize ids enable buffer maxSize = .ok ws) :
    packet.countedMetadata ids enable ≤ maxSize ∧ packet.countedBuffer ids enable ≤ maxSize ∧
    (∀ room, packet.Room ids enable room → packet.serialize ids enable buffer room = .ok ws) ∧
    ∀ n, Below ws n → buffer + packet.bufferOffset ids enable + 8 ≤ n := by
  unfold serialize at h
  obtain ⟨c₁, h₁, h⟩ := bind_ok.1 h
  obtain ⟨c₂, h₂, h⟩ := bind_ok.1 h
  obtain ⟨c₃, h₃, h⟩ := bind_ok.1 h
  obtain ⟨c₄, h₄, h⟩ := bind_ok.1 h
  obtain ⟨c₅, h₅, h⟩ := bind_ok.1 h
  obtain rfl : c₅.out = ws := Except.ok.inj h
  obtain ⟨hp₁, hs₁, hnix⟩ := serializeNix_ok h₁
  obtain ⟨-, ws₂, hws₂, rfl⟩ := putPart_ok.1 h₂
  obtain ⟨-, ws₃, hws₃, rfl⟩ := putPart_ok.1 h₃
  obtain ⟨hroom₄, ws₄, hws₄, rfl⟩ := putPart_ok.1 h₄
  obtain ⟨hroom₅, ws₅, hws₅, rfl⟩ := putPart_ok.1 h₅
  rw [← hs₁] at hnix
  refine ⟨by simpa only [countedMetadata, ← hs₁] using hroom₄,
    by simpa only [countedBuffer, countedMetadata, ← hs₁] using hroom₅, fun room hroom => ?_, fun n hn => ?_⟩
  · obtain ⟨ha, hb, hc, hd, he⟩ := hroom
    simp only [countedBuffer, countedMetadata, ← hs₁] at ha hb hc hd he
    unfold serialize
    refine bind_ok.2 ⟨_, hnix room ha, bind_ok.2 ⟨_, putPart_ok.2 ⟨hb, ws₂, hws₂, rfl⟩,
      bind_ok.2 ⟨_, putPart_ok.2 ⟨hc, ws₃, hws₃, rfl⟩, bind_ok.2 ⟨_, putPart_ok.2 ⟨hd, ws₄, hws₄, rfl⟩,
      bind_ok.2 ⟨_, putPart_ok.2 ⟨he, ws₅, hws₅, rfl⟩, rfl⟩⟩⟩⟩⟩
  · -- the buffer begins with the length of its zero area
    have hfirst := BufferContent.serialize_first hws₅
    have hlast := (hn.mono fun w hw => List.mem_append_right _ (hfirst w hw)).of_storeAt (length_leBytes 4 _)
    simp only [hp₁] at hlast
    simp only [bufferOffset]
    omega

/-! ## The format -/

/-- What two packets with the same content agree on. -/
structure Same (packet other : WirePacket) : Prop where
  bytes : other.buffer.bytes = packet.buffer.bytes
  byteTags : other.byteTagList.beginAll = packet.byteTagList.beginAll
  packetTags : other.packetTagList = packet.packetTagList
  items : other.metadata.items.map (fun i => (i.uid, i.size, i.chunkUid, i.fragmentStart, i.fragmentEnd, i.packetUid)) =
    packet.metadata.items.map (fun i => (i.uid, i.size, i.chunkUid, i.fragmentStart, i.fragmentEnd, i.packetUid))
  nix : other.nixVector = packet.nixVector

/-- A buffer of exactly the serialized size takes the packet and gives it back, and no
smaller one is accepted; in no case is there a write outside. -/
structure WireFormat (ids : TypeIds) (enable : Bool) (packet : WirePacket) : Prop where
  smaller : ∀ maxSize < packet.getSerializedSize ids enable,
    ∃ ws, packet.serialize ids enable 0 maxSize = .error ws ∧ Below ws maxSize
  exact : ∃ ws, packet.serialize ids enable 0 (packet.getSerializedSize ids enable) = .ok ws ∧
    Below ws (packet.getSerializedSize ids enable) ∧
    ∀ memory, ∃ other, deserialize ids (onto ws memory) 0 (packet.getSerializedSize ids enable) = some (true, other) ∧
      Same packet other

theorem nixSize_le (nixVector : Option NixVector) :
    nixSize nixVector % 4 = 0 ∧ nixEnd nixVector % 4 = 0 ∧ nixSize nixVector ≤ nixEnd nixVector := by
  cases nixVector with
  | some nix =>
    have hmod := nix.aligned.1
    simp only [nixSize, nixEnd, nix.aligned.pad]
    omega
  | none => exact ⟨rfl, rfl, le_refl _⟩

theorem getSerializedSize_eq (packet : WirePacket) : packet.getSerializedSize ids enable =
    (packet.bufferOffset ids enable + 4 + packet.buffer.getSerializedSize) % 4294967296 := by
  have hb := packet.buffer.aligned.pad
  simp only [getSerializedSize, bufferOffset, hb]
  cases packet.nixVector with
  | some nix => simp only [nixEnd, add32]; omega
  | none => simp only [nixEnd, add32]; omega

theorem unwrapped {offset last size : Nat} (hsize : size = (offset + 4 + last) % 4294967296)
    (hlast : last < 4294967296) (hend : offset + 8 ≤ size) : size = offset + 4 + last := by
  omega

section
variable {a m b size : Nat}

theorem pad4_cases (h : m < 4294967296) : m ≤ pad4 m ∨ pad4 m = 0 ∧ m % 4 ≠ 0 := by
  simp only [pad4, add32]
  omega

theorem counted_le (hle : a + m + b < size) (hlt : size < 4294967296) : add32 a m ≤ size - 1 ∧ add32 (add32 a m) b ≤ size - 1 := by
  have hm : add32 a m = a + m := Nat.mod_eq_of_lt (by omega)
  have hb : add32 (a + m) b = a + m + b := Nat.mod_eq_of_lt (by omega)
  rw [hm, hb]
  omega

theorem counted_wrapped (ha : a % 4 = 0) (hb : b % 4 = 0) (hsize : size % 4 = 0) (hm : m % 4 ≠ 0) (hmeta : add32 a m ≤ size)
    (hbuf : add32 (add32 a m) b ≤ size) : add32 a m ≤ size - 1 ∧ add32 (add32 a m) b ≤ size - 1 := by
  have hm' : add32 a m % 4 = m % 4 := by
    simp only [add32]
    omega
  have hb' : add32 (add32 a m) b % 4 = add32 a m % 4 := by
    generalize add32 a m = am
    simp only [add32]
    omega
  constructor
  · omega
  · omega

end

theorem room_pred {packet : WirePacket} {size : Nat} (hsize : size = packet.getSerializedSize ids enable)
    (hend : packet.bufferOffset ids enable + 8 ≤ size) (hmeta : packet.countedMetadata ids enable ≤ size)
    (hbuf : packet.countedBuffer ids enable ≤ size) : packet.Room ids enable (size - 1) := by
  obtain ⟨hbt, -⟩ := packet.byteTagList.aligned
  obtain ⟨hpt, -⟩ := PacketTagList.aligned packet.packetTagList
  obtain ⟨hb, hbLt⟩ := packet.buffer.aligned
  obtain ⟨hx, hend4, hxe⟩ := nixSize_le packet.nixVector
  have hpad := pad4_mod (packet.metadata.getSerializedSize ids enable)
  have hcases := pad4_cases (packet.metadata.getSerializedSize_lt ids enable)
  have hlt : size < 4294967296 := by rw [hsize]; exact add32_lt _ _
  have htotal := unwrapped (hsize.trans (getSerializedSize_eq packet)) hbLt hend
  simp only [Room, bufferOffset, countedBuffer, countedMetadata, packet.byteTagList.aligned.pad,
    (PacketTagList.aligned packet.packetTagList).pad] at htotal hmeta hbuf ⊢
  clear hsize hend hbLt
  generalize nixSize packet.nixVector = x at *
  generalize nixEnd packet.nixVector = xe at *
  generalize packet.byteTagList.getSerializedSize = bt at *
  generalize PacketTagList.getSerializedSize packet.packetTagList = pt at *
  generalize packet.metadata.getSerializedSize ids enable = m at *
  generalize packet.buffer.getSerializedSize = b at *
  have hbt' : add32 x bt = x + bt := Nat.mod_eq_of_lt (by omega)
  have hpt' : add32 (x + bt) pt = x + bt + pt := Nat.mod_eq_of_lt (by omega)
  rw [hbt', hpt'] at hmeta hbuf ⊢
  refine ⟨by omega, by omega, by omega, ?_⟩
  rcases hcases with hle | ⟨-, hodd⟩
  · exact counted_le (by omega) hlt
  · -- the padded size is zero; what is counted is no multiple of four, as the room is
    exact counted_wrapped (by omega) hb (by omega) hodd hmeta hbuf

/-- **A packet is accepted in too little room.** No packet meets the wire format: what
can be written to its serialized size can be written to a smaller one. -/
theorem wireFormat_never (ids : TypeIds) (enable : Bool) (packet : WirePacket) : ¬ WireFormat ids enable packet := by
  intro hwire
  obtain ⟨ws, hws, hbelow, -⟩ := hwire.exact
  obtain ⟨hmeta, hbuf, hroom, hend⟩ := serialize_ok hws
  have hin := hend _ hbelow
  rw [Nat.zero_add] at hin
  have hless := hroom _ (room_pred rfl hin hmeta hbuf)
  obtain ⟨vs, hvs, -⟩ := hwire.smaller (packet.getSerializedSize ids enable - 1) (by omega)
  rw [hless] at hvs
  exact nomatch hvs

/-- Types are their own hashes, and as many bytes. -/
def plainIds : TypeIds := ⟨id, id, fun tid => List.replicate tid 0, List.length⟩

/-- An empty packet asks for 48 bytes and is written to 32. -/
theorem empty_overruns : ¬ WireFormat plainIds true {} := by
  intro hwire
  obtain ⟨ws, hws, -⟩ := hwire.smaller 32 (by decide)
  exact nomatch hws

end WirePacket

end Ns3
