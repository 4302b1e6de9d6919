import Ns3.SixLowPan.CompressionSizes
import Ns3.SixLowPan.Fragmentation
import Ns3.SixLowPan.IphcSound

/-!
# Reassembly of compressed packets

The offsets of the fragments are kept when the headers that were compressed are
a multiple of eight bytes long. Then the list of a datagram holds, in the order
of the offsets, the fragments that arrived, and it is entire when that is all of
them.
-/

namespace Ns3

open Machine SixLowPanDispatch SixLowPanNetDevice SixLowPanFragN List Option

/-! ## Pieces of a packet -/

/-- What goes into a fragment, with its place in the packet that was not compressed. -/
structure SixLowPanPiece where
  bytes : Bytes
  offset : Nat
  length : Nat
  deriving DecidableEq

/-- Each piece begins where the one before it ends. -/
inductive LaidOut : Nat → List SixLowPanPiece → Nat → Prop
  | nil {stop : Nat} : LaidOut stop [] stop
  | cons {start : Nat} {x : SixLowPanPiece} {rest : List SixLowPanPiece} {stop : Nat} : x.offset = start → 0 < x.length →
      LaidOut (start + x.length) rest stop → LaidOut start (x :: rest) stop

namespace LaidOut

variable {start stop : Nat} {pieces : List SixLowPanPiece} {x : SixLowPanPiece}

theorem le (h : LaidOut start pieces stop) : start ≤ stop := by
  induction h with
  | nil => exact Nat.le_refl _
  | cons _ _ _ ih => exact (Nat.le_add_right _ _).trans ih

theorem bounds (h : LaidOut start pieces stop) (hx : x ∈ pieces) : start ≤ x.offset ∧ x.offset + x.length ≤ stop ∧ 0 < x.length := by
  induction h with
  | nil => cases hx
  | cons hoffset hpos hrest ih =>
    rcases mem_cons.mp hx with rfl | hx
    · exact ⟨hoffset.ge, hoffset ▸ hrest.le, hpos⟩
    · obtain ⟨hlo, hhi, hx⟩ := ih hx
      exact ⟨by omega, hhi, hx⟩

theorem behind {length : Nat} (h : LaidOut (start + length) pieces stop) (hpos : 0 < length) : ∀ z ∈ pieces, start < z.offset := by
  intro z hz
  have hlow := (h.bounds hz).1
  omega

theorem ne_head {length : Nat} (h : LaidOut (start + length) pieces stop) (hpos : 0 < length) (hoffset : x.offset = start) :
    ∀ z ∈ pieces, z ≠ x := by
  rintro z hz rfl
  exact (h.behind hpos z hz).ne hoffset.symm

end LaidOut

def laterFragment (datagramSize : Nat) (tag : UInt16) (x : SixLowPanPiece) : Bytes :=
  (of datagramSize tag (x.offset >>> 3)).serialize ++ x.bytes

structure LaterPieces (mtu extraHdrSize offset datagramSize : Nat) (rest : Bytes) (pieces : List SixLowPanPiece) : Prop where
  laid : LaidOut offset pieces datagramSize
  bytes : (pieces.map SixLowPanPiece.bytes).flatten = rest
  lengths : ∀ x ∈ pieces, x.bytes.length = x.length
  fits : ∀ x ∈ pieces, 5 + x.bytes.length + extraHdrSize ≤ mtu
  aligned : offset % 8 = 0 → ∀ x ∈ pieces, x.offset % 8 = 0

section
variable {mtu extraHdrSize offset datagramSize n : Nat} {p rest : Bytes} {pieces : List SixLowPanPiece}

theorem LaterPieces.nil : LaterPieces mtu extraHdrSize datagramSize datagramSize [] [] :=
  ⟨.nil, rfl, by simp, by simp, by simp⟩

theorem LaterPieces.cons (h : LaterPieces mtu extraHdrSize (offset + p.length) datagramSize rest pieces) (hpos : 0 < p.length)
    (hfits : 5 + p.length + extraHdrSize ≤ mtu) (haligned : pieces ≠ [] → p.length % 8 = 0) :
    LaterPieces mtu extraHdrSize offset datagramSize (p ++ rest) (⟨p, offset, p.length⟩ :: pieces) := by
  refine ⟨.cons rfl hpos h.laid, ?_, ?_, ?_, ?_⟩
  · rw [map_cons, flatten_cons, h.bytes]
  · intro x hx
    rcases mem_cons.mp hx with rfl | hx
    · rfl
    · exact h.lengths x hx
  · intro x hx
    rcases mem_cons.mp hx with rfl | hx
    · exact hfits
    · exact h.fits x hx
  · intro hoffset x hx
    rcases mem_cons.mp hx with rfl | hx
    · exact hoffset
    · have hgroups := haligned (ne_nil_of_mem hx)
      exact h.aligned (by omega) x hx

end

namespace SixLowPanDatagram

theorem sizes (x : SixLowPanDatagram) : x.origHdrSize ≤ x.packet.length ∧ x.packet.length < x.compressed.length + x.origHdrSize ∧
    x.compressed.length ≤ 4095 := by
  obtain ⟨⟨p, size⟩, hcompress, hsent⟩ := map_eq_some_iff.mp x.sent
  have hsmall := x.small
  have htook : Took x.packet p size ∧ (size ≠ 0 → x.packet.length < p.length + size) := by
    split at hcompress
    · obtain ⟨htakes, hmore⟩ := (compress_takes x.device.toSixLowPanNetDevice x.src x.dst _).1 x.packet
      exact ⟨htakes p size hcompress, hmore p size hcompress⟩
    · exact SixLowPanHc1.compress_takes hcompress
  obtain ⟨⟨hle, -, hshort⟩, hmore⟩ := htook
  simp only at hsent
  split at hsent
  · obtain ⟨hcompressed, hrest⟩ := Prod.mk.inj hsent
    obtain ⟨horig, -⟩ := Prod.mk.inj hrest
    rw [← hcompressed, ← horig, length_cons]
    omega
  · obtain ⟨hcompressed, hrest⟩ := Prod.mk.inj hsent
    obtain ⟨horig, -⟩ := Prod.mk.inj hrest
    rw [← hcompressed, ← horig]
    refine ⟨hle, ?_, by omega⟩
    rcases x.encoded with hne | huncompressed
    · rw [← horig] at hne
      exact hmore hne
    · rw [← hcompressed] at huncompressed
      rw [huncompressed, length_cons]
      omega

end SixLowPanDatagram

namespace SixLowPanNetDevice

section
variable {mtu extraHdrSize : Nat}

/-- The bytes of a fragment: what fits, in full groups of eight. -/
def laterData (mtu extraHdrSize : Nat) : Nat := mtu - 5 - extraHdrSize - (mtu - 5 - extraHdrSize) % 8

theorem laterData_bounds (hroom : 13 + extraHdrSize ≤ mtu) :
    8 ≤ laterData mtu extraHdrSize ∧ 5 + laterData mtu extraHdrSize + extraHdrSize ≤ mtu ∧
      mtu < 5 + laterData mtu extraHdrSize + extraHdrSize + 8 ∧ laterData mtu extraHdrSize % 8 = 0 := by
  unfold laterData
  omega

theorem uint32_laterCapacity (hmtu : mtu < 65536) (hroom : 13 + extraHdrSize ≤ mtu) :
    uint32 ((mtu : Int) - 5 - extraHdrSize) = mtu - 5 - extraHdrSize := by
  unfold uint32
  omega

theorem uint16_add {a b : Nat} (h : a + b < 65536) : uint16 ((a : Int) + b) = a + b := by
  unfold uint16
  omega

end

section
variable {p : Bytes} {mtu : Nat} (datagramSize extraHdrSize : Nat) (tag : UInt16)

theorem fragmentLoop_spec (hlength : p.length ≤ 4095) (hmtu : mtu < 65536) (hroom : 13 + extraHdrSize ≤ mtu) :
    ∀ (rounds offset offsetData : Nat), p.length < rounds + offsetData → offsetData ≤ p.length →
      offset + (p.length - offsetData) = datagramSize → datagramSize ≤ 2047 →
      ∃ pieces, fragmentLoop p datagramSize extraHdrSize mtu tag rounds offset offsetData =
          some (pieces.map (laterFragment datagramSize tag)) ∧
        LaterPieces mtu extraHdrSize offset datagramSize (p.drop offsetData) pieces
  | 0, _, _, hrounds, hle, _, _ => by omega
  | rounds + 1, offset, offsetData, hrounds, hle, hsum, hsmall => by
    obtain ⟨hn8, hfits, -, hgroups⟩ := laterData_bounds hroom
    have hsize : uint32 ((mtu : Int) - (of datagramSize tag (offset >>> 3)).getSerializedSize - extraHdrSize) =
        mtu - 5 - extraHdrSize := uint32_laterCapacity hmtu hroom
    obtain ⟨n, hn⟩ : ∃ n, laterData mtu extraHdrSize = n := ⟨_, rfl⟩
    have hn' : mtu - 5 - extraHdrSize - (mtu - 5 - extraHdrSize) % 8 = n := hn
    rw [hn] at hn8 hfits hgroups
    have hnsum : uint32 ((offsetData : Int) + n) = offsetData + n := uint32_add (by omega)
    have hrest : uint32 ((p.length : Int) - offsetData) = p.length - offsetData := uint32_sub hle (by omega)
    rw [fragmentLoop]
    simp only [hsize, hn', hnsum, hrest]
    by_cases hmore : offsetData + n ≤ p.length
    · have hoffset : uint16 ((offset : Int) + n) = offset + n := uint16_add (by lia)
      have hoffsetData : uint16 ((offsetData : Int) + n) = offsetData + n := uint16_add (by omega)
      obtain ⟨pieces, hloop, hpieces⟩ := fragmentLoop_spec hlength hmtu hroom rounds (offset + n) (offsetData + n) (by lia) hmore
        (by lia) hsmall
      have hbytes : ((p.drop offsetData).take n).length = n := by
        rw [length_take, length_drop]
        lia
      have hnext : LaterPieces mtu extraHdrSize (offset + ((p.drop offsetData).take n).length) datagramSize
          (p.drop (offsetData + n)) pieces := by
        rwa [hbytes]
      have hcons := hnext.cons (by omega) (by omega) fun _ => by rwa [hbytes]
      rw [hbytes, ← drop_drop, take_append_drop] at hcons
      refine ⟨⟨(p.drop offsetData).take n, offset, n⟩ :: pieces, ?_, hcons⟩
      simp only [hmore, decide_true, if_true, hoffset, hoffsetData, hloop, map_some, map_cons, laterFragment,
        createFragment, if_pos (show 0 < n by omega), cons_append, nil_append]
    · have hlast : offsetData + (p.length - offsetData) ≤ p.length := by omega
      have hall : (p.drop offsetData).take (p.length - offsetData) = p.drop offsetData :=
        take_of_length_le (by rw [length_drop])
      simp only [hmore, decide_false, Bool.false_eq_true, if_false]
      by_cases hpos : 0 < p.length - offsetData
      · have hlen : (p.drop offsetData).length = p.length - offsetData := length_drop
        have hnil : LaterPieces mtu extraHdrSize (offset + (p.drop offsetData).length) datagramSize [] [] := by
          rw [hlen, hsum]
          exact .nil
        have hcons := hnil.cons (by omega) (by omega) fun h => absurd rfl h
        rw [hlen, append_nil] at hcons
        refine ⟨[⟨p.drop offsetData, offset, p.length - offsetData⟩], ?_, hcons⟩
        simp only [if_pos hpos, createFragment, hlast, if_true, hall, map_cons, map_nil, laterFragment]
      · have hnone : p.drop offsetData = [] := drop_eq_nil_of_le (by lia)
        have hstop : offset = datagramSize := by omega
        refine ⟨[], by simp only [if_neg hpos, map_nil], ?_⟩
        rw [hnone, hstop]
        exact .nil

end

end SixLowPanNetDevice

namespace SixLowPanDatagram

def firstFragment (x : SixLowPanDatagram) (first : SixLowPanPiece) : Bytes :=
  (SixLowPanFrag1.of x.packet.length x.tag).serialize ++ first.bytes

structure CutUp (x : SixLowPanDatagram) (first : SixLowPanPiece) (rest : List SixLowPanPiece) : Prop where
  fragments : x.fragments = some (x.firstFragment first :: rest.map (laterFragment x.packet.length x.tag))
  zero : first.offset = 0
  laid : LaidOut 0 (first :: rest) x.packet.length
  bytes : first.bytes ++ (rest.map SixLowPanPiece.bytes).flatten = x.compressed
  first_length : first.length + x.compressedHeaderSize = first.bytes.length + x.origHdrSize
  lengths : ∀ y ∈ rest, y.bytes.length = y.length
  first_fits : 4 + first.bytes.length + x.extraHdrSize ≤ x.device.mtu.toNat
  fits : ∀ y ∈ rest, 5 + y.bytes.length + x.extraHdrSize ≤ x.device.mtu.toNat
  aligned : x.origHdrSize % 8 = 0 → ∀ y ∈ rest, y.offset % 8 = 0

theorem pktSize_le (x : SixLowPanDatagram) : x.pktSize ≤ x.compressed.length + x.extraHdrSize := by
  obtain ⟨⟨p, size⟩, -, hsent⟩ := map_eq_some_iff.mp x.sent
  simp only at hsent
  split at hsent
  · obtain ⟨hcompressed, hrest⟩ := Prod.mk.inj hsent
    obtain ⟨-, hpktSize⟩ := Prod.mk.inj hrest
    rw [← hcompressed, ← hpktSize]
    simp only [uint16]
    omega
  · obtain ⟨hcompressed, hrest⟩ := Prod.mk.inj hsent
    obtain ⟨-, hpktSize⟩ := Prod.mk.inj hrest
    rw [← hcompressed, ← hpktSize]
    simp only [uint16]
    omega

section
variable {mtu chs extra orig : Nat}

/-- What the first fragment carries behind the headers: what fits, in full groups of eight bytes. -/
def firstData (mtu chs extra : Nat) : Nat := mtu - 4 - chs - extra - (mtu - 4 - chs - extra) % 8

theorem firstData_bounds (hroom : 4 + chs + 8 + extra ≤ mtu) :
    8 ≤ firstData mtu chs extra ∧ 4 + (firstData mtu chs extra + chs) + extra ≤ mtu ∧ mtu < 4 + (firstData mtu chs extra + chs) + extra + 8 ∧
      firstData mtu chs extra % 8 = 0 := by
  unfold firstData
  lia

theorem uint32_capacity (hmtu : mtu < 65536) (hroom : 4 + chs + 8 + extra ≤ mtu) :
    uint32 ((mtu : Int) - 4 - chs - extra) = mtu - 4 - chs - extra := by
  unfold uint32
  omega

theorem uint32_firstData (hmtu : mtu < 65536) (hroom : 4 + chs + 8 + extra ≤ mtu) :
    uint32 (((mtu - 4 - chs - extra : Nat) : Int) - ((mtu - 4 - chs - extra : Nat) : Int) % 8 + chs) = firstData mtu chs extra + chs := by
  unfold uint32 firstData
  lia

theorem uint16_offset (horig : firstData mtu chs extra + orig < 65536) :
    uint16 (((firstData mtu chs extra + chs : Nat) : Int) + orig - chs) = firstData mtu chs extra + orig := by
  unfold uint16
  omega

end

theorem firstData_le (x : SixLowPanDatagram) :
    firstData x.device.mtu.toNat x.compressedHeaderSize x.extraHdrSize + x.compressedHeaderSize ≤ x.compressed.length := by
  have hroom : 4 + x.compressedHeaderSize + 8 + x.extraHdrSize ≤ x.device.mtu.toNat := x.room
  obtain ⟨-, hbounds, -⟩ := firstData_bounds hroom
  have hpktSize := x.pktSize_le
  have hfragmented := x.fragmented
  omega

/-- **Fragmentation ends.** -/
theorem exists_cutUp (x : SixLowPanDatagram) : ∃ first rest, CutUp x first rest := by
  obtain ⟨hhdr, hmore, hlength⟩ := x.sizes
  have hsmall := x.small
  have hmtu := x.device.mtu.toNat_lt
  have hroom : 4 + x.compressedHeaderSize + 8 + x.extraHdrSize ≤ x.device.mtu.toNat := x.room
  have hchs : x.compressedHeaderSize + x.packet.length = x.compressed.length + x.origHdrSize := by
    rw [compressedHeaderSize]
    omega
  have hfirst := x.firstData_le
  obtain ⟨n, hn⟩ : ∃ n, firstData x.device.mtu.toNat x.compressedHeaderSize x.extraHdrSize = n := ⟨_, rfl⟩
  obtain ⟨hn8, hfits, -, haligned⟩ := firstData_bounds hroom
  have hsum : n + x.origHdrSize + (x.compressed.length - (n + x.compressedHeaderSize)) = x.packet.length := by omega
  rw [hn] at hn8 hfits haligned hfirst
  obtain ⟨pieces, hloop, hpieces⟩ := fragmentLoop_spec x.packet.length x.extraHdrSize x.tag hlength hmtu
    (by omega) (x.compressed.length + 1) (n + x.origHdrSize) (n + x.compressedHeaderSize) (by omega) hfirst hsum hsmall
  have hbytes : (x.compressed.take (n + x.compressedHeaderSize)).length = n + x.compressedHeaderSize := length_take_of_le hfirst
  refine ⟨⟨x.compressed.take (n + x.compressedHeaderSize), 0, n + x.origHdrSize⟩, pieces, ?_, rfl, ?_, ?_, ?_, hpieces.lengths, ?_,
    hpieces.fits, ?_⟩
  · have hmtu4 : ¬ x.device.mtu.toNat ≤ (SixLowPanFrag1.of x.packet.length x.tag).getSerializedSize := by
      rw [SixLowPanFrag1.getSerializedSize]
      omega
    have horig : uint32 ((x.packet.length : Int) - x.origHdrSize) = x.packet.length - x.origHdrSize :=
      uint32_sub hhdr (by omega)
    have hheader : uint32 ((x.compressed.length : Int) - (x.packet.length - x.origHdrSize : Nat)) = x.compressedHeaderSize := by
      rw [uint32_sub (by lia) (by lia)]
      lia
    have hsize : uint32 ((x.device.mtu.toNat : Int) - (SixLowPanFrag1.of x.packet.length x.tag).getSerializedSize -
        x.compressedHeaderSize - x.extraHdrSize) = x.device.mtu.toNat - 4 - x.compressedHeaderSize - x.extraHdrSize :=
      uint32_capacity hmtu hroom
    have htotal := uint32_firstData hmtu hroom
    have hsmaller : firstData x.device.mtu.toNat x.compressedHeaderSize x.extraHdrSize + x.origHdrSize < 65536 := by lia
    have hoffset := uint16_offset hsmaller
    have hoffsetData : uint16 ((n + x.compressedHeaderSize : Nat) : Int) = n + x.compressedHeaderSize := by
      unfold uint16
      lia
    have hcreate : createFragment x.compressed 0 (n + x.compressedHeaderSize) =
        x.compressed.take (n + x.compressedHeaderSize) := by
      rw [createFragment, if_pos (by omega), drop_zero]
    rw [hn] at htotal hoffset
    rw [fragments, doFragmentation]
    simp only [if_neg hmtu4, horig, hheader, hsize, htotal, hoffset, hoffsetData, hloop, map_some, hcreate, firstFragment]
  · exact .cons rfl (show 0 < n + x.origHdrSize by omega) ((Nat.zero_add (n + x.origHdrSize)).symm ▸ hpieces.laid)
  · rw [hpieces.bytes, take_append_drop]
  · simp only [hbytes]
    omega
  · simp only [hbytes]
    exact hfits
  · intro horig
    exact hpieces.aligned (by omega)

end SixLowPanDatagram

/-! ## The list of fragments -/

namespace SixLowPanFragments

/-- A piece in the list; the first one is there without its compression. -/
structure Matches (x : SixLowPanPiece) (e : Bytes × Nat) : Prop where
  offset : e.2 = x.offset
  length : e.1.length = x.length
  bytes : x.offset ≠ 0 → e.1 = x.bytes

/-- The entries of a list are the pieces that are there, in their order. -/
inductive Listed (A : SixLowPanPiece → Prop) : List SixLowPanPiece → List (Bytes × Nat) → Prop
  | nil : Listed A [] []
  | here {x : SixLowPanPiece} {e : Bytes × Nat} {rest : List SixLowPanPiece} {es : List (Bytes × Nat)} : A x → Matches x e →
      Listed A rest es → Listed A (x :: rest) (e :: es)
  | missing {x : SixLowPanPiece} {rest : List SixLowPanPiece} {es : List (Bytes × Nat)} : ¬ A x → Listed A rest es →
      Listed A (x :: rest) es

section
variable {A B : SixLowPanPiece → Prop} {start stop : Nat} {pieces : List SixLowPanPiece} {es : List (Bytes × Nat)}

theorem Listed.congr (h : Listed A pieces es) (hiff : ∀ x ∈ pieces, A x ↔ B x) : Listed B pieces es := by
  induction h with
  | nil => exact .nil
  | here hx hmatch _ ih => exact .here ((hiff _ (by simp)).mp hx) hmatch (ih fun y hy => hiff y (by simp [hy]))
  | missing hx _ ih => exact .missing (mt (hiff _ (by simp)).mpr hx) (ih fun y hy => hiff y (by simp [hy]))

theorem Listed.exists_piece (h : Listed A pieces es) {e : Bytes × Nat} (he : e ∈ es) : ∃ x ∈ pieces, Matches x e := by
  induction h with
  | nil => cases he
  | here hx hmatch _ ih =>
    rcases mem_cons.mp he with rfl | he
    · exact ⟨_, by simp, hmatch⟩
    · obtain ⟨y, hy, hmatch⟩ := ih he
      exact ⟨y, by simp [hy], hmatch⟩
  | missing hx _ ih =>
    obtain ⟨y, hy, hmatch⟩ := ih he
    exact ⟨y, by simp [hy], hmatch⟩

theorem Listed.start_le (h : Listed A pieces es) (hlaid : LaidOut start pieces stop) {e : Bytes × Nat} (he : e ∈ es) : start ≤ e.2 := by
  obtain ⟨x, hx, hmatch⟩ := h.exists_piece he
  rw [hmatch.offset]
  exact (hlaid.bounds hx).1

theorem listed_nil (pieces : List SixLowPanPiece) : Listed (fun _ => False) pieces [] := by
  induction pieces with
  | nil => exact .nil
  | cons x rest ih => exact .missing id ih

theorem place_front {b : Bytes} {offset : Nat} (h : ∀ e ∈ es, offset < e.2) : place b offset es = some ((b, offset) :: es) := by
  cases es with
  | nil => rfl
  | cons e es => rw [place, if_pos (h e mem_cons_self)]

theorem place_spec (h : Listed A pieces es) (hlaid : LaidOut start pieces stop) {y : SixLowPanPiece} (hy : y ∈ pieces)
    {e : Bytes × Nat} (he : Matches y e) : ∃ es', place e.1 e.2 es = some es' ∧ Listed (fun z => A z ∨ z = y) pieces es' := by
  induction h generalizing start with
  | nil => cases hy
  | here hx hmatch hlist ih =>
    rename_i x e' rest es
    cases hlaid with
    | cons hoffset hpos hrest =>
      rcases mem_cons.mp hy with rfl | hy
      · refine ⟨e' :: es, ?_, .here (.inl hx) hmatch (hlist.congr fun z hz => ?_)⟩
        · have hsame : e'.2 = e.2 := hmatch.offset.trans he.offset.symm
          have hlength : e.1.length = e'.1.length := he.length.trans hmatch.length.symm
          rw [place, if_neg (by omega), if_pos hsame, if_pos hlength]
        · simp [hrest.ne_head hpos hoffset z hz]
      · obtain ⟨es', hplace, hlisted⟩ := ih hrest hy
        have hlt : e'.2 < e.2 := by
          rw [hmatch.offset, he.offset, hoffset]
          exact hrest.behind hpos y hy
        refine ⟨e' :: es', ?_, .here (.inl hx) hmatch hlisted⟩
        rw [place, if_neg (by omega), if_neg (by omega), hplace]
        rfl
  | missing hx hlist ih =>
    rename_i x rest es
    cases hlaid with
    | cons hoffset hpos hrest =>
      rcases mem_cons.mp hy with rfl | hy
      · refine ⟨e :: es, place_front fun e' he' => ?_, .here (.inr rfl) he (hlist.congr fun z hz => ?_)⟩
        · have hle := hlist.start_le hrest he'
          rw [he.offset]
          omega
        · simp [hrest.ne_head hpos hoffset z hz]
      · obtain ⟨es', hplace, hlisted⟩ := ih hrest hy
        have hne := hrest.ne_head hpos hoffset y hy
        exact ⟨es', hplace, .missing (by simp [hx, hne.symm]) hlisted⟩

theorem endOffset_eq_iff (h : Listed A pieces es) (hlaid : LaidOut start pieces stop) (hstop : stop < 65536) :
    endOffset start es = some stop ↔ ∀ x ∈ pieces, A x := by
  induction h generalizing start with
  | nil =>
    cases hlaid
    simp [endOffset]
  | here hx hmatch hlist ih =>
    rename_i x e rest es
    cases hlaid with
    | cons hoffset hpos hrest =>
      have hle := hrest.le
      have hend : max start (uint16 ((e.1.length : Int) + e.2)) = start + x.length := by
        rw [hmatch.length, hmatch.offset, hoffset]
        simp only [uint16]
        lia
      rw [endOffset, if_neg (by rw [hmatch.offset, hoffset]; omega), hend, ih hrest]
      simp [hx]
  | missing hx hlist ih =>
    rename_i x rest es
    cases hlaid with
    | cons hoffset hpos hrest =>
      have hle := hrest.le
      have hnot : ¬ ∀ y ∈ x :: rest, A y := fun hall => hx (hall x (by simp))
      refine ⟨fun hend => absurd hend ?_, fun hall => absurd hall hnot⟩
      cases es with
      | nil =>
        rw [endOffset]
        simp only [Option.some.injEq]
        lia
      | cons e es =>
        have hgap := hlist.start_le hrest (e := e) (by simp)
        rw [endOffset, if_pos (by omega)]
        simp

theorem join_spec (h : Listed A pieces es) (hlaid : LaidOut start pieces stop) (hstop : stop < 65536) (hpos : 0 < start)
    (hall : ∀ x ∈ pieces, A x) (p : Bytes) : join p start es = some (p ++ (pieces.map SixLowPanPiece.bytes).flatten) := by
  induction h generalizing start p with
  | nil => simp [join]
  | here hx hmatch hlist ih =>
    rename_i x e rest es
    cases hlaid with
    | cons hoffset hlength hrest =>
      have hle := hrest.le
      have hnext : uint16 ((start : Int) + e.1.length) = start + x.length := by
        rw [hmatch.length]
        simp only [uint16]
        omega
      have hbytes : e.1 = x.bytes := hmatch.bytes (by omega)
      rw [join, if_neg (by rw [hmatch.offset, hoffset]; omega), hnext, ih hrest (by omega) (fun y hy => hall y (by simp [hy])), hbytes]
      simp
  | missing hx _ _ => exact absurd (hall _ (by simp)) hx

end

/-- What is held of a datagram of which some pieces arrived. -/
structure Holds (x : SixLowPanDatagram) (first : SixLowPanPiece) (rest : List SixLowPanPiece) (A : SixLowPanPiece → Prop)
    (fr : SixLowPanFragments) : Prop where
  packetSize : fr.m_packetSize = x.packet.length
  listed : Listed A (first :: rest) fr.m_fragments
  firstFragment : A first → fr.m_firstFragment = some (x.firstFragment first)

section
variable {x : SixLowPanDatagram} {first : SixLowPanPiece} {rest : List SixLowPanPiece} {A : SixLowPanPiece → Prop}
  {fr : SixLowPanFragments}

theorem holds_new (x : SixLowPanDatagram) (first : SixLowPanPiece) (rest : List SixLowPanPiece) :
    Holds x first rest (fun _ => False) { m_packetSize := x.packet.length } :=
  ⟨rfl, listed_nil _, fun h => h.elim⟩

theorem Holds.isEntire_iff (h : Holds x first rest A fr) (hcut : x.CutUp first rest) :
    fr.isEntire = true ↔ ∀ y ∈ first :: rest, A y := by
  have hsmall := x.small
  have hiff := endOffset_eq_iff h.listed hcut.laid (by omega)
  rw [isEntire, h.packetSize, Bool.and_eq_true, decide_eq_true_eq, decide_eq_true_eq, hiff]
  refine ⟨fun hboth => hboth.2, fun hall => ⟨?_, hall⟩⟩
  cases hlisted : fr.m_fragments with
  | nil =>
    have hlist := h.listed
    rw [hlisted] at hlist
    cases hlist with
    | missing hfirst _ => exact absurd (hall first (by simp)) hfirst
  | cons e es => simp

theorem Holds.getPacket_eq (h : Holds x first rest A fr) (hcut : x.CutUp first rest) (hall : ∀ y ∈ first :: rest, A y) :
    fr.getPacket = some (x.firstFragment first ++ (rest.map SixLowPanPiece.bytes).flatten) := by
  have hsmall := x.small
  obtain ⟨hpacketSize, hlist, hfirst⟩ := h
  cases hlisted : fr.m_fragments with
  | nil =>
    rw [hlisted] at hlist
    cases hlist with
    | missing hfirst _ => exact absurd (hall first (by simp)) hfirst
  | cons e es =>
    rw [hlisted] at hlist
    cases hlist with
    | missing hfirst _ => exact absurd (hall first (by simp)) hfirst
    | here hA hmatch hrest =>
      cases hcut.laid with
      | cons hoffset hpos hlaid =>
        have hle := hlaid.le
        rw [Nat.zero_add] at hlaid
        have hend : uint16 (e.1.length : Int) = first.length := by
          rw [hmatch.length]
          simp only [uint16]
          omega
        rw [getPacket, hfirst hA, hlisted]
        simp only [hend]
        exact join_spec hrest hlaid (by omega) hpos (fun y hy => hall y (by simp [hy])) _

end

end SixLowPanFragments

/-! ## Fragments that are read -/

theorem datagramSizeBytes_eq {dispatch : UInt8} {size : Nat} (hdispatch : dispatch.toNat % 32 = 0) (hsize : size ≤ 2047) :
    ∃ high low : UInt8, datagramSizeBytes dispatch size = [high, low] ∧ high.toNat = dispatch.toNat + size / 256 ∧
      ((high.toNat <<< 8) ||| low.toNat) &&& 0x7FF = size := by
  have hlt := dispatch.toNat_lt
  have hor : size ||| dispatch.toNat <<< 8 = dispatch.toNat * 256 + size := by
    rw [Nat.or_comm, Nat.shiftLeft_eq]
    exact or_eq_add 13 (by omega) (by omega)
  have hhigh : (UInt8.ofNat ((size ||| dispatch.toNat <<< 8) >>> 8)).toNat = dispatch.toNat + size / 256 := by
    rw [hor, Nat.shiftRight_eq_div_pow, UInt8.toNat_ofNat']
    omega
  have hlow : (UInt8.ofNat ((size ||| dispatch.toNat <<< 8) &&& 0xff)).toNat = size % 256 := by
    have hmask : (dispatch.toNat * 256 + size) &&& 0xff = (dispatch.toNat * 256 + size) % 2 ^ 8 := Nat.and_two_pow_sub_one_eq_mod _ 8
    rw [hor, hmask, UInt8.toNat_ofNat']
    lia
  refine ⟨_, _, rfl, hhigh, ?_⟩
  rw [hhigh, hlow, Nat.shiftLeft_eq, or_eq_add 8 (by omega) (by omega)]
  have hmask : ((dispatch.toNat + size / 256) * 2 ^ 8 + size % 256) &&& 0x7FF =
      ((dispatch.toNat + size / 256) * 2 ^ 8 + size % 256) % 2 ^ 11 := Nat.and_two_pow_sub_one_eq_mod _ 11
  rw [hmask]
  lia

theorem readDatagramSize_eq {dispatch : UInt8} {size : Nat} (hdispatch : dispatch.toNat % 32 = 0) (hsize : size ≤ 2047) (rest : Bytes) :
    readDatagramSize (datagramSizeBytes dispatch size ++ rest) = some (size, rest) := by
  obtain ⟨high, low, hbytes, -, hmask⟩ := datagramSizeBytes_eq hdispatch hsize
  simp only [readDatagramSize, hbytes, cons_append, nil_append, readU8_cons, bind_some, map_some, hmask]

theorem head_datagramSizeBytes {dispatch : UInt8} {size : Nat} (hdispatch : dispatch.toNat % 32 = 0) (hsize : size ≤ 2047) (rest : Bytes) :
    ((datagramSizeBytes dispatch size ++ rest).headD 0).toNat = dispatch.toNat + size / 256 := by
  obtain ⟨high, low, hbytes, hhigh, -⟩ := datagramSizeBytes_eq hdispatch hsize
  rw [hbytes, ← hhigh]
  rfl

theorem maskedSize {size : Nat} (hsize : size ≤ 2047) : size &&& 0x7FF = size := by
  have hmask : size &&& 0x7FF = size % 2 ^ 11 := Nat.and_two_pow_sub_one_eq_mod _ 11
  rw [hmask]
  omega

theorem tag_read (tag : UInt16) : UInt16.ofNat (ofLeBytes (leBytes 2 tag.toNat)) = tag := by
  have hword : tag.toNat % 256 ^ 2 = tag.toNat := Nat.mod_eq_of_lt tag.toNat_lt
  rw [ofLeBytes_leBytes, hword, UInt16.ofNat_toNat]

theorem SixLowPanFrag1.deserialize_append {size : Nat} (hsize : size ≤ 2047) (tag : UInt16) (rest : Bytes) :
    deserialize ((of size tag).serialize ++ rest) = some ⟨size, tag⟩ := by
  rw [deserialize, serialize, of, maskedSize hsize, append_assoc, readDatagramSize_eq (by decide) hsize]
  simp only [bind_some, readBytes_of_length (length_leBytes 2 tag.toNat), map_some, tag_read]

theorem SixLowPanFragN.size_and_tag {size : Nat} (hsize : size ≤ 2047) (tag : UInt16) (offset : Nat) (rest : Bytes) :
    SixLowPanFrag1.deserialize ((of size tag offset).serialize ++ rest) = some ⟨size, tag⟩ := by
  rw [SixLowPanFrag1.deserialize, serialize, of, maskedSize hsize, append_assoc, append_assoc,
    readDatagramSize_eq (by decide) hsize]
  simp only [bind_some, readBytes_of_length (length_leBytes 2 tag.toNat), map_some, tag_read]

theorem SixLowPanFragN.deserialize_append {size : Nat} (hsize : size ≤ 2047) (tag : UInt16) (offset : Nat) (rest : Bytes) :
    deserialize ((of size tag offset).serialize ++ rest) = some ⟨size, tag, UInt8.ofNat offset⟩ := by
  rw [deserialize, serialize, of, maskedSize hsize, append_assoc, append_assoc, readDatagramSize_eq (by decide) hsize]
  simp only [bind_some, readBytes_of_length (length_leBytes 2 tag.toNat), cons_append, nil_append, readU8_cons,
    map_some, tag_read]

@[simp] theorem SixLowPanFrag1.length_serialize (h : SixLowPanFrag1) : h.serialize.length = 4 := by
  simp [serialize, datagramSizeBytes]

@[simp] theorem SixLowPanFragN.length_serialize (h : SixLowPanFragN) : h.serialize.length = 5 := by
  simp [serialize, datagramSizeBytes]

theorem getDispatchType_frag1 {b : UInt8} (hlow : 192 ≤ b.toNat) (hhigh : b.toNat ≤ 199) :
    getDispatchType b = .LOWPAN_FRAG1 := by
  simp only [getDispatchType, LOWPAN_IPv6, SixLowPanHc1.LOWPAN_HC1, LOWPAN_FRAG1,
    LOWPAN_FRAGN, UInt8.le_iff_toNat_le, ← UInt8.toNat_inj, UInt8.reduceToNat]
  rw [if_neg (by omega), if_neg (by omega), if_neg (by omega), if_neg (by omega), if_neg (by omega), if_neg (by omega),
    if_pos ⟨hlow, hhigh⟩]

theorem getDispatchType_fragN {b : UInt8} (hlow : 224 ≤ b.toNat) (hhigh : b.toNat ≤ 231) :
    getDispatchType b = .LOWPAN_FRAGN := by
  simp only [getDispatchType, LOWPAN_IPv6, SixLowPanHc1.LOWPAN_HC1, LOWPAN_FRAG1,
    LOWPAN_FRAGN, UInt8.le_iff_toNat_le, ← UInt8.toNat_inj, UInt8.reduceToNat]
  rw [if_neg (by omega), if_neg (by omega), if_neg (by omega), if_neg (by omega), if_neg (by omega), if_neg (by omega),
    if_neg (by omega), if_pos ⟨hlow, hhigh⟩]

theorem SixLowPanFrag1.dispatch {size : Nat} (hsize : size ≤ 2047) (tag : UInt16) (rest : Bytes) :
    getDispatchType (((of size tag).serialize ++ rest).headD 0) = .LOWPAN_FRAG1 := by
  have hhead : ((datagramSizeBytes LOWPAN_FRAG1 size ++ (leBytes 2 tag.toNat ++ rest)).headD 0).toNat =
      192 + size / 256 := head_datagramSizeBytes (by decide) hsize _
  have hsmall : size / 256 ≤ 7 := by omega
  rw [serialize, of, maskedSize hsize, append_assoc]
  exact getDispatchType_frag1 ((Nat.le_add_right 192 _).trans hhead.ge) (hhead.le.trans (Nat.add_le_add_left hsmall 192))

theorem SixLowPanFragN.dispatch {size : Nat} (hsize : size ≤ 2047) (tag : UInt16) (offset : Nat) (rest : Bytes) :
    getDispatchType (((of size tag offset).serialize ++ rest).headD 0) = .LOWPAN_FRAGN := by
  have hhead : ((datagramSizeBytes LOWPAN_FRAGN size ++ (leBytes 2 tag.toNat ++ ([UInt8.ofNat offset] ++ rest))).headD
      0).toNat = 224 + size / 256 := head_datagramSizeBytes (by decide) hsize _
  have hsmall : size / 256 ≤ 7 := by omega
  rw [serialize, of, maskedSize hsize, append_assoc, append_assoc]
  exact getDispatchType_fragN ((Nat.le_add_right 224 _).trans hhead.ge) (hhead.le.trans (Nat.add_le_add_left hsmall 224))

/-! ## Frames of a datagram -/

namespace SixLowPanDatagram

def wire (x : SixLowPanDatagram) (y : SixLowPanPiece) : Bytes :=
  if y.offset = 0 then x.firstFragment y else laterFragment x.packet.length x.tag y

section
variable {x : SixLowPanDatagram} {first : SixLowPanPiece} {rest : List SixLowPanPiece}

theorem CutUp.wire_first (hcut : x.CutUp first rest) : x.wire first = x.firstFragment first := by
  rw [wire, if_pos hcut.zero]

theorem CutUp.pos_of_mem (hcut : x.CutUp first rest) {y : SixLowPanPiece} (hy : y ∈ rest) : 0 < y.offset := by
  cases hcut.laid with
  | cons _ hpos hlaid =>
    have hlow := (hlaid.bounds hy).1
    omega

theorem CutUp.wire_rest (hcut : x.CutUp first rest) {y : SixLowPanPiece} (hy : y ∈ rest) :
    x.wire y = laterFragment x.packet.length x.tag y := by
  rw [wire, if_neg (Nat.ne_of_gt (hcut.pos_of_mem hy))]

theorem CutUp.fragments_eq (hcut : x.CutUp first rest) : x.fragments = some ((first :: rest).map x.wire) := by
  rw [hcut.fragments, map_cons, hcut.wire_first]
  congr 2
  exact map_congr_left fun y hy => (hcut.wire_rest hy).symm

theorem eq_of_offset {start stop : Nat} {pieces : List SixLowPanPiece} (hlaid : LaidOut start pieces stop) {y z : SixLowPanPiece}
    (hy : y ∈ pieces) (hz : z ∈ pieces) (h : y.offset = z.offset) : y = z := by
  induction hlaid with
  | nil => cases hy
  | cons hoffset hpos hrest ih =>
    rcases mem_cons.mp hy with rfl | hyr
    · rcases mem_cons.mp hz with rfl | hzr
      · rfl
      · have hlow := (hrest.bounds hzr).1
        omega
    · rcases mem_cons.mp hz with rfl | hzr
      · have hlow := (hrest.bounds hyr).1
        omega
      · exact ih hyr hzr

theorem frag1_wire (x : SixLowPanDatagram) (y : SixLowPanPiece) : SixLowPanFrag1.deserialize (x.wire y) = some ⟨x.packet.length, x.tag⟩ := by
  rw [wire]
  split
  · exact SixLowPanFrag1.deserialize_append x.small x.tag y.bytes
  · exact size_and_tag x.small x.tag (y.offset >>> 3) y.bytes

theorem CutUp.offset_read (hcut : x.CutUp first rest) (haligned : x.origHdrSize % 8 = 0) {y : SixLowPanPiece} (hy : y ∈ rest) :
    (UInt8.ofNat (y.offset >>> 3)).toNat <<< 3 = y.offset := by
  have hsmall := x.small
  have hbound := (hcut.laid.bounds (mem_cons_of_mem _ hy)).2
  have hunits := hcut.aligned haligned y hy
  rw [UInt8.toNat_ofNat', Nat.shiftRight_eq_div_pow, Nat.shiftLeft_eq]
  lia

theorem CutUp.wire_inj (hcut : x.CutUp first rest) (haligned : x.origHdrSize % 8 = 0) {y z : SixLowPanPiece} (hy : y ∈ first :: rest)
    (hz : z ∈ first :: rest) (h : x.wire y = x.wire z) : y = z := by
  have hsmall := x.small
  have hdispatch : ∀ {y : SixLowPanPiece}, y ∈ first :: rest → getDispatchType ((x.wire y).headD 0) =
      if y = first then .LOWPAN_FRAG1 else .LOWPAN_FRAGN := by
    intro y hy
    rcases mem_cons.mp hy with rfl | hy
    · rw [if_pos rfl, hcut.wire_first]
      exact SixLowPanFrag1.dispatch x.small x.tag _
    · have hne : y ≠ first := fun heq => by
        have hpos := hcut.pos_of_mem hy
        rw [heq, hcut.zero] at hpos
        omega
      rw [if_neg hne, hcut.wire_rest hy]
      exact dispatch x.small x.tag _ _
  have hboth := hdispatch hz
  rw [← h, hdispatch hy] at hboth
  by_cases hyf : y = first
  · by_cases hzf : z = first
    · rw [hyf, hzf]
    · rw [if_pos hyf, if_neg hzf] at hboth
      cases hboth
  · by_cases hzf : z = first
    · rw [if_neg hyf, if_pos hzf] at hboth
      cases hboth
    · have hyr := (mem_cons.mp hy).resolve_left hyf
      have hzr := (mem_cons.mp hz).resolve_left hzf
      rw [hcut.wire_rest hyr, hcut.wire_rest hzr] at h
      have hread := congrArg deserialize h
      rw [laterFragment, laterFragment, deserialize_append x.small, deserialize_append x.small] at hread
      have hoffset := congrArg m_datagramOffset (Option.some.inj hread)
      refine eq_of_offset hcut.laid hy hz ?_
      rw [← hcut.offset_read haligned hyr, ← hcut.offset_read haligned hzr]
      exact congrArg (fun b : UInt8 => b.toNat <<< 3) hoffset

end

end SixLowPanDatagram

/-! ## One fragment -/

namespace SixLowPanReceiver

open SixLowPanFragments

section
variable {d : SixLowPanReceiver} {x : SixLowPanDatagram} {first y : SixLowPanPiece} {rest : List SixLowPanPiece} {src dst : MacAddress}
  {s : SixLowPanBuffers}

def datagramKey (x : SixLowPanDatagram) (src dst : MacAddress) : SixLowPanFragmentKey :=
  sixLowPanFragmentKey src dst x.packet.length x.tag

theorem receiveFragment_eq (hcut : x.CutUp first rest) (haligned : x.origHdrSize % 8 = 0) (hy : y ∈ first :: rest)
    (hfirst : y = first → ∃ p, d.decompressFirst src dst first.bytes = some (some p) ∧
      p.length + x.compressedHeaderSize = first.bytes.length + x.origHdrSize) :
    ∃ p, Matches y (p, y.offset) ∧ d.receiveFragment s ⟨src, dst, x.wire y⟩ =
      d.addTo s (datagramKey x src dst) x.packet.length p y.offset (if y = first then some (x.firstFragment first) else none) := by
  by_cases hyf : y = first
  · obtain ⟨p, hp, hlength⟩ := hfirst hyf
    rw [hyf]
    refine ⟨p, ⟨rfl, ?_, fun hne => absurd hcut.zero hne⟩, ?_⟩
    · have heq := hcut.first_length
      simp only
      omega
    · have hread : SixLowPanFrag1.deserialize (x.firstFragment first) = some ⟨x.packet.length, x.tag⟩ :=
        SixLowPanFrag1.deserialize_append x.small x.tag first.bytes
      have hdrop : (x.firstFragment first).drop 4 = first.bytes := drop_left' (SixLowPanFrag1.length_serialize _)
      have hdispatch : getDispatchType ((x.firstFragment first).headD 0) = .LOWPAN_FRAG1 :=
        SixLowPanFrag1.dispatch x.small x.tag first.bytes
      rw [hcut.wire_first, receiveFragment]
      simp only [hdispatch, processFragment, if_true, hread, bind_some, SixLowPanFrag1.getSerializedSize, hdrop, hp, hcut.zero]
      rfl
  · have hyr := (mem_cons.mp hy).resolve_left hyf
    refine ⟨y.bytes, ⟨rfl, hcut.lengths y hyr, fun _ => rfl⟩, ?_⟩
    have hread : deserialize (laterFragment x.packet.length x.tag y) =
        some ⟨x.packet.length, x.tag, UInt8.ofNat (y.offset >>> 3)⟩ := deserialize_append x.small x.tag _ y.bytes
    have hdrop : (laterFragment x.packet.length x.tag y).drop 5 = y.bytes := drop_left' (length_serialize _)
    have hdispatch : getDispatchType ((laterFragment x.packet.length x.tag y).headD 0) = .LOWPAN_FRAGN :=
      dispatch x.small x.tag _ y.bytes
    rw [hcut.wire_rest hyr, receiveFragment]
    simp only [hdispatch, processFragment, Bool.false_eq_true, if_false, hread, bind_some, getSerializedSize, hdrop,
      hcut.offset_read haligned hyr, if_neg hyf]
    rfl

variable {A : SixLowPanPiece → Prop} {fr : SixLowPanFragments} {b : SixLowPanBuffers}

theorem addTo_spec (hcut : x.CutUp first rest) (hfragments : d.fragmentsOf s (datagramKey x src dst) x.packet.length = some (b, fr))
    (hheld : Holds x first rest A fr) (hy : y ∈ first :: rest) {p : Bytes} (hp : Matches y (p, y.offset)) :
    ((∀ z ∈ first :: rest, A z ∨ z = y) ∧
      d.addTo s (datagramKey x src dst) x.packet.length p y.offset (if y = first then some (x.firstFragment first) else none) =
        some (forget b (datagramKey x src dst), some x.compressed)) ∨
    ((¬ ∀ z ∈ first :: rest, A z ∨ z = y) ∧ ∃ fr', Holds x first rest (fun z => A z ∨ z = y) fr' ∧
      d.addTo s (datagramKey x src dst) x.packet.length p y.offset (if y = first then some (x.firstFragment first) else none) =
        some ({ b with m_fragments := b.m_fragments.insert (datagramKey x src dst) fr' }, none)) := by
  obtain ⟨es, hplace, hlisted⟩ := place_spec hheld.listed hcut.laid hy hp
  obtain ⟨fr', hfr'⟩ : ∃ fr', SixLowPanFragments.withFirst { fr with m_fragments := es }
      (if y = first then some (x.firstFragment first) else none) = fr' := ⟨_, rfl⟩
  have hholds : Holds x first rest (fun z => A z ∨ z = y) fr' := by
    by_cases hyf : y = first
    · rw [if_pos hyf] at hfr'
      subst hfr'
      exact ⟨hheld.packetSize, hlisted, fun _ => rfl⟩
    · rw [if_neg hyf] at hfr'
      subst hfr'
      exact ⟨hheld.packetSize, hlisted, fun h => hheld.firstFragment (h.resolve_right (Ne.symm hyf))⟩
  have hadd : d.addTo s (datagramKey x src dst) x.packet.length p y.offset (if y = first then some (x.firstFragment first) else none) =
      if fr'.isEntire then
        fr'.getPacket.bind fun packet => (SixLowPanFrag1.deserialize packet).map fun frag1Header =>
          (forget b (datagramKey x src dst), some (packet.drop frag1Header.getSerializedSize))
      else some ({ b with m_fragments := b.m_fragments.insert (datagramKey x src dst) fr' }, none) := by
    rw [addTo, hfragments]
    simp only [bind_some, addFragment, hplace, map_some, hfr']
  have hentire := hholds.isEntire_iff hcut
  rw [hadd]
  by_cases hall : ∀ z ∈ first :: rest, A z ∨ z = y
  · refine .inl ⟨hall, ?_⟩
    have hread : SixLowPanFrag1.deserialize (x.firstFragment first ++ (rest.map SixLowPanPiece.bytes).flatten) =
        some ⟨x.packet.length, x.tag⟩ := by
      rw [SixLowPanDatagram.firstFragment, append_assoc]
      exact SixLowPanFrag1.deserialize_append x.small x.tag _
    have hdrop : (x.firstFragment first ++ (rest.map SixLowPanPiece.bytes).flatten).drop 4 = x.compressed := by
      rw [SixLowPanDatagram.firstFragment, append_assoc, hcut.bytes]
      exact drop_left' (SixLowPanFrag1.length_serialize _)
    rw [if_pos (hentire.mpr hall), hholds.getPacket_eq hcut hall]
    simp only [bind_some, hread, map_some, SixLowPanFrag1.getSerializedSize, hdrop]
  · refine .inr ⟨hall, fr', hholds, ?_⟩
    rw [if_neg (mt hentire.mp hall)]

end

end SixLowPanReceiver

/-! ## The invariant -/

namespace SixLowPanReassembly

open SixLowPanReceiver SixLowPanFragments

theorem mem_without {arrived : List SixLowPanFrame} {keys : List SixLowPanFragmentKey} {f : SixLowPanFrame} :
    f ∈ without arrived keys ↔ f ∈ arrived ∧ keyOf f ∉ keys := by
  rw [without, mem_filter, decide_eq_true_eq]

theorem without_nil (arrived : List SixLowPanFrame) : without arrived [] = arrived := by
  simp [without]

theorem without_without (arrived : List SixLowPanFrame) (keys keys' : List SixLowPanFragmentKey) :
    without (without arrived keys) keys' = without arrived (keys ++ keys') := by
  rw [without, without, without, List.filter_filter]
  refine filter_congr fun f _ => ?_
  simp only [mem_append, not_or, ← Bool.decide_and]
  exact decide_eq_decide.mpr And.comm

def packetsOf (arrived : List SixLowPanFrame) (key : SixLowPanFragmentKey) : List Bytes :=
  (arrived.filter (keyOf · = key)).map SixLowPanFrame.packet

theorem mem_packetsOf {arrived : List SixLowPanFrame} {key : SixLowPanFragmentKey} {g : Bytes} :
    g ∈ packetsOf arrived key ↔ ∃ f ∈ arrived, keyOf f = key ∧ f.packet = g := by
  simp only [packetsOf, List.mem_map, mem_filter, decide_eq_true_eq, and_assoc]

theorem packetsOf_without (arrived : List SixLowPanFrame) (key k : SixLowPanFragmentKey) :
    packetsOf (without arrived [key]) k = if k = key then [] else packetsOf arrived k := by
  rw [packetsOf, without, List.filter_filter]
  by_cases hk : k = key
  · rw [if_pos hk, map_eq_nil_iff, filter_eq_nil_iff, hk]
    simp
  · rw [if_neg hk, packetsOf]
    congr 1
    refine filter_congr fun f _ => ?_
    by_cases hf : keyOf f = k
    · simp [hf, hk]
    · simp [hf]

theorem packetsOf_append (arrived : List SixLowPanFrame) (f : SixLowPanFrame) (k : SixLowPanFragmentKey) :
    packetsOf (arrived ++ [f]) k = packetsOf arrived k ++ if k = keyOf f then [f.packet] else [] := by
  rw [packetsOf, filter_append, map_append, packetsOf]
  by_cases hk : k = keyOf f
  · simp [hk]
  · simp [hk, Ne.symm hk]

variable {d : SixLowPanReceiver} {sent : SixLowPanFragmentKey → Option SixLowPanDatagram} {b : SixLowPanBuffers}
  {arrived : List SixLowPanFrame}

def Among (x : SixLowPanDatagram) (packets : List Bytes) (y : SixLowPanPiece) : Prop := x.wire y ∈ packets

/-- The buffers hold what arrived of each datagram, and each has its timeout. -/
structure Inv (sent : SixLowPanFragmentKey → Option SixLowPanDatagram) (b : SixLowPanBuffers) (arrived : List SixLowPanFrame) : Prop where
  held : ∀ key x, sent key = some x → packetsOf arrived key ≠ [] → ∃ first rest fr, x.CutUp first rest ∧
    b.m_fragments.find key = some fr ∧ Holds x first rest (Among x (packetsOf arrived key)) fr
  found : ∀ key, (b.m_fragments.find key).isSome = true ↔ packetsOf arrived key ≠ []
  once : (b.m_timeoutEventList.map Prod.snd).Nodup
  timeout : ∀ key, key ∈ b.m_timeoutEventList.map Prod.snd ↔ packetsOf arrived key ≠ []

theorem inv_start (sent : SixLowPanFragmentKey → Option SixLowPanDatagram) : Inv sent {} [] where
  held := fun key x _ hne => absurd rfl hne
  found := fun key => by simp [packetsOf]
  once := nodup_nil
  timeout := fun key => by simp [packetsOf]

structure Others (sent : SixLowPanFragmentKey → Option SixLowPanDatagram) (b : SixLowPanBuffers) (arrived : List SixLowPanFrame)
    (key : SixLowPanFragmentKey) : Prop where
  held : ∀ k x, k ≠ key → sent k = some x → packetsOf arrived k ≠ [] → ∃ first rest fr, x.CutUp first rest ∧
    b.m_fragments.find k = some fr ∧ Holds x first rest (Among x (packetsOf arrived k)) fr
  found : ∀ k, k ≠ key → ((b.m_fragments.find k).isSome = true ↔ packetsOf arrived k ≠ [])
  timeout : ∀ k, k ≠ key → (k ∈ b.m_timeoutEventList.map Prod.snd ↔ packetsOf arrived k ≠ [])

theorem Inv.others (h : Inv sent b arrived) (key : SixLowPanFragmentKey) : Others sent b arrived key :=
  ⟨fun k x _ => h.held k x, fun k _ => h.found k, fun k _ => h.timeout k⟩

theorem Others.erase {key : SixLowPanFragmentKey} (h : Others sent b arrived key) {b' : SixLowPanBuffers}
    (hfind : ∀ k, b'.m_fragments.find k = if k = key then none else b.m_fragments.find k)
    (honce : (b'.m_timeoutEventList.map Prod.snd).Nodup)
    (hlist : ∀ k, k ∈ b'.m_timeoutEventList.map Prod.snd ↔ k ∈ b.m_timeoutEventList.map Prod.snd ∧ k ≠ key) :
    Inv sent b' (without arrived [key]) := by
  refine ⟨fun k x hsent hne => ?_, fun k => ?_, honce, fun k => ?_⟩
  · rw [packetsOf_without] at hne ⊢
    by_cases hk : k = key
    · rw [if_pos hk] at hne
      exact absurd rfl hne
    · rw [if_neg hk] at hne ⊢
      rw [hfind, if_neg hk]
      exact h.held k x hk hsent hne
  · rw [packetsOf_without, hfind]
    by_cases hk : k = key
    · simp [hk]
    · rw [if_neg hk, if_neg hk]
      exact h.found k hk
  · rw [packetsOf_without, hlist]
    by_cases hk : k = key
    · simp [hk]
    · simp [hk, h.timeout k hk]

theorem nodup_eraseP {l : List (Int × SixLowPanFragmentKey)} (h : (l.map Prod.snd).Nodup) (key : SixLowPanFragmentKey) :
    ((l.eraseP (·.2 = key)).map Prod.snd).Nodup ∧ ∀ k, k ∈ (l.eraseP (·.2 = key)).map Prod.snd ↔ k ∈ l.map Prod.snd ∧ k ≠ key := by
  have heq : (l.eraseP (·.2 = key)).map Prod.snd = (l.map Prod.snd).erase key := by
    induction l with
    | nil => rfl
    | cons x l ih =>
      by_cases hx : x.2 = key
      · rw [eraseP_cons_of_pos (by simp [hx]), map_cons, hx, erase_cons_head]
      · rw [eraseP_cons_of_neg (by simp [hx]), map_cons, map_cons, erase_cons_tail (by simp [hx]),
          ih (nodup_cons.mp h).2]
  rw [heq]
  exact ⟨h.erase key, fun k => by rw [h.mem_erase_iff, And.comm]⟩

theorem Others.forget {key : SixLowPanFragmentKey} (h : Others sent b arrived key)
    (hnodup : (b.m_timeoutEventList.map Prod.snd).Nodup) : Inv sent (forget b key) (without arrived [key]) := by
  obtain ⟨honce, hlist⟩ := nodup_eraseP hnodup key
  refine h.erase (fun k => ?_) honce hlist
  rw [SixLowPanReceiver.forget, OrdMap.find_erase]
  by_cases hk : k = key
  · rw [if_pos hk, if_pos hk]
  · rw [if_neg hk, if_neg hk]

theorem Inv.makeRoom (h : Inv sent b arrived) (d : SixLowPanReceiver) :
    ∃ b', d.makeRoom b = some b' ∧ Inv sent b' (without arrived (if d.full b then (oldestKey b).toList else [])) := by
  by_cases hfull : d.full b = true
  · have hsize : 0 < b.m_fragments.entries.length := by
      have hboth := of_decide_eq_true hfull
      exact (Nat.pos_of_ne_zero hboth.1).trans_le hboth.2
    obtain ⟨e, he⟩ := exists_mem_of_length_pos hsize
    have hkey : e.1 ∈ b.m_timeoutEventList.map Prod.snd := by
      rw [h.timeout, ← h.found, OrdMap.find_of_mem _ he]
      rfl
    cases hlist : b.m_timeoutEventList with
    | nil =>
      rw [hlist] at hkey
      cases hkey
    | cons t l =>
      have hoccurs : t.2 ∈ b.m_timeoutEventList.map Prod.snd := by
        rw [hlist]
        simp
      have hfound := (h.found t.2).mpr ((h.timeout t.2).mp hoccurs)
      obtain ⟨fr, hfr⟩ := isSome_iff_exists.mp hfound
      have hold : oldestKey b = some t.2 := by
        rw [oldestKey, hlist]
        rfl
      refine ⟨SixLowPanReceiver.forget b t.2, ?_, ?_⟩
      · rw [SixLowPanReceiver.makeRoom, if_pos hfull, hold, bind_some, hfr]
        rfl
      · rw [if_pos hfull, hold]
        exact (h.others t.2).forget h.once
  · refine ⟨b, ?_, ?_⟩
    · rw [SixLowPanReceiver.makeRoom, if_neg hfull]
    · rw [if_neg hfull, without_nil]
      exact h

/-- The buffers while a fragment of a key is put in. -/
structure Ready (sent : SixLowPanFragmentKey → Option SixLowPanDatagram) (b : SixLowPanBuffers) (arrived : List SixLowPanFrame)
    (key : SixLowPanFragmentKey) : Prop where
  held : ∀ k x, k ≠ key → sent k = some x → packetsOf arrived k ≠ [] → ∃ first rest fr, x.CutUp first rest ∧
    b.m_fragments.find k = some fr ∧ Holds x first rest (Among x (packetsOf arrived k)) fr
  found : ∀ k, k ≠ key → ((b.m_fragments.find k).isSome = true ↔ packetsOf arrived k ≠ [])
  once : (b.m_timeoutEventList.map Prod.snd).Nodup
  timeout : ∀ k, k ∈ b.m_timeoutEventList.map Prod.snd ↔ packetsOf arrived k ≠ [] ∨ k = key

section
variable {key : SixLowPanFragmentKey}

theorem Inv.ready (h : Inv sent b arrived) (hne : packetsOf arrived key ≠ []) : Ready sent b arrived key := by
  refine ⟨fun k x _ => h.held k x, fun k _ => h.found k, h.once, fun k => ?_⟩
  rw [h.timeout]
  refine ⟨.inl, fun hk => ?_⟩
  rcases hk with hk | rfl
  · exact hk
  · exact hne

theorem Inv.ready_new (h : Inv sent b arrived) (hnil : packetsOf arrived key = []) (time : Int) :
    Ready sent { b with m_timeoutEventList := b.m_timeoutEventList ++ [(time, key)] } arrived key := by
  refine ⟨fun k x _ => h.held k x, fun k _ => h.found k, ?_, fun k => ?_⟩
  · have hnot : key ∉ b.m_timeoutEventList.map Prod.snd := fun hin => (h.timeout key).mp hin hnil
    rw [map_append]
    refine h.once.append (nodup_singleton _) fun k hk hk' => ?_
    rw [mem_singleton.mp hk'] at hk
    exact hnot hk
  · rw [map_append, mem_append, h.timeout]
    simp

theorem Ready.insert (h : Ready sent b arrived key) {f : SixLowPanFrame} (hf : keyOf f = key) {x : SixLowPanDatagram}
    (hsent : sent key = some x) {first : SixLowPanPiece} {rest : List SixLowPanPiece} (hcut : x.CutUp first rest)
    {fr : SixLowPanFragments} (hfr : Holds x first rest (Among x (packetsOf arrived key ++ [f.packet])) fr) :
    Inv sent { b with m_fragments := b.m_fragments.insert key fr } (arrived ++ [f]) := by
  have hpackets : ∀ k, packetsOf (arrived ++ [f]) k = packetsOf arrived k ++ if k = key then [f.packet] else [] := fun k => by
    rw [packetsOf_append, hf]
  refine ⟨fun k y hy hne => ?_, fun k => ?_, h.once, fun k => ?_⟩
  · rw [hpackets] at hne ⊢
    by_cases hk : k = key
    · rw [hk] at hy ⊢
      cases hy.symm.trans hsent
      rw [if_pos rfl, OrdMap.find_insert_self]
      exact ⟨first, rest, fr, hcut, rfl, hfr⟩
    · rw [if_neg hk, append_nil] at hne ⊢
      rw [OrdMap.find_insert_ne _ hk]
      exact h.held k y hk hy hne
  · rw [hpackets]
    by_cases hk : k = key
    · rw [hk, OrdMap.find_insert_self]
      simp
    · rw [if_neg hk, append_nil, OrdMap.find_insert_ne _ hk]
      exact h.found k hk
  · rw [hpackets, h.timeout]
    by_cases hk : k = key
    · simp [hk]
    · simp [hk]

theorem Ready.forget (h : Ready sent b arrived key) : Inv sent (forget b key) (without arrived [key]) := by
  have hothers : Others sent b arrived key := by
    refine ⟨h.held, h.found, fun k hk => ?_⟩
    rw [h.timeout]
    exact or_iff_left hk
  exact hothers.forget h.once

theorem Inv.fragmentsOf (h : Inv sent b arrived) (d : SixLowPanReceiver) {x : SixLowPanDatagram} (hsent : sent key = some x) :
    ∃ b' first rest fr, d.fragmentsOf b key x.packet.length = some (b', fr) ∧ x.CutUp first rest ∧
      Holds x first rest (Among x (packetsOf arrived key)) fr ∧ Ready sent b' (without arrived (evicted d b key)) key ∧
      packetsOf (without arrived (evicted d b key)) key = packetsOf arrived key := by
  by_cases hnil : packetsOf arrived key = []
  · have hfind : b.m_fragments.find key = none := by
      refine not_isSome_iff_eq_none.mp fun hsome => ?_
      exact (h.found key).mp hsome hnil
    obtain ⟨b', hroom, hinv⟩ := h.makeRoom d
    have hevicted : evicted d b key = if d.full b then (oldestKey b).toList else [] := by
      rw [evicted, hfind]
      by_cases hfull : d.full b = true
      · rw [if_pos hfull, if_pos ⟨rfl, hfull⟩]
      · rw [if_neg hfull, if_neg fun hboth => hfull hboth.2]
    rw [← hevicted] at hinv
    have hnil' : packetsOf (without arrived (evicted d b key)) key = [] := by
      refine eq_nil_iff_forall_not_mem.mpr fun g hg => ?_
      obtain ⟨f, hf, hkey, rfl⟩ := mem_packetsOf.mp hg
      have hin : f.packet ∈ packetsOf arrived key := mem_packetsOf.mpr ⟨f, (mem_without.mp hf).1, hkey, rfl⟩
      rw [hnil] at hin
      cases hin
    obtain ⟨first, rest, hcut⟩ := x.exists_cutUp
    refine ⟨_, first, rest, { m_packetSize := x.packet.length }, ?_, hcut, ?_, hinv.ready_new hnil' (d.now + d.m_fragmentExpirationTimeout), by rw [hnil', hnil]⟩
    · rw [SixLowPanReceiver.fragmentsOf, hfind]
      simp only [hroom, map_some]
    · rw [hnil]
      have hnew := holds_new x first rest
      refine ⟨hnew.packetSize, hnew.listed.congr fun y _ => ?_, fun hfirst => ?_⟩
      · simp [Among]
      · cases hfirst
  · obtain ⟨first, rest, fr, hcut, hfind, hholds⟩ := h.held key x hsent hnil
    have hevicted : evicted d b key = [] := by
      rw [evicted, hfind]
      exact if_neg fun hboth => by cases hboth.1
    refine ⟨b, first, rest, fr, ?_, hcut, hholds, ?_, ?_⟩
    · rw [SixLowPanReceiver.fragmentsOf, hfind]
    · rw [hevicted, without_nil]
      exact h.ready hnil
    · rw [hevicted, without_nil]

end

theorem keyOf_addresses {f g : SixLowPanFrame} (h : keyOf f = keyOf g) : f.src = g.src ∧ f.dst = g.dst := by
  have hkey : ∀ f : SixLowPanFrame, ∃ n m, keyOf f = toLex (toLex (f.src, f.dst), toLex (n, m)) := by
    intro f
    rw [keyOf]
    split
    · exact ⟨_, _, rfl⟩
    · exact ⟨_, _, rfl⟩
  obtain ⟨n, m, hf⟩ := hkey f
  obtain ⟨n', m', hg⟩ := hkey g
  rw [hf, hg] at h
  obtain ⟨haddresses, -⟩ := Prod.mk.inj h
  exact Prod.mk.inj haddresses

theorem among_append {x : SixLowPanDatagram} {first y z : SixLowPanPiece} {rest : List SixLowPanPiece} (hcut : x.CutUp first rest)
    (haligned : x.origHdrSize % 8 = 0) (hy : y ∈ first :: rest) (hz : z ∈ first :: rest) (packets : List Bytes) :
    Among x (packets ++ [x.wire y]) z ↔ Among x packets z ∨ z = y := by
  rw [Among, Among, mem_append, mem_singleton]
  exact or_congr Iff.rfl ⟨hcut.wire_inj haligned hz hy, fun heq => by rw [heq]⟩

/-- With a fragment all fragments of its datagram are among those that arrived. -/
def CompletesOf (x : SixLowPanDatagram) (arrived : List SixLowPanFrame) (f : SixLowPanFrame) : Prop :=
  ∀ fragments, x.fragments = some fragments → ∀ g ∈ fragments, g ∈ packetsOf arrived (keyOf f) ++ [f.packet]

/-- **One fragment**: it is put in, and its packet is put out when it was the last one. -/
theorem Inv.fragment (haligned : ∀ key x, sent key = some x → x.origHdrSize % 8 = 0) (h : Inv sent b arrived) {f : SixLowPanFrame}
    (hf : FragmentOf sent f) (hdecompresses : Decompresses d sent f) : ∃ x b', sent (keyOf f) = some x ∧
      (CompletesOf x arrived f ∧ d.receiveFragment b f = some (b', some x.compressed) ∧
          Inv sent b' (without (without arrived (evicted d b (keyOf f))) [keyOf f]) ∨
        ¬ CompletesOf x arrived f ∧ d.receiveFragment b f = some (b', none) ∧
          Inv sent b' (without arrived (evicted d b (keyOf f)) ++ [f])) := by
  obtain ⟨x, hsent, fragments, hfragments, hmem⟩ := hf
  obtain ⟨b', first, rest, fr, hlist, hcut, hholds, hready, hpackets⟩ := h.fragmentsOf d hsent
  have hunits := haligned _ x hsent
  cases hcut.fragments_eq.symm.trans hfragments
  obtain ⟨y, hy, hwire⟩ := List.mem_map.mp hmem
  have hkey : keyOf f = datagramKey x f.src f.dst := by
    rw [keyOf, ← hwire, x.frag1_wire]
    rfl
  have hframe : f = ⟨f.src, f.dst, x.wire y⟩ := by rw [hwire]
  have hfirst : y = first → ∃ p, d.decompressFirst f.src f.dst first.bytes = some (some p) ∧
      p.length + x.compressedHeaderSize = first.bytes.length + x.origHdrSize := by
    intro hyf
    have hpacket : f.packet = x.firstFragment first := by rw [← hwire, hyf, hcut.wire_first]
    have hdrop : f.packet.drop 4 = first.bytes := by
      rw [hpacket]
      exact drop_left' (SixLowPanFrag1.length_serialize _)
    have hdispatch : getDispatchType (f.packet.headD 0) = .LOWPAN_FRAG1 := by
      rw [hpacket]
      exact SixLowPanFrag1.dispatch x.small x.tag first.bytes
    rw [← hdrop]
    exact hdecompresses hdispatch x hsent
  obtain ⟨p, hp, hreceive⟩ := receiveFragment_eq (s := b) hcut hunits hy hfirst
  rw [← hframe] at hreceive
  have hcomplete : CompletesOf x arrived f ↔ ∀ z ∈ first :: rest, Among x (packetsOf arrived (keyOf f)) z ∨ z = y := by
    constructor
    · intro hall z hz
      have hin : Among x (packetsOf arrived (keyOf f) ++ [f.packet]) z := hall _ hfragments (x.wire z) (List.mem_map_of_mem hz)
      rw [← hwire] at hin
      exact (among_append hcut hunits hy hz _).mp hin
    · intro hall fragments' hfragments' g hg
      cases hfragments.symm.trans hfragments'
      obtain ⟨z, hz, rfl⟩ := List.mem_map.mp hg
      rcases hall z hz with hin | rfl
      · exact mem_append_left _ hin
      · rw [hwire]
        simp
  rw [hkey] at hlist
  rcases addTo_spec hcut hlist hholds hy hp with ⟨hall, hadd⟩ | ⟨hnot, fr', hholds', hadd⟩
  · rw [← hreceive, ← hkey] at hadd
    exact ⟨x, _, hsent, .inl ⟨hcomplete.mpr hall, hadd, hready.forget⟩⟩
  · rw [← hreceive, ← hkey] at hadd
    refine ⟨x, _, hsent, .inr ⟨mt hcomplete.mp hnot, hadd, hready.insert rfl hsent hcut ?_⟩⟩
    rw [hpackets, ← hwire]
    exact ⟨hholds'.packetSize, hholds'.listed.congr fun z hz => (among_append hcut hunits hy hz _).symm,
      fun hin => hholds'.firstFragment ((among_append hcut hunits hy (by simp) _).mp hin)⟩

theorem Inv.handleTimeout (now : Int) : ∀ {l : List (Int × SixLowPanFragmentKey)} {m : OrdMap SixLowPanFragmentKey SixLowPanFragments}
    {arrived : List SixLowPanFrame}, Inv sent ⟨m, l⟩ arrived → ∃ b', handleTimeout now m l = some b' ∧
      Inv sent b' (without arrived ((l.takeWhile (·.1 = now)).map Prod.snd))
  | [], m, arrived, h => by
    refine ⟨⟨m, []⟩, rfl, ?_⟩
    rw [List.takeWhile_nil, List.map_nil, without_nil]
    exact h
  | t :: l, m, arrived, h => by
    rw [SixLowPanReceiver.handleTimeout]
    by_cases hnow : t.1 = now
    · have hfound := (h.found t.2).mpr ((h.timeout t.2).mp (by simp))
      obtain ⟨fr, hfr⟩ := isSome_iff_exists.mp hfound
      have hgive : handleFragmentsTimeout m t.2 = some (m.erase t.2) := by
        rw [handleFragmentsTimeout, hfr]
        rfl
      obtain ⟨hnot, honce⟩ := nodup_cons.mp h.once
      have herased : Inv sent ⟨m.erase t.2, l⟩ (without arrived [t.2]) := by
        refine (h.others t.2).erase (fun k => ?_) honce fun k => ?_
        · rw [OrdMap.find_erase]
          by_cases hk : k = t.2
          · rw [if_pos hk, if_pos hk]
          · rw [if_neg hk, if_neg hk]
        · rw [map_cons, mem_cons]
          refine ⟨fun hk => ⟨.inr hk, fun heq => hnot (heq ▸ hk)⟩, fun hk => hk.1.resolve_left hk.2⟩
      obtain ⟨b', hrest, hinv⟩ := Inv.handleTimeout now herased
      refine ⟨b', ?_, ?_⟩
      · rw [if_pos hnow, hgive, bind_some, hrest]
      · rw [takeWhile_cons_of_pos (by simp [hnow]), map_cons]
        rw [without_without] at hinv
        exact hinv
    · refine ⟨⟨m, t :: l⟩, if_neg hnow, ?_⟩
      rw [takeWhile_cons_of_neg (by simp [hnow]), map_nil, without_nil]
      exact h

/-! ## Runs -/

variable {s : SixLowPanReassembly}

/-- Every datagram that arrives in part has its buffer and its timeout. -/
theorem Inv.of_run (haligned : ∀ key x, sent key = some x → x.origHdrSize % 8 = 0) {tr : List (SixLowPanEvent × List Bytes)}
    (hrun : Run (machine d) (Arrives d sent) {} tr s) : Inv sent s.toSixLowPanBuffers s.arrived := by
  refine Run.invariant (fun _ s => Inv sent s.toSixLowPanBuffers s.arrived) (inv_start sent) ?_ hrun
  intro tr s e s' out hinv he hstep
  cases e with
  | fragment now f =>
    obtain ⟨x, b', -, hboth⟩ := hinv.fragment (d := { d with now := now }) haligned he.1 he.2
    obtain ⟨r, hr, heq⟩ := map_eq_some_iff.mp hstep
    rcases hboth with ⟨-, hreceive, hnext⟩ | ⟨-, hreceive, hnext⟩
    · cases hreceive.symm.trans hr
      cases heq
      exact hnext
    · cases hreceive.symm.trans hr
      cases heq
      exact hnext
  | timeout now =>
    obtain ⟨b', htimeout, hnext⟩ := Inv.handleTimeout now hinv
    obtain ⟨r, hr, heq⟩ := map_eq_some_iff.mp hstep
    cases htimeout.symm.trans hr
    cases heq
    exact hnext

theorem completes_iff {x : SixLowPanDatagram} {f : SixLowPanFrame} (hsent : sent (keyOf f) = some x) {fragments : List Bytes}
    (hfragments : x.fragments = some fragments) : Completes sent s f ↔ CompletesOf x s.arrived f := by
  have hmem : ∀ g, (⟨f.src, f.dst, g⟩ : SixLowPanFrame) ∈ s.ofKey (keyOf f) ++ [f] ↔ g ∈ packetsOf s.arrived (keyOf f) ++ [f.packet] := by
    intro g
    rw [mem_append, mem_append, mem_singleton, mem_singleton, mem_packetsOf]
    refine or_congr ?_ ?_
    · rw [ofKey, mem_filter, decide_eq_true_eq]
      constructor
      · intro hin
        exact ⟨_, hin.1, hin.2, rfl⟩
      · rintro ⟨k, hk, hkey, rfl⟩
        obtain ⟨hsrc, hdst⟩ := keyOf_addresses hkey
        rw [← hsrc, ← hdst]
        exact ⟨hk, hkey⟩
    · refine ⟨fun heq => by rw [← heq], fun heq => by rw [heq]⟩
  constructor
  · rintro ⟨y, hy, fragments', hfragments', hall⟩ fragments'' hfragments'' g hg
    cases hsent.symm.trans hy
    cases hfragments'.symm.trans hfragments''
    exact (hmem g).mp (hall g hg)
  · intro hall
    exact ⟨x, hsent, fragments, hfragments, fun g hg => (hmem g).mpr (hall fragments hfragments g hg)⟩

/-- **Fragmentation and reassembly.** Fragmentation ends, and its fragments and the headers of the
mesh fit. In every run of fragments of datagrams whose compressed headers were a multiple of eight
bytes long, a packet is put out just when its last fragment arrives. -/
theorem datagrams_reassembled (d : SixLowPanReceiver) (sent : SixLowPanFragmentKey → Option SixLowPanDatagram) :
    (∀ x : SixLowPanDatagram, ∃ fragments, x.fragments = some fragments ∧
      ∀ g ∈ fragments, g.length + x.extraHdrSize ≤ x.device.mtu.toNat) ∧
    ((∀ key x, sent key = some x → x.origHdrSize % 8 = 0) →
      ∀ (tr : List (SixLowPanEvent × List Bytes)) (s : SixLowPanReassembly), Run (machine d) (Arrives d sent) {} tr s →
        ∀ (now : Int) (f : SixLowPanFrame), Arrives d sent s (.fragment now f) → Prompt d sent s now f) := by
  refine ⟨fun x => ?_, fun haligned tr s hrun now f he => ?_⟩
  · obtain ⟨first, rest, hcut⟩ := x.exists_cutUp
    refine ⟨_, hcut.fragments, fun g hg => ?_⟩
    rcases mem_cons.mp hg with rfl | hg
    · have hfits := hcut.first_fits
      rw [SixLowPanDatagram.firstFragment, length_append, SixLowPanFrag1.length_serialize]
      exact hfits
    · obtain ⟨y, hy, rfl⟩ := List.mem_map.mp hg
      have hfits := hcut.fits y hy
      rw [laterFragment, length_append, length_serialize]
      exact hfits
  · obtain ⟨x, b', hsent, hboth⟩ := (Inv.of_run haligned hrun).fragment (d := { d with now := now }) haligned he.1 he.2
    obtain ⟨y, hy, fragments, hfragments, -⟩ := he.1
    cases hsent.symm.trans hy
    have hiff := completes_iff (s := s) hsent hfragments
    rcases hboth with ⟨hcomplete, hreceive, -⟩ | ⟨hnot, hreceive, -⟩
    · refine ⟨_, _, congrArg (Option.map _) hreceive, fun _ => ⟨x, hsent, rfl⟩, fun hnot => absurd (hiff.mpr hcomplete) hnot⟩
    · refine ⟨_, _, congrArg (Option.map _) hreceive, fun hcomplete => absurd (hiff.mp hcomplete) hnot, fun _ => rfl⟩

instance (sent : SixLowPanFragmentKey → Option SixLowPanDatagram) (f : SixLowPanFrame) : Decidable (FragmentOf sent f) :=
  decidable_of_iff (∃ x ∈ sent (keyOf f), ∃ fragments ∈ x.fragments, f.packet ∈ fragments) Iff.rfl

instance (d : SixLowPanReceiver) (sent : SixLowPanFragmentKey → Option SixLowPanDatagram) (f : SixLowPanFrame) :
    Decidable (Decompresses d sent f) :=
  decidable_of_iff (getDispatchType (f.packet.headD 0) = .LOWPAN_FRAG1 → ∀ x ∈ sent (keyOf f),
    ∃ r ∈ d.decompressFirst f.src f.dst (f.packet.drop 4), ∃ p ∈ r,
      p.length + x.compressedHeaderSize = (f.packet.drop 4).length + x.origHdrSize) (by simp [Decompresses])

instance (d : SixLowPanReceiver) (sent : SixLowPanFragmentKey → Option SixLowPanDatagram) (s : SixLowPanReassembly) :
    (e : SixLowPanEvent) → Decidable (Arrives d sent s e)
  | .fragment now f => inferInstanceAs (Decidable (FragmentOf sent f ∧ Decompresses { d with now := now } sent f))
  | .timeout _ => .isTrue trivial

/-! ## A routing header -/

def plainReceiver : SixLowPanReceiver where
  toSixLowPanNetDevice := plainDevice

/-- A packet without extension headers, for an MTU of 20. -/
def plainDatagram : SixLowPanDatagram where
  device := { toSixLowPanNetDevice := plainDevice, mtu := 20 }
  src := plainMac
  dst := plainMac
  tag := 7
  extraHdrSize := 0
  packet := { labelled 0 with payloadLength := 16 }.serialize ++ (List.range 16).map UInt8.ofNat
  compressed := [114, 43, 40, 59, 0, 7, 251] ++ (List.range 16).map UInt8.ofNat
  origHdrSize := 40
  pktSize := 23
  sent := by decide +kernel
  encoded := by decide
  small := by decide +kernel
  fragmented := by decide
  room := by decide +kernel

/-- The same behind a routing header of eight bytes, for an MTU of 24. -/
def routedDatagram : SixLowPanDatagram where
  device := { toSixLowPanNetDevice := plainDevice, mtu := 24 }
  src := plainMac
  dst := plainMac
  tag := 7
  extraHdrSize := 0
  packet := { labelled 0 with payloadLength := 24, nextHeader := 43 }.serialize ++ [59, 0, 0, 0, 0, 0, 0, 0] ++
    (List.range 16).map UInt8.ofNat
  compressed := [118, 43, 40, 0, 7, 251, 226, 59, 2, 0, 0, 0, 0, 0, 0] ++ (List.range 16).map UInt8.ofNat
  origHdrSize := 44
  pktSize := 31
  sent := by decide +kernel
  encoded := by decide
  small := by decide +kernel
  fragmented := by decide
  room := by decide +kernel

def frameOf (x : SixLowPanDatagram) (n : Nat) : SixLowPanFrame :=
  ⟨plainMac, plainMac, (x.fragments.getD []).getD n []⟩

theorem plainLast_isSome : ((machine plainReceiver).exec (Arrives plainReceiver fun _ => some plainDatagram) {}
    [.fragment 0 (frameOf plainDatagram 1)]).isSome := by
  decide +kernel

theorem plainFirst_arrives (s : SixLowPanReassembly) :
    Arrives plainReceiver (fun _ => some plainDatagram) s (.fragment 1 (frameOf plainDatagram 0)) := by
  have h : FragmentOf (fun _ => some plainDatagram) (frameOf plainDatagram 0) ∧
      Decompresses { plainReceiver with now := 1 } (fun _ => some plainDatagram) (frameOf plainDatagram 0) := by
    decide +kernel
  exact h

/-- The second of two fragments arrives, then the first. -/
theorem plain_reassembled : ∃ tr s, Run (machine plainReceiver) (Arrives plainReceiver fun _ => some plainDatagram) {} tr s ∧
    Prompt plainReceiver (fun _ => some plainDatagram) s 1 (frameOf plainDatagram 0) := by
  have hrun := run_of_isSome (machine plainReceiver) (Arrives plainReceiver fun _ => some plainDatagram) {} _ plainLast_isSome
  refine ⟨_, _, hrun, ?_⟩
  refine (datagrams_reassembled plainReceiver fun _ => some plainDatagram).2 (fun key x h => ?_) _ _ hrun 1 (frameOf plainDatagram 0)
    (plainFirst_arrives _)
  rw [← Option.some.inj h]
  rfl

theorem routedFirst_isSome : ((machine plainReceiver).exec (Arrives plainReceiver fun _ => some routedDatagram) {}
    [.fragment 0 (frameOf routedDatagram 0)]).isSome := by
  decide +kernel

/-- **A routing header prevents completion.** -/
theorem routed_lost : ∃ tr s, Run (machine plainReceiver) (Arrives plainReceiver fun _ => some routedDatagram) {} tr s ∧
    Arrives plainReceiver (fun _ => some routedDatagram) s (.fragment 1 (frameOf routedDatagram 1)) ∧
    Completes (fun _ => some routedDatagram) s (frameOf routedDatagram 1) ∧
    ¬ Prompt plainReceiver (fun _ => some routedDatagram) s 1 (frameOf routedDatagram 1) := by
  have hrun := run_of_isSome (machine plainReceiver) (Arrives plainReceiver fun _ => some routedDatagram) {} _ routedFirst_isSome
  have hcomplete : Completes (fun _ => some routedDatagram) (((machine plainReceiver).exec
      (Arrives plainReceiver fun _ => some routedDatagram) {} [.fragment 0 (frameOf routedDatagram 0)]).get routedFirst_isSome).2
        (frameOf routedDatagram 1) :=
    ⟨routedDatagram, rfl, [(frameOf routedDatagram 0).packet, (frameOf routedDatagram 1).packet], by decide +kernel, by decide +kernel⟩
  have harrives : FragmentOf (fun _ => some routedDatagram) (frameOf routedDatagram 1) ∧
      Decompresses { plainReceiver with now := 1 } (fun _ => some routedDatagram) (frameOf routedDatagram 1) := by
    decide +kernel
  refine ⟨_, _, hrun, harrives, hcomplete, ?_⟩
  rintro ⟨s', out, hstep, hput, -⟩
  have hsilent : ((machine plainReceiver).step (((machine plainReceiver).exec
      (Arrives plainReceiver fun _ => some routedDatagram) {} [.fragment 0 (frameOf routedDatagram 0)]).get routedFirst_isSome).2
        (.fragment 1 (frameOf routedDatagram 1))).map Prod.snd = some [] := by
    decide +kernel
  obtain ⟨x, -, hout⟩ := hput hcomplete
  rw [hstep, hout] at hsilent
  exact absurd hsilent (by simp)

end SixLowPanReassembly

end Ns3
