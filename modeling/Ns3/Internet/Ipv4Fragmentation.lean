import Mathlib.Data.Nat.Bitwise
import Ns3.Internet.SequenceNumber32
import Ns3.Rlc.RlcHeader
import Ns3.Rlc.SequenceNumber10

/-!
# Fragmentation of IPv4 packets

`DoFragmentation` cuts the payload of a packet, or of a fragment of one, into
pieces for the MTU of the next link. Offsets are 16 bits wide and count bytes;
all but the last piece of a packet are multiples of eight bytes long. The header
has no options.

A fragment of a datagram is whatever repeated fragmentation makes of it. All
that the receiver relies on is that it is a slice of the payload, at the offset
its header says, and the end of the payload just when no more fragments follow.
-/

namespace Ns3

open List

structure Ipv4Header where
  source : UInt32
  destination : UInt32
  identification : UInt16
  protocol : UInt8
  payloadSize : Nat := 0
  fragmentOffset : Nat := 0
  moreFragments : Bool := false
  deriving DecidableEq

namespace Ipv4Header

def isLastFragment (h : Ipv4Header) : Bool := !h.moreFragments

/-- An offset that is not a multiple of eight bytes aborts. -/
def setFragmentOffset (h : Ipv4Header) (offsetBytes : Nat) : Option Ipv4Header :=
  if offsetBytes % 8 = 0 then some { h with fragmentOffset := offsetBytes } else none

def datagram (h : Ipv4Header) : UInt32 × UInt32 × UInt16 × UInt8 :=
  (h.source, h.destination, h.identification, h.protocol)

end Ipv4Header

abbrev Ipv4Packet := Bytes × Ipv4Header

namespace Ipv4L3Protocol

/-- The largest multiple of eight bytes behind a header on the link. -/
def fragmentSize (outIfaceMtu : Nat) : Nat := uint32 (outIfaceMtu - 20) / 8 * 8

/-- The loop of `DoFragmentation`, given up after as many rounds as the packet has
bytes. -/
def fragmentLoop (p : Bytes) (ipv4Header : Ipv4Header) (fragmentSize : Nat) : Nat → Nat → Option (List Ipv4Packet)
  | 0, _ => none
  | rounds + 1, offset =>
    let moreFragment := decide (uint32 (offset + fragmentSize) < p.length)
    let currentFragmentablePartSize := if moreFragment then fragmentSize else uint32 (p.length - offset)
    let fragment := (p.drop offset).take currentFragmentablePartSize
    ({ ipv4Header with
      moreFragments := moreFragment || !ipv4Header.isLastFragment
      payloadSize := uint16 currentFragmentablePartSize }.setFragmentOffset
        (uint16 (offset + ipv4Header.fragmentOffset))).bind fun fragmentHeader =>
      if moreFragment then
        (fragmentLoop p ipv4Header fragmentSize rounds (uint16 (offset + currentFragmentablePartSize))).map fun rest =>
          (fragment, fragmentHeader) :: rest
      else some [(fragment, fragmentHeader)]

def doFragmentation (packet : Bytes) (ipv4Header : Ipv4Header) (outIfaceMtu : Nat) : Option (List Ipv4Packet) :=
  fragmentLoop packet ipv4Header (fragmentSize outIfaceMtu) (packet.length + 1) 0

/-! ## Fragments of a datagram -/

/-- What becomes of a datagram on its way, over any number of links. -/
inductive Produced (payload : Bytes) : Ipv4Packet → Prop
  | datagram (h : Ipv4Header) : h.fragmentOffset = 0 → h.moreFragments = false → Produced payload (payload, h)
  | fragment {f : Ipv4Packet} {outIfaceMtu : Nat} {fragments : List Ipv4Packet} {g : Ipv4Packet} : Produced payload f →
      68 ≤ outIfaceMtu → outIfaceMtu < 4294967296 → doFragmentation f.1 f.2 outIfaceMtu = some fragments → g ∈ fragments →
      Produced payload g

/-- A slice of the payload where the header says. -/
structure SliceOf (payload : Bytes) (f : Ipv4Packet) : Prop where
  bytes : f.1 = (payload.drop f.2.fragmentOffset).take f.1.length
  stop : f.2.fragmentOffset + f.1.length ≤ payload.length
  aligned : f.2.fragmentOffset % 8 = 0
  more : f.2.moreFragments = true → f.1.length % 8 = 0
  last : f.2.moreFragments = false → f.2.fragmentOffset + f.1.length = payload.length

structure Fragmented (payload : Bytes) (f : Ipv4Packet) (offset size : Nat) (fragments : List Ipv4Packet) : Prop where
  bytes : (fragments.map Prod.fst).flatten = f.1.drop offset
  slices : ∀ g ∈ fragments, SliceOf payload g
  datagram : ∀ g ∈ fragments, g.2.datagram = f.2.datagram
  payloadSize : ∀ g ∈ fragments, g.2.payloadSize = g.1.length
  fits : ∀ g ∈ fragments, g.1.length ≤ size
  aligned : ∀ g ∈ fragments.dropLast, g.1.length % 8 = 0

section
variable {payload : Bytes} {f : Ipv4Packet} {size offset : Nat}

theorem uint16_of_lt {n : Nat} (h : n < 65536) : uint16 n = n := by
  unfold uint16
  omega

theorem SliceOf.piece (h : SliceOf payload f) {offset n : Nat} (hn : offset + n ≤ f.1.length) :
    (f.1.drop offset).take n = (payload.drop (offset + f.2.fragmentOffset)).take n := by
  rw [h.bytes, drop_take, take_take, drop_drop, Nat.min_eq_left (by omega), Nat.add_comm]

def headerAt (h : Ipv4Header) (more : Bool) (size offset : Nat) : Ipv4Header :=
  { h with moreFragments := more || !h.isLastFragment, payloadSize := size, fragmentOffset := offset + h.fragmentOffset }

theorem headerAt_eq {n : Nat} (hbound : payload.length ≤ 65515) (h : SliceOf payload f) (more : Bool)
    (hn : offset + n ≤ f.1.length) (haligned : offset % 8 = 0) :
    ({ f.2 with moreFragments := more || !f.2.isLastFragment, payloadSize := uint16 n }.setFragmentOffset
      (uint16 (offset + f.2.fragmentOffset))) = some (headerAt f.2 more n offset) := by
  have hstop := h.stop
  have hfirst := h.aligned
  have hsize : uint16 n = n := uint16_of_lt (by omega)
  have hoffset : uint16 (offset + f.2.fragmentOffset) = offset + f.2.fragmentOffset := uint16_of_lt (n := offset + _) (by omega)
  rw [Ipv4Header.setFragmentOffset, hoffset, if_pos (by omega), hsize]
  rfl

/-- The loop ends, and its pieces make up the rest of the packet. -/
theorem fragmentLoop_spec (hbound : payload.length ≤ 65515) (h : SliceOf payload f) (hpos : 8 ≤ size)
    (hsize : size % 8 = 0) : ∀ (rounds offset : Nat), f.1.length < rounds + offset → offset ≤ f.1.length → offset % 8 = 0 →
    offset + size < 4294967296 →
    ∃ fragments, fragmentLoop f.1 f.2 size rounds offset = some fragments ∧ Fragmented payload f offset size fragments
  | 0, _, hrounds, hle, _, _ => by omega
  | rounds + 1, offset, hrounds, hle, haligned, hsum => by
    have hstop := h.stop
    have hsum' : uint32 (offset + size) = offset + size := uint32_add hsum
    have hrest : uint32 (f.1.length - offset) = f.1.length - offset := uint32_sub hle (by omega)
    rw [fragmentLoop, hsum', hrest]
    by_cases hmore : offset + size < f.1.length
    · have hnext : uint16 (offset + size) = offset + size := uint16_of_lt (n := offset + size) (by omega)
      obtain ⟨rest, hloop, hr⟩ := fragmentLoop_spec hbound h hpos hsize rounds (offset + size) (by omega) (by omega) (by omega)
        (by omega)
      have hheader := headerAt_eq hbound h true (Nat.le_of_lt hmore) haligned
      have hlength : ((f.1.drop offset).take size).length = size := by
        rw [length_take, length_drop]
        omega
      have hslice : SliceOf payload ((f.1.drop offset).take size, headerAt f.2 true size offset) := by
        refine ⟨?_, ?_, ?_, fun _ => ?_, fun hlast => by cases hlast⟩
        · dsimp only
          rw [hlength]
          exact h.piece (Nat.le_of_lt hmore)
        · show offset + f.2.fragmentOffset + _ ≤ _
          rw [hlength]
          omega
        · have := h.aligned
          show (offset + f.2.fragmentOffset) % 8 = 0
          omega
        · rw [hlength]
          exact hsize
      simp only [decide_eq_true hmore, if_true, hheader, Option.bind_some, hnext, hloop, Option.map_some]
      refine ⟨_, rfl, ?_, ?_, ?_, ?_, ?_, ?_⟩
      · rw [map_cons, flatten_cons, hr.bytes, ← drop_drop, take_append_drop]
      · exact forall_mem_cons.mpr ⟨hslice, hr.slices⟩
      · exact forall_mem_cons.mpr ⟨rfl, hr.datagram⟩
      · exact forall_mem_cons.mpr ⟨hlength.symm, hr.payloadSize⟩
      · exact forall_mem_cons.mpr ⟨Nat.le_of_eq hlength, hr.fits⟩
      · intro g hg
        cases rest with
        | nil => cases hg
        | cons r rest =>
          rcases mem_cons.mp hg with rfl | hg
          · rw [hlength]
            exact hsize
          · exact hr.aligned g hg
    · have hheader := headerAt_eq hbound h false (show offset + (f.1.length - offset) ≤ f.1.length by omega) haligned
      have hlength : ((f.1.drop offset).take (f.1.length - offset)).length = f.1.length - offset := by
        rw [length_take, length_drop, Nat.min_self]
      have hslice : SliceOf payload
          ((f.1.drop offset).take (f.1.length - offset), headerAt f.2 false (f.1.length - offset) offset) := by
        refine ⟨?_, ?_, ?_, ?_, ?_⟩
        · dsimp only
          rw [hlength]
          exact h.piece (by omega)
        · show offset + f.2.fragmentOffset + _ ≤ _
          rw [hlength]
          omega
        · have := h.aligned
          show (offset + f.2.fragmentOffset) % 8 = 0
          omega
        · intro hm
          have := h.more (by simpa [headerAt, Ipv4Header.isLastFragment] using hm)
          rw [hlength]
          omega
        · intro hl
          have := h.last (by simpa [headerAt, Ipv4Header.isLastFragment] using hl)
          show offset + f.2.fragmentOffset + _ = _
          rw [hlength]
          omega
      simp only [decide_eq_false hmore, Bool.false_eq_true, if_false, hheader, Option.bind_some]
      refine ⟨_, rfl, ?_, ?_, ?_, ?_, ?_, ?_⟩
      · simp [take_of_length_le]
      · exact forall_mem_singleton.mpr hslice
      · exact forall_mem_singleton.mpr rfl
      · exact forall_mem_singleton.mpr hlength.symm
      · exact forall_mem_singleton.mpr (by rw [hlength]; omega)
      · simp

theorem SliceOf.doFragmentation (h : SliceOf payload f) (hbound : payload.length ≤ 65515) {outIfaceMtu : Nat}
    (hlo : 68 ≤ outIfaceMtu) (hhi : outIfaceMtu < 4294967296) :
    ∃ fragments, doFragmentation f.1 f.2 outIfaceMtu = some fragments ∧
      Fragmented payload f 0 (outIfaceMtu - 20) fragments := by
  have hsize : fragmentSize outIfaceMtu = (outIfaceMtu - 20) / 8 * 8 := by
    have : uint32 (outIfaceMtu - 20) = outIfaceMtu - 20 := uint32_sub (b := 20) (by omega) hhi
    rw [fragmentSize, this]
  have hpos : 8 ≤ fragmentSize outIfaceMtu := by omega
  obtain ⟨fragments, hloop, hf⟩ := fragmentLoop_spec hbound h hpos (by omega) (f.1.length + 1) 0 (by omega) (Nat.zero_le _)
    (by omega) (by omega)
  exact ⟨fragments, hloop, { hf with fits := fun g hg => Nat.le_trans (hf.fits g hg) (by omega) }⟩

theorem Produced.sliceOf (hbound : payload.length ≤ 65515) (h : Produced payload f) : SliceOf payload f := by
  induction h with
  | datagram h hoffset hmore =>
    refine ⟨?_, ?_, ?_, fun hm => ?_, fun _ => ?_⟩
    · dsimp only
      rw [hoffset, drop_zero, take_length]
    · dsimp only
      omega
    · dsimp only
      omega
    · rw [hmore] at hm
      cases hm
    · dsimp only
      omega
  | fragment _ hlo hhi hfragments hg ih =>
    obtain ⟨fragments, hsome, hf⟩ := ih.doFragmentation hbound hlo hhi
    cases hsome.symm.trans hfragments
    exact hf.slices _ hg

end

end Ipv4L3Protocol

end Ns3
