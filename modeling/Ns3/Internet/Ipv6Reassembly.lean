import Ns3.Internet.Ipv4Reassembly
import Ns3.Internet.Ipv6Fragmentation

/-!
# Reassembly of IPv6 fragments

`Process` keeps the fragments of each source and identification in the list that
IPv4 uses, but takes a packet for entire only when each fragment begins where the
one before it ends. A fragment that is there twice does not, so a packet is not
noticed once one of its fragments has arrived twice.

Beside the map stand the fragments that arrived since their packet was last
reassembled or given up.
-/

namespace Ns3

open Machine Ipv6ExtensionFragmentHeader List

structure Ipv6Fragments extends Fragments where
  unfragmentable : Option Bytes := none

namespace Ipv6Fragments

def addFragment (fr : Ipv6Fragments) (fragment : Bytes) (fragmentOffset : Nat) (moreFragment : Bool) : Ipv6Fragments :=
  { fr with toFragments := fr.toFragments.addFragment fragment fragmentOffset moreFragment }

def setUnfragmentablePart (fr : Ipv6Fragments) (unfragmentablePart : Bytes) : Ipv6Fragments :=
  { fr with unfragmentable := some unfragmentablePart }

def abutting : Nat → List (Bytes × Nat) → Bool
  | _, [] => true
  | lastEndOffset, x :: l => if lastEndOffset ≠ x.2 then false else abutting (uint16 (lastEndOffset + x.1.length)) l

def isEntire (fr : Ipv6Fragments) : Bool :=
  !fr.moreFragment && decide (0 < fr.fragments.length) && abutting 0 fr.fragments

def getPacket (fr : Ipv6Fragments) : Option Bytes := fr.unfragmentable.map (· ++ (fr.fragments.map Prod.fst).flatten)

end Ipv6Fragments

structure Ipv6Processed where
  packet : Bytes
  nextHeader : UInt8
  stopProcessing : Bool

namespace Ipv6ExtensionFragment

def fragmentKey (source : Ipv6Address) (identification : UInt32) : FragmentKey :=
  toLex (ofNtoh source.bytes, identification.toNat)

def process (m : OrdMap FragmentKey Ipv6Fragments) (packet : Bytes) (offset : Nat) (ipv6Header : Ipv6Header) :
    Option (OrdMap FragmentKey Ipv6Fragments × Ipv6Processed) :=
  let p := packet.drop offset
  (deserialize p).bind fun fragmentHeader =>
    let p := p.drop fragmentHeader.getSerializedSize
    let fragmentOffset := fragmentHeader.getOffset
    let key := fragmentKey ipv6Header.source fragmentHeader.identification
    let fragments := (m.find key).getD {}
    let fragments := if fragmentOffset = 0 then fragments.setUnfragmentablePart (packet.take offset) else fragments
    let fragments := fragments.addFragment p fragmentOffset fragmentHeader.getMoreFragment
    if fragments.isEntire then
      fragments.getPacket.map fun packet => (m.erase key, ⟨packet, fragmentHeader.nextHeader, false⟩)
    else some (m.insert key fragments, ⟨packet, fragmentHeader.nextHeader, true⟩)

def handleFragmentsTimeout (m : OrdMap FragmentKey Ipv6Fragments) (key : FragmentKey) :
    Option (OrdMap FragmentKey Ipv6Fragments) :=
  (m.find key).map fun _ => m.erase key

end Ipv6ExtensionFragment

abbrev Ipv6PacketId := Ipv6Address × UInt32

structure Ipv6Datagram where
  payload : Bytes
  header : Ipv6Header
  maxFragmentSize : Nat
  small : payload.length ≤ 65527
  plain : Ipv6ExtensionFragment.moreHeader payload header.nextHeader = false
  room : 56 ≤ maxFragmentSize
  maxFragmentSize_lt : maxFragmentSize < 4294967296

structure Ipv6Reassembly where
  fragments : OrdMap FragmentKey Ipv6Fragments := .empty
  arrived : List Ipv6Packet := []

inductive Ipv6Event where
  | fragment (f : Ipv6Packet)
  | timeout (d : Ipv6PacketId)

namespace Ipv6Reassembly

open Ipv6ExtensionFragment

def idOf (f : Ipv6Packet) : Ipv6PacketId :=
  (f.2.source, ((deserialize f.1).map (·.identification)).getD 0)

def ofPacket (s : Ipv6Reassembly) (d : Ipv6PacketId) : List Ipv6Packet := s.arrived.filter (idOf · = d)

def withoutPacket (s : Ipv6Reassembly) (d : Ipv6PacketId) : List Ipv6Packet := s.arrived.filter (idOf · ≠ d)

/-- A packet put out is one with which processing goes on. -/
def machine : Machine Ipv6Reassembly Ipv6Event Bytes where
  step s
    | .fragment f =>
      (process s.fragments f.1 0 f.2).map fun r =>
        if r.2.stopProcessing then (⟨r.1, s.arrived ++ [f]⟩, []) else (⟨r.1, s.withoutPacket (idOf f)⟩, [r.2.packet])
    | .timeout d =>
      (handleFragmentsTimeout s.fragments (fragmentKey d.1 d.2)).map fun m => (⟨m, s.withoutPacket d⟩, [])

def FragmentOf (sent : Ipv6PacketId → Ipv6Datagram) (f : Ipv6Packet) : Prop :=
  ∃ fragments, getFragments (sent (idOf f)).payload (sent (idOf f)).header (sent (idOf f)).maxFragmentSize (idOf f).2 = some fragments ∧
    f ∈ fragments

/-- Fragments arrive, in any order and any number of times, and what has arrived may be
given up. -/
def Arrives (sent : Ipv6PacketId → Ipv6Datagram) (s : Ipv6Reassembly) : Ipv6Event → Prop
  | .fragment f => FragmentOf sent f
  | .timeout d => s.ofPacket d ≠ []

def Complete (sent : Ipv6PacketId → Ipv6Datagram) (d : Ipv6PacketId) (l : List Ipv6Packet) : Prop :=
  ∃ fragments, getFragments (sent d).payload (sent d).header (sent d).maxFragmentSize d.2 = some fragments ∧ ∀ g ∈ fragments, g ∈ l

end Ipv6Reassembly

/-! ## The list of fragments -/

namespace Ipv6Fragments

def entry (x : Ipv6Piece) : Bytes × Nat := (x.bytes, x.offset)

/-- A piece that arrives, the unfragmentable part being empty. -/
def accept (fr : Ipv6Fragments) (x : Ipv6Piece) : Ipv6Fragments :=
  (if x.offset = 0 then fr.setUnfragmentablePart [] else fr).addFragment x.bytes x.offset x.more

def collected (l : List Ipv6Piece) : Ipv6Fragments := l.foldl accept {}

theorem collected_append (l : List Ipv6Piece) (x : Ipv6Piece) : collected (l ++ [x]) = (collected l).accept x := by
  simp [collected]

theorem accept_toFragments (fr : Ipv6Fragments) (x : Ipv6Piece) :
    (fr.accept x).toFragments = fr.toFragments.addFragment x.bytes x.offset x.more := by
  rw [accept]
  split
  · rfl
  · rfl

theorem accept_unfragmentable (fr : Ipv6Fragments) (x : Ipv6Piece) :
    (fr.accept x).unfragmentable = if x.offset = 0 then some [] else fr.unfragmentable := by
  rw [accept]
  split
  · rfl
  · rfl

theorem collected_perm (l : List Ipv6Piece) : (collected l).fragments.Perm (l.map entry) := by
  induction l using reverseRecOn with
  | nil => exact Perm.refl _
  | append_singleton l x ih =>
    rw [collected_append, accept_toFragments, map_append]
    exact (Fragments.addFragment_perm _ _ _ _).trans ((ih.cons _).trans (perm_append_singleton _ _).symm)

theorem collected_sorted (l : List Ipv6Piece) : Fragments.Sorted (collected l).fragments := by
  induction l using reverseRecOn with
  | nil => exact List.Pairwise.nil
  | append_singleton l x ih =>
    rw [collected_append, accept_toFragments]
    exact Fragments.addFragment_sorted ih _ _ _

theorem mem_collected {l : List Ipv6Piece} {e : Bytes × Nat} : e ∈ (collected l).fragments ↔ ∃ x ∈ l, entry x = e := by
  rw [(collected_perm l).mem_iff, List.mem_map]

theorem collected_unfragmentable {l : List Ipv6Piece} {x : Ipv6Piece} (hx : x ∈ l) (hzero : x.offset = 0) :
    (collected l).unfragmentable = some [] := by
  induction l using reverseRecOn with
  | nil => cases hx
  | append_singleton l y ih =>
    rw [collected_append, accept_unfragmentable]
    by_cases hy : y.offset = 0
    · rw [if_pos hy]
    · rw [if_neg hy]
      rcases mem_append.mp hx with hx | hx
      · exact ih hx
      · rw [mem_singleton.mp hx] at hzero
        exact absurd hzero hy

/-! ## Entire packets -/

section
variable {payload : Bytes} {pieces l : List Ipv6Piece}

theorem collected_moreFragment (hcut : Cut payload 0 pieces) (hl : ∀ x ∈ l, x ∈ pieces) (hne : l ≠ []) :
    (collected l).moreFragment = false ↔ ∃ x ∈ l, x.more = false := by
  induction l using reverseRecOn with
  | nil => exact absurd rfl hne
  | append_singleton l x ih =>
    have hx : x ∈ pieces := hl x (by simp)
    have hiff : (collected l).fragments.dropWhile (·.2 ≤ x.offset) = [] ↔ ∀ y ∈ l, y.offset ≤ x.offset := by
      rw [dropWhile_eq_nil_iff]
      constructor
      · intro h y hy
        exact of_decide_eq_true (h (entry y) (mem_collected.mpr ⟨y, hy, rfl⟩))
      · intro h e he
        obtain ⟨y, hy, rfl⟩ := mem_collected.mp he
        exact decide_eq_true (h y hy)
    rw [collected_append, accept_toFragments, Fragments.addFragment]
    simp only [hiff]
    by_cases hall : ∀ y ∈ l, y.offset ≤ x.offset
    · rw [if_pos hall]
      constructor
      · intro hmore
        exact ⟨x, by simp, hmore⟩
      · rintro ⟨z, hz, hlast⟩
        rcases mem_append.mp hz with hz' | hz'
        · by_cases heq : x = z
          · rw [heq]
            exact hlast
          · have hlt := (hcut.lt_last (Nat.zero_le _) (hl z hz) hlast hx heq).1
            have hle := hall z hz'
            omega
        · rw [← mem_singleton.mp hz']
          exact hlast
    · rw [if_neg hall]
      simp only [not_forall, Nat.not_le] at hall
      obtain ⟨y, hy, hlt⟩ := hall
      have hmore : x.more = true := by
        by_contra hlast
        have hne' : y ≠ x := fun heq => by
          rw [heq] at hlt
          exact Nat.lt_irrefl _ hlt
        have hle := (hcut.lt_last (Nat.zero_le _) hx (eq_false_of_ne_true hlast) (hl y (by simp [hy])) hne').1
        omega
      rw [ih (fun z hz => hl z (by simp [hz])) (ne_nil_of_mem hy)]
      constructor
      · rintro ⟨z, hz, hlast⟩
        exact ⟨z, by simp [hz], hlast⟩
      · rintro ⟨z, hz, hlast⟩
        rcases mem_append.mp hz with hz | hz
        · exact ⟨z, hz, hlast⟩
        · rw [mem_singleton.mp hz, hmore] at hlast
          cases hlast

theorem abutting_cut {offset : Nat} (hbound : payload.length ≤ 65527) (hcut : Cut payload offset pieces) :
    abutting offset (pieces.map entry) = true := by
  induction hcut with
  | last hin =>
    exact if_neg (not_not.mpr rfl)
  | more hpos haligned hlt hrest ih =>
    rename_i offset n rest
    have hlength : ((payload.drop offset).take n).length = n := by
      rw [length_take, length_drop]
      omega
    have hnext : uint16 (offset + n : Nat) = offset + n := Ipv4L3Protocol.uint16_of_lt (by omega)
    push_cast at hnext
    simp only [map_cons, entry, abutting, hlength, hnext]
    rw [if_neg (not_not.mpr rfl)]
    exact ih

theorem eq_of_abutting {offset : Nat} (hbound : payload.length ≤ 65527) (hne : payload ≠ []) (hcut : Cut payload offset pieces) :
    ∀ (es : List (Bytes × Nat)), Fragments.Sorted es → (∀ e ∈ es, ∃ x ∈ pieces, entry x = e) →
      (∃ x ∈ pieces, x.more = false ∧ entry x ∈ es) → abutting offset es = true → es = pieces.map entry := by
  have hpos : 0 < payload.length := length_pos_iff.mpr hne
  induction hcut with
  | last hin =>
    rename_i offset
    intro es _ hes hlast habut
    cases es with
    | nil =>
      obtain ⟨x, -, -, hx⟩ := hlast
      cases hx
    | cons e es =>
      have hall : ∀ e' ∈ e :: es, e' = (payload.drop offset, offset) := fun e' he' => by
        obtain ⟨x, hx, rfl⟩ := hes e' he'
        rw [mem_singleton.mp hx]
        rfl
      obtain rfl := hall e mem_cons_self
      cases es with
      | nil => rfl
      | cons e' es =>
        obtain rfl := hall e' (by simp)
        -- a second copy does not begin where the first one ends
        have hnext : uint16 (offset + (payload.length - offset) : Nat) = offset + (payload.length - offset) :=
          Ipv4L3Protocol.uint16_of_lt (by omega)
        push_cast at hnext
        rw [abutting, if_neg (not_not.mpr rfl)] at habut
        simp only [length_drop, abutting] at habut
        split at habut
        · cases habut
        · omega
  | more hn haligned hlt hrest ih =>
    rename_i offset n rest
    intro es hsorted hes hlast habut
    have hlength : ((payload.drop offset).take n).length = n := by
      rw [length_take, length_drop]
      omega
    have hnext : uint16 (offset + n : Nat) = offset + n := Ipv4L3Protocol.uint16_of_lt (by omega)
    push_cast at hnext
    cases es with
    | nil =>
      obtain ⟨x, -, -, hx⟩ := hlast
      cases hx
    | cons e es =>
      rw [abutting] at habut
      split at habut
      · cases habut
      · rename_i hoffset
        obtain ⟨x, hx, rfl⟩ := hes e mem_cons_self
        have hfirst : x = ⟨(payload.drop offset).take n, offset, true⟩ := by
          rcases mem_cons.mp hx with hx | hx
          · exact hx
          · have hlow := (hrest.bounds hx).1
            simp only [entry] at hoffset
            omega
        subst hfirst
        simp only [entry, hlength, hnext] at habut
        obtain ⟨hbehind, hsorted'⟩ := pairwise_cons.mp hsorted
        have hhead : ∀ e ∈ es, offset + n ≤ e.2 := by
          intro e he
          cases es with
          | nil => cases he
          | cons y es =>
            rw [abutting] at habut
            split at habut
            · cases habut
            · rcases mem_cons.mp he with rfl | he
              · omega
              · have hle := (pairwise_cons.mp hsorted').1 e he
                omega
        have hes' : ∀ e ∈ es, ∃ x ∈ rest, entry x = e := by
          intro e he
          obtain ⟨x, hx, rfl⟩ := hes e (mem_cons_of_mem _ he)
          rcases mem_cons.mp hx with rfl | hx
          · have hle := hhead _ he
            omega
          · exact ⟨x, hx, rfl⟩
        have hlast' : ∃ x ∈ rest, x.more = false ∧ entry x ∈ es := by
          obtain ⟨x, hx, hmore, hin⟩ := hlast
          rcases mem_cons.mp hx with rfl | hx
          · cases hmore
          · rcases mem_cons.mp hin with heq | hin
            · have hlow := (hrest.bounds hx).1
              have hoff : x.offset = offset := congrArg Prod.snd heq
              omega
            · exact ⟨x, hx, hmore, hin⟩
        rw [map_cons, ih es hsorted' hes' hlast' habut]

theorem entries_nodup (hcut : Cut payload 0 pieces) : (pieces.map entry).Nodup := by
  refine pairwise_map.mpr (hcut.increasing.imp fun {x y} hlt heq => ?_)
  have hoffset : x.offset = y.offset := congrArg Prod.snd heq
  omega

theorem collected_eq (hcut : Cut payload 0 pieces) (hperm : l.Perm pieces) : (collected l).fragments = pieces.map entry := by
  have hsorted : Fragments.Sorted (pieces.map entry) := pairwise_map.mpr (hcut.increasing.imp fun {_ _} => Nat.le_of_lt)
  refine Perm.eq_of_pairwise (fun a b ha hb hab hba => ?_) (collected_sorted l) hsorted
    ((collected_perm l).trans (hperm.map entry))
  obtain ⟨x, hx, rfl⟩ := mem_collected.mp ha
  obtain ⟨y, hy, rfl⟩ := List.mem_map.mp hb
  rw [hcut.offset_inj (hperm.mem_iff.mp hx) hy (Nat.le_antisymm hab hba)]

/-- **When a packet is taken for entire.** -/
theorem isEntire_iff (hbound : payload.length ≤ 65527) (hcut : Cut payload 0 pieces) (hl : ∀ x ∈ l, x ∈ pieces)
    (hempty : payload = [] → l.length = 1) : (collected l).isEntire = true ↔ (∀ x ∈ pieces, x ∈ l) ∧ l.Nodup := by
  have hlength : 0 < (collected l).fragments.length ↔ l ≠ [] := by
    rw [(collected_perm l).length_eq, length_map, length_pos_iff]
  rw [isEntire, Bool.and_eq_true, Bool.and_eq_true, Bool.not_eq_true', decide_eq_true_eq, hlength]
  constructor
  · rintro ⟨⟨hmore, hne⟩, habut⟩
    obtain ⟨z, hz, hlast⟩ := (collected_moreFragment hcut hl hne).mp hmore
    by_cases hpayload : payload = []
    · obtain ⟨x, rfl⟩ := length_eq_one_iff.mp (hempty hpayload)
      refine ⟨fun y hy => ?_, nodup_singleton x⟩
      subst hpayload
      rw [hcut.eq_of_nil hy (hl x mem_cons_self)]
      exact mem_cons_self
    · have heq := eq_of_abutting hbound hpayload hcut (collected l).fragments (collected_sorted l)
        (fun e he => by
          obtain ⟨x, hx, rfl⟩ := mem_collected.mp he
          exact ⟨x, hl x hx, rfl⟩)
        ⟨z, hl z hz, hlast, mem_collected.mpr ⟨z, hz, rfl⟩⟩ habut
      have hperm : (pieces.map entry).Perm (l.map entry) := heq ▸ collected_perm l
      refine ⟨fun x hx => ?_, (hperm.nodup_iff.mp (entries_nodup hcut)).of_map⟩
      obtain ⟨y, hy, hxy⟩ := List.mem_map.mp (hperm.mem_iff.mp (List.mem_map_of_mem hx))
      rw [← hcut.offset_inj (hl y hy) hx (congrArg Prod.snd hxy)]
      exact hy
  · rintro ⟨hall, hnodup⟩
    have hperm : l.Perm pieces := (perm_ext_iff_of_nodup hnodup (entries_nodup hcut).of_map).mpr fun x => ⟨hl x, hall x⟩
    obtain ⟨z, hz, hlast⟩ := hcut.exists_last
    have hne : l ≠ [] := ne_nil_of_mem (hall z hz)
    refine ⟨⟨(collected_moreFragment hcut hl hne).mpr ⟨z, hall z hz, hlast⟩, hne⟩, ?_⟩
    rw [collected_eq hcut hperm]
    exact abutting_cut hbound hcut

theorem getPacket_eq (hcut : Cut payload 0 pieces) (hall : ∀ x ∈ pieces, x ∈ l) (hl : ∀ x ∈ l, x ∈ pieces) (hnodup : l.Nodup) :
    (collected l).getPacket = some payload := by
  have hperm : l.Perm pieces := (perm_ext_iff_of_nodup hnodup (entries_nodup hcut).of_map).mpr fun x => ⟨hl x, hall x⟩
  obtain ⟨x, hx, hzero⟩ := hcut.exists_first
  have hbytes : ((pieces.map entry).map Prod.fst).flatten = payload := by
    rw [List.map_map]
    exact hcut.bytes
  rw [getPacket, collected_unfragmentable (hall x hx) hzero, collected_eq hcut hperm, hbytes]
  rfl

end

end Ipv6Fragments

/-! ## Every run -/

namespace Ipv6ExtensionFragment

theorem fragmentKey_inj (d e : Ipv6PacketId) : fragmentKey d.1 d.2 = fragmentKey e.1 e.2 ↔ d = e := by
  constructor
  · intro h
    obtain ⟨hbytes, hid⟩ := Prod.mk.inj h
    have hsource : d.1 = e.1 := Ipv6Address.ext_bytes (ofNtoh_inj (by simp) hbytes)
    exact Prod.ext hsource (UInt32.toNat_inj.mp hid)
  · rintro rfl
    rfl

end Ipv6ExtensionFragment

namespace Ipv6Reassembly

open Ipv6ExtensionFragment Ipv6Fragments
open Ipv6ExtensionFragmentHeader (headerOf)

/-- What is behind the fragment header, and what that says. -/
def pieceOf (f : Ipv6Packet) : Ipv6Piece :=
  match deserialize f.1 with
  | some h => ⟨f.1.drop h.getSerializedSize, h.getOffset, h.getMoreFragment⟩
  | none => ⟨[], 0, false⟩

theorem process_eq {m : OrdMap FragmentKey Ipv6Fragments} {f : Ipv6Packet} (hread : (deserialize f.1).isSome) :
    ∃ nextHeader, process m f.1 0 f.2 =
      let fragments := ((m.find (fragmentKey (idOf f).1 (idOf f).2)).getD {}).accept (pieceOf f)
      if fragments.isEntire then
        fragments.getPacket.map fun packet => (m.erase (fragmentKey (idOf f).1 (idOf f).2), ⟨packet, nextHeader, false⟩)
      else some (m.insert (fragmentKey (idOf f).1 (idOf f).2) fragments, ⟨f.1, nextHeader, true⟩) := by
  obtain ⟨h, hh⟩ := Option.isSome_iff_exists.mp hread
  refine ⟨h.nextHeader, ?_⟩
  have hid : idOf f = (f.2.source, h.identification) := by
    rw [idOf, hh]
    rfl
  have hpiece : pieceOf f = ⟨f.1.drop h.getSerializedSize, h.getOffset, h.getMoreFragment⟩ := by
    rw [pieceOf, hh]
  simp only [process, drop_zero, hh, Option.bind_some, hid, hpiece, accept, take_zero]

section
variable {payload : Bytes} {pieces : List Ipv6Piece} {x : Ipv6Piece}

theorem read_packetOf (h : Ipv6Header) (identification : UInt32) (hbound : payload.length ≤ 65527) (hcut : Cut payload 0 pieces)
    (hx : x ∈ pieces) :
    deserialize (packetOf h identification x).1 = some (headerOf h.nextHeader identification x.offset x.more) ∧
      pieceOf (packetOf h identification x) = x ∧ idOf (packetOf h identification x) = (h.source, identification) := by
  have haligned := hcut.aligned rfl hx
  have hstop := (hcut.bounds hx).2
  have hbit := x.more.toNat_lt
  have hread : deserialize (packetOf h identification x).1 =
      some (headerOf h.nextHeader identification x.offset x.more) :=
    deserialize_serialize _ (by simp only [headerOf]; omega) _
  refine ⟨hread, ?_, ?_⟩
  · have hoffset := getOffset_headerOf h.nextHeader identification haligned (by omega) x.more
    have hmore := getMoreFragment_headerOf h.nextHeader identification haligned x.more
    have hdrop : (packetOf h identification x).1.drop 8 = x.bytes := by
      exact drop_left' (length_serialize _)
    rw [pieceOf, hread]
    simp only [hoffset, hmore, getSerializedSize, hdrop]
  · rw [idOf, hread]
    rfl

end

section
variable {sent : Ipv6PacketId → Ipv6Datagram} {s : Ipv6Reassembly}

theorem exists_pieces (sent : Ipv6PacketId → Ipv6Datagram) (d : Ipv6PacketId) :
    ∃ pieces, getFragments (sent d).payload (sent d).header (sent d).maxFragmentSize d.2 =
        some (pieces.map (packetOf (sent d).header d.2)) ∧ Cut (sent d).payload 0 pieces ∧
      ∀ f ∈ pieces.map (packetOf (sent d).header d.2), (sent d).header.getSerializedSize + f.1.length ≤ (sent d).maxFragmentSize :=
  getFragments_spec _ _ (sent d).small (sent d).plain (sent d).room (sent d).maxFragmentSize_lt

theorem FragmentOf.piece {f : Ipv6Packet} (hf : FragmentOf sent f) {pieces : List Ipv6Piece}
    (hpieces : getFragments (sent (idOf f)).payload (sent (idOf f)).header (sent (idOf f)).maxFragmentSize (idOf f).2 =
      some (pieces.map (packetOf (sent (idOf f)).header (idOf f).2))) (hcut : Cut (sent (idOf f)).payload 0 pieces) :
    pieceOf f ∈ pieces ∧ f = packetOf (sent (idOf f)).header (idOf f).2 (pieceOf f) := by
  obtain ⟨fragments, hfragments, hmem⟩ := hf
  cases hpieces.symm.trans hfragments
  obtain ⟨x, hx, heq⟩ := List.mem_map.mp hmem
  obtain ⟨-, hpiece, -⟩ := read_packetOf (sent (idOf f)).header (idOf f).2 (sent (idOf f)).small hcut hx
  rw [heq] at hpiece
  rw [hpiece]
  exact ⟨hx, heq.symm⟩

/-- The map holds what arrived of each packet. -/
structure Inv (sent : Ipv6PacketId → Ipv6Datagram) (s : Ipv6Reassembly) : Prop where
  sound : ∀ f ∈ s.arrived, FragmentOf sent f
  held : ∀ d : Ipv6PacketId, s.fragments.find (fragmentKey d.1 d.2) =
    if s.ofPacket d = [] then none else some (collected ((s.ofPacket d).map pieceOf))
  nonempty : ∀ f ∈ s.arrived, (sent (idOf f)).payload ≠ []

theorem inv_start (sent : Ipv6PacketId → Ipv6Datagram) : Inv sent {} where
  sound := by simp
  held := by
    intro d
    rfl
  nonempty := by simp

theorem mem_ofPacket {d : Ipv6PacketId} {f : Ipv6Packet} : f ∈ s.ofPacket d ↔ f ∈ s.arrived ∧ idOf f = d := by
  rw [ofPacket, mem_filter, decide_eq_true_eq]

theorem Inv.erase (h : Inv sent s) (d : Ipv6PacketId) :
    Inv sent ⟨s.fragments.erase (fragmentKey d.1 d.2), s.withoutPacket d⟩ := by
  refine ⟨fun f hf => h.sound f (mem_of_mem_filter hf), fun e => ?_, fun f hf => h.nonempty f (mem_of_mem_filter hf)⟩
  rw [OrdMap.find_erase, h.held e]
  simp only [fragmentKey_inj]
  have hof : ofPacket ⟨s.fragments.erase (fragmentKey d.1 d.2), s.withoutPacket d⟩ e = if e = d then [] else s.ofPacket e := by
    rw [ofPacket, withoutPacket, List.filter_filter, ofPacket]
    by_cases heq : e = d
    · rw [if_pos heq, filter_eq_nil_iff, heq]
      simp
    · rw [if_neg heq]
      refine filter_congr fun f _ => ?_
      by_cases hf : idOf f = e
      · simp [hf, heq]
      · simp [hf]
  rw [hof]
  by_cases heq : e = d
  · rw [if_pos heq, if_pos heq, if_pos rfl]
  · rw [if_neg heq, if_neg heq]

theorem Inv.insert (h : Inv sent s) {f : Ipv6Packet} (hf : FragmentOf sent f) (hne : (sent (idOf f)).payload ≠ []) :
    Inv sent ⟨s.fragments.insert (fragmentKey (idOf f).1 (idOf f).2) (collected ((s.ofPacket (idOf f) ++ [f]).map pieceOf)),
      s.arrived ++ [f]⟩ := by
  have hall : ∀ P : Ipv6Packet → Prop, (∀ g ∈ s.arrived, P g) → P f → ∀ g ∈ s.arrived ++ [f], P g := by
    intro P hP hPf g hg
    rcases mem_append.mp hg with hg | hg
    · exact hP g hg
    · rw [mem_singleton.mp hg]
      exact hPf
  refine ⟨hall _ h.sound hf, fun e => ?_, hall _ h.nonempty hne⟩
  have hof : ofPacket ⟨s.fragments.insert (fragmentKey (idOf f).1 (idOf f).2)
      (collected ((s.ofPacket (idOf f) ++ [f]).map pieceOf)), s.arrived ++ [f]⟩ e =
      s.ofPacket e ++ if e = idOf f then [f] else [] := by
    rw [ofPacket, filter_append, ofPacket]
    by_cases he : e = idOf f
    · simp [he]
    · simp [he, Ne.symm he]
  rw [OrdMap.find_insert, h.held e, hof]
  simp only [fragmentKey_inj]
  by_cases he : e = idOf f
  · rw [if_pos he, if_pos he, if_neg (by simp), he]
  · rw [if_neg he, if_neg he, append_nil]

def Completes (sent : Ipv6PacketId → Ipv6Datagram) (s : Ipv6Reassembly) (f : Ipv6Packet) : Prop :=
  Complete sent (idOf f) (s.ofPacket (idOf f) ++ [f])

theorem Inv.fragment (h : Inv sent s) {f : Ipv6Packet} (hf : FragmentOf sent f) :
    ∃ s' out, machine.step s (.fragment f) = some (s', out) ∧ Inv sent s' ∧
      ((Completes sent s f ∧ (s.ofPacket (idOf f) ++ [f]).Nodup) ∧ out = [(sent (idOf f)).payload] ∨
        ¬ (Completes sent s f ∧ (s.ofPacket (idOf f) ++ [f]).Nodup) ∧ out = []) := by
  obtain ⟨pieces, hpieces, hcut, -⟩ := exists_pieces sent (idOf f)
  have hsound : ∀ g ∈ s.ofPacket (idOf f) ++ [f], FragmentOf sent g ∧ idOf g = idOf f := by
    intro g hg
    rcases mem_append.mp hg with hg | hg
    · obtain ⟨hmem, hid⟩ := mem_ofPacket.mp hg
      exact ⟨h.sound g hmem, hid⟩
    · rw [mem_singleton.mp hg]
      exact ⟨hf, rfl⟩
  have hback : ∀ g ∈ s.ofPacket (idOf f) ++ [f], pieceOf g ∈ pieces ∧ g = packetOf (sent (idOf f)).header (idOf f).2 (pieceOf g) := by
    intro g hg
    obtain ⟨hfragment, hid⟩ := hsound g hg
    rw [← hid]
    exact hfragment.piece (hid ▸ hpieces) (hid ▸ hcut)
  have hin : f ∈ s.ofPacket (idOf f) ++ [f] := by simp
  have hread : (deserialize f.1).isSome := by
    obtain ⟨hx, heq⟩ := hback f hin
    have hsome := (read_packetOf (sent (idOf f)).header (idOf f).2 (sent (idOf f)).small hcut hx).1
    rw [← heq] at hsome
    rw [hsome]
    rfl
  have hadd : ((s.fragments.find (fragmentKey (idOf f).1 (idOf f).2)).getD {}).accept (pieceOf f) =
      collected ((s.ofPacket (idOf f) ++ [f]).map pieceOf) := by
    have hold : (s.fragments.find (fragmentKey (idOf f).1 (idOf f).2)).getD {} = collected ((s.ofPacket (idOf f)).map pieceOf) := by
      rw [h.held]
      split
      · rename_i hnil
        rw [hnil]
        rfl
      · rfl
    rw [hold, map_append, ← collected_append]
    rfl
  have hl : ∀ x ∈ (s.ofPacket (idOf f) ++ [f]).map pieceOf, x ∈ pieces := by
    intro x hx
    obtain ⟨g, hg, rfl⟩ := List.mem_map.mp hx
    exact (hback g hg).1
  have hnone : (sent (idOf f)).payload = [] → s.ofPacket (idOf f) = [] := by
    intro hnil
    refine eq_nil_iff_forall_not_mem.mpr fun g hg => ?_
    obtain ⟨hmem, hid⟩ := mem_ofPacket.mp hg
    exact h.nonempty g hmem (hid ▸ hnil)
  have hempty : (sent (idOf f)).payload = [] → ((s.ofPacket (idOf f) ++ [f]).map pieceOf).length = 1 := by
    intro hnil
    rw [hnone hnil]
    rfl
  have hcomplete : Completes sent s f ↔ ∀ x ∈ pieces, x ∈ (s.ofPacket (idOf f) ++ [f]).map pieceOf := by
    constructor
    · rintro ⟨fragments, hfragments, hall⟩ x hx
      cases hpieces.symm.trans hfragments
      obtain ⟨-, hpiece, -⟩ := read_packetOf (sent (idOf f)).header (idOf f).2 (sent (idOf f)).small hcut hx
      rw [← hpiece]
      exact List.mem_map_of_mem (hall _ (List.mem_map_of_mem hx))
    · intro hall
      refine ⟨_, hpieces, fun g hg => ?_⟩
      obtain ⟨x, hx, rfl⟩ := List.mem_map.mp hg
      obtain ⟨k, hk, rfl⟩ := List.mem_map.mp (hall x hx)
      rw [← (hback k hk).2]
      exact hk
  have hnodup : ((s.ofPacket (idOf f) ++ [f]).map pieceOf).Nodup ↔ (s.ofPacket (idOf f) ++ [f]).Nodup := by
    refine ⟨Nodup.of_map _, fun hnodup => hnodup.map_on fun g hg k hk heq => ?_⟩
    rw [(hback g hg).2, (hback k hk).2, heq]
  have hiff := isEntire_iff (sent (idOf f)).small hcut hl hempty
  rw [← hcomplete, hnodup] at hiff
  obtain ⟨nextHeader, hprocess⟩ := process_eq (m := s.fragments) hread
  simp only [hadd] at hprocess
  -- the offsets add up just when every piece has come, and once
  by_cases hentire : (collected ((s.ofPacket (idOf f) ++ [f]).map pieceOf)).isEntire = true
  · have hboth := hiff.mp hentire
    have hpacket := getPacket_eq hcut (hcomplete.mp hboth.1) hl (hnodup.mpr hboth.2)
    rw [if_pos hentire, hpacket, Option.map_some] at hprocess
    refine ⟨⟨s.fragments.erase (fragmentKey (idOf f).1 (idOf f).2), s.withoutPacket (idOf f)⟩, _, ?_, h.erase (idOf f), .inl ⟨hboth, rfl⟩⟩
    simp only [machine, hprocess, Option.map_some, Bool.false_eq_true, if_false]
  · rw [if_neg hentire] at hprocess
    have hne : (sent (idOf f)).payload ≠ [] := by
      intro hnil
      have hcut' := hcut
      rw [hnil] at hcut'
      refine hentire (hiff.mpr ⟨hcomplete.mpr fun x hx => ?_, by rw [hnone hnil]; exact nodup_singleton f⟩)
      rw [hcut'.eq_of_nil hx (hback f hin).1]
      exact List.mem_map_of_mem hin
    refine ⟨_, [], ?_, h.insert hf hne, .inr ⟨mt hiff.mpr hentire, rfl⟩⟩
    simp only [machine, hprocess, Option.map_some, if_true]

theorem Inv.timeout (h : Inv sent s) {d : Ipv6PacketId} (hd : s.ofPacket d ≠ []) :
    ∃ s' out, machine.step s (.timeout d) = some (s', out) ∧ Inv sent s' := by
  have hfind := h.held d
  rw [if_neg hd] at hfind
  have hstep : handleFragmentsTimeout s.fragments (fragmentKey d.1 d.2) = some (s.fragments.erase (fragmentKey d.1 d.2)) := by
    rw [handleFragmentsTimeout, hfind]
    rfl
  exact ⟨_, _, congrArg (Option.map _) hstep, h.erase d⟩

/-- Any fragment that arrives is processed; the map then holds it too. -/
theorem Inv.step (h : Inv sent s) : ∀ e : Ipv6Event, Arrives sent s e → ∃ s' out, machine.step s e = some (s', out) ∧ Inv sent s'
  | .fragment f, he => by
    obtain ⟨s', out, hstep, hinv, -⟩ := h.fragment he
    exact ⟨s', out, hstep, hinv⟩
  | .timeout _, he => h.timeout he

end

theorem Inv.of_run {sent : Ipv6PacketId → Ipv6Datagram} {tr : List (Ipv6Event × List Bytes)} {s : Ipv6Reassembly}
    (hrun : Run machine (Arrives sent) {} tr s) : Inv sent s := by
  refine Run.invariant (fun _ s => Inv sent s) (inv_start sent) ?_ hrun
  intro tr s e s' out hinv he hstep
  obtain ⟨s₁, out₁, hstep₁, hinv₁⟩ := hinv.step e he
  cases hstep₁.symm.trans hstep
  exact hinv₁

/-- The payload is put out just when all fragments are there. -/
def Prompt (sent : Ipv6PacketId → Ipv6Datagram) (s : Ipv6Reassembly) (f : Ipv6Packet) : Prop :=
  ∃ s' out, machine.step s (.fragment f) = some (s', out) ∧
    (Completes sent s f → out = [(sent (idOf f)).payload]) ∧ (¬ Completes sent s f → out = [])

/-- **Fragmentation and reassembly.** Fragmentation ends, and its fragments fit and hold the
payload. In every run nothing is put out early, and a packet is put out once all its
fragments are there just when none of them arrived twice. -/
theorem noticed_iff (sent : Ipv6PacketId → Ipv6Datagram) {tr : List (Ipv6Event × List Bytes)} {s : Ipv6Reassembly}
    (hrun : Run machine (Arrives sent) {} tr s) {f : Ipv6Packet} (hf : FragmentOf sent f) :
    (Prompt sent s f ↔ (Completes sent s f → (s.ofPacket (idOf f) ++ [f]).Nodup)) ∧
      (∃ s' out, machine.step s (.fragment f) = some (s', out) ∧
        (out = [] ∨ out = [(sent (idOf f)).payload] ∧ Completes sent s f)) ∧
      ∀ d : Ipv6PacketId, ∃ pieces : List Ipv6Piece, getFragments (sent d).payload (sent d).header (sent d).maxFragmentSize d.2 =
          some (pieces.map (packetOf (sent d).header d.2)) ∧ (pieces.map Ipv6Piece.bytes).flatten = (sent d).payload ∧
        ∀ g ∈ pieces.map (packetOf (sent d).header d.2), (sent d).header.getSerializedSize + g.1.length ≤ (sent d).maxFragmentSize := by
  obtain ⟨s', out, hstep, -, hcases⟩ := (Inv.of_run hrun).fragment hf
  have hne : [(sent (idOf f)).payload] ≠ [] := by simp
  refine ⟨?_, ⟨s', out, hstep, ?_⟩, fun d => ?_⟩
  · constructor
    · rintro ⟨s₁, out₁, hstep₁, hput, -⟩ hcomplete
      cases hstep₁.symm.trans hstep
      rcases hcases with ⟨⟨-, hnodup⟩, -⟩ | ⟨-, hnone⟩
      · exact hnodup
      · rw [hput hcomplete] at hnone
        exact absurd hnone hne
    · intro hnodup
      refine ⟨s', out, hstep, fun hcomplete => ?_, fun hincomplete => ?_⟩
      · rcases hcases with ⟨-, hout⟩ | ⟨hnot, -⟩
        · exact hout
        · exact absurd ⟨hcomplete, hnodup hcomplete⟩ hnot
      · rcases hcases with ⟨⟨hcomplete, -⟩, -⟩ | ⟨-, hout⟩
        · exact absurd hcomplete hincomplete
        · exact hout
  · rcases hcases with ⟨⟨hcomplete, -⟩, hout⟩ | ⟨-, hout⟩
    · exact .inr ⟨hout, hcomplete⟩
    · exact .inl hout
  · obtain ⟨pieces, hpieces, hcut, hfits⟩ := exists_pieces sent d
    exact ⟨pieces, hpieces, hcut.bytes, hfits⟩

instance (sent : Ipv6PacketId → Ipv6Datagram) (f : Ipv6Packet) : Decidable (FragmentOf sent f) :=
  match h : getFragments (sent (idOf f)).payload (sent (idOf f)).header (sent (idOf f)).maxFragmentSize (idOf f).2 with
  | none => .isFalse fun ⟨_, hsome, _⟩ => by
    rw [h] at hsome
    cases hsome
  | some fragments => decidable_of_iff (f ∈ fragments) ⟨fun hf => ⟨fragments, h, hf⟩, fun ⟨_, hsome, hf⟩ => by
    rw [h] at hsome
    exact Option.some.inj hsome ▸ hf⟩

instance (sent : Ipv6PacketId → Ipv6Datagram) (s : Ipv6Reassembly) : (e : Ipv6Event) → Decidable (Arrives sent s e)
  | .fragment f => inferInstanceAs (Decidable (FragmentOf sent f))
  | .timeout d => inferInstanceAs (Decidable (s.ofPacket d ≠ []))

/-! ## A fragment that arrives twice -/

def sampleAddress (n : UInt8) : Ipv6Address := ⟨List.replicate 15 0 ++ [n], rfl⟩

def samplePacket (d : Ipv6PacketId) : Ipv6Datagram where
  payload := (List.range 16).map UInt8.ofNat
  header := ⟨0, 0, 16, 17, 64, d.1, sampleAddress 2⟩
  maxFragmentSize := 56
  small := by decide
  plain := rfl
  room := by decide
  maxFragmentSize_lt := by decide

def samplePiece (n : Nat) : Ipv6Piece :=
  ⟨((List.range 16).map UInt8.ofNat |>.drop (8 * n)).take 8, 8 * n, n = 0⟩

def sampleFragment (n : Nat) : Ipv6Packet := packetOf (samplePacket (sampleAddress 1, 7)).header 7 (samplePiece n)

theorem sampleFragment_zero : FragmentOf samplePacket (sampleFragment 0) := by
  decide +kernel

theorem sampleFragment_one : FragmentOf samplePacket (sampleFragment 1) := by
  decide +kernel

theorem secondFirst_isSome : (machine.exec (Arrives samplePacket) {} [.fragment (sampleFragment 1)]).isSome := by
  decide +kernel

/-- The second fragment arrives first. -/
theorem secondFirst_noticed : ∃ tr s, Run machine (Arrives samplePacket) {} tr s ∧ Completes samplePacket s (sampleFragment 0) ∧
    Prompt samplePacket s (sampleFragment 0) := by
  have hrun := run_of_isSome machine (Arrives samplePacket) {} _ secondFirst_isSome
  refine ⟨_, _, hrun, ⟨[sampleFragment 0, sampleFragment 1], by decide +kernel, by decide +kernel⟩, ?_⟩
  exact (noticed_iff samplePacket hrun sampleFragment_zero).1.mpr fun _ => by decide +kernel

theorem firstTwice_isSome : (machine.exec (Arrives samplePacket) {}
    [.fragment (sampleFragment 0), .fragment (sampleFragment 0)]).isSome := by
  decide +kernel

/-- **A duplicate prevents completion**: the first fragment twice, then the second. -/
theorem duplicate_missed : ∃ tr s, Run machine (Arrives samplePacket) {} tr s ∧ FragmentOf samplePacket (sampleFragment 1) ∧
    Completes samplePacket s (sampleFragment 1) ∧ ¬ Prompt samplePacket s (sampleFragment 1) := by
  have hrun := run_of_isSome machine (Arrives samplePacket) {} _ firstTwice_isSome
  have hcomplete : Completes samplePacket ((machine.exec (Arrives samplePacket) {}
      [.fragment (sampleFragment 0), .fragment (sampleFragment 0)]).get firstTwice_isSome).2 (sampleFragment 1) :=
    ⟨[sampleFragment 0, sampleFragment 1], by decide +kernel, by decide +kernel⟩
  refine ⟨_, _, hrun, sampleFragment_one, hcomplete, ?_⟩
  rintro ⟨s', out, hstep, hput, -⟩
  have hsilent : (machine.step ((machine.exec (Arrives samplePacket) {}
      [.fragment (sampleFragment 0), .fragment (sampleFragment 0)]).get firstTwice_isSome).2
        (.fragment (sampleFragment 1))).map Prod.snd = some [] := by
    decide +kernel
  rw [hstep, hput hcomplete] at hsilent
  exact absurd hsilent (by simp)

end Ipv6Reassembly

end Ns3
