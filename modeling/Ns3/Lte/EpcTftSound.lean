import Ns3.Lte.EpcTftClassifier

/-!
# Fragments go where their datagram goes

Datagrams come in any interleaving, and any of their fragments may be lost. Each
fragmented one begins with its first fragment, and no other with the same key
comes in between; a later one may have the key of one whose end was lost. The
last fragment takes the ports away, so no other may come after it.
-/

namespace Ns3

open Ipv4L3Protocol List

namespace ClassifiedPacket

def Whole (x : ClassifiedPacket) : Prop :=
  x.header.fragmentOffset = 0 ∧ x.header.isLastFragment = true ∧ x.header.payloadSize = x.payload.length

structure FragmentOf (x p : ClassifiedPacket) : Prop where
  direction : p.direction = x.direction
  tos : p.tos = x.tos
  datagram : p.header.datagram = x.header.datagram
  slice : SliceOf x.payload p.packet
  payloadSize : p.header.payloadSize = p.payload.length

abbrev InProgress := ClassifiedKey → Option ClassifiedPacket

def isFirst (p : ClassifiedPacket) : Bool := p.header.fragmentOffset = 0 && !p.header.isLastFragment

/-- The first fragment of a UDP or TCP datagram has the ports; the others belong to the datagram in progress. -/
def Allowed (g : InProgress) (x p : ClassifiedPacket) : Prop :=
  p.headerSize.isSome →
    (p.isFirst = true → p.hasPorts = true) ∧ (p.header.fragmentOffset ≠ 0 → g p.fragmentKey = some x)

instance (g : InProgress) (x p : ClassifiedPacket) : Decidable (Allowed g x p) :=
  inferInstanceAs (Decidable (_ → _))

/-- `ended` when nothing comes after the last fragment of a datagram. -/
def progress (ended : Bool) (g : InProgress) (x p : ClassifiedPacket) : InProgress :=
  if p.isFirst then Function.update g p.fragmentKey (some x)
  else if ended && p.header.fragmentOffset ≠ 0 && p.header.isLastFragment then Function.update g p.fragmentKey none
  else g

/-- Packets in the order they are classified, each with its datagram. -/
def Arrives (ended : Bool) : InProgress → List (ClassifiedPacket × ClassifiedPacket) → Prop
  | _, [] => True
  | g, (x, p) :: l => Allowed g x p ∧ Arrives ended (progress ended g x p) l

instance decidableArrives (ended : Bool) : (g : InProgress) → (l : List (ClassifiedPacket × ClassifiedPacket)) →
    Decidable (Arrives ended g l)
  | _, [] => .isTrue trivial
  | g, (x, p) :: l =>
    have := decidableArrives ended (progress ended g x p) l
    inferInstanceAs (Decidable (_ ∧ _))

variable {x p : ClassifiedPacket} {g : InProgress} {s : EpcTftClassifier}

theorem FragmentOf.fields (h : FragmentOf x p) : p.header.source = x.header.source ∧
    p.header.destination = x.header.destination ∧ p.header.identification = x.header.identification ∧
    p.header.protocol = x.header.protocol := by
  have hdatagram := h.datagram
  simp only [Ipv4Header.datagram, Prod.mk.injEq] at hdatagram
  exact hdatagram

theorem FragmentOf.headerSize (h : FragmentOf x p) : p.headerSize = x.headerSize := by
  obtain ⟨-, -, -, hprotocol⟩ := h.fields
  unfold ClassifiedPacket.headerSize
  rw [hprotocol]

theorem FragmentOf.info (h : FragmentOf x p) (ports : Nat × Nat) : p.info ports = x.info ports := by
  obtain ⟨hsource, hdestination, -, -⟩ := h.fields
  unfold ClassifiedPacket.info
  rw [h.direction, h.tos, hsource, hdestination]

theorem eight_le_headerSize {n : Nat} (h : p.headerSize = some n) : 8 ≤ n := by
  unfold ClassifiedPacket.headerSize at h
  split at h
  · exact (Option.some.inj h).le
  · split at h
    · rw [← Option.some.inj h]
      decide
    · cases h

theorem hasPorts_iff : p.hasPorts = true ↔ ∃ n, p.headerSize = some n ∧ n ≤ p.header.payloadSize := by
  simp [hasPorts, Option.any_eq_true]

theorem FragmentOf.ports (h : FragmentOf x p) (hx : x.Whole) (hfirst : p.header.fragmentOffset = 0)
    (hports : p.hasPorts = true) : x.hasPorts = true ∧ p.readPorts = x.readPorts := by
  obtain ⟨n, hn, hle⟩ := hasPorts_iff.mp hports
  have height := eight_le_headerSize hn
  have hbytes := h.slice.bytes
  have hstop := h.slice.stop
  have hzero : p.packet.2.fragmentOffset = 0 := hfirst
  rw [hzero, drop_zero] at hbytes
  rw [hzero, Nat.zero_add] at hstop
  have hlong : 8 ≤ p.packet.1.length := by
    have hsize := h.payloadSize
    unfold payload at hsize
    omega
  constructor
  · apply hasPorts_iff.mpr
    refine ⟨n, h.headerSize ▸ hn, ?_⟩
    rw [hx.2.2]
    exact (h.payloadSize ▸ hle).trans hstop
  · unfold readPorts payload
    rw [h.direction, hbytes, take_take, drop_take, take_take, Nat.min_eq_left (by omega), Nat.min_eq_left (by omega)]
    rfl

theorem FragmentOf.fragmentKey (h : FragmentOf x p) : p.fragmentKey = x.fragmentKey := by
  obtain ⟨hsource, hdestination, hidentification, hprotocol⟩ := h.fields
  unfold ClassifiedPacket.fragmentKey
  rw [hsource, hdestination, hidentification, hprotocol]

end ClassifiedPacket

namespace EpcTftClassifier

open ClassifiedPacket

variable {x p : ClassifiedPacket} {g : InProgress} {s : EpcTftClassifier}

/-- The ports of what is in progress are kept, and there are none of a protocol without ports. -/
structure Kept (g : InProgress) (s : EpcTftClassifier) : Prop where
  ports : ∀ x, x.headerSize.isSome → g x.fragmentKey = some x →
    x.hasPorts = true ∧ s.classifiedIpv4Fragments x.fragmentKey = some x.readPorts
  without : ∀ p : ClassifiedPacket, p.headerSize = none → s.classifiedIpv4Fragments p.fragmentKey = none

theorem hasPorts_of_none (h : x.headerSize = none) : x.hasPorts = false := by
  unfold hasPorts
  rw [h]
  rfl

theorem findPorts_snd (s : EpcTftClassifier) (p : ClassifiedPacket) : (s.findPorts p).2.classifiedIpv4Fragments =
    if p.isFirst ∧ p.hasPorts then Function.update s.classifiedIpv4Fragments p.fragmentKey (some p.readPorts)
    else if p.header.fragmentOffset ≠ 0 ∧ p.header.isLastFragment then
      Function.update s.classifiedIpv4Fragments p.fragmentKey none else s.classifiedIpv4Fragments := by
  unfold findPorts isFirst
  by_cases hoffset : p.header.fragmentOffset = 0
  · cases hports : p.hasPorts <;> cases hlast : p.header.isLastFragment <;> simp [hoffset, store]
  · cases hstored : s.classifiedIpv4Fragments p.fragmentKey with
    | none =>
      have hsame : Function.update s.classifiedIpv4Fragments p.fragmentKey none = s.classifiedIpv4Fragments := by
        rw [← hstored, Function.update_eq_self]
      simp [hoffset, hsame]
    | some ports => cases hlast : p.header.isLastFragment <;> simp [hoffset, store]

theorem headerSize_of_key {q : ClassifiedPacket} (h : q.fragmentKey = p.fragmentKey) : q.headerSize = p.headerSize := by
  simp only [ClassifiedPacket.fragmentKey, Prod.mk.injEq] at h
  unfold headerSize
  rw [h.2.2.1]

variable {s' : EpcTftClassifier}

theorem Kept.congr (h : Kept g s) (hsame : s'.classifiedIpv4Fragments = s.classifiedIpv4Fragments) : Kept g s' := by
  obtain ⟨hports, hnone⟩ := h
  rw [← hsame] at hports hnone
  exact ⟨hports, hnone⟩

theorem Kept.forget {key : ClassifiedKey} (h : Kept g s)
    (hmap : s'.classifiedIpv4Fragments = Function.update s.classifiedIpv4Fragments key none) :
    Kept (Function.update g key none) s' := by
  constructor
  · intro y hy hprogress
    by_cases hkey : y.fragmentKey = key
    · rw [hkey, Function.update_self] at hprogress
      cases hprogress
    · rw [Function.update_of_ne hkey] at hprogress
      rw [hmap, Function.update_of_ne hkey]
      exact h.ports y hy hprogress
  · intro q hq
    by_cases hkey : q.fragmentKey = key
    · rw [hmap, hkey, Function.update_self]
    · rw [hmap, Function.update_of_ne hkey]
      exact h.without q hq

theorem Kept.first (h : Kept g s) (hf : FragmentOf x p) (hx : x.Whole) (hallowed : Allowed g x p) (hfirst : p.isFirst = true) :
    Kept (progress true g x p) (s.classify p).2 := by
  have hmap := findPorts_snd s p
  have hoffset : p.header.fragmentOffset = 0 := by
    simp only [isFirst, Bool.and_eq_true, decide_eq_true_eq] at hfirst
    exact hfirst.1
  have hstored : ∀ k, k ≠ p.fragmentKey → (s.classify p).2.classifiedIpv4Fragments k = s.classifiedIpv4Fragments k := by
    intro k hk
    show (s.findPorts p).2.classifiedIpv4Fragments k = _
    rw [hmap]
    by_cases hports : p.hasPorts = true <;> simp [hfirst, hports, hoffset, hk]
  constructor
  · intro y hy hprogress
    unfold progress at hprogress
    rw [if_pos hfirst] at hprogress
    by_cases hkey : y.fragmentKey = p.fragmentKey
    · rw [hkey, Function.update_self] at hprogress
      cases hprogress
      have hports := (hallowed (hf.headerSize ▸ hy)).1 hfirst
      obtain ⟨hxports, hread⟩ := hf.ports hx hoffset hports
      refine ⟨hxports, ?_⟩
      show (s.findPorts p).2.classifiedIpv4Fragments _ = _
      rw [hmap, if_pos ⟨hfirst, hports⟩, hkey, Function.update_self, hread]
    · rw [Function.update_of_ne hkey] at hprogress
      rw [hstored _ hkey]
      exact h.ports y hy hprogress
  · intro q hq
    by_cases hkey : q.fragmentKey = p.fragmentKey
    · have hports : p.hasPorts = false := hasPorts_of_none ((headerSize_of_key hkey).symm.trans hq)
      show (s.findPorts p).2.classifiedIpv4Fragments _ = _
      rw [hmap]
      simpa [hports, hoffset] using h.without q hq
    · rw [hstored _ hkey]
      exact h.without q hq

theorem Kept.classify (h : Kept g s) (hf : FragmentOf x p) (hx : x.Whole) (hallowed : Allowed g x p) :
    Kept (progress true g x p) (s.classify p).2 := by
  by_cases hfirst : p.isFirst = true
  · exact h.first hf hx hallowed hfirst
  · have hmap := findPorts_snd s p
    rw [if_neg fun hboth => hfirst hboth.1] at hmap
    unfold progress
    rw [if_neg hfirst]
    by_cases hend : p.header.fragmentOffset ≠ 0 ∧ p.header.isLastFragment = true
    · rw [if_pos hend] at hmap
      have hended : (true && decide (p.header.fragmentOffset ≠ 0) && p.header.isLastFragment) = true := by simpa using hend
      rw [if_pos hended]
      exact h.forget hmap
    · rw [if_neg hend] at hmap
      have hended : ¬ (true && decide (p.header.fragmentOffset ≠ 0) && p.header.isLastFragment) = true := by simpa using hend
      rw [if_neg hended]
      exact h.congr hmap

def datagramTo (port fill : UInt8) : ClassifiedPacket where
  direction := .UPLINK
  tos := 0
  packet := ([0, 9, 0, port, 0, 24, 0, 0] ++ List.replicate 16 fill,
    { source := 1, destination := 2, identification := 3, protocol := 17, payloadSize := 24 })

def piece (x : ClassifiedPacket) (offset stop : Nat) : ClassifiedPacket :=
  { x with packet := ((x.payload.drop offset).take (stop - offset),
      { x.header with fragmentOffset := offset, payloadSize := stop - offset, moreFragments := stop < 24 }) }

/-- The second part comes after the third: it has no ports any more. -/
def reordered : List (ClassifiedPacket × ClassifiedPacket) :=
  [(datagramTo 7 0, piece (datagramTo 7 0) 0 8), (datagramTo 7 0, piece (datagramTo 7 0) 16 24),
    (datagramTo 7 0, piece (datagramTo 7 0) 8 16)]

end EpcTftClassifier

end Ns3
