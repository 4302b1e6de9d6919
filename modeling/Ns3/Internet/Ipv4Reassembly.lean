import Mathlib.Data.List.Induction
import Mathlib.Data.List.TakeWhile
import Mathlib.Data.Prod.Lex
import Ns3.Lib.Fold
import Ns3.Lib.Machine
import Ns3.Lib.OrdMap
import Ns3.Internet.Ipv4Fragmentation

/-!
# Reassembly of IPv4 fragments

`ProcessFragment` keeps the fragments of each datagram in the order of their
offsets, a later one behind an earlier one with the same offset, and a flag: did
the fragment that is last in that order say that more fragments follow? A
datagram is entire when the flag is off and no byte is missing.

Beside the map stand the fragments that arrived since their datagram was last
reassembled or given up. Fragments of different fragmentations of one datagram
may mix. Then the fragment that is last by its offset need not be one that ends
the datagram, and an entire datagram is not noticed.
-/

namespace Ns3

open Machine List

/-- `m_moreFragment` and `m_fragments`: each fragment with its offset. -/
structure Fragments where
  moreFragment : Bool := false
  fragments : List (Bytes × Nat) := []

namespace Fragments

def addFragment (fr : Fragments) (fragment : Bytes) (fragmentOffset : Nat) (moreFragment : Bool) : Fragments :=
  let before := fr.fragments.takeWhile (·.2 ≤ fragmentOffset)
  let after := fr.fragments.dropWhile (·.2 ≤ fragmentOffset)
  { moreFragment := if after = [] then moreFragment else fr.moreFragment
    fragments := before ++ (fragment, fragmentOffset) :: after }

def contiguous : Nat → List (Bytes × Nat) → Bool
  | _, [] => true
  | lastEndOffset, x :: l =>
    if lastEndOffset < x.2 then false else contiguous (max lastEndOffset (uint16 (x.1.length + x.2))) l

def isEntire (fr : Fragments) : Bool :=
  !fr.moreFragment && decide (0 < fr.fragments.length) && contiguous 0 fr.fragments

/-- A round of the loop of `GetPacket`: what is new of a fragment goes behind. -/
def join (p : Bytes) (x : Bytes × Nat) : Bytes :=
  let lastEndOffset := uint16 p.length
  if x.2 < lastEndOffset then
    let newStart := lastEndOffset - x.2
    if newStart < x.1.length then p ++ (x.1.drop newStart).take (x.1.length - newStart) else p
  else p ++ x.1

def getPacket (fr : Fragments) : Option Bytes :=
  match fr.fragments with
  | [] => none
  | x :: l => some (l.foldl join x.1)

end Fragments

abbrev FragmentKey := Nat ×ₗ Nat

namespace Ipv4L3Protocol

def fragmentKey (h : Ipv4Header) : FragmentKey :=
  toLex (h.source.toNat <<< 32 ||| h.destination.toNat, h.identification.toNat <<< 16 ||| h.protocol.toNat)

/-- The map after a fragment, and the packet when it returns true. -/
def processFragment (m : OrdMap FragmentKey Fragments) (f : Ipv4Packet) :
    Option (OrdMap FragmentKey Fragments × Option Bytes) :=
  let fr := ((m.find (fragmentKey f.2)).getD {}).addFragment f.1 f.2.fragmentOffset (!f.2.isLastFragment)
  if fr.isEntire then fr.getPacket.map fun packet => (m.erase (fragmentKey f.2), some packet)
  else some (m.insert (fragmentKey f.2) fr, none)

def handleFragmentsTimeout (m : OrdMap FragmentKey Fragments) (h : Ipv4Header) : Option (OrdMap FragmentKey Fragments) :=
  (m.find (fragmentKey h)).map fun _ => m.erase (fragmentKey h)

end Ipv4L3Protocol

structure Ipv4Reassembly where
  fragments : OrdMap FragmentKey Fragments := .empty
  arrived : List Ipv4Packet := []

inductive Ipv4Event where
  | fragment (f : Ipv4Packet)
  | timeout (h : Ipv4Header)

namespace Ipv4Reassembly

open Ipv4L3Protocol

abbrev DatagramId := UInt32 × UInt32 × UInt16 × UInt8

def ofDatagram (s : Ipv4Reassembly) (d : DatagramId) : List Ipv4Packet := s.arrived.filter (·.2.datagram = d)

def withoutDatagram (s : Ipv4Reassembly) (d : DatagramId) : List Ipv4Packet := s.arrived.filter (·.2.datagram ≠ d)

/-- A packet put out is one that `ProcessFragment` returns true with. -/
def machine : Machine Ipv4Reassembly Ipv4Event Bytes where
  step s
    | .fragment f =>
      (processFragment s.fragments f).map fun r =>
        match r.2 with
        | none => (⟨r.1, s.arrived ++ [f]⟩, [])
        | some packet => (⟨r.1, s.withoutDatagram f.2.datagram⟩, [packet])
    | .timeout h => (handleFragmentsTimeout s.fragments h).map fun m => (⟨m, s.withoutDatagram h.datagram⟩, [])

/-- Fragments of the datagrams arrive, in any order, and what has arrived of a
datagram may be given up. -/
def Arrives (payloadOf : DatagramId → Bytes) (s : Ipv4Reassembly) : Ipv4Event → Prop
  | .fragment f => Produced (payloadOf f.2.datagram) f
  | .timeout h => s.ofDatagram h.datagram ≠ []

/-- Every byte is in a fragment, and so is the end of the datagram. -/
def Complete (payload : Bytes) (l : List Ipv4Packet) : Prop :=
  (∀ i < payload.length, ∃ f ∈ l, f.2.fragmentOffset ≤ i ∧ i < f.2.fragmentOffset + f.1.length) ∧
    ∃ f ∈ l, f.2.moreFragments = false

instance (payload : Bytes) (l : List Ipv4Packet) : Decidable (Complete payload l) := inferInstanceAs (Decidable (_ ∧ _))

/-- A fragment that ends the datagram is behind all that came before it and in
front of none that came after it. -/
def EndsLast (l : List Ipv4Packet) : Prop :=
  ∃ before f after, l = before ++ f :: after ∧ f.2.moreFragments = false ∧
    (∀ g ∈ before, g.2.fragmentOffset ≤ f.2.fragmentOffset) ∧ ∀ g ∈ after, g.2.fragmentOffset < f.2.fragmentOffset

end Ipv4Reassembly

/-! ## The list of fragments -/

namespace Fragments

def piece (f : Ipv4Packet) : Bytes × Nat := (f.1, f.2.fragmentOffset)

def collect (l : List Ipv4Packet) : Fragments :=
  l.foldl (fun fr f => fr.addFragment f.1 f.2.fragmentOffset (!f.2.isLastFragment)) {}

theorem collect_append (l : List Ipv4Packet) (f : Ipv4Packet) :
    collect (l ++ [f]) = (collect l).addFragment f.1 f.2.fragmentOffset f.2.moreFragments := by
  simp [collect, Ipv4Header.isLastFragment]

theorem addFragment_perm (fr : Fragments) (fragment : Bytes) (offset : Nat) (more : Bool) :
    (fr.addFragment fragment offset more).fragments.Perm ((fragment, offset) :: fr.fragments) := by
  have h : Perm (fr.fragments.takeWhile (·.2 ≤ offset) ++ (fragment, offset) :: fr.fragments.dropWhile (·.2 ≤ offset))
      ((fragment, offset) :: (fr.fragments.takeWhile (·.2 ≤ offset) ++ fr.fragments.dropWhile (·.2 ≤ offset))) :=
    perm_middle
  rw [takeWhile_append_dropWhile] at h
  exact h

def Sorted (l : List (Bytes × Nat)) : Prop := l.Pairwise fun x y => x.2 ≤ y.2

theorem addFragment_sorted {fr : Fragments} (h : Sorted fr.fragments) (fragment : Bytes) (offset : Nat) (more : Bool) :
    Sorted (fr.addFragment fragment offset more).fragments := by
  have hbefore : ∀ x ∈ fr.fragments.takeWhile (·.2 ≤ offset), x.2 ≤ offset := by
    intro x hx
    simpa using mem_takeWhile_imp hx
  have hsplit := h
  rw [← takeWhile_append_dropWhile (p := fun x : Bytes × Nat => decide (x.2 ≤ offset)) (l := fr.fragments), Sorted,
    pairwise_append] at hsplit
  obtain ⟨h₁, h₂, h₃⟩ := hsplit
  have hafter : ∀ x ∈ fr.fragments.dropWhile (·.2 ≤ offset), offset ≤ x.2 := by
    intro x hx
    have hnot := dropWhile_sorted (q := fun x : Bytes × Nat => decide (x.2 ≤ offset)) h (fun a _ b _ hab hb => by
      have hb' : b.2 ≤ offset := by simpa using hb
      simpa using Nat.le_trans hab hb') x hx
    have hlt : offset < x.2 := by simpa using hnot
    exact hlt.le
  refine pairwise_append.mpr ⟨h₁, pairwise_cons.mpr ⟨hafter, h₂⟩, fun x hx y hy => ?_⟩
  rcases mem_cons.mp hy with rfl | hy
  · exact hbefore x hx
  · exact h₃ x hx y hy

theorem collect_perm (l : List Ipv4Packet) : (collect l).fragments.Perm (l.map piece) := by
  induction l using reverseRecOn with
  | nil => exact Perm.refl _
  | append_singleton l f ih =>
    rw [collect_append, map_append]
    exact (addFragment_perm _ _ _ _).trans ((ih.cons _).trans (perm_append_singleton _ _).symm)

theorem collect_sorted (l : List Ipv4Packet) : Sorted (collect l).fragments := by
  induction l using reverseRecOn with
  | nil => exact List.Pairwise.nil
  | append_singleton l f ih =>
    rw [collect_append]
    exact addFragment_sorted ih _ _ _

theorem mem_collect {l : List Ipv4Packet} {x : Bytes × Nat} : x ∈ (collect l).fragments ↔ ∃ f ∈ l, piece f = x := by
  rw [(collect_perm l).mem_iff, List.mem_map]

theorem collect_moreFragment (l : List Ipv4Packet) (f : Ipv4Packet) : (collect (l ++ [f])).moreFragment =
    if ∀ g ∈ l, g.2.fragmentOffset ≤ f.2.fragmentOffset then f.2.moreFragments else (collect l).moreFragment := by
  have hiff : (collect l).fragments.dropWhile (·.2 ≤ f.2.fragmentOffset) = [] ↔
      ∀ g ∈ l, g.2.fragmentOffset ≤ f.2.fragmentOffset := by
    rw [dropWhile_eq_nil_iff]
    constructor
    · intro h g hg
      exact of_decide_eq_true (h (piece g) (mem_collect.mpr ⟨g, hg, rfl⟩))
    · intro h x hx
      obtain ⟨g, hg, rfl⟩ := mem_collect.mp hx
      exact decide_eq_true (h g hg)
  rw [collect_append, addFragment]
  simp only [hiff]

/-! ## Entire datagrams -/

open Ipv4L3Protocol Ipv4Reassembly

theorem endsLast_iff (l : List Ipv4Packet) : EndsLast l ↔ (collect l).moreFragment = false ∧ l ≠ [] := by
  induction l using reverseRecOn with
  | nil =>
    constructor
    · rintro ⟨before, f, after, hl, -⟩
      cases before <;> cases hl
    · rintro ⟨-, hne⟩
      exact absurd rfl hne
  | append_singleton l f ih =>
    have hne : l ++ [f] ≠ [] := by simp
    rw [collect_moreFragment]
    by_cases hall : ∀ g ∈ l, g.2.fragmentOffset ≤ f.2.fragmentOffset
    · rw [if_pos hall]
      constructor
      · rintro ⟨before, x, after, hl, hlast, -, hafter⟩
        refine ⟨?_, hne⟩
        rcases eq_nil_or_concat after with rfl | ⟨after', y, rfl⟩
        · obtain ⟨-, hx⟩ := append_inj' hl rfl
          cases hx
          exact hlast
        · rw [concat_eq_append, ← cons_append, ← append_assoc] at hl
          obtain ⟨rfl, hy⟩ := append_inj' hl rfl
          cases hy
          have h₁ := hall x (by simp)
          have h₂ := hafter f (by simp)
          omega
      · rintro ⟨hlast, -⟩
        exact ⟨l, f, [], rfl, hlast, hall, by simp⟩
    · rw [if_neg hall]
      simp only [not_forall, Nat.not_le] at hall
      obtain ⟨g, hg, hlt⟩ := hall
      have hl' : l ≠ [] := ne_nil_of_mem hg
      rw [← and_congr_right_iff.mpr fun _ => (iff_of_true hl' hne), ← ih]
      constructor
      · rintro ⟨before, x, after, hl, hlast, hbefore, hafter⟩
        rcases eq_nil_or_concat after with rfl | ⟨after', y, rfl⟩
        · obtain ⟨rfl, hx⟩ := append_inj' hl rfl
          cases hx
          have := hbefore g hg
          omega
        · rw [concat_eq_append, ← cons_append, ← append_assoc] at hl
          obtain ⟨rfl, hy⟩ := append_inj' hl rfl
          exact ⟨before, x, after', rfl, hlast, hbefore, fun z hz => hafter z (by simp [hz])⟩
      · rintro ⟨before, x, after, rfl, hlast, hbefore, hafter⟩
        refine ⟨before, x, after ++ [f], by simp, hlast, hbefore, fun z hz => ?_⟩
        rcases mem_append.mp hz with hz | hz
        · exact hafter z hz
        · obtain rfl := mem_singleton.mp hz
          rcases mem_append.mp hg with hg | hg
          · have := hbefore g hg
            omega
          · rcases mem_cons.mp hg with rfl | hg
            · exact hlt
            · have := hafter g hg
              omega

def Covers (x : Bytes × Nat) (i : Nat) : Prop := x.2 ≤ i ∧ i < x.2 + x.1.length

theorem contiguous_covers : ∀ (l : List (Bytes × Nat)) (e : Nat), (∀ x ∈ l, x.2 + x.1.length < 65536) →
    contiguous e l = true → ∀ i, e ≤ i → (∃ x ∈ l, i < x.2 + x.1.length) → ∃ y ∈ l, Covers y i
  | [], _, _, _, _, _, ⟨x, hx, _⟩ => by cases hx
  | x :: l, e, hsmall, h, i, hi, ⟨y, hy, hlt⟩ => by
    have hend : uint16 (x.1.length + x.2) = x.1.length + x.2 := by
      have := hsmall x mem_cons_self
      exact uint16_of_lt (n := x.1.length + x.2) (by omega)
    rw [contiguous, hend] at h
    split at h
    · cases h
    · by_cases hix : i < x.2 + x.1.length
      · exact ⟨x, mem_cons_self, by omega, hix⟩
      · rcases mem_cons.mp hy with rfl | hy
        · exact absurd hlt hix
        · obtain ⟨z, hz, hcover⟩ := contiguous_covers l _ (fun z hz => hsmall z (mem_cons_of_mem _ hz)) h i (by omega)
            ⟨y, hy, hlt⟩
          exact ⟨z, mem_cons_of_mem _ hz, hcover⟩

theorem contiguous_of_covers : ∀ (l : List (Bytes × Nat)) (e : Nat), (∀ x ∈ l, x.2 + x.1.length < 65536) → Sorted l →
    (∀ i, e ≤ i → (∃ x ∈ l, i < x.2) → ∃ y ∈ l, Covers y i) → contiguous e l = true
  | [], _, _, _, _ => rfl
  | x :: l, e, hsmall, hsorted, h => by
    obtain ⟨hx, hl⟩ := pairwise_cons.mp hsorted
    have hend : uint16 (x.1.length + x.2) = x.1.length + x.2 := by
      have := hsmall x mem_cons_self
      exact uint16_of_lt (n := x.1.length + x.2) (by omega)
    have hle : ¬ e < x.2 := by
      intro hlt
      obtain ⟨y, hy, hcover⟩ := h e (Nat.le_refl e) ⟨x, mem_cons_self, hlt⟩
      have hle := hcover.1
      rcases mem_cons.mp hy with rfl | hy
      · omega
      · have := hx y hy
        omega
    rw [contiguous, hend, if_neg hle]
    refine contiguous_of_covers l _ (fun z hz => hsmall z (mem_cons_of_mem _ hz)) hl fun i hi hz => ?_
    obtain ⟨z, hz, hlt⟩ := hz
    obtain ⟨y, hy, hcover⟩ := h i (by omega) ⟨z, mem_cons_of_mem _ hz, hlt⟩
    have hlt' := hcover.2
    rcases mem_cons.mp hy with rfl | hy
    · omega
    · exact ⟨y, hy, hcover⟩

section
variable {payload : Bytes} {l : List Ipv4Packet}

theorem small (hbound : payload.length ≤ 65515) (hl : ∀ f ∈ l, SliceOf payload f) :
    ∀ x ∈ (collect l).fragments, x.2 + x.1.length < 65536 := by
  intro x hx
  obtain ⟨f, hf, rfl⟩ := mem_collect.mp hx
  have := (hl f hf).stop
  simp only [piece]
  omega

/-- **When a datagram is taken for entire.** -/
theorem isEntire_iff (hbound : payload.length ≤ 65515) (hl : ∀ f ∈ l, SliceOf payload f) :
    (collect l).isEntire = true ↔ Complete payload l ∧ EndsLast l := by
  have hlength : 0 < (collect l).fragments.length ↔ l ≠ [] := by
    rw [(collect_perm l).length_eq, length_map, length_pos_iff]
  rw [isEntire, Bool.and_eq_true, Bool.and_eq_true, Bool.not_eq_true', decide_eq_true_eq, hlength, ← endsLast_iff]
  constructor
  · rintro ⟨hlast, hcontiguous⟩
    refine ⟨⟨fun i hi => ?_, ?_⟩, hlast⟩
    · obtain ⟨before, f, after, rfl, hmore, -⟩ := hlast
      have hstop := (hl f (by simp)).last hmore
      obtain ⟨y, hy, hcover⟩ := contiguous_covers _ 0 (small hbound hl) hcontiguous i (Nat.zero_le i)
        ⟨piece f, mem_collect.mpr ⟨f, by simp, rfl⟩, by simp only [piece]; omega⟩
      obtain ⟨g, hg, rfl⟩ := mem_collect.mp hy
      exact ⟨g, hg, hcover⟩
    · obtain ⟨before, f, after, rfl, hmore, -⟩ := hlast
      exact ⟨f, by simp, hmore⟩
  · rintro ⟨hcomplete, hlast⟩
    refine ⟨hlast, contiguous_of_covers _ 0 (small hbound hl) (collect_sorted l) fun i _ hx => ?_⟩
    obtain ⟨x, hx, hlt⟩ := hx
    obtain ⟨f, hf, rfl⟩ := mem_collect.mp hx
    have hstop := (hl f hf).stop
    simp only [piece] at hlt
    obtain ⟨g, hg, hcover⟩ := hcomplete.1 i (by omega)
    exact ⟨piece g, mem_collect.mpr ⟨g, hg, rfl⟩, hcover⟩

theorem join_take (hbound : payload.length ≤ 65515) {e : Nat} {x : Bytes × Nat} (he : e ≤ payload.length)
    (hx : x.1 = (payload.drop x.2).take x.1.length) (hle : x.2 ≤ e) :
    join (payload.take e) x = payload.take (max e (x.1.length + x.2)) := by
  have hlength : uint16 ((payload.take e).length : Nat) = e := by
    rw [length_take, Nat.min_eq_left he]
    exact uint16_of_lt (by omega)
  have hjoin : ∀ n, (payload.take e) ++ (payload.drop e).take n = payload.take (e + n) := fun n => (take_add).symm
  simp only [join, hlength]
  by_cases hlt : x.2 < e
  · rw [if_pos hlt]
    by_cases hnew : e - x.2 < x.1.length
    · have hrest : (x.1.drop (e - x.2)).take (x.1.length - (e - x.2)) = (payload.drop e).take (x.1.length - (e - x.2)) := by
        have hcut : x.1.drop (e - x.2) = (payload.drop e).take (x.1.length - (e - x.2)) := by
          rw [hx, drop_take, drop_drop, ← hx, show x.2 + (e - x.2) = e by omega]
        rw [hcut, take_take, Nat.min_self]
      rw [if_pos hnew, hrest, hjoin]
      congr 1
      omega
    · rw [if_neg hnew, Nat.max_eq_left (by omega)]
  · obtain rfl : x.2 = e := by omega
    rw [if_neg hlt, hx, hjoin, ← hx]
    congr 1
    omega

theorem foldl_join (hbound : payload.length ≤ 65515) : ∀ (xs : List (Bytes × Nat)) (e : Nat), e ≤ payload.length →
    (∀ x ∈ xs, x.1 = (payload.drop x.2).take x.1.length ∧ x.2 + x.1.length ≤ payload.length) → contiguous e xs = true →
    ∃ e' ≤ payload.length, xs.foldl join (payload.take e) = payload.take e' ∧ e ≤ e' ∧ ∀ x ∈ xs, x.2 + x.1.length ≤ e'
  | [], e, he, _, _ => ⟨e, he, rfl, Nat.le_refl e, by simp⟩
  | x :: xs, e, he, hxs, h => by
    obtain ⟨hx, hstop⟩ := hxs x mem_cons_self
    have hend : uint16 (x.1.length + x.2) = x.1.length + x.2 := uint16_of_lt (n := x.1.length + x.2) (by omega)
    rw [contiguous, hend] at h
    split at h
    · cases h
    · obtain ⟨e', he', hfold, hlo, hall⟩ := foldl_join hbound xs (max e (x.1.length + x.2)) (by omega)
        (fun y hy => hxs y (mem_cons_of_mem _ hy)) h
      rw [foldl_cons, join_take hbound he hx (by omega)]
      refine ⟨e', he', hfold, by omega, fun y hy => ?_⟩
      rcases mem_cons.mp hy with rfl | hy
      · omega
      · exact hall y hy

theorem getPacket_eq (hbound : payload.length ≤ 65515) (hl : ∀ f ∈ l, SliceOf payload f)
    (hentire : (collect l).isEntire = true) : (collect l).getPacket = some payload := by
  obtain ⟨-, f, hf, hlast⟩ := ((isEntire_iff hbound hl).mp hentire).1
  have hstop := (hl f hf).last hlast
  have hslices : ∀ x ∈ (collect l).fragments,
      x.1 = (payload.drop x.2).take x.1.length ∧ x.2 + x.1.length ≤ payload.length := by
    intro x hx
    obtain ⟨g, hg, rfl⟩ := mem_collect.mp hx
    exact ⟨(hl g hg).bytes, (hl g hg).stop⟩
  have hmem : piece f ∈ (collect l).fragments := mem_collect.mpr ⟨f, hf, rfl⟩
  rw [isEntire, Bool.and_eq_true] at hentire
  have hcontiguous := hentire.2
  rw [getPacket]
  cases hxs : (collect l).fragments with
  | nil =>
    rw [hxs] at hmem
    cases hmem
  | cons x xs =>
    rw [hxs] at hslices hmem hcontiguous
    obtain ⟨hx, hend⟩ := hslices x mem_cons_self
    have hend' : uint16 (x.1.length + x.2) = x.1.length + x.2 := uint16_of_lt (n := x.1.length + x.2) (by omega)
    rw [contiguous, hend'] at hcontiguous
    split at hcontiguous
    · cases hcontiguous
    · obtain ⟨e, he, hfold, hlo, hall⟩ := foldl_join hbound xs (x.1.length + x.2) (by omega)
        (fun y hy => hslices y (mem_cons_of_mem _ hy)) (by rwa [Nat.zero_max] at hcontiguous)
      have hfirst : payload.take (x.1.length + x.2) = x.1 := by
        rw [show x.2 = 0 by omega, drop_zero] at hx
        rw [show x.2 = 0 by omega]
        exact hx.symm
      rw [hfirst] at hfold
      have hreached : payload.length ≤ e := by
        rcases mem_cons.mp hmem with hmem | hmem
        · rw [← hmem] at hlo
          simp only [piece] at hlo
          omega
        · have := hall _ hmem
          simp only [piece] at this
          omega
      show some (xs.foldl join x.1) = some payload
      rw [hfold, take_of_length_le hreached]

end

end Fragments

/-! ## Every run -/

namespace Ipv4L3Protocol

theorem fragmentKey_inj {h h' : Ipv4Header} : fragmentKey h = fragmentKey h' ↔ h.datagram = h'.datagram := by
  have hor : ∀ a b k : Nat, b < 2 ^ k → a <<< k ||| b = a * 2 ^ k + b := by
    intro a b k hb
    rw [← Nat.shiftLeft_add_eq_or_of_lt hb, Nat.shiftLeft_eq]
  have h₁ := h.destination.toNat_lt
  have h₂ := h'.destination.toNat_lt
  have h₃ := h.protocol.toNat_lt
  have h₄ := h'.protocol.toNat_lt
  simp only [fragmentKey, Ipv4Header.datagram, EmbeddingLike.apply_eq_iff_eq, Prod.mk.injEq]
  rw [hor _ _ 32 h₁, hor _ _ 32 h₂, hor _ _ 16 (by omega), hor _ _ 16 (by omega), ← UInt32.toNat_inj, ← UInt32.toNat_inj,
    ← UInt16.toNat_inj, ← UInt8.toNat_inj]
  omega

end Ipv4L3Protocol

namespace Ipv4Reassembly

open Ipv4L3Protocol Fragments

/-- The map holds what arrived of each datagram. -/
structure Inv (payloadOf : DatagramId → Bytes) (s : Ipv4Reassembly) : Prop where
  slices : ∀ f ∈ s.arrived, SliceOf (payloadOf f.2.datagram) f
  held : ∀ h, s.fragments.find (fragmentKey h) =
    if s.ofDatagram h.datagram = [] then none else some (collect (s.ofDatagram h.datagram))

theorem inv_start (payloadOf : DatagramId → Bytes) : Inv payloadOf {} where
  slices := by simp
  held := by
    intro h
    rfl

section
variable {payloadOf : DatagramId → Bytes} {s : Ipv4Reassembly}

theorem Inv.sliceOf (h : Inv payloadOf s) {d : DatagramId} {f : Ipv4Packet} (hf : f ∈ s.ofDatagram d) :
    SliceOf (payloadOf d) f := by
  obtain ⟨hmem, hd⟩ := mem_filter.mp hf
  rw [decide_eq_true_eq] at hd
  rw [← hd]
  exact h.slices f hmem

theorem Inv.erase (h : Inv payloadOf s) (x : Ipv4Header) :
    Inv payloadOf ⟨s.fragments.erase (fragmentKey x), s.withoutDatagram x.datagram⟩ := by
  refine ⟨fun f hf => h.slices f (mem_of_mem_filter hf), fun y => ?_⟩
  rw [OrdMap.find_erase, h.held y]
  simp only [fragmentKey_inj]
  have hof : ofDatagram ⟨s.fragments.erase (fragmentKey x), s.withoutDatagram x.datagram⟩ y.datagram =
      if y.datagram = x.datagram then [] else s.ofDatagram y.datagram := by
    rw [ofDatagram, withoutDatagram, List.filter_filter, ofDatagram]
    split
    · rename_i heq
      rw [filter_eq_nil_iff, heq]
      simp
    · rename_i hne
      refine filter_congr fun f _ => ?_
      by_cases hf : f.2.datagram = y.datagram
      · simp [hf, hne]
      · simp [hf]
  rw [hof]
  split
  · rw [if_pos rfl]
  · rfl

theorem Inv.insert (h : Inv payloadOf s) {f : Ipv4Packet} (hf : SliceOf (payloadOf f.2.datagram) f) :
    Inv payloadOf ⟨s.fragments.insert (fragmentKey f.2) (collect (s.ofDatagram f.2.datagram ++ [f])), s.arrived ++ [f]⟩ := by
  refine ⟨fun g hg => ?_, fun y => ?_⟩
  · rcases mem_append.mp hg with hg | hg
    · exact h.slices g hg
    · rw [mem_singleton.mp hg]
      exact hf
  · have hof : ofDatagram ⟨s.fragments.insert (fragmentKey f.2) (collect (s.ofDatagram f.2.datagram ++ [f])), s.arrived ++ [f]⟩
        y.datagram = s.ofDatagram y.datagram ++ if y.datagram = f.2.datagram then [f] else [] := by
      rw [ofDatagram, filter_append, ofDatagram]
      by_cases hy : y.datagram = f.2.datagram
      · simp [hy]
      · simp [hy, Ne.symm hy]
    rw [OrdMap.find_insert, h.held y, hof]
    simp only [fragmentKey_inj]
    by_cases hy : y.datagram = f.2.datagram
    · rw [if_pos hy, if_pos hy, if_neg (by simp), hy]
    · rw [if_neg hy, if_neg hy, append_nil]

theorem Inv.fragment (h : Inv payloadOf s) (hbound : ∀ d, (payloadOf d).length ≤ 65515) {f : Ipv4Packet}
    (hf : SliceOf (payloadOf f.2.datagram) f) :
    ∃ s' out, machine.step s (.fragment f) = some (s', out) ∧ Inv payloadOf s' ∧
      ((Complete (payloadOf f.2.datagram) (s.ofDatagram f.2.datagram ++ [f]) ∧ EndsLast (s.ofDatagram f.2.datagram ++ [f])) ∧
          out = [payloadOf f.2.datagram] ∨
        ¬ (Complete (payloadOf f.2.datagram) (s.ofDatagram f.2.datagram ++ [f]) ∧ EndsLast (s.ofDatagram f.2.datagram ++ [f])) ∧
          out = [] ∧ s'.arrived = s.arrived ++ [f]) := by
  have hslices : ∀ g ∈ s.ofDatagram f.2.datagram ++ [f], SliceOf (payloadOf f.2.datagram) g := by
    intro g hg
    rcases mem_append.mp hg with hg | hg
    · exact h.sliceOf hg
    · rw [mem_singleton.mp hg]
      exact hf
  have hadd : ((s.fragments.find (fragmentKey f.2)).getD {}).addFragment f.1 f.2.fragmentOffset (!f.2.isLastFragment) =
      collect (s.ofDatagram f.2.datagram ++ [f]) := by
    have hold : (s.fragments.find (fragmentKey f.2)).getD {} = collect (s.ofDatagram f.2.datagram) := by
      rw [h.held]
      split
      · rename_i hnil
        rw [hnil]
        rfl
      · rfl
    rw [hold, collect_append, Ipv4Header.isLastFragment, Bool.not_not]
  have hiff := isEntire_iff (hbound f.2.datagram) hslices
  by_cases hentire : (collect (s.ofDatagram f.2.datagram ++ [f])).isEntire = true
  · have hstep : processFragment s.fragments f =
        some (s.fragments.erase (fragmentKey f.2), some (payloadOf f.2.datagram)) := by
      simp only [processFragment, hadd]
      rw [if_pos hentire, getPacket_eq (hbound f.2.datagram) hslices hentire]
      rfl
    exact ⟨_, _, congrArg (Option.map _) hstep, h.erase f.2, .inl ⟨hiff.mp hentire, rfl⟩⟩
  · have hstep : processFragment s.fragments f =
        some (s.fragments.insert (fragmentKey f.2) (collect (s.ofDatagram f.2.datagram ++ [f])), none) := by
      simp only [processFragment, hadd]
      rw [if_neg hentire]
    exact ⟨_, _, congrArg (Option.map _) hstep, h.insert hf, .inr ⟨mt hiff.mpr hentire, rfl, rfl⟩⟩

theorem Inv.timeout (h : Inv payloadOf s) {x : Ipv4Header} (hx : s.ofDatagram x.datagram ≠ []) :
    ∃ s' out, machine.step s (.timeout x) = some (s', out) ∧ Inv payloadOf s' := by
  have hfind := h.held x
  rw [if_neg hx] at hfind
  have hstep : handleFragmentsTimeout s.fragments x = some (s.fragments.erase (fragmentKey x)) := by
    rw [handleFragmentsTimeout, hfind]
    rfl
  exact ⟨_, _, congrArg (Option.map _) hstep, h.erase x⟩

/-- Any fragment of a datagram sent is processed. -/
theorem Inv.step (h : Inv payloadOf s) (hbound : ∀ d, (payloadOf d).length ≤ 65515) :
    ∀ e : Ipv4Event, Arrives payloadOf s e → ∃ s' out, machine.step s e = some (s', out) ∧ Inv payloadOf s'
  | .fragment f, he => by
    obtain ⟨s', out, hstep, hinv, -⟩ := h.fragment hbound (Produced.sliceOf (hbound _) he)
    exact ⟨s', out, hstep, hinv⟩
  | .timeout _, he => h.timeout he

end

theorem Inv.of_run {payloadOf : DatagramId → Bytes} (hbound : ∀ d, (payloadOf d).length ≤ 65515)
    {tr : List (Ipv4Event × List Bytes)} {s : Ipv4Reassembly} (hrun : Run machine (Arrives payloadOf) {} tr s) :
    Inv payloadOf s := by
  refine Run.invariant (fun _ s => Inv payloadOf s) (inv_start payloadOf) ?_ hrun
  intro tr s e s' out hinv he hstep
  obtain ⟨s₁, out₁, hstep₁, hinv₁⟩ := hinv.step hbound e he
  cases hstep₁.symm.trans hstep
  exact hinv₁

def Completes (payloadOf : DatagramId → Bytes) (s : Ipv4Reassembly) (f : Ipv4Packet) : Prop :=
  Complete (payloadOf f.2.datagram) (s.ofDatagram f.2.datagram ++ [f])

/-- The payload is put out just when the datagram is complete. -/
def Prompt (payloadOf : DatagramId → Bytes) (s : Ipv4Reassembly) (f : Ipv4Packet) : Prop :=
  ∃ s' out, machine.step s (.fragment f) = some (s', out) ∧
    (Completes payloadOf s f → out = [payloadOf f.2.datagram]) ∧ (¬ Completes payloadOf s f → out = [])

/-- **Fragmentation and reassembly.** Fragmentation ends, and its fragments fit the
link and are aligned. In every run, with fragments of any fragmentations, nothing
is put out early, and a datagram is put out once it is complete just when a
fragment that ends it is last by its offset. -/
theorem reassembled_iff (payloadOf : DatagramId → Bytes) (hbound : ∀ d, (payloadOf d).length ≤ 65515)
    {tr : List (Ipv4Event × List Bytes)} {s : Ipv4Reassembly} (hrun : Run machine (Arrives payloadOf) {} tr s)
    {f : Ipv4Packet} (hf : Produced (payloadOf f.2.datagram) f) :
    (Prompt payloadOf s f ↔ (Completes payloadOf s f → EndsLast (s.ofDatagram f.2.datagram ++ [f]))) ∧
      (∃ s' out, machine.step s (.fragment f) = some (s', out) ∧
        (out = [] ∨ out = [payloadOf f.2.datagram] ∧ Completes payloadOf s f)) ∧
      ∀ outIfaceMtu, 68 ≤ outIfaceMtu → outIfaceMtu < 4294967296 →
        ∃ fragments, doFragmentation f.1 f.2 outIfaceMtu = some fragments ∧
          Fragmented (payloadOf f.2.datagram) f 0 (outIfaceMtu - 20) fragments := by
  have hslice := hf.sliceOf (hbound _)
  obtain ⟨s', out, hstep, -, hcases⟩ := (Inv.of_run hbound hrun).fragment hbound hslice
  have hne : [payloadOf f.2.datagram] ≠ [] := by simp
  refine ⟨?_, ⟨s', out, hstep, ?_⟩, fun outIfaceMtu hlo hhi => hslice.doFragmentation (hbound _) hlo hhi⟩
  · constructor
    · rintro ⟨s₁, out₁, hstep₁, hput, -⟩ hcomplete
      cases hstep₁.symm.trans hstep
      rcases hcases with ⟨⟨-, hlast⟩, -⟩ | ⟨-, hnone, -⟩
      · exact hlast
      · rw [hput hcomplete] at hnone
        exact absurd hnone hne
    · intro hlast
      refine ⟨s', out, hstep, fun hcomplete => ?_, fun hincomplete => ?_⟩
      · rcases hcases with ⟨-, hout⟩ | ⟨hnot, -⟩
        · exact hout
        · exact absurd ⟨hcomplete, hlast hcomplete⟩ hnot
      · rcases hcases with ⟨⟨hcomplete, -⟩, -⟩ | ⟨-, hout, -⟩
        · exact absurd hcomplete hincomplete
        · exact hout
  · rcases hcases with ⟨⟨hcomplete, -⟩, hout⟩ | ⟨-, hout, -⟩
    · exact .inr ⟨hout, hcomplete⟩
    · exact .inl hout

/-! ## Two fragmentations of one datagram -/

def sample (_ : DatagramId) : Bytes := (List.range 160).map UInt8.ofNat

def sampleHeader : Ipv4Header where
  source := 1
  destination := 2
  identification := 3
  protocol := 17
  payloadSize := 160

def sampleAt (offset size : Nat) (moreFragments : Bool) : Ipv4Packet :=
  (((sample sampleHeader.datagram).drop offset).take size,
    { sampleHeader with payloadSize := size, fragmentOffset := offset, moreFragments := moreFragments })

theorem sample_halves : doFragmentation (sample sampleHeader.datagram) sampleHeader 100 =
    some [sampleAt 0 80 true, sampleAt 80 80 false] := by
  decide +kernel

theorem sample_secondHalf : doFragmentation (sampleAt 80 80 false).1 (sampleAt 80 80 false).2 68 =
    some [sampleAt 80 48 true, sampleAt 128 32 false] := by
  decide +kernel

theorem produced_half {f : Ipv4Packet} (hf : f ∈ [sampleAt 0 80 true, sampleAt 80 80 false]) :
    Produced (sample sampleHeader.datagram) f :=
  .fragment (.datagram sampleHeader rfl rfl) (by decide) (by decide) sample_halves hf

theorem produced_again : Produced (sample sampleHeader.datagram) (sampleAt 80 48 true) :=
  .fragment (produced_half (f := sampleAt 80 80 false) (by simp)) (by decide) (by decide) sample_secondHalf (by simp)

theorem sample_length (d : DatagramId) : (sample d).length ≤ 65515 := by
  simp [sample]

theorem step_incomplete {s : Ipv4Reassembly} (hinv : Inv sample s) {f : Ipv4Packet} (hd : f.2.datagram = sampleHeader.datagram)
    (hf : Produced (sample sampleHeader.datagram) f)
    (hnot : ¬ Complete (sample sampleHeader.datagram) (s.ofDatagram sampleHeader.datagram ++ [f])) :
    ∃ s', Inv sample s' ∧ machine.step s (.fragment f) = some (s', []) ∧ s'.arrived = s.arrived ++ [f] := by
  rw [← hd] at hf hnot
  obtain ⟨s', out, hstep, hinv', hcases⟩ := hinv.fragment sample_length (hf.sliceOf (sample_length _))
  rcases hcases with ⟨⟨hcomplete, -⟩, -⟩ | ⟨-, rfl, harrived⟩
  · exact absurd hcomplete hnot
  · exact ⟨s', hinv', hstep, harrived⟩

/-- The two halves arrive in order. -/
theorem halves_reassembled : ∃ tr s, Run machine (Arrives sample) {} tr s ∧
    Completes sample s (sampleAt 80 80 false) ∧ Prompt sample s (sampleAt 80 80 false) := by
  obtain ⟨s, -, hstep, harrived⟩ := step_incomplete (inv_start sample) (f := sampleAt 0 80 true) rfl (produced_half (by simp))
    (by decide +kernel)
  have hrun : Run machine (Arrives sample) {} ([] ++ [(.fragment (sampleAt 0 80 true), [])]) s :=
    Run.snoc .nil (produced_half (by simp)) hstep
  have hof : s.ofDatagram (sampleAt 80 80 false).2.datagram ++ [sampleAt 80 80 false] =
      [sampleAt 0 80 true, sampleAt 80 80 false] := by
    rw [ofDatagram, harrived]
    rfl
  refine ⟨_, s, hrun, ?_, (reassembled_iff sample sample_length hrun (produced_half (by simp))).1.mpr fun _ => ?_⟩
  · rw [Completes, hof]
    decide +kernel
  · rw [hof]
    exact ⟨[sampleAt 0 80 true], sampleAt 80 80 false, [], rfl, rfl, by decide +kernel, by simp⟩

/-- **A complete datagram is not noticed**: behind the half that ends it stands a
fragment of that half, from another way, with more fragments to follow. -/
theorem mixed_fragmentations_missed : ∃ tr s f, Run machine (Arrives sample) {} tr s ∧ Produced (sample f.2.datagram) f ∧
    Completes sample s f ∧ machine.step s (.fragment f) ≠ none ∧ ¬ Prompt sample s f := by
  obtain ⟨s₁, hinv₁, hstep₁, harrived₁⟩ := step_incomplete (inv_start sample) (f := sampleAt 80 80 false) rfl
    (produced_half (by simp)) (by decide +kernel)
  have hof₁ : s₁.ofDatagram sampleHeader.datagram = [sampleAt 80 80 false] := by
    rw [ofDatagram, harrived₁]
    rfl
  obtain ⟨s₂, hinv₂, hstep₂, harrived₂⟩ := step_incomplete hinv₁ (f := sampleAt 80 48 true) rfl produced_again
    (by rw [hof₁]; decide +kernel)
  have hrun : Run machine (Arrives sample) {}
      ([] ++ [(.fragment (sampleAt 80 80 false), [])] ++ [(.fragment (sampleAt 80 48 true), [])]) s₂ :=
    Run.snoc (Run.snoc .nil (produced_half (by simp)) hstep₁) produced_again hstep₂
  have hof₂ : s₂.ofDatagram sampleHeader.datagram ++ [sampleAt 0 80 true] =
      [sampleAt 80 80 false, sampleAt 80 48 true, sampleAt 0 80 true] := by
    rw [ofDatagram, harrived₂, harrived₁]
    rfl
  have hcomplete : Complete (sample sampleHeader.datagram) (s₂.ofDatagram sampleHeader.datagram ++ [sampleAt 0 80 true]) := by
    rw [hof₂]
    decide +kernel
  have hnot : ¬ EndsLast (s₂.ofDatagram sampleHeader.datagram ++ [sampleAt 0 80 true]) := by
    rw [hof₂, endsLast_iff]
    decide +kernel
  have hhalf : Produced (sample sampleHeader.datagram) (sampleAt 0 80 true) := produced_half (by simp)
  obtain ⟨s₃, out, hstep₃, -, hcases⟩ := hinv₂.fragment sample_length (f := sampleAt 0 80 true)
    (hhalf.sliceOf (sample_length _))
  refine ⟨_, s₂, sampleAt 0 80 true, hrun, hhalf, hcomplete, by rw [hstep₃]; simp, ?_⟩
  rintro ⟨s', out', hstep', hput, -⟩
  obtain ⟨-, rfl⟩ := Prod.mk.inj (Option.some.inj (hstep'.symm.trans hstep₃))
  rcases hcases with ⟨⟨-, hlast⟩, -⟩ | ⟨-, hnone, -⟩
  · exact hnot hlast
  · rw [hput hcomplete] at hnone
    cases hnone

end Ipv4Reassembly

end Ns3
