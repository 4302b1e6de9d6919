import Ns3.Internet.Ipv4Reassembly

/-!
# What is there of a datagram that is given up

`GetPartialPacket` goes through the fragments as `GetPacket` does, but stops at
no gap and tests no length. A fragment that ends in front of what is put
together already makes its difference of lengths wrap around.
-/

namespace Ns3

open List Option

namespace Fragments

open Ipv4L3Protocol

/-- Out of range there is no fragment. -/
def createFragment (p : Bytes) (start length : Nat) : Option Bytes :=
  if start + length ≤ p.length then some ((p.drop start).take length) else none

def joinPartial (p : Bytes) (x : Bytes × Nat) : Option Bytes :=
  let lastEndOffset := uint16 p.length
  if x.2 < lastEndOffset then
    let newStart := lastEndOffset - x.2
    let newSize := uint32 (x.1.length - newStart)
    (createFragment x.1 newStart newSize).map (p ++ ·)
  else if lastEndOffset = x.2 then some (p ++ x.1)
  else some p

def getPartialPacket (fr : Fragments) : Option Bytes :=
  match fr.fragments with
  | [] => none
  | x :: _ => if 0 < x.2 then some [] else fr.fragments.foldlM joinPartial []

def stop (x : Bytes × Nat) : Nat := x.2 + x.1.length

/-- Consistent contents: the bytes of the payload at the offset. -/
def SlicedFrom (payload : Bytes) (x : Bytes × Nat) : Prop :=
  x.1 = (payload.drop x.2).take x.1.length ∧ stop x ≤ payload.length

instance (payload : Bytes) (x : Bytes × Nat) : Decidable (SlicedFrom payload x) := inferInstanceAs (Decidable (_ ∧ _))

/-- The first byte in no piece is at `k`, or `k` is the end of the payload. -/
structure CoveredUpTo (payload : Bytes) (l : List (Bytes × Nat)) (k : Nat) : Prop where
  le : k ≤ payload.length
  covered : ∀ i < k, ∃ x ∈ l, Covers x i
  missing : ∀ x ∈ l, ¬ Covers x k

/-- The covered prefix, without a call out of range, and all of the packet when it is entire. -/
def PartialExact (payload : Bytes) (fr : Fragments) : Prop :=
  (∃ k, fr.getPartialPacket = some (payload.take k) ∧ CoveredUpTo payload fr.fragments k) ∧
    (fr.isEntire = true → fr.getPartialPacket = fr.getPacket)

/-- A piece ends in front of the end of one before it, and nothing in front of it is missing. -/
def Outrun (l : List (Bytes × Nat)) : Prop :=
  ∃ before x after y, l = before ++ x :: after ∧ y ∈ before ∧ stop x < stop y ∧ ∀ i < x.2, ∃ z ∈ l, Covers z i

/-! ## The end of what is put together -/

def nextEnd (e : Nat) (x : Bytes × Nat) : Option Nat :=
  if e < x.2 then some e else if stop x < e then none else some (stop x)

section
variable {payload : Bytes} {e k : Nat} {xs : List (Bytes × Nat)}

theorem joinPartial_take (hbound : payload.length ≤ 65515) {x : Bytes × Nat} (he : e ≤ payload.length)
    (hx : SlicedFrom payload x) : joinPartial (payload.take e) x = (nextEnd e x).map payload.take := by
  obtain ⟨hbytes, hstop⟩ := hx
  have hs : stop x = x.2 + x.1.length := rfl
  have hlength : uint16 ((payload.take e).length : Nat) = e := by
    rw [length_take, Nat.min_eq_left he]
    exact uint16_of_lt (by omega)
  have hjoin : ∀ n, (payload.take e) ++ (payload.drop e).take n = payload.take (e + n) := fun n => (take_add).symm
  simp only [joinPartial, hlength, nextEnd]
  by_cases hgap : e < x.2
  · rw [if_neg (by omega), if_neg (by omega), if_pos hgap]
    rfl
  · rw [if_neg hgap]
    by_cases hlt : x.2 < e
    · rw [if_pos hlt, createFragment]
      by_cases hshort : stop x < e
      · have hwrap : uint32 ((x.1.length : Int) - (e - x.2 : Nat)) = 4294967296 + x.1.length - (e - x.2) := by
          unfold uint32
          omega
        rw [if_pos hshort, hwrap, if_neg (by omega)]
        rfl
      · have hsize : uint32 ((x.1.length : Int) - (e - x.2 : Nat)) = x.1.length - (e - x.2) := uint32_sub (by omega) (by omega)
        have hcut : x.1.drop (e - x.2) = (payload.drop e).take (x.1.length - (e - x.2)) := by
          rw [hbytes, drop_take, drop_drop, ← hbytes, show x.2 + (e - x.2) = e by omega]
        rw [if_neg hshort, hsize, if_pos (by omega), hcut, take_take, Nat.min_self, map_some, map_some, hjoin]
        congr 2
        omega
    · obtain rfl : x.2 = e := by omega
      rw [if_neg hlt, if_pos rfl, if_neg (by omega), hbytes, hjoin]
      rfl

theorem nextEnd_le {x : Bytes × Nat} (he : e ≤ payload.length) (hx : SlicedFrom payload x)
    (h : nextEnd e x = some k) : k ≤ payload.length := by
  unfold nextEnd at h
  by_cases hgap : e < x.2
  · rw [if_pos hgap] at h
    cases h
    exact he
  · rw [if_neg hgap] at h
    obtain ⟨-, h⟩ := ite_none_left_eq_some.mp h
    cases h
    exact hx.2

theorem foldlM_take (hbound : payload.length ≤ 65515) : ∀ (xs : List (Bytes × Nat)) (e : Nat), e ≤ payload.length →
    (∀ x ∈ xs, SlicedFrom payload x) → xs.foldlM joinPartial (payload.take e) = (xs.foldlM nextEnd e).map payload.take
  | [], _, _, _ => rfl
  | x :: xs, e, he, hxs => by
    have hx := hxs x mem_cons_self
    rw [foldlM_cons, foldlM_cons, joinPartial_take hbound he hx]
    cases hnext : nextEnd e x with
    | none => rfl
    | some k =>
      exact foldlM_take hbound xs k (nextEnd_le he hx hnext) fun y hy => hxs y (mem_cons_of_mem _ hy)

/-! ## What the loop has covered -/

/-- Where the loop stands after some pieces, from the end `e` on. -/
structure Joined (xs : List (Bytes × Nat)) (e k : Nat) : Prop where
  le : e ≤ k
  covered : ∀ i, e ≤ i → i < k → ∃ x ∈ xs, Covers x i
  passed : ∀ x ∈ xs, k < x.2 ∨ stop x ≤ k
  reached : k = e ∨ ∃ x ∈ xs, stop x = k

theorem Joined.missing (h : Joined xs e k) : ∀ x ∈ xs, ¬ Covers x k := by
  intro x hx hcover
  have hpassed := h.passed x hx
  unfold Covers stop at *
  omega

theorem foldlM_joined : ∀ {xs : List (Bytes × Nat)} {e k : Nat}, Sorted xs → xs.foldlM nextEnd e = some k → Joined xs e k
  | [], e, k, _, h => by
    cases h
    exact ⟨Nat.le_refl e, fun i hi hi' => by omega, by simp, .inl rfl⟩
  | x :: xs, e, k, hsorted, h => by
    obtain ⟨hx, hxs⟩ := pairwise_cons.mp hsorted
    rw [foldlM_cons] at h
    obtain ⟨e', hnext, hrest⟩ := bind_eq_some_iff.mp h
    have ih := foldlM_joined hxs hrest
    have hle := ih.le
    unfold nextEnd at hnext
    by_cases hgap : e < x.2
    · rw [if_pos hgap] at hnext
      cases hnext
      have hstay : k = e := by
        rcases ih.reached with hk | ⟨y, hy, hk⟩
        · exact hk
        · by_contra hmore
          obtain ⟨z, hz, hcover⟩ := ih.covered e (Nat.le_refl e) (by omega)
          have := hx z hz
          unfold Covers at hcover
          omega
      refine ⟨hle, fun i hi hi' => by omega, fun y hy => ?_, .inl hstay⟩
      rcases mem_cons.mp hy with rfl | hy
      · exact .inl (by omega)
      · exact ih.passed y hy
    · rw [if_neg hgap] at hnext
      obtain ⟨hlong, hnext⟩ := ite_none_left_eq_some.mp hnext
      cases hnext
      refine ⟨by omega, fun i hi hi' => ?_, fun y hy => ?_, .inr ?_⟩
      · by_cases hin : i < stop x
        · exact ⟨x, mem_cons_self, by unfold Covers; unfold stop at hin; omega⟩
        · obtain ⟨y, hy, hcover⟩ := ih.covered i (by omega) hi'
          exact ⟨y, mem_cons_of_mem _ hy, hcover⟩
      · rcases mem_cons.mp hy with rfl | hy
        · exact .inr hle
        · exact ih.passed y hy
      · rcases ih.reached with hk | ⟨y, hy, hk⟩
        · exact ⟨x, mem_cons_self, hk.symm⟩
        · exact ⟨y, mem_cons_of_mem _ hy, hk⟩

theorem foldlM_none : ∀ {xs : List (Bytes × Nat)} {e : Nat}, xs.foldlM nextEnd e = none →
    ∃ before x after e', xs = before ++ x :: after ∧ before.foldlM nextEnd e = some e' ∧ x.2 ≤ e' ∧ stop x < e'
  | [], _, h => by cases h
  | x :: xs, e, h => by
    rw [List.foldlM_cons] at h
    cases hnext : nextEnd e x with
    | none =>
      refine ⟨[], x, xs, e, rfl, rfl, ?_⟩
      unfold nextEnd at hnext
      by_cases hgap : e < x.2
      · rw [if_pos hgap] at hnext
        cases hnext
      · rw [if_neg hgap] at hnext
        refine ⟨Nat.le_of_not_lt hgap, ?_⟩
        by_contra hlong
        rw [if_neg hlong] at hnext
        cases hnext
    | some k =>
      rw [hnext] at h
      obtain ⟨before, y, after, e', rfl, hfold, hle, hlt⟩ := foldlM_none h
      refine ⟨x :: before, y, after, e', rfl, ?_, hle, hlt⟩
      rw [foldlM_cons, hnext]
      exact hfold

theorem foldl_join_eq (hbound : payload.length ≤ 65515) : ∀ (xs : List (Bytes × Nat)) (e : Nat) {k : Nat}, e ≤ payload.length →
    (∀ x ∈ xs, SlicedFrom payload x) → contiguous e xs = true → xs.foldlM nextEnd e = some k →
    xs.foldl join (payload.take e) = payload.take k
  | [], e, k, _, _, _, h => by
    cases h
    rfl
  | x :: xs, e, k, he, hxs, hcontiguous, h => by
    have hx := hxs x mem_cons_self
    have hstop : x.2 + x.1.length ≤ payload.length := hx.2
    have hend : uint16 (x.1.length + x.2) = x.1.length + x.2 := uint16_of_lt (n := x.1.length + x.2) (by omega)
    rw [contiguous, hend] at hcontiguous
    by_cases hgap : e < x.2
    · rw [if_pos hgap] at hcontiguous
      cases hcontiguous
    · rw [if_neg hgap] at hcontiguous
      rw [foldlM_cons, nextEnd, if_neg hgap] at h
      obtain ⟨e', hnext, hrest⟩ := bind_eq_some_iff.mp h
      obtain ⟨hlong, hnext⟩ := ite_none_left_eq_some.mp hnext
      have hmax : max e (x.1.length + x.2) = stop x := by
        unfold stop at *
        omega
      cases hnext
      rw [hmax] at hcontiguous
      rw [foldl_cons, join_take hbound he hx.1 (by omega), hmax]
      exact foldl_join_eq hbound xs (stop x) hstop (fun y hy => hxs y (mem_cons_of_mem _ hy)) hcontiguous hrest

/-! ## The packet -/

variable {l : List Ipv4Packet}

theorem getPartialPacket_eq (hbound : payload.length ≤ 65515) (hne : l ≠ [])
    (hl : ∀ x ∈ (collect l).fragments, SlicedFrom payload x) :
    (collect l).getPartialPacket = ((collect l).fragments.foldlM nextEnd 0).map payload.take := by
  have hsorted := collect_sorted l
  rw [← foldlM_take hbound _ 0 (Nat.zero_le _) hl, getPartialPacket, take_zero]
  cases hxs : (collect l).fragments with
  | nil =>
    have hlength := (collect_perm l).length_eq
    rw [hxs, length_map] at hlength
    exact absurd (length_eq_zero_iff.mp hlength.symm) hne
  | cons x xs =>
    rw [hxs] at hsorted hl
    by_cases hlate : 0 < x.2
    · -- all pieces lie behind the gap in front of the first one
      have hgap : ∀ y ∈ x :: xs, nextEnd 0 y = some 0 := by
        intro y hy
        rcases mem_cons.mp hy with rfl | hy
        · exact if_pos hlate
        · exact if_pos (Nat.lt_of_lt_of_le hlate ((pairwise_cons.mp hsorted).1 y hy))
      have hfold : ∀ ys : List (Bytes × Nat), (∀ y ∈ ys, nextEnd 0 y = some 0) → ys.foldlM nextEnd 0 = some 0 := by
        intro ys
        induction ys with
        | nil => exact fun _ => rfl
        | cons y ys ih =>
          intro hys
          rw [foldlM_cons, hys y mem_cons_self]
          exact ih fun z hz => hys z (mem_cons_of_mem _ hz)
      have htake := foldlM_take hbound (x :: xs) 0 (Nat.zero_le _) hl
      rw [hfold _ hgap, take_zero] at htake
      simp only [if_pos hlate, htake, map_some, take_zero]
    · simp only [if_neg hlate]

theorem foldlM_none_iff (hsorted : Sorted xs) : xs.foldlM nextEnd 0 = none ↔ Outrun xs := by
  constructor
  · intro h
    obtain ⟨before, x, after, e, rfl, hfold, hle, hlt⟩ := foldlM_none h
    have hjoined := foldlM_joined (pairwise_append.mp hsorted).1 hfold
    rcases hjoined.reached with rfl | ⟨y, hy, hreached⟩
    · omega
    · refine ⟨before, x, after, y, rfl, hy, by omega, fun i hi => ?_⟩
      obtain ⟨z, hz, hcover⟩ := hjoined.covered i (Nat.zero_le i) (by omega)
      exact ⟨z, by simp [hz], hcover⟩
  · rintro ⟨before, x, after, y, rfl, hy, hlt, hall⟩
    obtain ⟨hbefore, hafter, hacross⟩ := pairwise_append.mp hsorted
    rw [foldlM_append]
    cases hfold : before.foldlM nextEnd 0 with
    | none => rfl
    | some e =>
      have hjoined := foldlM_joined hbefore hfold
      have hyx := hacross y hy x mem_cons_self
      have hle : x.2 ≤ e := by
        by_contra hgap
        obtain ⟨z, hz, hcover⟩ := hall e (Nat.lt_of_not_le hgap)
        rcases mem_append.mp hz with hz | hz
        · exact hjoined.missing z hz hcover
        · rcases mem_cons.mp hz with rfl | hz
          · exact absurd hcover.1 hgap
          · have := (pairwise_cons.mp hafter).1 z hz
            have := hcover.1
            omega
      have hpassed := hjoined.passed y hy
      have hstuck : nextEnd e x = none := by
        rw [nextEnd, if_neg (by omega), if_pos (by omega)]
      rw [bind_eq_bind, bind_some, foldlM_cons, hstuck]
      rfl

theorem coveredUpTo (hjoined : Joined xs 0 k) (hxs : ∀ x ∈ xs, SlicedFrom payload x) : CoveredUpTo payload xs k where
  le := by
    rcases hjoined.reached with rfl | ⟨x, hx, rfl⟩
    · exact Nat.zero_le _
    · exact (hxs x hx).2
  covered := fun i hi => hjoined.covered i (Nat.zero_le i) hi
  missing := hjoined.missing

end

/-- **Partial packets.** `GetPartialPacket` gives the covered prefix of the payload just
when no fragment in front of the first gap ends before the end of an earlier one. -/
theorem partialExact_iff (payload : Bytes) (hbound : payload.length ≤ 65515) (l : List Ipv4Packet) (hne : l ≠ [])
    (hl : ∀ f ∈ l, SlicedFrom payload (piece f)) :
    PartialExact payload (collect l) ↔ ¬ Outrun (collect l).fragments := by
  have hslices : ∀ x ∈ (collect l).fragments, SlicedFrom payload x := by
    intro x hx
    obtain ⟨f, hf, rfl⟩ := mem_collect.mp hx
    exact hl f hf
  have hsorted := collect_sorted l
  have hanswer := getPartialPacket_eq hbound hne hslices
  rw [← foldlM_none_iff hsorted]
  cases hfold : (collect l).fragments.foldlM nextEnd 0 with
  | none =>
    rw [hfold] at hanswer
    refine ⟨fun hexact => ?_, fun hnot => absurd rfl hnot⟩
    obtain ⟨⟨k, hsome, -⟩, -⟩ := hexact
    rw [hanswer] at hsome
    cases hsome
  | some k =>
    rw [hfold, map_some] at hanswer
    have hjoined := foldlM_joined hsorted hfold
    refine ⟨fun _ h => (by cases h), fun _ => ⟨⟨k, hanswer, coveredUpTo hjoined hslices⟩, fun hentire => ?_⟩⟩
    rw [isEntire, Bool.and_eq_true] at hentire
    have hcontiguous := hentire.2
    rw [hanswer, getPacket]
    cases hxs : (collect l).fragments with
    | nil =>
      have hlength := (collect_perm l).length_eq
      rw [hxs, length_map] at hlength
      exact absurd (length_eq_zero_iff.mp hlength.symm) hne
    | cons x xs =>
      rw [hxs] at hcontiguous hfold hslices
      have hjoin := foldl_join_eq hbound (x :: xs) 0 (Nat.zero_le _) hslices hcontiguous hfold
      have hfirst : join (payload.take 0) x = x.1 := by
        rw [take_zero, join]
        simp [uint16]
      rw [foldl_cons, hfirst] at hjoin
      exact congrArg some hjoin.symm

/-- Thirty-two bytes, and pieces of them. -/
def numbers : Bytes := (List.range 32).map UInt8.ofNat

def numbersHeader : Ipv4Header where
  source := 1
  destination := 2
  identification := 3
  protocol := 17
  moreFragments := true

def numbersAt (offset size : Nat) : Ipv4Packet :=
  ((numbers.drop offset).take size, { numbersHeader with payloadSize := size, fragmentOffset := offset })

/-- Two pieces that overlap, and one behind a gap. -/
theorem overlapping_partial : PartialExact numbers (collect [numbersAt 8 8, numbersAt 0 12, numbersAt 24 8]) := by
  refine (partialExact_iff numbers (by decide) _ (by simp) (by decide)).mpr ?_
  rw [← foldlM_none_iff (collect_sorted _)]
  decide

/-- **A piece inside an earlier one** is asked for more bytes than it has. -/
theorem contained_not_partial : ¬ PartialExact numbers (collect [numbersAt 0 16, numbersAt 0 8]) := by
  have hstuck : (collect [numbersAt 0 16, numbersAt 0 8]).getPartialPacket = none := by decide
  rintro ⟨⟨k, hsome, -⟩, -⟩
  rw [hstuck] at hsome
  cases hsome

end Fragments

end Ns3
