import Mathlib.Algebra.Group.Nat.Defs
import Mathlib.Data.List.Pairwise
import Mathlib.Data.Nat.Basic
import Mathlib.Order.RelClasses
import Ns3.Lib.BitField
import Ns3.Lib.Machine
import Ns3.Internet.Ipv4Address
import Ns3.Internet.SequenceNumber32

/-!
# `Ipv4AddressGenerator`

The addresses that are allocated are kept as ranges in ascending order. A new
address makes a range longer or a range of its own; two ranges that have come
to touch stay two. Whether a network has an address in it is asked of the ends
of the ranges only.
-/

namespace Ns3

open Machine List

abbrev Ipv4Mask := Ipv4Address

namespace Ipv4AddressGenerator

structure Entry where
  addrLow : Nat
  addrHigh : Nat
  deriving DecidableEq

def Entry.Has (e : Entry) (a : Nat) : Prop := e.addrLow ≤ a ∧ a ≤ e.addrHigh

instance (e : Entry) (a : Nat) : Decidable (e.Has a) := inferInstanceAs (Decidable (_ ∧ _))

/-- The loop of `AddAllocated`; `none` is a collision. -/
def allocate (addr : Nat) : List Entry → Option (List Entry)
  | [] => some [⟨addr, addr⟩]
  | e :: l =>
    if e.addrLow ≤ addr ∧ addr ≤ e.addrHigh then none
    else if addr < uint32 (e.addrLow - 1) then some (⟨addr, addr⟩ :: e :: l)
    else if addr = uint32 (e.addrHigh + 1) then
      if l.head?.map (·.addrLow) = some addr then none else some ({ e with addrHigh := addr } :: l)
    else if addr = uint32 (e.addrLow - 1) then some ({ e with addrLow := addr } :: l)
    else (allocate addr l).map (e :: ·)

def combineMask (addr mask : Nat) : Nat := addr &&& mask

def isAddressAllocated (entries : List Entry) (address : Ipv4Address) : Option Bool :=
  let addr := address.val
  if addr = 0 then none else some (!entries.any fun e => decide (e.addrLow ≤ addr ∧ addr ≤ e.addrHigh))

def isNetworkAllocated (entries : List Entry) (address : Ipv4Address) (mask : Ipv4Mask) : Option Bool :=
  if address.val = combineMask address mask then
    some (!entries.any fun e =>
      decide (address.val = combineMask e.addrLow mask ∨ address.val = combineMask e.addrHigh mask))
  else none

structure NetworkState where
  mask : Nat
  shift : Nat
  network : Nat
  addr : Nat
  addrMax : Nat

/-- The loop of `Reset`: the mask of the entry `i` of the table. -/
def resetMask : Nat → Nat
  | 0 => 0
  | i + 1 => (resetMask i >>> 1) ||| 0x80000000

def resetState (i : Nat) : NetworkState where
  mask := resetMask i
  shift := 32 - i
  network := 1
  addr := 1
  addrMax := 0xffffffff - resetMask i

/-- The number of bits up to the last one that is set, which must be one of the table's masks. -/
def maskToIndex (mask : Ipv4Mask) : Option Nat := do
  let i ← (List.range 32).find? fun i => mask.val.testBit i
  if 0 < 32 - i ∧ 32 - i < 32 then some (32 - i) else none

end Ipv4AddressGenerator

open Ipv4AddressGenerator

structure Ipv4AddressGenerator where
  netTable : Nat → NetworkState := resetState
  entries : List Entry := []
  test : Bool := false

inductive GeneratorEvent where
  | init (net : Ipv4Address) (mask : Ipv4Mask) (addr : Ipv4Address)
  | nextNetwork (mask : Ipv4Mask)
  | initAddress (addr : Ipv4Address) (mask : Ipv4Mask)
  | nextAddress (mask : Ipv4Mask)
  | addAllocated (addr : Ipv4Address)

structure Allocation where
  address : Nat
  accepted : Bool
  deriving DecidableEq

namespace Ipv4AddressGenerator

def setNetwork (g : Ipv4AddressGenerator) (index : Nat) (n : NetworkState) : Ipv4AddressGenerator :=
  { g with netTable := fun i => if i = index then n else g.netTable i }

/-- A collision is fatal except in test mode. -/
def addAllocated (g : Ipv4AddressGenerator) (addr : Nat) : Option (Ipv4AddressGenerator × Bool) :=
  if addr = 0 then none
  else
    match allocate addr g.entries with
    | some l => some ({ g with entries := l }, true)
    | none => if g.test then some (g, false) else none

def init (g : Ipv4AddressGenerator) (net : Ipv4Address) (mask : Ipv4Mask) (addr : Ipv4Address) : Option Ipv4AddressGenerator := do
  let index ← maskToIndex mask
  let n := g.netTable index
  if net.val &&& (0xffffffff - mask.val) = 0 ∧ addr.val &&& mask.val = 0 ∧ addr.val ≤ n.addrMax then
    some (g.setNetwork index { n with network := net.val >>> n.shift, addr := addr.val })
  else none

def nextNetwork (g : Ipv4AddressGenerator) (mask : Ipv4Mask) : Option Ipv4AddressGenerator := do
  let index ← maskToIndex mask
  let n := g.netTable index
  some (g.setNetwork index { n with network := uint32 (n.network + 1) })

def initAddress (g : Ipv4AddressGenerator) (addr : Ipv4Address) (mask : Ipv4Mask) : Option Ipv4AddressGenerator := do
  let index ← maskToIndex mask
  let n := g.netTable index
  if addr.val ≤ n.addrMax then some (g.setNetwork index { n with addr := addr.val }) else none

/-- The address is taken whatever `AddAllocated` returns. -/
def nextAddress (g : Ipv4AddressGenerator) (mask : Ipv4Mask) : Option (Ipv4AddressGenerator × Allocation) := do
  let index ← maskToIndex mask
  let n := g.netTable index
  if n.addr ≤ n.addrMax then
    let addr := uint32 (n.network <<< n.shift ||| n.addr : Nat)
    let r ← (g.setNetwork index { n with addr := uint32 (n.addr + 1) }).addAllocated addr
    some (r.1, ⟨addr, r.2⟩)
  else none

def machine : Machine Ipv4AddressGenerator GeneratorEvent Allocation where
  step g
    | .init net mask addr => (g.init net mask addr).map (·, [])
    | .nextNetwork mask => (g.nextNetwork mask).map (·, [])
    | .initAddress addr mask => (g.initAddress addr mask).map (·, [])
    | .nextAddress mask => (g.nextAddress mask).map fun r => (r.1, [r.2])
    | .addAllocated addr => (g.addAllocated addr.val).map fun r => (r.1, [⟨addr.val, r.2⟩])

def Accepted (log : List Allocation) (a : Nat) : Prop := ⟨a, true⟩ ∈ log

instance (log : List Allocation) (a : Nat) : Decidable (Accepted log a) := inferInstanceAs (Decidable (_ ∈ _))

/-! ## Ranges -/

/-- Disjoint ranges of addresses other than 0 in ascending order. -/
structure Ranges (l : List Entry) : Prop where
  ascending : l.Pairwise fun e e' => e.addrHigh < e'.addrLow
  proper : ∀ e ∈ l, 0 < e.addrLow ∧ e.addrLow ≤ e.addrHigh ∧ e.addrHigh < 4294967296

def Holds (l : List Entry) (a : Nat) : Prop := ∃ e ∈ l, e.Has a

instance (l : List Entry) (a : Nat) : Decidable (Holds l a) := inferInstanceAs (Decidable (∃ e ∈ l, e.Has a))

variable {e : Entry} {l : List Entry} {a : Nat} {net : Ipv4Address} {mask : Ipv4Mask}

theorem holds_cons : Holds (e :: l) a ↔ e.Has a ∨ Holds l a := by
  simp [Holds]

theorem ranges_cons : Ranges (e :: l) ↔
    (0 < e.addrLow ∧ e.addrLow ≤ e.addrHigh ∧ e.addrHigh < 4294967296) ∧ (∀ a, Holds l a → e.addrHigh < a) ∧ Ranges l := by
  constructor
  · intro h
    obtain ⟨hbehind, hl⟩ := pairwise_cons.mp h.ascending
    refine ⟨h.proper e mem_cons_self, ?_, hl, fun x hx => h.proper x (mem_cons_of_mem _ hx)⟩
    rintro a ⟨x, hx, hlow, -⟩
    exact (hbehind x hx).trans_le hlow
  · rintro ⟨he, hbehind, hl⟩
    refine ⟨pairwise_cons.mpr ⟨fun x hx => ?_, hl.ascending⟩, fun x hx => ?_⟩
    · exact hbehind _ ⟨x, hx, Nat.le_refl _, (hl.proper x hx).2.1⟩
    · rcases mem_cons.mp hx with rfl | hx
      · exact he
      · exact hl.proper x hx

theorem Ranges.apart (h : Ranges l) {e e' : Entry} (he : e ∈ l) (he' : e' ∈ l) (hne : e ≠ e') :
    e.addrHigh < e'.addrLow ∨ e'.addrHigh < e.addrLow := by
  have hsymm : Std.Symm fun x y : Entry => x.addrHigh < y.addrLow ∨ y.addrHigh < x.addrLow := ⟨fun _ _ hxy => hxy.symm⟩
  have hpairwise : l.Pairwise fun x y : Entry => x.addrHigh < y.addrLow ∨ y.addrHigh < x.addrLow := h.ascending.imp .inl
  exact hpairwise.forall he he' hne

theorem head_eq_iff (h : Ranges (e :: l)) :
    l.head?.map (·.addrLow) = some (e.addrHigh + 1) ↔ Holds l (e.addrHigh + 1) := by
  obtain ⟨-, hbehind, hl⟩ := ranges_cons.mp h
  cases l with
  | nil => simp [Holds]
  | cons x l =>
    obtain ⟨hx, hrest, -⟩ := ranges_cons.mp hl
    have hfirst : e.addrHigh < x.addrLow := hbehind _ ⟨x, mem_cons_self, Nat.le_refl _, hx.2.1⟩
    have hfar : ¬ Holds l (e.addrHigh + 1) := fun hmem => by
      have := hrest _ hmem
      omega
    have hhas : x.Has (e.addrHigh + 1) ↔ x.addrLow = e.addrHigh + 1 := by
      unfold Entry.Has
      omega
    simp [holds_cons, hfar, hhas]

section
variable {addr : Nat} (hpos : 0 < addr) (hlt : addr < 4294967296)

include hpos hlt

theorem allocate_cons {e : Entry} {l : List Entry} (h : Ranges (e :: l)) : allocate addr (e :: l) =
    if e.Has addr then none else if addr + 1 < e.addrLow then some (⟨addr, addr⟩ :: e :: l)
    else if addr = e.addrHigh + 1 then
      if l.head?.map (·.addrLow) = some addr then none else some ({ e with addrHigh := addr } :: l)
    else if addr + 1 = e.addrLow then some ({ e with addrLow := addr } :: l) else (allocate addr l).map (e :: ·) := by
  obtain ⟨hlow, hle, hhigh⟩ := (ranges_cons.mp h).1
  have hbefore : uint32 ((e.addrLow : Int) - 1) = e.addrLow - 1 := by
    unfold uint32
    omega
  have hbehind : addr = uint32 ((e.addrHigh : Int) + 1) ↔ addr = e.addrHigh + 1 := by
    unfold uint32
    omega
  have hbreak : addr < e.addrLow - 1 ↔ addr + 1 < e.addrLow := by omega
  have hdown : addr = e.addrLow - 1 ↔ addr + 1 = e.addrLow := by omega
  rw [allocate, hbefore]
  simp only [hbehind, hbreak, hdown]
  rfl

theorem allocate_none : ∀ {l : List Entry}, Ranges l → (allocate addr l = none ↔ Holds l addr)
  | [], _ => by simp [allocate, Holds]
  | e :: l, h => by
    obtain ⟨hproper, hbehind, hl⟩ := ranges_cons.mp h
    rw [allocate_cons hpos hlt h, holds_cons]
    by_cases hin : e.Has addr
    · simp [hin]
    · rw [if_neg hin]
      have hout : ¬ (e.addrLow ≤ addr ∧ addr ≤ e.addrHigh) := hin
      by_cases hbreak : addr + 1 < e.addrLow
      · have hnot : ¬ Holds l addr := fun hmem => by
          have := hbehind addr hmem
          omega
        simp [hbreak, hin, hnot]
      · rw [if_neg hbreak]
        by_cases hup : addr = e.addrHigh + 1
        · rw [if_pos hup]
          subst hup
          simp [hin, head_eq_iff h]
        · rw [if_neg hup]
          by_cases hdown : addr + 1 = e.addrLow
          · have hnot : ¬ Holds l addr := fun hmem => by
              have := hbehind addr hmem
              omega
            simp [hdown, hin, hnot]
          · rw [if_neg hdown, Option.map_eq_none_iff, allocate_none hl]
            simp [hin]

theorem allocate_some : ∀ {l l' : List Entry}, Ranges l → allocate addr l = some l' →
    Ranges l' ∧ ∀ a, Holds l' a ↔ a = addr ∨ Holds l a
  | [], l', _, hsome => by
    cases hsome
    refine ⟨⟨List.pairwise_singleton _ _, by simp; omega⟩, fun a => ?_⟩
    simp only [Holds, List.mem_singleton, exists_eq_left, Entry.Has, List.not_mem_nil, false_and, exists_false, or_false]
    omega
  | e :: l, l', h, hsome => by
    obtain ⟨hproper, hbehind, hl⟩ := ranges_cons.mp h
    rw [allocate_cons hpos hlt h] at hsome
    obtain ⟨hin, hsome⟩ := Option.ite_none_left_eq_some.mp hsome
    have hout : ¬ (e.addrLow ≤ addr ∧ addr ≤ e.addrHigh) := hin
    by_cases hbreak : addr + 1 < e.addrLow
    · rw [if_pos hbreak] at hsome
      cases hsome
      refine ⟨ranges_cons.mpr ⟨by simp; omega, fun a ha => ?_, h⟩, fun a => ?_⟩
      · rcases holds_cons.mp ha with hea | hla
        · unfold Entry.Has at hea
          simp only
          omega
        · have := hbehind a hla
          simp only
          omega
      · rw [holds_cons]
        unfold Entry.Has
        simp only
        have : addr ≤ a ∧ a ≤ addr ↔ a = addr := by omega
        rw [this]
    · rw [if_neg hbreak] at hsome
      by_cases hup : addr = e.addrHigh + 1
      · rw [if_pos hup] at hsome
        obtain ⟨hfree, hsome⟩ := Option.ite_none_left_eq_some.mp hsome
        cases hsome
        have hnot : ¬ Holds l addr := by
          rw [hup, head_eq_iff h] at hfree
          rwa [hup]
        refine ⟨ranges_cons.mpr ⟨by simp; omega, fun a ha => ?_, hl⟩, fun a => ?_⟩
        · have := hbehind a ha
          have : a ≠ addr := fun heq => hnot (heq ▸ ha)
          simp only
          omega
        · rw [holds_cons, holds_cons, ← or_assoc]
          unfold Entry.Has
          simp only
          have : e.addrLow ≤ a ∧ a ≤ addr ↔ a = addr ∨ e.addrLow ≤ a ∧ a ≤ e.addrHigh := by omega
          rw [this]
      · rw [if_neg hup] at hsome
        by_cases hdown : addr + 1 = e.addrLow
        · rw [if_pos hdown] at hsome
          cases hsome
          refine ⟨ranges_cons.mpr ⟨by simp; omega, hbehind, hl⟩, fun a => ?_⟩
          rw [holds_cons, holds_cons, ← or_assoc]
          unfold Entry.Has
          simp only
          have : addr ≤ a ∧ a ≤ e.addrHigh ↔ a = addr ∨ e.addrLow ≤ a ∧ a ≤ e.addrHigh := by omega
          rw [this]
        · rw [if_neg hdown] at hsome
          obtain ⟨l₁, hl₁, rfl⟩ := Option.map_eq_some_iff.mp hsome
          obtain ⟨hranges, hholds⟩ := allocate_some hl hl₁
          refine ⟨ranges_cons.mpr ⟨hproper, fun a ha => ?_, hranges⟩, fun a => ?_⟩
          · rcases (hholds a).mp ha with rfl | ha
            · omega
            · exact hbehind a ha
          · rw [holds_cons, holds_cons, hholds]
            exact or_left_comm

end

/-! ## Runs -/

/-- The ranges and the addresses accepted so far. -/
structure Registered (log : List Allocation) (g : Ipv4AddressGenerator) : Prop where
  test : g.test = true
  ranges : Ranges g.entries
  holds : ∀ a, Holds g.entries a ↔ Accepted log a

theorem accepted_snoc {log : List Allocation} {o : Allocation} :
    Accepted (log ++ [o]) a ↔ Accepted log a ∨ a = o.address ∧ o.accepted = true := by
  obtain ⟨address, accepted⟩ := o
  simp [Accepted, eq_comm]

section
variable {log : List Allocation} {g : Ipv4AddressGenerator}

theorem Registered.addAllocated_false (h : Registered log g) {addr : Nat} (hpos : addr ≠ 0) (hlt : addr < 4294967296) :
    g.addAllocated addr = some (g, false) ↔ Accepted log addr := by
  rw [addAllocated, if_neg hpos, ← h.holds, ← allocate_none (Nat.pos_of_ne_zero hpos) hlt h.ranges, h.test, if_pos rfl]
  cases allocate addr g.entries with
  | none => simp
  | some l => simp

theorem Registered.addAllocated (h : Registered log g) {addr : Nat} (hlt : addr < 4294967296) {g' : Ipv4AddressGenerator}
    {accepted : Bool} (hadd : g.addAllocated addr = some (g', accepted)) : Registered (log ++ [⟨addr, accepted⟩]) g' := by
  unfold Ipv4AddressGenerator.addAllocated at hadd
  obtain ⟨hpos, hadd⟩ := Option.ite_none_left_eq_some.mp hadd
  cases hallocate : allocate addr g.entries with
  | none =>
    simp only [hallocate, h.test, if_true] at hadd
    cases hadd
    refine ⟨h.test, h.ranges, fun a => ?_⟩
    rw [h.holds, accepted_snoc]
    simp
  | some l =>
    simp only [hallocate] at hadd
    cases hadd
    obtain ⟨hranges, hholds⟩ := allocate_some (Nat.pos_of_ne_zero hpos) hlt h.ranges hallocate
    refine ⟨h.test, hranges, fun a => ?_⟩
    rw [hholds, h.holds, accepted_snoc]
    simp [or_comm]

theorem Registered.setNetwork (h : Registered log g) (index : Nat) (n : NetworkState) : Registered log (g.setNetwork index n) :=
  ⟨h.test, h.ranges, h.holds⟩

/-- The entries hold the ranges and the addresses accepted, and no others. -/
theorem Registered.step (h : Registered log g) {e : GeneratorEvent} {g' : Ipv4AddressGenerator} {o : List Allocation}
    (hstep : machine.step g e = some (g', o)) : Registered (log ++ o) g' := by
  cases e with
  | init net mask addr =>
    obtain ⟨g₁, hinit, heq⟩ := Option.map_eq_some_iff.mp hstep
    cases heq
    rw [append_nil]
    obtain ⟨index, -, hset⟩ := Option.bind_eq_some_iff.mp hinit
    obtain ⟨-, hset⟩ := Option.ite_none_right_eq_some.mp hset
    cases hset
    exact h.setNetwork _ _
  | nextNetwork mask =>
    obtain ⟨g₁, hnext, heq⟩ := Option.map_eq_some_iff.mp hstep
    cases heq
    rw [append_nil]
    obtain ⟨index, -, hset⟩ := Option.bind_eq_some_iff.mp hnext
    cases hset
    exact h.setNetwork _ _
  | initAddress addr mask =>
    obtain ⟨g₁, hinit, heq⟩ := Option.map_eq_some_iff.mp hstep
    cases heq
    rw [append_nil]
    obtain ⟨index, -, hset⟩ := Option.bind_eq_some_iff.mp hinit
    obtain ⟨-, hset⟩ := Option.ite_none_right_eq_some.mp hset
    cases hset
    exact h.setNetwork _ _
  | nextAddress mask =>
    obtain ⟨r, hnext, heq⟩ := Option.map_eq_some_iff.mp hstep
    cases heq
    obtain ⟨index, -, hset⟩ := Option.bind_eq_some_iff.mp hnext
    obtain ⟨-, hset⟩ := Option.ite_none_right_eq_some.mp hset
    obtain ⟨r', hadd, hset⟩ := Option.bind_eq_some_iff.mp hset
    cases hset
    refine (h.setNetwork _ _).addAllocated ?_ hadd
    unfold uint32
    omega
  | addAllocated addr =>
    obtain ⟨r, hadd, heq⟩ := Option.map_eq_some_iff.mp hstep
    cases heq
    exact h.addAllocated addr.isLt hadd

theorem Registered.of_run {tr : List (GeneratorEvent × List Allocation)} (h : Run machine anyStep { test := true } tr g) :
    Registered (outputs tr) g := by
  refine Run.invariant (fun tr g => Registered (outputs tr) g) ?_ ?_ h
  · refine ⟨rfl, ⟨List.Pairwise.nil, by simp⟩, fun a => ?_⟩
    simp [Holds, Accepted]
  · intro tr g e g' o hreg _ hstep
    rw [outputs_snoc]
    exact hreg.step hstep

theorem Registered.isAddressAllocated_false (h : Registered log g) {addr : Ipv4Address} (hpos : addr.val ≠ 0) :
    isAddressAllocated g.entries addr = some false ↔ Accepted log addr.val := by
  rw [← h.holds, isAddressAllocated, if_neg hpos]
  simp [Holds, Entry.Has]

end

/-! ## Networks -/

def InNetwork (net : Ipv4Address) (mask : Ipv4Mask) (a : Nat) : Prop := combineMask a mask = net.val

instance (net : Ipv4Address) (mask : Ipv4Mask) (a : Nat) : Decidable (InNetwork net mask a) := inferInstanceAs (Decidable (_ = _))

/-- A range has an address of the network between its ends, and no range has one at an end. -/
def Swallowed (l : List Entry) (net : Ipv4Address) (mask : Ipv4Mask) : Prop :=
  (∃ e ∈ l, ∃ a, e.addrLow < a ∧ a < e.addrHigh ∧ InNetwork net mask a) ∧
    ∀ e ∈ l, ¬ InNetwork net mask e.addrLow ∧ ¬ InNetwork net mask e.addrHigh

theorem isNetworkAllocated_false (hnet : InNetwork net mask net) :
    isNetworkAllocated l net mask = some false ↔ ∃ e ∈ l, InNetwork net mask e.addrLow ∨ InNetwork net mask e.addrHigh := by
  unfold InNetwork at *
  rw [isNetworkAllocated, if_pos hnet.symm]
  simp only [Option.some.injEq, Bool.not_eq_false', List.any_eq_true, decide_eq_true_eq]
  constructor
  · rintro ⟨e, he, hend⟩
    exact ⟨e, he, hend.imp Eq.symm Eq.symm⟩
  · rintro ⟨e, he, hend⟩
    exact ⟨e, he, hend.imp Eq.symm Eq.symm⟩

theorem network_iff (hl : Ranges l) (hnet : InNetwork net mask net) :
    (isNetworkAllocated l net mask = some false ↔ ∃ a, Holds l a ∧ InNetwork net mask a) ↔ ¬ Swallowed l net mask := by
  rw [isNetworkAllocated_false hnet]
  constructor
  · rintro hexact ⟨⟨e, he, a, hlow, hhigh, ha⟩, hends⟩
    obtain ⟨x, hx, hend⟩ := hexact.mpr ⟨a, ⟨e, he, hlow.le, hhigh.le⟩, ha⟩
    rcases hend with hend | hend
    · exact (hends x hx).1 hend
    · exact (hends x hx).2 hend
  · intro hnot
    constructor
    · rintro ⟨e, he, hend | hend⟩
      · exact ⟨_, ⟨e, he, Nat.le_refl _, (hl.proper e he).2.1⟩, hend⟩
      · exact ⟨_, ⟨e, he, (hl.proper e he).2.1, Nat.le_refl _⟩, hend⟩
    · rintro ⟨a, ⟨e, he, hlow, hhigh⟩, ha⟩
      by_contra hends
      simp only [not_exists, not_and, not_or] at hends
      refine hnot ⟨⟨e, he, a, ?_, ?_, ha⟩, hends⟩
      · refine lt_of_le_of_ne hlow fun heq => (hends e he).1 ?_
        rwa [heq]
      · refine lt_of_le_of_ne hhigh fun heq => (hends e he).2 ?_
        rwa [← heq]

/-- The mask of a prefix, which leaves `n` bits to the hosts. -/
def prefixMask (n : Nat) : Nat := (2 ^ (32 - n) - 1) * 2 ^ n

theorem inNetwork_prefix {n : Nat} (hn : n ≤ 32) (hmask : mask.val = prefixMask n)
    (hnet : InNetwork net mask net) (ha : a < 4294967296) :
    InNetwork net mask a ↔ net.val ≤ a ∧ a ≤ net.val + (2 ^ n - 1) := by
  have hfield : ∀ b < 4294967296, combineMask b mask = b / 2 ^ n * 2 ^ n := by
    intro b hb
    have hdiv : b / 2 ^ n < 2 ^ (32 - n) := by
      rw [Nat.div_lt_iff_lt_mul (Nat.two_pow_pos n), ← pow_add, Nat.sub_add_cancel hn]
      exact hb
    rw [combineMask, hmask, prefixMask, and_field, Nat.mod_eq_of_lt hdiv]
  unfold InNetwork at *
  rw [hfield a ha]
  rw [hfield net net.isLt] at hnet
  have hpow := Nat.two_pow_pos n
  have hrest := Nat.div_add_mod' a (2 ^ n)
  have hmod := Nat.mod_lt a hpow
  constructor
  · intro heq
    omega
  · rintro ⟨hle, hge⟩
    have hquotient : a / 2 ^ n = net.val / 2 ^ n := by
      refine Nat.div_eq_of_lt_le (by omega) ?_
      rw [Nat.add_mul]
      omega
    rw [hquotient, hnet]

theorem swallowed_prefix (hl : Ranges l) {n : Nat} (hn : n ≤ 32)
    (hmask : mask.val = prefixMask n) (hnet : InNetwork net mask net) :
    Swallowed l net mask ↔ ∃ e ∈ l, e.addrLow < net ∧ net.val + (2 ^ n - 1) < e.addrHigh := by
  have hin : ∀ e ∈ l, ∀ a ≤ e.addrHigh, InNetwork net mask a ↔ net.val ≤ a ∧ a ≤ net.val + (2 ^ n - 1) := by
    intro e he a ha
    exact inNetwork_prefix hn hmask hnet (ha.trans_lt (hl.proper e he).2.2)
  constructor
  · rintro ⟨⟨e, he, a, hlow, hhigh, ha⟩, hends⟩
    obtain ⟨hstart, hstop⟩ := hends e he
    rw [hin e he a hhigh.le] at ha
    rw [hin e he _ (hl.proper e he).2.1] at hstart
    rw [hin e he _ (Nat.le_refl _)] at hstop
    exact ⟨e, he, by omega, by omega⟩
  · rintro ⟨e, he, hlow, hhigh⟩
    refine ⟨⟨e, he, net, hlow, by omega, hnet⟩, fun x hx => ?_⟩
    have hproper := hl.proper x hx
    rw [hin x hx _ hproper.2.1, hin x hx _ (Nat.le_refl _)]
    by_cases hxe : x = e
    · rw [hxe]
      omega
    · -- another range is before or behind that one
      have hapart := hl.apart hx he hxe
      omega

/-- The range list is the set of the addresses accepted, and the queries are about that set. -/
structure Exact (log : List Allocation) (g : Ipv4AddressGenerator) : Prop where
  ranges : Ranges g.entries
  union : ∀ a, Holds g.entries a ↔ Accepted log a
  added : ∀ addr : Ipv4Address, addr.val ≠ 0 → (g.addAllocated addr.val = some (g, false) ↔ Accepted log addr.val)
  address : ∀ addr : Ipv4Address, addr.val ≠ 0 → (isAddressAllocated g.entries addr = some false ↔ Accepted log addr.val)

/-- `IsNetworkAllocated` is false just when an address accepted is in the network. -/
def NetworkExact (log : List Allocation) (g : Ipv4AddressGenerator) (net : Ipv4Address) (mask : Ipv4Mask) : Prop :=
  isNetworkAllocated g.entries net mask = some false ↔ ∃ a, Accepted log a ∧ InNetwork net mask a

/-- **The registry of addresses.** In every run the ranges are the set of the addresses accepted, and
the query for a network is exact just when the network is not inside a range: for a prefix,
when no range begins before it and ends behind it. -/
theorem registry_exact (tr : List (GeneratorEvent × List Allocation)) (g : Ipv4AddressGenerator)
    (h : Run machine anyStep { test := true } tr g) :
    Exact (outputs tr) g ∧ ∀ (net : Ipv4Address) (mask : Ipv4Mask), InNetwork net mask net →
      (NetworkExact (outputs tr) g net mask ↔ ¬ Swallowed g.entries net mask) ∧ ∀ n ≤ 32, mask.val = prefixMask n →
          (Swallowed g.entries net mask ↔ ∃ e ∈ g.entries, e.addrLow < net ∧ net.val + (2 ^ n - 1) < e.addrHigh) := by
  have hreg := Registered.of_run h
  refine ⟨⟨hreg.ranges, hreg.holds, fun addr hpos => hreg.addAllocated_false hpos addr.isLt,
    fun addr hpos => hreg.isAddressAllocated_false hpos⟩, fun net mask hnet => ⟨?_, fun n hn hmask => ?_⟩⟩
  · rw [← network_iff hreg.ranges hnet, NetworkExact]
    simp only [hreg.holds]
  · exact swallowed_prefix hreg.ranges hn hmask hnet

/-- The addresses from 10.0.0.3 to 10.0.0.8 in no order make three ranges that touch. -/
def scattered : List GeneratorEvent :=
  [.addAllocated 167772165, .addAllocated 167772163, .addAllocated 167772164, .addAllocated 167772168, .addAllocated 167772166,
    .addAllocated 167772167, .addAllocated 167772165]

def sequential : List GeneratorEvent :=
  [.init 167772160 4294967040 3, .nextAddress 4294967040, .nextAddress 4294967040, .nextAddress 4294967040,
    .nextAddress 4294967040, .nextAddress 4294967040, .nextAddress 4294967040]

theorem scattered_run : (machine.exec anyStep { test := true } scattered).isSome = true := by decide

theorem sequential_run : (machine.exec anyStep { test := true } sequential).isSome = true := by decide

/-- 10.0.0.4/30 is found by the ends of the ranges. -/
theorem scattered_exact : ∃ tr g, Run machine anyStep { test := true } tr g ∧ Exact (outputs tr) g ∧
    NetworkExact (outputs tr) g 167772164 4294967292 := by
  have hrun := run_of_isSome machine anyStep { test := true } scattered scattered_run
  obtain ⟨hexact, hnetwork⟩ := registry_exact _ _ hrun
  refine ⟨_, _, hrun, hexact, (hnetwork 167772164 4294967292 (by decide)).1.mpr ?_⟩
  rintro ⟨-, hends⟩
  revert hends
  decide

/-- **A network inside a range** is said to be free. -/
theorem sequential_missed : ∃ tr g, Run machine anyStep { test := true } tr g ∧
    ¬ NetworkExact (outputs tr) g 167772164 4294967292 := by
  refine ⟨_, _, run_of_isSome machine anyStep { test := true } sequential sequential_run, fun hexact => ?_⟩
  have hfree := hexact.mpr ⟨167772164, by decide⟩
  revert hfree
  decide

end Ipv4AddressGenerator

end Ns3
