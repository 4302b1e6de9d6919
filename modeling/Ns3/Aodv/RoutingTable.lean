import Mathlib.Logic.Function.Basic
import Ns3.Internet.Ipv4Address

/-!
# The routing table of AODV

An entry for each destination. Every lookup purges the table first: what has
expired becomes invalid, and what was invalid already is erased. Times are in
nanoseconds.
-/

namespace Ns3

namespace Aodv

inductive RouteFlags where
  | VALID
  | INVALID
  | IN_SEARCH
  deriving DecidableEq

def noAddress : Ipv4Address := 0x66666666

/-- The interface stands for the device and the address that belong to it. -/
structure RoutingTableEntry where
  validSeqNo : Bool
  seqNo : BitVec 32
  hops : Nat
  lifeTime : Int
  iface : Nat
  flag : RouteFlags
  reqCount : Nat
  blackListState : Bool
  destination : Ipv4Address
  nextHop : Ipv4Address
  precursorList : List Ipv4Address
  deriving DecidableEq

namespace RoutingTableEntry

def create (now : Int) (iface : Nat) (destination : Ipv4Address) (validSeqNo : Bool) (seqNo : BitVec 32) (hops : Nat)
    (nextHop : Ipv4Address) (lifeTime : Int) : RoutingTableEntry where
  validSeqNo := validSeqNo
  seqNo := seqNo
  hops := hops
  lifeTime := lifeTime + now
  iface := iface
  flag := .VALID
  reqCount := 0
  blackListState := false
  destination := destination
  nextHop := nextHop
  precursorList := []

/-- `RoutingTableEntry ()`. -/
def initial (now : Int) : RoutingTableEntry := create now 0 noAddress false 0 0 noAddress now

def insertPrecursor (e : RoutingTableEntry) (id : Ipv4Address) : RoutingTableEntry :=
  if id ∈ e.precursorList then e else { e with precursorList := e.precursorList ++ [id] }

def getLifeTime (e : RoutingTableEntry) (now : Int) : Int := e.lifeTime - now

def invalidate (e : RoutingTableEntry) (now badLinkLifetime : Int) : RoutingTableEntry :=
  if e.flag = .INVALID then e else { e with flag := .INVALID, reqCount := 0, lifeTime := badLinkLifetime + now }

def purge (e : RoutingTableEntry) (now badLinkLifetime : Int) : Option RoutingTableEntry :=
  if e.getLifeTime now < 0 then
    match e.flag with
    | .INVALID => none
    | .VALID => some (e.invalidate now badLinkLifetime)
    | .IN_SEARCH => some e
  else some e

def triple (e : RoutingTableEntry) : BitVec 32 × Ipv4Address × Nat := (e.seqNo, e.nextHop, e.hops)

@[simp] theorem destination_insertPrecursor (e : RoutingTableEntry) (id : Ipv4Address) :
    (e.insertPrecursor id).destination = e.destination := by
  unfold insertPrecursor
  split <;> rfl

@[simp] theorem triple_insertPrecursor (e : RoutingTableEntry) (id : Ipv4Address) :
    (e.insertPrecursor id).triple = e.triple := by
  unfold insertPrecursor
  split <;> rfl

@[simp] theorem flag_insertPrecursor (e : RoutingTableEntry) (id : Ipv4Address) : (e.insertPrecursor id).flag = e.flag := by
  unfold insertPrecursor
  split <;> rfl

@[simp] theorem lifeTime_insertPrecursor (e : RoutingTableEntry) (id : Ipv4Address) :
    (e.insertPrecursor id).lifeTime = e.lifeTime := by
  unfold insertPrecursor
  split <;> rfl

@[simp] theorem destination_invalidate (e : RoutingTableEntry) (now badLinkLifetime : Int) :
    (e.invalidate now badLinkLifetime).destination = e.destination := by
  unfold invalidate
  split <;> rfl

@[simp] theorem triple_invalidate (e : RoutingTableEntry) (now badLinkLifetime : Int) :
    (e.invalidate now badLinkLifetime).triple = e.triple := by
  unfold invalidate
  split <;> rfl

theorem lifeTime_invalidate {e : RoutingTableEntry} (now : Int) (badLinkLifetime : Nat) (h : e.flag = .VALID) :
    now ≤ (e.invalidate now badLinkLifetime).lifeTime := by
  have hle : now ≤ (badLinkLifetime : Int) + now := by omega
  rw [invalidate, if_neg (by rw [h]; decide)]
  exact hle

theorem le_extended {e : RoutingTableEntry} {now : Int} (lifeTime : Int) (h : now ≤ e.lifeTime) :
    now ≤ max lifeTime (e.getLifeTime now) + now := by
  have hle : e.lifeTime - now ≤ max lifeTime (e.getLifeTime now) := le_max_right ..
  omega

theorem purge_some {e e' : RoutingTableEntry} {now badLinkLifetime : Int} (h : e.purge now badLinkLifetime = some e') :
    e'.destination = e.destination ∧ e'.triple = e.triple := by
  unfold purge at h
  split at h
  · split at h
    · cases h
    · cases h
      unfold invalidate
      split <;> exact ⟨rfl, rfl⟩
    · cases h
      exact ⟨rfl, rfl⟩
  · cases h
    exact ⟨rfl, rfl⟩

theorem purge_purge (e : RoutingTableEntry) (now : Int) (badLinkLifetime : Nat) :
    ((e.purge now badLinkLifetime).bind fun e => e.purge now badLinkLifetime) = e.purge now badLinkLifetime := by
  by_cases hlife : e.getLifeTime now < 0
  · cases hflag : e.flag with
    | INVALID => simp [purge, hlife, hflag]
    | VALID =>
      have hle : ¬ (e.invalidate now badLinkLifetime).getLifeTime now < 0 := by
        have hnow := lifeTime_invalidate now badLinkLifetime hflag
        simp only [getLifeTime]
        omega
      simp [purge, hlife, hflag, hle]
    | IN_SEARCH => simp [purge, hlife, hflag]
  · simp [purge, hlife]

end RoutingTableEntry

/-- A map whose entries know their key. -/
structure RoutingTable where
  entries : Ipv4Address → Option RoutingTableEntry
  badLinkLifetime : Nat
  keyed : ∀ id e, entries id = some e → e.destination = id

namespace RoutingTable

def purge (t : RoutingTable) (now : Int) : RoutingTable where
  entries id := (t.entries id).bind fun e => e.purge now t.badLinkLifetime
  badLinkLifetime := t.badLinkLifetime
  keyed := by
    intro id e h
    obtain ⟨e', he', h⟩ := Option.bind_eq_some_iff.mp h
    rw [(RoutingTableEntry.purge_some h).1, t.keyed id e' he']

theorem entries_purge (t : RoutingTable) (now : Int) (id : Ipv4Address) :
    (t.purge now).entries id = (t.entries id).bind fun e => e.purge now t.badLinkLifetime :=
  rfl

theorem entries_purge_purge (t : RoutingTable) (now : Int) (id : Ipv4Address) :
    ((t.purge now).purge now).entries id = (t.purge now).entries id := by
  rw [entries_purge, entries_purge, Option.bind_assoc]
  congr 1
  funext e
  exact e.purge_purge now t.badLinkLifetime

def lookupRoute (t : RoutingTable) (now : Int) (id : Ipv4Address) : Option RoutingTableEntry × RoutingTable :=
  ((t.purge now).entries id, t.purge now)

def lookupValidRoute (t : RoutingTable) (now : Int) (id : Ipv4Address) : Option RoutingTableEntry × RoutingTable :=
  ((t.lookupRoute now id).1.filter fun rt => rt.flag = .VALID, (t.lookupRoute now id).2)

/-- An entry that is not searched for counts no requests. -/
def withCount (rt : RoutingTableEntry) : RoutingTableEntry := if rt.flag ≠ .IN_SEARCH then { rt with reqCount := 0 } else rt

@[simp] theorem destination_withCount (rt : RoutingTableEntry) : (withCount rt).destination = rt.destination := by
  unfold withCount
  split <;> rfl

@[simp] theorem triple_withCount (rt : RoutingTableEntry) : (withCount rt).triple = rt.triple := by
  unfold withCount
  split <;> rfl

@[simp] theorem flag_withCount (rt : RoutingTableEntry) : (withCount rt).flag = rt.flag := by
  unfold withCount
  split <;> rfl

@[simp] theorem lifeTime_withCount (rt : RoutingTableEntry) : (withCount rt).lifeTime = rt.lifeTime := by
  unfold withCount
  split <;> rfl

def put (t : RoutingTable) (rt : RoutingTableEntry) : RoutingTable where
  entries := Function.update t.entries rt.destination (some (withCount rt))
  badLinkLifetime := t.badLinkLifetime
  keyed := by
    intro id e h
    by_cases hid : id = rt.destination
    · subst hid
      rw [Function.update_self] at h
      obtain rfl := Option.some.inj h
      exact destination_withCount rt
    · rw [Function.update_of_ne hid] at h
      exact t.keyed id e h

/-- An entry that is there is not replaced. -/
def addRoute (t : RoutingTable) (now : Int) (rt : RoutingTableEntry) : RoutingTable :=
  match (t.purge now).entries rt.destination with
  | none => (t.purge now).put rt
  | some _ => t.purge now

/-- An entry that is not there is not added. -/
def update (t : RoutingTable) (rt : RoutingTableEntry) : RoutingTable :=
  match t.entries rt.destination with
  | none => t
  | some _ => t.put rt

def getListOfDestinationWithNextHop (t : RoutingTable) (nextHop id : Ipv4Address) : Bool :=
  (t.entries id).any fun e => e.nextHop = nextHop

def invalidateRoutesWithDst (t : RoutingTable) (now : Int) (unreachable : Ipv4Address → Bool) : RoutingTable where
  entries id := ((t.purge now).entries id).map fun e =>
    if unreachable id ∧ e.flag = .VALID then e.invalidate now t.badLinkLifetime else e
  badLinkLifetime := t.badLinkLifetime
  keyed := by
    intro id e h
    obtain ⟨e', he', rfl⟩ := Option.map_eq_some_iff.mp h
    have hkey := (t.purge now).keyed id e' he'
    split
    · rw [RoutingTableEntry.destination_invalidate, hkey]
    · exact hkey

/-! ## What stays of an entry -/

/-- The table has an entry for `d` with these three, and the next purge does not erase it. -/
def Holds (t : RoutingTable) (now : Int) (d : Ipv4Address) (tr : BitVec 32 × Ipv4Address × Nat) : Prop :=
  ∃ e, t.entries d = some e ∧ e.triple = tr ∧ (e.flag = .INVALID → now ≤ e.lifeTime)

variable {t : RoutingTable} {now : Int} {d id : Ipv4Address} {tr : BitVec 32 × Ipv4Address × Nat} {rt e : RoutingTableEntry}

theorem purge_found (h : (t.purge now).entries id = some e) : e.destination = id ∧ (e.flag = .INVALID → now ≤ e.lifeTime) := by
  refine ⟨(t.purge now).keyed id e h, ?_⟩
  obtain ⟨e', -, h⟩ := Option.bind_eq_some_iff.mp h
  unfold RoutingTableEntry.purge at h
  split at h
  · split at h
    · cases h
    · rename_i hflag
      cases h
      intro _
      exact RoutingTableEntry.lifeTime_invalidate now t.badLinkLifetime hflag
    · rename_i hflag
      cases h
      intro hinvalid
      rw [hflag] at hinvalid
      cases hinvalid
  · rename_i hlife
    cases h
    intro _
    simp only [RoutingTableEntry.getLifeTime] at hlife
    omega

theorem holds_purge (h : (t.purge now).entries d = some e) : (t.purge now).Holds now d e.triple :=
  ⟨e, h, rfl, (purge_found h).2⟩

theorem Holds.purge (h : t.Holds now d tr) : (t.purge now).Holds now d tr := by
  obtain ⟨e, he, htr, hlife⟩ := h
  have hkept : ∃ e', e.purge now t.badLinkLifetime = some e' := by
    unfold RoutingTableEntry.purge
    split
    · rename_i hneg
      split
      · rename_i hflag
        have hle := hlife hflag
        simp only [RoutingTableEntry.getLifeTime] at hneg
        omega
      · exact ⟨_, rfl⟩
      · exact ⟨_, rfl⟩
    · exact ⟨_, rfl⟩
  obtain ⟨e', he'⟩ := hkept
  have hfound : (t.purge now).entries d = some e' := by simp [RoutingTable.purge, he, he']
  have hsame := (RoutingTableEntry.purge_some he').2
  rw [← htr, ← hsame]
  exact holds_purge hfound

theorem Holds.put_ne (h : t.Holds now d tr) (hne : rt.destination ≠ d) : (t.put rt).Holds now d tr := by
  obtain ⟨e, he, hrest⟩ := h
  exact ⟨e, by simpa [RoutingTable.put, Function.update_of_ne hne.symm] using he, hrest⟩

theorem holds_put (hd : rt.destination = d) (hlife : rt.flag = .INVALID → now ≤ rt.lifeTime) :
    (t.put rt).Holds now d rt.triple := by
  subst hd
  exact ⟨withCount rt, Function.update_self .., triple_withCount rt, by simpa using hlife⟩

theorem Holds.update_ne (h : t.Holds now d tr) (hne : rt.destination ≠ d) : (t.update rt).Holds now d tr := by
  unfold RoutingTable.update
  split
  · exact h
  · exact h.put_ne hne

theorem Holds.update_self (h : t.Holds now d tr) (hd : rt.destination = d) (hlife : rt.flag = .INVALID → now ≤ rt.lifeTime) :
    (t.update rt).Holds now d rt.triple := by
  obtain ⟨e, he, -⟩ := h
  unfold RoutingTable.update
  rw [hd, he]
  exact holds_put hd hlife

theorem Holds.update_same (h : t.Holds now d tr) (htr : rt.destination = d → rt.triple = tr)
    (hlife : rt.flag = .INVALID → now ≤ rt.lifeTime) : (t.update rt).Holds now d tr := by
  by_cases hd : rt.destination = d
  · rw [← htr hd]
    exact h.update_self hd hlife
  · exact h.update_ne hd

theorem Holds.addRoute_ne (h : t.Holds now d tr) (hne : rt.destination ≠ d) : (t.addRoute now rt).Holds now d tr := by
  unfold addRoute
  split
  · exact h.purge.put_ne hne
  · exact h.purge

theorem holds_addRoute (hd : rt.destination = d) (hnone : (t.purge now).entries d = none)
    (hlife : rt.flag = .INVALID → now ≤ rt.lifeTime) : (t.addRoute now rt).Holds now d rt.triple := by
  unfold addRoute
  rw [hd, hnone]
  exact holds_put hd hlife

theorem Holds.invalidateRoutesWithDst (h : t.Holds now d tr) (unreachable : Ipv4Address → Bool) :
    (t.invalidateRoutesWithDst now unreachable).Holds now d tr := by
  obtain ⟨e, he, htr, hlife⟩ := h.purge
  have hfound : (t.invalidateRoutesWithDst now unreachable).entries d =
      some (if unreachable d ∧ e.flag = .VALID then e.invalidate now t.badLinkLifetime else e) := by
    simp only [RoutingTable.invalidateRoutesWithDst, he, Option.map_some]
  refine ⟨_, hfound, ?_, ?_⟩
  · split
    · rw [RoutingTableEntry.triple_invalidate, htr]
    · exact htr
  · split
    · rename_i hflag
      exact fun _ => RoutingTableEntry.lifeTime_invalidate now t.badLinkLifetime hflag.2
    · exact hlife

theorem Holds.found (h : t.Holds now d tr) : ∃ e, (t.purge now).entries d = some e ∧ e.triple = tr := by
  obtain ⟨e, he, htr, -⟩ := h.purge
  exact ⟨e, he, htr⟩

end RoutingTable

end Aodv

end Ns3
