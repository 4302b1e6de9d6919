import Mathlib.Algebra.Order.Ring.Nat
import Mathlib.Data.List.Sort
import Mathlib.Data.Prod.Lex
import Ns3.Lib.Machine

/-!
# Schedulers

The interface of the event lists of the simulator, and what they are for:
`SortedList` keeps the events in the order of their keys. A scheduler is
correct when it answers every sequence of calls as the sorted list does.
-/

namespace Ns3

structure EventKey where
  ts : Nat
  uid : Nat
  context : Nat := 0
  deriving DecidableEq

structure Event where
  impl : Nat
  key : EventKey
  deriving DecidableEq

/-- `operator <` of the keys. -/
def EventKey.lt (a b : EventKey) : Bool :=
  if a.ts < b.ts then true
  else if a.ts = b.ts ∧ a.uid < b.uid then true
  else false

/-- `operator <` of the events. -/
def Event.lt (a b : Event) : Bool := a.key.lt b.key

def Event.rank (a : Event) : Nat ×ₗ Nat := toLex (a.key.ts, a.key.uid)

theorem Event.lt_iff (a b : Event) : a.lt b = true ↔ a.rank < b.rank := by
  simp only [Event.lt, EventKey.lt, rank, Prod.Lex.toLex_lt_toLex]
  split
  · simp_all
  · split
    · simp_all
    · simp_all

theorem Event.lt_eq_false_iff (a b : Event) : a.lt b = false ↔ b.rank ≤ a.rank := by
  rw [← Bool.not_eq_true, Event.lt_iff, not_lt]

theorem Event.rank_ne {a b : Event} (h : a.key.uid ≠ b.key.uid) : a.rank ≠ b.rank := by
  intro heq
  exact h (Prod.mk.inj (toLex.injective heq)).2

inductive SchedulerCall where
  | insert (ev : Event)
  | peekNext
  | removeNext
  | remove (ev : Event)

/-- The methods of a scheduler; a call with no result is a failed assertion
or undefined behaviour. -/
structure Scheduler (σ : Type) where
  insert : σ → Event → Option σ
  peekNext : σ → Option Event
  removeNext : σ → Option (σ × Event)
  remove : σ → Event → Option σ

def Scheduler.machine {σ : Type} (S : Scheduler σ) : Machine σ SchedulerCall Event where
  step s
    | .insert ev => (S.insert s ev).map fun s' => (s', [])
    | .peekNext => (S.peekNext s).map fun ev => (s, [ev])
    | .removeNext => (S.removeNext s).map fun r => (r.1, [r.2])
    | .remove ev => (S.remove s ev).map fun s' => (s', [])

namespace SortedList

def insert (l : List Event) (ev : Event) : List Event := l.orderedInsert (fun a b => a.rank ≤ b.rank) ev

/-- Events in the order of their keys: the next one is the first. -/
def scheduler : Scheduler (List Event) where
  insert l ev := some (insert l ev)
  peekNext l := l.head?
  removeNext
    | [] => none
    | ev :: l => some (l, ev)
  remove l ev := if ev ∈ l then some (l.erase ev) else none

/-- The events have distinct uids and increasing keys. -/
structure Sorted (l : List Event) : Prop where
  increasing : l.Pairwise fun a b => a.rank < b.rank
  distinct : (l.map fun ev => ev.key.uid).Nodup

theorem sorted_nil : Sorted [] := ⟨.nil, .nil⟩

section
variable {l : List Event} {ev : Event}

theorem insert_perm (l : List Event) (ev : Event) : (insert l ev).Perm (ev :: l) := List.perm_orderedInsert _ ev l

theorem Sorted.sublist (h : Sorted l) {l' : List Event} (hs : l'.Sublist l) : Sorted l' :=
  ⟨h.increasing.sublist hs, h.distinct.sublist (hs.map _)⟩

theorem Sorted.insert (h : Sorted l) (hev : ev.key.uid ∉ l.map fun e => e.key.uid) : Sorted (insert l ev) := by
  have hperm := insert_perm l ev
  have hdistinct : ((SortedList.insert l ev).map fun e => e.key.uid).Nodup :=
    (hperm.map _).nodup_iff.mpr (List.nodup_cons.mpr ⟨hev, h.distinct⟩)
  have hle : (SortedList.insert l ev).Pairwise fun a b => a.rank ≤ b.rank :=
    List.Pairwise.orderedInsert ev l (h.increasing.imp le_of_lt)
  refine ⟨(hle.and (List.Pairwise.of_map _ (fun _ _ => id) hdistinct)).imp ?_, hdistinct⟩
  rintro a b ⟨hab, hne⟩
  exact lt_of_le_of_ne hab (Event.rank_ne hne)

theorem Sorted.eq_of_least {a : Event} (h : Sorted (a :: l)) (hev : ev ∈ a :: l)
    (hleast : ∀ b ∈ a :: l, ev.rank ≤ b.rank) : ev = a := by
  rcases List.mem_cons.mp hev with rfl | hmem
  · rfl
  · have hlt := (List.pairwise_cons.mp h.increasing).1 ev hmem
    exact absurd (hleast a List.mem_cons_self) (not_le.mpr hlt)

end

end SortedList

/-- What a call does to the events stored, and what it returns. -/
def Serves (before after : List Event) : SchedulerCall → List Event → Prop
  | .insert ev, o => o = [] ∧ after.Perm (ev :: before)
  | .peekNext, o => ∃ ev, o = [ev] ∧ ev ∈ before ∧ (∀ b ∈ before, ev.rank ≤ b.rank) ∧ after.Perm before
  | .removeNext, o => ∃ ev, o = [ev] ∧ (∀ b ∈ before, ev.rank ≤ b.rank) ∧ before.Perm (ev :: after)
  | .remove ev, o => o = [] ∧ before.Perm (ev :: after)

/-- An event inserted has a uid of its own. -/
def Fresh (stored : List Event) : SchedulerCall → Prop
  | .insert ev => ev.key.uid ∉ stored.map fun e => e.key.uid
  | _ => True

/-- An event inserted has a uid of its own and a time below `2 ^ 63`, not before
the last time returned; an event is there to be returned or removed. -/
def InOrder (stored : List Event) (last : Nat) : SchedulerCall → Prop
  | .insert ev => (ev.key.uid ∉ stored.map fun e => e.key.uid) ∧ ev.key.ts < 2 ^ 63 ∧ last ≤ ev.key.ts
  | .peekNext => stored ≠ []
  | .removeNext => stored ≠ []
  | .remove ev => ev ∈ stored

instance (stored : List Event) (last : Nat) : (call : SchedulerCall) → Decidable (InOrder stored last call)
  | .insert ev => inferInstanceAs
      (Decidable ((ev.key.uid ∉ stored.map fun e => e.key.uid) ∧ ev.key.ts < 2 ^ 63 ∧ last ≤ ev.key.ts))
  | .peekNext => inferInstanceAs (Decidable (stored ≠ []))
  | .removeNext => inferInstanceAs (Decidable (stored ≠ []))
  | .remove ev => inferInstanceAs (Decidable (ev ∈ stored))

theorem InOrder.fresh {stored : List Event} {last : Nat} {call : SchedulerCall} (h : InOrder stored last call) :
    Fresh stored call := by
  cases call with
  | insert ev => exact h.1
  | peekNext | removeNext | remove ev => trivial

/-- The last time returned by `RemoveNext` after a call that returned `o`. -/
def lastTime (last : Nat) (call : SchedulerCall) (o : List Event) : Nat :=
  match call, o with
  | .removeNext, ev :: _ => ev.key.ts
  | _, _ => last

open SortedList in
theorem Serves.sortedList {before after l o : List Event} {call : SchedulerCall} (h : Serves before after call o)
    (hl : Sorted l) (hperm : before.Perm l) (hfresh : Fresh before call) :
    ∃ l', scheduler.machine.step l call = some (l', o) ∧ Sorted l' ∧ after.Perm l' := by
  cases call with
  | insert ev =>
    obtain ⟨rfl, hafter⟩ := h
    have hnot : ev.key.uid ∉ l.map fun e => e.key.uid := fun hmem => hfresh ((hperm.map _).mem_iff.mpr hmem)
    exact ⟨_, rfl, hl.insert hnot, hafter.trans ((hperm.cons ev).trans (insert_perm l ev).symm)⟩
  | peekNext =>
    obtain ⟨ev, rfl, hmem, hleast, hafter⟩ := h
    cases l with
    | nil => cases hperm.mem_iff.mp hmem
    | cons a l =>
      obtain rfl := hl.eq_of_least (hperm.mem_iff.mp hmem) fun b hb => hleast b (hperm.mem_iff.mpr hb)
      exact ⟨_, rfl, hl, hafter.trans hperm⟩
  | removeNext =>
    obtain ⟨ev, rfl, hleast, hafter⟩ := h
    have hmem : ev ∈ l := hperm.mem_iff.mp (hafter.mem_iff.mpr List.mem_cons_self)
    cases l with
    | nil => cases hmem
    | cons a l =>
      obtain rfl := hl.eq_of_least hmem fun b hb => hleast b (hperm.mem_iff.mpr hb)
      exact ⟨l, rfl, hl.sublist (List.sublist_cons_self ev l), (hafter.symm.trans hperm).cons_inv⟩
  | remove ev =>
    obtain ⟨rfl, hafter⟩ := h
    have hl' : (ev :: after).Perm l := hafter.symm.trans hperm
    have hmem : ev ∈ l := hl'.mem_iff.mp List.mem_cons_self
    refine ⟨l.erase ev, ?_, hl.sublist List.erase_sublist, ?_⟩
    · simp [Scheduler.machine, scheduler, hmem]
    · simpa using hl'.erase ev

end Ns3
