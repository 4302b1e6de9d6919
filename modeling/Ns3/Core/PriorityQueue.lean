import Ns3.Core.CalendarSound

/-!
# Event lists the simulator can use

A correct priority queue on the keys stores a list of events and serves every
call in order. The calendar is one.
-/

namespace Ns3

structure EventList (σ : Type) extends Scheduler σ where
  isEmpty : σ → Bool

/-- `Holds s l last`: the events stored are `l`, and `last` is the last time
returned. -/
structure PriorityQueue (σ : Type) extends EventList σ where
  new : σ
  Holds : σ → List Event → Nat → Prop
  holds_new : Holds new [] 0
  isEmpty_iff : ∀ {s l last}, Holds s l last → (isEmpty s = true ↔ l = [])
  serves : ∀ {s l last call}, Holds s l last → InOrder l last call →
    ∃ s' o l', toScheduler.machine.step s call = some (s', o) ∧ Serves l l' call o ∧ Holds s' l' (lastTime last call o)

namespace PriorityQueue

variable {σ : Type} (Q : PriorityQueue σ) {s : σ} {l : List Event} {last : Nat}

theorem insert_spec (ev : Event) (h : Q.Holds s l last) (hev : InOrder l last (.insert ev)) :
    ∃ s' l', Q.insert s ev = some s' ∧ l'.Perm (ev :: l) ∧ Q.Holds s' l' last := by
  obtain ⟨s', o, l', hstep, ⟨rfl, hperm⟩, hholds⟩ := Q.serves h hev
  cases hins : Q.insert s ev with
  | none => simp [Scheduler.machine, hins] at hstep
  | some s₁ =>
    simp only [Scheduler.machine, hins, Option.map_some, Option.some.injEq, Prod.mk.injEq] at hstep
    exact ⟨s', l', by rw [hstep.1], hperm, hholds⟩

theorem removeNext_spec (h : Q.Holds s l last) (hne : l ≠ []) :
    ∃ s' ev l', Q.removeNext s = some (s', ev) ∧ (∀ b ∈ l, ev.rank ≤ b.rank) ∧ l.Perm (ev :: l') ∧
      Q.Holds s' l' ev.key.ts := by
  obtain ⟨s', o, l', hstep, ⟨ev, rfl, hleast, hperm⟩, hholds⟩ := @PriorityQueue.serves _ Q _ _ _ .removeNext h hne
  cases hrem : Q.removeNext s with
  | none => simp [Scheduler.machine, hrem] at hstep
  | some r =>
    simp only [Scheduler.machine, hrem, Option.map_some, Option.some.injEq, Prod.mk.injEq, List.cons.injEq,
      and_true] at hstep
    exact ⟨s', ev, l', by rw [← hstep.1, ← hstep.2], hleast, hperm, hholds⟩

theorem remove_spec {ev : Event} (h : Q.Holds s l last) (hev : ev ∈ l) :
    ∃ s' l', Q.remove s ev = some s' ∧ l.Perm (ev :: l') ∧ Q.Holds s' l' last := by
  obtain ⟨s', o, l', hstep, ⟨rfl, hperm⟩, hholds⟩ := @PriorityQueue.serves _ Q _ _ _ (.remove ev) h hev
  cases hrem : Q.remove s ev with
  | none => simp [Scheduler.machine, hrem] at hstep
  | some s₁ =>
    simp only [Scheduler.machine, hrem, Option.map_some, Option.some.injEq, Prod.mk.injEq] at hstep
    exact ⟨s', l', by rw [hstep.1], hperm, hholds⟩

end PriorityQueue

/-- The calendar, either way round. -/
def CalendarScheduler.priorityQueue (reverse : Bool) : PriorityQueue CalendarScheduler where
  toScheduler := CalendarScheduler.scheduler
  isEmpty := CalendarScheduler.isEmpty
  new := CalendarScheduler.new reverse
  Holds s l last := CalendarScheduler.Inv s ∧ l = s.events ∧ last = s.lastPrio
  holds_new := ⟨CalendarScheduler.inv_new reverse, rfl, rfl⟩
  isEmpty_iff := by
    rintro s l last ⟨hinv, rfl, -⟩
    rw [CalendarScheduler.isEmpty, decide_eq_true_eq, hinv.qSize, List.length_eq_zero_iff]
  serves := by
    rintro s l last call ⟨hinv, rfl, rfl⟩ hcall
    obtain ⟨s', o, hstep, hinv', hserves, hlast⟩ := hinv.step hcall
    exact ⟨s', o, s'.events, hstep, hserves, hinv', rfl, hlast.symm⟩

end Ns3
