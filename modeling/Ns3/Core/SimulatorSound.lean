import Mathlib.Data.List.GetD
import Ns3.Core.DefaultSimulatorImpl

/-!
# Every event is pending, dequeued once or removed

The simulator decides from the time, the uid and the mark of an event whether
it has expired. That agrees with the event list because the events stored are
all after the current one, in the order of the keys, and those dequeued are not.
-/

namespace Ns3

open Machine DefaultSimulatorImpl CalendarScheduler List

/-- What a run of a simulation has done: the events scheduled, dequeued and
removed, and the ids given to `Cancel`. -/
structure History where
  scheduled : List Event
  dequeued : List Event
  removed : List Event
  cancelled : List EventId

namespace History

def scheduledOf : EventFate → Option Event
  | .scheduled ev => some ev
  | _ => none

def dequeuedOf : EventFate → Option Event
  | .dequeued ev _ => some ev
  | _ => none

def removedOf : EventFate → Option Event
  | .removed ev => some ev
  | _ => none

def cancelledBy : SimulatorStep → List EventId
  | .call (.cancel id) => [id]
  | _ => []

def add (h : History) (e : SimulatorStep) (o : List EventFate) : History where
  scheduled := h.scheduled ++ o.filterMap scheduledOf
  dequeued := h.dequeued ++ o.filterMap dequeuedOf
  removed := h.removed ++ o.filterMap removedOf
  cancelled := h.cancelled ++ cancelledBy e

def empty : History := ⟨[], [], [], []⟩

def ofTrace (tr : List (SimulatorStep × List EventFate)) : History := tr.foldl (fun h c => h.add c.1 c.2) empty

theorem ofTrace_snoc (tr : List (SimulatorStep × List EventFate)) (e : SimulatorStep) (o : List EventFate) :
    ofTrace (tr ++ [(e, o)]) = (ofTrace tr).add e o := by
  rw [ofTrace, foldl_append]
  rfl

end History

namespace DefaultSimulatorImpl

variable {σ : Type}

/-- The key of the event that is current, as far as keys are compared. -/
def currentRank (m : DefaultSimulatorImpl σ) : Nat ×ₗ Nat := toLex (m.currentTs, m.currentUid)

theorem toInt_succ (k : Nat) : toInt (toInt k + 1) = toInt (k + 1 : Nat) := by
  rw [toInt, toInt, Int.bmod_add_bmod, toInt, Int.natCast_succ]

theorem toInt_pred (k : Nat) : toInt (toInt (k + 1 : Nat) - 1) = toInt k := by
  rw [toInt, toInt, Int.sub_eq_add_neg, Int.bmod_add_bmod, toInt, Int.natCast_succ, Int.add_neg_cancel_right]

theorem nextUid_eq {uid : Nat} (h : uid + 1 < 2 ^ 32) : nextUid uid = uid + 1 := Nat.mod_eq_of_lt h

theorem toUint64_eq {x : Int} (h0 : 0 ≤ x) (h : x < 2 ^ 63) : toUint64 x = x.toNat := by
  rw [toUint64, Int.emod_eq_of_lt h0 (by omega)]

theorem isExpired_iff (m : DefaultSimulatorImpl σ) (impls : List Bool) {id : EventId} {impl : Nat}
    (himpl : id.impl = some impl) (huid : id.uid ≠ 2) : m.isExpired impls id = true ↔
      id.ts < m.currentTs ∨ (id.ts = m.currentTs ∧ id.uid ≤ m.currentUid) ∨ isCancelled impls impl = true := by
  rw [isExpired, himpl]
  simp only
  rw [if_neg huid]
  by_cases hexp : id.ts < m.currentTs ∨ (id.ts = m.currentTs ∧ id.uid ≤ m.currentUid) ∨ isCancelled impls impl = true
  · rw [if_pos hexp]
    exact iff_of_true rfl hexp
  · rw [if_neg hexp]
    exact iff_of_false (by decide) hexp

theorem isExpired_id (m : DefaultSimulatorImpl σ) (impls : List Bool) {ev : Event} (huid : ev.key.uid ≠ 2) :
    m.isExpired impls ev.id = true ↔ ev.rank ≤ m.currentRank ∨ isCancelled impls ev.impl = true := by
  have hrank : ev.rank ≤ m.currentRank ↔
      ev.key.ts < m.currentTs ∨ (ev.key.ts = m.currentTs ∧ ev.key.uid ≤ m.currentUid) := Prod.Lex.toLex_le_toLex
  rw [hrank, or_assoc]
  exact isExpired_iff m impls rfl huid

theorem isCancelled_append (impls : List Bool) {impl : Nat} (h : impl < impls.length) :
    isCancelled (impls ++ [false]) impl = isCancelled impls impl := by
  rw [isCancelled, isCancelled, getD_append _ _ _ _ h]

theorem isCancelled_new (impls : List Bool) : isCancelled (impls ++ [false]) impls.length = false := by
  simp [isCancelled]

theorem isCancelled_set (impls : List Bool) {i : Nat} (h : i < impls.length) (impl : Nat) :
    isCancelled (impls.set i true) impl = (isCancelled impls impl || decide (impl = i)) := by
  unfold isCancelled
  by_cases he : impl = i
  · subst he
    simp [getD_eq_getElem?_getD, h]
  · have hne : i ≠ impl := fun h => he h.symm
    simp [getD_eq_getElem?_getD, getElem?_set_ne hne, he]

end DefaultSimulatorImpl

namespace Simulation

variable {σ : Type}

/-- What holds of a simulation with this history when `p` are the events stored. -/
structure Inv (Q : PriorityQueue σ) (h : History) (s : Simulation σ) (p : List Event) : Prop where
  holds : Q.Holds s.simulator.events p s.simulator.currentTs
  split : h.scheduled.Perm (p ++ (h.dequeued ++ h.removed))
  distinct : (h.scheduled.map (·.impl)).Nodup
  uid_eq : ∀ ev ∈ h.scheduled, ev.key.uid = ev.impl + 4
  impl_lt : ∀ ev ∈ h.scheduled, ev.impl < s.impls.length
  uid : s.simulator.uid = s.impls.length + 4
  room : s.impls.length < 2 ^ 32 - 4
  now_lt : s.simulator.currentTs < 2 ^ 63
  times : ∀ ev ∈ p, ev.key.ts < 2 ^ 63
  current : s.simulator.currentUid < s.impls.length + 4
  ahead : ∀ ev ∈ p, s.simulator.currentRank < ev.rank
  behind : ∀ ev ∈ h.dequeued, ev.rank ≤ s.simulator.currentRank
  increasing : h.dequeued.Pairwise fun a b => a.rank < b.rank
  count : s.simulator.unscheduledEvents = toInt p.length
  marked : ∀ ev ∈ p, isCancelled s.impls ev.impl = true ↔ ev.id ∈ h.cancelled
  removed : ∀ ev ∈ h.removed, isCancelled s.impls ev.impl = true
  ids : ∀ id ∈ s.ids, (∃ ev ∈ h.scheduled, id = ev.id) ∨
    (id.uid = 2 ∧ ∃ i, id.impl = some i ∧ i < s.impls.length ∧ ∀ ev ∈ h.scheduled, ev.impl ≠ i)
  cancelled : ∀ id ∈ h.cancelled, ∀ i, id.impl = some i → i < s.impls.length
  others : s.simulator.eventsWithContext = []

theorem inv_new (Q : PriorityQueue σ) : Inv Q .empty (new Q.new) [] where
  holds := Q.holds_new
  split := .refl _
  distinct := .nil
  uid_eq := by intro ev hev; cases hev
  impl_lt := by intro ev hev; cases hev
  uid := rfl
  room := (by decide : 0 < 2 ^ 32 - 4)
  now_lt := Nat.two_pow_pos 63
  times := by intro ev hev; cases hev
  current := Nat.succ_pos 3
  ahead := by intro ev hev; cases hev
  behind := by intro ev hev; cases hev
  increasing := .nil
  count := rfl
  marked := by intro ev hev; cases hev
  removed := by intro ev hev; cases hev
  ids := by intro id hid; cases hid
  cancelled := by intro id hid; cases hid
  others := rfl

section
variable {Q : PriorityQueue σ} {h : History} {s : Simulation σ} {p : List Event} {ev : Event}

theorem Inv.scheduled_of_pending (hinv : Inv Q h s p) (hev : ev ∈ p) : ev ∈ h.scheduled :=
  hinv.split.mem_iff.mpr (mem_append_left _ hev)

theorem Inv.scheduled_of_removed (hinv : Inv Q h s p) (hev : ev ∈ h.removed) : ev ∈ h.scheduled :=
  hinv.split.mem_iff.mpr (mem_append_right _ (mem_append_right _ hev))

theorem Inv.eq_of_impl (hinv : Inv Q h s p) {a b : Event} (ha : a ∈ h.scheduled) (hb : b ∈ h.scheduled)
    (heq : a.impl = b.impl) : a = b := inj_on_of_nodup_map hinv.distinct ha hb heq

theorem Inv.uid_ne_two (hinv : Inv Q h s p) (hev : ev ∈ h.scheduled) : ev.key.uid ≠ 2 := by
  have := hinv.uid_eq ev hev
  omega

theorem Inv.expired_iff (hinv : Inv Q h s p) (hev : ev ∈ h.scheduled) :
    s.simulator.isExpired s.impls ev.id = true ↔
      ev.rank ≤ s.simulator.currentRank ∨ isCancelled s.impls ev.impl = true :=
  isExpired_id s.simulator s.impls (hinv.uid_ne_two hev)

theorem Inv.pending_of_not_expired (hinv : Inv Q h s p) (hev : ev ∈ h.scheduled)
    (hnot : s.simulator.isExpired s.impls ev.id ≠ true) : ev ∈ p := by
  rw [Ne, hinv.expired_iff hev, not_or] at hnot
  rcases mem_append.mp (hinv.split.mem_iff.mp hev) with hp | hother
  · exact hp
  · rcases mem_append.mp hother with hd | hr
    · exact absurd (hinv.behind ev hd) hnot.1
    · exact absurd (hinv.removed ev hr) hnot.2

theorem Inv.pending_distinct (hinv : Inv Q h s p) : (p.map (·.impl)).Nodup := by
  have hn := (hinv.split.map (·.impl)).nodup_iff.mp hinv.distinct
  rw [map_append] at hn
  exact (nodup_append.mp hn).1

theorem Inv.not_mem_rest (hinv : Inv Q h s p) {rest : List Event} (hperm : p.Perm (ev :: rest)) :
    ∀ e ∈ rest, e.impl ≠ ev.impl := by
  have hn := (hperm.map (·.impl)).nodup_iff.mp hinv.pending_distinct
  intro e he heq
  exact (nodup_cons.mp hn).1 (List.mem_map.mpr ⟨e, he, heq⟩)

/-! ## Scheduling -/

variable {events : σ} {p' : List Event} {id : EventId}

theorem Inv.scheduled (hinv : Inv Q h s p) (hroom : s.Room) (himpl : ev.impl = s.impls.length)
    (huid : ev.key.uid = s.simulator.uid) (hnow : s.simulator.currentTs ≤ ev.key.ts) (hts : ev.key.ts < 2 ^ 63)
    (hperm : p'.Perm (ev :: p)) (hholds : Q.Holds events p' s.simulator.currentTs)
    {ids : List EventId} (hids : ∀ id ∈ ids, id ∈ s.ids ∨ id = ev.id) :
    Inv Q { h with scheduled := h.scheduled ++ [ev] }
      { s with
        simulator := { s.simulator with
          events := events
          uid := nextUid s.simulator.uid
          unscheduledEvents := toInt (s.simulator.unscheduledEvents + 1) }
        impls := s.impls ++ [false]
        ids := ids } p' := by
  have huid' := hinv.uid
  have hlt : s.impls.length + 1 < 2 ^ 32 - 4 := hroom
  have hlen : (s.impls ++ [false]).length = s.impls.length + 1 := by simp
  have hmem : ∀ e ∈ h.scheduled ++ [ev], e ∈ h.scheduled ∨ e = ev := fun e he => by simpa using he
  have hp' : ∀ e ∈ p', e = ev ∨ e ∈ p := fun e he => mem_cons.mp (hperm.mem_iff.mp he)
  constructor
  case holds => exact hholds
  case split =>
    refine (perm_append_singleton ev h.scheduled).trans ((hinv.split.cons ev).trans ?_)
    exact (hperm.append_right _).symm
  case distinct =>
    rw [map_append]
    refine nodup_append.mpr ⟨hinv.distinct, nodup_singleton _, ?_⟩
    intro i hi j hj hij
    obtain ⟨e, he, rfl⟩ := List.mem_map.mp hi
    have h1 := hinv.impl_lt e he
    have h2 : j = ev.impl := by simpa using hj
    lia
  case uid_eq =>
    intro e he
    rcases hmem e he with he | rfl
    · exact hinv.uid_eq e he
    · omega
  case impl_lt =>
    intro e he
    simp only [hlen]
    rcases hmem e he with he | rfl
    · have := hinv.impl_lt e he
      omega
    · omega
  case uid =>
    simp only [hlen]
    rw [nextUid_eq (by omega)]
    omega
  case room => simpa [hlen] using hlt
  case now_lt => exact hinv.now_lt
  case times =>
    intro e he
    rcases hp' e he with rfl | he
    · exact hts
    · exact hinv.times e he
  case current =>
    have := hinv.current
    lia
  case ahead =>
    intro e he
    rcases hp' e he with rfl | he
    · have hcur := hinv.current
      refine Prod.Lex.toLex_lt_toLex.mpr ?_
      rcases Nat.lt_or_ge s.simulator.currentTs e.key.ts with h1 | h1
      · exact .inl h1
      · exact .inr ⟨by simp only; omega, by simp only; omega⟩
    · exact hinv.ahead e he
  case behind => exact hinv.behind
  case increasing => exact hinv.increasing
  case count =>
    rw [hinv.count, toInt_succ, hperm.length_eq, length_cons]
  case marked =>
    intro e he
    rcases hp' e he with rfl | he
    · simp only [himpl, isCancelled_new]
      refine iff_of_false (by decide) fun hc => ?_
      have := hinv.cancelled _ hc e.impl rfl
      omega
    · simp only [isCancelled_append s.impls (hinv.impl_lt e (hinv.scheduled_of_pending he))]
      exact hinv.marked e he
  case removed =>
    intro e he
    simp only [isCancelled_append s.impls (hinv.impl_lt e (hinv.scheduled_of_removed he))]
    exact hinv.removed e he
  case ids =>
    intro id hid
    rcases hids id hid with hid | rfl
    · rcases hinv.ids id hid with ⟨e, he, rfl⟩ | ⟨h2, i, hi, hilt, hne⟩
      · exact .inl ⟨e, mem_append_left _ he, rfl⟩
      · refine .inr ⟨h2, i, hi, by simp only [hlen]; omega, fun e he => ?_⟩
        rcases hmem e he with he | rfl
        · exact hne e he
        · omega
    · exact .inl ⟨ev, by simp, rfl⟩
  case cancelled =>
    intro id hid i hi
    have := hinv.cancelled id hid i hi
    simp only [hlen]
    omega
  case others => exact hinv.others

theorem Inv.insertEvent (hinv : Inv Q h s p) (hroom : s.Room) (ts context : Nat)
    (hnow : s.simulator.currentTs ≤ ts) (hts : ts < 2 ^ 63) (returned : Bool) {c : SimulatorCall}
    (hc : History.cancelledBy (.call c) = []) :
    ∃ s' o p', s.scheduled returned (s.simulator.insertEvent Q.toEventList ts context s.impls.length) = some (s', o) ∧
      Inv Q (h.add (.call c) o) s' p' ∧ s.simulator.currentTs ≤ s'.simulator.currentTs ∧
      (∀ ev b, EventFate.dequeued ev b ∉ o) ∧
      s'.phase = s.phase ∧ s'.impls.length = s.impls.length + 1 ∧ p'.length = p.length + 1 := by
  have hfresh : s.simulator.uid ∉ p.map fun e => e.key.uid := by
    intro hmem
    obtain ⟨e, he, heq⟩ := List.mem_map.mp hmem
    have h1 := hinv.uid_eq e (hinv.scheduled_of_pending he)
    have h2 := hinv.impl_lt e (hinv.scheduled_of_pending he)
    have h3 := hinv.uid
    omega
  obtain ⟨events, p', hins, hperm, hholds⟩ :=
    Q.insert_spec ⟨s.impls.length, ts, s.simulator.uid, context⟩ hinv.holds ⟨hfresh, hts, hnow⟩
  have hadd : ∀ ev : Event, h.add (.call c) [.scheduled ev] = { h with scheduled := h.scheduled ++ [ev] } := by
    intro ev
    simp [History.add, History.scheduledOf, History.dequeuedOf, History.removedOf, hc]
  have hrun : s.scheduled returned (s.simulator.insertEvent Q.toEventList ts context s.impls.length) =
      some ({ s with
        simulator := { s.simulator with
          events := events
          uid := nextUid s.simulator.uid
          unscheduledEvents := toInt (s.simulator.unscheduledEvents + 1) }
        impls := s.impls ++ [false]
        ids := if returned then s.ids ++ [Event.id ⟨s.impls.length, ts, s.simulator.uid, context⟩] else s.ids },
        [.scheduled ⟨s.impls.length, ts, s.simulator.uid, context⟩]) := by
    rw [DefaultSimulatorImpl.insertEvent, hins]
    rfl
  have hinv' := hinv.scheduled hroom rfl rfl hnow hts hperm hholds
    fun id (hid : id ∈ if returned then s.ids ++ [Event.id ⟨s.impls.length, ts, s.simulator.uid, context⟩] else s.ids) => by
      cases returned with
      | false => exact .inl hid
      | true => simpa using hid
  rw [← hadd] at hinv'
  exact ⟨_, _, p', hrun, hinv', le_refl _, by simp, rfl, by simp, hperm.length_eq⟩

theorem Inv.scheduleDestroy (hinv : Inv Q h s p) (hroom : s.Room) :
    Inv Q h { s with
      simulator := (s.simulator.scheduleDestroy s.impls.length).1
      impls := s.impls ++ [false]
      ids := s.ids ++ [(s.simulator.scheduleDestroy s.impls.length).2] } p := by
  have hlt : s.impls.length + 1 < 2 ^ 32 - 4 := hroom
  have hlen : (s.impls ++ [false]).length = s.impls.length + 1 := by simp
  have huid := hinv.uid
  have hcur := hinv.current
  exact { hinv with
    impl_lt := fun e he => by
      have := hinv.impl_lt e he
      simp only [hlen]
      omega
    uid := by
      simp only [hlen, DefaultSimulatorImpl.scheduleDestroy]
      rw [nextUid_eq (by omega)]
      omega
    room := by simpa [hlen] using hlt
    current := by
      simp only [hlen, DefaultSimulatorImpl.scheduleDestroy]
      omega
    marked := fun e he => by
      simp only [isCancelled_append s.impls (hinv.impl_lt e (hinv.scheduled_of_pending he))]
      exact hinv.marked e he
    removed := fun e he => by
      simp only [isCancelled_append s.impls (hinv.impl_lt e (hinv.scheduled_of_removed he))]
      exact hinv.removed e he
    ids := fun id hid => by
      simp only [hlen]
      rcases mem_append.mp hid with hid | hid
      · rcases hinv.ids id hid with hev | ⟨h2, i, hi, hilt, hne⟩
        · exact .inl hev
        · exact .inr ⟨h2, i, hi, by omega, hne⟩
      · rw [mem_singleton.mp hid]
        refine .inr ⟨rfl, s.impls.length, rfl, by omega, fun e he => ?_⟩
        have := hinv.impl_lt e he
        omega
    cancelled := fun id hid i hi => by
      have := hinv.cancelled id hid i hi
      simp only [hlen]
      omega }

/-! ## Cancelling and removing -/

theorem Inv.impl_of_id (hinv : Inv Q h s p) (hid : id ∈ s.ids) :
    ∃ i, id.impl = some i ∧ i < s.impls.length ∧ ∀ e ∈ h.scheduled, e.impl = i → id = e.id := by
  rcases hinv.ids id hid with ⟨ev, hev, rfl⟩ | ⟨-, i, hi, hilt, hne⟩
  · refine ⟨ev.impl, rfl, hinv.impl_lt ev hev, fun e he heq => ?_⟩
    rw [hinv.eq_of_impl he hev heq]
  · exact ⟨i, hi, hilt, fun e he heq => absurd heq (hne e he)⟩

theorem Inv.cancel (hinv : Inv Q h s p) (hid : id = .null ∨ id ∈ s.ids) :
    Inv Q { h with cancelled := h.cancelled ++ [id] } { s with impls := s.simulator.cancel s.impls id } p := by
  have hcancelled : ∀ id' ∈ h.cancelled ++ [id], ∀ i, id'.impl = some i → i < s.impls.length := by
    intro id' hid' i hi
    rcases mem_append.mp hid' with hid' | hid'
    · exact hinv.cancelled id' hid' i hi
    · rw [mem_singleton.mp hid'] at hi
      rcases hid with rfl | hid
      · cases hi
      · obtain ⟨j, hj, hjlt, -⟩ := hinv.impl_of_id hid
        have : i = j := Option.some.inj (hi.symm.trans hj)
        omega
  by_cases hexp : s.simulator.isExpired s.impls id = true
  · -- an event stored with this id is marked already
    rw [DefaultSimulatorImpl.cancel, if_pos hexp]
    exact { hinv with
      cancelled := hcancelled
      marked := fun e he => by
        rw [hinv.marked e he, mem_append, mem_singleton]
        constructor
        · exact .inl
        · rintro (hmem | rfl)
          · exact hmem
          · have hsched := hinv.scheduled_of_pending he
            rcases (hinv.expired_iff hsched).mp hexp with hle | hmark
            · exact absurd hle (not_le.mpr (hinv.ahead e he))
            · exact (hinv.marked e he).mp hmark }
  · have hids : id ∈ s.ids := by
      rcases hid with rfl | hid
      · exact absurd rfl hexp
      · exact hid
    obtain ⟨i, hi, hilt, hone⟩ := hinv.impl_of_id hids
    have himpls : s.simulator.cancel s.impls id = s.impls.set i true := by
      rw [DefaultSimulatorImpl.cancel, if_neg hexp, hi]
    rw [himpls]
    have hlen : (s.impls.set i true).length = s.impls.length := by simp
    exact { hinv with
      impl_lt := fun e he => by simpa [hlen] using hinv.impl_lt e he
      uid := by simpa [hlen] using hinv.uid
      room := by simpa [hlen] using hinv.room
      current := by simpa [hlen] using hinv.current
      marked := fun e he => by
        simp only [isCancelled_set s.impls hilt, Bool.or_eq_true, decide_eq_true_eq, mem_append,
          mem_singleton, hinv.marked e he]
        refine or_congr_right ⟨fun heq => (hone e (hinv.scheduled_of_pending he) heq).symm, ?_⟩
        rintro rfl
        exact Option.some.inj hi
      removed := fun e he => by
        simp [isCancelled_set s.impls hilt, hinv.removed e he]
      ids := fun id' hid' => by simpa [hlen] using hinv.ids id' hid'
      cancelled := fun id' hid' i' hi' => by simpa [hlen] using hcancelled id' hid' i' hi' }

theorem Inv.removed_event (hinv : Inv Q h s p) (hev : ev ∈ h.scheduled)
    (hperm : p.Perm (ev :: p')) (hholds : Q.Holds events p' s.simulator.currentTs) :
    Inv Q { h with removed := h.removed ++ [ev] }
      { s with
        simulator := { s.simulator with
          events := events
          unscheduledEvents := toInt (s.simulator.unscheduledEvents - 1) }
        impls := s.impls.set ev.impl true } p' := by
  have hilt := hinv.impl_lt ev hev
  have hlen : (s.impls.set ev.impl true).length = s.impls.length := by simp
  have hsub : ∀ e ∈ p', e ∈ p := fun e he => hperm.mem_iff.mpr (mem_cons_of_mem _ he)
  have hne := hinv.not_mem_rest hperm
  exact { hinv with
    holds := hholds
    split := by
      refine hinv.split.trans ((hperm.append_right _).trans ?_)
      simp only [cons_append, ← append_assoc]
      exact (perm_append_singleton ev _).symm
    impl_lt := fun e he => by simpa [hlen] using hinv.impl_lt e he
    uid := by simpa [hlen] using hinv.uid
    room := by simpa [hlen] using hinv.room
    current := by simpa [hlen] using hinv.current
    times := fun e he => hinv.times e (hsub e he)
    ahead := fun e he => hinv.ahead e (hsub e he)
    count := by
      rw [hinv.count, hperm.length_eq, length_cons, toInt_pred]
    marked := fun e he => by
      simp only [isCancelled_set s.impls hilt, hne e he, decide_false, Bool.or_false]
      exact hinv.marked e (hsub e he)
    removed := fun e he => by
      simp only [isCancelled_set s.impls hilt, Bool.or_eq_true, decide_eq_true_eq]
      rcases mem_append.mp he with he | he
      · exact .inl (hinv.removed e he)
      · exact .inr (by rw [mem_singleton.mp he])
    ids := fun id hid => by simpa [hlen] using hinv.ids id hid
    cancelled := fun id hid i hi => by simpa [hlen] using hinv.cancelled id hid i hi }

theorem Inv.remove (hinv : Inv Q h s p) (hid : id = .null ∨ id ∈ s.ids) :
    ∃ s' o p', s.call Q.toEventList (.remove id) = some (s', o) ∧ Inv Q (h.add (.call (.remove id)) o) s' p' ∧
      s.simulator.currentTs ≤ s'.simulator.currentTs ∧ ∀ ev b, EventFate.dequeued ev b ∉ o := by
  have hadd : h.add (.call (.remove id)) [] = h := by simp [History.add, History.cancelledBy]
  by_cases h2 : id.uid = 2
  · refine ⟨{ s with simulator := { s.simulator with destroyEvents := s.simulator.destroyEvents.erase id } }, [], p,
      ?_, ?_, le_refl _, by simp⟩
    · simp [call, DefaultSimulatorImpl.remove, h2]
    · rw [hadd]
      exact { hinv with }
  by_cases hexp : s.simulator.isExpired s.impls id = true
  · refine ⟨s, [], p, ?_, ?_, le_refl _, by simp⟩
    · simp [call, DefaultSimulatorImpl.remove, h2, hexp]
    · rw [hadd]
      exact hinv
  · obtain ⟨ev, hev, rfl⟩ : ∃ ev ∈ h.scheduled, id = ev.id := by
      rcases hid with rfl | hid
      · exact absurd rfl hexp
      · rcases hinv.ids id hid with hev | hdestroy
        · exact hev
        · exact absurd hdestroy.1 h2
    obtain ⟨events, p', hrem, hperm, hholds⟩ := Q.remove_spec hinv.holds (hinv.pending_of_not_expired hev hexp)
    have hrun : s.simulator.remove Q.toEventList s.impls ev.id = some ({ s.simulator with
        events := events, unscheduledEvents := toInt (s.simulator.unscheduledEvents - 1) },
        s.impls.set ev.impl true, some ev) := by
      rw [DefaultSimulatorImpl.remove, if_neg h2, if_neg hexp]
      change (Q.remove s.simulator.events ev).map _ = _
      rw [hrem]
      rfl
    have hadd' : h.add (.call (.remove ev.id)) [.removed ev] = { h with removed := h.removed ++ [ev] } := by
      simp [History.add, History.scheduledOf, History.dequeuedOf, History.removedOf, History.cancelledBy]
    have hinv' := hinv.removed_event hev hperm hholds
    rw [← hadd'] at hinv'
    have hcall : s.call Q.toEventList (.remove ev.id) = some ({ s with
        simulator := { s.simulator with
          events := events
          unscheduledEvents := toInt (s.simulator.unscheduledEvents - 1) }
        impls := s.impls.set ev.impl true }, [.removed ev]) := by
      rw [Simulation.call, hrun]
      rfl
    exact ⟨_, _, p', hcall, hinv', le_refl _, by simp⟩

/-! ## The loop -/

theorem Inv.dequeued (hinv : Inv Q h s p) (hperm : p.Perm (ev :: p'))
    (hleast : ∀ b ∈ p, ev.rank ≤ b.rank) (hholds : Q.Holds events p' ev.key.ts) (phase : Phase) :
    Inv Q { h with dequeued := h.dequeued ++ [ev] }
      { s with simulator := s.simulator.makeCurrent events ev, phase := phase } p' := by
  have hev : ev ∈ p := hperm.mem_iff.mpr mem_cons_self
  have hsched := hinv.scheduled_of_pending hev
  have hsub : ∀ e ∈ p', e ∈ p := fun e he => hperm.mem_iff.mpr (mem_cons_of_mem _ he)
  have hbefore : ∀ e ∈ h.dequeued, e.rank < ev.rank := fun e he =>
    lt_of_le_of_lt (hinv.behind e he) (hinv.ahead ev hev)
  exact { hinv with
    holds := hholds
    split := by
      refine hinv.split.trans ((hperm.append_right _).trans ?_)
      simp only [cons_append, append_assoc]
      refine Perm.trans ?_ (Perm.append_left p' perm_middle.symm)
      exact perm_middle.symm
    now_lt := hinv.times ev hev
    times := fun e he => hinv.times e (hsub e he)
    current := by
      have h1 := hinv.uid_eq ev hsched
      have h2 := hinv.impl_lt ev hsched
      simp only [makeCurrent]
      omega
    ahead := fun e he => by
      refine lt_of_le_of_ne (hleast e (hsub e he)) (Event.rank_ne fun huid => ?_)
      have h1 := hinv.uid_eq ev hsched
      have h2 := hinv.uid_eq e (hinv.scheduled_of_pending (hsub e he))
      exact hinv.not_mem_rest hperm e he (by omega)
    behind := fun e he => by
      rcases mem_append.mp he with he | he
      · exact le_of_lt (hbefore e he)
      · rw [mem_singleton.mp he]
        exact le_refl _
    increasing := by
      refine pairwise_append.mpr ⟨hinv.increasing, pairwise_singleton _ _, fun a ha b hb => ?_⟩
      rw [mem_singleton.mp hb]
      exact hbefore a ha
    count := by
      simp only [makeCurrent]
      rw [hinv.count, hperm.length_eq, length_cons, toInt_pred]
    marked := fun e he => hinv.marked e (hsub e he) }

theorem processAll_eq {m : DefaultSimulatorImpl σ} (hm : m.eventsWithContext = []) :
    m.processAllEventsWithContext Q.toEventList = some m := by
  rw [processAllEventsWithContext, hm, processEventsWithContext, ← hm]

theorem Inv.call (hinv : Inv Q h s p) {c : SimulatorCall} (hc : s.CallAllowed c) :
    ∃ s' o p', s.call Q.toEventList c = some (s', o) ∧ Inv Q (h.add (.call c) o) s' p' ∧
      s.simulator.currentTs ≤ s'.simulator.currentTs ∧ ∀ ev b, EventFate.dequeued ev b ∉ o := by
  cases c with
  | schedule delay =>
    obtain ⟨hroom, h0, hlt⟩ := hc
    obtain ⟨s', o, p', hrun, hinv', hle, hnot, -⟩ := hinv.insertEvent hroom
      (toUint64 (delay + s.simulator.currentTs)) s.simulator.currentContext (by rw [toUint64_eq (by omega) hlt]; omega)
      (by rw [toUint64_eq (by omega) hlt]; omega) true (c := .schedule delay) rfl
    exact ⟨s', o, p', by rw [Simulation.call, DefaultSimulatorImpl.schedule, if_pos h0, hrun], hinv', hle, hnot⟩
  | scheduleNow =>
    obtain ⟨s', o, p', hrun, hinv', hle, hnot, -⟩ := hinv.insertEvent hc _ s.simulator.currentContext
      (le_refl _) hinv.now_lt true (c := .scheduleNow) rfl
    exact ⟨s', o, p', hrun, hinv', hle, hnot⟩
  | scheduleWithContext context delay =>
    obtain ⟨hroom, h0, hlt⟩ := hc
    obtain ⟨s', o, p', hrun, hinv', hle, hnot, -⟩ := hinv.insertEvent hroom
      (toUint64 (delay + s.simulator.currentTs)) context (by rw [toUint64_eq (by omega) hlt]; omega)
      (by rw [toUint64_eq (by omega) hlt]; omega) false (c := .scheduleWithContext context delay) rfl
    exact ⟨s', o, p', hrun, hinv', hle, hnot⟩
  | scheduleDestroy =>
    have hadd : h.add (.call .scheduleDestroy) [] = h := by simp [History.add, History.cancelledBy]
    exact ⟨_, [], p, rfl, by rw [hadd]; exact hinv.scheduleDestroy hc, le_refl _, by simp⟩
  | cancel id =>
    have hadd : h.add (.call (.cancel id)) [] = { h with cancelled := h.cancelled ++ [id] } := by
      simp [History.add, History.cancelledBy]
    exact ⟨_, [], p, rfl, by rw [hadd]; exact hinv.cancel hc, le_refl _, by simp⟩
  | remove id => exact hinv.remove hc
  | stop =>
    have hadd : h.add (.call .stop) [] = h := by simp [History.add, History.cancelledBy]
    exact ⟨_, [], p, rfl, by rw [hadd]; exact { hinv with }, le_refl _, by simp⟩

/-- An event runs unless it was cancelled, and the time does not go back. -/
theorem Inv.step (hinv : Inv Q h s p) {e : SimulatorStep} (hallowed : s.Allowed Q.toEventList e) :
    ∃ s' o p', (machine Q.toEventList).step s e = some (s', o) ∧ Inv Q (h.add e o) s' p' ∧
      s.simulator.currentTs ≤ s'.simulator.currentTs ∧
      ∀ ev b, EventFate.dequeued ev b ∈ o → (b = true ↔ ev.id ∉ h.cancelled) := by
  have hadd : ∀ e, History.cancelledBy e = [] → h.add e [] = h := by
    intro e he
    simp [History.add, he]
  cases e with
  | call c =>
    obtain ⟨s', o, p', hrun, hinv', hle, hnot⟩ := hinv.call hallowed.2
    exact ⟨s', o, p', hrun, hinv', hle, fun ev b hmem => absurd hmem (hnot ev b)⟩
  | run =>
    refine ⟨{ s with simulator := { s.simulator with stop := false }, phase := .looping }, [], p, ?_, ?_, le_refl _, by simp⟩
    · simp [machine, Simulation.step, processAll_eq hinv.others]
    · rw [hadd _ rfl]
      exact { hinv with }
  | processOneEvent =>
    obtain ⟨-, hfin⟩ := hallowed
    have hne : p ≠ [] := by
      intro hnil
      have hempty := (Q.isEmpty_iff hinv.holds).mpr hnil
      simp [isFinished, hempty] at hfin
    obtain ⟨events, ev, p', hrem, hleast, hperm, hholds⟩ := Q.removeNext_spec hinv.holds hne
    have hev : ev ∈ p := hperm.mem_iff.mpr mem_cons_self
    have hts : s.simulator.currentTs ≤ ev.key.ts := by
      rcases Prod.Lex.toLex_lt_toLex.mp (hinv.ahead ev hev) with h1 | h1
      · exact le_of_lt h1
      · exact le_of_eq h1.1
    have hone : s.simulator.processOneEvent Q.toEventList = some (s.simulator.makeCurrent events ev, ev) := by
      rw [DefaultSimulatorImpl.processOneEvent, hrem]
      exact if_pos hts
    have hadd' : ∀ b, h.add .processOneEvent [.dequeued ev b] = { h with dequeued := h.dequeued ++ [ev] } := by
      intro b
      simp [History.add, History.scheduledOf, History.dequeuedOf, History.removedOf, History.cancelledBy]
    by_cases hmark : isCancelled s.impls ev.impl = true
    · have hall : (s.simulator.makeCurrent events ev).processAllEventsWithContext Q.toEventList =
          some (s.simulator.makeCurrent events ev) := processAll_eq hinv.others
      refine ⟨{ s with simulator := s.simulator.makeCurrent events ev }, [.dequeued ev false], p', ?_, ?_, hts, ?_⟩
      · simp [machine, Simulation.step, hone, hmark, hall]
      · rw [hadd']
        exact hinv.dequeued hperm hleast hholds s.phase
      · simpa using (hinv.marked ev hev).mp hmark
    · refine ⟨{ s with simulator := s.simulator.makeCurrent events ev, phase := .invoking }, [.dequeued ev true], p',
        ?_, ?_, hts, ?_⟩
      · simp [machine, Simulation.step, hone, hmark]
      · rw [hadd']
        exact hinv.dequeued hperm hleast hholds .invoking
      · simpa using fun hc => hmark ((hinv.marked ev hev).mpr hc)
  | «return» =>
    refine ⟨{ s with phase := .looping }, [], p, ?_, ?_, le_refl _, by simp⟩
    · simp [machine, Simulation.step, processAll_eq hinv.others]
    · rw [hadd _ rfl]
      exact { hinv with }
  | finish =>
    refine ⟨{ s with phase := .idle }, [], p, if_pos ?_, ?_, le_refl _, by simp⟩
    · by_cases hempty : Q.isEmpty s.simulator.events = true
      · refine .inr ?_
        rw [hinv.count, (Q.isEmpty_iff hinv.holds).mp hempty]
        rfl
      · exact .inl hempty
    · rw [hadd _ rfl]
      exact { hinv with }

end

/-! ## Runs -/

section
variable {Q : PriorityQueue σ} {tr : List (SimulatorStep × List EventFate)} {s : Simulation σ}

/-- An event dequeued is invoked unless `Cancel` was called for it before. -/
def InvokedUnlessCancelled (tr : List (SimulatorStep × List EventFate)) : Prop :=
  ∀ tr₁ e o tr₂, tr = tr₁ ++ (e, o) :: tr₂ → ∀ ev b, EventFate.dequeued ev b ∈ o →
    (b = true ↔ ev.id ∉ (History.ofTrace tr₁).cancelled)

theorem InvokedUnlessCancelled.snoc (h : InvokedUnlessCancelled tr) {e : SimulatorStep} {o : List EventFate}
    (ho : ∀ ev b, EventFate.dequeued ev b ∈ o → (b = true ↔ ev.id ∉ (History.ofTrace tr).cancelled)) :
    InvokedUnlessCancelled (tr ++ [(e, o)]) := by
  intro tr₁ e' o' tr₂ heq ev b hmem
  rcases eq_nil_or_concat tr₂ with rfl | ⟨tr₃, c, rfl⟩
  · obtain ⟨rfl, hlast⟩ := append_inj' heq rfl
    obtain ⟨rfl, rfl⟩ : e = e' ∧ o = o' := by simpa using hlast
    exact ho ev b hmem
  · rw [concat_eq_append, ← cons_append, ← append_assoc] at heq
    obtain ⟨rfl, -⟩ := append_inj' heq rfl
    exact h tr₁ e' o' tr₃ rfl ev b hmem

theorem run_inv (hrun : Run (machine Q.toEventList) (Allowed Q.toEventList) (new Q.new) tr s) :
    (∃ p, Inv Q (History.ofTrace tr) s p) ∧ InvokedUnlessCancelled tr := by
  refine Run.invariant (fun tr s => (∃ p, Inv Q (History.ofTrace tr) s p) ∧ InvokedUnlessCancelled tr)
    ⟨⟨[], inv_new Q⟩, ?_⟩ ?_ hrun
  · intro tr₁ e o tr₂ heq
    simp at heq
  · rintro tr s e s' o ⟨⟨p, hinv⟩, hinvoked⟩ hallowed hstep
    obtain ⟨s₁, o₁, p', hstep₁, hinv', -, ho⟩ := hinv.step hallowed
    cases hstep₁.symm.trans hstep
    rw [← History.ofTrace_snoc] at hinv'
    exact ⟨⟨p', hinv'⟩, hinvoked.snoc ho⟩

/-- What the run says of every event scheduled, and what the simulator says. -/
structure Accounts (Q : PriorityQueue σ) (tr : List (SimulatorStep × List EventFate)) (s : Simulation σ) : Prop where
  uids : ((History.ofTrace tr).scheduled.map fun ev => ev.key.uid).Nodup
  increasing : (History.ofTrace tr).dequeued.Pairwise fun a b => a.rank < b.rank
  invoked : InvokedUnlessCancelled tr
  fates : ∃ pending, Q.Holds s.simulator.events pending s.simulator.currentTs ∧
    (History.ofTrace tr).scheduled.Perm (pending ++ ((History.ofTrace tr).dequeued ++ (History.ofTrace tr).removed)) ∧
    (pending.length < 2 ^ 31 → s.simulator.unscheduledEvents = pending.length)
  expired : ∀ ev ∈ (History.ofTrace tr).scheduled, s.simulator.isExpired s.impls ev.id = true ↔
    ev ∈ (History.ofTrace tr).dequeued ∨ ev.id ∈ (History.ofTrace tr).cancelled ∨ ev ∈ (History.ofTrace tr).removed

theorem toInt_of_lt {k : Nat} (hk : k < 2 ^ 31) : toInt k = k := by
  rw [toInt, Int.bmod_eq_of_le (by omega) (by omega)]

theorem Inv.expired {h : History} {p : List Event} (hinv : Inv Q h s p) {ev : Event} (hev : ev ∈ h.scheduled) :
    s.simulator.isExpired s.impls ev.id = true ↔ ev ∈ h.dequeued ∨ ev.id ∈ h.cancelled ∨ ev ∈ h.removed := by
  rw [hinv.expired_iff hev]
  rcases mem_append.mp (hinv.split.mem_iff.mp hev) with hp | hother
  · -- a stored event is neither dequeued nor removed
    have hn : (p ++ (h.dequeued ++ h.removed)).Nodup := hinv.split.nodup_iff.mp hinv.distinct.of_map
    have hdisj := (nodup_append.mp hn).2.2 ev hp
    have hd : ev ∉ h.dequeued := fun hmem => hdisj ev (mem_append_left _ hmem) rfl
    have hr : ev ∉ h.removed := fun hmem => hdisj ev (mem_append_right _ hmem) rfl
    have hahead : ¬ev.rank ≤ s.simulator.currentRank := not_le.mpr (hinv.ahead ev hp)
    simp [hd, hr, hahead, hinv.marked ev hp]
  · rcases mem_append.mp hother with hd | hr
    · exact iff_of_true (.inl (hinv.behind ev hd)) (.inl hd)
    · exact iff_of_true (.inr (hinv.removed ev hr)) (.inr (.inr hr))

/-- **Every event is pending, dequeued or removed**, once, and expired exactly
when it is dequeued, cancelled or removed. Events are dequeued in the order of
their keys, the time does not go back, and no assertion fails. -/
theorem accounts_of_run (hrun : Run (machine Q.toEventList) (Allowed Q.toEventList) (new Q.new) tr s) :
    Accounts Q tr s ∧ ∀ e, s.Allowed Q.toEventList e →
      ∃ s' o, (machine Q.toEventList).step s e = some (s', o) ∧ s.simulator.currentTs ≤ s'.simulator.currentTs := by
  obtain ⟨⟨p, hinv⟩, hinvoked⟩ := run_inv hrun
  refine ⟨⟨?_, hinv.increasing, hinvoked, ⟨p, hinv.holds, hinv.split, fun hp => ?_⟩, fun ev => hinv.expired⟩,
    fun e hallowed => ?_⟩
  · refine (nodup_map_iff_inj_on hinv.distinct.of_map).mpr fun a ha b hb huid => ?_
    have h1 := hinv.uid_eq a ha
    have h2 := hinv.uid_eq b hb
    exact hinv.eq_of_impl ha hb (by omega)
  · rw [hinv.count, toInt_of_lt hp]
  · obtain ⟨s', o, p', hstep, -, hle, -⟩ := hinv.step hallowed
    exact ⟨s', o, hstep, hle⟩

end

instance (s : Simulation σ) : (c : SimulatorCall) → Decidable (s.CallAllowed c)
  | .schedule delay => inferInstanceAs
      (Decidable (s.impls.length + 1 < 2 ^ 32 - 4 ∧ 0 ≤ delay ∧ delay + s.simulator.currentTs < 2 ^ 63))
  | .scheduleNow => inferInstanceAs (Decidable (s.impls.length + 1 < 2 ^ 32 - 4))
  | .scheduleWithContext _ delay => inferInstanceAs
      (Decidable (s.impls.length + 1 < 2 ^ 32 - 4 ∧ 0 ≤ delay ∧ delay + s.simulator.currentTs < 2 ^ 63))
  | .scheduleDestroy => inferInstanceAs (Decidable (s.impls.length + 1 < 2 ^ 32 - 4))
  | .cancel id => inferInstanceAs (Decidable (id = .null ∨ id ∈ s.ids))
  | .remove id => inferInstanceAs (Decidable (id = .null ∨ id ∈ s.ids))
  | .stop => .isTrue trivial

instance (Q : EventList σ) (s : Simulation σ) : (e : SimulatorStep) → Decidable (s.Allowed Q e)
  | .call c => inferInstanceAs (Decidable (s.phase ≠ .looping ∧ s.CallAllowed c))
  | .run => inferInstanceAs (Decidable (s.phase = .idle))
  | .processOneEvent => inferInstanceAs (Decidable (s.phase = .looping ∧ s.simulator.isFinished Q = false))
  | .return => inferInstanceAs (Decidable (s.phase = .invoking))
  | .finish => inferInstanceAs (Decidable (s.phase = .looping ∧ s.simulator.isFinished Q = true))

/-- The event `k` of a program that schedules without a context. -/
def eventAt (k ts : Nat) : Event := ⟨k, ts, k + 4, NO_CONTEXT⟩

/-- The event at 2 cancels one of the events at 5, removes the other and
schedules one for the same time, after itself. -/
def cancelAndRemove : List SimulatorStep :=
  [.call (.schedule 5), .call (.schedule 2), .call (.schedule 5), .run, .processOneEvent,
    .call (.cancel (eventAt 0 5).id), .call (.remove (eventAt 2 5).id), .call .scheduleNow, .return,
    .processOneEvent, .return, .processOneEvent, .finish]

theorem cancelAndRemove_isSome : ((machine (priorityQueue false).toEventList).exec
    (Allowed (priorityQueue false).toEventList) (new (priorityQueue false).new)
    cancelAndRemove).isSome := by
  decide +kernel

theorem cancel_and_remove_accounts : ∃ tr s, Run (machine (priorityQueue false).toEventList)
    (Allowed (priorityQueue false).toEventList) (new (priorityQueue false).new) tr s ∧
    (outputs tr).drop 3 = [.dequeued (eventAt 1 2) true, .removed (eventAt 2 5), .scheduled (eventAt 3 2),
      .dequeued (eventAt 3 2) true, .dequeued (eventAt 0 5) false] ∧
    Accounts (priorityQueue false) tr s := by
  have hrun := run_of_isSome _ _ _ _ cancelAndRemove_isSome
  exact ⟨_, _, hrun, by decide +kernel, (accounts_of_run hrun).1⟩

theorem exists_run_pending (Q : PriorityQueue σ) : ∀ k, k < 2 ^ 32 - 4 →
    ∃ tr s p, Run (machine Q.toEventList) (Allowed Q.toEventList) (new Q.new) tr s ∧
      Inv Q (History.ofTrace tr) s p ∧ s.phase = .idle ∧ s.impls.length = k ∧ p.length = k := by
  intro k
  induction k with
  | zero =>
    intro _
    exact ⟨[], new Q.new, [], .nil, inv_new Q, rfl, rfl, rfl⟩
  | succ k ih =>
    intro hk
    obtain ⟨tr, s, p, hrun, hinv, hphase, hlen, hp⟩ := ih (Nat.lt_of_succ_lt hk)
    have hroom : s.Room := by
      rw [Room, hlen]
      exact hk
    obtain ⟨s', o, p', hstep, hinv', -, -, hphase', hlen', hp'⟩ := hinv.insertEvent hroom _
      s.simulator.currentContext (le_refl _) hinv.now_lt true (c := .scheduleNow) rfl
    rw [← History.ofTrace_snoc] at hinv'
    have hallowed : s.Allowed Q.toEventList (.call .scheduleNow) := ⟨by rw [hphase]; decide, hroom⟩
    refine ⟨_, s', p', .snoc hrun hallowed hstep, hinv', ?_, ?_, ?_⟩
    · rw [hphase', hphase]
    · rw [hlen', hlen]
    · rw [hp', hp]

/-- **`m_unscheduledEvents` is an `int`**: with `2 ^ 31` events in the list it is
negative. -/
theorem unscheduledEvents_wraps :
    ∃ tr s p, Run (machine (priorityQueue false).toEventList)
      (Allowed (priorityQueue false).toEventList)
      (new (priorityQueue false).new) tr s ∧
      (priorityQueue false).Holds s.simulator.events p s.simulator.currentTs ∧
      s.simulator.unscheduledEvents ≠ p.length := by
  obtain ⟨tr, s, p, hrun, hinv, -, -, hp⟩ :=
    exists_run_pending (priorityQueue false) (2 ^ 31) (by decide)
  refine ⟨tr, s, p, hrun, hinv.holds, ?_⟩
  rw [hinv.count, hp]
  decide

end Simulation

end Ns3
