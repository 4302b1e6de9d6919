import Ns3.Core.SimulatorSound
import Ns3.Mpi.DistributedSimulatorImpl
import Mathlib.Tactic.Abel

/-!
# Soundness of the granted time windows

The floor of a state is the smallest time of the last exchange that found
nothing on its way. No event before the floor will be executed any more, no
packet arrives before the floor and the lookahead of its rank, and no rank is
past that time: a packet is never late, whatever the order in which the ranks
run and the packets arrive.
-/

namespace Ns3

open Machine Simulation DefaultSimulatorImpl RankState CalendarScheduler List Option

/-! ## Lookahead -/

section
variable {n : Nat} {channels : List (RankChannel n)} {bound : Fin (n + 1) → Int}

theorem foldl_le_of_mem {α : Type} {f : Int → α → Int} (hf : ∀ t a, f t a ≤ t) {a : α} {b : Int} (ha : ∀ t, f t a ≤ b)
    {l : List α} (t : Int) (hmem : a ∈ l) : l.foldl f t ≤ b := by
  obtain ⟨before, after, rfl⟩ := append_of_mem hmem
  rw [foldl_append, foldl_cons]
  exact foldlRecOn (motive := (· ≤ b)) after f (ha _) fun t ht a _ => (hf t a).trans ht

theorem channelLookAhead_le_bound (me : Fin (n + 1)) : channelLookAhead channels bound me ≤ bound me := by
  refine foldlRecOn (motive := (· ≤ bound me)) _ _ (le_refl _) fun t ht c _ => ?_
  split
  · rename_i h
    exact h.2.2.le.trans ht
  · exact ht

theorem channelLookAhead_le_delay {c : RankChannel n} {me remote : Fin (n + 1)} (hc : c ∈ channels)
    (hbetween : c.Between me remote) : channelLookAhead channels bound remote ≤ c.delay := by
  refine foldl_le_of_mem (fun t a => ?_) (fun t => ?_) _ hc
  · split
    · rename_i h
      exact h.2.2.le
    · exact le_refl _
  · obtain ⟨hends, hne⟩ := hbetween
    split
    · exact le_refl _
    · rename_i h
      by_contra hlt
      refine h ⟨?_, ?_, not_le.mp hlt⟩
      · rcases hends with ⟨-, h1⟩ | ⟨-, h0⟩
        · exact .inr h1
        · exact .inl h0
      · rcases hends with ⟨h0, h1⟩ | ⟨h1, h0⟩
        · rw [h0, h1]
          exact hne
        · rw [h0, h1]
          exact hne.symm

/-- The delays are not negative, and neither is what `BoundLookAhead` left. -/
structure GoodDelays (channels : List (RankChannel n)) (bound : Fin (n + 1) → Int) : Prop where
  delay : ∀ c ∈ channels, 0 ≤ c.delay ∧ c.delay ≤ maximumSimulationTime
  bound : ∀ i, 0 ≤ bound i ∧ bound i ≤ maximumSimulationTime

theorem GoodDelays.channelLookAhead_nonneg (h : GoodDelays channels bound) (me : Fin (n + 1)) :
    0 ≤ channelLookAhead channels bound me := by
  refine foldlRecOn (motive := (0 ≤ ·)) _ _ (h.bound me).1 fun t ht c hc => ?_
  split
  · exact (h.delay c hc).1
  · exact ht

theorem GoodDelays.sendbuf (h : GoodDelays channels bound) (me : Fin (n + 1)) :
    0 ≤ sendbuf channels bound me ∧ sendbuf channels bound me ≤ maximumSimulationTime := by
  unfold Ns3.sendbuf
  split
  · exact ⟨le_refl _, by decide⟩
  · exact ⟨h.channelLookAhead_nonneg me, (channelLookAhead_le_bound me).trans (h.bound me).2⟩

theorem GoodDelays.recvbuf (h : GoodDelays channels bound) :
    0 ≤ recvbuf channels bound ∧ recvbuf channels bound ≤ maximumSimulationTime :=
  foldlRecOn (motive := fun t => 0 ≤ t ∧ t ≤ maximumSimulationTime) _ _ (h.sendbuf 0)
    fun _ ht i _ => ⟨ht.1.trans (le_max_left _ _), max_le ht.2 (h.sendbuf i.succ).2⟩

theorem GoodDelays.lookAhead (h : GoodDelays channels bound) (me : Fin (n + 1)) :
    0 ≤ lookAhead channels bound me ∧ lookAhead channels bound me ≤ maximumSimulationTime := by
  unfold Ns3.lookAhead
  split
  · exact ⟨le_refl _, by decide⟩
  · split
    · exact h.recvbuf
    · exact ⟨h.channelLookAhead_nonneg me, (channelLookAhead_le_bound me).trans (h.bound me).2⟩

theorem GoodDelays.lookAhead_le_delay (h : GoodDelays channels bound) {c : RankChannel n} {me remote : Fin (n + 1)}
    (hc : c ∈ channels) (hbetween : c.Between me remote) : Ns3.lookAhead channels bound remote ≤ c.delay := by
  have hle := @channelLookAhead_le_delay n channels bound c me remote hc hbetween
  unfold Ns3.lookAhead
  split
  · exact (h.delay c hc).1
  · split
    · rename_i hmax
      rw [hmax.1] at hle
      exact h.recvbuf.2.trans hle
    · exact hle

end

/-! ## One rank -/

theorem PriorityQueue.peekNext_spec {σ : Type} (Q : PriorityQueue σ) {s : σ} {l : List Event} {last : Nat}
    (h : Q.Holds s l last) (hne : l ≠ []) : ∃ ev ∈ l, Q.peekNext s = some ev ∧ ∀ b ∈ l, ev.rank ≤ b.rank := by
  obtain ⟨s', o, l', hstep, ⟨ev, rfl, hmem, hleast, -⟩, -⟩ := @PriorityQueue.serves _ Q _ _ _ .peekNext h hne
  cases hpeek : Q.peekNext s with
  | none => simp [Scheduler.machine, hpeek] at hstep
  | some ev' =>
    simp only [Scheduler.machine, hpeek, map_some, Option.some.injEq, Prod.mk.injEq, List.cons.injEq, and_true] at hstep
    exact ⟨ev, hmem, by rw [hstep.2], hleast⟩

namespace Simulation

variable {σ : Type} {Q : PriorityQueue σ} {h : History} {s s' : Simulation σ} {p : List Event} {o : List EventFate}

variable {ev : Event}

theorem Inv.now_le (hinv : Inv Q h s p) (hev : ev ∈ p) : s.simulator.currentTs ≤ ev.key.ts := by
  rcases Prod.Lex.toLex_lt_toLex.mp (hinv.ahead ev hev) with hlt | heq
  · exact hlt.le
  · exact heq.1.le

theorem ts_le_of_rank {a b : Event} (h : a.rank ≤ b.rank) : a.key.ts ≤ b.key.ts := by
  rcases Prod.Lex.toLex_le_toLex.mp h with hlt | heq
  · exact hlt.le
  · exact heq.1.le

theorem Inv.ne_nil (hinv : Inv Q h s p) (hfin : s.simulator.isFinished Q.toEventList = false) : p ≠ [] := by
  intro hnil
  have hempty := (Q.isEmpty_iff hinv.holds).mpr hnil
  simp [isFinished, hempty] at hfin

theorem insertEvent_frame {Q : EventList σ} {m m' : DefaultSimulatorImpl σ} {ts context impl : Nat}
    (h : m.insertEvent Q ts context impl = some (m', ev)) :
    m'.currentTs = m.currentTs ∧ m'.stop = m.stop ∧ ev.key.ts = ts := by
  obtain ⟨events, -, heq⟩ := map_eq_some_iff.mp h
  cases heq
  exact ⟨rfl, rfl, rfl⟩

theorem scheduled_frame {returned : Bool} {r : Option (DefaultSimulatorImpl σ × Event)}
    (h : s.scheduled returned r = some (s', o)) :
    ∃ m ev, r = some (m, ev) ∧ s'.simulator = m ∧ s'.phase = s.phase ∧ o = [.scheduled ev] := by
  obtain ⟨⟨m, ev⟩, hr, heq⟩ := map_eq_some_iff.mp h
  cases heq
  exact ⟨m, ev, hr, rfl, rfl, rfl⟩

theorem call_frame {Q : EventList σ} {c : SimulatorCall} (h : s.call Q c = some (s', o)) :
    s'.simulator.currentTs = s.simulator.currentTs ∧ s'.phase = s.phase := by
  cases c with
  | schedule delay =>
    obtain ⟨m, ev, hr, hsim, hphase, -⟩ := scheduled_frame h
    unfold DefaultSimulatorImpl.schedule at hr
    split at hr
    · rw [hsim]
      exact ⟨(insertEvent_frame hr).1, hphase⟩
    · cases hr
  | scheduleNow | scheduleWithContext =>
    obtain ⟨m, ev, hr, hsim, hphase, -⟩ := scheduled_frame h
    rw [hsim]
    exact ⟨(insertEvent_frame hr).1, hphase⟩
  | scheduleDestroy | cancel | stop =>
    cases h
    exact ⟨rfl, rfl⟩
  | remove id =>
    obtain ⟨⟨m, impls, ev⟩, hr, heq⟩ := map_eq_some_iff.mp h
    cases heq
    unfold DefaultSimulatorImpl.remove at hr
    split at hr
    · cases hr
      exact ⟨rfl, rfl⟩
    · split at hr
      · cases hr
        exact ⟨rfl, rfl⟩
      · split at hr
        · cases hr
        · obtain ⟨events, -, heq⟩ := map_eq_some_iff.mp hr
          cases heq
          exact ⟨rfl, rfl⟩

theorem Inv.processed (hinv : Inv Q h s p) (hfin : s.simulator.isFinished Q.toEventList = false)
    (hstep : s.step Q.toEventList .processOneEvent = some (s', o)) :
    ∃ ev ∈ p, (∀ b ∈ p, ev.rank ≤ b.rank) ∧ s'.simulator.currentTs = ev.key.ts := by
  obtain ⟨events, ev, p', hrem, hleast, hperm, -⟩ := Q.removeNext_spec hinv.holds (hinv.ne_nil hfin)
  refine ⟨ev, hperm.mem_iff.mpr mem_cons_self, hleast, ?_⟩
  have hts := hinv.now_le (hperm.mem_iff.mpr mem_cons_self)
  have hone : s.simulator.processOneEvent Q.toEventList = some (s.simulator.makeCurrent events ev, ev) := by
    rw [processOneEvent, hrem]
    exact if_pos hts
  have hall : (s.simulator.makeCurrent events ev).processAllEventsWithContext Q.toEventList =
      some (s.simulator.makeCurrent events ev) := processAll_eq hinv.others
  simp only [Simulation.step, hone, bind_eq_bind, bind_some, hall] at hstep
  split at hstep
  · cases hstep
    rfl
  · cases hstep
    rfl

theorem Inv.stored (hinv : Inv Q h s p) {h' : History} {p' : List Event} (hinv' : Inv Q h' s' p')
    (hsched : h'.scheduled = h.scheduled ++ [ev]) (hdeq : h'.dequeued = h.dequeued) (hrem : h'.removed = h.removed) :
    p'.Perm (ev :: p) := by
  have hsplit := hinv'.split
  rw [hsched, hdeq, hrem] at hsplit
  have hperm : (p' ++ (h.dequeued ++ h.removed)).Perm (ev :: p ++ (h.dequeued ++ h.removed)) :=
    hsplit.symm.trans ((perm_append_singleton ev h.scheduled).trans (hinv.split.cons ev))
  exact (perm_append_right_iff _).mp hperm

end Simulation

theorem RankState.not_active {σ : Type} {r : RankState σ} (h : r.simulation.phase = .looping) : ¬ r.Active := by
  rintro (hinv | ⟨hidle, -⟩)
  · rw [h] at hinv
    cases hinv
  · rw [h] at hidle
    cases hidle

/-- What holds of a rank with this lookahead that has dequeued `done` so far and posted `posted`, after `k`
exchanges that left the floor and may have ended the simulation. -/
structure RankInv {σ : Type} (Q : PriorityQueue σ) (la floor : Int) (k : Nat) (ended : Prop) (done : List Event)
    (r : RankState σ)
    (posted : Option LbtsMessage) : Prop where
  simulation : ∃ h p, Inv Q h r.simulation p ∧ h.dequeued = done ∧
    (r.simulation.simulator.stop = false → ∀ ev ∈ p, floor ≤ ev.key.ts)
  now : r.now ≤ floor + la
  granted : r.m_grantedTime ≤ floor + la
  active : r.Active → floor ≤ r.now ∧ r.place = .window ∧ r.m_globalFinished = false
  looping : r.place ≠ .window → r.simulation.phase = .looping ∧ r.m_globalFinished = false
  places : (r.place ≠ .gathering ∧ posted = none ∧ r.round = k) ∨
    (r.place = .gathering ∧ posted = r.lbts Q.toEventList ∧ posted.isSome ∧ r.round = k) ∨
    (r.place = .gathering ∧ posted = none ∧ r.round + 1 = k)
  finished : r.round = k → (r.m_globalFinished = true ↔ ended)
  halt : ended → r.isLocalFinished Q.toEventList = true ∧ ¬ r.Active

namespace RankInv

section
variable {σ : Type} {Q : PriorityQueue σ} {la floor : Int} {k : Nat} {ended : Prop} {done done' : List Event} {r : RankState σ}
  {posted : Option LbtsMessage} {simulation : Simulation σ} {o : List EventFate}

theorem at_window (h : RankInv Q la floor k ended done r posted) (hplace : r.place ≠ .gathering) :
    posted = none ∧ r.round = k := by
  rcases h.places with ⟨-, hposted, hround⟩ | ⟨hg, -⟩ | ⟨hg, -⟩
  · exact ⟨hposted, hround⟩
  · exact absurd hg hplace
  · exact absurd hg hplace

theorem not_ended (h : RankInv Q la floor k ended done r posted) (hplace : r.place ≠ .gathering)
    (hgf : r.m_globalFinished = false) : ¬ ended := by
  intro hended
  have heq := (h.finished (h.at_window hplace).2).mpr hended
  rw [hgf] at heq
  cases heq

theorem simulate (h : RankInv Q la floor k ended done r posted) (hplace : r.place = .window) (hgf : r.m_globalFinished = false)
    {granted : Int} (hgranted : granted ≤ floor + la) (tx : UInt32)
    (hsim : ∃ h p, Inv Q h simulation p ∧ h.dequeued = done' ∧
      (simulation.simulator.stop = false → ∀ ev ∈ p, floor ≤ ev.key.ts))
    (hnow : (simulation.simulator.currentTs : Int) ≤ floor + la)
    (hactive : simulation.phase ≠ .looping → floor ≤ (simulation.simulator.currentTs : Int)) :
    RankInv Q la floor k ended done' { r with simulation := simulation, m_grantedTime := granted, g_txCount := tx } posted where
  simulation := hsim
  now := hnow
  granted := hgranted
  active hact := by
    refine ⟨hactive fun hloop => ?_, hplace, hgf⟩
    rcases hact with hinv | hidle
    · rw [hinv] at hloop
      cases hloop
    · rw [hidle.1] at hloop
      cases hloop
  looping hne := absurd hplace hne
  places := by
    have hne : r.place ≠ .gathering := by
      rw [hplace]
      decide
    exact .inl ⟨hne, h.at_window hne⟩
  finished := h.finished
  halt hended := by
    refine absurd hended (h.not_ended ?_ hgf)
    rw [hplace]
    decide

theorem call (h : RankInv Q la floor k ended done r posted) (hactive : r.Active) {c : SimulatorCall}
    (hallowed : r.simulation.CallAllowed c) (hstep : r.simulation.call Q.toEventList c = some (simulation, o)) :
    RankInv Q la floor k ended (done ++ o.filterMap History.dequeuedOf) { r with simulation := simulation } posted := by
  obtain ⟨hist, p, hinv, rfl, -⟩ := h.simulation
  obtain ⟨s', o', p', hcall, hinv', -, -⟩ := hinv.call hallowed
  obtain ⟨rfl, rfl⟩ := Prod.mk.inj (Option.some.inj (hcall.symm.trans hstep))
  obtain ⟨hfloor, hplace, hgf⟩ := h.active hactive
  obtain ⟨htime, -⟩ := call_frame hcall
  have hnow : (s'.simulator.currentTs : Int) = r.now := congrArg Nat.cast htime
  refine h.simulate hplace hgf h.granted r.g_txCount ⟨_, p', hinv', rfl, fun _ ev hev => ?_⟩
    (hnow ▸ h.now) fun _ => hnow ▸ hfloor
  rw [← hnow] at hfloor
  exact hfloor.trans (Int.ofNat_le.mpr (hinv'.now_le hev))

theorem nextTs_cases {h : History} {p : List Event} (hinv : Inv Q h r.simulation p) :
    (r.isLocalFinished Q.toEventList = true ∧ r.nextTs Q.toEventList = some maximumSimulationTime) ∨
    (r.isLocalFinished Q.toEventList = false ∧
      ∃ ev ∈ p, r.nextTs Q.toEventList = some (ev.key.ts : Int) ∧ ∀ b ∈ p, ev.rank ≤ b.rank) := by
  unfold nextTs
  cases hfin : r.isLocalFinished Q.toEventList with
  | true => exact .inl ⟨rfl, rfl⟩
  | false =>
    obtain ⟨ev, hev, hpeek, hleast⟩ := Q.peekNext_spec hinv.holds (hinv.ne_nil hfin)
    exact .inr ⟨rfl, ev, hev, by simp [hpeek], hleast⟩

theorem stop_eq_false (hfin : r.isLocalFinished Q.toEventList = false) : r.simulation.simulator.stop = false := by
  simp only [isLocalFinished, isFinished, Bool.or_eq_false_iff] at hfin
  exact hfin.2

theorem processOneEvent (h : RankInv Q la floor k ended done r posted) (hloop : r.Looping) (hgf : r.m_globalFinished = false)
    (hmust : r.mustSynchronize Q.toEventList = false)
    (hstep : r.simulation.step Q.toEventList .processOneEvent = some (simulation, o)) :
    RankInv Q la floor k ended (done ++ o.filterMap History.dequeuedOf) { r with simulation := simulation } posted := by
  obtain ⟨hist, p, hinv, rfl, hfloor⟩ := h.simulation
  obtain ⟨hfin, hwithin⟩ := Bool.or_eq_false_iff.mp hmust
  obtain ⟨s', o', p', hrun, hinv', -, -⟩ := hinv.step (e := .processOneEvent) ⟨hloop.1, hfin⟩
  obtain ⟨rfl, rfl⟩ := Prod.mk.inj (Option.some.inj (hrun.symm.trans hstep))
  obtain ⟨ev, hev, hleast, hts⟩ := hinv.processed hfin hstep
  rcases nextTs_cases hinv with ⟨hfin', -⟩ | ⟨-, ev', hev', hnext, hleast'⟩
  · rw [hfin] at hfin'
    cases hfin'
  · rw [hnext, any_some, decide_eq_false_iff_not, not_lt] at hwithin
    have heq : ev.key.ts = ev'.key.ts :=
      le_antisymm (ts_le_of_rank (hleast ev' hev')) (ts_le_of_rank (hleast' ev hev))
    have hnow : floor ≤ (s'.simulator.currentTs : Int) := hts ▸ hfloor (stop_eq_false hfin) ev hev
    refine h.simulate hloop.2 hgf h.granted r.g_txCount ⟨_, p', hinv', rfl, fun _ ev hev => ?_⟩ ?_ fun _ => hnow
    · exact hnow.trans (Int.ofNat_le.mpr (hinv'.now_le hev))
    · rw [hts, heq]
      exact hwithin.trans h.granted

theorem «return» (h : RankInv Q la floor k ended done r posted) (hphase : r.simulation.phase = .invoking)
    (hstep : r.simulation.step Q.toEventList .return = some (simulation, o)) :
    RankInv Q la floor k ended (done ++ o.filterMap History.dequeuedOf) { r with simulation := simulation } posted := by
  obtain ⟨hfloor, hplace, hgf⟩ := h.active (.inl hphase)
  obtain ⟨hist, p, hinv, rfl, -⟩ := h.simulation
  have hsame : r.simulation.step Q.toEventList .return = some ({ r.simulation with phase := .looping }, []) := by
    simp [Simulation.step, processAll_eq hinv.others]
  cases hsame.symm.trans hstep
  refine h.simulate hplace hgf h.granted r.g_txCount ⟨hist, p, { hinv with }, by simp, fun _ ev hev => ?_⟩ h.now fun _ => hfloor
  exact hfloor.trans (Int.ofNat_le.mpr (hinv.now_le hev))

theorem run (h : RankInv Q la floor k ended done r posted) (hfloor₀ : 0 ≤ floor) (hphase : r.simulation.phase = .idle)
    (hgf : r.m_globalFinished = false) (hstep : r.simulation.step Q.toEventList .run = some (simulation, o)) :
    RankInv Q la floor k ended (done ++ o.filterMap History.dequeuedOf)
      { r with simulation := simulation, m_grantedTime := la } posted := by
  obtain ⟨hfloor, hplace, -⟩ := h.active (.inr ⟨hphase, hgf⟩)
  obtain ⟨hist, p, hinv, rfl, -⟩ := h.simulation
  have hsame : r.simulation.step Q.toEventList .run =
      some ({ r.simulation with simulator := { r.simulation.simulator with stop := false }, phase := .looping }, []) := by
    simp [Simulation.step, processAll_eq hinv.others]
  cases hsame.symm.trans hstep
  refine h.simulate hplace hgf
    (le_add_of_nonneg_left hfloor₀) r.g_txCount ⟨hist, p, { hinv with }, by simp, fun _ ev hev => ?_⟩ h.now fun _ => hfloor
  exact hfloor.trans (Int.ofNat_le.mpr (hinv.now_le hev))

theorem finish (h : RankInv Q la floor k ended done r posted) (hloop : r.Looping) (hgf : r.m_globalFinished = true)
    (hstep : r.simulation.step Q.toEventList .finish = some (simulation, o)) :
    RankInv Q la floor k ended (done ++ o.filterMap History.dequeuedOf) { r with simulation := simulation } posted := by
  obtain ⟨hist, p, hinv, rfl, hfloor⟩ := h.simulation
  have hne : r.place ≠ .gathering := by
    rw [hloop.2]
    decide
  have hidle : ¬ Active { r with simulation := { r.simulation with phase := .idle } } := by
    rintro (hinv | ⟨-, hgf'⟩)
    · cases hinv
    · rw [hgf] at hgf'
      cases hgf'
  simp only [Simulation.step] at hstep
  split at hstep
  · cases hstep
    exact {
      simulation := ⟨hist, p, { hinv with }, by simp, hfloor⟩
      now := h.now
      granted := h.granted
      active := fun hact => absurd hact hidle
      looping := fun hplace => absurd hloop.2 hplace
      places := .inl ⟨hne, h.at_window hne⟩
      finished := h.finished
      halt := fun hended => ⟨(h.halt hended).1, hidle⟩ }
  · cases hstep

theorem receiveMessages (h : RankInv Q la floor k ended done r posted) (hloop : r.Looping) (hgf : r.m_globalFinished = false) :
    RankInv Q la floor k ended done { r with place := .receiving } posted where
  simulation := h.simulation
  now := h.now
  granted := h.granted
  active hact := absurd hact (not_active hloop.1)
  looping _ := ⟨hloop.1, hgf⟩
  places := .inl ⟨Place.noConfusion, h.at_window (by rw [hloop.2]; decide)⟩
  finished := h.finished
  halt := h.halt

theorem receive (h : RankInv Q la floor k ended done r posted) (hla : 0 ≤ la) (hplace : r.place = .receiving)
    (hroom : r.simulation.Room) {rxTime : Int} {node : Nat} (hrx : floor + la ≤ rxTime) (hlt : rxTime < 2 ^ 63)
    (hstep : r.simulation.call Q.toEventList (.scheduleWithContext node (rxTime - r.now)) = some (simulation, o))
    (rx : UInt32) : RankInv Q la floor k ended (done ++ o.filterMap History.dequeuedOf)
      { r with simulation := simulation, g_rxCount := rx } posted := by
  obtain ⟨hphase, hgf⟩ := h.looping (by rw [hplace]; decide)
  obtain ⟨hist, p, hinv, rfl, hfloor⟩ := h.simulation
  have hdelay : 0 ≤ rxTime - r.now := sub_nonneg.mpr (h.now.trans hrx)
  have hsum : rxTime - r.now + (r.simulation.simulator.currentTs : Int) = rxTime := sub_add_cancel _ _
  obtain ⟨s', o', p', hcall, hinv', -, -⟩ := hinv.call
    (c := .scheduleWithContext node (rxTime - r.now)) ⟨hroom, hdelay, hsum.trans_lt hlt⟩
  obtain ⟨rfl, rfl⟩ := Prod.mk.inj (Option.some.inj (hcall.symm.trans hstep))
  obtain ⟨m, ev, hins, hm, hphase', rfl⟩ := scheduled_frame hcall
  obtain ⟨htime, hstop, hts⟩ := insertEvent_frame hins
  have hperm : p'.Perm (ev :: p) := hinv.stored hinv' rfl (append_nil _) (append_nil _)
  have hrx₀ : 0 ≤ rxTime := (Int.natCast_nonneg _).trans (h.now.trans hrx)
  have hne : r.place ≠ .gathering := by
    rw [hplace]
    decide
  have hloop : s'.phase = .looping := hphase'.trans hphase
  have hidle : ¬ Active { r with simulation := s', g_rxCount := rx } := not_active hloop
  refine ⟨⟨_, p', hinv', rfl, fun hrun e he => ?_⟩, ?_, h.granted, fun hact => absurd hact hidle, fun _ => ⟨hloop, hgf⟩,
    .inl ⟨hne, h.at_window hne⟩, h.finished, fun hended => absurd hended (h.not_ended hne hgf)⟩
  · rcases mem_cons.mp (hperm.mem_iff.mp he) with rfl | he
    · rw [hts, hsum, toUint64_eq hrx₀ hlt, Int.toNat_of_nonneg hrx₀]
      exact (le_add_of_nonneg_right hla).trans hrx
    · rw [hm, hstop] at hrun
      exact hfloor hrun e he
  · show (s'.simulator.currentTs : Int) ≤ floor + la
    rw [hm, htime]
    exact h.now

variable {lMsg : LbtsMessage}

theorem post (h : RankInv Q la floor k ended done r posted) (hplace : r.place = .receiving)
    (hlbts : r.lbts Q.toEventList = some lMsg) :
    RankInv Q la floor k ended done { r with place := .gathering } (some lMsg) where
  simulation := h.simulation
  now := h.now
  granted := h.granted
  active hact := absurd hact (not_active (h.looping (by rw [hplace]; decide)).1)
  looping _ := h.looping (by rw [hplace]; decide)
  places := .inr (.inl ⟨rfl, hlbts.symm, rfl, (h.at_window (by rw [hplace]; decide)).2⟩)
  finished := h.finished
  halt := h.halt

theorem exchange (h : RankInv Q la floor k ended done r (some lMsg)) {floor' : Int} {ended' : Prop}
    (hle : floor ≤ floor') (hfloor' : floor' = floor ∨ floor' ≤ lMsg.m_smallestTime)
    (hended' : ended' → lMsg.m_isFinished = true) : RankInv Q la floor' (k + 1) ended' done r none := by
  rcases h.places with ⟨-, hposted, -⟩ | ⟨hplace, hposted, -, hround⟩ | ⟨-, hposted, -⟩
  · cases hposted
  · obtain ⟨hphase, hgf⟩ := h.looping (by rw [hplace]; decide)
    have hidle : ¬ r.Active := not_active hphase
    obtain ⟨nextTime, hnext, rfl⟩ := map_eq_some_iff.mp hposted.symm
    obtain ⟨hist, p, hinv, hdone, hfloor⟩ := h.simulation
    refine ⟨⟨hist, p, hinv, hdone, fun hrun ev hev => ?_⟩, h.now.trans (by gcongr), h.granted.trans (by gcongr),
      fun hact => absurd hact hidle, h.looping, .inr (.inr ⟨hplace, rfl, by rw [hround]⟩), fun heq => ?_,
      fun hended => ⟨hended' hended, hidle⟩⟩
    · rcases hfloor' with heq | hle'
      · exact heq ▸ hfloor hrun ev hev
      · rcases nextTs_cases hinv with ⟨hfin, -⟩ | ⟨-, ev', hev', hnext', hleast⟩
        · simp only [isLocalFinished, isFinished, hrun, Bool.or_false] at hfin
          rw [(Q.isEmpty_iff hinv.holds).mp hfin] at hev
          cases hev
        · rw [hnext', Option.some.injEq] at hnext
          rw [← hnext] at hle'
          exact hle'.trans (Int.ofNat_le.mpr (ts_le_of_rank (hleast ev hev)))
    · omega
  · cases hposted

theorem window (h : RankInv Q la floor k ended done r posted) (hplace : r.place = .gathering) (hlt : r.round < k)
    {finished : Bool} (hfinished : finished = true ↔ ended) {granted : Int} (hgranted : granted ≤ floor + la) :
    RankInv Q la floor k ended done
      { r with m_globalFinished := finished, m_grantedTime := granted, place := .window, round := r.round + 1 } posted := by
  have hphase := (h.looping (by rw [hplace]; decide)).1
  have hidle : ∀ gf, ¬ Active { r with
      m_globalFinished := gf, m_grantedTime := granted, place := .window, round := r.round + 1 } :=
    fun gf => not_active hphase
  rcases h.places with ⟨hne, -⟩ | ⟨-, -, -, heq⟩ | ⟨-, hposted, hround⟩
  · exact absurd hplace hne
  · omega
  · exact {
      simulation := h.simulation
      now := h.now
      granted := hgranted
      active := fun hact => absurd hact (hidle _)
      looping := fun hne => absurd rfl hne
      places := .inl ⟨Place.noConfusion, hposted, hround⟩
      finished := fun _ => hfinished
      halt := fun hended => ⟨(h.halt hended).1, hidle _⟩ }

theorem posted_eq (h : RankInv Q la floor k ended done r (some lMsg)) : r.lbts Q.toEventList = some lMsg := by
  rcases h.places with ⟨-, hposted, -⟩ | ⟨-, hposted, -⟩ | ⟨-, hposted, -⟩
  · cases hposted
  · exact hposted.symm
  · cases hposted

theorem lbts_spec (h : RankInv Q la floor k ended done r posted) (hfloor : floor ≤ maximumSimulationTime)
    (hlbts : r.lbts Q.toEventList = some lMsg) : floor ≤ lMsg.m_smallestTime ∧ lMsg.m_smallestTime ≤ maximumSimulationTime := by
  obtain ⟨nextTime, hnext, rfl⟩ := map_eq_some_iff.mp hlbts
  obtain ⟨hist, p, hinv, -, hfloor'⟩ := h.simulation
  rcases nextTs_cases hinv with ⟨-, hmax⟩ | ⟨hfin, ev, hev, hnext', -⟩
  · rw [hmax, Option.some.injEq] at hnext
    exact ⟨hnext ▸ hfloor, hnext.ge⟩
  · rw [hnext', Option.some.injEq] at hnext
    have hlt := hinv.times ev hev
    refine ⟨hnext ▸ hfloor' (stop_eq_false hfin) ev hev, ?_⟩
    rw [← hnext]
    show (ev.key.ts : Int) ≤ 9223372036854775807
    omega

end

end RankInv

/-! ## All ranks -/

namespace DistributedSimulation

section
variable {σ : Type} {n : Nat}

/-- The smallest time of the last exchange that found nothing on its way. -/
def floor (gathered : List (Fin (n + 1) → LbtsMessage)) : Int :=
  gathered.foldl (fun t m_pLBTS => if totRx m_pLBTS = totTx m_pLBTS then smallestTime m_pLBTS else t) 0

/-- The last exchange was the last of all. -/
def Ended (gathered : List (Fin (n + 1) → LbtsMessage)) : Prop := ∃ m_pLBTS ∈ gathered.getLast?, globalFinished m_pLBTS = true

def dequeuedBy (i : Fin (n + 1)) : RankFate n → Option Event
  | .event me fate => if me = i then History.dequeuedOf fate else none
  | .arrived _ _ => none

def dequeuedAt (i : Fin (n + 1)) (tr : List (DistributedStep n × List (RankFate n))) : List Event :=
  (outputs tr).filterMap (dequeuedBy i)

structure Safe (Q : PriorityQueue σ) (channels : List (RankChannel n)) (bound : Fin (n + 1) → Int)
    (tr : List (DistributedStep n × List (RankFate n))) (s : DistributedSimulation σ n) : Prop where
  rank : ∀ i, RankInv Q (lookAhead channels bound i) (floor s.gathered) s.gathered.length (Ended s.gathered) (dequeuedAt i tr)
    (s.ranks i) (s.posted i)
  flight : ∀ packet ∈ s.inFlight,
    floor s.gathered + lookAhead channels bound packet.dest ≤ packet.rxTime ∧ packet.rxTime < 2 ^ 63
  counts : ∑ i, (s.ranks i).g_txCount = ∑ i, (s.ranks i).g_rxCount + UInt32.ofNat s.inFlight.length
  quiet : Ended s.gathered → s.inFlight = []
  floor_nonneg : 0 ≤ floor s.gathered
  floor_le : floor s.gathered ≤ maximumSimulationTime
  arrivals : ∀ me delay, RankFate.arrived me delay ∈ outputs tr → 0 ≤ delay

variable {Q : PriorityQueue σ} {channels : List (RankChannel n)} {bound : Fin (n + 1) → Int}
  {tr : List (DistributedStep n × List (RankFate n))} {s : DistributedSimulation σ n} {me : Fin (n + 1)}

theorem filterMap_dequeuedBy (i : Fin (n + 1)) (o : List EventFate) :
    (o.map (RankFate.event me)).filterMap (dequeuedBy i) = if me = i then o.filterMap History.dequeuedOf else [] := by
  rw [filterMap_map]
  split
  · rename_i heq
    exact filterMap_congr fun f _ => if_pos heq
  · rename_i hne
    exact filterMap_eq_nil_iff.mpr fun f _ => if_neg hne

theorem dequeuedAt_snoc (i : Fin (n + 1)) (e : DistributedStep n) (o : List (RankFate n)) :
    dequeuedAt i (tr ++ [(e, o)]) = dequeuedAt i tr ++ o.filterMap (dequeuedBy i) := by
  simp [dequeuedAt]

theorem sum_update (f : RankState σ → UInt32) (ranks : Fin (n + 1) → RankState σ) (me : Fin (n + 1)) (r : RankState σ) :
    ∑ i, f (Function.update ranks me r i) + f (ranks me) = ∑ i, f (ranks i) + f r := by
  have hrest : ∑ i ∈ Finset.univ.erase me, f (Function.update ranks me r i) = ∑ i ∈ Finset.univ.erase me, f (ranks i) :=
    Finset.sum_congr rfl fun i hi => by rw [Function.update_of_ne (Finset.ne_of_mem_erase hi)]
  rw [← Finset.add_sum_erase Finset.univ (fun i => f (Function.update ranks me r i)) (Finset.mem_univ me),
    ← Finset.add_sum_erase Finset.univ (fun i => f (ranks i)) (Finset.mem_univ me), hrest, Function.update_self]
  abel

variable {r : RankState σ} {o : List (RankFate n)} {s' : DistributedSimulation σ n}

theorem Safe.setRank (h : Safe Q channels bound tr s) {posted : Option LbtsMessage}
    (inFlight : List (RankPacket n)) (e : DistributedStep n) (fates : List EventFate)
    (ho : o.filterMap (dequeuedBy me) = fates.filterMap History.dequeuedOf)
    (hother : ∀ i ≠ me, o.filterMap (dequeuedBy i) = [])
    (hrank : RankInv Q (lookAhead channels bound me) (floor s.gathered) s.gathered.length (Ended s.gathered)
    (dequeuedAt me tr ++ fates.filterMap History.dequeuedOf) r posted) (hflight : ∀ packet ∈ inFlight,
      floor s.gathered + lookAhead channels bound packet.dest ≤ packet.rxTime ∧ packet.rxTime < 2 ^ 63)
    (hcounts : r.g_txCount + (s.ranks me).g_rxCount + UInt32.ofNat s.inFlight.length =
    (s.ranks me).g_txCount + r.g_rxCount + UInt32.ofNat inFlight.length)
    (hquiet : Ended s.gathered → inFlight = []) (harrivals : ∀ i delay, RankFate.arrived i delay ∈ o → 0 ≤ delay) :
    Safe Q channels bound (tr ++ [(e, o)])
      ⟨Function.update s.ranks me r, inFlight, Function.update s.posted me posted, s.gathered⟩ where
  rank i := by
    show RankInv _ _ _ _ _ _ (Function.update s.ranks me r i) (Function.update s.posted me posted i)
    rw [dequeuedAt_snoc]
    by_cases heq : i = me
    · subst heq
      rw [Function.update_self, Function.update_self, ho]
      exact hrank
    · rw [Function.update_of_ne heq, Function.update_of_ne heq, hother i heq, append_nil]
      exact h.rank i
  flight := hflight
  counts := by
    have htx := sum_update (·.g_txCount) s.ranks me r
    have hrx := sum_update (·.g_rxCount) s.ranks me r
    have hme : r.g_txCount =
        (s.ranks me).g_txCount + r.g_rxCount + UInt32.ofNat inFlight.length - UInt32.ofNat s.inFlight.length -
        (s.ranks me).g_rxCount := by
      rw [← hcounts]
      abel
    rw [eq_sub_of_add_eq htx, eq_sub_of_add_eq hrx, h.counts, hme]
    abel
  quiet := hquiet
  floor_nonneg := h.floor_nonneg
  floor_le := h.floor_le
  arrivals i delay hmem := by
    rw [outputs_snoc, mem_append] at hmem
    rcases hmem with hmem | hmem
    · exact h.arrivals i delay hmem
    · exact harrivals i delay hmem

theorem Safe.synchronize (h : Safe Q channels bound tr s) {posted : Option LbtsMessage} (e : DistributedStep n)
    (hrank : RankInv Q (lookAhead channels bound me) (floor s.gathered) s.gathered.length (Ended s.gathered)
    (dequeuedAt me tr) r posted)
    (htx : r.g_txCount = (s.ranks me).g_txCount) (hrx : r.g_rxCount = (s.ranks me).g_rxCount) :
    Safe Q channels bound (tr ++ [(e, [])])
      ⟨Function.update s.ranks me r, s.inFlight, Function.update s.posted me posted, s.gathered⟩ :=
  h.setRank s.inFlight e (o := []) [] rfl (fun _ _ => rfl) (by rw [filterMap_nil, append_nil]; exact hrank) h.flight
    (by rw [htx, hrx]) h.quiet (by simp)

theorem Safe.inRank (h : Safe Q channels bound tr s) {simulation : Simulation σ} (e : DistributedStep n)
    {fates : List EventFate} (htx : r.g_txCount = (s.ranks me).g_txCount) (hrx : r.g_rxCount = (s.ranks me).g_rxCount)
    (hrank : RankInv Q (lookAhead channels bound me) (floor s.gathered) s.gathered.length (Ended s.gathered)
    (dequeuedAt me tr ++ fates.filterMap History.dequeuedOf) { r with simulation := simulation } (s.posted me)) :
    Safe Q channels bound (tr ++ [(e, fates.map (.event me))]) (s.setRank me { r with simulation := simulation }) := by
  have hsafe := h.setRank s.inFlight e (o := fates.map (.event me)) fates (by rw [filterMap_dequeuedBy, if_pos rfl])
    (fun i hi => by rw [filterMap_dequeuedBy, if_neg hi.symm]) hrank h.flight (by rw [htx, hrx]) h.quiet (by simp)
  rw [Function.update_eq_self] at hsafe
  exact hsafe

theorem setRank_self (s : DistributedSimulation σ n) (me : Fin (n + 1)) (r : RankState σ) : (s.setRank me r).ranks me = r :=
  Function.update_self _ _ _

theorem setRank_setRank (s : DistributedSimulation σ n) (me : Fin (n + 1)) (r r' : RankState σ) :
    (s.setRank me r).setRank me r' = s.setRank me r' := by
  simp [DistributedSimulation.setRank]

theorem inRank_eq {s s' : DistributedSimulation σ n} {e : SimulatorStep}
    (h : s.inRank Q.toEventList me e = some (s', o)) :
    ∃ simulation fates, (s.ranks me).simulation.step Q.toEventList e = some (simulation, fates) ∧
      s' = s.setRank me { s.ranks me with simulation := simulation } ∧ o = fates.map (.event me) := by
  obtain ⟨⟨simulation, fates⟩, hstep, heq⟩ := map_eq_some_iff.mp h
  cases heq
  exact ⟨simulation, fates, hstep, rfl, rfl⟩

theorem Safe.sendPacket (h : Safe Q channels bound tr s) (hgood : GoodDelays channels bound) {remote : Fin (n + 1)}
    {channel : RankChannel n}
    {txTime : Int} {node : Nat} (hactive : (s.ranks me).Active) (hc : channel ∈ channels) (hbetween : channel.Between me remote)
    (htx : 0 ≤ txTime) (hlt : (s.ranks me).now + txTime + channel.delay < 2 ^ 63) (e : DistributedStep n) :
    Safe Q channels bound (tr ++ [(e, [])]) (s.sendPacket me remote channel txTime node) := by
  have hrank := h.rank me
  obtain ⟨hfloor, hplace, hgf⟩ := hrank.active hactive
  obtain ⟨hist, p, hinv, hdone, hpending⟩ := hrank.simulation
  have hended : ¬ Ended s.gathered := hrank.not_ended (by rw [hplace]; decide) hgf
  have hsent := hrank.simulate hplace hgf hrank.granted ((s.ranks me).g_txCount + 1)
    ⟨hist, p, hinv, hdone.trans (append_nil _).symm, hpending⟩ hrank.now fun _ => hfloor
  have hsafe := h.setRank (s.inFlight ++ [⟨remote, (s.ranks me).now + txTime + channel.delay, node⟩]) e (o := []) [] rfl
    (fun _ _ => rfl) hsent ?_ ?_ (fun h => absurd h hended) (by simp)
  · rw [Function.update_eq_self] at hsafe
    exact hsafe
  · intro packet hmem
    rcases mem_append.mp hmem with hmem | hmem
    · exact h.flight packet hmem
    · obtain rfl := mem_singleton.mp hmem
      have hdelay := hgood.lookAhead_le_delay hc hbetween
      refine ⟨?_, hlt⟩
      show floor s.gathered + lookAhead channels bound remote ≤ (s.ranks me).now + txTime + channel.delay
      omega
  · rw [length_append, length_singleton, UInt32.ofNat_add]
    show (s.ranks me).g_txCount + 1 + _ + _ = _ + _ + (_ + 1)
    abel

theorem Safe.receive (h : Safe Q channels bound tr s) (hgood : GoodDelays channels bound) {index : Nat}
    (hplace : (s.ranks me).place = .receiving)
    (hdest : (s.inFlight[index]?.any fun packet => packet.dest = me)) (hroom : (s.ranks me).simulation.Room)
    (hstep : s.receive Q.toEventList me index = some (s', o)) (e : DistributedStep n) :
    Safe Q channels bound (tr ++ [(e, o)]) s' := by
  obtain ⟨packet, hpacket, hdest⟩ := (Option.any_eq_true _ _).mp hdest
  obtain rfl := of_decide_eq_true hdest
  simp only [DistributedSimulation.receive, hpacket, bind_eq_bind, bind_some, bind_eq_some_iff, Option.some.injEq,
    Prod.mk.injEq] at hstep
  obtain ⟨⟨simulation, fates⟩, hcall, rfl, rfl⟩ := hstep
  obtain ⟨hlt, hget⟩ := List.getElem?_eq_some_iff.mp hpacket
  have hmem : packet ∈ s.inFlight := hget ▸ getElem_mem hlt
  obtain ⟨hrx, hrxlt⟩ := h.flight packet hmem
  have hrank := h.rank packet.dest
  have hgf := (hrank.looping (by rw [hplace]; decide)).2
  have hended : ¬ Ended s.gathered := hrank.not_ended (by rw [hplace]; decide) hgf
  have htaken := hrank.receive (hgood.lookAhead packet.dest).1 hplace hroom hrx hrxlt hcall
    ((s.ranks packet.dest).g_rxCount + 1)
  have hsafe := h.setRank (s.inFlight.eraseIdx index) e
    (o := fates.map (.event packet.dest) ++ [.arrived packet.dest (packet.rxTime - (s.ranks packet.dest).now)]) fates
    (by rw [filterMap_append, filterMap_dequeuedBy, if_pos rfl]; exact append_nil _)
    (fun i hi => by rw [filterMap_append, filterMap_dequeuedBy, if_neg hi.symm]; rfl) htaken
    (fun p hp => h.flight p (mem_of_mem_eraseIdx hp)) ?_ (fun h => absurd h hended) ?_
  · rw [Function.update_eq_self] at hsafe
    exact hsafe
  · obtain ⟨k, hk⟩ := Nat.exists_eq_add_of_lt hlt
    have hlen : s.inFlight.length - 1 = index + k := by omega
    rw [length_eraseIdx_of_lt hlt, hlen, hk, UInt32.ofNat_add (index + k) 1]
    show _ + _ + (_ + 1) = _ + ((s.ranks packet.dest).g_rxCount + 1) + _
    abel
  · intro i delay hin
    have hin : i = packet.dest ∧ delay = packet.rxTime - (s.ranks packet.dest).now := by simpa using hin
    rw [hin.2]
    exact sub_nonneg.mpr (hrank.now.trans hrx)

/-! ## The exchange -/

theorem floor_snoc (gathered : List (Fin (n + 1) → LbtsMessage)) (m_pLBTS : Fin (n + 1) → LbtsMessage) :
    floor (gathered ++ [m_pLBTS]) = if totRx m_pLBTS = totTx m_pLBTS then smallestTime m_pLBTS else floor gathered := by
  rw [floor, foldl_append]
  rfl

theorem ended_snoc (gathered : List (Fin (n + 1) → LbtsMessage)) (m_pLBTS : Fin (n + 1) → LbtsMessage) :
    Ended (gathered ++ [m_pLBTS]) ↔ globalFinished m_pLBTS = true := by
  simp [Ended]

theorem smallestTime_le (m_pLBTS : Fin (n + 1) → LbtsMessage) (i : Fin (n + 1)) :
    smallestTime m_pLBTS ≤ (m_pLBTS i).m_smallestTime := by
  cases i using Fin.cases with
  | zero =>
    refine foldlRecOn (motive := (· ≤ _)) _ _ (le_refl _) fun t ht j _ => ?_
    split
    · rename_i hlt
      exact hlt.le.trans ht
    · exact ht
  | succ i =>
    refine foldl_le_of_mem (fun t j => ?_) (fun t => ?_) _ (mem_finRange i)
    · split
      · rename_i hlt
        exact hlt.le
      · exact le_refl _
    · split
      · exact le_refl _
      · rename_i hle
        exact not_lt.mp hle

theorem smallestTime_mem (m_pLBTS : Fin (n + 1) → LbtsMessage) : ∃ i, smallestTime m_pLBTS = (m_pLBTS i).m_smallestTime := by
  refine foldlRecOn (motive := fun t => ∃ i, t = (m_pLBTS i).m_smallestTime) _ _ ⟨0, rfl⟩ fun t ht j _ => ?_
  split
  · exact ⟨j.succ, rfl⟩
  · exact ht

theorem Safe.exchange (h : Safe Q channels bound tr s) (hlen : s.inFlight.length < 2 ^ 32) :
    Safe Q channels bound tr s.exchange := by
  unfold DistributedSimulation.exchange
  split
  · rename_i hall
    have hposted : ∀ i, s.posted i = some ((s.posted i).get (hall i)) := fun i => (some_get (hall i)).symm
    generalize hv : (fun i => (s.posted i).get (hall i)) = m_pLBTS
    have hrank : ∀ i, RankInv Q (lookAhead channels bound i) (floor s.gathered) s.gathered.length (Ended s.gathered)
        (dequeuedAt i tr) (s.ranks i) (some (m_pLBTS i)) := fun i => by
      have hr := h.rank i
      rw [hposted i] at hr
      rw [← hv]
      exact hr
    have hlbts : ∀ i, (s.ranks i).lbts Q.toEventList = some (m_pLBTS i) := fun i => (hrank i).posted_eq
    have htimes : ∀ i, floor s.gathered ≤ (m_pLBTS i).m_smallestTime ∧ (m_pLBTS i).m_smallestTime ≤ maximumSimulationTime :=
      fun i => (hrank i).lbts_spec h.floor_le (hlbts i)
    have htotRx : totRx m_pLBTS = ∑ i, (s.ranks i).g_rxCount := Finset.sum_congr rfl fun i _ => by
      obtain ⟨_, -, heq⟩ := map_eq_some_iff.mp (hlbts i)
      rw [← heq]
    have htotTx : totTx m_pLBTS = ∑ i, (s.ranks i).g_txCount := Finset.sum_congr rfl fun i _ => by
      obtain ⟨_, -, heq⟩ := map_eq_some_iff.mp (hlbts i)
      rw [← heq]
    -- equal counts leave nothing on its way
    have hquiet : totRx m_pLBTS = totTx m_pLBTS → s.inFlight = [] := by
      intro heq
      rw [htotRx, htotTx, h.counts, left_eq_add] at heq
      have hzero := congrArg UInt32.toNat heq
      rw [UInt32.toNat_ofNat_of_lt' hlen] at hzero
      exact length_eq_zero_iff.mp hzero
    obtain ⟨least, hleast⟩ := smallestTime_mem m_pLBTS
    have hfloor : floor s.gathered ≤ floor (s.gathered ++ [m_pLBTS]) := by
      rw [floor_snoc]
      split
      · exact hleast ▸ (htimes least).1
      · exact le_refl _
    exact {
      rank := fun i => by
        rw [length_append]
        refine (hrank i).exchange hfloor ?_ fun hended => ?_
        · rw [floor_snoc]
          split
          · exact .inr (smallestTime_le m_pLBTS i)
          · exact .inl rfl
        · have hall := (Bool.and_eq_true_iff.mp ((ended_snoc _ _).mp hended)).1
          exact List.all_eq_true.mp hall i (mem_finRange i)
      flight := fun packet hmem => by
        rw [floor_snoc]
        split
        · rename_i heq
          rw [hquiet heq] at hmem
          cases hmem
        · exact h.flight packet hmem
      counts := h.counts
      quiet := fun hended => hquiet (eq_of_beq (Bool.and_eq_true_iff.mp ((ended_snoc _ _).mp hended)).2)
      floor_nonneg := h.floor_nonneg.trans hfloor
      floor_le := by
        rw [floor_snoc]
        split
        · exact hleast ▸ (htimes least).2
        · exact h.floor_le
      arrivals := h.arrivals }
  · exact h

theorem bmod_le {x : Int} (h : 0 ≤ x) : x.bmod (2 ^ 64) ≤ x := by
  have hmod : x % ((2 ^ 64 : Nat) : Int) ≤ x := by omega
  simp only [Int.bmod]
  split
  · exact hmod
  · omega

theorem Safe.window (h : Safe Q channels bound tr s) (hgood : GoodDelays channels bound)
    (hplace : (s.ranks me).place = .gathering) (hlt : (s.ranks me).round < s.gathered.length)
    (hstep : s.window channels bound me = some s') (e : DistributedStep n) : Safe Q channels bound (tr ++ [(e, [])]) s' := by
  obtain ⟨m_pLBTS, hget, rfl⟩ := map_eq_some_iff.mp hstep
  have hrank := h.rank me
  have hround : (s.ranks me).round + 1 = s.gathered.length := by
    rcases hrank.places with ⟨hne, -⟩ | ⟨-, -, -, heq⟩ | ⟨-, -, heq⟩
    · exact absurd hplace hne
    · omega
    · exact heq
  -- the exchange is the last one
  obtain ⟨init, hsnoc⟩ : ∃ init, s.gathered = init ++ [m_pLBTS] := by
    rcases eq_nil_or_concat s.gathered with hnil | ⟨init, last, hconcat⟩
    · rw [hnil] at hlt
      exact absurd hlt (Nat.not_lt_zero _)
    · rw [concat_eq_append] at hconcat
      have hlen : (s.ranks me).round = init.length := by
        rw [hconcat, length_append, length_singleton] at hround
        omega
      rw [hconcat, hlen, getElem?_concat_length, Option.some.injEq] at hget
      exact ⟨init, hget ▸ hconcat⟩
  have hla := hgood.lookAhead me
  have hfloor := h.floor_nonneg
  have hgranted : grantedTime m_pLBTS (lookAhead channels bound me) (s.ranks me).m_grantedTime ≤
      floor s.gathered + lookAhead channels bound me := by
    unfold grantedTime
    split
    · rename_i heq
      have hsmallest : floor s.gathered = smallestTime m_pLBTS := by rw [hsnoc, floor_snoc, if_pos heq]
      split
      · rename_i hmax
        rw [hmax]
        exact le_add_of_nonneg_left hfloor
      · rw [hsmallest] at hfloor ⊢
        exact bmod_le (add_nonneg hfloor hla.1)
    · exact hrank.granted
  have hfinished : globalFinished m_pLBTS = true ↔ Ended s.gathered := by rw [hsnoc, ended_snoc]
  have hwindow := hrank.window hplace hlt hfinished hgranted
  have hsafe := h.synchronize e hwindow rfl rfl
  rw [Function.update_eq_self] at hsafe
  exact hsafe

theorem Safe.allgather (h : Safe Q channels bound tr s) (hplace : (s.ranks me).place = .receiving)
    (hlen : s.inFlight.length < 2 ^ 32) (hstep : s.allgather Q.toEventList me = some s') (e : DistributedStep n) :
    Safe Q channels bound (tr ++ [(e, [])]) s' := by
  obtain ⟨lMsg, hlbts, rfl⟩ := map_eq_some_iff.mp hstep
  have hpost := (h.rank me).post hplace hlbts
  exact (h.synchronize e hpost rfl rfl).exchange hlen

/-- No step of a rank puts a packet in another rank's past. -/
theorem Safe.step (h : Safe Q channels bound tr s) (hgood : GoodDelays channels bound) {e : DistributedStep n}
    (hallowed : s.Allowed Q.toEventList channels e)
    (hstep : (machine Q.toEventList channels bound).step s e = some (s', o)) : Safe Q channels bound (tr ++ [(e, o)]) s' := by
  cases e with
  | call me c =>
    obtain ⟨simulation, fates, hsim, rfl, rfl⟩ := inRank_eq hstep
    exact h.inRank _ rfl rfl ((h.rank me).call hallowed.1 hallowed.2 hsim)
  | sendPacket me remote channel txTime node =>
    obtain ⟨hactive, hc, hbetween, htx, hlt⟩ := hallowed
    cases hstep
    exact h.sendPacket hgood hactive hc hbetween htx hlt _
  | run me =>
    obtain ⟨simulation, fates, hsim, rfl, rfl⟩ := inRank_eq hstep
    rw [setRank_self] at hsim
    rw [setRank_self, setRank_setRank]
    exact h.inRank _ rfl rfl ((h.rank me).run h.floor_nonneg hallowed.1 hallowed.2 hsim)
  | processOneEvent me =>
    obtain ⟨simulation, fates, hsim, rfl, rfl⟩ := inRank_eq hstep
    exact h.inRank _ rfl rfl ((h.rank me).processOneEvent hallowed.1 hallowed.2.1 hallowed.2.2 hsim)
  | «return» me =>
    obtain ⟨simulation, fates, hsim, rfl, rfl⟩ := inRank_eq hstep
    exact h.inRank _ rfl rfl ((h.rank me).return hallowed hsim)
  | receiveMessages me =>
    cases hstep
    have hreceiving := (h.rank me).receiveMessages hallowed.1 hallowed.2.1
    have hsafe := h.synchronize (.receiveMessages me) hreceiving rfl rfl
    rw [Function.update_eq_self] at hsafe
    exact hsafe
  | receive me index => exact h.receive hgood hallowed.1 hallowed.2.1 hallowed.2.2 hstep _
  | allgather me =>
    obtain ⟨s₁, hs₁, heq⟩ := map_eq_some_iff.mp hstep
    cases heq
    exact h.allgather hallowed.1 hallowed.2 hs₁ _
  | gathered me =>
    obtain ⟨s₁, hs₁, heq⟩ := map_eq_some_iff.mp hstep
    cases heq
    exact h.window hgood hallowed.1 hallowed.2 hs₁ _
  | finish me =>
    obtain ⟨simulation, fates, hsim, rfl, rfl⟩ := inRank_eq hstep
    exact h.inRank _ rfl rfl ((h.rank me).finish hallowed.1 hallowed.2 hsim)

/-! ## Runs -/

theorem safe_new (hgood : GoodDelays channels bound) : Safe Q channels bound [] (new Q.new) where
  rank i := {
    simulation := ⟨.empty, [], inv_new Q, rfl, fun _ ev hev => nomatch hev⟩
    now := (Int.zero_add _).symm ▸ (hgood.lookAhead i).1
    granted := (Int.zero_add _).symm ▸ (hgood.lookAhead i).1
    active := fun _ => ⟨le_refl _, rfl, rfl⟩
    looping := fun hne => absurd rfl hne
    places := .inl ⟨Place.noConfusion, rfl, rfl⟩
    finished := fun _ => iff_of_false Bool.false_ne_true (by simp [Ended, new])
    halt := fun hended => absurd hended (by simp [Ended, new]) }
  flight packet hmem := nomatch hmem
  counts := by simp [new]
  quiet _ := rfl
  floor_nonneg := le_refl _
  floor_le := show (0 : Int) ≤ maximumSimulationTime by decide
  arrivals i delay hmem := nomatch hmem

/-- **Causality.** However the ranks' steps and the packets interleave, no packet arrives at a rank whose time is
past its own, and each rank takes its events in the order of their keys. When a rank finds the simulation finished,
every rank has stopped or run out of events and no packet is on its way. -/
theorem packets_in_time (hgood : GoodDelays channels bound)
    (hrun : Run (machine Q.toEventList channels bound) (Allowed Q.toEventList channels) (new Q.new) tr s) :
    (∀ i delay, RankFate.arrived i delay ∈ outputs tr → 0 ≤ delay) ∧
    (∀ i, (dequeuedAt i tr).Pairwise fun a b => a.rank < b.rank) ∧
    ∀ i, (s.ranks i).m_globalFinished = true → s.inFlight = [] ∧ ∀ j, (s.ranks j).isLocalFinished Q.toEventList = true := by
  have hsafe := hrun.invariant (Safe Q channels bound)
    (safe_new hgood) fun _ _ _ _ _ h hallowed hstep => h.step hgood hallowed hstep
  refine ⟨hsafe.arrivals, fun i => ?_, fun i hfinished => ?_⟩
  · obtain ⟨hist, p, hinv, hdone, -⟩ := (hsafe.rank i).simulation
    exact hdone ▸ hinv.increasing
  · have hrank := hsafe.rank i
    have hplace : (s.ranks i).place ≠ .gathering := by
      intro hgathering
      have hgf := (hrank.looping (by rw [hgathering]; decide)).2
      rw [hfinished] at hgf
      cases hgf
    have hended := (hrank.finished (hrank.at_window hplace).2).mp hfinished
    exact ⟨hsafe.quiet hended, fun j => ((hsafe.rank j).halt hended).1⟩

instance (s : DistributedSimulation σ n) : (e : DistributedStep n) → Decidable (s.Allowed Q.toEventList channels e)
  | .call me c => inferInstanceAs (Decidable ((s.ranks me).Active ∧ (s.ranks me).simulation.CallAllowed c))
  | .sendPacket me remote channel txTime _ => inferInstanceAs (Decidable ((s.ranks me).Active ∧ channel ∈ channels ∧
      channel.Between me remote ∧ 0 ≤ txTime ∧ (s.ranks me).now + txTime + channel.delay < 2 ^ 63))
  | .run me => inferInstanceAs (Decidable ((s.ranks me).simulation.phase = .idle ∧ (s.ranks me).m_globalFinished = false))
  | .processOneEvent me => inferInstanceAs (Decidable ((s.ranks me).Looping ∧ (s.ranks me).m_globalFinished = false ∧
      (s.ranks me).mustSynchronize Q.toEventList = false))
  | .return me => inferInstanceAs (Decidable ((s.ranks me).simulation.phase = .invoking))
  | .receiveMessages me => inferInstanceAs (Decidable ((s.ranks me).Looping ∧ (s.ranks me).m_globalFinished = false ∧
      (s.ranks me).mustSynchronize Q.toEventList = true))
  | .receive me index => inferInstanceAs (Decidable ((s.ranks me).place = .receiving ∧
      (s.inFlight[index]?.any fun packet => packet.dest = me) = true ∧ (s.ranks me).simulation.impls.length + 1 < 2 ^ 32 - 4))
  | .allgather me => inferInstanceAs (Decidable ((s.ranks me).place = .receiving ∧ s.inFlight.length < 2 ^ 32))
  | .gathered me => inferInstanceAs (Decidable ((s.ranks me).place = .gathering ∧ (s.ranks me).round < s.gathered.length))
  | .finish me => inferInstanceAs (Decidable ((s.ranks me).Looping ∧ (s.ranks me).m_globalFinished = true))

end

def twoRanks : RankChannel 1 := ⟨0, 1, 5⟩

/-- An event of the first rank sends a packet to the second, which has no event of its own. -/
def packetToIdleRank : List (DistributedStep 1) :=
  [.call 0 (.schedule 2), .run 0, .run 1, .processOneEvent 0, .sendPacket 0 1 twoRanks 1 7, .receiveMessages 1, .return 0,
    .receive 1 0, .receiveMessages 0, .allgather 0, .allgather 1, .gathered 1, .processOneEvent 1, .return 1, .gathered 0,
    .receiveMessages 0, .allgather 0, .receiveMessages 1, .allgather 1, .gathered 0, .gathered 1, .finish 1]

theorem packet_to_idle_rank_in_time : ∃ tr s,
    Run (machine (priorityQueue false).toEventList [twoRanks] fun _ => maximumSimulationTime)
      (Allowed (priorityQueue false).toEventList [twoRanks]) (new (priorityQueue false).new) tr s ∧
    s.inFlight = [] ∧ ∀ j, (s.ranks j).isLocalFinished (priorityQueue false).toEventList = true := by
  obtain ⟨tr, s, hrun, hfinished⟩ := run_of_any
    (machine (priorityQueue false).toEventList [twoRanks] fun _ => maximumSimulationTime)
    (Allowed (priorityQueue false).toEventList [twoRanks]) (p := fun r => (r.2.ranks 0).m_globalFinished)
    (show (Machine.exec _ _ (new (priorityQueue false).new) packetToIdleRank).any _ = true by decide +kernel)
  exact ⟨tr, s, hrun, (packets_in_time ⟨by decide, by decide⟩ hrun).2.2 0 hfinished⟩

end DistributedSimulation

end Ns3
