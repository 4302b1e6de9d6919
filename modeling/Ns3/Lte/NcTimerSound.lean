import Ns3.Lte.PdcpSound

/-!
# Status-report timers of network coding

`NcArqReqSendOnce` schedules `CopyExpireStatusReportTimer` with `m_Copy`. In
network-coding mode the copy side never gets an entry, so every expiry follows
an end iterator.
-/

namespace Ns3

namespace LtePdcp

open NcControl Machine

/-! ## Transmitting leaves the receiver alone -/

theorem redundancyLoop_frame (rand : Nat → Nat → Nat) : ∀ (n var : Nat) {s s' : LtePdcp} {os : List PdcpOut},
    redundancyLoop rand n var s = some (s', os) → SameMode s s' ∧ ∀ g, s'.nc.decoding g = s.nc.decoding g
  | 0, _, s, s', os, h => by
    cases h
    exact ⟨.refl s, fun _ => rfl⟩
  | n + 1, var, s, s', os, h => by
    unfold redundancyLoop at h
    simp only [Option.bind_eq_bind, Option.bind_eq_some_iff] at h
    obtain ⟨⟨c, q⟩, hred, ⟨s₂, os₂⟩, hloop, h⟩ := h
    cases h
    have hdec : ∀ g, c.decoding g = s.nc.decoding g := by
      unfold makeRedundancePacket at hred
      simp only [Option.bind_eq_bind, Option.bind_eq_some_iff] at hred
      obtain ⟨_, _, _, _, _, _, hred⟩ := hred
      cases hred
      exact fun _ => rfl
    obtain ⟨t₁, t₂, _⟩ := toogleSend_spec { s with nc := c } q 0
    obtain ⟨hmode, hd⟩ := redundancyLoop_frame rand n (var + 1) hloop
    refine ⟨SameMode.trans (b := { s with nc := c }) ⟨rfl, rfl, rfl⟩ (t₂.trans hmode), fun g => ?_⟩
    rw [hd, t₁, hdec]

theorem ncTransmit_frame {s s' : LtePdcp} (hm : s.ncEnable = true) {p : Packet} {rand : Nat → Nat → Nat}
    {o : List PdcpOut} (h : s.triggerDoTransmitPdcpSdu p rand = some (s', o)) :
    SameMode s s' ∧ ∀ g, s'.nc.decoding g = s.nc.decoding g := by
  unfold triggerDoTransmitPdcpSdu at h
  rw [if_pos hm] at h
  obtain ⟨⟨nc, q⟩, hsend, h⟩ := Option.bind_eq_some_iff.mp h
  let s₁ : LtePdcp := { s with nc := nc }
  obtain ⟨t₁, t₂, _⟩ := toogleSend_spec s₁ q 0
  have hmode : SameMode s (s₁.toogleSend q 0).1 := SameMode.trans (b := s₁) ⟨rfl, rfl, rfl⟩ t₂
  have hdec : ∀ g, (s₁.toogleSend q 0).1.nc.decoding g = s.nc.decoding g := fun g => by
    obtain ⟨buf, rfl⟩ := sendSaveAndSetTime_eq hsend
    rw [t₁]
    rfl
  obtain ⟨size, _, h⟩ := Option.bind_eq_some_iff.mp h
  change (if size = originalBlockSize then (redundancyLoop rand _ 0 (s₁.toogleSend q 0).1).bind _ else _) = _ at h
  split at h
  · obtain ⟨⟨s₂, os⟩, hloop, h⟩ := Option.bind_eq_some_iff.mp h
    obtain ⟨hmode₂, hd⟩ := redundancyLoop_frame rand _ _ hloop
    have hall : SameMode s s₂ ∧ ∀ g, s₂.nc.decoding g = s.nc.decoding g :=
      ⟨hmode.trans hmode₂, fun g => (hd g).trans (hdec g)⟩
    dsimp only at h
    split at h
    · cases h
      exact ⟨⟨hall.1.ncEnable, hall.1.copyEnable, hall.1.copy⟩, hall.2⟩
    · cases h
      exact hall
  · cases h
    exact ⟨hmode, hdec⟩

/-! ## Every expiry is undefined -/

/-- Network-coding mode: the copy side is empty and every armed timer calls it. -/
structure NcInv (s : LtePdcp) : Prop where
  ncEnable : s.ncEnable = true
  copy : ∀ g, s.copy.decoding g = none
  timers : NcTimers s.nc

theorem ncInv_init (copyEnable : Bool) (flags : Bool × Bool × Bool × Bool) : NcInv (init true copyEnable flags) :=
  ⟨rfl, fun _ => rfl, fun _ _ ht => nomatch ht⟩

/-- Whatever happens, armed timers still call the copy side. -/
theorem NcInv.step {s s' : LtePdcp} (hi : NcInv s) {e : Event} {o : List PdcpOut} (h : s.step e = some (s', o)) :
    NcInv s' := by
  cases e with
  | transmit p rand =>
    obtain ⟨hmode, hdec⟩ := ncTransmit_frame hi.ncEnable h
    refine ⟨hmode.ncEnable.trans hi.ncEnable, fun g => by rw [hmode.copy]; exact hi.copy g, fun g t ht => ?_⟩
    refine hi.timers g t ?_
    unfold bufferOf at ht ⊢
    rw [← hdec g]; exact ht
  | receive q rand =>
    obtain ⟨hm, _⟩ := receive_moved (.nc hi.ncEnable hi.copy hi.timers) h
    have hnc : s'.ncEnable = true := by
      change s.triggerRecvPdcpSdu q rand = _ at h
      unfold triggerRecvPdcpSdu at h
      rw [if_pos hi.ncEnable] at h
      by_cases hq : q.header.dorC = 1
      · exact (ncRecv_status hq h).2.2.2.1.ncEnable.trans hi.ncEnable
      · obtain ⟨_, _, _, _, _, _, hmode, _⟩ := ncRecv_data hq h
        exact hmode.ncEnable.trans hi.ncEnable
    cases hm with
    | nc _ hcopy htimers => exact ⟨hnc, hcopy, htimers⟩
    | copy _ hcopy => rw [hnc] at hcopy; cases hcopy
  | ncTimer g =>
    rw [show s.step (.ncTimer g) = none from expireNc_none hi.copy hi.timers g] at h
    cases h
  | copyTimer g =>
    obtain ⟨buf, hbuf, _⟩ := expireCopy_armed h
    rw [hi.copy] at hbuf; cases hbuf

theorem ncInv_run {copyEnable : Bool} {flags : Bool × Bool × Bool × Bool} {tr : List (Event × List PdcpOut)}
    {s : LtePdcp} (h : Run machine anyStep (init true copyEnable flags) tr s) : NcInv s := by
  refine Run.invariant (fun _ => NcInv) (ncInv_init copyEnable flags) ?_ h
  intro _ _ _ _ _ hi _ hstep
  exact hi.step hstep

/-- What the expiry of group `g`'s timer should do: the callback is the one of
network coding, finds its group, leaves the copy side alone, and for an
incomplete group with less than three reports sends one more. -/
def ExpiryOk (s : LtePdcp) (g : Nat) : Prop :=
  (∃ q, (s.nc.bufferOf g).statusReportTimer = some (.ncExpire g q)) ∧
  ∃ s' o, machine.step s (.ncTimer g) = some (s', o) ∧ s'.copy = s.copy ∧
    ((s.nc.bufferOf g).ncComplete = false → (s.nc.bufferOf g).numStatusReport < 3 →
      (∃ r, downs o = [r] ∧ r.header.dorC = 1 ∧ r.header.groupnum = g) ∧
      (s'.nc.bufferOf g).numStatusReport = (s.nc.bufferOf g).numStatusReport + 1)

/-- The armed timer of group `g` goes off in state `s`, in a schedule of events
for a new entity. -/
def Expires (copyEnable : Bool) (flags : Bool × Bool × Bool × Bool) (es : List Event) (s : LtePdcp) (g : Nat) : Prop :=
  ∃ tr, Run machine anyStep (init true copyEnable flags) tr s ∧ tr.map Prod.fst ++ [.ncTimer g] <+: es ∧
    (s.nc.bufferOf g).statusReportTimer.isSome

/-- **Expiries.** In every schedule the expiries do what they should exactly
when there is none: each one calls the copy-mode callback, on a group absent
from the copy map. -/
theorem nc_expiries_ok_iff (copyEnable : Bool) (flags : Bool × Bool × Bool × Bool) (es : List Event) :
    (∀ s g, Expires copyEnable flags es s g → ExpiryOk s g) ↔ ∀ s g, ¬Expires copyEnable flags es s g := by
  constructor
  · intro hok s g hexp
    obtain ⟨⟨q, hq⟩, _⟩ := hok s g hexp
    obtain ⟨tr, hrun, _⟩ := hexp
    obtain ⟨g', q', ht⟩ := (ncInv_run hrun).timers g _ hq
    cases ht
  · intro hnone s g hexp
    exact absurd hexp (hnone s g)

/-- A polling PDU of group 4: the scan arms the timers of the groups 0 and 1. -/
def pollRun : Option (List (Event × List PdcpOut) × LtePdcp) :=
  machine.exec anyStep (init true false (false, false, false, false))
    [.receive ⟨{ groupnum := 4, sn := 11, polling := 1 }, datagram 49⟩ fun _ _ => 0]

theorem pollRun_isSome : pollRun.isSome := by decide

/-- The timer of group 0 goes off after one report for the incomplete group,
and the callback finds nothing under 0 in the copy map. -/
theorem nc_expiry_undefined : Expires false (false, false, false, false)
      [.receive ⟨{ groupnum := 4, sn := 11, polling := 1 }, datagram 49⟩ fun _ _ => 0, .ncTimer 0]
      (pollRun.get pollRun_isSome).2 0 ∧ ((pollRun.get pollRun_isSome).2.nc.bufferOf 0).ncComplete = false ∧
    ((pollRun.get pollRun_isSome).2.nc.bufferOf 0).numStatusReport = 1 ∧
    ((pollRun.get pollRun_isSome).2.nc.bufferOf 0).statusReportTimer =
      some (.copyExpire 0 ⟨{ groupnum := 0, dorC := 1 }, .zeros 1⟩) ∧
    machine.step (pollRun.get pollRun_isSome).2 (.ncTimer 0) = none ∧ ¬ExpiryOk (pollRun.get pollRun_isSome).2 0 := by
  have hrun := run_of_isSome machine anyStep (init true false (false, false, false, false)) _ pollRun_isSome
  have hnone : machine.step (pollRun.get pollRun_isSome).2 (.ncTimer 0) = none :=
    expireNc_none (ncInv_run hrun).copy (ncInv_run hrun).timers 0
  refine ⟨⟨_, hrun, List.prefix_rfl, by decide⟩, by decide, by decide, by decide, hnone, ?_⟩
  rintro ⟨_, s', o, hstep, _⟩
  rw [hnone] at hstep
  cases hstep

end LtePdcp

end Ns3
