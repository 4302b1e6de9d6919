import Ns3.Lte.CopyFrame

/-!
# Copy mode over whole runs

The receiver hands up the first data PDU of each group and no other. Status
reports fall through to the code for data PDUs, and are processed as such
exactly when the leftovers of the last data PDU are harmless.
-/

namespace Ns3

namespace LtePdcp

open CopyControl Machine

def dataGroups (tr : List (Event × List PdcpOut)) : List Nat :=
  tr.filterMap fun r =>
    match r.1 with
    | .receive q _ => if q.header.dorC = 1 then none else some q.header.groupnum
    | _ => none

theorem dataGroups_snoc (tr : List (Event × List PdcpOut)) (e : Event) (o : List PdcpOut) :
    dataGroups (tr ++ [(e, o)]) = dataGroups tr ++ dataGroups [(e, o)] :=
  List.filterMap_append

structure CopyInv (tr : List (Event × List PdcpOut)) (s : LtePdcp) : Prop where
  ncEnable : s.ncEnable = false
  copyEnable : s.copyEnable = true
  nc : ∀ g, s.nc.decoding g = none
  rx : CopyRx s.copy (· ∈ dataGroups tr)
  tx : CopyTx s.copy
  idle : (∀ g, s.copy.decoding g = none) ∨ (s.copy.ifTransmitSduFlag = false → s.copy.ifSendArq = false)

theorem copyInv_init (flags : Bool × Bool × Bool × Bool) : CopyInv [] (init false true flags) where
  ncEnable := rfl
  copyEnable := rfl
  nc _ := rfl
  rx := ⟨rfl, fun _ _ h => (nomatch h), fun _ => ⟨fun h => (nomatch h), fun ⟨_, h, _⟩ => (nomatch h)⟩⟩
  tx _ _ h := (nomatch h)
  idle := .inl fun _ => rfl

section
variable {tr : List (Event × List PdcpOut)} {s s' : LtePdcp} {o : List PdcpOut}

theorem step_receive_eq (hi : CopyInv tr s) (q : NcPdu) (rand : Nat → Nat → Nat) :
    s.step (.receive q rand) = s.copyRecv q := by
  change s.triggerRecvPdcpSdu q rand = _
  unfold triggerRecvPdcpSdu
  rw [if_neg (by simp [hi.ncEnable]), if_pos hi.copyEnable]

theorem CopyInv.quiet (hi : CopyInv tr s) {e : Event} (he : ∀ q rand, e ≠ .receive q rand)
    (h : s.step e = some (s', o)) : CopyInv (tr ++ [(e, o)]) s' ∧ ups o = [] := by
  have hgroups : dataGroups (tr ++ [(e, o)]) = dataGroups tr := by
    rw [dataGroups_snoc]
    cases e with
    | receive q rand => exact absurd rfl (he q rand)
    | transmit p rand => exact List.append_nil _
    | ncTimer g => exact List.append_nil _
    | copyTimer g => exact List.append_nil _
  cases e with
  | receive q rand => exact absurd rfl (he q rand)
  | transmit p rand =>
    obtain ⟨s₁, o₁, _, _, _, _, hstep, hnc, _, hf, ha, hdec, hstat, htx, _, _, hu, _⟩ :=
      copyTransmit_spec hi.ncEnable hi.copyEnable hi.tx p rand
    cases hstep.symm.trans h
    refine ⟨⟨hnc.ncEnable.trans hi.ncEnable, hnc.copyEnable.trans hi.copyEnable, fun g => ?_, ?_, htx, ?_⟩, hu⟩
    · rw [hnc.nc]; exact hi.nc g
    · rw [hgroups]
      refine ⟨hstat ▸ hi.rx.stat, fun g buf hb => hi.rx.buffer g buf (hdec g ▸ hb), fun g => ?_⟩
      rw [hdec]; exact hi.rx.seen g
    · rw [hf, ha]
      exact hi.idle.imp (fun h g => (hdec g).trans (h g)) id
  | ncTimer g =>
    -- the network-coding side has no timer
    exfalso
    change s.expireNc g = _ at h
    simp [expireNc, hi.nc g] at h
  | copyTimer g =>
    obtain ⟨buf, hbuf, harmed⟩ := expireCopy_armed h
    obtain ⟨s₁, o₁, hstep, hrx, hk, hnc, hu, _⟩ := expireCopy_total hi.rx hbuf harmed
    cases hstep.symm.trans h
    refine ⟨⟨hnc.ncEnable.trans hi.ncEnable, hnc.copyEnable.trans hi.copyEnable, fun g => ?_, ?_, ?_, ?_⟩, hu⟩
    · rw [hnc.nc]; exact hi.nc g
    · rw [hgroups]; exact hrx
    · intro g' b hb
      rw [hk.encoding] at hb
      exact hi.tx g' b hb
    · rcases hi.idle with hempty | himp
      · rw [hempty g] at hbuf; cases hbuf
      · rw [hk.ifTransmitSduFlag, hk.ifSendArq]
        exact .inr himp

theorem CopyInv.data (hi : CopyInv tr s) {q : NcPdu} (hq : q.header.dorC ≠ 1) (rand : Nat → Nat → Nat) :
    ∃ s' o, s.step (.receive q rand) = some (s', o) ∧ CopyInv (tr ++ [(.receive q rand, o)]) s' ∧
      ups o = if q.header.groupnum ∈ dataGroups tr then [] else [q.packet] := by
  obtain ⟨s', o, h, hrx, hnc, _, henc, hidle, hold, hfresh, _⟩ := copyRecv_data hi.rx hq
  refine ⟨s', o, (step_receive_eq hi q rand).trans h,
    ⟨hnc.ncEnable.trans hi.ncEnable, hnc.copyEnable.trans hi.copyEnable, fun g => ?_, ?_, ?_, .inr hidle⟩, ?_⟩
  · rw [hnc.nc]; exact hi.nc g
  · have hgroups : dataGroups (tr ++ [(.receive q rand, o)]) = dataGroups tr ++ [q.header.groupnum] := by
      rw [dataGroups_snoc]
      simp [dataGroups, hq]
    rw [hgroups]
    simpa using hrx
  · intro g b hb
    rw [henc] at hb
    exact hi.tx g b hb
  · split
    · rename_i hmem; exact hold hmem
    · rename_i hmem; exact hfresh hmem

theorem CopyInv.status (hi : CopyInv tr s) {q : NcPdu} (hq : q.header.dorC = 1) {rand : Nat → Nat → Nat}
    (h : s.step (.receive q rand) = some (s', o)) : CopyInv (tr ++ [(.receive q rand, o)]) s' := by
  rw [step_receive_eq hi] at h
  obtain ⟨hrx, hnc, _, hf, ha, hsome, _, htx, _⟩ := copyRecv_status hi.rx hq h
  have hgroups : dataGroups (tr ++ [(.receive q rand, o)]) = dataGroups tr := by
    rw [dataGroups_snoc]
    simp [dataGroups, hq]
  refine ⟨hnc.ncEnable.trans hi.ncEnable, hnc.copyEnable.trans hi.copyEnable, fun g => ?_, hgroups ▸ hrx, htx hi.tx, ?_⟩
  · rw [hnc.nc]; exact hi.nc g
  · rcases hi.idle with hempty | himp
    · rw [hempty] at hsome; cases hsome
    · rw [hf, ha]; exact .inr himp

end

/-- What a run of copy mode leaves, whatever is sent, received or expires. -/
theorem copyInv_run {flags : Bool × Bool × Bool × Bool} {tr : List (Event × List PdcpOut)} {s : LtePdcp}
    (h : Run machine anyStep (init false true flags) tr s) : CopyInv tr s := by
  refine Run.invariant CopyInv (copyInv_init flags) ?_ h
  intro tr s e s' o hi _ hstep
  cases e with
  | receive q rand =>
    by_cases hq : q.header.dorC = 1
    · exact hi.status hq hstep
    · obtain ⟨s₁, o₁, h₁, hi₁, _⟩ := hi.data hq rand
      cases h₁.symm.trans hstep
      exact hi₁
  | transmit p rand => exact (hi.quiet (e := .transmit p rand) (by simp) hstep).1
  | ncTimer g => exact (hi.quiet (e := .ncTimer g) (by simp) hstep).1
  | copyTimer g => exact (hi.quiet (e := .copyTimer g) (by simp) hstep).1

/-! ## First data PDUs -/

/-- **Exactly once.** After any run of a copy-mode entity a data PDU is
processed and handed up exactly when none of its group came before; armed
timers expire, and neither they nor anything else that is no reception hands
anything up. -/
theorem copy_hands_up_first_only {flags : Bool × Bool × Bool × Bool} {tr : List (Event × List PdcpOut)} {s : LtePdcp}
    (h : Run machine anyStep (init false true flags) tr s) :
    (∀ q rand, q.header.dorC ≠ 1 → ∃ s' o, machine.step s (.receive q rand) = some (s', o) ∧
      ups o = if q.header.groupnum ∈ dataGroups tr then [] else [q.packet]) ∧
    (∀ g buf, s.copy.decoding g = some buf → buf.statusReportTimer.isSome →
      ∃ s' o, machine.step s (.copyTimer g) = some (s', o)) ∧
    (∀ e s' o, (∀ q rand, e ≠ .receive q rand) → machine.step s e = some (s', o) → ups o = []) := by
  have hi := copyInv_run h
  refine ⟨?_, ?_, ?_⟩
  · intro q rand hq
    obtain ⟨s', o, hstep, _, hups⟩ := hi.data hq rand
    exact ⟨s', o, hstep, hups⟩
  · intro g buf hbuf harmed
    obtain ⟨s', o, hstep, _⟩ := expireCopy_total hi.rx hbuf harmed
    exact ⟨s', o, hstep⟩
  · intro e s' o he hstep
    exact (hi.quiet he hstep).2

/-- Group 10 opens a scan that leaves placeholders for the groups 0 to 2; the
timer of group 1 goes off twice. -/
def gapRun : Option (List (Event × List PdcpOut) × LtePdcp) :=
  machine.exec anyStep (init false true (false, false, false, false))
    [.receive ⟨{ groupnum := 10 }, datagram 7⟩ fun _ _ => 0, .copyTimer 1, .copyTimer 1]

theorem gapRun_isSome : gapRun.isSome := by decide

theorem copy_hands_up_first_only_placeholder :
    ((gapRun.get gapRun_isSome).2.copy.decoding 1).map (·.noReceive) = some true ∧
    ∃ s' o, machine.step (gapRun.get gapRun_isSome).2 (.receive ⟨{ groupnum := 1 }, datagram 8⟩ fun _ _ => 0) =
      some (s', o) ∧ ups o = [datagram 8] :=
  ⟨by decide, (copy_hands_up_first_only (run_of_isSome _ _ _ _ gapRun_isSome)).1 ⟨{ groupnum := 1 }, datagram 8⟩
    (fun _ _ => 0) (by decide)⟩

/-! ## Status reports -/

def passed (os : List PdcpOut) : List (RlcEntity × NcPdu) :=
  os.filterMap fun
    | .up _ => none
    | .down q => q.header.map fun h => (q.rlc, ⟨h, q.packet⟩)

/-- A status report is processed as such: the step is defined, sends the
retransmissions on both RLCs, nothing else, and hands nothing up. -/
def StatusAnswered (s : LtePdcp) (q : NcPdu) (rand : Nat → Nat → Nat) : Prop :=
  ∃ c arqPackets s' o,
    ({ s.copy with ifRecvArq := true } : CopyControl).makeCopyArqSendPacket q = some (c, arqPackets) ∧
    machine.step s (.receive q rand) = some (s', o) ∧
    passed o = arqPackets.flatMap (fun p => [(RlcEntity.rlc1, p), (RlcEntity.rlc2, p)]) ∧ ups o = []

theorem passed_sendOnBoth : ∀ (qs : List NcPdu) (s : LtePdcp),
    passed (sendOnBoth s qs).2 = qs.flatMap (fun p => [(RlcEntity.rlc1, p), (RlcEntity.rlc2, p)])
  | [], _ => rfl
  | q :: qs, s => by
    have ih := passed_sendOnBoth qs ((s.doTransmitPdcpSdu q 1).1.doTransmitPdcpSdu2 q 1).1
    rw [List.flatMap_cons, ← ih]
    rfl

section
variable {tr : List (Event × List PdcpOut)} {s : LtePdcp} {q : NcPdu} {rand : Nat → Nat → Nat}

theorem StatusAnswered.flag (hi : CopyInv tr s) (hq : q.header.dorC = 1) (h : StatusAnswered s q rand) :
    s.copy.ifTransmitSduFlag = false := by
  obtain ⟨c, qs, s', o, hmake, hstep, _, hups⟩ := h
  have hrecv := (step_receive_eq hi q rand).symm.trans hstep
  rw [copyRecv_status_eq hq, hmake, Option.bind_some] at hrecv
  simp only [Option.bind_eq_some_iff] at hrecv
  obtain ⟨c₂, _, u, _, hout⟩ := hrecv
  cases hout
  rw [ups_append, ups_append, List.append_eq_nil_iff, List.append_eq_nil_iff,
    (sendOnBoth_spec qs { s with copy := c }).1] at hups
  have hflag : c.ifTransmitSduFlag = s.copy.ifTransmitSduFlag := (makeCopyArqSendPacket_spec hmake).2.1
  rw [hflag] at hups
  cases hf : s.copy.ifTransmitSduFlag with
  | false => rfl
  | true =>
    rw [hf] at hups
    exact absurd hups.1.2 (by simp [ups])

theorem StatusAnswered.entry (hi : CopyInv tr s) (hq : q.header.dorC = 1) (h : StatusAnswered s q rand) :
    (s.copy.decoding s.copy.groupnum).isSome := by
  obtain ⟨_, _, s', o, _, hstep, _⟩ := h
  rw [show machine.step s (.receive q rand) = s.copyRecv q from step_receive_eq hi q rand] at hstep
  exact (copyRecv_status hi.rx hq hstep).2.2.2.2.2.1

theorem statusAnswered_of (hi : CopyInv tr s) (hq : q.header.dorC = 1)
    (hflag : s.copy.ifTransmitSduFlag = false) (hentry : (s.copy.decoding s.copy.groupnum).isSome) :
    StatusAnswered s q rand := by
  have hrx₀ : CopyRx ({ s.copy with ifRecvArq := true } : CopyControl) (· ∈ dataGroups tr) :=
    ⟨hi.rx.stat, hi.rx.buffer, hi.rx.seen⟩
  obtain ⟨c, qs, hmake⟩ :=
    makeCopyArqSendPacket_total (c := { s.copy with ifRecvArq := true }) hi.tx q
  obtain ⟨m₁, m₂, m₃, m₄, m₅, _⟩ := makeCopyArqSendPacket_spec hmake
  let t := sendOnBoth { s with copy := c } qs
  have ht : t.1.copy = c := (sendOnBoth_spec qs _).1
  have hsome : (c.decoding c.groupnum).isSome := by
    rw [m₄, m₁]; exact hentry
  obtain ⟨c₂, hstop, _, hk⟩ := stopArqTimer_total (m₅ _ hrx₀) hsome
  -- a data PDU came before, so a low flag means no request either
  have hidle : c₂.ifSendArq = false := by
    rw [hk.ifSendArq, m₃]
    rcases hi.idle with hempty | himp
    · rw [hempty] at hentry; cases hentry
    · exact himp hflag
  have hreq : ({ t.1 with copy := c₂ } : LtePdcp).copyRequest = some ({ t.1 with copy := c₂ }, []) := by
    unfold copyRequest
    exact if_neg (by simp [hidle])
  have hlow : ¬c.ifTransmitSduFlag = true := by
    rw [m₂]; simp [hflag]
  refine ⟨c, qs, { t.1 with copy := c₂ }, t.2, hmake, ?_, passed_sendOnBoth qs _, (sendOnBoth_spec qs _).2.2.1⟩
  refine (step_receive_eq hi q rand).trans ?_
  rw [copyRecv_status_eq hq, hmake, Option.bind_some]
  change (t.1.copy.stopArqTimer).bind _ = _
  rw [ht, hstop, Option.bind_some, hreq, Option.bind_some, if_neg hlow, List.append_nil, List.append_nil]

end

/-- **Status reports.** In every state of a copy-mode entity a status report is
processed as such exactly when the flag of the last data PDU is down and the
group counter stands at a group with a decoding buffer. -/
theorem copy_status_answered_iff {flags : Bool × Bool × Bool × Bool} {tr : List (Event × List PdcpOut)}
    {s : LtePdcp} (h : Run machine anyStep (init false true flags) tr s) {q : NcPdu} (hq : q.header.dorC = 1)
    (rand : Nat → Nat → Nat) : StatusAnswered s q rand ↔
      s.copy.ifTransmitSduFlag = false ∧ (s.copy.decoding s.copy.groupnum).isSome := by
  have hi := copyInv_run h
  constructor
  · intro ha
    exact ⟨ha.flag hi hq, ha.entry hi hq⟩
  · rintro ⟨hflag, hentry⟩
    exact statusAnswered_of hi hq hflag hentry

/-- Group 1 arrives on both RLCs. -/
def doubleRun : Option (List (Event × List PdcpOut) × LtePdcp) :=
  machine.exec anyStep (init false true (false, false, false, false))
    [.receive ⟨{ groupnum := 1 }, datagram 7⟩ fun _ _ => 0, .receive ⟨{ groupnum := 1 }, datagram 7⟩ fun _ _ => 0]

theorem doubleRun_isSome : doubleRun.isSome := by decide

theorem copy_status_answered_after_duplicate :
    StatusAnswered (doubleRun.get doubleRun_isSome).2 ⟨{ groupnum := 3, dorC := 1 }, .zeros 1⟩ fun _ _ => 0 :=
  (copy_status_answered_iff (run_of_isSome _ _ _ _ doubleRun_isSome) rfl _).mpr ⟨by decide, by decide⟩

/-- Group 1 arrives on one RLC only. -/
def singleRun : Option (List (Event × List PdcpOut) × LtePdcp) :=
  machine.exec anyStep (init false true (false, false, false, false))
    [.receive ⟨{ groupnum := 1 }, datagram 7⟩ fun _ _ => 0]

theorem singleRun_isSome : singleRun.isSome := by decide

/-- After a first data PDU the status report is handed up; a new entity reads
a buffer that does not exist. -/
theorem copy_status_handed_up :
    Run machine anyStep (init false true (false, false, false, false)) (singleRun.get singleRun_isSome).1
      (singleRun.get singleRun_isSome).2 ∧
    (machine.step (singleRun.get singleRun_isSome).2 (.receive ⟨{ groupnum := 3, dorC := 1 }, .zeros 1⟩ fun _ _ => 0)).map
      (fun r => ups r.2) = some [.zeros 1] ∧
    ¬StatusAnswered (singleRun.get singleRun_isSome).2 ⟨{ groupnum := 3, dorC := 1 }, .zeros 1⟩ (fun _ _ => 0) ∧
    machine.step (init false true (false, false, false, false))
      (.receive ⟨{ groupnum := 3, dorC := 1 }, .zeros 1⟩ fun _ _ => 0) = none := by
  have hrun := run_of_isSome machine anyStep (init false true (false, false, false, false)) _ singleRun_isSome
  refine ⟨hrun, by decide, ?_, rfl⟩
  intro h
  have hflag := h.flag (copyInv_run hrun) rfl
  exact absurd hflag (by decide)

end LtePdcp

end Ns3
