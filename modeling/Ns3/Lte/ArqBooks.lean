import Ns3.Lte.NcBooks

/-!
# Bookkeeping of the retransmission requests

A history is a PDCP entity with the groups that its scans counted as failed.
Whatever order receptions, transmissions and expiries come in, the books of
both modes stay sound, and the base only moves up.
-/

namespace Ns3

open Machine RequestBooks NcControl LtePdcp Option

namespace LtePdcp

/-! ## Transmitting leaves the books alone -/

structure SameBooks (s s' : LtePdcp) : Prop where
  copy : ∀ failed, s'.copy.books failed = s.copy.books failed
  nc : ∀ failed, s'.nc.books failed = s.nc.books failed

theorem SameBooks.trans {a b c : LtePdcp} (h₁ : SameBooks a b) (h₂ : SameBooks b c) : SameBooks a c :=
  ⟨fun failed => (h₂.copy failed).trans (h₁.copy failed), fun failed => (h₂.nc failed).trans (h₁.nc failed)⟩

theorem toogleSend_sameBooks (s : LtePdcp) (q : NcPdu) (k : Nat) : SameBooks s (s.toogleSend q k).1 := by
  obtain ⟨hnc, hmode, _⟩ := toogleSend_spec s q k
  refine ⟨fun failed => ?_, fun failed => ?_⟩
  · rw [hmode.copy]
  · rw [hnc]

theorem redundancyLoop_sameBooks (rand : Nat → Nat → Nat) : ∀ (n var : Nat) {s s' : LtePdcp} {os : List PdcpOut},
    redundancyLoop rand n var s = some (s', os) → SameBooks s s'
  | 0, _, s, s', os, h => by
    cases h
    exact ⟨fun _ => rfl, fun _ => rfl⟩
  | n + 1, var, s, s', os, h => by
    obtain ⟨⟨c, q⟩, hred, h⟩ := bind_eq_some_iff.mp h
    obtain ⟨⟨s₂, os₂⟩, hloop, h⟩ := bind_eq_some_iff.mp h
    cases h
    have hc : ∀ failed, c.books failed = s.nc.books failed := by
      unfold makeRedundancePacket at hred
      simp only [bind_eq_bind, bind_eq_some_iff] at hred
      obtain ⟨_, _, _, _, _, _, hred⟩ := hred
      cases hred
      exact fun _ => rfl
    have hs : SameBooks s { s with nc := c } := ⟨fun _ => rfl, hc⟩
    exact (hs.trans (toogleSend_sameBooks _ q 0)).trans (redundancyLoop_sameBooks rand n (var + 1) hloop)

variable {s s' : LtePdcp} {os : List PdcpOut} {g : Nat}

theorem transmit_sameBooks {p : Packet} {rand : Nat → Nat → Nat} {o : List PdcpOut}
    (h : s.triggerDoTransmitPdcpSdu p rand = some (s', o)) : SameBooks s s' := by
  unfold triggerDoTransmitPdcpSdu at h
  split at h
  · obtain ⟨⟨nc, q⟩, hsend, h⟩ := bind_eq_some_iff.mp h
    let s₁ : LtePdcp := { s with nc := nc }
    have hsame : SameBooks s s₁ := by
      obtain ⟨buf, rfl⟩ := sendSaveAndSetTime_eq hsend
      exact ⟨fun _ => rfl, fun _ => rfl⟩
    have hsent : SameBooks s (s₁.toogleSend q 0).1 := hsame.trans (toogleSend_sameBooks s₁ q 0)
    obtain ⟨size, _, h⟩ := bind_eq_some_iff.mp h
    change (if size = originalBlockSize then
      (redundancyLoop rand _ 0 (s₁.toogleSend q 0).1).bind _ else _) = _ at h
    split at h
    · obtain ⟨⟨s₂, os⟩, hloop, h⟩ := bind_eq_some_iff.mp h
      have hall := hsent.trans (redundancyLoop_sameBooks rand _ _ hloop)
      dsimp only at h
      split at h
      · cases h
        exact ⟨hall.copy, hall.nc⟩
      · cases h
        exact hall
    · cases h
      exact hsent
  · split at h
    · obtain ⟨⟨c, q⟩, hred, h⟩ := bind_eq_some_iff.mp h
      unfold CopyControl.makeRedundancePacket at hred
      simp only [bind_eq_bind, bind_eq_some_iff] at hred
      obtain ⟨_, _, _, _, _, _, hred⟩ := hred
      cases hred
      cases h
      exact ⟨fun _ => rfl, fun _ => rfl⟩
    · cases h
      exact ⟨fun _ => rfl, fun _ => rfl⟩

/-! ## Expiries -/

theorem expireStatusReportTimer_reaches {t : StatusTimer}
    (h : s.expireStatusReportTimer t = some (s', os)) (copyFailed ncFailed : List Nat) :
    Reaches 3 (s.copy.books copyFailed) (s'.copy.books copyFailed) ∧
      Reaches 3 (s.nc.books ncFailed) (s'.nc.books ncFailed) := by
  cases t with
  | ncExpire g q =>
    obtain ⟨hcopy, hreach⟩ := ncExpireStatusReportTimer_moves h
    exact ⟨hcopy ▸ .refl, hreach ncFailed⟩
  | copyExpire g q =>
    obtain ⟨hnc, hreach⟩ := copyExpireStatusReportTimer_moves h
    exact ⟨hreach copyFailed, hnc ▸ .refl⟩

theorem expireCopy_reaches (h : s.expireCopy g = some (s', os)) (copyFailed ncFailed : List Nat) :
    Reaches 3 (s.copy.books copyFailed) (s'.copy.books copyFailed) ∧
      Reaches 3 (s.nc.books ncFailed) (s'.nc.books ncFailed) := by
  obtain ⟨buf, hbuf, h⟩ := bind_eq_some_iff.mp h
  obtain ⟨t, _, h⟩ := bind_eq_some_iff.mp h
  have hreach := expireStatusReportTimer_reaches h copyFailed ncFailed
  have hclear := CopyControl.books_setDecoding hbuf { buf with statusReportTimer := none } rfl rfl copyFailed
  exact ⟨hclear ▸ hreach.1, hreach.2⟩

theorem ncTimer_clear {buf : NcDecodingBuffer} (hbuf : s.nc.decoding g = some buf) (failed : List Nat) :
    (s.nc.setDecoding g { buf with statusReportTimer := none }).books failed = s.nc.books failed := by
  have hown : s.nc.bufferOf g = buf := bufferOf_of_decoding hbuf
  exact books_setDecoding _ (by rw [hown]) (by rw [hown]) failed

theorem expireNc_reaches (h : s.expireNc g = some (s', os)) (copyFailed ncFailed : List Nat) :
    Reaches 3 (s.copy.books copyFailed) (s'.copy.books copyFailed) ∧
      Reaches 3 (s.nc.books ncFailed) (s'.nc.books ncFailed) := by
  obtain ⟨buf, hbuf, h⟩ := bind_eq_some_iff.mp h
  obtain ⟨t, _, h⟩ := bind_eq_some_iff.mp h
  have hreach := expireStatusReportTimer_reaches h copyFailed ncFailed
  exact ⟨hreach.1, ncTimer_clear hbuf ncFailed ▸ hreach.2⟩

/-! ## Histories -/

/-- The groups that an event counts in the `m_failedGroupNum` of each mode. -/
def copyCounted (s : LtePdcp) : Event → List Nat
  | .receive q _ => (s.copyScan q).elim [] CopyControl.scanCounted
  | _ => []

def ncCounted (s : LtePdcp) : Event → List Nat
  | .receive q _ => (s.ncScan q).elim [] scanCounted
  | _ => []

theorem receive_reaches {q : NcPdu} {rand : Nat → Nat → Nat}
    (h : s.triggerRecvPdcpSdu q rand = some (s', os)) (copyFailed ncFailed : List Nat) :
    Reaches 3 (s.copy.books copyFailed) (s'.copy.books (copyFailed ++ s.copyCounted (.receive q rand))) ∧
      Reaches 3 (s.nc.books ncFailed) (s'.nc.books (ncFailed ++ s.ncCounted (.receive q rand))) := by
  unfold triggerRecvPdcpSdu at h
  unfold copyCounted ncCounted
  dsimp only
  split at h
  · rename_i hnc
    obtain ⟨hcopy, hreach⟩ := ncRecv_moves hnc h
    refine ⟨?_, hreach ncFailed⟩
    rw [hcopy, copyScan, if_pos (by simp [hnc]), elim_none, List.append_nil]
  · rename_i hnc
    have hidle : ncFailed ++ (s.ncScan q).elim [] scanCounted = ncFailed := by
      rw [ncScan, if_pos (by simp [hnc]), elim_none, List.append_nil]
    rw [hidle]
    split at h
    · rename_i hcopy
      obtain ⟨hnc', hreach⟩ := copyRecv_moves (by simp [hnc, hcopy]) h
      exact ⟨hreach copyFailed, hnc' ▸ .refl⟩
    · rename_i hplain
      cases h
      rw [copyScan, if_pos (by simp [hplain]), elim_none, List.append_nil]
      exact ⟨.refl, .refl⟩

end LtePdcp

structure ArqHistory where
  pdcp : LtePdcp
  copyFailed : List Nat := []
  ncFailed : List Nat := []

/-- The call of an expired network-coding timer goes to `m_Copy`, where it has
no outcome. `ncTimerOver` is such an expiry that leaves `m_Nc` as it is, with
the timer no longer running. -/
inductive ArqEvent where
  | entity (e : LtePdcp.Event)
  | ncTimerOver (g : Nat)

namespace ArqHistory

def ncTimerOver (s : LtePdcp) (g : Nat) : Option LtePdcp := do
  let buf ← s.nc.decoding g
  let _ ← buf.statusReportTimer
  some { s with nc := s.nc.setDecoding g { buf with statusReportTimer := none } }

def step (h : ArqHistory) : ArqEvent → Option (ArqHistory × List PdcpOut)
  | .entity e =>
    (h.pdcp.step e).map fun r =>
      ({ pdcp := r.1, copyFailed := h.copyFailed ++ h.pdcp.copyCounted e, ncFailed := h.ncFailed ++ h.pdcp.ncCounted e },
        r.2)
  | .ncTimerOver g => (ncTimerOver h.pdcp g).map fun s => ({ h with pdcp := s }, [])

def machine : Machine ArqHistory ArqEvent PdcpOut := ⟨step⟩

def copyBooks (h : ArqHistory) : RequestBooks := h.pdcp.copy.books h.copyFailed

def ncBooks (h : ArqHistory) : RequestBooks := h.pdcp.nc.books h.ncFailed

variable {h : ArqHistory}

/-- **Refinement.** Every step of the entity is steps of the books of both
modes. -/
theorem entity_reaches {e : LtePdcp.Event} {s : LtePdcp} {o : List PdcpOut} (hs : h.pdcp.step e = some (s, o)) :
    Reaches 3 h.copyBooks (s.copy.books (h.copyFailed ++ h.pdcp.copyCounted e)) ∧
      Reaches 3 h.ncBooks (s.nc.books (h.ncFailed ++ h.pdcp.ncCounted e)) := by
  unfold copyBooks ncBooks
  cases e with
  | transmit p rand =>
    have hsame := transmit_sameBooks hs
    simp only [copyCounted, ncCounted, List.append_nil, hsame.copy, hsame.nc]
    exact ⟨.refl, .refl⟩
  | receive q rand => exact receive_reaches hs _ _
  | ncTimer g =>
    simp only [copyCounted, ncCounted, List.append_nil]
    exact expireNc_reaches hs _ _
  | copyTimer g =>
    simp only [copyCounted, ncCounted, List.append_nil]
    exact expireCopy_reaches hs _ _

/-- Each event is a path of requests, answers and expiries in both books. -/
theorem step_reaches {h h' : ArqHistory} {e : ArqEvent} {o : List PdcpOut} (hstep : machine.step h e = some (h', o)) :
    Reaches 3 h.copyBooks h'.copyBooks ∧ Reaches 3 h.ncBooks h'.ncBooks := by
  cases e with
  | entity e =>
    obtain ⟨⟨s', o'⟩, hs, heq⟩ := map_eq_some_iff.mp hstep
    cases heq
    exact entity_reaches hs
  | ncTimerOver g =>
    obtain ⟨s', hs, heq⟩ := map_eq_some_iff.mp hstep
    cases heq
    obtain ⟨buf, hbuf, hs⟩ := bind_eq_some_iff.mp hs
    obtain ⟨t, _, hs⟩ := bind_eq_some_iff.mp hs
    cases hs
    refine ⟨.refl, ?_⟩
    rw [ncBooks, ncBooks, ncTimer_clear hbuf]

def start (ncEnable copyEnable : Bool) (flags : Bool × Bool × Bool × Bool) : ArqHistory where
  pdcp := .init ncEnable copyEnable flags

def fresh (tables : List Nat) : RequestBooks := .ofEntries 0 (fun _ => none) [] 0 tables

theorem fresh_sound (tables : List Nat) : Sound 3 (fresh tables) where
  below _ hg := absurd hg (Nat.not_lt_zero _)
  asked _ := Nat.zero_le 3
  nodup := .nil
  given _ hg := (List.not_mem_nil hg).elim
  count := rfl

theorem run_reaches {ncEnable copyEnable : Bool} {flags : Bool × Bool × Bool × Bool}
    {tr : List (ArqEvent × List PdcpOut)} (hrun : Run machine anyStep (start ncEnable copyEnable flags) tr h) :
    Reaches 3 (fresh [5]) h.copyBooks ∧ Reaches 3 (fresh [5, 5]) h.ncBooks := by
  refine Run.invariant (fun _ h => Reaches 3 (fresh [5]) h.copyBooks ∧ Reaches 3 (fresh [5, 5]) h.ncBooks)
    ⟨.refl, .refl⟩ ?_ hrun
  intro _ _ _ _ _ hi _ hstep
  obtain ⟨hcopy, hnc⟩ := step_reaches hstep
  exact ⟨hi.1.trans hcopy, hi.2.trans hnc⟩

/-- The bookkeeping of copy mode, where the groups in `failed` were counted as
failed. -/
structure CopyOk (c : CopyControl) (failed : List Nat) : Prop where
  below : ∀ g < c.ncVrMs, c.isComplete g = true
  reports : ∀ g buf, c.decoding g = some buf → buf.numStatusReport ≤ 3
  statistic : c.statusReportStatistic.length = 5
  failedOnce : failed.Nodup
  failedNum : c.failedGroupNum = failed.length

structure NcOk (c : NcControl) (failed : List Nat) : Prop where
  below : ∀ g < c.ncVrMs, c.isComplete g = true
  reports : ∀ g buf, c.decoding g = some buf → buf.numStatusReport ≤ 3
  statistics : c.statusReportStatistic.length = 5 ∧ c.packetStatistic.length = 5
  failedOnce : failed.Nodup
  failedNum : c.failedGroupNum = failed.length

theorem copyOk_of_reaches {c : CopyControl} {failed : List Nat} (h : Reaches 3 (fresh [5]) (c.books failed)) :
    CopyOk c failed := by
  have hs := h.sound (fresh_sound _)
  refine ⟨fun g hg => (CopyControl.isComplete_eq c g).trans (hs.below g hg), fun g buf hbuf => ?_, ?_,
    hs.nodup, hs.count⟩
  · have hasked : (c.entry g).elim 0 Prod.snd ≤ 3 := hs.asked g
    rw [CopyControl.entry, hbuf] at hasked
    exact hasked
  · exact (List.cons.inj h.tables_eq).1

theorem ncOk_of_reaches {c : NcControl} {failed : List Nat} (h : Reaches 3 (fresh [5, 5]) (c.books failed)) :
    NcOk c failed := by
  have hs := h.sound (fresh_sound _)
  refine ⟨fun g hg => (isComplete_eq c g).trans (hs.below g hg), fun g buf hbuf => ?_, ?_,
    hs.nodup, hs.count⟩
  · have hasked : (c.entry g).elim 0 Prod.snd ≤ 3 := hs.asked g
    rw [entry, hbuf] at hasked
    exact hasked
  · obtain ⟨hpacket, htail⟩ := List.cons.inj h.tables_eq
    exact ⟨(List.cons.inj htail).1, hpacket⟩

/-- What a scan may request: incomplete groups from `base` on, upwards, at most
`n` of them. -/
structure Requests (n base : Nat) (isComplete : Nat → Bool) (gs : List Nat) : Prop where
  upwards : gs.Pairwise (· < ·)
  atMost : gs.length ≤ n
  missing : ∀ g ∈ gs, base ≤ g ∧ isComplete g = false

theorem requests_of_scan {n i : Nat} {b b' : RequestBooks} {gs : List Nat} {isComplete : Nat → Bool}
    (h : RequestBooks.Scan 3 n b i gs b') (hdone : ∀ g, g ∈ b.done ↔ isComplete g = true) :
    Requests n i isComplete gs := by
  refine ⟨h.sorted, h.length_le, fun g hg => ?_⟩
  obtain ⟨hle, hmiss, _⟩ := h.picked g hg
  exact ⟨hle, Bool.eq_false_iff.mpr fun hc => hmiss ((hdone g).mpr hc)⟩

/-- **Bookkeeping.** In every run, in both modes: the groups below `m_ncVrMs`
are complete, no group has more than three reports, the groups counted as
failed are different and as many as `m_failedGroupNum` says; `m_ncVrMs` only
moves up, and a scan requests incomplete groups from it on, upwards, at most
three or five of them. -/
theorem arq_books {ncEnable copyEnable : Bool} {flags : Bool × Bool × Bool × Bool}
    {tr : List (ArqEvent × List PdcpOut)} {h : ArqHistory}
    (hrun : Run machine anyStep (start ncEnable copyEnable flags) tr h) :
    CopyOk h.pdcp.copy h.copyFailed ∧ NcOk h.pdcp.nc h.ncFailed ∧ (∀ e h' o, machine.step h e = some (h', o) →
      h.pdcp.copy.ncVrMs ≤ h'.pdcp.copy.ncVrMs ∧ h.pdcp.nc.ncVrMs ≤ h'.pdcp.nc.ncVrMs) ∧
    (∀ q c c' gs qs, h.pdcp.copyScan q = some c → c.copySendArqReq = some (c', gs, qs) →
      Requests 3 c.ncVrMs c.isComplete gs) ∧
    (∀ q c c' gs qs, h.pdcp.ncScan q = some c → c.ncSendArqReq = some (c', gs, qs) →
      Requests 5 c.ncVrMs c.isComplete gs) := by
  obtain ⟨hcopy, hnc⟩ := run_reaches hrun
  refine ⟨copyOk_of_reaches hcopy, ncOk_of_reaches hnc, ?_, ?_, ?_⟩
  · intro e h' o hstep
    obtain ⟨hcopy', hnc'⟩ := step_reaches hstep
    exact ⟨hcopy'.base_le, hnc'.base_le⟩
  · intro q c c' gs qs _ hscan
    obtain ⟨b, hb, _⟩ := CopyControl.copySendArqReq_scan hscan []
    refine requests_of_scan hb fun g => ?_
    rw [CopyControl.isComplete_eq]
    exact Iff.rfl
  · intro q c c' gs qs _ hscan
    obtain ⟨b, hb, _⟩ := ncSendArqReq_scan hscan []
    refine requests_of_scan hb fun g => ?_
    rw [isComplete_eq]
    exact Iff.rfl

/-- The groups 0 to 2 are lost: group 10 opens a scan for them, two expiries of
each timer repeat the reports, and the scan of group 20 gives them up. -/
def lossRun : Option (List (ArqEvent × List PdcpOut) × ArqHistory) :=
  machine.exec anyStep (start false true (false, false, false, false))
    (.entity (.receive ⟨{ groupnum := 10 }, datagram 7⟩ fun _ _ => 0) ::
      ([0, 1, 2, 0, 1, 2, 0, 1, 2].map fun g => .entity (.copyTimer g)) ++
      [.entity (.receive ⟨{ groupnum := 20 }, datagram 8⟩ fun _ _ => 0)])

theorem lossRun_isSome : lossRun.isSome := by decide

theorem arq_books_three_lost : (lossRun.get lossRun_isSome).2.copyFailed = [0, 1, 2] ∧
    (lossRun.get lossRun_isSome).2.pdcp.copy.failedGroupNum = 3 ∧ (lossRun.get lossRun_isSome).2.pdcp.copy.ncVrMs = 3 ∧
    CopyOk (lossRun.get lossRun_isSome).2.pdcp.copy (lossRun.get lossRun_isSome).2.copyFailed := by
  have hrun := run_of_isSome machine anyStep (start false true (false, false, false, false)) _ lossRun_isSome
  exact ⟨by decide, by decide, by decide, (arq_books hrun).1⟩

end ArqHistory

end Ns3
