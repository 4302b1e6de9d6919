import Ns3.Lte.CopyBooks
import Ns3.Lte.NcTotal

/-!
# The books of network coding

The receiving side of `NcControl` keeps the same books as copy mode. Filing a
data PDU leaves them; decoding completes a group.
-/

namespace Ns3

open List Option

namespace NcControl

open RequestBooks

def entry (c : NcControl) (g : Nat) : Option (Bool × Nat) :=
  (c.decoding g).map fun buf => (buf.ncComplete, buf.numStatusReport)

def books (c : NcControl) (failed : List Nat) : RequestBooks :=
  .ofEntries c.ncVrMs c.entry failed c.failedGroupNum [c.packetStatistic.length, c.statusReportStatistic.length]

theorem entry_setDecoding (c : NcControl) (g : Nat) (buf : NcDecodingBuffer) (g' : Nat) :
    (c.setDecoding g buf).entry g' = if g' = g then some (buf.ncComplete, buf.numStatusReport) else c.entry g' := by
  unfold entry
  rw [decoding_setDecoding]
  split <;> rfl

theorem isComplete_eq (c : NcControl) (g : Nat) : c.isComplete g = (c.entry g).elim false Prod.fst := by
  unfold isComplete entry
  cases c.decoding g <;> rfl

theorem bufferOf_done (c : NcControl) (g : Nat) : (c.bufferOf g).ncComplete = (c.entry g).elim false Prod.fst := by
  unfold bufferOf entry
  cases c.decoding g <;> rfl

theorem bufferOf_asked (c : NcControl) (g : Nat) : (c.bufferOf g).numStatusReport = (c.entry g).elim 0 Prod.snd := by
  unfold bufferOf entry
  cases c.decoding g <;> rfl

variable {c c' : NcControl}

theorem books_setDecoding {g : Nat} (buf : NcDecodingBuffer) (hdone : buf.ncComplete = (c.bufferOf g).ncComplete)
    (hasked : buf.numStatusReport = (c.bufferOf g).numStatusReport) (failed : List Nat) :
    (c.setDecoding g buf).books failed = c.books failed :=
  ofEntries_same (entry_setDecoding c g buf) (hdone.trans (bufferOf_done c g)) (hasked.trans (bufferOf_asked c g))

/-! ## The scan -/

def Scan.counted (s s' : Scan) (i : Nat) : List Nat :=
  List.replicate (s'.ctl.failedGroupNum - s.ctl.failedGroupNum) i

def countedLoop : Nat → Nat → Scan → List Nat
  | 0, _, _ => []
  | n + 1, i, s =>
    match s.visit i with
    | none => []
    | some s' => s.counted s' i ++ if s'.cnt = 5 then [] else countedLoop n (i + 1) s'

/-- The groups `NcSendArqReq` counts as failed. -/
def scanCounted (c : NcControl) : List Nat :=
  if c.groupnum < 4 then []
  else countedLoop (c.groupnum - 3 + 1 - c.ncVrMs) c.ncVrMs { ctl := c }

section
variable {s s' : Scan} {i : Nat}

theorem counted_of_eq (h : s'.ctl.failedGroupNum = s.ctl.failedGroupNum) : s.counted s' i = [] := by
  rw [Scan.counted, h, Nat.sub_self, replicate_zero]

theorem counted_of_succ (h : s'.ctl.failedGroupNum = s.ctl.failedGroupNum + 1) : s.counted s' i = [i] := by
  rw [Scan.counted, h, Nat.add_sub_cancel_left, replicate_one]

theorem visit_cases (h : s.visit i = some s') : ∃ buf, s.ctl.bufferOf i = buf ∧
    (s' = { s with ctl := s.ctl.setDecoding i buf } ∨ buf.ncComplete = false ∧ buf.numStatusReport < 3 ∧
      (∃ rank report, s' = { ctl := (s.ctl.setDecoding i buf).setDecoding i { buf with rank := rank },
                             cnt := s.cnt + 1, arqGroupNums := s.arqGroupNums ++ [i],
                             arqPackets := s.arqPackets ++ [report] }) ∨ buf.ncComplete = false ∧ ∃ sstat,
      bumpAt s.ctl.statusReportStatistic (buf.numStatusReport + 1) 1 = some sstat ∧
      s' = { s with ctl := { (s.ctl.setDecoding i buf).setDecoding i { buf with ncComplete := true } with
               statusReportStatistic := sstat, failedGroupNum := s.ctl.failedGroupNum + 1 } }) := by
  refine ⟨_, rfl, ?_⟩
  unfold Scan.visit at h
  unfold bufferOf
  dsimp only at h
  generalize (s.ctl.decoding i).getD {} = buf at h ⊢
  split at h
  · exact .inl (Option.some.inj h).symm
  · rename_i hnot
    have hc : buf.ncComplete = false := by
      cases hb : buf.ncComplete with
      | false => rfl
      | true => simp [hb] at hnot
    split at h
    · rename_i hnum
      obtain ⟨c, hrank, h⟩ := bind_eq_some_iff.mp h
      obtain ⟨report, _, h⟩ := bind_eq_some_iff.mp h
      obtain ⟨buf', hbuf', rfl⟩ := map_eq_some_iff.mp hrank
      rw [decoding_setDecoding, if_pos rfl] at hbuf'
      cases hbuf'
      exact .inr (.inl ⟨hc, hnum, _, report, (Option.some.inj h).symm⟩)
    · obtain ⟨sstat, hbump, h⟩ := bind_eq_some_iff.mp h
      exact .inr (.inr ⟨hc, sstat, hbump, (Option.some.inj h).symm⟩)

theorem visit_round (h : s.visit i = some s') (failed : List Nat) :
    ∃ new, Round 3 (s.ctl.books failed) i new (s'.ctl.books (failed ++ s.counted s' i)) ∧
      s'.arqGroupNums = s.arqGroupNums ++ new ∧ s'.cnt = s.cnt + new.length ∧
      s'.arqPackets.length = s.arqPackets.length + new.length := by
  obtain ⟨buf, hbuf, h⟩ := visit_cases h
  have hsame : (s.ctl.setDecoding i buf).books failed = s.ctl.books failed :=
    hbuf ▸ books_setDecoding _ rfl rfl failed
  have hown : (s.ctl.setDecoding i buf).bufferOf i = buf := by
    rw [bufferOf_setDecoding, if_pos rfl]
  have hmiss : buf.ncComplete = false → i ∉ (s.ctl.books failed).done := by
    intro hc hmem
    rw [← hbuf, bufferOf_done] at hc
    exact absurd (hc.symm.trans hmem) (by decide)
  rcases h with h | ⟨hc, hnum, rank, report, h⟩ | ⟨hc, sstat, hbump, h⟩
  · have hq : s.counted s' i = [] := counted_of_eq (by rw [h]; rfl)
    rw [hq, append_nil, h]
    refine ⟨[], ?_, by simp, rfl, rfl⟩
    exact hsame ▸ .leave
  · have hq : s.counted s' i = [] := counted_of_eq (by rw [h]; rfl)
    rw [hq, append_nil, h]
    refine ⟨[i], ?_, rfl, rfl, by simp⟩
    have hrank : ((s.ctl.setDecoding i buf).setDecoding i { buf with rank := rank }).books failed =
        s.ctl.books failed :=
      (books_setDecoding { buf with rank := rank } (by rw [hown]) (by rw [hown]) failed).trans hsame
    change Round 3 _ i [i] (((s.ctl.setDecoding i buf).setDecoding i { buf with rank := rank }).books failed)
    rw [hrank]
    refine .request (hmiss hc) (Nat.lt_of_le_of_lt ?_ hnum)
    rw [← hbuf]
    exact (bufferOf_asked s.ctl i).ge
  · have hq : s.counted s' i = [i] := counted_of_succ (by rw [h])
    rw [hq, h]
    refine ⟨[], ?_, by simp, rfl, rfl⟩
    have hput' := entry_setDecoding (s.ctl.setDecoding i buf) i { buf with ncComplete := true }
    have hasked' : buf.numStatusReport = ((s.ctl.setDecoding i buf).entry i).elim 0 Prod.snd := by
      rw [entry_setDecoding, if_pos rfl]; rfl
    -- the statistic keeps its length
    have hgive : NcControl.books { (s.ctl.setDecoding i buf).setDecoding i { buf with ncComplete := true } with
        statusReportStatistic := sstat, failedGroupNum := s.ctl.failedGroupNum + 1 } (failed ++ [i]) =
        ((s.ctl.setDecoding i buf).books failed).giveUp i := by
      rw [books, bumpAt_length hbump]
      exact ofEntries_giveUp hput' rfl hasked'
    rw [hgive, hsame]
    exact .giveUp (hmiss hc)

theorem countedLoop_succ (h : s.visit i = some s') (n : Nat) :
    countedLoop (n + 1) i s = s.counted s' i ++ if s'.cnt = 5 then [] else countedLoop n (i + 1) s' := by
  rw [countedLoop, h]

theorem scanLoop_scan : ∀ (n i : Nat) {s s' : Scan}, scanLoop n i s = some s' → s.cnt ≤ 4 → ∀ failed : List Nat,
    ∃ gs, RequestBooks.Scan 3 (5 - s.cnt) (s.ctl.books failed) i gs (s'.ctl.books (failed ++ countedLoop n i s)) ∧
      s'.arqGroupNums = s.arqGroupNums ++ gs ∧ s'.arqPackets.length = s.arqPackets.length + gs.length
  | 0, i, s, s', h, _, failed => by
    cases h
    rw [countedLoop, List.append_nil]
    exact ⟨[], .stop .., by simp, by simp⟩
  | n + 1, i, s, s', h, hcnt, failed => by
    obtain ⟨s₁, h₁, h⟩ := bind_eq_some_iff.mp h
    obtain ⟨new, hround, hnums, hlen, hpackets⟩ := visit_round h₁ failed
    have hnew : new.length ≤ 5 - s.cnt := by
      have := hround.length_le
      omega
    rw [countedLoop_succ h₁]
    change (if s₁.cnt = 5 then some s₁ else scanLoop n (i + 1) s₁) = some s' at h
    split at h
    · rename_i hfull
      cases h
      refine ⟨new ++ [], .round hround hnew ?_, by simp [hnums], by simp [hpackets]⟩
      rw [if_pos hfull, append_nil]
      exact .stop ..
    · rename_i hroom
      have hcnt₁ : s₁.cnt ≤ 4 := by
        have := hround.length_le
        omega
      obtain ⟨gs, hscan, hnums', hpackets'⟩ := scanLoop_scan n (i + 1) h hcnt₁ (failed ++ s.counted s₁ i)
      refine ⟨new ++ gs, .round hround hnew ?_, by simp [hnums, hnums'], by simp [hpackets, hpackets']; omega⟩
      rw [if_neg hroom, ← append_assoc, Nat.sub_sub, ← hlen]
      exact hscan

theorem ncSendArqReq_scan {c c' : NcControl} {gs : List Nat} {qs : List NcPdu}
    (h : c.ncSendArqReq = some (c', gs, qs)) (failed : List Nat) :
    ∃ b, RequestBooks.Scan 3 5 (c.books failed) c.ncVrMs gs b ∧ Step 3 b (c'.books (failed ++ c.scanCounted)) ∧
      b.asked = (c'.books (failed ++ c.scanCounted)).asked ∧ qs.length = gs.length := by
  unfold scanCounted
  unfold ncSendArqReq at h
  split at h
  · rename_i hlow
    obtain ⟨rfl, hgs⟩ := Prod.mk.inj (Option.some.inj h)
    cases hgs
    rw [if_pos hlow, append_nil]
    refine ⟨_, .stop .., ?_, rfl, rfl⟩
    exact .advance _ (Nat.le_refl _) fun g hle hlt => absurd hlt (Nat.not_lt.mpr hle)
  · rename_i hlow
    obtain ⟨s, hs, h⟩ := bind_eq_some_iff.mp h
    obtain ⟨gs', hscan, hnums, hpackets⟩ := scanLoop_scan _ _ hs (Nat.zero_le 4) failed
    obtain ⟨rfl, hgs⟩ := Prod.mk.inj (Option.some.inj h)
    cases hgs
    rw [nil_append] at hnums
    rw [if_neg hlow]
    obtain ⟨hle, hskip⟩ := skipWhile_spec s.ctl.isComplete s.ctl.ncDecodingBufferList.size s.ctl.ncVrMs
    refine ⟨s.ctl.books (failed ++ countedLoop _ c.ncVrMs { ctl := c }), hnums ▸ hscan, ?_, rfl,
      by simpa [hnums] using hpackets⟩
    exact .advance _ hle fun g hg hlt => (isComplete_eq s.ctl g).symm.trans (hskip g hg hlt)

end

/-! ## Filing and decoding -/

theorem recvAndSave_books (c : NcControl) (q : NcPdu) (failed : List Nat) :
    (c.recvAndSave q).books failed = c.books failed := by
  by_cases hq : q.header.dorC = 1
  · rw [recvAndSave_status hq]
    rfl
  have hfile : (file (c.bufferOf q.header.groupnum) q).ncComplete = (c.bufferOf q.header.groupnum).ncComplete ∧
      (file (c.bufferOf q.header.groupnum) q).numStatusReport = (c.bufferOf q.header.groupnum).numStatusReport := by
    unfold file
    split <;> exact ⟨rfl, rfl⟩
  have hset := books_setDecoding _ hfile.1 hfile.2 failed
  unfold recvAndSave
  rw [if_neg hq]
  have hlen : (if (!(c.bufferOf q.header.groupnum).ncComplete && decide (q.header.sn < originalBlockSize)) = true then
      c.packetStatistic.modify 0 (· + 1) else c.packetStatistic).length = c.packetStatistic.length := by
    split
    · exact length_modify ..
    · rfl
  exact (congrArg (fun n => ofEntries c.ncVrMs (c.setDecoding _ _).entry failed c.failedGroupNum
    [n, c.statusReportStatistic.length]) hlen).trans hset

theorem ncDecode_reaches {ps : List Packet} (h : c.ncDecode = some (c', ps)) (failed : List Nat) :
    Reaches 3 (c.books failed) (c'.books failed) := by
  obtain ⟨buf, hbuf, h⟩ := bind_eq_some_iff.mp h
  split at h
  · cases h
    exact .refl
  · obtain ⟨c₁, hrank, h⟩ := bind_eq_some_iff.mp h
    obtain ⟨buf₁, hbuf₁, h⟩ := bind_eq_some_iff.mp h
    -- the rank is not in the books
    have hrank' : c₁.books failed = c.books failed := by
      obtain ⟨old, hold, rfl⟩ := map_eq_some_iff.mp hrank
      have hown : c.bufferOf c.groupnum = old := bufferOf_of_decoding hold
      exact books_setDecoding _ (by rw [hown]) (by rw [hown]) failed
    split at h
    · obtain ⟨r, _, h⟩ := bind_eq_some_iff.mp h
      obtain ⟨pstat, hpstat, h⟩ := bind_eq_some_iff.mp h
      obtain ⟨sstat, hsstat, h⟩ := bind_eq_some_iff.mp h
      cases h
      have hentry : c₁.entry c₁.groupnum = some (buf₁.ncComplete, buf₁.numStatusReport) :=
        congrArg (Option.map _) hbuf₁
      have hcomplete : ofEntries c₁.ncVrMs (c₁.setDecoding c₁.groupnum
          { buf₁ with ncComplete := true, deliverdSN := r.2 }).entry failed c₁.failedGroupNum
          [c₁.packetStatistic.length, c₁.statusReportStatistic.length] = (c₁.books failed).complete c₁.groupnum :=
        ofEntries_complete (entry_setDecoding c₁ c₁.groupnum _) rfl (by rw [hentry]; rfl)
      rw [← bumpAt_length hpstat, ← bumpAt_length hsstat] at hcomplete
      have hstep : Step 3 (c₁.books failed) ((c₁.books failed).complete c₁.groupnum) := .complete _
      rw [← hcomplete] at hstep
      rw [← hrank']
      exact .single hstep
    · cases h
      rw [hrank']

theorem decodeReady_reaches {ps : List Packet} (h : LtePdcp.decodeReady c = some (c', ps))
    (failed : List Nat) : Reaches 3 (c.books failed) (c'.books failed) := by
  obtain ⟨ready, _, h⟩ := bind_eq_some_iff.mp h
  split at h
  · exact ncDecode_reaches h failed
  · cases h
    exact .refl

theorem makeNcArqSendPacket_books {q : NcPdu} {rand : Nat → Nat → Nat} {qs : List NcPdu}
    (h : c.makeNcArqSendPacket q rand = some (c', qs)) (failed : List Nat) : c'.books failed = c.books failed := by
  unfold makeNcArqSendPacket at h
  split at h
  · cases h
    rfl
  · obtain ⟨packets, _, h⟩ := bind_eq_some_iff.mp h
    cases h
    rfl

theorem stopArqTimer_books (h : c.stopArqTimer = some c') (failed : List Nat) : c'.books failed = c.books failed := by
  obtain ⟨buf, hbuf, rfl⟩ := map_eq_some_iff.mp h
  have hown : c.bufferOf c.groupnum = buf := bufferOf_of_decoding hbuf
  exact books_setDecoding { buf with statusReportTimer := none } (by rw [hown]) (by rw [hown]) failed

end NcControl

namespace LtePdcp

open NcControl RequestBooks

/-! ## Requests and their timers -/

section
variable {s s' : LtePdcp} {g : Nat} {q : NcPdu}

theorem ncArqReqSendOnce_books {o : PdcpOut} (h : s.ncArqReqSendOnce g q = some (s', o)) (failed : List Nat)
    (hlt : (s.nc.books failed).asked g < 3) : s'.nc.books failed = (s.nc.books failed).ask g := by
  obtain ⟨buf, hbuf, h⟩ := bind_eq_some_iff.mp h
  cases h
  have hentry : s.nc.entry g = some (buf.ncComplete, buf.numStatusReport) := congrArg (Option.map _) hbuf
  refine ofEntries_ask (entry_setDecoding s.nc g _) ?_ ?_
  · rw [hentry]; rfl
  · -- the counter does not wrap
    change (s.nc.entry g).elim 0 Prod.snd < 3 at hlt
    rw [hentry] at hlt ⊢
    exact Nat.mod_eq_of_lt (by simp only [elim_some] at hlt; omega)

theorem ncExpireStatusReportTimer_moves {os : List PdcpOut} (h : s.ncExpireStatusReportTimer g q = some (s', os)) :
    s'.copy = s.copy ∧ ∀ failed, Reaches 3 (s.nc.books failed) (s'.nc.books failed) := by
  obtain ⟨buf, hbuf, h⟩ := bind_eq_some_iff.mp h
  split at h
  · rename_i hnum
    obtain ⟨⟨s₁, o⟩, h₁, h⟩ := bind_eq_some_iff.mp h
    cases h
    refine ⟨(ncArqReqSendOnce_spec h₁).2.1.copy, fun failed => ?_⟩
    have hentry : s.nc.entry g = some (buf.ncComplete, buf.numStatusReport) := congrArg (Option.map _) hbuf
    have hask : (s.nc.books failed).asked g < 3 := by
      change (s.nc.entry g).elim 0 Prod.snd < 3
      rw [hentry]
      exact hnum
    rw [ncArqReqSendOnce_books h₁ failed hask]
    exact .single (.ask g hask)
  · cases h
    exact ⟨rfl, fun _ => .refl⟩

end

def ncRequestCounted (s : LtePdcp) : List Nat := if s.nc.ifSendArq then s.nc.scanCounted else []

theorem ncRequest_moves {s s' : LtePdcp} {os : List PdcpOut} (h : s.ncRequest = some (s', os)) :
    s'.copy = s.copy ∧ ∀ failed, Reaches 3 (s.nc.books failed) (s'.nc.books (failed ++ s.ncRequestCounted)) := by
  refine ⟨(ncRequest_spec h).2.1.copy, ?_⟩
  unfold ncRequest at h
  unfold ncRequestCounted
  split at h
  · rename_i hsend
    rw [if_pos hsend]
    obtain ⟨⟨c, gs, qs⟩, hscan, h⟩ := bind_eq_some_iff.mp h
    intro failed
    obtain ⟨b, hb, hadv, hasked, hlen⟩ := ncSendArqReq_scan hscan failed
    have hfst : (gs.zip qs).map Prod.fst = gs := map_fst_zip (Nat.le_of_eq hlen.symm)
    refine (hb.reaches.tail hadv).trans ?_
    refine requestAll_reaches (·.nc.books (failed ++ s.nc.scanCounted))
      (fun _ _ _ _ _ h₁ hlt => ncArqReqSendOnce_books h₁ _ hlt) _ h (hfst.symm ▸ hb.nodup) fun g hg => ?_
    rw [hfst] at hg
    refine Nat.lt_of_le_of_lt ?_ (hb.picked g hg).2.2.2
    rw [hasked]
  · rename_i hsend
    cases h
    intro failed
    rw [if_neg hsend, append_nil]

/-! ## A reception -/

/-- The control object a reception of `q` scans in network-coding mode, when
it does: an answered status report leaves before. -/
def ncScan (s : LtePdcp) (q : NcPdu) : Option NcControl :=
  if !s.ncEnable || (s.nc.recvAndSave q).ifRecvArq then none
  else do
    let (nc, _) ← decodeReady (s.nc.recvAndSave q)
    let nc ← nc.stopArqTimer
    if nc.ifSendArq then some nc else none

theorem ncRecv_moves {s s' : LtePdcp} {q : NcPdu} {rand : Nat → Nat → Nat} {os : List PdcpOut}
    (hmode : s.ncEnable = true) (h : s.ncRecv q rand = some (s', os)) :
    s'.copy = s.copy ∧ ∀ failed, Reaches 3 (s.nc.books failed)
      (s'.nc.books (failed ++ (s.ncScan q).elim [] scanCounted)) := by
  unfold ncRecv at h
  dsimp only at h
  split at h
  · rename_i hanswer
    obtain ⟨⟨c, qs⟩, hmake, h⟩ := bind_eq_some_iff.mp h
    obtain ⟨hnc, hsame, _⟩ := sendAll_spec 1 qs { s with nc := c }
    obtain ⟨rfl, _⟩ := Prod.mk.inj (Option.some.inj h)
    refine ⟨hsame.copy, fun failed => ?_⟩
    rw [ncScan, if_pos (by simp [hanswer]), hnc, elim_none, append_nil]
    change Reaches 3 _ (c.books failed)
    rw [makeNcArqSendPacket_books hmake, recvAndSave_books]
  · rename_i hdata
    obtain ⟨⟨c₁, decoded⟩, hready, h⟩ := bind_eq_some_iff.mp h
    obtain ⟨c₂, hstop, h⟩ := bind_eq_some_iff.mp h
    obtain ⟨⟨s₂, reports⟩, hreq, h⟩ := bind_eq_some_iff.mp h
    cases h
    obtain ⟨hcopy, hreach⟩ := ncRequest_moves hreq
    have hscan : (s.ncScan q).elim [] scanCounted = ncRequestCounted { s with nc := c₂ } := by
      rw [ncScan, if_neg (by simp [hmode, hdata]), hready]
      change ((c₁.stopArqTimer).bind fun nc => if nc.ifSendArq then some nc else none).elim [] scanCounted = _
      rw [hstop, bind_some, ncRequestCounted]
      dsimp only
      split <;> rfl
    refine ⟨hcopy, fun failed => ?_⟩
    have hbefore : Reaches 3 (s.nc.books failed) (c₂.books failed) := by
      rw [stopArqTimer_books hstop, ← recvAndSave_books s.nc q]
      exact decodeReady_reaches hready failed
    rw [hscan]
    exact hbefore.trans (hreach failed)

end LtePdcp

end Ns3
