import Ns3.Lib.RequestBooks
import Ns3.Lte.CopyFrame

/-!
# The books of copy mode

The receiving side of `CopyControl` keeps books over its groups: the decoding
buffers hold which groups are complete and how often a report was sent for
them, `m_ncVrMs` is the base, and `m_failedGroupNum` counts the groups given
up. Every operation takes steps of these books, or leaves them.
-/

namespace Ns3

open List Option

namespace CopyControl

open RequestBooks

def entry (c : CopyControl) (g : Nat) : Option (Bool × Nat) :=
  (c.decoding g).map fun buf => (buf.ncComplete, buf.numStatusReport)

def books (c : CopyControl) (failed : List Nat) : RequestBooks :=
  .ofEntries c.ncVrMs c.entry failed c.failedGroupNum [c.statusReportStatistic.length]

theorem entry_setDecoding (c : CopyControl) (g : Nat) (buf : CopyDecodingBuffer) (g' : Nat) :
    (c.setDecoding g buf).entry g' = if g' = g then some (buf.ncComplete, buf.numStatusReport) else c.entry g' := by
  unfold entry
  rw [decoding_setDecoding]
  split <;> rfl

theorem isComplete_eq (c : CopyControl) (g : Nat) : c.isComplete g = (c.entry g).elim false Prod.fst := by
  unfold isComplete entry
  cases c.decoding g <;> rfl

/-! ## The scan -/

/-- The groups one round of the scan counts as failed: its own, as often as the
counter goes up. -/
def Scan.counted (s s' : Scan) (i : Nat) : List Nat :=
  List.replicate (s'.ctl.failedGroupNum - s.ctl.failedGroupNum) i

def countedLoop : Nat → Nat → Scan → List Nat
  | 0, _, _ => []
  | n + 1, i, s =>
    match s.visit i with
    | none => []
    | some s' => s.counted s' i ++ if s'.cnt = 3 then [] else countedLoop n (i + 1) s'

/-- The groups `CopySendArqReq` counts as failed. -/
def scanCounted (c : CopyControl) : List Nat :=
  countedLoop (c.maxRecvGroupnum + 1 - c.ncVrMs) c.ncVrMs { ctl := c }

section
variable {s s' : Scan} {i : Nat}

theorem counted_of_eq (h : s'.ctl.failedGroupNum = s.ctl.failedGroupNum) : s.counted s' i = [] := by
  rw [Scan.counted, h, Nat.sub_self, replicate_zero]

theorem counted_of_succ (h : s'.ctl.failedGroupNum = s.ctl.failedGroupNum + 1) : s.counted s' i = [i] := by
  rw [Scan.counted, h, Nat.add_sub_cancel_left, replicate_one]

theorem visit_cases (h : s.visit i = some s') : ∃ buf, (s.ctl.decoding i).getD { noReceive := true } = buf ∧
    (s' = { s with ctl := s.ctl.setDecoding i buf } ∨ buf.ncComplete = false ∧ buf.numStatusReport < 3 ∧
      s' = { ctl := s.ctl.setDecoding i buf, cnt := s.cnt + 1, arqGroupNums := s.arqGroupNums ++ [i],
             arqPackets := s.arqPackets ++ [makeStatusReport i] } ∨ buf.ncComplete = false ∧ ∃ sstat,
      bumpAt s.ctl.statusReportStatistic (buf.numStatusReport + 1) 1 = some sstat ∧
      s' = { s with ctl := { (s.ctl.setDecoding i buf).setDecoding i { buf with ncComplete := true } with
               statusReportStatistic := sstat, failedGroupNum := s.ctl.failedGroupNum + 1 } }) := by
  refine ⟨_, rfl, ?_⟩
  unfold Scan.visit at h
  dsimp only at h
  generalize (s.ctl.decoding i).getD { noReceive := true } = buf at h ⊢
  split at h
  · exact .inl (Option.some.inj h).symm
  · rename_i hnot
    have hc : buf.ncComplete = false := by
      cases hb : buf.ncComplete with
      | false => rfl
      | true => simp [hb] at hnot
    split at h
    · rename_i hnum
      exact .inr (.inl ⟨hc, hnum, (Option.some.inj h).symm⟩)
    · obtain ⟨sstat, hbump, h⟩ := bind_eq_some_iff.mp h
      exact .inr (.inr ⟨hc, sstat, hbump, (Option.some.inj h).symm⟩)

theorem visit_round (h : s.visit i = some s') (failed : List Nat) :
    ∃ new, Round 3 (s.ctl.books failed) i new (s'.ctl.books (failed ++ s.counted s' i)) ∧
      s'.arqGroupNums = s.arqGroupNums ++ new ∧ s'.arqPackets = s.arqPackets ++ new.map makeStatusReport ∧
      s'.cnt = s.cnt + new.length := by
  obtain ⟨buf, hbuf, h⟩ := visit_cases h
  -- a missing buffer and the placeholder have the same books
  have hdone : buf.ncComplete = (s.ctl.entry i).elim false Prod.fst := by
    rw [← hbuf, entry]
    cases s.ctl.decoding i <;> rfl
  have hasked : buf.numStatusReport = (s.ctl.entry i).elim 0 Prod.snd := by
    rw [← hbuf, entry]
    cases s.ctl.decoding i <;> rfl
  have hput := entry_setDecoding s.ctl i buf
  have hsame : (s.ctl.setDecoding i buf).books failed = s.ctl.books failed := ofEntries_same hput hdone hasked
  have hmiss : buf.ncComplete = false → i ∉ (s.ctl.books failed).done := by
    intro hc hmem
    rw [hdone] at hc
    exact absurd (hc.symm.trans hmem) (by decide)
  rcases h with h | ⟨hc, hnum, h⟩ | ⟨hc, sstat, hbump, h⟩
  · have hq : s.counted s' i = [] := counted_of_eq (by rw [h]; rfl)
    rw [hq, append_nil, h]
    refine ⟨[], ?_, by simp, by simp, rfl⟩
    exact hsame ▸ .leave
  · have hq : s.counted s' i = [] := counted_of_eq (by rw [h]; rfl)
    rw [hq, append_nil, h]
    refine ⟨[i], ?_, rfl, rfl, rfl⟩
    change Round 3 _ i [i] ((s.ctl.setDecoding i buf).books failed)
    rw [hsame]
    refine .request (hmiss hc) (Nat.lt_of_le_of_lt ?_ hnum)
    exact hasked.ge
  · have hq : s.counted s' i = [i] := counted_of_succ (by rw [h])
    rw [hq, h]
    refine ⟨[], ?_, by simp, by simp, rfl⟩
    have hput' := entry_setDecoding (s.ctl.setDecoding i buf) i { buf with ncComplete := true }
    have hasked' : buf.numStatusReport = ((s.ctl.setDecoding i buf).entry i).elim 0 Prod.snd := by
      rw [hput, if_pos rfl]; rfl
    -- the statistic keeps its length
    have hgive : CopyControl.books { (s.ctl.setDecoding i buf).setDecoding i { buf with ncComplete := true } with
        statusReportStatistic := sstat, failedGroupNum := s.ctl.failedGroupNum + 1 } (failed ++ [i]) =
        ((s.ctl.setDecoding i buf).books failed).giveUp i := by
      rw [books, bumpAt_length hbump]
      exact ofEntries_giveUp hput' rfl hasked'
    rw [hgive, hsame]
    exact .giveUp (hmiss hc)

theorem countedLoop_succ (h : s.visit i = some s') (n : Nat) :
    countedLoop (n + 1) i s = s.counted s' i ++ if s'.cnt = 3 then [] else countedLoop n (i + 1) s' := by
  rw [countedLoop, h]

theorem scanLoop_scan : ∀ (n i : Nat) {s s' : Scan}, scanLoop n i s = some s' → s.cnt ≤ 2 → ∀ failed : List Nat,
    ∃ gs, RequestBooks.Scan 3 (3 - s.cnt) (s.ctl.books failed) i gs (s'.ctl.books (failed ++ countedLoop n i s)) ∧
      s'.arqGroupNums = s.arqGroupNums ++ gs ∧ s'.arqPackets = s.arqPackets ++ gs.map makeStatusReport
  | 0, i, s, s', h, _, failed => by
    cases h
    rw [countedLoop, List.append_nil]
    exact ⟨[], .stop .., by simp, by simp⟩
  | n + 1, i, s, s', h, hcnt, failed => by
    obtain ⟨s₁, h₁, h⟩ := bind_eq_some_iff.mp h
    obtain ⟨new, hround, hnums, hpackets, hlen⟩ := visit_round h₁ failed
    have hnew : new.length ≤ 3 - s.cnt := by
      have := hround.length_le
      omega
    rw [countedLoop_succ h₁]
    change (if s₁.cnt = 3 then some s₁ else scanLoop n (i + 1) s₁) = some s' at h
    split at h
    · rename_i hfull
      cases h
      refine ⟨new ++ [], .round hround hnew ?_, by simp [hnums], by simp [hpackets]⟩
      rw [if_pos hfull, append_nil]
      exact .stop ..
    · rename_i hroom
      obtain ⟨gs, hscan, hnums', hpackets'⟩ := scanLoop_scan n (i + 1) h (by omega) (failed ++ s.counted s₁ i)
      refine ⟨new ++ gs, .round hround hnew ?_, by simp [hnums, hnums'], by simp [hpackets, hpackets']⟩
      rw [if_neg hroom, ← append_assoc, Nat.sub_sub, ← hlen]
      exact hscan

theorem copySendArqReq_scan {c c' : CopyControl} {gs : List Nat} {qs : List NcPdu}
    (h : c.copySendArqReq = some (c', gs, qs)) (failed : List Nat) :
    ∃ b, RequestBooks.Scan 3 3 (c.books failed) c.ncVrMs gs b ∧ Step 3 b (c'.books (failed ++ c.scanCounted)) ∧
      b.asked = (c'.books (failed ++ c.scanCounted)).asked ∧ qs = gs.map makeStatusReport := by
  obtain ⟨s, hs, h⟩ := bind_eq_some_iff.mp h
  obtain ⟨gs', hscan, hnums, hpackets⟩ := scanLoop_scan _ _ hs (Nat.zero_le 2) failed
  obtain ⟨rfl, hgs⟩ := Prod.mk.inj (Option.some.inj h)
  cases hgs
  rw [nil_append] at hnums hpackets
  obtain ⟨hle, hskip⟩ := skipWhile_spec s.ctl.isComplete s.ctl.ncDecodingBufferList.size s.ctl.ncVrMs
  refine ⟨s.ctl.books (failed ++ c.scanCounted), hnums ▸ hscan, ?_, rfl, hnums ▸ hpackets⟩
  exact .advance _ hle fun g hg hlt => (isComplete_eq s.ctl g).symm.trans (hskip g hg hlt)

end

/-! ## Filing and answering -/

theorem books_setDecoding {c : CopyControl} {g : Nat} {old : CopyDecodingBuffer} (hold : c.decoding g = some old)
    (buf : CopyDecodingBuffer) (hdone : buf.ncComplete = old.ncComplete)
    (hasked : buf.numStatusReport = old.numStatusReport) (failed : List Nat) :
    (c.setDecoding g buf).books failed = c.books failed := by
  have hentry : c.entry g = some (old.ncComplete, old.numStatusReport) := congrArg (Option.map _) hold
  refine ofEntries_same (entry_setDecoding c g buf) ?_ ?_
  · rw [hentry]; exact hdone
  · rw [hentry]; exact hasked

theorem recvAndSave_reaches (c : CopyControl) (q : NcPdu) (failed : List Nat) :
    Reaches 3 (c.books failed) ((c.recvAndSave q).books failed) := by
  by_cases hq : q.header.dorC = 1
  · rw [recvAndSave_status hq]
    exact .refl
  let g := q.header.groupnum
  -- the flags are not in the books
  have hcomplete : ∀ buf : CopyDecodingBuffer, buf.ncComplete = true →
      buf.numStatusReport = (c.entry g).elim 0 Prod.snd →
      Reaches 3 (c.books failed) (((c.noteGroup g).setDecoding g buf).books failed) := by
    intro buf hdone hasked
    have hbooks : ((c.noteGroup g).setDecoding g buf).books failed = (c.books failed).complete g :=
      ofEntries_complete (entry_setDecoding (c.noteGroup g) g buf) hdone hasked
    rw [hbooks]
    exact .single (.complete g)
  rw [recvAndSave_eq hq]
  cases hd : c.decoding g with
  | none => exact hcomplete _ rfl (by rw [entry, hd]; rfl)
  | some buf =>
    dsimp only
    split
    · exact hcomplete { buf with ncComplete := true, noReceive := false } rfl (by rw [entry, hd]; rfl)
    · exact .refl

theorem makeCopyArqSendPacket_books {c c' : CopyControl} {q : NcPdu} {qs : List NcPdu}
    (h : c.makeCopyArqSendPacket q = some (c', qs)) (failed : List Nat) : c'.books failed = c.books failed := by
  unfold makeCopyArqSendPacket at h
  split at h
  · cases h
    rfl
  · simp only [bind_eq_bind, bind_eq_some_iff] at h
    obtain ⟨_, _, _, _, h⟩ := h
    cases h
    rfl

theorem stopArqTimer_books {c c' : CopyControl} (h : c.stopArqTimer = some c') (failed : List Nat) :
    c'.books failed = c.books failed := by
  obtain ⟨buf, hbuf, rfl⟩ := map_eq_some_iff.mp h
  exact books_setDecoding hbuf { buf with statusReportTimer := none } rfl rfl failed

end CopyControl

namespace LtePdcp

open CopyControl RequestBooks

/-! ## Requests and their timers -/

section
variable {send : LtePdcp → Nat → NcPdu → Option (LtePdcp × PdcpOut)}

theorem requestAll_keeps {α : Type} (f : LtePdcp → α) (hsend : ∀ s g q s' o, send s g q = some (s', o) → f s' = f s) :
    ∀ (rs : List (Nat × NcPdu)) {s s' : LtePdcp} {os : List PdcpOut}, requestAll send s rs = some (s', os) → f s' = f s
  | [], s, s', os, h => by
    cases h
    rfl
  | (g, q) :: rs, s, s', os, h => by
    obtain ⟨⟨s₁, o₁⟩, h₁, h⟩ := bind_eq_some_iff.mp h
    obtain ⟨⟨s₂, os₂⟩, h₂, h⟩ := bind_eq_some_iff.mp h
    cases h
    exact (requestAll_keeps f hsend rs h₂).trans (hsend _ _ _ _ _ h₁)

theorem requestAll_reaches (B : LtePdcp → RequestBooks)
    (hsend : ∀ s g q s' o, send s g q = some (s', o) → (B s).asked g < 3 → B s' = (B s).ask g) :
    ∀ (rs : List (Nat × NcPdu)) {s s' : LtePdcp} {os : List PdcpOut}, requestAll send s rs = some (s', os) →
      (rs.map Prod.fst).Nodup → (∀ g ∈ rs.map Prod.fst, (B s).asked g < 3) → Reaches 3 (B s) (B s')
  | [], s, s', os, h, _, _ => by
    cases h
    exact .refl
  | (g, q) :: rs, s, s', os, h, hnd, hlt => by
    obtain ⟨⟨s₁, o₁⟩, h₁, h⟩ := bind_eq_some_iff.mp h
    obtain ⟨⟨s₂, os₂⟩, h₂, h⟩ := bind_eq_some_iff.mp h
    cases h
    obtain ⟨hg, hnd'⟩ := nodup_cons.mp hnd
    have hask : (B s).asked g < 3 := hlt g (mem_cons_self ..)
    have hB := hsend _ _ _ _ _ h₁ hask
    have hrest : ∀ g' ∈ rs.map Prod.fst, (B s₁).asked g' < 3 := by
      intro g' hg'
      have hne : g' ≠ g := fun e => hg (e ▸ hg')
      rw [hB, asked_ask, if_neg hne]
      exact hlt g' (mem_cons_of_mem _ hg')
    have hstep : Step 3 (B s) (B s₁) := hB ▸ .ask g hask
    exact .head hstep (requestAll_reaches B hsend rs h₂ hnd' hrest)

end

section
variable {s s' : LtePdcp} {g : Nat} {q : NcPdu}

theorem copyArqReqSendOnce_nc {o : PdcpOut} (h : s.copyArqReqSendOnce g q = some (s', o)) : s'.nc = s.nc := by
  obtain ⟨buf, _, h⟩ := bind_eq_some_iff.mp h
  cases h
  rfl

theorem copyArqReqSendOnce_books {o : PdcpOut} (h : s.copyArqReqSendOnce g q = some (s', o)) (failed : List Nat)
    (hlt : (s.copy.books failed).asked g < 3) : s'.copy.books failed = (s.copy.books failed).ask g := by
  obtain ⟨buf, hbuf, h⟩ := bind_eq_some_iff.mp h
  cases h
  have hentry : s.copy.entry g = some (buf.ncComplete, buf.numStatusReport) := congrArg (Option.map _) hbuf
  refine ofEntries_ask (entry_setDecoding s.copy g _) ?_ ?_
  · rw [hentry]; rfl
  · -- the counter does not wrap
    change (s.copy.entry g).elim 0 Prod.snd < 3 at hlt
    rw [hentry] at hlt ⊢
    exact Nat.mod_eq_of_lt (by simp only [elim_some] at hlt; omega)

theorem copyExpireStatusReportTimer_moves {os : List PdcpOut} (h : s.copyExpireStatusReportTimer g q = some (s', os)) :
    s'.nc = s.nc ∧ ∀ failed, Reaches 3 (s.copy.books failed) (s'.copy.books failed) := by
  obtain ⟨buf, hbuf, h⟩ := bind_eq_some_iff.mp h
  split at h
  · rename_i hnum
    obtain ⟨⟨s₁, o⟩, h₁, h⟩ := bind_eq_some_iff.mp h
    cases h
    refine ⟨copyArqReqSendOnce_nc h₁, fun failed => ?_⟩
    have hentry : s.copy.entry g = some (buf.ncComplete, buf.numStatusReport) := congrArg (Option.map _) hbuf
    have hask : (s.copy.books failed).asked g < 3 := by
      change (s.copy.entry g).elim 0 Prod.snd < 3
      rw [hentry]
      exact hnum
    rw [copyArqReqSendOnce_books h₁ failed hask]
    exact .single (.ask g hask)
  · cases h
    exact ⟨rfl, fun _ => .refl⟩

end

def copyRequestCounted (s : LtePdcp) : List Nat := if s.copy.ifSendArq then s.copy.scanCounted else []

variable {s s' : LtePdcp} {os : List PdcpOut}

theorem copyRequest_moves (h : s.copyRequest = some (s', os)) :
    s'.nc = s.nc ∧ ∀ failed, Reaches 3 (s.copy.books failed) (s'.copy.books (failed ++ s.copyRequestCounted)) := by
  unfold copyRequest at h
  unfold copyRequestCounted
  split at h
  · rename_i hsend
    rw [if_pos hsend]
    obtain ⟨⟨c, gs, qs⟩, hscan, h⟩ := bind_eq_some_iff.mp h
    let t : LtePdcp := { s with copy := c }
    have hall : requestAll copyArqReqSendOnce t (gs.zip qs) = some (s', os) := h
    have hnc : s'.nc = t.nc := requestAll_keeps (·.nc) (fun _ _ _ _ _ h₁ => copyArqReqSendOnce_nc h₁) _ hall
    refine ⟨hnc, fun failed => ?_⟩
    obtain ⟨b, hb, hadv, hasked, rfl⟩ := copySendArqReq_scan hscan failed
    have hfst : (gs.zip (gs.map makeStatusReport)).map Prod.fst = gs := map_fst_zip (by simp)
    refine (hb.reaches.tail hadv).trans ?_
    refine requestAll_reaches (·.copy.books (failed ++ s.copy.scanCounted))
      (fun _ _ _ _ _ h₁ hlt => copyArqReqSendOnce_books h₁ _ hlt) _ hall (hfst.symm ▸ hb.nodup) fun g hg => ?_
    rw [hfst] at hg
    refine Nat.lt_of_le_of_lt ?_ (hb.picked g hg).2.2.2
    rw [hasked]
  · rename_i hsend
    cases h
    refine ⟨rfl, fun failed => ?_⟩
    rw [if_neg hsend, append_nil]

/-! ## A reception -/

/-- The control object a copy-mode reception of `q` scans, when it does. -/
def copyScan (s : LtePdcp) (q : NcPdu) : Option CopyControl :=
  if s.ncEnable || !s.copyEnable then none
  else do
    let (s, _) ← { s with copy := s.copy.recvAndSave q }.copyAnswer q
    let copy ← s.copy.stopArqTimer
    if copy.ifSendArq then some copy else none

theorem copyAnswer_moves {q : NcPdu} (h : s.copyAnswer q = some (s', os)) :
    s'.nc = s.nc ∧ ∀ failed, s'.copy.books failed = s.copy.books failed := by
  unfold copyAnswer at h
  split at h
  · obtain ⟨⟨c, qs⟩, hmake, h⟩ := bind_eq_some_iff.mp h
    obtain ⟨b₁, b₂, _⟩ := sendOnBoth_spec qs { s with copy := c }
    obtain ⟨rfl, _⟩ := Prod.mk.inj (Option.some.inj h)
    refine ⟨b₂.nc, fun failed => ?_⟩
    rw [b₁]
    exact makeCopyArqSendPacket_books hmake failed
  · cases h
    exact ⟨rfl, fun _ => rfl⟩

theorem copyRecv_moves {q : NcPdu} (hmode : (s.ncEnable || !s.copyEnable) = false) (h : s.copyRecv q = some (s', os)) :
    s'.nc = s.nc ∧ ∀ failed, Reaches 3 (s.copy.books failed)
    (s'.copy.books (failed ++ (s.copyScan q).elim [] scanCounted)) := by
  obtain ⟨⟨s₁, retx⟩, hanswer, h⟩ := bind_eq_some_iff.mp h
  obtain ⟨c, hstop, h⟩ := bind_eq_some_iff.mp h
  obtain ⟨⟨s₂, reports⟩, hreq, h⟩ := bind_eq_some_iff.mp h
  cases h
  obtain ⟨hnc₁, hbooks₁⟩ := copyAnswer_moves hanswer
  obtain ⟨hnc₂, hreach⟩ := copyRequest_moves hreq
  have hscan : (s.copyScan q).elim [] scanCounted = copyRequestCounted { s₁ with copy := c } := by
    rw [copyScan, if_neg (by simp [hmode]), hanswer]
    change ((s₁.copy.stopArqTimer).bind fun copy => if copy.ifSendArq then some copy else none).elim [] scanCounted = _
    rw [hstop, bind_some, copyRequestCounted]
    dsimp only
    split <;> rfl
  refine ⟨hnc₂.trans hnc₁, fun failed => ?_⟩
  have hbefore : Reaches 3 (s.copy.books failed) (c.books failed) := by
    rw [stopArqTimer_books hstop, hbooks₁]
    exact recvAndSave_reaches s.copy q failed
  rw [hscan]
  exact hbefore.trans (hreach failed)

end LtePdcp

end Ns3
