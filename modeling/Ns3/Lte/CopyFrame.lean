import Ns3.Lte.NcFrame

/-!
# What copy-mode operations do

The receiver's bookkeeping is summed up by `CopyRx c R`: `R` are the groups a
data PDU was received of. Every operation is total under `CopyRx` and keeps
it, with `R` growing only when a data PDU arrives.
-/

namespace Ns3

open List Option

namespace CopyControl

section
variable (c : CopyControl) (g g' : Nat)

theorem encoding_setEncoding (buf : CopyEncodingBuffer) :
    (c.setEncoding g buf).encoding g' = if g' = g then some buf else c.encoding g' :=
  OrdMap.find_insert ..

theorem decoding_setDecoding (buf : CopyDecodingBuffer) :
    (c.setDecoding g buf).decoding g' = if g' = g then some buf else c.decoding g' :=
  OrdMap.find_insert ..

end

/-- What a decoding buffer of group `g` looks like. -/
structure BufferOk (g : Nat) (buf : CopyDecodingBuffer) : Prop where
  num : buf.numStatusReport ≤ 3
  timer : ∀ t, buf.statusReportTimer = some t → t = .copyExpire g (makeStatusReport g)

/-- The receiving side of `c`, after data PDUs of the groups in `R`. -/
structure CopyRx (c : CopyControl) (R : Nat → Prop) : Prop where
  stat : c.statusReportStatistic.length = 5
  buffer : ∀ g buf, c.decoding g = some buf → BufferOk g buf
  seen : ∀ g, R g ↔ ∃ buf, c.decoding g = some buf ∧ buf.noReceive = false

structure Keeps (c c' : CopyControl) : Prop where
  groupnum : c'.groupnum = c.groupnum
  maxRecvGroupnum : c'.maxRecvGroupnum = c.maxRecvGroupnum
  encoding : ∀ g, c'.encoding g = c.encoding g
  ifTransmitSduFlag : c'.ifTransmitSduFlag = c.ifTransmitSduFlag
  ifSendArq : c'.ifSendArq = c.ifSendArq

theorem Keeps.refl (c : CopyControl) : Keeps c c := ⟨rfl, rfl, fun _ => rfl, rfl, rfl⟩

theorem Keeps.trans {a b c : CopyControl} (h₁ : Keeps a b) (h₂ : Keeps b c) : Keeps a c where
  groupnum := h₂.groupnum.trans h₁.groupnum
  maxRecvGroupnum := h₂.maxRecvGroupnum.trans h₁.maxRecvGroupnum
  encoding g := (h₂.encoding g).trans (h₁.encoding g)
  ifTransmitSduFlag := h₂.ifTransmitSduFlag.trans h₁.ifTransmitSduFlag
  ifSendArq := h₂.ifSendArq.trans h₁.ifSendArq

theorem keeps_setDecoding (c : CopyControl) (g : Nat) (buf : CopyDecodingBuffer) : Keeps c (c.setDecoding g buf) :=
  ⟨rfl, rfl, fun _ => rfl, rfl, rfl⟩

variable {c : CopyControl} {R : Nat → Prop} {q : NcPdu}

theorem CopyRx.setDecoding {R R' : Nat → Prop} (h : CopyRx c R) {g : Nat}
    {b : CopyDecodingBuffer} (hok : BufferOk g b) (hg : R' g ↔ b.noReceive = false)
    (hoff : ∀ g', g' ≠ g → (R' g' ↔ R g')) : CopyRx (c.setDecoding g b) R' where
  stat := h.stat
  buffer g' buf' hb := by
    rw [decoding_setDecoding] at hb
    split at hb
    · rename_i hg'
      cases hb
      exact hg' ▸ hok
    · exact h.buffer g' buf' hb
  seen g' := by
    rw [decoding_setDecoding]
    split
    · rename_i hg'
      rw [hg', hg]
      constructor
      · intro hn
        exact ⟨b, rfl, hn⟩
      · rintro ⟨b', hb, hn⟩
        exact Option.some.inj hb ▸ hn
    · rename_i hg'
      rw [hoff g' hg', h.seen]

theorem CopyRx.rewrite (h : CopyRx c R) {g : Nat}
    {old buf : CopyDecodingBuffer} (hold : c.decoding g = some old) (hok : BufferOk g buf)
    (hn : buf.noReceive = old.noReceive) : CopyRx (c.setDecoding g buf) R := by
  refine h.setDecoding hok ?_ fun _ _ => Iff.rfl
  rw [hn, h.seen]
  constructor
  · rintro ⟨b, hb, hb'⟩
    rw [hold] at hb
    exact Option.some.inj hb ▸ hb'
  · intro hf
    exact ⟨old, hold, hf⟩

theorem bumpAt_total {l : List Nat} {i : Nat} (hi : i < l.length) (k : Nat) :
    ∃ l', bumpAt l i k = some l' ∧ l'.length = l.length := by
  refine ⟨l.set i (l[i] + k), ?_, length_set⟩
  simp [bumpAt, hi]

/-! ## The scan -/

/-- The requested groups are below `i`, one time each, and have a buffer that
was asked for less than three times. -/
structure ScanOk (s : Scan) (i : Nat) : Prop where
  nodup : s.arqGroupNums.Nodup
  buffer : ∀ g ∈ s.arqGroupNums, g < i ∧ ∃ buf, s.ctl.decoding g = some buf ∧ buf.numStatusReport < 3
  packets : s.arqPackets = s.arqGroupNums.map makeStatusReport

theorem visit_total {s : Scan} {i : Nat} (hrx : CopyRx s.ctl R) (hok : ScanOk s i) :
    ∃ s', s.visit i = some s' ∧ CopyRx s'.ctl R ∧ ScanOk s' (i + 1) ∧ Keeps s.ctl s'.ctl := by
  let buf := (s.ctl.decoding i).getD { noReceive := true }
  let c := s.ctl.setDecoding i buf
  -- a group without a buffer gets a placeholder
  have hbuf : BufferOk i buf ∧ (R i ↔ buf.noReceive = false) := by
    cases hd : s.ctl.decoding i with
    | none =>
      have hb : buf = { noReceive := true } := by simp [buf, hd]
      rw [hb]
      refine ⟨⟨by simp, by simp⟩, ?_⟩
      rw [hrx.seen, hd]
      simp
    | some b =>
      have hb : buf = b := by simp [buf, hd]
      rw [hb]
      refine ⟨hrx.buffer i b hd, ?_⟩
      rw [hrx.seen, hd]
      simp
  have hc : CopyRx c R := hrx.setDecoding hbuf.1 hbuf.2 fun _ _ => Iff.rfl
  have hdec : c.decoding i = some buf := (decoding_setDecoding ..).trans (if_pos rfl)
  have hkeep : Keeps s.ctl c := keeps_setDecoding ..
  -- the requested groups are others than `i`
  have hother : ∀ c' : CopyControl, (∀ g, g ≠ i → c'.decoding g = c.decoding g) →
      ∀ g ∈ s.arqGroupNums, g < i + 1 ∧ ∃ b, c'.decoding g = some b ∧ b.numStatusReport < 3 := by
    intro c' hc' g hg
    obtain ⟨hlt, b, hb, hn⟩ := hok.buffer g hg
    refine ⟨by omega, b, ?_, hn⟩
    rw [hc' g (by omega)]
    exact (decoding_setDecoding ..).trans ((if_neg (by omega)).trans hb)
  change ∃ s', (if (buf.ncComplete || buf.statusReportTimer.isSome) = true then _ else _) = some s' ∧ _
  split
  · exact ⟨_, rfl, hc, ⟨hok.nodup, hother c fun _ _ => rfl, hok.packets⟩, hkeep⟩
  · split
    · rename_i hnum
      refine ⟨_, rfl, hc, ⟨?_, ?_, ?_⟩, hkeep⟩
      · refine nodup_append.mpr ⟨hok.nodup, by simp, ?_⟩
        intro a ha b hb heq
        rw [mem_singleton] at hb
        have := (hok.buffer a ha).1
        omega
      · intro g hg
        rcases mem_append.mp hg with hg | hg
        · exact hother c (fun _ _ => rfl) g hg
        · rw [mem_singleton] at hg
          subst hg
          exact ⟨Nat.lt_succ_self g, buf, hdec, hnum⟩
      · rw [map_append, ← hok.packets]; rfl
    · -- given up after three reports
      have hidx : buf.numStatusReport + 1 < c.statusReportStatistic.length := by
        rw [hc.stat]
        have := hbuf.1.num
        omega
      obtain ⟨sstat, hbump, hlen⟩ := bumpAt_total hidx 1
      have hgive : CopyRx (c.setDecoding i { buf with ncComplete := true }) R :=
        hc.rewrite hdec ⟨hbuf.1.num, hbuf.1.timer⟩ rfl
      rw [hbump]
      refine ⟨_, rfl, ⟨hlen.trans hc.stat, hgive.buffer, hgive.seen⟩, ⟨hok.nodup, ?_, hok.packets⟩, ?_⟩
      · exact hother _ fun g hg => (decoding_setDecoding ..).trans (if_neg hg)
      · exact hkeep.trans ⟨rfl, rfl, fun _ => rfl, rfl, rfl⟩

theorem scanLoop_total : ∀ (n i : Nat) {s : Scan}, CopyRx s.ctl R → ScanOk s i →
    ∃ s' j, scanLoop n i s = some s' ∧ CopyRx s'.ctl R ∧ ScanOk s' j ∧ Keeps s.ctl s'.ctl
  | 0, i, s, hrx, hok => ⟨s, i, rfl, hrx, hok, .refl _⟩
  | n + 1, i, s, hrx, hok => by
    obtain ⟨s₁, h₁, hrx₁, hok₁, hk₁⟩ := visit_total hrx hok
    unfold scanLoop
    rw [h₁]
    change ∃ s' j, (if s₁.cnt = 3 then some s₁ else scanLoop n (i + 1) s₁) = some s' ∧ _
    split
    · exact ⟨s₁, i + 1, rfl, hrx₁, hok₁, hk₁⟩
    · obtain ⟨s', j, h, hrx', hok', hk'⟩ := scanLoop_total n (i + 1) hrx₁ hok₁
      exact ⟨s', j, h, hrx', hok', hk₁.trans hk'⟩

theorem copySendArqReq_total (hrx : CopyRx c R) :
    ∃ c' gs, c.copySendArqReq = some (c', gs, gs.map makeStatusReport) ∧ CopyRx c' R ∧ Keeps c c' ∧ gs.Nodup ∧
      ∀ g ∈ gs, ∃ buf, c'.decoding g = some buf ∧ buf.numStatusReport < 3 := by
  have hok : ScanOk { ctl := c } c.ncVrMs := ⟨by simp, by simp, rfl⟩
  obtain ⟨s, j, hs, hrx', hok', hk⟩ := scanLoop_total (c.maxRecvGroupnum + 1 - c.ncVrMs) c.ncVrMs hrx hok
  unfold copySendArqReq
  rw [hs]
  refine ⟨_, s.arqGroupNums, congrArg some (Prod.ext rfl (Prod.ext rfl hok'.packets)),
    ⟨hrx'.stat, hrx'.buffer, hrx'.seen⟩, ⟨hk.groupnum, hk.maxRecvGroupnum, hk.encoding, hk.ifTransmitSduFlag,
    hk.ifSendArq⟩, hok'.nodup, ?_⟩
  intro g hg
  exact (hok'.buffer g hg).2

/-! ## Filing a PDU -/

theorem recvAndSave_status (hq : q.header.dorC = 1) :
    c.recvAndSave q = { c with ifRecvArq := true } := by
  simp [recvAndSave, hq]

/-- The control after the fields a data PDU always sets. -/
def noteGroup (c : CopyControl) (g : Nat) : CopyControl :=
  { c with ifRecvArq := false, groupnum := g, maxRecvGroupnum := max c.maxRecvGroupnum g }

theorem recvAndSave_eq (hq : q.header.dorC ≠ 1) :
    c.recvAndSave q =
      match c.decoding q.header.groupnum with
      | none =>
        { (c.noteGroup q.header.groupnum).setDecoding q.header.groupnum
            { deliverdSN := [q.header.sn], ncComplete := true } with
          ifTransmitSduFlag := true, pollingInterval := 10, ifSendArq := polls q.header.groupnum }
      | some buf =>
        if buf.noReceive then
          { (c.noteGroup q.header.groupnum).setDecoding q.header.groupnum
              { buf with ncComplete := true, noReceive := false } with
            ifTransmitSduFlag := true, pollingInterval := 10, ifSendArq := polls q.header.groupnum }
        else { c.noteGroup q.header.groupnum with ifTransmitSduFlag := false, ifSendArq := false } := by
  unfold recvAndSave
  rw [if_neg hq]
  rfl

/-- **Filing a data PDU** overwrites the group counter and marks its group as
received; only a first one raises `m_IfTransmitSduFlag`. -/
theorem recvAndSave_data (hrx : CopyRx c R) (hq : q.header.dorC ≠ 1) :
    CopyRx (c.recvAndSave q) (fun g => R g ∨ g = q.header.groupnum) ∧
    (c.recvAndSave q).groupnum = q.header.groupnum ∧ (∀ g, (c.recvAndSave q).encoding g = c.encoding g) ∧
    (c.recvAndSave q).ifRecvArq = false ∧
    (R q.header.groupnum → (c.recvAndSave q).ifTransmitSduFlag = false ∧ (c.recvAndSave q).ifSendArq = false) ∧
    (¬R q.header.groupnum → (c.recvAndSave q).ifTransmitSduFlag = true) := by
  have hrx₁ : CopyRx (c.noteGroup q.header.groupnum) R := ⟨hrx.stat, hrx.buffer, hrx.seen⟩
  have hoff : ∀ g, g ≠ q.header.groupnum → (R g ∨ g = q.header.groupnum ↔ R g) := fun g hg =>
    or_iff_left hg
  rw [recvAndSave_eq hq]
  cases hd : c.decoding q.header.groupnum with
  | none =>
    have hR : ¬R q.header.groupnum := by
      rw [hrx.seen, hd]; simp
    have hnew := hrx₁.setDecoding (g := q.header.groupnum) (b := { deliverdSN := [q.header.sn], ncComplete := true })
      ⟨by simp, by simp⟩ (by simp) hoff
    exact ⟨⟨hnew.stat, hnew.buffer, hnew.seen⟩, rfl, fun _ => rfl, rfl, fun h => absurd h hR, fun _ => rfl⟩
  | some buf =>
    have hok := hrx.buffer _ buf hd
    have hR : R q.header.groupnum ↔ buf.noReceive = false := by
      rw [hrx.seen, hd]; simp
    dsimp only
    split
    · -- a placeholder becomes a received group
      rename_i hn
      have hnew := hrx₁.setDecoding (g := q.header.groupnum) (b := { buf with ncComplete := true, noReceive := false })
        ⟨hok.num, hok.timer⟩ (by simp) hoff
      have hR' : ¬R q.header.groupnum := by
        rw [hR, hn]; simp
      exact ⟨⟨hnew.stat, hnew.buffer, hnew.seen⟩, rfl, fun _ => rfl, rfl, fun h => absurd h hR', fun _ => rfl⟩
    · rename_i hn
      have hR' : R q.header.groupnum := hR.mpr (by simpa using hn)
      refine ⟨⟨hrx.stat, hrx.buffer, ?_⟩, rfl, fun _ => rfl, rfl, fun _ => ⟨rfl, rfl⟩, fun h => absurd hR' h⟩
      intro g
      refine Iff.trans ?_ (hrx.seen g)
      exact ⟨fun h => h.elim id fun e => e ▸ hR', .inl⟩

theorem stopArqTimer_total (hrx : CopyRx c R) (h : (c.decoding c.groupnum).isSome) :
    ∃ c', c.stopArqTimer = some c' ∧ CopyRx c' R ∧ Keeps c c' := by
  obtain ⟨buf, hbuf⟩ := isSome_iff_exists.mp h
  have hok := hrx.buffer _ buf hbuf
  refine ⟨c.setDecoding c.groupnum { buf with statusReportTimer := none }, ?_,
    hrx.rewrite hbuf ⟨hok.num, by simp⟩ rfl, keeps_setDecoding ..⟩
  rw [stopArqTimer, hbuf]; rfl

end CopyControl

namespace LtePdcp

open CopyControl

/-- `s'` differs from `s` at most in its copy state and counters. -/
structure SameNc (s s' : LtePdcp) : Prop where
  ncEnable : s'.ncEnable = s.ncEnable
  copyEnable : s'.copyEnable = s.copyEnable
  nc : s'.nc = s.nc

theorem SameNc.refl (s : LtePdcp) : SameNc s s := ⟨rfl, rfl, rfl⟩

theorem SameNc.trans {a b c : LtePdcp} (h₁ : SameNc a b) (h₂ : SameNc b c) : SameNc a c :=
  ⟨h₂.ncEnable.trans h₁.ncEnable, h₂.copyEnable.trans h₁.copyEnable, h₂.nc.trans h₁.nc⟩

/-! ## Requests -/

variable {s : LtePdcp} {R : Nat → Prop} {g : Nat} {q : NcPdu}

theorem copyArqReqSendOnce_total (hrx : CopyRx s.copy R)
    {buf : CopyDecodingBuffer} (hbuf : s.copy.decoding g = some buf) (hnum : buf.numStatusReport < 3) :
    ∃ s' o, s.copyArqReqSendOnce g (makeStatusReport g) = some (s', o) ∧ CopyRx s'.copy R ∧
      Keeps s.copy s'.copy ∧ SameNc s s' ∧ (∀ g', g' ≠ g → s'.copy.decoding g' = s.copy.decoding g') ∧
      ups [o] = [] ∧ downs [o] = [makeStatusReport g] := by
  let buf' : CopyDecodingBuffer := { buf with numStatusReport := (buf.numStatusReport + 1) % 256,
                                              statusReportTimer := some (.copyExpire g (makeStatusReport g)) }
  have hok : BufferOk g buf' := by
    refine ⟨?_, fun t ht => (Option.some.inj ht).symm⟩
    change (buf.numStatusReport + 1) % 256 ≤ 3
    omega
  have hdec : (s.doTransmitPdcpSdu (makeStatusReport g) 0).1.copy.decoding g = some buf := hbuf
  change ∃ s' o, ((s.doTransmitPdcpSdu (makeStatusReport g) 0).1.copy.decoding g).bind _ = some (s', o) ∧ _
  rw [hdec, bind_some]
  refine ⟨_, _, rfl, hrx.rewrite hbuf hok rfl, keeps_setDecoding .., ⟨rfl, rfl, rfl⟩, ?_, rfl, rfl⟩
  intro g' hg'
  exact (decoding_setDecoding ..).trans (if_neg hg')

theorem copyRequestAll_total : ∀ (gs : List Nat) {s : LtePdcp}, CopyRx s.copy R → gs.Nodup →
    (∀ g ∈ gs, ∃ buf, s.copy.decoding g = some buf ∧ buf.numStatusReport < 3) →
    ∃ s' os, requestAll copyArqReqSendOnce s (gs.zip (gs.map makeStatusReport)) = some (s', os) ∧
      CopyRx s'.copy R ∧ Keeps s.copy s'.copy ∧ SameNc s s' ∧ ups os = [] ∧ downs os = gs.map makeStatusReport
  | [], s, hrx, _, _ => ⟨s, [], rfl, hrx, .refl _, .refl _, rfl, rfl⟩
  | g :: gs, s, hrx, hnd, hbuf => by
    obtain ⟨hg, hnd'⟩ := nodup_cons.mp hnd
    obtain ⟨b, hb, hn⟩ := hbuf g (mem_cons_self ..)
    obtain ⟨s₁, o₁, h₁, hrx₁, hk₁, hs₁, hoff, hu₁, hd₁⟩ := copyArqReqSendOnce_total hrx hb hn
    have hbuf₁ : ∀ g' ∈ gs, ∃ buf, s₁.copy.decoding g' = some buf ∧ buf.numStatusReport < 3 := by
      intro g' hg'
      have hne : g' ≠ g := fun e => hg (e ▸ hg')
      rw [hoff g' hne]
      exact hbuf g' (mem_cons_of_mem _ hg')
    obtain ⟨s', os, h, hrx', hk', hs', hu, hd⟩ := copyRequestAll_total gs hrx₁ hnd' hbuf₁
    refine ⟨s', o₁ :: os, ?_, hrx', hk₁.trans hk', hs₁.trans hs', ?_, ?_⟩
    · simp only [map_cons, zip_cons_cons, requestAll, h₁, h, bind_eq_bind, bind_some]
    · rw [ups_cons, hu₁, hu]; rfl
    · rw [downs_cons, hd₁, hd]; rfl

theorem copyRequest_total (hrx : CopyRx s.copy R) :
    ∃ s' os, s.copyRequest = some (s', os) ∧ CopyRx s'.copy R ∧ Keeps s.copy s'.copy ∧ SameNc s s' ∧
      ups os = [] ∧ ∀ q ∈ downs os, q.header.dorC = 1 := by
  unfold copyRequest
  split
  · obtain ⟨c, gs, hreq, hrx₁, hk₁, hnd, hbuf⟩ := copySendArqReq_total hrx
    obtain ⟨s', os, h, hrx', hk', hs', hu, hd⟩ := copyRequestAll_total gs (s := { s with copy := c }) hrx₁ hnd hbuf
    rw [hreq]
    refine ⟨s', os, h, hrx', hk₁.trans hk', ⟨hs'.ncEnable, hs'.copyEnable, hs'.nc⟩, hu, ?_⟩
    intro q hq
    rw [hd] at hq
    obtain ⟨g, _, rfl⟩ := List.mem_map.mp hq
    rfl
  · exact ⟨s, [], rfl, hrx, .refl _, .refl _, rfl, by simp [downs]⟩

/-! ## Timers -/

theorem expireCopy_total (hrx : CopyRx s.copy R)
    {buf : CopyDecodingBuffer} (hbuf : s.copy.decoding g = some buf) (harmed : buf.statusReportTimer.isSome) :
    ∃ s' os, s.expireCopy g = some (s', os) ∧ CopyRx s'.copy R ∧ Keeps s.copy s'.copy ∧ SameNc s s' ∧
      ups os = [] ∧ ∀ q ∈ downs os, q.header.dorC = 1 := by
  obtain ⟨t, ht⟩ := isSome_iff_exists.mp harmed
  have hok := hrx.buffer g buf hbuf
  have hcall := hok.timer t ht
  let buf₁ : CopyDecodingBuffer := { buf with statusReportTimer := none }
  let s₁ : LtePdcp := { s with copy := s.copy.setDecoding g buf₁ }
  have hrx₁ : CopyRx s₁.copy R := hrx.rewrite hbuf ⟨hok.num, by simp⟩ rfl
  have hbuf₁ : s₁.copy.decoding g = some buf₁ := (decoding_setDecoding ..).trans (if_pos rfl)
  have hk₁ : Keeps s.copy s₁.copy := keeps_setDecoding ..
  have hexp : s.expireCopy g = s₁.copyExpireStatusReportTimer g (makeStatusReport g) := by
    simp only [expireCopy, hbuf, ht, hcall, bind_eq_bind, bind_some, expireStatusReportTimer]
    rfl
  rw [hexp]
  unfold copyExpireStatusReportTimer
  rw [hbuf₁]
  by_cases hnum : buf.numStatusReport < 3
  · obtain ⟨s', o, h, hrx', hk', hs', _, hu, hd⟩ := copyArqReqSendOnce_total hrx₁ hbuf₁ hnum
    refine ⟨s', [o], ?_, hrx', hk₁.trans hk', ⟨hs'.ncEnable, hs'.copyEnable, hs'.nc⟩, hu, ?_⟩
    · simp only [bind_eq_bind, bind_some, h, if_pos hnum, buf₁]
    · intro q hq
      rw [hd, mem_singleton] at hq
      rw [hq]; rfl
  · refine ⟨s₁, [], ?_, hrx₁, hk₁, ⟨rfl, rfl, rfl⟩, rfl, by simp [downs]⟩
    simp only [bind_eq_bind, bind_some, if_neg hnum, buf₁]

theorem expireCopy_armed {s s' : LtePdcp} {os : List PdcpOut} (h : s.expireCopy g = some (s', os)) :
    ∃ buf, s.copy.decoding g = some buf ∧ buf.statusReportTimer.isSome := by
  unfold expireCopy at h
  simp only [bind_eq_bind, bind_eq_some_iff] at h
  obtain ⟨buf, hbuf, t, ht, _⟩ := h
  exact ⟨buf, hbuf, by simp [ht]⟩

/-! ## Receiving -/

/-- **A data PDU in copy mode** is always processed; it is handed up when it
is the first of its group. -/
theorem copyRecv_data (hrx : CopyRx s.copy R) (hq : q.header.dorC ≠ 1) :
    ∃ s' o, s.copyRecv q = some (s', o) ∧ CopyRx s'.copy (fun g => R g ∨ g = q.header.groupnum) ∧ SameNc s s' ∧
      s'.copy.groupnum = q.header.groupnum ∧ (∀ g, s'.copy.encoding g = s.copy.encoding g) ∧
    (s'.copy.ifTransmitSduFlag = false → s'.copy.ifSendArq = false) ∧
    (R q.header.groupnum → ups o = []) ∧ (¬R q.header.groupnum → ups o = [q.packet]) ∧
      ∀ r ∈ downs o, r.header.dorC = 1 := by
  obtain ⟨hrx₁, hg, henc, harq, hold, hfresh⟩ := recvAndSave_data hrx hq
  let c₁ := s.copy.recvAndSave q
  have hsome : (c₁.decoding c₁.groupnum).isSome := by
    obtain ⟨buf, hbuf, _⟩ := (hrx₁.seen q.header.groupnum).mp (.inr rfl)
    rw [hg, hbuf]; rfl
  obtain ⟨c₂, hstop, hrx₂, hk₂⟩ := stopArqTimer_total hrx₁ hsome
  obtain ⟨s', os, hreq, hrx', hk', hs', hu, hd⟩ := copyRequest_total (s := { s with copy := c₂ }) hrx₂
  let direct := if c₁.ifTransmitSduFlag then [PdcpOut.up q.packet] else []
  have hrecv : s.copyRecv q = some (s', direct ++ os) := by
    unfold copyRecv copyAnswer
    simp only [harq, Bool.false_eq_true, if_false, bind_eq_bind, bind_some, hstop, hreq,
      nil_append]
    rfl
  have hk := hk₂.trans hk'
  refine ⟨s', direct ++ os, hrecv, hrx', ⟨hs'.ncEnable, hs'.copyEnable, hs'.nc⟩, hk.groupnum.trans hg,
    fun g => (hk.encoding g).trans (henc g), ?_, ?_, ?_, ?_⟩
  · intro hf
    rw [hk.ifTransmitSduFlag] at hf
    rw [hk.ifSendArq]
    by_cases hR : R q.header.groupnum
    · exact (hold hR).2
    · rw [hfresh hR] at hf; cases hf
  · intro hR
    have : direct = [] := if_neg (by rw [(hold hR).1]; simp)
    rw [this]; exact hu
  · intro hR
    have : direct = [PdcpOut.up q.packet] := if_pos (hfresh hR)
    rw [this, ups_append, hu]; rfl
  · have hdirect : downs direct = [] := by
      simp only [direct]; split <;> rfl
    intro r hr
    rw [downs_append, hdirect] at hr
    exact hd r hr

/-! ## Answering a report -/

def copyEncVector (c : CopyControl) (g : Nat) : List NcPara := ((c.encoding g).getD {}).ncVector

/-- Every group of the sender starts with a packet. -/
def CopyTx (c : CopyControl) : Prop :=
  ∀ g buf, c.encoding g = some buf → ∃ para p, buf.ncVector[originalBlockSize - 1]? = some para ∧ para.p = some p

theorem sendOnBoth_spec : ∀ (qs : List NcPdu) (s : LtePdcp),
    (sendOnBoth s qs).1.copy = s.copy ∧ SameNc s (sendOnBoth s qs).1 ∧ ups (sendOnBoth s qs).2 = [] ∧
      ∀ r ∈ downs (sendOnBoth s qs).2, r ∈ qs
  | [], s => ⟨rfl, .refl s, rfl, by simp [sendOnBoth, downs]⟩
  | q :: qs, s => by
    let s₂ := ((s.doTransmitPdcpSdu q 1).1.doTransmitPdcpSdu2 q 1).1
    obtain ⟨h₁, h₂, h₃, h₄⟩ := sendOnBoth_spec qs s₂
    refine ⟨h₁, SameNc.trans (b := s₂) ⟨rfl, rfl, rfl⟩ h₂, h₃, ?_⟩
    intro r hr
    rcases mem_cons.mp hr with rfl | hr
    · exact mem_cons_self ..
    · rcases mem_cons.mp hr with rfl | hr
      · exact mem_cons_self ..
      · exact mem_cons_of_mem _ (h₄ r hr)

theorem makeCopyArqSendPacket_spec {c c' : CopyControl} {qs : List NcPdu}
    (h : c.makeCopyArqSendPacket q = some (c', qs)) :
    c'.groupnum = c.groupnum ∧ c'.ifTransmitSduFlag = c.ifTransmitSduFlag ∧ c'.ifSendArq = c.ifSendArq ∧
    (∀ g, c'.decoding g = c.decoding g) ∧ (∀ R, CopyRx c R → CopyRx c' R) ∧
    (∀ g, copyEncVector c' g = copyEncVector c g) ∧ (CopyTx c → CopyTx c') ∧
    ∀ r ∈ qs, r.header.dorC = 0 ∧ r.header.groupnum = q.header.groupnum ∧
    (copyEncVector c q.header.groupnum)[originalBlockSize - 1]?.bind NcPara.p = some r.packet := by
  unfold makeCopyArqSendPacket at h
  cases henc : c.encoding q.header.groupnum with
  | none =>
    rw [henc] at h
    cases h
    exact ⟨rfl, rfl, rfl, fun _ => rfl, fun _ => id, fun _ => rfl, id, by simp⟩
  | some buf =>
    rw [henc] at h
    simp only [bind_eq_bind, bind_eq_some_iff] at h
    obtain ⟨para, hpara, p, hp, h⟩ := h
    cases h
    refine ⟨rfl, rfl, rfl, fun _ => rfl, fun R hR => ⟨hR.stat, hR.buffer, hR.seen⟩, ?_, ?_, ?_⟩
    · intro g
      unfold copyEncVector
      rw [encoding_setEncoding]
      split
      · rename_i hg; rw [hg, henc]; rfl
      · rfl
    · intro htx g b hb
      rw [encoding_setEncoding] at hb
      split at hb
      · cases hb
        exact ⟨para, p, hpara, hp⟩
      · exact htx g b hb
    · intro r hr
      rw [mem_singleton] at hr
      subst hr
      refine ⟨rfl, rfl, ?_⟩
      rw [copyEncVector, henc]
      simp [hpara, hp]

theorem makeCopyArqSendPacket_total {c : CopyControl} (htx : CopyTx c) (q : NcPdu) :
    ∃ c' qs, c.makeCopyArqSendPacket q = some (c', qs) := by
  unfold makeCopyArqSendPacket
  cases henc : c.encoding q.header.groupnum with
  | none => exact ⟨c, [], rfl⟩
  | some buf =>
    obtain ⟨para, p, hpara, hp⟩ := htx _ buf henc
    simp only [hpara, hp, bind_eq_bind, bind_some]
    exact ⟨_, _, rfl⟩

theorem copyRecv_status_eq (hq : q.header.dorC = 1) :
    s.copyRecv q =
    (({ s.copy with ifRecvArq := true } : CopyControl).makeCopyArqSendPacket q).bind fun r =>
        let t := sendOnBoth { s with copy := r.1 } r.2
        t.1.copy.stopArqTimer.bind fun copy =>
          ({ t.1 with copy := copy }.copyRequest).bind fun u =>
            some (u.1, t.2 ++ (if t.1.copy.ifTransmitSduFlag then [PdcpOut.up q.packet] else []) ++ u.2) := by
  unfold copyRecv copyAnswer
  rw [recvAndSave_status hq]
  simp only [if_true, bind_eq_bind, bind_assoc, bind_some]

theorem copyRecv_status {s s' : LtePdcp} (hrx : CopyRx s.copy R) {o : List PdcpOut}
    (hq : q.header.dorC = 1) (h : s.copyRecv q = some (s', o)) :
    CopyRx s'.copy R ∧ SameNc s s' ∧ s'.copy.groupnum = s.copy.groupnum ∧
    s'.copy.ifTransmitSduFlag = s.copy.ifTransmitSduFlag ∧ s'.copy.ifSendArq = s.copy.ifSendArq ∧
    (s.copy.decoding s.copy.groupnum).isSome ∧
    (∀ g, copyEncVector s'.copy g = copyEncVector s.copy g) ∧ (CopyTx s.copy → CopyTx s'.copy) ∧
    ∀ r ∈ downs o, r.header.dorC = 1 ∨ r.header.groupnum = q.header.groupnum ∧
    (copyEncVector s.copy q.header.groupnum)[originalBlockSize - 1]?.bind NcPara.p = some r.packet := by
  rw [copyRecv_status_eq hq] at h
  simp only [bind_eq_some_iff] at h
  obtain ⟨⟨c, qs⟩, hmake, c₂, hstop, ⟨s₃, os⟩, hreq, h⟩ := h
  cases h
  obtain ⟨m₁, m₂, m₃, m₄, m₅, m₆, m₇, m₈⟩ := makeCopyArqSendPacket_spec hmake
  obtain ⟨b₁, b₂, b₃, b₄⟩ := sendOnBoth_spec qs { s with copy := c }
  have hrx₁ : CopyRx c R := m₅ R ⟨hrx.stat, hrx.buffer, hrx.seen⟩
  have hsome : (c.decoding c.groupnum).isSome := by
    rw [b₁] at hstop
    obtain ⟨buf, hbuf, _⟩ := map_eq_some_iff.mp hstop
    rw [hbuf]; rfl
  obtain ⟨c₂', hstop', hrx₂, hk₂⟩ := stopArqTimer_total hrx₁ hsome
  obtain rfl : c₂' = c₂ := by
    rw [b₁, hstop'] at hstop
    exact Option.some.inj hstop
  obtain ⟨s₃', os', hreq', hrx₃, hk₃, hs₃, hu, hd⟩ :=
    copyRequest_total (s := { (sendOnBoth { s with copy := c } qs).1 with copy := c₂' }) hrx₂
  obtain ⟨rfl, rfl⟩ : s₃' = s₃ ∧ os' = os := by
    have hreq₂ := hreq'.symm.trans hreq
    exact Prod.mk.inj (Option.some.inj hreq₂)
  have hk := hk₂.trans hk₃
  have hvec : ∀ g, copyEncVector s₃'.copy g = copyEncVector c g := fun g => by
    unfold copyEncVector; rw [hk.encoding]
  refine ⟨hrx₃, ?_, hk.groupnum.trans m₁, hk.ifTransmitSduFlag.trans m₂, hk.ifSendArq.trans m₃, ?_,
    fun g => (hvec g).trans (m₆ g), ?_, ?_⟩
  · exact ⟨hs₃.ncEnable.trans b₂.ncEnable, hs₃.copyEnable.trans b₂.copyEnable, hs₃.nc.trans b₂.nc⟩
  · rw [m₄, m₁] at hsome
    exact hsome
  · intro htx g buf hbuf
    rw [hk.encoding] at hbuf
    exact m₇ htx g buf hbuf
  · intro r hr
    rw [downs_append, downs_append] at hr
    rcases mem_append.mp hr with hr | hr
    · rcases mem_append.mp hr with hr | hr
      · exact .inr (m₈ r (b₄ r hr)).2
      · exfalso
        revert hr
        split <;> simp [downs]
    · exact .inl (hd r hr)

/-! ## Transmitting -/

/-- **An SDU in copy mode** goes on both RLCs under the current group, which
is then left. -/
theorem copyTransmit_spec (hnc : s.ncEnable = false) (hcopy : s.copyEnable = true)
    (htx : CopyTx s.copy) (p : Packet) (rand : Nat → Nat → Nat) :
    ∃ s' o para new q₁ q₂, s.triggerDoTransmitPdcpSdu p rand = some (s', o) ∧ SameNc s s' ∧
      s'.copy.groupnum = s.copy.groupnum + 1 ∧ s'.copy.ifTransmitSduFlag = s.copy.ifTransmitSduFlag ∧
      s'.copy.ifSendArq = s.copy.ifSendArq ∧ (∀ g, s'.copy.decoding g = s.copy.decoding g) ∧
      s'.copy.statusReportStatistic = s.copy.statusReportStatistic ∧ CopyTx s'.copy ∧ para.p = some p.readdHeaders ∧
    (∀ g, copyEncVector s'.copy g =
        if g = s.copy.groupnum then copyEncVector s.copy g ++ [para, new] else copyEncVector s.copy g) ∧
      ups o = [] ∧ downs o = [q₁, q₂] ∧ q₁.header.groupnum = s.copy.groupnum ∧
      q₁.header.sn = (copyEncVector s.copy s.copy.groupnum).length % 256 ∧ q₁.packet = p.readdHeaders ∧
      q₂.header.groupnum = s.copy.groupnum ∧
    (copyEncVector s'.copy s.copy.groupnum)[originalBlockSize - 1]?.bind NcPara.p = some q₂.packet := by
  let g := s.copy.groupnum
  let buf := (s.copy.encoding g).getD {}
  let size := buf.ncVector.length
  let para : NcPara := { p := some p.readdHeaders, israwpacket := 1, sn := size % 256 }
  let q₁ : NcPdu := ⟨{ groupnum := g, sn := size % 256, israwpacket := 1 }, p.readdHeaders⟩
  let buf₁ : CopyEncodingBuffer := { buf with ncVector := buf.ncVector ++ [para] }
  let c₁ := s.copy.setEncoding g buf₁
  have henc₁ : c₁.encoding g = some buf₁ := (encoding_setEncoding ..).trans (if_pos rfl)
  -- the group starts with an earlier packet or with this one
  obtain ⟨first, fp, hfirst, hfp⟩ : ∃ first fp, buf₁.ncVector[originalBlockSize - 1]? = some first ∧
      first.p = some fp := by
    cases henc : s.copy.encoding g with
    | none =>
      have : buf = {} := by simp [buf, henc]
      exact ⟨para, p.readdHeaders, by simp [buf₁, this, originalBlockSize], rfl⟩
    | some b =>
      have hbuf : buf = b := by simp [buf, henc]
      obtain ⟨first, fp, hfirst, hfp⟩ := htx g b henc
      obtain ⟨hpos, _⟩ := List.getElem?_eq_some_iff.mp hfirst
      refine ⟨first, fp, ?_, hfp⟩
      change (buf.ncVector ++ [para])[originalBlockSize - 1]? = _
      rw [hbuf, getElem?_append_left hpos, hfirst]
  let buf₂ : CopyEncodingBuffer := { buf₁ with ncVector := buf₁.ncVector ++ [{}] }
  let q₂ : NcPdu := ⟨{ groupnum := g, sn := buf₂.ncVector.length % 256 }, fp⟩
  have hred : c₁.makeRedundancePacket = some (c₁.setEncoding g buf₂, q₂) := by
    have : c₁.encoding c₁.groupnum = some buf₁ := henc₁
    simp only [makeRedundancePacket, this, hfirst, hfp, bind_eq_bind, bind_some]
    rfl
  have henc₂ : ∀ g', (c₁.setEncoding g buf₂).encoding g' = if g' = g then some buf₂ else s.copy.encoding g' := by
    intro g'
    rw [encoding_setEncoding]
    split
    · rfl
    · rename_i hne
      exact (encoding_setEncoding ..).trans (if_neg hne)
  have hfirst₂ : buf₂.ncVector[originalBlockSize - 1]? = some first := by
    obtain ⟨hpos, _⟩ := List.getElem?_eq_some_iff.mp hfirst
    rw [getElem?_append_left hpos, hfirst]
  let s₁ := ({ s with copy := c₁ }.doTransmitPdcpSdu q₁ 0).1
  let s₂ := ({ s₁ with copy := c₁.setEncoding g buf₂ }.doTransmitPdcpSdu2 q₂ 0).1
  refine ⟨{ s₂ with copy := { s₂.copy with groupnum := s₂.copy.groupnum + 1 } },
    [({ s with copy := c₁ }.doTransmitPdcpSdu q₁ 0).2,
     ({ s₁ with copy := c₁.setEncoding g buf₂ }.doTransmitPdcpSdu2 q₂ 0).2], para, {}, q₁, q₂, ?_,
    ⟨rfl, rfl, rfl⟩, rfl, rfl, rfl, fun _ => rfl, rfl, ?_, rfl, ?_, rfl, rfl, rfl, rfl, rfl, rfl, ?_⟩
  · unfold triggerDoTransmitPdcpSdu
    rw [if_neg (by simp [hnc]), if_pos hcopy]
    change (c₁.makeRedundancePacket).bind _ = _
    rw [hred]; rfl
  · intro g' b hb
    have hb' : (if g' = g then some buf₂ else s.copy.encoding g') = some b := (henc₂ g').symm.trans hb
    split at hb'
    · cases hb'
      exact ⟨first, fp, hfirst₂, hfp⟩
    · exact htx g' b hb'
  · intro g'
    change (((c₁.setEncoding g buf₂).encoding g').getD {}).ncVector = _
    rw [henc₂]
    by_cases hg : g' = g
    · rw [if_pos hg, if_pos hg, hg]
      simp [buf₂, buf₁, copyEncVector, buf]
    · rw [if_neg hg, if_neg hg, copyEncVector]
  · change (((c₁.setEncoding g buf₂).encoding g).getD {}).ncVector[originalBlockSize - 1]?.bind NcPara.p = _
    rw [henc₂, if_pos rfl]
    simp [hfirst₂, hfp, q₂]

end LtePdcp

end Ns3
