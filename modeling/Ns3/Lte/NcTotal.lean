import Ns3.Lte.CopyFrame

/-!
# Network-coding reception is defined

A receiver that never asks for a group more than three times indexes its
statistics in bounds, and decodes only from packets it has. `NcRx` is what
keeps every reception of a data PDU defined.
-/

namespace Ns3

open List Option

namespace NcControl

structure NcBufferOk (buf : NcDecodingBuffer) : Prop where
  num : buf.numStatusReport ≤ 3
  packets : ∀ para ∈ buf.ncVector, para.p.isSome

structure NcRx (c : NcControl) : Prop where
  packetStat : c.packetStatistic.length = 5
  reportStat : c.statusReportStatistic.length = 5
  buffer : ∀ g, NcBufferOk (c.bufferOf g)

theorem NcRx.setDecoding {c : NcControl} (h : NcRx c) (g : Nat) {b : NcDecodingBuffer} (hok : NcBufferOk b) :
    NcRx (c.setDecoding g b) := by
  refine ⟨h.packetStat, h.reportStat, fun g' => ?_⟩
  rw [bufferOf_setDecoding]
  split
  · exact hok
  · exact h.buffer g'

theorem file_ok {buf : NcDecodingBuffer} (hok : NcBufferOk buf) (q : NcPdu) : NcBufferOk (file buf q) := by
  unfold file
  split
  · exact hok
  · refine ⟨hok.num, fun para hp => ?_⟩
    rcases mem_append.mp hp with hp | hp
    · exact hok.packets para hp
    · rw [mem_singleton] at hp
      rw [hp]; rfl

theorem recvAndSave_rx {c : NcControl} (h : NcRx c) {q : NcPdu} (hq : q.header.dorC ≠ 1) : NcRx (c.recvAndSave q) := by
  have hset := h.setDecoding q.header.groupnum (file_ok (h.buffer q.header.groupnum) q)
  unfold recvAndSave
  rw [if_neg hq]
  refine ⟨?_, h.reportStat, hset.buffer⟩
  dsimp only
  split
  · rw [length_modify]; exact h.packetStat
  · exact h.packetStat

/-! ## Decoding -/

theorem decodeLoop_total {vec : List NcPara} (hvec : ∀ para ∈ vec, para.p.isSome) :
    ∀ (js : List Nat) (dlv : List Nat), (∀ j ∈ js, j < vec.length) → ∃ r, decodeLoop vec js dlv = some r
  | [], dlv, _ => ⟨_, rfl⟩
  | j :: js, dlv, hjs => by
    have hjs' : ∀ k ∈ js, k < vec.length := fun k hk => hjs k (mem_cons_of_mem _ hk)
    unfold decodeLoop
    split
    · exact decodeLoop_total hvec js dlv hjs'
    · have hj : j < vec.length := hjs j (mem_cons_self ..)
      obtain ⟨p, hp⟩ := isSome_iff_exists.mp (hvec _ (getElem_mem hj))
      obtain ⟨r, hr⟩ := decodeLoop_total hvec js (dlv ++ [j]) hjs'
      simp only [getElem?_eq_getElem hj, hp, hr, bind_eq_bind, bind_some]
      exact ⟨_, rfl⟩

theorem ncDecode_total {c : NcControl} (h : NcRx c) {b : NcDecodingBuffer} (hb : c.decoding c.groupnum = some b)
    (hc : b.ncComplete = false) (hl : originalBlockSize ≤ b.ncVector.length) :
    ∃ c' ps, c.ncDecode = some (c', ps) ∧ NcRx c' := by
  have hok : NcBufferOk b := bufferOf_of_decoding hb ▸ h.buffer c.groupnum
  have hrank : c.calulateDecodingRank c.groupnum =
      some (c.setDecoding c.groupnum { b with rank := originalBlockSize }) := by
    simp [calulateDecodingRank, hb, Nat.not_lt.mpr hl]
  have hin : ∀ j ∈ range originalBlockSize, j < b.ncVector.length := fun j hj =>
    Nat.lt_of_lt_of_le (mem_range.mp hj) hl
  obtain ⟨r, hr⟩ := decodeLoop_total hok.packets (range originalBlockSize) b.deliverdSN hin
  have hnum := hok.num
  obtain ⟨pstat, hpstat, hplen⟩ := CopyControl.bumpAt_total (l := c.packetStatistic) (i := b.numStatusReport)
    (by rw [h.packetStat]; omega) r.1.length
  obtain ⟨sstat, hsstat, hslen⟩ := CopyControl.bumpAt_total (l := c.statusReportStatistic) (i := b.numStatusReport)
    (by rw [h.reportStat]; omega) 1
  have hset := (h.setDecoding c.groupnum (b := { b with rank := originalBlockSize, ncComplete := false })
    ⟨hok.num, hok.packets⟩).setDecoding c.groupnum
    (b := { b with rank := originalBlockSize, ncComplete := true, deliverdSN := r.2 }) ⟨hok.num, hok.packets⟩
  unfold ncDecode
  simp only [hb, hc, Bool.false_eq_true, if_false, hrank, bind_eq_bind, bind_some,
    groupnum_setDecoding, decoding_setDecoding, if_true, Nat.le_refl, hr]
  change ∃ c' ps, (bumpAt c.packetStatistic b.numStatusReport r.1.length).bind _ = some (c', ps) ∧ _
  rw [hpstat, bind_some]
  change ∃ c' ps, (bumpAt c.statusReportStatistic b.numStatusReport 1).bind _ = some (c', ps) ∧ _
  rw [hsstat, bind_some]
  exact ⟨_, _, rfl, hplen.trans h.packetStat, hslen.trans h.reportStat, hset.buffer⟩

/-! ## The scan -/

/-- The requested groups are below `i`, one time each, and have a buffer that
was asked for less than three times. -/
structure ScanOk (s : Scan) (i : Nat) : Prop where
  nodup : s.arqGroupNums.Nodup
  buffer : ∀ g ∈ s.arqGroupNums, g < i ∧ ∃ buf, s.ctl.decoding g = some buf ∧ buf.numStatusReport < 3
  packets : s.arqPackets.length = s.arqGroupNums.length

theorem visit_total {s : Scan} {i : Nat} (hrx : NcRx s.ctl) (hok : ScanOk s i) :
    ∃ s', s.visit i = some s' ∧ NcRx s'.ctl ∧ ScanOk s' (i + 1) := by
  let buf := s.ctl.bufferOf i
  let c := s.ctl.setDecoding i buf
  have hbuf : NcBufferOk buf := hrx.buffer i
  have hc : NcRx c := hrx.setDecoding i hbuf
  have hdec : c.decoding i = some buf := (decoding_setDecoding ..).trans (if_pos rfl)
  have hother : ∀ c' : NcControl, (∀ g, g ≠ i → c'.decoding g = s.ctl.decoding g) →
      ∀ g ∈ s.arqGroupNums, g < i + 1 ∧ ∃ b, c'.decoding g = some b ∧ b.numStatusReport < 3 := by
    intro c' hc' g hg
    obtain ⟨hlt, b, hb, hn⟩ := hok.buffer g hg
    exact ⟨by omega, b, (hc' g (by omega)).trans hb, hn⟩
  have hoff : ∀ (b : NcDecodingBuffer) g, g ≠ i → (c.setDecoding i b).decoding g = s.ctl.decoding g := by
    intro b g hg
    rw [decoding_setDecoding, if_neg hg]
    exact (decoding_setDecoding ..).trans (if_neg hg)
  unfold Scan.visit
  change ∃ s', (if (buf.ncComplete || buf.statusReportTimer.isSome) = true then _ else _) = some s' ∧ _
  split
  · exact ⟨_, rfl, hc, hok.nodup, hother c fun g hg => (decoding_setDecoding ..).trans (if_neg hg), hok.packets⟩
  · change ∃ s', (if buf.numStatusReport < 3 then _ else _) = some s' ∧ _
    split
    · rename_i hnum
      let b₁ : NcDecodingBuffer := { buf with
        rank := if buf.ncVector.length < originalBlockSize then buf.ncVector.length else originalBlockSize }
      have hrank : c.calulateDecodingRank i = some (c.setDecoding i b₁) := by
        rw [calulateDecodingRank, hdec]; rfl
      have hdec₁ : (c.setDecoding i b₁).decoding i = some b₁ := (decoding_setDecoding ..).trans (if_pos rfl)
      change ∃ s', (c.calulateDecodingRank i).bind _ = some s' ∧ _
      rw [hrank, bind_some, makeStatusReport, hdec₁]
      refine ⟨_, rfl, hc.setDecoding i ⟨hbuf.num, hbuf.packets⟩, ?_, ?_, by simp [hok.packets]⟩
      · refine nodup_append.mpr ⟨hok.nodup, by simp, ?_⟩
        intro a ha b hb heq
        rw [mem_singleton] at hb
        have := (hok.buffer a ha).1
        omega
      · intro g hg
        rcases mem_append.mp hg with hg | hg
        · exact hother _ (hoff _) g hg
        · rw [mem_singleton] at hg
          subst hg
          exact ⟨Nat.lt_succ_self g, b₁, hdec₁, hnum⟩
    · have hidx : buf.numStatusReport + 1 < c.statusReportStatistic.length := by
        rw [hc.reportStat]
        have := hbuf.num
        omega
      obtain ⟨sstat, hbump, hlen⟩ := CopyControl.bumpAt_total hidx 1
      have hgive := hc.setDecoding i (b := { buf with ncComplete := true }) ⟨hbuf.num, hbuf.packets⟩
      change ∃ s', (bumpAt c.statusReportStatistic (buf.numStatusReport + 1) 1).bind _ = some s' ∧ _
      rw [hbump]
      exact ⟨_, rfl, ⟨hc.packetStat, hlen.trans hc.reportStat, hgive.buffer⟩, hok.nodup, hother _ (hoff _),
        hok.packets⟩

theorem scanLoop_total : ∀ (n i : Nat) {s : Scan}, NcRx s.ctl → ScanOk s i →
    ∃ s' j, scanLoop n i s = some s' ∧ NcRx s'.ctl ∧ ScanOk s' j
  | 0, i, s, hrx, hok => ⟨s, i, rfl, hrx, hok⟩
  | n + 1, i, s, hrx, hok => by
    obtain ⟨s₁, h₁, hrx₁, hok₁⟩ := visit_total hrx hok
    unfold scanLoop
    rw [h₁]
    change ∃ s' j, (if s₁.cnt = 5 then some s₁ else scanLoop n (i + 1) s₁) = some s' ∧ _
    split
    · exact ⟨s₁, i + 1, rfl, hrx₁, hok₁⟩
    · exact scanLoop_total n (i + 1) hrx₁ hok₁

theorem ncSendArqReq_total {c : NcControl} (hrx : NcRx c) :
    ∃ c' gs qs, c.ncSendArqReq = some (c', gs, qs) ∧ NcRx c' ∧ gs.Nodup ∧ qs.length = gs.length ∧
      ∀ g ∈ gs, ∃ buf, c'.decoding g = some buf ∧ buf.numStatusReport < 3 := by
  unfold ncSendArqReq
  split
  · exact ⟨c, [], [], rfl, hrx, by simp, rfl, by simp⟩
  · obtain ⟨s, j, hs, hrx', hok⟩ := scanLoop_total (c.groupnum - 3 + 1 - c.ncVrMs) c.ncVrMs (s := { ctl := c }) hrx
      ⟨by simp, by simp, rfl⟩
    rw [hs]
    exact ⟨_, _, _, rfl, ⟨hrx'.packetStat, hrx'.reportStat, hrx'.buffer⟩, hok.nodup, hok.packets,
      fun g hg => (hok.buffer g hg).2⟩

end NcControl

namespace LtePdcp

open NcControl

theorem ncRequestAll_total : ∀ (rs : List (Nat × NcPdu)) {s : LtePdcp}, NcRx s.nc → (rs.map Prod.fst).Nodup →
    (∀ g ∈ rs.map Prod.fst, ∃ buf, s.nc.decoding g = some buf ∧ buf.numStatusReport < 3) →
    ∃ s' os, requestAll ncArqReqSendOnce s rs = some (s', os) ∧ NcRx s'.nc
  | [], s, hrx, _, _ => ⟨s, [], rfl, hrx⟩
  | (g, q) :: rs, s, hrx, hnd, hbuf => by
    obtain ⟨hg, hnd'⟩ := nodup_cons.mp hnd
    obtain ⟨b, hb, hn⟩ := hbuf g (mem_cons_self ..)
    have hok : NcBufferOk b := bufferOf_of_decoding hb ▸ hrx.buffer g
    let b₁ : NcDecodingBuffer := { b with numStatusReport := (b.numStatusReport + 1) % 256,
                                          statusReportTimer := some (.copyExpire g q) }
    have hnum : b₁.numStatusReport ≤ 3 := by
      change (b.numStatusReport + 1) % 256 ≤ 3
      omega
    let s₁ : LtePdcp := { (s.doTransmitPdcpSdu q 0).1 with nc := s.nc.setDecoding g b₁ }
    have hsend : s.ncArqReqSendOnce g q = some (s₁, (s.doTransmitPdcpSdu q 0).2) := by
      unfold ncArqReqSendOnce
      change (s.nc.decoding g).bind _ = _
      rw [hb]; rfl
    have hbuf₁ : ∀ g' ∈ rs.map Prod.fst, ∃ buf, s₁.nc.decoding g' = some buf ∧ buf.numStatusReport < 3 := by
      intro g' hg'
      have hne : g' ≠ g := fun e => hg (e ▸ hg')
      obtain ⟨b', hb', hn'⟩ := hbuf g' (mem_cons_of_mem _ hg')
      exact ⟨b', (decoding_setDecoding ..).trans ((if_neg hne).trans hb'), hn'⟩
    obtain ⟨s', os, h, hrx'⟩ :=
      ncRequestAll_total rs (s := s₁) (hrx.setDecoding g (b := b₁) ⟨hnum, hok.packets⟩) hnd' hbuf₁
    refine ⟨s', (s.doTransmitPdcpSdu q 0).2 :: os, ?_, hrx'⟩
    simp only [requestAll, hsend, h, bind_eq_bind, bind_some]

theorem ncRequest_total {s : LtePdcp} (hrx : NcRx s.nc) : ∃ s' os, s.ncRequest = some (s', os) ∧ NcRx s'.nc := by
  unfold ncRequest
  split
  · obtain ⟨c, gs, qs, hreq, hrx₁, hnd, hlen, hbuf⟩ := ncSendArqReq_total hrx
    rw [hreq]
    have hfst : (gs.zip qs).map Prod.fst = gs := map_fst_zip (Nat.le_of_eq hlen.symm)
    exact ncRequestAll_total (gs.zip qs) (s := { s with nc := c }) hrx₁ (hfst.symm ▸ hnd) (hfst.symm ▸ hbuf)
  · exact ⟨s, [], rfl, hrx⟩

/-- **A data PDU is always processed** in network-coding mode. -/
theorem ncRecv_data_total {s : LtePdcp} (hrx : NcRx s.nc) {q : NcPdu} (hq : q.header.dorC ≠ 1)
    (rand : Nat → Nat → Nat) : ∃ s' o, s.ncRecv q rand = some (s', o) ∧ NcRx s'.nc := by
  let c₁ := s.nc.recvAndSave q
  obtain ⟨hg, _, harq, _, hdec⟩ := recvAndSave_data (c := s.nc) hq
  have hrx₁ : NcRx c₁ := recvAndSave_rx hrx hq
  have hb : c₁.decoding c₁.groupnum = some (file (s.nc.bufferOf q.header.groupnum) q) := by
    rw [hdec, hg, if_pos rfl]
  obtain ⟨c₂, ps, hready, hrx₂⟩ : ∃ c₂ ps, decodeReady c₁ = some (c₂, ps) ∧ NcRx c₂ := by
    unfold decodeReady
    simp only [ifDeocde, hb, map_some, bind_eq_bind, bind_some]
    split
    · rename_i hr
      simp only [Bool.and_eq_true, Bool.not_eq_true', decide_eq_true_eq] at hr
      exact ncDecode_total hrx₁ hb hr.1 hr.2
    · exact ⟨c₁, [], rfl, hrx₁⟩
  obtain ⟨htx, b, _, hbuf⟩ := decodeReady_spec hb hready
  have hb₂ : c₂.decoding c₂.groupnum = some b := by
    rw [hbuf, htx.groupnum, if_pos rfl]
  have hok : NcBufferOk b := bufferOf_of_decoding hb₂ ▸ hrx₂.buffer c₂.groupnum
  let c₃ := c₂.setDecoding c₂.groupnum { b with statusReportTimer := none }
  have hstop : c₂.stopArqTimer = some c₃ := by
    rw [stopArqTimer, hb₂]; rfl
  have hrx₃ : NcRx c₃ := hrx₂.setDecoding _ ⟨hok.num, hok.packets⟩
  obtain ⟨s', os, hreq, hrx'⟩ := ncRequest_total (s := { s with nc := c₃ }) hrx₃
  have hready' : decodeReady (s.nc.recvAndSave q) = some (c₂, ps) := hready
  refine ⟨s', (if c₁.ifTransmitSduFlag then [PdcpOut.up q.packet] else []) ++ ps.map .up ++ os, ?_, hrx'⟩
  unfold ncRecv
  simp only [harq, Bool.false_eq_true, if_false, bind_eq_bind, hready', bind_some, hstop, hreq]
  rfl

end LtePdcp

end Ns3
