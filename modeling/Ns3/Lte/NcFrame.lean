import Ns3.Lte.Pdcp

/-!
# What network-coding operations touch

Each operation of `NcControl` is described by its effect on the sender's side
(group counter and encoding buffers), and on the decoding buffer of each
group. An absent buffer reads as an empty one (`bufferOf`).
-/

namespace Ns3

open List Option

/-- The packets a list of outputs hands to the user. -/
def ups (os : List PdcpOut) : List Packet :=
  os.filterMap fun
    | .up p => some p
    | .down _ => none

/-- The PDUs with an NC header a list of outputs passes down. -/
def downs (os : List PdcpOut) : List NcPdu :=
  os.filterMap fun
    | .up _ => none
    | .down q => q.header.map fun h => ⟨h, q.packet⟩

@[simp] theorem ups_append (a b : List PdcpOut) : ups (a ++ b) = ups a ++ ups b := filterMap_append

@[simp] theorem downs_append (a b : List PdcpOut) : downs (a ++ b) = downs a ++ downs b := filterMap_append

@[simp] theorem ups_map_up (ps : List Packet) : ups (ps.map .up) = ps := by
  induction ps with
  | nil => rfl
  | cons p ps ih => simp [ups]

@[simp] theorem downs_map_up (ps : List Packet) : downs (ps.map .up) = [] := by
  induction ps with
  | nil => rfl
  | cons p ps ih => simp [downs]

namespace NcControl

def bufferOf (c : NcControl) (g : Nat) : NcDecodingBuffer := (c.decoding g).getD {}

theorem bufferOf_setDecoding (c : NcControl) (g g' : Nat) (buf : NcDecodingBuffer) :
    (c.setDecoding g buf).bufferOf g' = if g' = g then buf else c.bufferOf g' := by
  unfold bufferOf
  rw [decoding_setDecoding]
  split <;> rfl

variable {c c' : NcControl} {q : NcPdu} {b : NcDecodingBuffer}

theorem bufferOf_of_decoding {g : Nat} {buf : NcDecodingBuffer} (h : c.decoding g = some buf) : c.bufferOf g = buf := by
  simp [bufferOf, h]

/-! ## The sending side -/

structure SameTx (c c' : NcControl) : Prop where
  groupnum : c'.groupnum = c.groupnum
  encoding : ∀ g, c'.encoding g = c.encoding g

theorem SameTx.refl (c : NcControl) : SameTx c c := ⟨rfl, fun _ => rfl⟩

theorem SameTx.trans {a b c : NcControl} (h₁ : SameTx a b) (h₂ : SameTx b c) : SameTx a c :=
  ⟨h₂.groupnum.trans h₁.groupnum, fun g => (h₂.encoding g).trans (h₁.encoding g)⟩

theorem recvAndSave_status (hq : q.header.dorC = 1) : c.recvAndSave q = { c with ifRecvArq := true } := by
  simp [recvAndSave, hq]

/-- **Filing a data PDU** overwrites the group counter and touches the
decoding buffer of the PDU's group only. -/
theorem recvAndSave_data (hq : q.header.dorC ≠ 1) : (c.recvAndSave q).groupnum = q.header.groupnum ∧
    (∀ g, (c.recvAndSave q).encoding g = c.encoding g) ∧ (c.recvAndSave q).ifRecvArq = false ∧
    (c.recvAndSave q).ifTransmitSduFlag =
    (!(c.bufferOf q.header.groupnum).ncComplete && decide (q.header.sn < originalBlockSize)) ∧
    (∀ g, (c.recvAndSave q).decoding g =
      if g = q.header.groupnum then some (file (c.bufferOf g) q) else c.decoding g) := by
  unfold recvAndSave
  rw [if_neg hq]
  refine ⟨rfl, fun _ => rfl, rfl, rfl, fun g => ?_⟩
  refine (decoding_setDecoding c _ g _).trans ?_
  by_cases hg : g = q.header.groupnum
  · subst hg; rfl
  · simp [hg]

/-! ## Decoding -/

/-- `IfDeocde` and `NcDecode` on the buffer of one group: the packets handed
up and the buffer after. -/
def settle (b : NcDecodingBuffer) : Option (NcDecodingBuffer × List Packet) :=
  if b.ncComplete = false ∧ originalBlockSize ≤ b.ncVector.length then
    (decodeLoop b.ncVector (List.range originalBlockSize) b.deliverdSN).map fun r =>
      ({ b with rank := originalBlockSize, ncComplete := true, deliverdSN := r.2 }, r.1)
  else some (b, [])

theorem ncDecode_settle {ps : List Packet} (hb : c.decoding c.groupnum = some b) (hc : b.ncComplete = false)
    (hl : originalBlockSize ≤ b.ncVector.length) (h : c.ncDecode = some (c', ps)) :
    SameTx c c' ∧ ∃ b', settle b = some (b', ps) ∧
      ∀ g, c'.decoding g = if g = c.groupnum then some b' else c.decoding g := by
  have hrank : c.calulateDecodingRank c.groupnum =
      some (c.setDecoding c.groupnum { b with rank := originalBlockSize }) := by
    simp [calulateDecodingRank, hb, Nat.not_lt.mpr hl]
  unfold ncDecode at h
  simp only [hb, hc, Bool.false_eq_true, if_false, hrank, bind_eq_bind, bind_some,
    groupnum_setDecoding, decoding_setDecoding, if_true, Nat.le_refl] at h
  simp only [bind_eq_some_iff] at h
  obtain ⟨r, hr, pstat, _, sstat, _, h⟩ := h
  cases h
  refine ⟨⟨rfl, fun _ => rfl⟩, { b with rank := originalBlockSize, ncComplete := true, deliverdSN := r.2 }, ?_, ?_⟩
  · simp [settle, hc, hl, hr]
  intro g
  refine (decoding_setDecoding _ _ g _).trans ?_
  by_cases hg : g = c.groupnum
  · simp [hg]
  · simp [hg, decoding_setDecoding]

/-! ## Requests for retransmission -/

/-- A request leaves the packets of a group alone; it may give the group up. -/
structure Scanned (b b' : NcDecodingBuffer) : Prop where
  vec : b'.ncVector = b.ncVector
  dlv : b'.deliverdSN = b.deliverdSN
  done : b.ncComplete = true → b'.ncComplete = true
  timer : ∀ t, b'.statusReportTimer = some t → b.statusReportTimer = some t ∨ ∃ g q, t = .copyExpire g q

theorem Scanned.refl (b : NcDecodingBuffer) : Scanned b b := ⟨rfl, rfl, id, fun _ => .inl⟩

theorem Scanned.trans {a b c : NcDecodingBuffer} (h₁ : Scanned a b) (h₂ : Scanned b c) : Scanned a c where
  vec := h₂.vec.trans h₁.vec
  dlv := h₂.dlv.trans h₁.dlv
  done h := h₂.done (h₁.done h)
  timer t h := by
    rcases h₂.timer t h with h | h
    · exact h₁.timer t h
    · exact .inr h

theorem scanned_setDecoding (c : NcControl) (i : Nat) (h : Scanned (c.bufferOf i) b)
    (g : Nat) : Scanned (c.bufferOf g) ((c.setDecoding i b).bufferOf g) := by
  rw [bufferOf_setDecoding]
  split
  · rename_i hg; rw [hg]; exact h
  · exact .refl _

def reportFor (i : Nat) (b : NcDecodingBuffer) : NcPdu :=
  ⟨{ groupnum := i, dorC := 1, rank := min b.ncVector.length originalBlockSize }, .zeros 1⟩

/-- `q` asks for an incomplete group from `lo` to below `hi`, as it stands in `c`. -/
def IsReport (c : NcControl) (lo hi : Nat) (q : NcPdu) : Prop :=
  ∃ i, lo ≤ i ∧ i < hi ∧ (c.bufferOf i).ncComplete = false ∧ q = reportFor i (c.bufferOf i)

theorem IsReport.of_scanned {lo hi : Nat}
    (hs : ∀ g, Scanned (c.bufferOf g) (c'.bufferOf g)) (h : IsReport c' lo hi q) : IsReport c lo hi q := by
  obtain ⟨i, hlo, hhi, hc, rfl⟩ := h
  refine ⟨i, hlo, hhi, ?_, ?_⟩
  · cases hb : (c.bufferOf i).ncComplete with
    | false => rfl
    | true => rw [(hs i).done hb] at hc; cases hc
  · unfold reportFor; rw [(hs i).vec]

theorem IsReport.mono {lo hi lo' hi' : Nat} (hlo : lo' ≤ lo) (hhi : hi ≤ hi')
    (h : IsReport c lo hi q) : IsReport c lo' hi' q := by
  obtain ⟨i, h₁, h₂, h⟩ := h
  exact ⟨i, hlo.trans h₁, Nat.lt_of_lt_of_le h₂ hhi, h⟩

theorem visit_spec {s s' : Scan} {i : Nat} (h : s.visit i = some s') :
    SameTx s.ctl s'.ctl ∧ (∀ g, Scanned (s.ctl.bufferOf g) (s'.ctl.bufferOf g)) ∧
    ∃ new, s'.arqPackets = s.arqPackets ++ new ∧ ∀ q ∈ new, IsReport s.ctl i (i + 1) q := by
  have hbuf : (s.ctl.decoding i).getD {} = s.ctl.bufferOf i := rfl
  unfold Scan.visit at h
  simp only [hbuf] at h
  generalize hb : s.ctl.bufferOf i = b at h
  split at h
  · cases h
    exact ⟨⟨rfl, fun _ => rfl⟩, scanned_setDecoding _ i (hb ▸ .refl _), [], by simp, by simp⟩
  rename_i hnc
  have hc : b.ncComplete = false := by
    cases hbc : b.ncComplete with
    | false => rfl
    | true => simp [hbc] at hnc
  split at h
  · -- a report is made from the rank just computed
    simp only [calulateDecodingRank, makeStatusReport, decoding_setDecoding, if_true, map_some,
      bind_eq_bind, bind_some, Option.some.injEq] at h
    subst h
    refine ⟨⟨rfl, fun _ => rfl⟩, ?_, [reportFor i b], ?_, ?_⟩
    · intro g
      refine (scanned_setDecoding _ i (hb ▸ .refl _) g).trans (scanned_setDecoding _ i ?_ g)
      rw [bufferOf_setDecoding, if_pos rfl]
      exact ⟨rfl, rfl, id, fun _ => .inl⟩
    · have hmin : (if b.ncVector.length < originalBlockSize then b.ncVector.length else originalBlockSize) =
          min b.ncVector.length originalBlockSize := by
        split <;> omega
      rw [reportFor, ← hmin]
    · intro q hq
      rw [mem_singleton] at hq
      exact ⟨i, Nat.le_refl i, Nat.lt_succ_self i, hb ▸ hc, hb ▸ hq⟩
  · -- after three reports the group is given up
    simp only [bind_eq_bind, bind_eq_some_iff] at h
    obtain ⟨sstat, _, h⟩ := h
    cases h
    refine ⟨⟨rfl, fun _ => rfl⟩, ?_, [], by simp, by simp⟩
    intro g
    refine (scanned_setDecoding _ i (hb ▸ .refl _) g).trans (scanned_setDecoding _ i ?_ g)
    rw [bufferOf_setDecoding, if_pos rfl]
    exact ⟨rfl, rfl, fun _ => rfl, fun _ => .inl⟩

theorem scanLoop_spec : ∀ (n i : Nat) {s s' : Scan}, scanLoop n i s = some s' →
    SameTx s.ctl s'.ctl ∧ (∀ g, Scanned (s.ctl.bufferOf g) (s'.ctl.bufferOf g)) ∧
    ∃ new, s'.arqPackets = s.arqPackets ++ new ∧ ∀ q ∈ new, IsReport s.ctl i (i + n) q
  | 0, i, s, s', h => by
    cases h
    exact ⟨.refl _, fun _ => .refl _, [], by simp, by simp⟩
  | n + 1, i, s, s', h => by
    unfold scanLoop at h
    simp only [Option.bind_eq_bind, Option.bind_eq_some_iff] at h
    obtain ⟨s₁, h₁, h⟩ := h
    obtain ⟨htx, hsc, new, hnew, hrep⟩ := visit_spec h₁
    split at h
    · cases h
      exact ⟨htx, hsc, new, hnew, fun q hq => (hrep q hq).mono (Nat.le_refl i) (by omega)⟩
    · obtain ⟨htx', hsc', new', hnew', hrep'⟩ := scanLoop_spec n (i + 1) h
      refine ⟨htx.trans htx', fun g => (hsc g).trans (hsc' g), new ++ new', ?_, ?_⟩
      · rw [hnew', hnew, append_assoc]
      · intro q hq
        rcases mem_append.mp hq with hq | hq
        · exact (hrep q hq).mono (Nat.le_refl i) (by omega)
        · exact ((hrep' q hq).of_scanned hsc).mono (by omega) (by omega)

theorem ncSendArqReq_spec {gs : List Nat} {qs : List NcPdu} (h : c.ncSendArqReq = some (c', gs, qs)) :
    SameTx c c' ∧ (∀ g, Scanned (c.bufferOf g) (c'.bufferOf g)) ∧ ∀ q ∈ qs, IsReport c c.ncVrMs (c.groupnum - 2) q := by
  unfold ncSendArqReq at h
  split at h
  · obtain ⟨rfl, rfl, rfl⟩ : c = c' ∧ [] = gs ∧ [] = qs := by simpa using h
    exact ⟨.refl _, fun _ => .refl _, by simp⟩
  · simp only [bind_eq_bind, bind_eq_some_iff] at h
    obtain ⟨s, hs, h⟩ := h
    obtain ⟨rfl, rfl, rfl⟩ := h
    obtain ⟨htx, hsc, new, hnew, hrep⟩ := scanLoop_spec _ _ hs
    refine ⟨⟨htx.groupnum, htx.encoding⟩, hsc, ?_⟩
    intro q hq
    rw [hnew, nil_append] at hq
    obtain ⟨i, hlo, hhi, h⟩ := hrep q hq
    exact ⟨i, hlo, by omega, h⟩

theorem sendSaveAndSetTime_eq {p : Packet} (h : c.sendSaveAndSetTime p = some (c', q)) :
    ∃ buf, c' = c.setEncoding c.groupnum buf := by
  unfold sendSaveAndSetTime at h
  dsimp only at h
  split at h
  · cases h
  · cases h
    exact ⟨_, rfl⟩

end NcControl

namespace LtePdcp

open NcControl

/-! ## The network-coding branches of the entity -/

/-- `s'` differs from `s` at most in its network-coding state and counters. -/
structure SameMode (s s' : LtePdcp) : Prop where
  ncEnable : s'.ncEnable = s.ncEnable
  copyEnable : s'.copyEnable = s.copyEnable
  copy : s'.copy = s.copy

theorem SameMode.refl (s : LtePdcp) : SameMode s s := ⟨rfl, rfl, rfl⟩

theorem SameMode.trans {a b c : LtePdcp} (h₁ : SameMode a b) (h₂ : SameMode b c) : SameMode a c :=
  ⟨h₂.ncEnable.trans h₁.ncEnable, h₂.copyEnable.trans h₁.copyEnable, h₂.copy.trans h₁.copy⟩

theorem toogleSend_spec (s : LtePdcp) (q : NcPdu) (k : Nat) :
    (s.toogleSend q k).1.nc = s.nc ∧ SameMode s (s.toogleSend q k).1 ∧
      ups [(s.toogleSend q k).2] = [] ∧ downs [(s.toogleSend q k).2] = [q] := by
  unfold toogleSend
  split <;> exact ⟨rfl, ⟨rfl, rfl, rfl⟩, rfl, rfl⟩

theorem ups_cons (o : PdcpOut) (os : List PdcpOut) : ups (o :: os) = ups [o] ++ ups os :=
  ups_append [o] os

theorem downs_cons (o : PdcpOut) (os : List PdcpOut) : downs (o :: os) = downs [o] ++ downs os :=
  downs_append [o] os

theorem sendAll_cons (send : LtePdcp → NcPdu → LtePdcp × PdcpOut) (s : LtePdcp) (q : NcPdu) (qs : List NcPdu) :
    sendAll send s (q :: qs) =
      ((sendAll send (send s q).1 qs).1, (send s q).2 :: (sendAll send (send s q).1 qs).2) := rfl

theorem sendAll_spec (k : Nat) : ∀ (qs : List NcPdu) (s : LtePdcp),
    (sendAll (fun s q => s.toogleSend q k) s qs).1.nc = s.nc ∧
    SameMode s (sendAll (fun s q => s.toogleSend q k) s qs).1 ∧
    ups (sendAll (fun s q => s.toogleSend q k) s qs).2 = [] ∧ downs (sendAll (fun s q => s.toogleSend q k) s qs).2 = qs
  | [], s => ⟨rfl, .refl s, rfl, rfl⟩
  | q :: qs, s => by
    obtain ⟨h₁, h₂, h₃, h₄⟩ := toogleSend_spec s q k
    obtain ⟨i₁, i₂, i₃, i₄⟩ := sendAll_spec k qs (s.toogleSend q k).1
    rw [sendAll_cons]
    refine ⟨i₁.trans h₁, h₂.trans i₂, ?_, ?_⟩
    · rw [ups_cons, h₃, i₃]; rfl
    · rw [downs_cons, h₄, i₄]; rfl

variable {s s' : LtePdcp} {q : NcPdu} {rand : Nat → Nat → Nat} {p : Packet}

theorem ncArqReqSendOnce_spec {g : Nat} {o : PdcpOut} (h : s.ncArqReqSendOnce g q = some (s', o)) :
    SameTx s.nc s'.nc ∧ SameMode s s' ∧ (∀ i, Scanned (s.nc.bufferOf i) (s'.nc.bufferOf i)) ∧
      ups [o] = [] ∧ downs [o] = [q] := by
  unfold ncArqReqSendOnce at h
  simp only [bind_eq_bind, bind_eq_some_iff] at h
  obtain ⟨buf, hbuf, h⟩ := h
  cases h
  refine ⟨⟨rfl, fun _ => rfl⟩, ⟨rfl, rfl, rfl⟩, ?_, rfl, rfl⟩
  refine scanned_setDecoding s.nc g ?_
  rw [bufferOf_of_decoding (c := s.nc) hbuf]
  refine ⟨rfl, rfl, id, fun t ht => .inr ⟨g, q, ?_⟩⟩
  exact (Option.some.inj ht).symm

theorem requestAll_spec : ∀ (rs : List (Nat × NcPdu)) {s s' : LtePdcp} {os : List PdcpOut},
    requestAll ncArqReqSendOnce s rs = some (s', os) →
    SameTx s.nc s'.nc ∧ SameMode s s' ∧ (∀ i, Scanned (s.nc.bufferOf i) (s'.nc.bufferOf i)) ∧
      ups os = [] ∧ downs os = rs.map Prod.snd
  | [], s, s', os, h => by
    cases h
    exact ⟨.refl _, .refl _, fun _ => .refl _, rfl, rfl⟩
  | (g, q) :: rs, s, s', os, h => by
    unfold requestAll at h
    simp only [Option.bind_eq_bind, Option.bind_eq_some_iff] at h
    obtain ⟨⟨s₁, o₁⟩, h₁, ⟨s₂, os₂⟩, h₂, h⟩ := h
    cases h
    obtain ⟨a₁, a₂, a₃, a₄, a₅⟩ := ncArqReqSendOnce_spec h₁
    obtain ⟨b₁, b₂, b₃, b₄, b₅⟩ := requestAll_spec rs h₂
    refine ⟨a₁.trans b₁, a₂.trans b₂, fun i => (a₃ i).trans (b₃ i), ?_, ?_⟩
    · rw [ups_cons, a₄, b₄]; rfl
    · rw [downs_cons, a₅, b₅]; rfl

theorem decodeReady_spec {c c' : NcControl} {b : NcDecodingBuffer} {ps : List Packet}
    (hb : c.decoding c.groupnum = some b) (h : decodeReady c = some (c', ps)) :
    SameTx c c' ∧ ∃ b', settle b = some (b', ps) ∧
      ∀ g, c'.decoding g = if g = c.groupnum then some b' else c.decoding g := by
  unfold decodeReady at h
  simp only [ifDeocde, hb, map_some, bind_eq_bind, bind_some] at h
  split at h
  · rename_i hready
    simp only [Bool.and_eq_true, Bool.not_eq_true', decide_eq_true_eq] at hready
    exact ncDecode_settle hb hready.1 hready.2 h
  · rename_i hready
    cases h
    refine ⟨.refl _, b, ?_, ?_⟩
    · simp only [Bool.and_eq_true, Bool.not_eq_true', decide_eq_true_eq] at hready
      rw [settle, if_neg hready]
    · intro g
      split
      · rename_i hg; rw [hg, hb]
      · rfl

theorem ncRequest_spec {os : List PdcpOut} (h : s.ncRequest = some (s', os)) :
    SameTx s.nc s'.nc ∧ SameMode s s' ∧ (∀ i, Scanned (s.nc.bufferOf i) (s'.nc.bufferOf i)) ∧
      ups os = [] ∧ ∀ q ∈ downs os, IsReport s.nc s.nc.ncVrMs (s.nc.groupnum - 2) q := by
  unfold ncRequest at h
  split at h
  · simp only [bind_eq_bind, bind_eq_some_iff] at h
    obtain ⟨⟨c, gs, qs⟩, hreq, h⟩ := h
    obtain ⟨a₁, a₂, a₃⟩ := ncSendArqReq_spec hreq
    obtain ⟨b₁, b₂, b₃, b₄, b₅⟩ := requestAll_spec _ h
    refine ⟨a₁.trans b₁, ⟨b₂.ncEnable, b₂.copyEnable, b₂.copy⟩, fun i => (a₂ i).trans (b₃ i), b₄, ?_⟩
    intro q hq
    rw [b₅] at hq
    obtain ⟨⟨g, q'⟩, hmem, rfl⟩ := List.mem_map.mp hq
    exact a₃ _ (of_mem_zip hmem).2
  · cases h
    exact ⟨.refl _, .refl _, fun _ => .refl _, rfl, by simp [downs]⟩

/-- The packet a data PDU hands up before any decoding. -/
def directUp (b : NcDecodingBuffer) (q : NcPdu) : List Packet :=
  if b.ncComplete = false ∧ q.header.sn < originalBlockSize then [q.packet] else []

/-- The decoding buffers between the timer stop and the scan. -/
def midBuffer (c : NcControl) (q : NcPdu) (b : NcDecodingBuffer) (g : Nat) : NcDecodingBuffer :=
  if g = q.header.groupnum then { b with statusReportTimer := none } else c.bufferOf g

/-- **A data PDU in network-coding mode**: its group is filed and settled, and
every report passed down asks for an incomplete group at least three below. -/
theorem ncRecv_data {o : List PdcpOut} (hq : q.header.dorC ≠ 1) (h : s.ncRecv q rand = some (s', o)) :
    ∃ b ps, settle (file (s.nc.bufferOf q.header.groupnum) q) = some (b, ps) ∧
      ups o = directUp (s.nc.bufferOf q.header.groupnum) q ++ ps ∧
      s'.nc.groupnum = q.header.groupnum ∧ (∀ g, s'.nc.encoding g = s.nc.encoding g) ∧
      SameMode s s' ∧ (∀ g, Scanned (midBuffer s.nc q b g) (s'.nc.bufferOf g)) ∧
      ∀ r ∈ downs o, ∃ i, i + 3 ≤ q.header.groupnum ∧ (s.nc.bufferOf i).ncComplete = false ∧
        r = reportFor i (s.nc.bufferOf i) := by
  obtain ⟨h₁, h₂, h₃, h₄, h₅⟩ := recvAndSave_data (c := s.nc) hq
  have hdec : (s.nc.recvAndSave q).decoding (s.nc.recvAndSave q).groupnum =
      some (file (s.nc.bufferOf q.header.groupnum) q) := by
    rw [h₅, h₁, if_pos rfl]
  unfold ncRecv at h
  simp only [h₃, Bool.false_eq_true, if_false, bind_eq_bind, bind_eq_some_iff] at h
  obtain ⟨⟨nc₁, decoded⟩, hready, nc₂, hstop, ⟨s₃, reports⟩, hreq, h⟩ := h
  cases h
  obtain ⟨htx, b, hsettle, hbuf⟩ := decodeReady_spec hdec hready
  obtain ⟨hrtx, hmode, hscan, hups, hrep⟩ := ncRequest_spec hreq
  -- the timer stop writes the settled buffer back
  have hg₁ : nc₁.groupnum = q.header.groupnum := htx.groupnum.trans h₁
  have hb : nc₁.decoding nc₁.groupnum = some b := by
    rw [hbuf, htx.groupnum, if_pos rfl]
  simp only [stopArqTimer, hb, map_some, Option.some.injEq] at hstop
  have hmid : ∀ g, nc₂.bufferOf g = midBuffer s.nc q b g := by
    intro g
    rw [← hstop, bufferOf_setDecoding, midBuffer, hg₁]
    split
    · rfl
    · rename_i hne
      unfold bufferOf
      rw [hbuf, h₁, if_neg hne, h₅, if_neg hne]
  have hg₂ : nc₂.groupnum = q.header.groupnum := by
    rw [← hstop]; exact hg₁
  refine ⟨b, decoded, hsettle, ?_, hrtx.groupnum.trans hg₂, ?_, ⟨hmode.ncEnable, hmode.copyEnable, hmode.copy⟩,
    ?_, ?_⟩
  · rw [ups_append, ups_append, ups_map_up, hups, append_nil]
    congr 1
    unfold directUp
    rw [h₄]
    by_cases hd : (s.nc.bufferOf q.header.groupnum).ncComplete = false ∧ q.header.sn < originalBlockSize
    · rw [if_pos hd, if_pos (by simp [hd])]; rfl
    · rw [if_neg hd, if_neg (by simpa using hd)]; rfl
  · intro g
    rw [hrtx.encoding, ← hstop]
    exact (htx.encoding g).trans (h₂ g)
  · intro g
    rw [← hmid]
    exact hscan g
  · intro r hr
    have hdirect : downs (if (s.nc.recvAndSave q).ifTransmitSduFlag then [PdcpOut.up q.packet] else []) = [] := by
      split <;> rfl
    rw [downs_append, downs_append, downs_map_up, hdirect] at hr
    obtain ⟨i, _, hi, hcomp, rfl⟩ := hrep r hr
    have hlt : i + 3 ≤ q.header.groupnum := by
      change i < nc₂.groupnum - 2 at hi
      omega
    have hne : i ≠ q.header.groupnum := by omega
    have hbi : nc₂.bufferOf i = s.nc.bufferOf i := by
      rw [hmid, midBuffer, if_neg hne]
    exact ⟨i, hlt, hbi ▸ hcomp, congrArg (reportFor i) hbi⟩

/-! ## Transmitting -/

/-- A PDU that carries the last SDU `p` of a full group `g`. -/
structure Repeats (g : Nat) (p : Packet) (q : NcPdu) : Prop where
  data : q.header.dorC = 0
  group : q.header.groupnum = g
  sn : originalBlockSize ≤ q.header.sn
  packet : q.packet = p

theorem redundancyLoop_spec (rand : Nat → Nat → Nat) :
    ∀ (n var : Nat) (s : LtePdcp) {buf : NcEncodingBuffer} {last : NcPara},
    s.nc.encoding s.nc.groupnum = some buf → buf.ncVector[originalBlockSize - 1]? = some last → last.p = some p →
    buf.ncVector.length + n ≤ 256 →
    ∃ s' os new, redundancyLoop rand n var s = some (s', os) ∧ SameMode s s' ∧ s'.nc.groupnum = s.nc.groupnum ∧
    (∀ g, s'.nc.decoding g = s.nc.decoding g) ∧ new.length = n ∧ (∀ g, s'.nc.encoding g =
        if g = s.nc.groupnum then some { buf with ncVector := buf.ncVector ++ new } else s.nc.encoding g) ∧
      ups os = [] ∧ (downs os).length = n ∧ ∀ q ∈ downs os, Repeats s.nc.groupnum p q
  | 0, var, s, buf, last, hbuf, hlast, hp, hlen => by
    refine ⟨s, [], [], rfl, .refl s, rfl, fun _ => rfl, rfl, ?_, rfl, rfl, by simp [downs]⟩
    intro g
    split
    · rename_i hg; rw [hg, hbuf, List.append_nil]
    · rfl
  | n + 1, var, s, buf, last, hbuf, hlast, hp, hlen => by
    obtain ⟨hpos, _⟩ := List.getElem?_eq_some_iff.mp hlast
    -- one more redundancy packet
    let coeff := randCoeff originalBlockSize (rand var)
    let size := buf.ncVector.length
    let q : NcPdu := ⟨{ groupnum := s.nc.groupnum, coeff := coeff, sn := size % 256,
                        polling := if size + 1 = encodingBlockSize then 1 else 0 }, p⟩
    let buf₁ : NcEncodingBuffer := { buf with ncVector := buf.ncVector ++ [{ coff := coeffBits coeff }] }
    have hred : s.nc.makeRedundancePacket (rand var) = some (s.nc.setEncoding s.nc.groupnum buf₁, q) := by
      simp [makeRedundancePacket, hbuf, hlast, hp, q, buf₁, coeff, size]
    let s₁ : LtePdcp := { s with nc := s.nc.setEncoding s.nc.groupnum buf₁ }
    obtain ⟨t₁, t₂, t₃, t₄⟩ := toogleSend_spec s₁ q 0
    have henc : (s₁.toogleSend q 0).1.nc.encoding (s₁.toogleSend q 0).1.nc.groupnum = some buf₁ := by
      rw [t₁]
      exact (encoding_setEncoding ..).trans (if_pos rfl)
    have hlast₁ : buf₁.ncVector[originalBlockSize - 1]? = some last := by
      rw [getElem?_append_left hpos, hlast]
    have hlen₁ : buf₁.ncVector.length + n ≤ 256 := by
      simp only [buf₁, length_append, length_singleton]; omega
    obtain ⟨s', os, new, hloop, hmode, hg, hdec, hnew, henc', hups, hdlen, hdowns⟩ :=
      redundancyLoop_spec rand n (var + 1) (s₁.toogleSend q 0).1 henc hlast₁ hp hlen₁
    have hg₁ : (s₁.toogleSend q 0).1.nc.groupnum = s.nc.groupnum := by rw [t₁]; rfl
    have hmode₁ : SameMode s s₁ := ⟨rfl, rfl, rfl⟩
    refine ⟨s', (s₁.toogleSend q 0).2 :: os, { coff := coeffBits coeff } :: new, ?_,
      (hmode₁.trans t₂).trans hmode, hg.trans hg₁, ?_, by simp [hnew], ?_, ?_, ?_, ?_⟩
    · unfold redundancyLoop
      simp only [hred, bind_eq_bind, bind_some]
      rw [hloop]; rfl
    · intro g
      rw [hdec, t₁]; rfl
    · intro g
      rw [henc', hg₁, t₁]
      split
      · simp [buf₁]
      · rename_i hne
        exact (encoding_setEncoding ..).trans (if_neg hne)
    · rw [ups_cons, t₃, hups]; rfl
    · rw [downs_cons, t₄, length_append, hdlen, length_singleton, Nat.add_comm]
    · intro r hr
      rw [downs_cons, t₄] at hr
      rcases mem_append.mp hr with hr | hr
      · rw [mem_singleton] at hr
        subst hr
        refine ⟨rfl, rfl, ?_, rfl⟩
        change originalBlockSize ≤ size % 256
        omega
      · rw [hg₁] at hdowns
        exact hdowns r hr

def encVector (c : NcControl) (g : Nat) : List NcPara := ((c.encoding g).getD {}).ncVector

/-- **An SDU in network-coding mode** goes to the end of the current group; the
tenth one is followed by the redundancy packets and closes the group. -/
theorem ncTransmit_spec (hmode : s.ncEnable = true) (p : Packet) (rand : Nat → Nat → Nat)
    (hroom : (encVector s.nc s.nc.groupnum).length < originalBlockSize) :
    ∃ s' o para new q qs, s.triggerDoTransmitPdcpSdu p rand = some (s', o) ∧ SameMode s s' ∧
    (∀ g, s'.nc.decoding g = s.nc.decoding g) ∧ para.p = some p.readdHeaders ∧ (∀ g, encVector s'.nc g =
        if g = s.nc.groupnum then encVector s.nc g ++ para :: new else encVector s.nc g) ∧
    (∀ g, g ≠ s.nc.groupnum → s'.nc.encoding g = s.nc.encoding g) ∧ ups o = [] ∧ downs o = q :: qs ∧
      q.header.dorC = 0 ∧ q.header.groupnum = s.nc.groupnum ∧
      q.header.sn = (encVector s.nc s.nc.groupnum).length ∧ q.packet = p.readdHeaders ∧
    (((encVector s.nc s.nc.groupnum).length + 1 < originalBlockSize ∧ new = [] ∧ qs = [] ∧
          s'.nc.groupnum = s.nc.groupnum) ∨
    ((encVector s.nc s.nc.groupnum).length + 1 = originalBlockSize ∧ new.length = 2 ∧ qs.length = 2 ∧
    (∀ r ∈ qs, Repeats s.nc.groupnum p.readdHeaders r) ∧ s'.nc.groupnum = s.nc.groupnum + 1)) := by
  let g := s.nc.groupnum
  let buf := (s.nc.encoding g).getD {}
  let size := buf.ncVector.length
  have hsize : size < originalBlockSize := hroom
  have hmod : size % 256 = size := Nat.mod_eq_of_lt (hsize.trans (by decide))
  let p' := p.readdHeaders
  let para : NcPara := { p := some p', coff := coeffBits (1 <<< (64 - 1 - size)), israwpacket := 1, sn := size % 256 }
  let q : NcPdu := ⟨{ groupnum := g, sn := size % 256, israwpacket := 1, coeff := 1 <<< (64 - 1 - size) }, p'⟩
  let buf₁ : NcEncodingBuffer := { buf with ncVector := buf.ncVector ++ [para] }
  have hsend : s.nc.sendSaveAndSetTime p = some (s.nc.setEncoding g buf₁, q) :=
    if_neg (Nat.not_le.mpr (hsize.trans (by decide)))
  let s₁ : LtePdcp := { s with nc := s.nc.setEncoding g buf₁ }
  have henc₁ : s₁.nc.encoding g = some buf₁ := (encoding_setEncoding ..).trans (if_pos rfl)
  have hlen₁ : buf₁.ncVector.length = size + 1 := by simp [buf₁, size]
  have hnced : s₁.nc.getNcedSize = some (size + 1) := by
    change (s₁.nc.encoding g).map _ = _
    rw [henc₁, map_some, hlen₁]
  obtain ⟨t₁, t₂, t₃, t₄⟩ := toogleSend_spec s₁ q 0
  have hmode₁ : SameMode s (s₁.toogleSend q 0).1 := SameMode.trans (b := s₁) ⟨rfl, rfl, rfl⟩ t₂
  have hoff : ∀ g', g' ≠ g → s₁.nc.encoding g' = s.nc.encoding g' := fun g' hne =>
    (encoding_setEncoding ..).trans (if_neg hne)
  -- only the last SDU of a group makes redundancy packets
  by_cases hfull : size + 1 = originalBlockSize
  · have hlast : buf₁.ncVector[originalBlockSize - 1]? = some para := by
      have : originalBlockSize - 1 = buf.ncVector.length := by omega
      rw [this]; simp [buf₁]
    have henc₂ : (s₁.toogleSend q 0).1.nc.encoding (s₁.toogleSend q 0).1.nc.groupnum = some buf₁ := by
      rw [t₁]; exact henc₁
    obtain ⟨s', os, new, hloop, hmode₂, hg, hdec, hnew, henc, hups, hdlen, hdowns⟩ :=
      redundancyLoop_spec rand 2 0 (s₁.toogleSend q 0).1 henc₂ hlast rfl (by rw [hlen₁, hfull]; decide)
    have hgr₁ : s₁.nc.groupnum = g := rfl
    rw [t₁] at hg hdec henc hdowns
    rw [hgr₁] at hg hdowns henc
    refine ⟨{ s' with nc := { s'.nc with groupnum := s'.nc.groupnum + 1 }, ncRlcToSend := s'.ncRlcToSend % 2 },
      (s₁.toogleSend q 0).2 :: os, para, new, q, downs os, ?_, ?_, hdec, rfl, ?_, ?_, ?_, ?_, rfl, rfl, hmod, rfl,
      .inr ⟨hfull, hnew, hdlen, hdowns, congrArg (· + 1) hg⟩⟩
    · unfold triggerDoTransmitPdcpSdu
      rw [if_pos hmode]
      rw [hsend]
      change (s₁.nc.getNcedSize).bind _ = _
      rw [hnced, bind_some]
      change (if size + 1 = originalBlockSize then (redundancyLoop rand 2 0 (s₁.toogleSend q 0).1).bind _ else _) = _
      rw [if_pos hfull, hloop, bind_some]
      exact if_pos (by rw [hfull]; rfl)
    · exact hmode₁.trans ⟨hmode₂.ncEnable, hmode₂.copyEnable, hmode₂.copy⟩
    · intro g'
      change ((s'.nc.encoding g').getD {}).ncVector = _
      rw [henc]
      by_cases hg' : g' = g
      · rw [if_pos hg', if_pos hg', hg']
        simp [buf₁, encVector, buf]
      · rw [if_neg hg', if_neg hg', hoff g' hg', encVector]
    · intro g' hg'
      exact (henc g').trans ((if_neg hg').trans (hoff g' hg'))
    · rw [ups_cons, t₃, hups]; rfl
    · rw [downs_cons, t₄]; rfl
  · refine ⟨(s₁.toogleSend q 0).1, [(s₁.toogleSend q 0).2], para, [], q, [], ?_, hmode₁, ?_, rfl, ?_, ?_, t₃, t₄,
      rfl, rfl, hmod, rfl, .inl ⟨Nat.lt_of_le_of_ne hsize hfull, rfl, rfl, by rw [t₁]; rfl⟩⟩
    · unfold triggerDoTransmitPdcpSdu
      rw [if_pos hmode]
      rw [hsend]
      change (s₁.nc.getNcedSize).bind _ = _
      rw [hnced, bind_some]
      exact if_neg hfull
    · intro g'
      rw [t₁]; rfl
    · intro g'
      rw [t₁, encVector]
      by_cases hg' : g' = g
      · rw [if_pos hg', hg', henc₁]
        simp [buf₁, encVector, buf]
      · rw [if_neg hg', hoff g' hg', encVector]
    · intro g' hg'
      rw [t₁]; exact hoff g' hg'

/-! ## Answering a report -/

/-- The `i`-th retransmission for a report with rank `rank`. -/
def reply (g rank : Nat) (p : Packet) (rand : Nat → Nat → Nat) (i : Nat) : NcPdu :=
  ⟨{ polling := if i = originalBlockSize - 1 - rank then 1 else 0, groupnum := g,
     coeff := randCoeff originalBlockSize (rand i) }, p⟩

theorem reply_repeats (g rank : Nat) (p : Packet) (rand : Nat → Nat → Nat) (i : Nat) :
    Repeats g p (reply g rank p rand i) :=
  ⟨rfl, rfl, by change 10 ≤ 255; decide, rfl⟩

theorem arqLoop_eq (g rank : Nat) {para : NcPara} (hp : para.p = some p) (rand : Nat → Nat → Nat) :
    ∀ n i, arqLoop g rank (some para) rand n i = some ((List.range' i n).map (reply g rank p rand))
  | 0, _ => rfl
  | n + 1, i => by
    simp only [arqLoop, hp, arqLoop_eq g rank hp rand n (i + 1), Option.bind_eq_bind, Option.bind_some]
    rfl

theorem arqLoop_repeats {g rank : Nat} {last : Option NcPara} :
    ∀ {n i : Nat} {qs : List NcPdu}, arqLoop g rank last rand n i = some qs →
    ∀ q ∈ qs, ∃ p, last.bind NcPara.p = some p ∧ Repeats g p q
  | 0, _, qs, h, q, hq => by
    cases h
    cases hq
  | n + 1, i, qs, h, q, hq => by
    cases hlast : last with
    | none => simp [arqLoop, hlast] at h
    | some para =>
      cases hp : para.p with
      | none => simp [arqLoop, hlast, hp] at h
      | some p =>
        rw [hlast, arqLoop_eq g rank hp] at h
        cases h
        obtain ⟨k, _, rfl⟩ := List.mem_map.mp hq
        exact ⟨p, hp, reply_repeats ..⟩

section
variable {c : NcControl} {q : NcPdu} {rand : Nat → Nat → Nat}

theorem makeNcArqSendPacket_none (h : c.encoding q.header.groupnum = none) :
    ({ c with ifRecvArq := true } : NcControl).makeNcArqSendPacket q rand =
      some ({ c with ifRecvArq := true }, []) := by
  have h' : ({ c with ifRecvArq := true } : NcControl).encoding q.header.groupnum = none := h
  simp only [makeNcArqSendPacket, h']

theorem makeNcArqSendPacket_some {buf : NcEncodingBuffer} (h : c.encoding q.header.groupnum = some buf) :
    ({ c with ifRecvArq := true } : NcControl).makeNcArqSendPacket q rand =
      (arqLoop q.header.groupnum q.header.rank buf.ncVector[originalBlockSize - 1]? rand
        (originalBlockSize - q.header.rank) 0).bind fun packets =>
      some (({ c with ifRecvArq := true } : NcControl).setEncoding q.header.groupnum
        { buf with nackNum := (buf.nackNum + 1) % 256 }, packets) := by
  have h' : ({ c with ifRecvArq := true } : NcControl).encoding q.header.groupnum = some buf := h
  simp only [makeNcArqSendPacket, h', bind_eq_bind]

end

theorem ncRecv_status_eq (hq : q.header.dorC = 1) (rand : Nat → Nat → Nat) :
    s.ncRecv q rand = (({ s.nc with ifRecvArq := true } : NcControl).makeNcArqSendPacket q rand).bind fun r =>
      some (sendAll (fun s q => s.toogleSend q 1) { s with nc := r.1 } r.2) := by
  unfold ncRecv
  rw [recvAndSave_status hq]
  rfl

/-- **A status report in network-coding mode** is answered with repeats of the
group's last SDU; the group counter and all vectors stay. -/
theorem ncRecv_status {o : List PdcpOut} (hq : q.header.dorC = 1) (h : s.ncRecv q rand = some (s', o)) :
    s'.nc.groupnum = s.nc.groupnum ∧ (∀ g, s'.nc.decoding g = s.nc.decoding g) ∧
    (∀ g, encVector s'.nc g = encVector s.nc g) ∧ SameMode s s' ∧ ups o = [] ∧
    ∀ r ∈ downs o, ∃ p, (encVector s.nc q.header.groupnum)[originalBlockSize - 1]?.bind NcPara.p = some p ∧
      Repeats q.header.groupnum p r := by
  rw [ncRecv_status_eq hq] at h
  obtain ⟨⟨c, qs⟩, hmake, h⟩ := bind_eq_some_iff.mp h
  obtain ⟨t₁, t₂, t₃, t₄⟩ := sendAll_spec 1 qs { s with nc := c }
  have hs := Option.some.inj h
  rw [hs] at t₁ t₂ t₃ t₄
  have hmode : SameMode s s' := ⟨t₂.ncEnable, t₂.copyEnable, t₂.copy⟩
  cases henc : s.nc.encoding q.header.groupnum with
  | none =>
    rw [makeNcArqSendPacket_none henc] at hmake
    cases hmake
    refine ⟨by rw [t₁], fun _ => by rw [t₁]; rfl, fun _ => by rw [t₁]; rfl, hmode, t₃, ?_⟩
    intro r hr
    rw [t₄] at hr
    cases hr
  | some buf =>
    rw [makeNcArqSendPacket_some henc] at hmake
    obtain ⟨packets, hloop, hmake⟩ := bind_eq_some_iff.mp hmake
    cases hmake
    refine ⟨by rw [t₁]; rfl, fun _ => by rw [t₁]; rfl, ?_, hmode, t₃, ?_⟩
    · intro g
      rw [t₁]
      change (((NcControl.setEncoding _ _ _).encoding g).getD {}).ncVector = _
      rw [encoding_setEncoding]
      split
      · rename_i hg
        rw [hg, encVector, henc]; rfl
      · rfl
    · intro r hr
      rw [t₄] at hr
      rw [encVector, henc]
      exact arqLoop_repeats hloop r hr

theorem ncRecv_status_reply {buf : NcEncodingBuffer} {para : NcPara}
    (hq : q.header.dorC = 1) (henc : s.nc.encoding q.header.groupnum = some buf)
    (hlast : buf.ncVector[originalBlockSize - 1]? = some para) (hp : para.p = some p) (rand : Nat → Nat → Nat) :
    ∃ s' o, s.ncRecv q rand = some (s', o) ∧ downs o = (List.range (originalBlockSize - q.header.rank)).map
    (reply q.header.groupnum q.header.rank p rand) := by
  let qs := (range (originalBlockSize - q.header.rank)).map (reply q.header.groupnum q.header.rank p rand)
  let c : NcControl := { s.nc with ifRecvArq := true }
  have hmake : c.makeNcArqSendPacket q rand =
      some (c.setEncoding q.header.groupnum { buf with nackNum := (buf.nackNum + 1) % 256 }, qs) := by
    have hloop := arqLoop_eq q.header.groupnum q.header.rank hp rand (originalBlockSize - q.header.rank) 0
    rw [makeNcArqSendPacket_some henc, hlast, hloop, bind_some]
    simp only [c, qs, range_eq_range']
  rw [ncRecv_status_eq hq, hmake]
  exact ⟨_, _, rfl, (sendAll_spec 1 qs _).2.2.2⟩

end LtePdcp

end Ns3
