import Ns3.Lte.CopySound

/-!
# The sending side of an entity

Sender and receiver share the group counter: a data PDU overwrites it. As long
as every received data PDU belongs to a group the sender may still fill, SDUs
go out under pairwise distinct (group, SN) pairs in ascending group order. Both
modes are treated at once, through the vectors of sent packets per group.
-/

namespace Ns3

open NcControl List

namespace LtePdcp

open Machine

/-! ## The sender in either mode -/

def block (s : LtePdcp) : Nat :=
  if s.ncEnable then originalBlockSize else CopyControl.originalBlockSize

def txGroup (s : LtePdcp) : Nat :=
  if s.ncEnable then s.nc.groupnum else s.copy.groupnum

def txVector (s : LtePdcp) (g : Nat) : List NcPara :=
  if s.ncEnable then encVector s.nc g else copyEncVector s.copy g

def sentGroups (s : LtePdcp) : List Nat :=
  if s.ncEnable then s.nc.ncEncodingBufferList.entries.map Prod.fst
  else s.copy.ncEncodingBufferList.entries.map Prod.fst

/-- The sender may still put an SDU into group `g`: it has sent nothing in a
later group, and `g` is not full. -/
def HasRoom (s : LtePdcp) (g : Nat) : Prop :=
  (∀ g' ∈ s.sentGroups, g' ≤ g) ∧ (s.txVector g).length < s.block

instance (s : LtePdcp) (g : Nat) : Decidable (s.HasRoom g) := by
  unfold HasRoom; infer_instance

/-- Every data PDU received belongs to a group with room. -/
def keepsRoom : LtePdcp → Event → Prop
  | s, .receive q _ => q.header.dorC = 1 ∨ s.HasRoom q.header.groupnum
  | _, _ => True

instance : ∀ (s : LtePdcp) (e : Event), Decidable (keepsRoom s e)
  | s, .receive q _ => inferInstanceAs (Decidable (q.header.dorC = 1 ∨ s.HasRoom q.header.groupnum))
  | _, .transmit _ _ => .isTrue trivial
  | _, .ncTimer _ => .isTrue trivial
  | _, .copyTimer _ => .isTrue trivial

variable {s : LtePdcp} {ncEnable copyEnable : Bool}

theorem txVector_of_not_sent {g : Nat} (h : g ∉ s.sentGroups) : s.txVector g = [] := by
  unfold txVector
  unfold sentGroups at h
  split
  · rename_i hm
    rw [if_pos hm] at h
    cases hf : s.nc.encoding g with
    | none => simp [encVector, hf]
    | some buf => exact absurd (List.mem_map_of_mem (f := Prod.fst) (lookupEntry_mem hf)) h
  · rename_i hm
    rw [if_neg hm] at h
    cases hf : s.copy.encoding g with
    | none => simp [copyEncVector, hf]
    | some buf => exact absurd (List.mem_map_of_mem (f := Prod.fst) (lookupEntry_mem hf)) h

theorem HasRoom.above {g : Nat} (h : s.HasRoom g) {g' : Nat} (hg : g < g') : s.txVector g' = [] :=
  txVector_of_not_sent fun hmem => absurd (h.1 g' hmem) (Nat.not_le.mpr hg)

/-- `q` carries the packet the sender keeps for its group and SN; all SNs from
the block size on stand for the last packet. -/
def Carries (s : LtePdcp) (q : NcPdu) : Prop :=
  (s.txVector q.header.groupnum)[min q.header.sn (s.block - 1)]?.bind NcPara.p = some q.packet

/-! ## What a step does to the sender -/

/-- An SDU was appended to the current group, with its headers added again. -/
structure Pushed (s s' : LtePdcp) (p : Packet) (o : List PdcpOut) : Prop where
  block : s'.block = s.block
  vector : ∃ para new, para.p = some p.readdHeaders ∧ ∀ g,
    s'.txVector g = if g = s.txGroup then s.txVector g ++ para :: new else s.txVector g
  next : (s'.txGroup = s.txGroup ∧ (s'.txVector s.txGroup).length < s.block) ∨ s'.txGroup = s.txGroup + 1
  pdus : ∃ q qs, downs o = q :: qs ∧ q.header.groupnum = s.txGroup ∧
    q.header.sn = (s.txVector s.txGroup).length ∧ q.packet = p.readdHeaders ∧
    ∀ r ∈ qs, r.header.dorC = 1 ∨ Carries s' r

/-- Nothing was appended; the counter now stands at `g`. -/
structure Moved (s s' : LtePdcp) (g : Nat) (o : List PdcpOut) : Prop where
  block : s'.block = s.block
  vector : ∀ g, s'.txVector g = s.txVector g
  group : s'.txGroup = g
  pdus : ∀ r ∈ downs o, r.header.dorC = 1 ∨ Carries s r

/-- Timers of network coding are scheduled with the copy-mode callback. -/
def NcTimers (c : NcControl) : Prop :=
  ∀ g t, (c.bufferOf g).statusReportTimer = some t → ∃ g' q, t = .copyExpire g' q

inductive ModeInv (s : LtePdcp) : Prop
  | nc (ncEnable : s.ncEnable = true) (copy : ∀ g, s.copy.decoding g = none) (timers : NcTimers s.nc)
  | copy (R : Nat → Prop) (ncEnable : s.ncEnable = false) (copyEnable : s.copyEnable = true)
      (nc : ∀ g, s.nc.decoding g = none) (rx : s.copy.CopyRx R) (tx : CopyTx s.copy)

theorem modeInv_init (h : ncEnable = true ∨ copyEnable = true)
    (flags : Bool × Bool × Bool × Bool) : ModeInv (init ncEnable copyEnable flags) := by
  cases ncEnable with
  | true => exact .nc rfl (fun _ => rfl) fun _ _ ht => nomatch ht
  | false =>
    obtain rfl : copyEnable = true := by simpa using h
    have hi := copyInv_init flags
    exact .copy _ rfl rfl hi.nc hi.rx hi.tx

section
variable {s s' : LtePdcp} {o : List PdcpOut}

theorem txGroup_nc (h : s.ncEnable = true) : s.txGroup = s.nc.groupnum := if_pos h

theorem txGroup_copy (h : s.ncEnable = false) : s.txGroup = s.copy.groupnum := if_neg (by simp [h])

theorem txVector_nc (h : s.ncEnable = true) (g : Nat) : s.txVector g = encVector s.nc g := if_pos h

theorem txVector_copy (h : s.ncEnable = false) (g : Nat) : s.txVector g = copyEncVector s.copy g :=
  if_neg (by simp [h])

theorem block_nc (h : s.ncEnable = true) : s.block = originalBlockSize := if_pos h

theorem block_copy (h : s.ncEnable = false) : s.block = CopyControl.originalBlockSize := if_neg (by simp [h])

variable {q : NcPdu}

theorem carries_of_repeats (hm : s.ncEnable = true) {g : Nat} {p : Packet} (hq : Repeats g p q)
    (hp : (encVector s.nc g)[originalBlockSize - 1]?.bind NcPara.p = some p) : Carries s q := by
  unfold Carries
  rw [txVector_nc hm, block_nc hm, hq.group, hq.packet]
  have : min q.header.sn (originalBlockSize - 1) = originalBlockSize - 1 := by
    have := hq.sn
    omega
  rw [this, hp]

theorem carries_of_first (hm : s.ncEnable = false) {g : Nat} (hg : q.header.groupnum = g)
    (hp : (copyEncVector s.copy g)[CopyControl.originalBlockSize - 1]?.bind NcPara.p = some q.packet) :
    Carries s q := by
  unfold Carries
  have : min q.header.sn (CopyControl.originalBlockSize - 1) = CopyControl.originalBlockSize - 1 :=
    Nat.min_eq_right (Nat.zero_le _)
  rw [txVector_copy hm, block_copy hm, hg, this, hp]

theorem transmit_pushed (hm : ModeInv s) (hroom : (s.txVector s.txGroup).length < s.block) {p : Packet}
    {rand : Nat → Nat → Nat} (h : s.step (.transmit p rand) = some (s', o)) : ModeInv s' ∧ Pushed s s' p o := by
  cases hm with
  | nc hnc hcopy htimers =>
    rw [txGroup_nc hnc, txVector_nc hnc, block_nc hnc] at hroom
    obtain ⟨s₁, o₁, para, new, q, qs, hstep, hmode, hdec, hp, hvec, _, _, hdowns, _, hqg, hqsn, hqp, hnext⟩ :=
      ncTransmit_spec hnc p rand hroom
    obtain ⟨rfl, rfl⟩ := Prod.mk.inj (Option.some.inj (hstep.symm.trans h))
    have hnc₁ : s₁.ncEnable = true := hmode.ncEnable.trans hnc
    refine ⟨.nc hnc₁ (fun g => by rw [hmode.copy]; exact hcopy g) ?_, ?_, ⟨para, new, hp, ?_⟩, ?_,
      ⟨q, qs, hdowns, ?_, ?_, hqp, ?_⟩⟩
    · intro g t ht
      refine htimers g t ?_
      unfold bufferOf at ht ⊢
      rw [← hdec g]; exact ht
    · rw [block_nc hnc, block_nc hnc₁]
    · intro g
      rw [txVector_nc hnc₁, txGroup_nc hnc, txVector_nc hnc, hvec]
    · rw [txGroup_nc hnc₁, txGroup_nc hnc, txVector_nc hnc₁, block_nc hnc, hvec, if_pos rfl]
      rcases hnext with ⟨hlt, rfl, _, hg⟩ | ⟨_, _, _, _, hg⟩
      · exact .inl ⟨hg, by simpa using hlt⟩
      · exact .inr hg
    · rw [hqg, txGroup_nc hnc]
    · rw [hqsn, txVector_nc hnc, txGroup_nc hnc]
    · intro r hr
      rcases hnext with ⟨_, _, rfl, _⟩ | ⟨hfull, _, _, hrep, _⟩
      · cases hr
      · refine .inr (carries_of_repeats hnc₁ (hrep r hr) ?_)
        have hlast : originalBlockSize - 1 = (encVector s.nc s.nc.groupnum).length := by omega
        rw [hvec, if_pos rfl, hlast, getElem?_append_right (Nat.le_refl _), Nat.sub_self]
        exact hp
  | copy R hnc hcopy hempty hrx htx =>
    rw [txGroup_copy hnc, txVector_copy hnc, block_copy hnc] at hroom
    have hlen : (copyEncVector s.copy s.copy.groupnum).length = 0 := Nat.lt_one_iff.mp hroom
    obtain ⟨s₁, o₁, para, new, q₁, q₂, hstep, hmode, hg, _, _, hdec, hstat, htx₁, hp, hvec, _, hdowns, hqg, hqsn, hqp,
      hq₂g, hq₂⟩ := copyTransmit_spec hnc hcopy htx p rand
    obtain ⟨rfl, rfl⟩ := Prod.mk.inj (Option.some.inj (hstep.symm.trans h))
    have hnc₁ : s₁.ncEnable = false := hmode.ncEnable.trans hnc
    have hrx₁ : s₁.copy.CopyRx R := by
      refine ⟨hstat ▸ hrx.stat, fun g buf hb => hrx.buffer g buf (hdec g ▸ hb), fun g => ?_⟩
      rw [hdec]; exact hrx.seen g
    refine ⟨.copy R hnc₁ (hmode.copyEnable.trans hcopy) (fun g => by rw [hmode.nc]; exact hempty g) hrx₁ htx₁,
      ?_, ⟨para, [new], hp, ?_⟩, ?_, ⟨q₁, [q₂], hdowns, ?_, ?_, hqp, ?_⟩⟩
    · rw [block_copy hnc, block_copy hnc₁]
    · intro g
      rw [txVector_copy hnc₁, txGroup_copy hnc, txVector_copy hnc, hvec]
    · rw [txGroup_copy hnc₁, txGroup_copy hnc]
      exact .inr hg
    · rw [hqg, txGroup_copy hnc]
    · rw [hqsn, txVector_copy hnc, txGroup_copy hnc, hlen]
    · intro r hr
      rw [mem_singleton] at hr
      subst hr
      exact .inr (carries_of_first hnc₁ hq₂g hq₂)

theorem ncTimers_of_scanned {c c' : NcControl} {b : NcDecodingBuffer} (h : NcTimers c)
    (hs : ∀ g, Scanned (midBuffer c q b g) (c'.bufferOf g)) : NcTimers c' := by
  intro g t ht
  rcases (hs g).timer t ht with ht | ht
  · unfold midBuffer at ht
    split at ht
    · cases ht
    · exact h g t ht
  · exact ht

theorem receive_moved (hm : ModeInv s) {rand : Nat → Nat → Nat} (h : s.step (.receive q rand) = some (s', o)) :
    ModeInv s' ∧ Moved s s' (if q.header.dorC = 1 then s.txGroup else q.header.groupnum) o := by
  change s.triggerRecvPdcpSdu q rand = _ at h
  unfold triggerRecvPdcpSdu at h
  cases hm with
  | nc hnc hcopy htimers =>
    rw [if_pos hnc] at h
    by_cases hq : q.header.dorC = 1
    · obtain ⟨hg, hdec, hvec, hmode, _, hpdus⟩ := ncRecv_status hq h
      have hnc' : s'.ncEnable = true := hmode.ncEnable.trans hnc
      refine ⟨.nc hnc' (fun g => by rw [hmode.copy]; exact hcopy g) ?_, ?_, ?_, ?_, ?_⟩
      · intro g t ht
        refine htimers g t ?_
        unfold bufferOf at ht ⊢
        rw [← hdec g]; exact ht
      · rw [block_nc hnc, block_nc hnc']
      · intro g
        rw [txVector_nc hnc, txVector_nc hnc', hvec]
      · rw [if_pos hq, txGroup_nc hnc, txGroup_nc hnc', hg]
      · intro r hr
        obtain ⟨p, hp, hrep⟩ := hpdus r hr
        exact .inr (carries_of_repeats hnc hrep hp)
    · obtain ⟨b, _, _, _, hg, henc, hmode, hscan, hreports⟩ := ncRecv_data hq h
      have hnc' : s'.ncEnable = true := hmode.ncEnable.trans hnc
      refine ⟨.nc hnc' (fun g => by rw [hmode.copy]; exact hcopy g) (ncTimers_of_scanned htimers hscan), ?_, ?_, ?_, ?_⟩
      · rw [block_nc hnc, block_nc hnc']
      · intro g
        rw [txVector_nc hnc, txVector_nc hnc', encVector, henc, encVector]
      · rw [if_neg hq, txGroup_nc hnc', hg]
      · intro r hr
        obtain ⟨i, _, _, rfl⟩ := hreports r hr
        exact .inl rfl
  | copy R hnc hcopy hempty hrx htx =>
    rw [if_neg (by simp [hnc]), if_pos hcopy] at h
    by_cases hq : q.header.dorC = 1
    · obtain ⟨hrx', hmode, hg, _, _, _, hvec, htx', hpdus⟩ := copyRecv_status hrx hq h
      have hnc' : s'.ncEnable = false := hmode.ncEnable.trans hnc
      refine ⟨.copy R hnc' (hmode.copyEnable.trans hcopy) (fun g => by rw [hmode.nc]; exact hempty g) hrx' (htx' htx),
        ?_, ?_, ?_, ?_⟩
      · rw [block_copy hnc, block_copy hnc']
      · intro g
        rw [txVector_copy hnc, txVector_copy hnc', hvec]
      · rw [if_pos hq, txGroup_copy hnc, txGroup_copy hnc', hg]
      · intro r hr
        rcases hpdus r hr with hstatus | ⟨hrg, hrp⟩
        · exact .inl hstatus
        · exact .inr (carries_of_first hnc hrg hrp)
    · obtain ⟨s₁, o₁, hstep, hrx', hmode, hg, henc, _, _, _, hreports⟩ := copyRecv_data hrx hq
      obtain ⟨rfl, rfl⟩ := Prod.mk.inj (Option.some.inj (hstep.symm.trans h))
      have hnc' : s₁.ncEnable = false := hmode.ncEnable.trans hnc
      have htx' : CopyTx s₁.copy := fun g buf hb => htx g buf (henc g ▸ hb)
      refine ⟨.copy _ hnc' (hmode.copyEnable.trans hcopy) (fun g => by rw [hmode.nc]; exact hempty g) hrx' htx',
        ?_, ?_, ?_, fun r hr => .inl (hreports r hr)⟩
      · rw [block_copy hnc, block_copy hnc']
      · intro g
        rw [txVector_copy hnc, txVector_copy hnc', copyEncVector, henc, copyEncVector]
      · rw [if_neg hq, txGroup_copy hnc', hg]

theorem expireNc_none (hcopy : ∀ g, s.copy.decoding g = none) (ht : NcTimers s.nc) (g : Nat) : s.expireNc g = none := by
  unfold expireNc
  cases hbuf : s.nc.decoding g with
  | none => rfl
  | some buf =>
    cases htimer : buf.statusReportTimer with
    | none => simp [htimer]
    | some t =>
      obtain ⟨g', q, rfl⟩ := ht g t (by rw [bufferOf_of_decoding hbuf, htimer])
      simp only [htimer, Option.bind_eq_bind, Option.bind_some, expireStatusReportTimer, copyExpireStatusReportTimer]
      rw [hcopy, Option.bind_none]

theorem timer_moved (hm : ModeInv s) {e : Event} (he : (∃ g, e = .ncTimer g) ∨ ∃ g, e = .copyTimer g)
    (h : s.step e = some (s', o)) : ModeInv s' ∧ Moved s s' s.txGroup o := by
  cases hm with
  | nc hnc hcopy htimers =>
    exfalso
    rcases he with ⟨g, rfl⟩ | ⟨g, rfl⟩
    · rw [show s.step (.ncTimer g) = none from expireNc_none hcopy htimers g] at h
      cases h
    · obtain ⟨buf, hbuf, _⟩ := expireCopy_armed h
      rw [hcopy] at hbuf; cases hbuf
  | copy R hnc hcopy hempty hrx htx =>
    rcases he with ⟨g, rfl⟩ | ⟨g, rfl⟩
    · exfalso
      change s.expireNc g = _ at h
      simp [expireNc, hempty g] at h
    · obtain ⟨buf, hbuf, harmed⟩ := expireCopy_armed h
      obtain ⟨s₁, o₁, hstep, hrx', hk, hmode, _, hreports⟩ := expireCopy_total hrx hbuf harmed
      obtain ⟨rfl, rfl⟩ := Prod.mk.inj (Option.some.inj (hstep.symm.trans h))
      have hnc' : s₁.ncEnable = false := hmode.ncEnable.trans hnc
      have htx' : CopyTx s₁.copy := fun g buf hb => htx g buf (hk.encoding g ▸ hb)
      refine ⟨.copy _ hnc' (hmode.copyEnable.trans hcopy) (fun g => by rw [hmode.nc]; exact hempty g) hrx' htx',
        ?_, ?_, ?_, fun r hr => .inl (hreports r hr)⟩
      · rw [block_copy hnc, block_copy hnc']
      · intro g
        rw [txVector_copy hnc, txVector_copy hnc', copyEncVector, hk.encoding, copyEncVector]
      · rw [txGroup_copy hnc, txGroup_copy hnc', hk.groupnum]

end

/-! ## Runs -/

def submitted (tr : List (Event × List PdcpOut)) : List Packet :=
  tr.filterMap fun r =>
    match r.1 with
    | .transmit p _ => some p
    | _ => none

/-- The PDU each submitted SDU was first sent in. -/
def ownPdus (tr : List (Event × List PdcpOut)) : List NcPdu :=
  tr.filterMap fun r =>
    match r.1 with
    | .transmit _ _ => (downs r.2).head?
    | _ => none

/-- The data PDUs passed down in a trace, retransmissions included. -/
def dataPdus (tr : List (Event × List PdcpOut)) : List NcPdu :=
  (downs (outputs tr)).filter fun q => q.header.dorC ≠ 1

def pairOf (q : NcPdu) : Nat × Nat := (q.header.groupnum, q.header.sn)

/-- What a trace has put out, against the vectors of the sender. -/
structure TxInv (tr : List (Event × List PdcpOut)) (s : LtePdcp) : Prop where
  mode : ModeInv s
  above : ∀ g, s.txGroup < g → s.txVector g = []
  room : (s.txVector s.txGroup).length < s.block
  packets : (submitted tr).map Packet.readdHeaders = (ownPdus tr).map NcPdu.packet
  filed : ∀ q ∈ ownPdus tr, q.header.sn < (s.txVector q.header.groupnum).length
  nodup : ((ownPdus tr).map pairOf).Nodup
  ascending : (ownPdus tr).Pairwise fun q q' => q.header.groupnum ≤ q'.header.groupnum
  carries : ∀ q ∈ dataPdus tr, Carries s q

theorem mem_dataPdus_snoc {tr : List (Event × List PdcpOut)} {e : Event} {o : List PdcpOut} {q : NcPdu} :
    q ∈ dataPdus (tr ++ [(e, o)]) ↔ q ∈ dataPdus tr ∨ q ∈ downs o ∧ q.header.dorC ≠ 1 := by
  simp [dataPdus, outputs_snoc, filter_append]

section
variable {tr : List (Event × List PdcpOut)} {s s' : LtePdcp} {o : List PdcpOut}

theorem Carries.grow {q : NcPdu} (h : Carries s q) (hblock : s'.block = s.block)
    (hvec : ∃ l, s'.txVector q.header.groupnum = s.txVector q.header.groupnum ++ l) : Carries s' q := by
  obtain ⟨l, hl⟩ := hvec
  unfold Carries at h ⊢
  rw [hblock, hl]
  obtain ⟨para, hpara, _⟩ := Option.bind_eq_some_iff.mp h
  obtain ⟨hlt, _⟩ := List.getElem?_eq_some_iff.mp hpara
  rw [getElem?_append_left hlt, h]

theorem TxInv.push (hi : TxInv tr s) {p : Packet} {rand : Nat → Nat → Nat}
    (h : s.step (.transmit p rand) = some (s', o)) : TxInv (tr ++ [(.transmit p rand, o)]) s' := by
  obtain ⟨hmode, hpush⟩ := transmit_pushed hi.mode hi.room h
  obtain ⟨para, new, hp, hvec⟩ := hpush.vector
  obtain ⟨q, qs, hdowns, hqg, hqsn, hqp, hqs⟩ := hpush.pdus
  have hown : ownPdus (tr ++ [(.transmit p rand, o)]) = ownPdus tr ++ [q] := by
    simp [ownPdus, hdowns]
  have hsub : submitted (tr ++ [(.transmit p rand, o)]) = submitted tr ++ [p] := by
    simp [submitted]
  have hgrow : ∀ g, ∃ l, s'.txVector g = s.txVector g ++ l := by
    intro g
    rw [hvec]
    split
    · exact ⟨_, rfl⟩
    · exact ⟨[], (append_nil _).symm⟩
  -- every earlier PDU lies at or below the current group
  have hbelow : ∀ r ∈ ownPdus tr, r.header.groupnum ≤ s.txGroup := by
    intro r hr
    by_contra hgt
    have := hi.filed r hr
    rw [hi.above _ (Nat.not_le.mp hgt)] at this
    cases this
  have hq' : Carries s' q := by
    unfold Carries
    have hmin : min q.header.sn (s'.block - 1) = (s.txVector s.txGroup).length := by
      have := hi.room
      have := hpush.block
      rw [hqsn]; omega
    rw [hmin, hqg, hvec, if_pos rfl, getElem?_append_right (Nat.le_refl _), Nat.sub_self, hqp]
    exact hp
  refine ⟨hmode, ?_, ?_, ?_, ?_, ?_, ?_, ?_⟩
  · intro g hg
    have hlt : s.txGroup < g := by
      rcases hpush.next with ⟨he, _⟩ | he <;> omega
    rw [hvec, if_neg (by omega), hi.above g hlt]
  · rw [hpush.block]
    rcases hpush.next with ⟨he, hl⟩ | he
    · rw [he]; exact hl
    · rw [he, hvec, if_neg (by omega), hi.above _ (Nat.lt_succ_self _)]
      exact Nat.lt_of_le_of_lt (Nat.zero_le _) hi.room
  · rw [hown, hsub, map_append, map_append, ← hi.packets]
    exact congrArg ((submitted tr).map Packet.readdHeaders ++ [·]) hqp.symm
  · intro r hr
    rw [hown] at hr
    rcases mem_append.mp hr with hr | hr
    · obtain ⟨l, hl⟩ := hgrow r.header.groupnum
      rw [hl, length_append]
      have := hi.filed r hr
      omega
    · rw [mem_singleton] at hr
      subst hr
      rw [hqg, hqsn, hvec, if_pos rfl, length_append, length_cons]
      omega
  · rw [hown, map_append]
    refine nodup_append.mpr ⟨hi.nodup, by simp, ?_⟩
    intro a ha b hb heq
    obtain ⟨r, hr, rfl⟩ := List.mem_map.mp ha
    rw [map_singleton, mem_singleton, ← heq] at hb
    obtain ⟨hg, hsn⟩ := Prod.mk.inj hb
    have := hi.filed r hr
    rw [hg, hsn, hqg, hqsn] at this
    omega
  · rw [hown]
    refine pairwise_append.mpr ⟨hi.ascending, pairwise_singleton _ _, ?_⟩
    intro r hr r' hr'
    rw [mem_singleton] at hr'
    rw [hr', hqg]
    exact hbelow r hr
  · intro r hr
    rcases mem_dataPdus_snoc.mp hr with hr | ⟨hr, hdata⟩
    · exact (hi.carries r hr).grow hpush.block (hgrow _)
    · rw [hdowns] at hr
      rcases mem_cons.mp hr with rfl | hr
      · exact hq'
      · exact (hqs r hr).resolve_left hdata

theorem TxInv.move (hi : TxInv tr s) {e : Event} (he : ∀ p rand, e ≠ .transmit p rand) {g : Nat}
    (hmode : ModeInv s') (hmove : Moved s s' g o) (habove : ∀ g', g < g' → s.txVector g' = [])
    (hroom : (s.txVector g).length < s.block) : TxInv (tr ++ [(e, o)]) s' := by
  have hown : ownPdus (tr ++ [(e, o)]) = ownPdus tr ∧ submitted (tr ++ [(e, o)]) = submitted tr := by
    cases e with
    | transmit p rand => exact absurd rfl (he p rand)
    | receive q rand => simp [ownPdus, submitted]
    | ncTimer g => simp [ownPdus, submitted]
    | copyTimer g => simp [ownPdus, submitted]
  have hgrow : ∀ g, ∃ l, s'.txVector g = s.txVector g ++ l := fun g =>
    ⟨[], (hmove.vector g).trans (append_nil _).symm⟩
  refine ⟨hmode, ?_, ?_, ?_, ?_, ?_, ?_, ?_⟩
  · intro g' hg'
    rw [hmove.group] at hg'
    rw [hmove.vector]
    exact habove g' hg'
  · rw [hmove.group, hmove.vector, hmove.block]
    exact hroom
  · rw [hown.1, hown.2]; exact hi.packets
  · intro r hr
    rw [hown.1] at hr
    rw [hmove.vector]
    exact hi.filed r hr
  · rw [hown.1]; exact hi.nodup
  · rw [hown.1]; exact hi.ascending
  · intro r hr
    rcases mem_dataPdus_snoc.mp hr with hr | ⟨hr, hdata⟩
    · exact (hi.carries r hr).grow hmove.block (hgrow _)
    · exact ((hmove.pdus r hr).resolve_left hdata).grow hmove.block (hgrow _)

end

theorem txInv_init (h : ncEnable = true ∨ copyEnable = true)
    (flags : Bool × Bool × Bool × Bool) : TxInv [] (init ncEnable copyEnable flags) := by
  have hvec : ∀ g, (init ncEnable copyEnable flags).txVector g = [] := by
    intro g
    cases ncEnable <;> rfl
  refine ⟨modeInv_init h flags, fun g _ => hvec g, ?_, rfl, fun _ hq => (nomatch hq), nodup_nil,
    List.Pairwise.nil, fun _ hq => (nomatch hq)⟩
  rw [hvec]
  cases ncEnable with
  | true => exact Nat.zero_lt_succ 9
  | false => exact Nat.zero_lt_succ 0

/-- As long as there is room, pairs are distinct and groups never decrease. -/
theorem txInv_run (hmode : ncEnable = true ∨ copyEnable = true)
    {flags : Bool × Bool × Bool × Bool} {tr : List (Event × List PdcpOut)}
    (h : Run machine keepsRoom (init ncEnable copyEnable flags) tr s) : TxInv tr s := by
  refine Run.invariant TxInv (txInv_init hmode flags) ?_ h
  intro tr s e s' o hi hc hstep
  cases e with
  | transmit p rand => exact hi.push hstep
  | receive q rand =>
    obtain ⟨hm, hmove⟩ := receive_moved hi.mode hstep
    by_cases hq : q.header.dorC = 1
    · rw [if_pos hq] at hmove
      exact hi.move (by simp) hm hmove hi.above hi.room
    · rw [if_neg hq] at hmove
      have hroom : s.HasRoom q.header.groupnum := hc.resolve_left hq
      exact hi.move (by simp) hm hmove (fun _ => hroom.above) hroom.2
  | ncTimer g =>
    obtain ⟨hm, hmove⟩ := timer_moved hi.mode (.inl ⟨g, rfl⟩) hstep
    exact hi.move (by simp) hm hmove hi.above hi.room
  | copyTimer g =>
    obtain ⟨hm, hmove⟩ := timer_moved hi.mode (.inr ⟨g, rfl⟩) hstep
    exact hi.move (by simp) hm hmove hi.above hi.room

/-- **Outgoing SDUs stay apart.** In a run whose received data PDUs all belong
to groups with room, each SDU goes out under its own (group, SN) pair, groups
never decrease, and equal pairs always carry the same packet. -/
theorem pdcp_pairs_distinct {ncEnable copyEnable : Bool} (hmode : ncEnable = true ∨ copyEnable = true)
    {flags : Bool × Bool × Bool × Bool} {tr : List (Event × List PdcpOut)} {s : LtePdcp}
    (h : Run machine keepsRoom (init ncEnable copyEnable flags) tr s) :
    (submitted tr).map Packet.readdHeaders = (ownPdus tr).map NcPdu.packet ∧ ((ownPdus tr).map pairOf).Nodup ∧
    (ownPdus tr).Pairwise (fun q q' => q.header.groupnum ≤ q'.header.groupnum) ∧
    ∀ q ∈ dataPdus tr, ∀ q' ∈ dataPdus tr, pairOf q = pairOf q' → q.packet = q'.packet := by
  have hi := txInv_run hmode h
  refine ⟨hi.packets, hi.nodup, hi.ascending, ?_⟩
  intro q hq q' hq' hpair
  obtain ⟨hg, hsn⟩ := Prod.mk.inj hpair
  have h₁ := hi.carries q hq
  have h₂ := hi.carries q' hq'
  unfold Carries at h₁ h₂
  rw [hg, hsn, h₂] at h₁
  exact (Option.some.inj h₁).symm

/-- Two SDUs, with a data PDU of a group that has room between them. -/
def forwardRun : Option (List (Event × List PdcpOut) × LtePdcp) :=
  machine.exec keepsRoom (init false true (false, false, false, false))
    [.transmit (datagram 5) fun _ _ => 0, .receive ⟨{ groupnum := 3 }, datagram 7⟩ fun _ _ => 0,
     .transmit (datagram 6) fun _ _ => 0]

theorem forwardRun_isSome : forwardRun.isSome := by decide

theorem pdcp_pairs_distinct_forward : (ownPdus (forwardRun.get forwardRun_isSome).1).map pairOf = [(0, 0), (3, 0)] ∧
    ((ownPdus (forwardRun.get forwardRun_isSome).1).map pairOf).Nodup :=
  ⟨by decide, (pdcp_pairs_distinct (.inr rfl) (run_of_isSome _ _ _ _ forwardRun_isSome)).2.1⟩

/-- Two SDUs, and a third after a data PDU of group 0. -/
def backwardRun : Option (List (Event × List PdcpOut) × LtePdcp) :=
  machine.exec anyStep (init false true (false, false, false, false))
    [.transmit (datagram 5) fun _ _ => 0, .transmit (datagram 6) fun _ _ => 0,
     .receive ⟨{ groupnum := 0 }, datagram 7⟩ fun _ _ => 0, .transmit (datagram 8) fun _ _ => 0]

theorem backwardRun_isSome : backwardRun.isSome := by decide

/-- Receiving sets the group counter back: the third SDU goes out in group 0
after one in group 1, under the pair that already stands for the copy of the
first SDU. -/
theorem pdcp_counter_set_back :
    Run machine anyStep (init false true (false, false, false, false)) (backwardRun.get backwardRun_isSome).1
      (backwardRun.get backwardRun_isSome).2 ∧
    (ownPdus (backwardRun.get backwardRun_isSome).1).map pairOf = [(0, 0), (1, 0), (0, 2)] ∧
    ¬(ownPdus (backwardRun.get backwardRun_isSome).1).Pairwise (fun q q' => q.header.groupnum ≤ q'.header.groupnum) ∧
    ∃ q ∈ dataPdus (backwardRun.get backwardRun_isSome).1, ∃ q' ∈ dataPdus (backwardRun.get backwardRun_isSome).1,
      pairOf q = pairOf q' ∧ q.packet ≠ q'.packet :=
  ⟨run_of_isSome _ _ _ _ backwardRun_isSome, by decide, by decide,
   ⟨{ groupnum := 0, sn := 2 }, (datagram 5).readdHeaders⟩, by decide,
   ⟨{ groupnum := 0, sn := 2, israwpacket := 1 }, (datagram 8).readdHeaders⟩, by decide, by decide, by decide⟩

end LtePdcp

end Ns3
