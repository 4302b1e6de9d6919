import Ns3.Lib.Transfer
import Ns3.Rlc.AmLink
import Ns3.Rlc.AmStatus
import Ns3.Rlc.AmTxSound

/-!
# Nothing is discarded before the peer has it

Each direction of the link carries out an acknowledged transfer of the PDUs it
sends: a step of the link is a few steps of the transfer or none. This needs
that a STATUS PDU is understood as it was meant, which a 10-bit number does
not ensure: one that is older than `VT(A)` acknowledges PDUs sent after it.
-/

namespace Ns3

open SequenceNumber10 List

namespace AmDirection

def transfer (t : LteRlcAmTx) (d : AmDirection) : Transfer Nat where
  sent := {i | i < d.vtS}
  held := {i | d.vtA ≤ i ∧ i < d.vtS ∧ t.Holds (i % 1024)}
  placed := {i | i ∈ d.placed}
  reports := {acked | ∃ e ∈ d.status, acked = {i | LteRlcAmTx.Acks e.2.header e.1 i}}

structure Inv (t : LteRlcAmTx) (r : LteRlcAmRx) (d : AmDirection) : Prop where
  keeps : t.Keeps d.vtA d.vtS
  collects : ∃ MS H X, r.Collects (fun _ _ => True) d.vrR MS H X ∧ H ≤ d.vtS
  got : ∀ j, r.Got d.vrR j ↔ j ∈ d.placed
  data : ∀ e ∈ d.data, e.1 < d.vtS ∧ e.2.IsData e.1
  status : ∀ e ∈ d.status, e.1 ≤ d.vtS ∧ e.2.header.isStatusPdu = true ∧ e.2.header.ackSn.value = e.1 % 1024
  safe : (d.transfer t).Safe

/-- A direction and its state go on, and so does the transfer. -/
def Goes (t : LteRlcAmTx) (d : AmDirection) (t' : LteRlcAmTx) (r' : LteRlcAmRx) (d' : AmDirection) : Prop :=
  Inv t' r' d' ∧ (d.transfer t).Steps (d'.transfer t')

section
variable {t t' : LteRlcAmTx} {r r' : LteRlcAmRx} {d : AmDirection}

theorem Inv.stays (h : Inv t r d) : Goes t d t r d := ⟨h, .refl⟩

theorem Inv.vtA_le (h : Inv t r d) : d.vtA ≤ d.vrR := by
  obtain ⟨MS, H, X, hcoll, -⟩ := h.collects
  by_contra hlt
  have hlow := h.keeps.lower
  have hsent : d.vrR ∈ (d.transfer t).sent := show d.vrR < d.vtS by omega
  have hheld : d.vrR ∉ (d.transfer t).held := by
    rintro ⟨hle, -⟩
    omega
  have hgot := (h.got d.vrR).mpr (h.safe.placed_of_not_held hsent hheld)
  rcases hgot with hgot | ⟨-, hgot⟩
  · omega
  · simp [Has, hcoll.missing] at hgot

theorem followTx_eq {A' S' : Nat} (h : t'.Keeps A' S') (hA : d.vtA ≤ A') (hA' : A' < d.vtA + 1024) (hS : d.vtS ≤ S')
    (hS' : S' < d.vtS + 1024) : d.followTx t' = { d with vtA := A', vtS := S' } := by
  unfold followTx
  rw [h.vtA, h.vtS, ofIndex_value, ofIndex_value, indexFrom_eq hA hA' (Nat.mod_mod ..),
    indexFrom_eq hS hS' (Nat.mod_mod ..)]

theorem Inv.followTx_self (h : Inv t r d) : d.followTx t = d :=
  followTx_eq h.keeps (Nat.le_refl _) (by omega) (Nat.le_refl _) (by omega)

@[simp] theorem sendData_nil (d : AmDirection) : d.sendData [] = d := by
  simp [sendData]

@[simp] theorem sendStatus_nil (d : AmDirection) : d.sendStatus [] = d := by
  simp [sendStatus]

/-! ## Steps of the sender -/

theorem Inv.same_held (h : Inv t r d) (hkeeps : t'.Keeps d.vtA d.vtS) (hholds : ∀ k, t'.Holds k ↔ t.Holds k) :
    Goes t d t' r d := by
  have hsame : d.transfer t' = d.transfer t := by
    simp only [transfer, hholds]
  refine ⟨⟨hkeeps, h.collects, h.got, h.data, h.status, hsame ▸ h.safe⟩, ?_⟩
  rw [hsame]
  exact .refl

theorem Inv.send {out : List AmPacket} {S' : Nat} (h : Inv t r d) (hs : t.Sent t' out d.vtA d.vtS S') :
    Goes t d t' r ((d.followTx t').sendData out) := by
  have hlow := h.keeps.lower
  have hup := h.keeps.upper
  have hS := hs.lower
  have hS' := hs.upper
  have hstep : (d.transfer t).Steps (((d.followTx t').sendData out).transfer t') := by
    rw [followTx_eq hs.keeps (Nat.le_refl _) (by omega) hS (by omega)]
    rcases Nat.eq_or_lt_of_le hS with rfl | hlt
    · have hsame : transfer t' (sendData { d with vtA := d.vtA, vtS := d.vtS } out) = d.transfer t := by
        simp [transfer, sendData, hs.held]
      rw [hsame]
      exact .refl
    · obtain rfl : S' = d.vtS + 1 := by omega
      have hnew : transfer t' (sendData { d with vtA := d.vtA, vtS := d.vtS + 1 } out) =
          { d.transfer t with
            sent := insert d.vtS (d.transfer t).sent, held := insert d.vtS (d.transfer t).held } := by
        ext i
        · simp [transfer, sendData]
          omega
        · simp only [transfer, sendData, hs.held, Set.mem_ofPred_eq, Set.mem_insert_iff]
          constructor
          · rintro ⟨hi, hi', hheld | ⟨-, hmod⟩⟩
            · rcases Nat.eq_or_lt_of_le (Nat.lt_succ_iff.mp hi') with rfl | hlt'
              · exact .inl rfl
              · exact .inr ⟨hi, hlt', hheld⟩
            · exact .inl (eq_of_mod_eq hi (show i < d.vtA + 1024 by omega) hlow (by omega) hmod)
          · rintro (rfl | ⟨hi, hi', hheld⟩)
            · exact ⟨hlow, Nat.lt_succ_self _, .inr ⟨Nat.lt_succ_self _, rfl⟩⟩
            · exact ⟨hi, by omega, .inl hheld⟩
        · rfl
        · rfl
      rw [hnew]
      exact .single (.send _ _)
  refine ⟨?_, hstep⟩
  have hsafe := hstep.safe h.safe
  rw [followTx_eq hs.keeps (Nat.le_refl _) (by omega) hS (by omega)] at hsafe ⊢
  obtain ⟨MS, H, X, hcoll, hH⟩ := h.collects
  refine ⟨hs.keeps, ⟨MS, H, X, hcoll, hH.trans hS⟩, h.got, ?_, fun e he => ?_, hsafe⟩
  · intro e he
    rcases mem_append.mp he with he | he
    · have := h.data e he
      exact ⟨this.1.trans_le hS, this.2⟩
    · obtain ⟨p, hp, rfl⟩ := List.mem_map.mp he
      obtain ⟨i, hi, hi', hdata⟩ := hs.data p hp
      have hindex : indexFrom d.vtA p.header.sequenceNumber.value = i :=
        indexFrom_eq hi (by omega) (by rw [hdata.2.1, Nat.mod_mod])
      simp only [hindex]
      exact ⟨hi', hdata⟩
  · have := h.status e he
    exact ⟨this.1.trans hS, this.2⟩

theorem Inv.acknowledge (h : Inv t r d) {e : Nat × AmPacket} (he : e ∈ d.status)
    (htimely : d.vtA ≤ e.1 ∨ d.vtA = d.vtS) (ht : t.receiveStatus e.2.header = some t') :
    Goes t d t' r (d.followTx t') := by
  obtain ⟨hack, -, hsn⟩ := h.status e he
  obtain ⟨A', hkeeps, hA, hpassed, hheld, hsub⟩ := h.keeps.receiveStatus hsn htimely hack ht
  have hlow := hkeeps.lower
  have hup := h.keeps.upper
  have hstep : (d.transfer t).Steps ((d.followTx t').transfer t') := by
    rw [followTx_eq hkeeps hA (by omega) (Nat.le_refl _) (by omega)]
    refine .single (.discard _ {i | LteRlcAmTx.Acks e.2.header e.1 i} _ ⟨e, he, rfl⟩ ?_ ?_)
    · rintro i ⟨hi, hi', hholds⟩
      exact ⟨hA.trans hi, hi', hsub _ hholds⟩
    · rintro i ⟨⟨hi, hi', hholds⟩, hnot⟩
      refine ⟨?_, hi', (hheld i hi hi' hholds).resolve_right hnot⟩
      by_contra hlt
      exact hnot (hpassed i hi (Nat.not_le.mp hlt))
  refine ⟨?_, hstep⟩
  have hsafe := hstep.safe h.safe
  rw [followTx_eq hkeeps hA (by omega) (Nat.le_refl _) (by omega)] at hsafe ⊢
  exact ⟨hkeeps, h.collects, h.got, h.data, h.status, hsafe⟩

/-! ## Steps of the receiver -/

theorem Inv.expire (h : Inv t r d) (htimer : r.reorderingTimer = true) (hr : r.expireReorderingTimer = some r') :
    Goes t d t r' d := by
  obtain ⟨MS, H, X, hcoll, hH⟩ := h.collects
  obtain ⟨r'', MS', X', hrun, hcoll', hbuf⟩ := hcoll.expire htimer
  cases hr.symm.trans hrun
  refine ⟨⟨h.keeps, ⟨MS', H, X', hcoll', hH⟩, fun j => ?_, h.data, h.status, h.safe⟩, .refl⟩
  rw [← h.got j, LteRlcAmRx.Got, LteRlcAmRx.Got, hbuf]

theorem Inv.allow (h : Inv t r d) : Goes t d t { r with statusProhibitTimer := false } d := by
  obtain ⟨MS, H, X, hcoll, hH⟩ := h.collects
  exact ⟨⟨h.keeps, ⟨MS, H, X, hcoll.status r.statusPduRequested r.statusPduBufferSize false, hH⟩, h.got, h.data,
    h.status, h.safe⟩, .refl⟩

theorem Inv.report (h : Inv t r d) {bytes : Nat} {out : List AmPacket} (hr : r.sendStatusPdu bytes = some (r', out)) :
    Goes t d t r' (d.sendStatus out) ∧ ∀ p ∈ out, p.header.isStatusPdu = true := by
  obtain ⟨MS, H, X, hcoll, hH⟩ := h.collects
  obtain ⟨p, ack, hbuild, hR, hMS, hstatus, hsn, hall⟩ := hcoll.buildStatusPdu bytes
  have hmid := hcoll.middle
  have hup := hcoll.upper
  unfold LteRlcAmRx.sendStatusPdu at hr
  split at hr
  · cases hr
  · rw [hbuild] at hr
    cases hr
    have hindex : indexFrom d.vrR p.header.ackSn.value = ack :=
      indexFrom_eq hR (by omega) (by rw [hsn, Nat.mod_mod])
    have hsend : d.sendStatus [p] = { d with status := d.status ++ [(ack, p)] } := by
      simp [sendStatus, hindex]
    have hstep : (d.transfer t).Steps ((d.sendStatus [p]).transfer t) := by
      have hnew : (d.sendStatus [p]).transfer t = { d.transfer t with
          reports := insert {i | LteRlcAmTx.Acks p.header ack i} (d.transfer t).reports } := by
        rw [hsend]
        ext x
        · rfl
        · rfl
        · rfl
        · simp only [transfer, mem_append, mem_singleton, Set.mem_ofPred_eq, Set.mem_insert_iff]
          constructor
          · rintro ⟨e, he | rfl, rfl⟩
            · exact .inr ⟨e, he, rfl⟩
            · exact .inl rfl
          · rintro (rfl | ⟨e, he, rfl⟩)
            · exact ⟨_, .inr rfl, rfl⟩
            · exact ⟨e, .inl he, rfl⟩
      rw [hnew]
      refine .single (.report _ _ ?_)
      rintro i ⟨hi, hnot⟩
      exact (h.got i).mp ((hall i hi).resolve_right hnot)
    refine ⟨⟨?_, hstep⟩, ?_⟩
    · have hsafe := hstep.safe h.safe
      rw [hsend] at hsafe ⊢
      refine ⟨h.keeps, ⟨MS, H, X, hcoll.status false 0 true, hH⟩, h.got, h.data, ?_, hsafe⟩
      intro e he
      rcases mem_append.mp he with he | he
      · exact h.status e he
      · obtain rfl := mem_singleton.mp he
        exact ⟨by simp only; omega, hstatus, hsn⟩
    · intro q hq
      obtain rfl := mem_singleton.mp hq
      exact hstatus

theorem places_eq {P : Nat → AmPacket → Prop} {R MS H X n : Nat} {p : AmPacket} (h : r.Collects P R MS H X)
    (hp : p.IsData n) (hn : R ≤ n) (hn' : n < R + 1024) :
    r.places p = (decide (n < R + 512) && (r.rxonBuffer.find (n % 1024)).isNone) := by
  have hseq : p.header.sequenceNumber.setModulusBase r.vrR = ofIndex n R := by
    simp [setModulusBase, h.vrR, hp.2.1, ofIndex]
  unfold LteRlcAmRx.places
  rw [hseq, LteRlcAmRx.isInsideReceivingWindow_eq h.vrR h.vrMr hn hn', hp.2.1]
  by_cases hin : n < R + 512 <;> simp [hin]

theorem Inv.receive (h : Inv t r d) {e : Nat × AmPacket} (he : e ∈ d.data)
    (htimely : d.vrR ≤ e.1 ∨ d.vrR + 512 ≤ indexFrom d.vrR e.1) {out : List (AmPacket × List Bytes)}
    (hr : r.receiveData e.2 = some (r', out)) : Goes t d t r' ((d.place e.1 (r.places e.2)).followRx r') := by
  obtain ⟨i, p⟩ := e
  obtain ⟨hi, hdata⟩ := h.data _ he
  obtain ⟨MS, H, X, hcoll, hH⟩ := h.collects
  have hAR := h.vtA_le
  have hup := h.keeps.upper
  obtain ⟨n, hn, hn', hmod, hin⟩ : ∃ n, d.vrR ≤ n ∧ n < d.vrR + 1024 ∧ n % 1024 = i % 1024 ∧
      (n < d.vrR + 512 → n = i) := by
    refine ⟨indexFrom d.vrR i, le_indexFrom .., indexFrom_lt .., indexFrom_mod .., fun hlt => ?_⟩
    -- a late PDU is taken for one behind the window
    rcases htimely with hle | hout
    · exact indexFrom_eq hle (by simp only at hi; omega) rfl
    · simp only at hout
      omega
  have hdata' : p.IsData n := ⟨hdata.1, by rw [hdata.2.1, hmod], hdata.2.2⟩
  obtain ⟨r'', out', MS', H', X', hrun, hcoll', -, hH', hgot⟩ := hcoll.receive hdata' (fun _ => trivial) hn hn'
  cases hr.symm.trans hrun
  have hplaces := places_eq hcoll hdata' hn hn'
  have hfollow : ∀ d' : AmDirection, d'.vrR = d.vrR → d'.followRx r' = { d' with vrR := d.vrR + out.length } := by
    intro d' hd'
    have hshort : d.vrR + out.length < d.vrR + 1024 := by
      have h1 := hcoll'.lower
      have h2 := hcoll'.middle
      have h3 := hcoll.upper
      split at hH' <;> omega
    rw [followRx, hd', hcoll'.vrR, ofIndex_value, indexFrom_eq (Nat.le_add_right ..) hshort (Nat.mod_mod ..)]
  have hHS : H' ≤ d.vtS := by
    simp only at hi
    split at hH' <;> rename_i hlt
    · have := hin hlt
      omega
    · omega
  simp only
  cases hpl : r.places p with
  | true =>
    rw [hplaces, Bool.and_eq_true_iff, decide_eq_true_eq] at hpl
    obtain rfl := hin hpl.1
    have hplace : (d.place n true).followRx r' = { d with placed := n :: d.placed, vrR := d.vrR + out.length } :=
      hfollow _ rfl
    have hstep : (d.transfer t).Steps (((d.place n true).followRx r').transfer t) := by
      have hnew : ((d.place n true).followRx r').transfer t =
          { d.transfer t with placed := insert n (d.transfer t).placed } := by
        rw [hplace]
        ext x
        · rfl
        · rfl
        · simp [transfer]
        · rfl
      rw [hnew]
      exact .single (.place _ _)
    refine ⟨?_, hstep⟩
    have hsafe := hstep.safe h.safe
    rw [hplace] at hsafe ⊢
    refine ⟨h.keeps, ⟨MS', H', X', hcoll', hHS⟩, fun j => ?_, h.data, h.status, hsafe⟩
    simp [hgot j, h.got j, hpl.1, or_comm]
  | false =>
    have hplace : (d.place i false).followRx r' = { d with vrR := d.vrR + out.length } := hfollow _ rfl
    rw [hplace]
    refine ⟨⟨h.keeps, ⟨MS', H', X', hcoll', hHS⟩, fun j => ?_, h.data, h.status, h.safe⟩, .refl⟩
    rw [hgot j, h.got j]
    refine ⟨?_, .inl⟩
    rintro (hj | ⟨rfl, hlt⟩)
    · exact hj
    · -- inside the window, so it was there before
      refine (h.got j).mp (.inr ⟨hn', ?_⟩)
      rw [hplaces, decide_eq_true hlt, Bool.true_and] at hpl
      simpa [Has, Option.isSome_iff_ne_none] using hpl

end

end AmDirection

/-! ## The link -/

namespace AmLink

open Machine AmDirection LteRlcAmTx

structure Inv (s : AmLink) : Prop where
  ab : AmDirection.Inv s.a.tx s.b.rx s.ab
  ba : AmDirection.Inv s.b.tx s.a.rx s.ba

structure Refines (s s' : AmLink) : Prop where
  ab : (s.ab.transfer s.a.tx).Steps (s'.ab.transfer s'.a.tx)
  ba : (s.ba.transfer s.b.tx).Steps (s'.ba.transfer s'.b.tx)

theorem Inv.swap {s : AmLink} (h : Inv s) : Inv s.swap := ⟨h.ba, h.ab⟩

theorem Refines.swap {s s' : AmLink} (h : Refines s.swap s') : Refines s s'.swap := ⟨h.ba, h.ab⟩

section
variable {s s' : AmLink} {o : List Bytes}

theorem Inv.of_goes (hab : Goes s.a.tx s.ab s'.a.tx s'.b.rx s'.ab) (hba : Goes s.b.tx s.ba s'.b.tx s'.a.rx s'.ba) :
    Inv s' ∧ Refines s s' :=
  ⟨⟨hab.1, hba.1⟩, ⟨hab.2, hba.2⟩⟩

theorem Inv.store (h : Inv s) {p : Bytes} (hp : p ≠ []) :
    Inv { s with a := s.a.doTransmitPdcpPdu p } ∧ Refines s { s with a := s.a.doTransmitPdcpPdu p } :=
  of_goes (h.ab.same_held (h.ab.keeps.store hp) fun _ => exists_congr fun q => storePdcpPdu_slot s.a.tx p _ q)
    h.ba.stays

theorem Inv.transmit (h : Inv s) {bytes : Nat} {a : LteRlcAm} {out : List AmPacket}
    (ha : s.a.doNotifyTxOpportunity bytes = some (a, out)) :
    Goes s.a.tx s.ab a.tx s.b.rx ((s.ab.followTx a.tx).sendData (out.filter fun p => p.header.isDataPdu)) ∧
      Goes s.b.tx s.ba s.b.tx a.rx (s.ba.sendStatus (out.filter fun p => p.header.isControlPdu)) := by
  unfold LteRlcAm.doNotifyTxOpportunity at ha
  split at ha
  · cases ha
  · split at ha
    · split at ha
      · cases ha
      · rename_i rx out' hrx
        obtain ⟨rfl, rfl⟩ := Prod.mk.inj (Option.some.inj ha)
        obtain ⟨hgoes, hstatus⟩ := h.ba.report hrx
        have hcontrol : ∀ p ∈ out', p.header.isControlPdu = true :=
          fun p hp => (Bool.and_eq_true_iff.mp (hstatus p hp)).1
        have hdata : out'.filter (fun p => p.header.isDataPdu) = [] :=
          filter_eq_nil_iff.mpr fun p hp => by
            simp [LteRlcAmHeader.isDataPdu_of_isControlPdu (hcontrol p hp)]
        rw [hdata, filter_eq_self.mpr hcontrol, sendData_nil, h.ab.followTx_self]
        exact ⟨h.ab.stays, hgoes⟩
    · split at ha
      · cases ha
      · rename_i tx out' htx
        obtain ⟨rfl, rfl⟩ := Prod.mk.inj (Option.some.inj ha)
        obtain ⟨S', hsent⟩ := h.ab.keeps.transmit htx
        have hdata : ∀ p ∈ out', p.header.isDataPdu = true := by
          intro p hp
          obtain ⟨i, -, -, hi⟩ := hsent.data p hp
          exact hi.1
        have hcontrol : out'.filter (fun p => p.header.isControlPdu) = [] :=
          filter_eq_nil_iff.mpr fun p hp => by
            simp [LteRlcAmHeader.isControlPdu_of_isDataPdu (hdata p hp)]
        rw [hcontrol, filter_eq_self.mpr hdata, sendStatus_nil]
        exact ⟨h.ab.send hsent, h.ba.stays⟩

theorem Inv.receiveData (h : Inv s) {e : Nat × AmPacket} (he : e ∈ s.ba.data)
    (htimely : s.ba.vrR ≤ e.1 ∨ s.ba.vrR + 512 ≤ indexFrom s.ba.vrR e.1) {a : LteRlcAm}
    {out : List (AmPacket × List Bytes)} (ha : s.a.doReceivePdu e.2 = some (a, out)) :
    a.tx = s.a.tx ∧ Goes s.b.tx s.ba s.b.tx a.rx ((s.ba.place e.1 (s.a.rx.places e.2)).followRx a.rx) := by
  unfold LteRlcAm.doReceivePdu at ha
  rw [if_pos (h.ba.data e he).2.1] at ha
  split at ha
  · cases ha
  · rename_i rx out' hrx
    cases ha
    exact ⟨rfl, h.ba.receive he htimely hrx⟩

theorem Inv.receiveStatus (h : Inv s) {e : Nat × AmPacket} (he : e ∈ s.ab.status)
    (htimely : s.ab.vtA ≤ e.1 ∨ s.ab.vtA = s.ab.vtS) {a : LteRlcAm} {out : List (AmPacket × List Bytes)}
    (ha : s.a.doReceivePdu e.2 = some (a, out)) :
    a.rx = s.a.rx ∧ Goes s.a.tx s.ab a.tx s.b.rx (s.ab.followTx a.tx) := by
  have hcontrol : e.2.header.isControlPdu = true := (Bool.and_eq_true_iff.mp (h.ab.status e he).2.1).1
  have hdata := LteRlcAmHeader.isDataPdu_of_isControlPdu hcontrol
  unfold LteRlcAm.doReceivePdu at ha
  rw [hdata, hcontrol] at ha
  simp only [Bool.false_eq_true, if_false, if_true] at ha
  split at ha
  · cases ha
  · rename_i tx htx
    cases ha
    exact ⟨rfl, h.ab.acknowledge he htimely htx⟩

theorem Inv.stepA (h : Inv s) {e : AmEvent} (htimely : s.TimelyA e) (hstep : s.stepA e = some (s', o)) :
    Inv s' ∧ Refines s s' := by
  cases e with
  | transmitPdcpPdu p =>
    simp only [AmLink.stepA] at hstep
    split at hstep
    · cases hstep
    · rename_i hp
      cases hstep
      exact h.store hp
  | transmitPdcpPdu2 p =>
    simp only [AmLink.stepA] at hstep
    split at hstep
    · cases hstep
    · rename_i hp
      cases hstep
      exact h.store hp
  | txOpportunity bytes =>
    simp only [AmLink.stepA] at hstep
    split at hstep
    · cases hstep
    · rename_i a out ha
      cases hstep
      obtain ⟨hab, hba⟩ := h.transmit ha
      exact of_goes hab hba
  | receiveData k =>
    simp only [AmLink.stepA] at hstep
    split at hstep
    · cases hstep
    · rename_i i p hp
      split at hstep
      · cases hstep
      · rename_i a out ha
        cases hstep
        obtain ⟨htx, hgoes⟩ := h.receiveData (mem_of_getElem? hp) (htimely _ (by simp [hp])) ha
        exact of_goes (by simpa only [htx] using h.ab.stays) hgoes
  | receiveStatus k =>
    simp only [AmLink.stepA] at hstep
    split at hstep
    · cases hstep
    · rename_i ack p hp
      split at hstep
      · cases hstep
      · rename_i a out ha
        cases hstep
        obtain ⟨hrx, hgoes⟩ := h.receiveStatus (mem_of_getElem? hp) (htimely _ (by simp [hp])) ha
        exact of_goes hgoes (by simpa only [hrx] using h.ba.stays)
  | expireReordering =>
    simp only [AmLink.stepA] at hstep
    split at hstep
    · rename_i htimer
      obtain ⟨a, ha, hs⟩ := Option.map_eq_some_iff.mp hstep
      cases hs
      unfold LteRlcAm.expireReorderingTimer at ha
      split at ha
      · cases ha
      · rename_i rx hrx
        cases ha
        exact of_goes h.ab.stays (h.ba.expire htimer hrx)
    · cases hstep
  | expirePollRetransmit =>
    simp only [AmLink.stepA] at hstep
    split at hstep
    · obtain ⟨a, ha, hs⟩ := Option.map_eq_some_iff.mp hstep
      cases hs
      unfold LteRlcAm.expirePollRetransmitTimer at ha
      split at ha
      · cases ha
      · rename_i tx htx
        cases ha
        obtain ⟨hkeeps, hholds⟩ := h.ab.keeps.expirePollRetransmitTimer htx
        exact of_goes (h.ab.same_held hkeeps hholds) h.ba.stays
    · cases hstep
  | expireStatusProhibit =>
    simp only [AmLink.stepA] at hstep
    split at hstep
    · cases hstep
      exact of_goes h.ab.stays h.ba.allow
    · cases hstep

/-- **Refinement.** A timely step of the link keeps its invariant, and in both
directions it is a part of an acknowledged transfer. -/
theorem Inv.step (h : Inv s) {e : AmSide × AmEvent} (htimely : s.Timely e) (hstep : machine.step s e = some (s', o)) :
    Inv s' ∧ Refines s s' := by
  obtain ⟨side, e⟩ := e
  cases side with
  | a => exact h.stepA htimely hstep
  | b =>
    obtain ⟨r, hr, hs⟩ := Option.map_eq_some_iff.mp hstep
    cases hs
    obtain ⟨hinv, hrefines⟩ := h.swap.stepA htimely hr
    exact ⟨hinv.swap, hrefines.swap⟩

end

def start (maxA maxB : Nat) (alwaysBigEnoughA alwaysBigEnoughB : Bool) : AmLink :=
  { a := { tx := { maxTxBufferSize := maxA, txOpportunityForRetxAlwaysBigEnough := alwaysBigEnoughA } }
    b := { tx := { maxTxBufferSize := maxB, txOpportunityForRetxAlwaysBigEnough := alwaysBigEnoughB } } }

theorem inv_fresh (maxTxBufferSize : Nat) (alwaysBigEnough : Bool) : AmDirection.Inv
    { maxTxBufferSize := maxTxBufferSize, txOpportunityForRetxAlwaysBigEnough := alwaysBigEnough } {} {} where
  keeps := keeps_init maxTxBufferSize alwaysBigEnough
  collects := ⟨0, 0, 0, LteRlcAmRx.collects_init _, Nat.le_refl 0⟩
  got j := by simp [LteRlcAmRx.Got, Has]
  data := by simp
  status := by simp
  safe := ⟨fun i hi => absurd hi (Nat.not_lt_zero i), by simp [transfer]⟩

section
variable {maxA maxB : Nat} {bigA bigB : Bool} {tr : List ((AmSide × AmEvent) × List Bytes)} {s : AmLink}

theorem refines_of_run (h : Run machine Timely (start maxA maxB bigA bigB) tr s) :
    Inv s ∧ Refines (start maxA maxB bigA bigB) s := by
  refine Run.invariant (fun _ s => Inv s ∧ Refines (start maxA maxB bigA bigB) s) ?_ ?_ h
  · exact ⟨⟨inv_fresh maxA bigA, inv_fresh maxB bigB⟩, ⟨.refl, .refl⟩⟩
  · rintro tr s e s' o ⟨hinv, hrefines⟩ htimely hstep
    obtain ⟨hinv', hrefines'⟩ := hinv.step htimely hstep
    exact ⟨hinv', ⟨hrefines.ab.trans hrefines'.ab, hrefines.ba.trans hrefines'.ba⟩⟩

end

theorem none_lost_of_inv {t : LteRlcAmTx} {r : LteRlcAmRx} {d : AmDirection} (h : AmDirection.Inv t r d) :
    NoneLost t d := by
  intro i hi hdiscarded
  refine h.safe.placed_of_not_held hi ?_
  rintro ⟨hle, -, p, hp⟩
  rcases hdiscarded with hlt | ⟨htxed, hretx⟩
  · omega
  · rcases hp with hp | hp
    · rw [htxed] at hp
      cases hp
    · rw [hretx] at hp
      cases hp

/-- **No loss.** In every run in which no STATUS PDU comes too late for `VT(A)`,
and no data PDU too late for `VR(R)`, each entity discards a PDU only after its
peer has placed it. -/
theorem discarded_placed (maxA maxB : Nat) (bigA bigB : Bool) {tr : List ((AmSide × AmEvent) × List Bytes)} {s : AmLink}
    (h : Run machine Timely (start maxA maxB bigA bigB) tr s) : NoneLost s.a.tx s.ab ∧ NoneLost s.b.tx s.ba := by
  obtain ⟨hinv, -⟩ := refines_of_run h
  exact ⟨none_lost_of_inv hinv.ab, none_lost_of_inv hinv.ba⟩

/-- A packet is sent, received and acknowledged. -/
def exchange (p : Bytes) (k : Nat) : List (AmSide × AmEvent) :=
  [(.a, .transmitPdcpPdu p), (.a, .txOpportunity 100), (.b, .receiveData k), (.b, .txOpportunity 100),
    (.a, .receiveStatus k), (.b, .expireStatusProhibit)]

/-- Two packets are exchanged and the third is lost; old PDUs come again. -/
def thirdLost : List (AmSide × AmEvent) :=
  exchange [1] 0 ++ exchange [2] 1 ++ [(.b, .receiveData 0), (.a, .receiveStatus 0), (.a, .transmitPdcpPdu [3]),
    (.a, .txOpportunity 100), (.a, .receiveStatus 1)]

theorem thirdLost_isSome : (machine.exec Timely (start 10240 0 false true) thirdLost).isSome := by
  decide +kernel

theorem third_lost_kept : ∃ tr s, Run machine Timely (start 10240 0 false true) tr s ∧ s.ab.vtA = 2 ∧ s.ab.vtS = 3 ∧
    s.ab.placed = [1, 0] ∧ NoneLost s.a.tx s.ab := by
  have hrun := run_of_isSome machine Timely _ _ thirdLost_isSome
  exact ⟨_, _, hrun, by decide +kernel, by decide +kernel, by decide +kernel, (discarded_placed _ _ _ _ hrun).1⟩

theorem lateStatus_loses : ((machine.exec anyStep (start 10240 10240 false false)
    (thirdLost ++ [(.a, .receiveStatus 0)])).any fun r => !decide (NoneLost r.2.a.tx r.2.ab)) = true := by
  decide +kernel

/-- **A late STATUS PDU acknowledges what was sent after it**: the first one comes
again when the third PDU is outstanding, and that is discarded. -/
theorem late_status_discards : ∃ tr s, Run machine anyStep (start 10240 10240 false false) tr s ∧
    ¬ NoneLost s.a.tx s.ab := by
  obtain ⟨tr, s, hrun, hlost⟩ := run_of_any machine anyStep lateStatus_loses
  rw [Bool.not_eq_true', decide_eq_false_iff_not] at hlost
  exact ⟨tr, s, hrun, hlost⟩

end AmLink

end Ns3
