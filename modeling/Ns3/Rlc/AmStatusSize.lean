import Ns3.Rlc.AmHeaderCodec
import Ns3.Rlc.AmReceiver
import Ns3.Rlc.AmStatus

/-!
# The size of a STATUS PDU

Whether one more number fits is tested with the room of two bytes when it takes
one, and with that of one byte when it takes two. So a STATUS PDU overruns its
opportunity by a byte, exactly when the size of that is a multiple of three and
enough PDUs are missing. What it says is true in any case.
-/

namespace Ns3

open Machine SequenceNumber10 List

/-! ## The header while numbers are added -/

namespace LteRlcAmHeader

def Sized (h : LteRlcAmHeader) : Prop := h.headerLength = 2 + nacksSize h.nackSnList.length

theorem Sized.pushNack {h h' : LteRlcAmHeader} (hs : h.Sized) {nack : Nat} (hpush : h.pushNack nack = some h') :
    h'.Sized ∧ h'.nackSnList.length = h.nackSnList.length + 1 := by
  unfold Sized nacksSize at *
  unfold LteRlcAmHeader.pushNack at hpush
  split at hpush
  · cases hpush
    simp only [length_append, length_singleton, and_true]
    split <;> omega
  · cases hpush

/-- The test for one more number, after `n` of them. -/
def NackFits (bytes n : Nat) : Prop :=
  if n % 2 = 0 then 2 + nacksSize n < bytes % 65536 else 2 + nacksSize n + 1 < bytes % 65536

theorem Sized.nackFits_iff {h : LteRlcAmHeader} (hs : h.Sized) {bytes : Nat} {fits : Bool}
    (hfits : h.oneMoreNackWouldFitIn bytes = some fits) : NackFits bytes h.nackSnList.length ↔ fits = true := by
  unfold oneMoreNackWouldFitIn at hfits
  unfold NackFits
  rw [← hs]
  split at hfits
  · cases hfits
    simp
  · cases hfits

/-- The numbers were added while they seemed to fit, `n` of them in the end,
of `missing`. -/
structure StopsAt (bytes missing n : Nat) : Prop where
  le : n ≤ missing
  before : ∀ m < n, NackFits bytes m
  stop : n = missing ∨ ¬NackFits bytes n

theorem StopsAt.fits_iff {bytes missing n : Nat} (h : StopsAt bytes missing n) (hbytes : 4 ≤ bytes) :
    2 + nacksSize n ≤ bytes ↔ 65536 ≤ bytes ∨ bytes % 3 ≠ 0 ∨ missing ≤ 2 * (bytes / 3 - 1) := by
  have hle := h.le
  unfold nacksSize
  constructor
  · intro hfits
    by_contra hno
    have hlast : ¬NackFits bytes n := by
      rcases h.stop with rfl | hstop
      · omega
      · exact hstop
    unfold NackFits nacksSize at hlast
    split at hlast <;> lia
  · intro hcond
    cases n with
    | zero => omega
    | succ n =>
      have hlast := h.before n (Nat.lt_succ_self n)
      unfold NackFits nacksSize at hlast
      split at hlast <;> omega

end LteRlcAmHeader

namespace LteRlcAmRx

open LteRlcAmHeader

theorem nackLoop_sized (r : LteRlcAmRx) (bytes : Nat) : ∀ (fuel : Nat) (sn : SequenceNumber10) (h : LteRlcAmHeader)
    {sn' : SequenceNumber10} {h' : LteRlcAmHeader}, r.nackLoop bytes fuel sn h = some (sn', h') → h.Sized →
    h'.Sized ∧ (∀ m, h.nackSnList.length ≤ m → m < h'.nackSnList.length → NackFits bytes m) ∧
      (sn'.lt r.vrMs = some false ∨ ¬NackFits bytes h'.nackSnList.length)
  | 0, sn, h, sn', h', hrun, hs => by cases hrun
  | fuel + 1, sn, h, sn', h', hrun, hs => by
    unfold nackLoop at hrun
    split at hrun
    · cases hrun
    · rename_i hend
      cases hrun
      exact ⟨hs, by omega, .inl hend⟩
    · split at hrun
      · cases hrun
      · rename_i hfull
        cases hrun
        refine ⟨hs, by omega, .inr fun hfits => ?_⟩
        cases (hs.nackFits_iff hfull).mp hfits
      · rename_i hfits
        split at hrun
        · exact nackLoop_sized r bytes fuel _ h hrun hs
        · split at hrun
          · cases hrun
          · rename_i h₁ hpush
            obtain ⟨hs₁, hlen⟩ := hs.pushNack hpush
            obtain ⟨hs', hbefore, hstop⟩ := nackLoop_sized r bytes fuel _ h₁ hrun hs₁
            refine ⟨hs', fun m hm hm' => ?_, hstop⟩
            rcases Nat.eq_or_lt_of_le hm with rfl | hlt
            · exact (hs.nackFits_iff hfits).mpr rfl
            · exact hbefore m (by omega) hm'

/-- The numbers from `VR(R)` up to `VR(MS)` of the PDUs not completely received. -/
def missing (r : LteRlcAmRx) : List Nat :=
  r.missingFrom r.vrR.value (r.vrR.value + (r.vrMs.value + 1024 - r.vrR.value) % 1024)

/-- A header tells which PDUs before the one it acknowledges were received. -/
def TrueReport (r : LteRlcAmRx) (h : LteRlcAmHeader) : Prop :=
  ∀ k < (h.ackSn.value + 1024 - r.vrR.value) % 1024,
    (r.vrR.value + k) % 1024 ∈ h.nackSnList ↔ r.received ((r.vrR.value + k) % 1024) = false

section
variable {P : Nat → AmPacket → Prop} {r : LteRlcAmRx} {R MS H X : Nat}

theorem missingFrom_mod (r : LteRlcAmRx) (a n : Nat) :
    r.missingFrom (a % 1024) (a % 1024 + n) = r.missingFrom a (a + n) := by
  unfold missingFrom
  have hmap : (range' (a % 1024) n).map (· % 1024) = (range' a n).map (· % 1024) := by
    simp [range'_eq_map_range, Function.comp_def]
  rw [Nat.add_sub_cancel_left, Nat.add_sub_cancel_left, hmap]

theorem missingFrom_length_le (r : LteRlcAmRx) (a b : Nat) : (r.missingFrom a b).length ≤ b - a := by
  refine (length_filter_le _ _).trans (Nat.le_of_eq ?_)
  rw [length_map, length_range']

theorem missingFrom_append (r : LteRlcAmRx) {a b c : Nat} (hab : a ≤ b) (hbc : b ≤ c) :
    r.missingFrom a c = r.missingFrom a b ++ r.missingFrom b c := by
  unfold missingFrom
  have hrange : range' a (c - a) = range' a (b - a) ++ range' b (c - b) := by
    obtain ⟨m, rfl⟩ := Nat.exists_eq_add_of_le hab
    obtain ⟨n, rfl⟩ := Nat.exists_eq_add_of_le hbc
    rw [show a + m + n - a = m + n by omega, Nat.add_sub_cancel_left, Nat.add_sub_cancel_left, range'_append_1]
  rw [hrange, map_append, filter_append]

theorem Collects.missing_eq (h : Collects P r R MS H X) : r.missing = r.missingFrom R MS := by
  have hlo := h.lower
  have hmid := h.middle
  have hup := h.upper
  unfold LteRlcAmRx.missing
  rw [h.vrR, h.vrMs, ofIndex_value, ofIndex_value, show (MS % 1024 + 1024 - R % 1024) % 1024 = MS - R by lia,
    missingFrom_mod, Nat.add_sub_cancel' hlo]

/-- **A STATUS PDU** of any size is true, and no longer than its opportunity
exactly when the size says so. -/
theorem Collects.report (h : Collects P r R MS H X) {bytes : Nat} (hbytes : 4 ≤ bytes) :
    ∃ p, r.buildStatusPdu bytes = some p ∧ p.header.isStatusPdu = true ∧ r.TrueReport p.header ∧
      (p.size ≤ bytes ↔ 65536 ≤ bytes ∨ bytes % 3 ≠ 0 ∨ r.missing.length ≤ 2 * (bytes / 3 - 1)) := by
  have hlo := h.lower
  have hmid := h.middle
  have hup := h.upper
  obtain ⟨n, ack, hdr, hloop, hbuild, hRn, hna, haMS, hstatus, hlist, hall⟩ := h.buildStatusPdu_eq bytes
  refine ⟨_, hbuild, hstatus, fun k hk => ?_, ?_⟩
  · have hvalue : (AmPacket.addHeader (hdr.setAckSn (ofIndex ack R)) []).header.ackSn.value = ack % 1024 := by
      simp [AmPacket.addHeader, LteRlcAmHeader.setAckSn, SequenceNumber10.ofValue]
    rw [hvalue, h.vrR, ofIndex_value] at hk
    have hindex : (r.vrR.value + k) % 1024 = (R + k) % 1024 := by
      rw [h.vrR, ofIndex_value, Nat.mod_add_mod]
    rw [hindex]
    simp only [AmPacket.addHeader, LteRlcAmHeader.setAckSn, hlist]
    constructor
    · intro hmem
      simpa using (mem_filter.mp hmem).2
    · intro hrec
      have hn : R + k < n := by
        by_contra hge
        have := hall (R + k) (by omega) (by omega)
        rw [hrec] at this
        cases this
      exact mem_missingFrom (Nat.le_add_right R k) hn hrec
  · obtain ⟨hs, hbefore, hstop⟩ := nackLoop_sized r bytes 1025 _ _ hloop rfl
    have hall : r.missing = hdr.nackSnList ++ r.missingFrom n MS := by
      rw [h.missing_eq, hlist, missingFrom_append r hRn (by omega)]
    have hstops : StopsAt bytes r.missing.length hdr.nackSnList.length := by
      refine ⟨?_, fun m hm => hbefore m (Nat.zero_le m) hm, ?_⟩
      · rw [hall, length_append]
        exact Nat.le_add_right ..
      · rcases hstop with hend | hroom
        · rw [h.vrMs, lt_ofIndex hRn (by omega) hlo (by omega)] at hend
          have hn : n = MS := by
            have := of_decide_eq_false (Option.some.inj hend)
            omega
          rw [hall, hn, missingFrom_self, append_nil]
          exact .inl rfl
        · exact .inr hroom
    -- at most the 512 numbers of the window, so `m_headerLength` does not wrap
    have hcount : hdr.nackSnList.length ≤ n - R := hlist ▸ missingFrom_length_le r R n
    have hshort : 2 + nacksSize hdr.nackSnList.length < 65536 := by
      unfold nacksSize
      omega
    have hsize : (AmPacket.addHeader (hdr.setAckSn (ofIndex ack R)) []).size = 2 + nacksSize hdr.nackSnList.length := by
      rw [← hs] at hshort ⊢
      exact Nat.mod_eq_of_lt hshort
    rw [hsize]
    exact hstops.fits_iff hbytes

end

end LteRlcAmRx

/-! ## Over whole runs -/

inductive AmEntityEvent where
  | transmitPdcpPdu (p : Bytes)
  | transmitPdcpPdu2 (p : Bytes)
  | txOpportunity (bytes : Nat)
  | receivePdu (p : AmPacket)
  | expireReordering
  | expirePollRetransmit
  | expireStatusProhibit

namespace LteRlcAm

/-- An entity with what it gives to the MAC. A timer expires while it runs. -/
def machine : Machine LteRlcAm AmEntityEvent AmPacket where
  step e
    | .transmitPdcpPdu p => some (e.doTransmitPdcpPdu p, [])
    | .transmitPdcpPdu2 p => some (e.doTransmitPdcpPdu2 p, [])
    | .txOpportunity bytes => e.doNotifyTxOpportunity bytes
    | .receivePdu p => (e.doReceivePdu p).map fun r => (r.1, [])
    | .expireReordering =>
      if e.rx.reorderingTimer then e.expireReorderingTimer.map fun e => (e, []) else none
    | .expirePollRetransmit =>
      if e.tx.pollRetransmitTimer then e.expirePollRetransmitTimer.map fun e => (e, []) else none
    | .expireStatusProhibit => if e.rx.statusProhibitTimer then some (e.expireStatusProhibitTimer, []) else none

/-- A data PDU that is received has a data field that can be cut at its length
indicators. -/
def WellFormed (_ : LteRlcAm) : AmEntityEvent → Prop
  | .receivePdu p => p.header.isDataPdu = true → p.IsData p.header.sequenceNumber.value
  | _ => True

instance (e : LteRlcAm) : (ev : AmEntityEvent) → Decidable (WellFormed e ev)
  | .receivePdu p => inferInstanceAs (Decidable (_ = true → p.IsData _))
  | .transmitPdcpPdu _ => .isTrue trivial
  | .transmitPdcpPdu2 _ => .isTrue trivial
  | .txOpportunity _ => .isTrue trivial
  | .expireReordering => .isTrue trivial
  | .expirePollRetransmit => .isTrue trivial
  | .expireStatusProhibit => .isTrue trivial

def Receives (e : LteRlcAm) : Prop := ∃ R MS H X, e.rx.Collects (fun _ _ => True) R MS H X

theorem Receives.receiveData {e : LteRlcAm} (h : e.Receives) {p : AmPacket}
    (hp : p.IsData p.header.sequenceNumber.value) {rx : LteRlcAmRx} {out : List (AmPacket × List Bytes)}
    (hrun : e.rx.receiveData p = some (rx, out)) : Receives { e with rx := rx } := by
  obtain ⟨R, MS, H, X, hcoll⟩ := h
  have hlt : p.header.sequenceNumber.value < 1024 := by
    rw [hp.2.1]
    exact Nat.mod_lt _ (by decide)
  -- the index the number stands for, counted from `VR(R)` on
  obtain ⟨i, hi, hi', hmod⟩ : ∃ i, R ≤ i ∧ i < R + 1024 ∧ i % 1024 = p.header.sequenceNumber.value :=
    ⟨R + (p.header.sequenceNumber.value + 1024 - R % 1024) % 1024, by omega, by omega, by omega⟩
  have hdata : p.IsData i := ⟨hp.1, hmod.symm, hp.2.2⟩
  obtain ⟨rx', out', MS', H', X', hrun', hcoll', -⟩ := hcoll.receive hdata (fun _ => trivial) hi hi'
  cases hrun.symm.trans hrun'
  exact ⟨_, _, _, _, hcoll'⟩

/-- Any event leaves a receiving side that some indices describe. -/
theorem Receives.step {e e' : LteRlcAm} {ev : AmEntityEvent} {out : List AmPacket} (h : e.Receives)
    (hev : WellFormed e ev) (hstep : machine.step e ev = some (e', out)) : e'.Receives := by
  obtain ⟨R, MS, H, X, hcoll⟩ := h
  cases ev with
  | transmitPdcpPdu p =>
    cases hstep
    exact ⟨R, MS, H, X, hcoll⟩
  | transmitPdcpPdu2 p =>
    cases hstep
    exact ⟨R, MS, H, X, hcoll⟩
  | txOpportunity bytes =>
    simp only [machine, doNotifyTxOpportunity] at hstep
    split at hstep
    · cases hstep
    · split at hstep
      · split at hstep
        · cases hstep
        · rename_i rx out' hsend
          cases hstep
          unfold LteRlcAmRx.sendStatusPdu at hsend
          split at hsend
          · cases hsend
          · split at hsend
            · cases hsend
            · cases hsend
              exact ⟨R, MS, H, X, hcoll.status false 0 true⟩
      · split at hstep
        · cases hstep
        · cases hstep
          exact ⟨R, MS, H, X, hcoll⟩
  | receivePdu p =>
    obtain ⟨⟨e₁, sdus⟩, hrecv, heq⟩ := Option.map_eq_some_iff.mp hstep
    cases heq
    unfold doReceivePdu at hrecv
    split at hrecv
    · rename_i hdata
      split at hrecv
      · cases hrecv
      · rename_i hrun
        cases hrecv
        exact Receives.receiveData ⟨R, MS, H, X, hcoll⟩ (hev hdata) hrun
    · split at hrecv
      · split at hrecv
        · cases hrecv
        · cases hrecv
          exact ⟨R, MS, H, X, hcoll⟩
      · cases hrecv
        exact ⟨R, MS, H, X, hcoll⟩
  | expireReordering =>
    simp only [machine] at hstep
    split at hstep
    · rename_i htimer
      obtain ⟨rx, MS', X', hrun, hcoll', -⟩ := hcoll.expire htimer
      simp only [expireReorderingTimer, hrun, Option.map_some, Option.some.injEq, Prod.mk.injEq] at hstep
      obtain ⟨rfl, -⟩ := hstep
      exact ⟨R, MS', H, X', hcoll'⟩
    · cases hstep
  | expirePollRetransmit =>
    simp only [machine] at hstep
    split at hstep
    · obtain ⟨e₁, he₁, heq⟩ := Option.map_eq_some_iff.mp hstep
      cases heq
      unfold expirePollRetransmitTimer at he₁
      split at he₁
      · cases he₁
      · cases he₁
        exact ⟨R, MS, H, X, hcoll⟩
    · cases hstep
  | expireStatusProhibit =>
    simp only [machine] at hstep
    split at hstep
    · cases hstep
      exact ⟨R, MS, H, X, hcoll.status _ _ false⟩
    · cases hstep

theorem receives_of_run {tx : LteRlcAmTx} {tr : List (AmEntityEvent × List AmPacket)} {e : LteRlcAm}
    (h : Run machine WellFormed { tx := tx } tr e) : e.Receives :=
  Run.invariant (fun _ e => e.Receives) ⟨0, 0, 0, 0, LteRlcAmRx.collects_init _⟩
    (fun _ _ _ _ _ he hev hstep => he.step hev hstep) h

/-- **The STATUS PDU.** In every run an opportunity that is served by a STATUS
PDU gets a true one, which fits exactly when the size of the opportunity is no
multiple of three or few enough PDUs are missing. -/
theorem statusPdu_fits_iff {tx : LteRlcAmTx} {tr : List (AmEntityEvent × List AmPacket)} {e : LteRlcAm}
    (hrun : Run machine WellFormed { tx := tx } tr e) (hrequested : e.rx.statusPduRequested = true)
    (hprohibit : e.rx.statusProhibitTimer = false) {bytes : Nat} (hbytes : 4 ≤ bytes)
    (hsize : e.rx.statusPduBufferSize ≤ bytes) :
    ∃ e' p, e.doNotifyTxOpportunity bytes = some (e', [p]) ∧ p.header.isStatusPdu = true ∧ e.rx.TrueReport p.header ∧
      (p.size ≤ bytes ↔ 65536 ≤ bytes ∨ bytes % 3 ≠ 0 ∨ e.rx.missing.length ≤ 2 * (bytes / 3 - 1)) := by
  obtain ⟨R, MS, H, X, hcoll⟩ := receives_of_run hrun
  obtain ⟨p, hbuild, hstatus, htrue, hfits⟩ := hcoll.report hbytes
  refine ⟨{ e with
    rx := { e.rx with statusPduRequested := false, statusPduBufferSize := 0, statusProhibitTimer := true } }, p, ?_,
    hstatus, htrue, hfits⟩
  unfold doNotifyTxOpportunity LteRlcAmRx.sendStatusPdu
  rw [if_neg (Nat.not_lt.mpr hbytes), hrequested, hprohibit, if_neg (Nat.not_lt.mpr hsize), hbuild]
  rfl

/-- Three PDUs are missing when the timer expires. -/
def threeMissing : List AmEntityEvent := [.receivePdu (AmReceiver.oneByte 3), .expireReordering]

theorem threeMissing_isSome : (machine.exec WellFormed {} threeMissing).isSome := by
  decide +kernel

theorem three_missing_fits : ∃ tr e e' p, Run machine WellFormed {} tr e ∧
    e.doNotifyTxOpportunity 7 = some (e', [p]) ∧ e.rx.TrueReport p.header ∧ p.size ≤ 7 := by
  have hrun := run_of_isSome machine WellFormed _ _ threeMissing_isSome
  obtain ⟨e', p, hsend, -, htrue, hfits⟩ := statusPdu_fits_iff hrun (by decide +kernel) (by decide +kernel)
    (show 4 ≤ 7 by decide) (by decide +kernel)
  exact ⟨_, _, e', p, hrun, hsend, htrue, hfits.mpr (.inr (.inl (by decide)))⟩

/-- **Six bytes get a STATUS PDU of seven.** -/
theorem three_missing_overruns : ∃ tr e, Run machine WellFormed {} tr e ∧ e.rx.statusPduBufferSize ≤ 6 ∧
    ∃ p ∈ ((e.doNotifyTxOpportunity 6).map Prod.snd).getD [], p.header.isStatusPdu = true ∧
      p.header.nackSnList = [0, 1, 2] ∧ p.size = 7 :=
  ⟨_, _, run_of_isSome machine WellFormed _ _ threeMissing_isSome, by decide +kernel, by decide +kernel⟩

end LteRlcAm

end Ns3
