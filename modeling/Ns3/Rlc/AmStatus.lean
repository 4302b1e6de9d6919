import Ns3.Rlc.AmWindow

/-!
# STATUS PDUs

A STATUS PDU tells the truth at the time it is built: every PDU before the
number it acknowledges was received, unless it is among those it reports
missing.
-/

namespace Ns3

open LteRlcAmHeader

theorem LteRlcAmHeader.pushNack_eq {h : LteRlcAmHeader} (hstatus : h.isStatusPdu = true) (nack : Nat) :
    ∃ h', h.pushNack nack = some h' ∧ h'.isStatusPdu = true ∧ h'.nackSnList = h.nackSnList ++ [nack] := by
  unfold pushNack
  rw [if_pos hstatus]
  exact ⟨_, rfl, hstatus, rfl⟩

namespace LteRlcAmRx

open SequenceNumber10

/-- The numbers of the PDUs from `a` up to `b` that were not received. -/
def missingFrom (r : LteRlcAmRx) (a b : Nat) : List Nat :=
  ((List.range' a (b - a)).map (· % 1024)).filter fun sn => !r.received sn

theorem mem_missingFrom {r : LteRlcAmRx} {a b j : Nat} (ha : a ≤ j) (hb : j < b) (h : r.received (j % 1024) = false) :
    j % 1024 ∈ r.missingFrom a b := by
  refine List.mem_filter.mpr ⟨List.mem_map.mpr ⟨j, ?_, rfl⟩, by simp [h]⟩
  exact List.mem_range'_1.mpr ⟨ha, by omega⟩

theorem missingFrom_self (r : LteRlcAmRx) (a : Nat) : r.missingFrom a a = [] := by
  simp [missingFrom]

theorem missingFrom_cons (r : LteRlcAmRx) {a b : Nat} (h : a < b) :
    r.missingFrom a b = (if r.received (a % 1024) then [] else [a % 1024]) ++ r.missingFrom (a + 1) b := by
  have hlen : b - a = b - (a + 1) + 1 := by omega
  unfold missingFrom
  rw [hlen, List.range'_succ, List.map_cons, List.filter_cons]
  cases r.received (a % 1024) <;> rfl

section
variable {r : LteRlcAmRx} {R MS : Nat}

theorem nackLoop_eq (hMs : r.vrMs = ofIndex MS R) (hwidth : MS ≤ R + 512) (bytes : Nat) :
    ∀ (fuel a : Nat) (h : LteRlcAmHeader), R ≤ a → a ≤ MS → MS - a < fuel → h.isStatusPdu = true →
      ∃ n h', r.nackLoop bytes fuel (ofIndex a R) h = some (ofIndex n R, h') ∧ a ≤ n ∧ n ≤ MS ∧
        h'.isStatusPdu = true ∧ h'.nackSnList = h.nackSnList ++ r.missingFrom a n
  | 0, _, _, _, _, hfuel, _ => absurd hfuel (Nat.not_lt_zero _)
  | fuel + 1, a, h, ha, haMS, hfuel, hstatus => by
    have hstop : ∃ n h', some (ofIndex a R, h) = some (ofIndex n R, h') ∧ a ≤ n ∧ n ≤ MS ∧
        h'.isStatusPdu = true ∧ h'.nackSnList = h.nackSnList ++ r.missingFrom a n :=
      ⟨a, h, rfl, Nat.le_refl a, haMS, hstatus, by rw [missingFrom_self, List.append_nil]⟩
    unfold nackLoop
    rw [hMs, lt_ofIndex ha (by omega) (by omega) (by omega), ofIndex_value, incr_ofIndex]
    rcases Nat.lt_or_ge a MS with hlt | hge
    · rw [decide_eq_true hlt, oneMoreNackWouldFitIn, if_pos hstatus]
      dsimp only
      split
      · rename_i hnone
        cases hnone
      · exact hstop
      · cases hrec : r.received (a % 1024) with
        | true =>
          obtain ⟨n, h', hrun, han, hnMS, hst, hlist⟩ :=
            nackLoop_eq hMs hwidth bytes fuel (a + 1) h (by omega) hlt (by omega) hstatus
          refine ⟨n, h', by simpa using hrun, by omega, hnMS, hst, ?_⟩
          rw [hlist, missingFrom_cons r (show a < n by omega), hrec]
          rfl
        | false =>
          obtain ⟨h₁, hpush, hst₁, hlist₁⟩ := pushNack_eq hstatus (a % 1024)
          obtain ⟨n, h', hrun, han, hnMS, hst, hlist⟩ :=
            nackLoop_eq hMs hwidth bytes fuel (a + 1) h₁ (by omega) hlt (by omega) hst₁
          refine ⟨n, h', by simpa [hpush] using hrun, by omega, hnMS, hst, ?_⟩
          rw [hlist, hlist₁, missingFrom_cons r (show a < n by omega), hrec]
          simp
    · rw [decide_eq_false (Nat.not_lt.mpr hge)]
      exact hstop

theorem ackLoop_eq (hMs : r.vrMs = ofIndex MS R) (hwidth : MS ≤ R + 512) :
    ∀ fuel a : Nat, R ≤ a → a ≤ MS → MS - a < fuel →
      ∃ n, r.ackLoop fuel (ofIndex a R) = some (ofIndex n R) ∧ a ≤ n ∧ n ≤ MS ∧
        ∀ j, a ≤ j → j < n → r.received (j % 1024) = true
  | 0, _, _, _, hfuel => absurd hfuel (Nat.not_lt_zero _)
  | fuel + 1, a, ha, haMS, hfuel => by
    unfold ackLoop
    rw [hMs, lt_ofIndex ha (by omega) (by omega) (by omega), andAlso_some, ofIndex_value, incr_ofIndex]
    cases hcond : decide (a < MS) && r.received (a % 1024) with
    | false => exact ⟨a, rfl, Nat.le_refl a, haMS, by omega⟩
    | true =>
      obtain ⟨hlt, hrec⟩ := Bool.and_eq_true_iff.mp hcond
      have hlt := of_decide_eq_true hlt
      obtain ⟨n, hrun, han, hnMS, hall⟩ := ackLoop_eq hMs hwidth fuel (a + 1) (by omega) hlt (by omega)
      refine ⟨n, hrun, by omega, hnMS, fun j hj hjn => ?_⟩
      rcases Nat.eq_or_lt_of_le hj with rfl | hj
      · exact hrec
      · exact hall j hj hjn

end

theorem Collects.buildStatusPdu_eq {P : Nat → AmPacket → Prop} {r : LteRlcAmRx} {R MS H X : Nat}
    (h : Collects P r R MS H X) (bytes : Nat) : ∃ n ack rlcAmHeader,
      r.nackLoop bytes 1025 (ofIndex R R) (setControlPdu {} STATUS_PDU) = some (ofIndex n R, rlcAmHeader) ∧
      r.buildStatusPdu bytes = some (.addHeader (rlcAmHeader.setAckSn (ofIndex ack R)) []) ∧
      R ≤ n ∧ n ≤ ack ∧ ack ≤ MS ∧ rlcAmHeader.isStatusPdu = true ∧
      rlcAmHeader.nackSnList = r.missingFrom R n ∧ ∀ j, n ≤ j → j < ack → r.received (j % 1024) = true := by
  have hlo := h.lower
  have hmid := h.middle
  have hup := h.upper
  obtain ⟨n, hdr, hnack, hRn, hnMS, hstatus, hlist⟩ := nackLoop_eq h.vrMs (by omega) bytes 1025 R
    (setControlPdu {} STATUS_PDU) (Nat.le_refl R) hlo (by omega) rfl
  obtain ⟨ack, hack, hna, haMS, hall⟩ := ackLoop_eq h.vrMs (by omega) 1025 n hRn hnMS (by omega)
  refine ⟨n, ack, hdr, hnack, ?_, hRn, hna, haMS, hstatus, hlist, hall⟩
  unfold LteRlcAmRx.buildStatusPdu
  rw [h.vrR, hnack]
  dsimp only
  rw [hack]
  dsimp only
  rw [h.vrMs, le_ofIndex (by omega) (by omega) hlo (by omega), decide_eq_true haMS]

/-- **The report.** It acknowledges an index `ack` up to `VR(MS)`; what was not
received before it, it reports. -/
theorem Collects.buildStatusPdu {P : Nat → AmPacket → Prop} {r : LteRlcAmRx} {R MS H X : Nat}
    (h : Collects P r R MS H X) (bytes : Nat) :
    ∃ p ack, r.buildStatusPdu bytes = some p ∧ R ≤ ack ∧ ack ≤ MS ∧ p.header.isStatusPdu = true ∧
      p.header.ackSn.value = ack % 1024 ∧ ∀ j < ack, r.Got R j ∨ j % 1024 ∈ p.header.nackSnList := by
  have hmid := h.middle
  have hup := h.upper
  obtain ⟨n, ack, hdr, -, hbuild, hRn, hna, haMS, hstatus, hlist, hall⟩ := h.buildStatusPdu_eq bytes
  refine ⟨_, ack, hbuild, by omega, haMS, hstatus, ?_, fun j hj => ?_⟩
  · simp [AmPacket.addHeader, setAckSn, SequenceNumber10.ofValue]
  · have hgot : ∀ j, R ≤ j → j < ack → r.received (j % 1024) = true → r.Got R j := by
      intro j hj hja hrec
      rw [received_eq h.keys] at hrec
      exact .inr ⟨by omega, hrec⟩
    rcases Nat.lt_or_ge j R with hjR | hjR
    · exact .inl (.inl hjR)
    · rcases Nat.lt_or_ge j n with hjn | hjn
      · cases hrec : r.received (j % 1024) with
        | true => exact .inl (hgot j hjR hj hrec)
        | false =>
          refine .inr ?_
          simp only [AmPacket.addHeader, setAckSn, hlist]
          exact mem_missingFrom hjR hjn hrec
      · exact .inl (hgot j hjR hj (hall j hjn hj))

end LteRlcAmRx

end Ns3
