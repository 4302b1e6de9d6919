import Ns3.Rlc.UmRxSound

/-!
# The invariant of the receiving side

`Window r ur uh ux E` ties the state of a receiving side to the indices it
stands for. A PDU that arrives with an index from `uh - 512` to `ur + 512`
keeps it, and so does an expiry of the timer.
-/

namespace Ns3

open SequenceNumber10

/-! ## The buffer between `VR(UR)` and `VR(UH)` -/

/-- The last PDU before `uh` is buffered unless all are reassembled, and the
first one buffered is not far from the one expected. -/
structure Pending (pdu : Nat → Option Bytes) (m : OrdMap Nat Bytes) (ur uh E : Nat) : Prop where
  lower : ur ≤ uh
  upper : uh ≤ ur + 512
  keys : Buffered 1024 (fun i b => pdu i = some b) m ur uh
  last : ur < uh → Has 1024 m (uh - 1)
  expected : E ≤ ur
  near : ur < uh → ∃ j, ur ≤ j ∧ j ≤ E + 512 ∧ Has 1024 m j
  idle : ur = uh → E = ur

section
variable {pdu : Nat → Option Bytes} {m m' : OrdMap Nat Bytes} {ur ur' uh E E' i : Nat} {b : Bytes}

theorem Pending.ur_near (h : Pending pdu m ur uh E) : ur < E + 1024 := by
  rcases Nat.lt_or_ge ur uh with hlt | hge
  · obtain ⟨j, hj, hj', -⟩ := h.near hlt
    omega
  · have := h.idle (by have := h.lower; omega)
    omega

theorem Pending.uh_near (h : Pending pdu m ur uh E) : uh ≤ E + 1024 := by
  have hup := h.upper
  rcases Nat.lt_or_ge ur uh with hlt | hge
  · obtain ⟨j, hj, hj', -⟩ := h.near hlt
    omega
  · have := h.idle (by have := h.lower; omega)
    omega

theorem Pending.find_uh (h : Pending pdu m ur uh E) : m.find (uh % 1024) = none := by
  have hlo := h.lower
  have hup := h.upper
  cases hf : m.find (uh % 1024) with
  | none => rfl
  | some b =>
    have := (h.keys.lookup (i := uh) hlo (by omega) (by omega) hf).1
    omega

theorem Pending.place (h : Pending pdu m ur uh E) (hi : ur ≤ i) (hi' : i ≤ ur + 512) (hb : pdu i = some b)
    (hcase : i < ur + 512 ∧ ur' = ur ∨ i = ur + 512 ∧ ur' = ur + 1)
    (hc : Cleared 1024 (m.insert (i % 1024) b) m' ur ur') (hE : E ≤ E') (hE' : E' ≤ ur')
    (hflush : Has 1024 m ur → ur' = ur + 1 → E' = ur + 1) :
    Pending pdu m' ur' (max uh (i + 1)) E' ∧ ur' < max uh (i + 1) ∧ Has 1024 m' i := by
  have hlo := h.lower
  have hup := h.upper
  have hkeys := h.keys.insert (max uh (i + 1)) hi (by omega) (by omega) hb
  have hhas : Has 1024 m' i := (Has.insert_self m i b).kept hc (by omega) (by omega)
  refine ⟨⟨by omega, by omega, hc.buffered hkeys, fun hlt => ?_, hE', fun hlt => ?_, by omega⟩, by omega, hhas⟩
  · rcases Nat.lt_or_ge i uh with hin | hout
    · rw [show max uh (i + 1) = uh by omega]
      exact ((h.last (by omega)).insert i b).kept hc (by omega) (by omega)
    · rw [show max uh (i + 1) - 1 = i by omega]
      exact hhas
  · rcases Nat.lt_or_ge ur uh with hlt | hge
    · obtain ⟨j, hj, hjE, hjm⟩ := h.near hlt
      rcases Nat.lt_or_ge j ur' with hgone | hstay
      · -- only `ur` itself was flushed
        obtain rfl : j = ur := by omega
        have := hflush hjm (by lia)
        exact ⟨i, by omega, by omega, hhas⟩
      · exact ⟨j, hstay, by omega, (hjm.insert i b).kept hc hstay (by omega)⟩
    · have := h.idle (by omega)
      exact ⟨i, by omega, by omega, hhas⟩

theorem Pending.advance (h : Pending pdu m ur uh E) (hlt : ur < ur') (hle : ur' ≤ uh)
    (hc : Cleared 1024 m m' ur ur') : Pending pdu m' ur' uh ur' := by
  have hup := h.upper
  have hlast : ur' < uh → Has 1024 m' (uh - 1) := fun h' => (h.last (by omega)).kept hc (by omega) (by omega)
  exact ⟨hle, by omega, hc.buffered h.keys, hlast, Nat.le_refl _,
    fun h' => ⟨uh - 1, by omega, by omega, hlast h'⟩, fun _ => rfl⟩

end

/-! ## The invariant -/

structure Window (pdu : Nat → Option Bytes) (r : LteRlcUmRx) (ur uh ux E : Nat) : Prop where
  vrUr : r.vrUr.value = ur % 1024
  vrUh : r.vrUh.value = uh % 1024
  pending : Pending pdu r.rxBuffer ur uh E
  /-- `VR(UR)` stops at a multiple of 1024 even when that PDU is buffered. -/
  first : Has 1024 r.rxBuffer ur → ur % 1024 = 0
  timer : r.reorderingTimer = true → ur < ux ∧ ux ≤ uh ∧ Has 1024 r.rxBuffer (ux - 1) ∧
    r.vrUr = ofIndex ur (uh + 512) ∧ r.vrUh = ofIndex uh (uh + 512) ∧ r.vrUx = ofIndex ux (uh + 512)

theorem window_init (pdu : Nat → Option Bytes) : Window pdu {} 0 0 0 0 where
  vrUr := rfl
  vrUh := rfl
  pending :=
    { lower := Nat.le_refl 0
      upper := Nat.zero_le _
      keys := fun k b h => by simp at h
      last := fun h => absurd h (Nat.lt_irrefl 0)
      expected := Nat.le_refl 0
      near := fun h => absurd h (Nat.lt_irrefl 0)
      idle := fun _ => rfl }
  first _ := rfl
  timer h := by cases h

namespace Window

open LteRlcUmRx

variable {pdu : Nat → Option Bytes} {r : LteRlcUmRx} {ur uh ux E : Nat}

theorem mono (h : Window pdu r ur uh ux E) {pdu' : Nat → Option Bytes}
    (hpdu : ∀ i b, pdu i = some b → pdu' i = some b) : Window pdu' r ur uh ux E where
  vrUr := h.vrUr
  vrUh := h.vrUh
  pending := { h.pending with keys := h.pending.keys.mono hpdu }
  first := h.first
  timer := h.timer

theorem rebase (h : Window pdu r ur uh ux E) :
    Window pdu { r with vrUr := ofIndex ur (uh + 512), vrUh := ofIndex uh (uh + 512) } ur uh ux E where
  vrUr := rfl
  vrUh := rfl
  pending := h.pending
  first := h.first
  timer ht := by
    obtain ⟨h1, h2, h3, -, -, h6⟩ := h.timer ht
    exact ⟨h1, h2, h3, rfl, rfl, h6⟩

variable {P : Nat → Reassembly → List Bytes → Prop} (hP : Reassembles pdu P) {out : List Bytes}
include hP

theorem afterPlacing (h : Window pdu r ur uh ux E) (hE : P E r.reassembly out) (hur : r.vrUr = ofIndex ur (uh + 512))
    (huh : r.vrUh = ofIndex uh (uh + 512)) {i : Nat} {b : Bytes} (hb : pdu i = some b) (hlo : ur ≤ i)
    (hhi : i ≤ ur + 512) (hhi' : i < uh + 512) :
    ∃ r' o ur' ux' E', ({ r with rxBuffer := r.rxBuffer.insert (i % 1024) b } : LteRlcUmRx).afterPlacing
        (ofIndex i (uh + 512)) = some (r', o) ∧
      Window pdu r' ur' (max uh (i + 1)) ux' E' ∧ P E' r'.reassembly (out ++ o) ∧ ur ≤ ur' ∧ (i = ur → ur < ur') := by
  have hle := h.pending.lower
  have hwidth := h.pending.upper
  have hkeys := h.pending.keys.insert (max uh (i + 1)) hlo (by omega) (by omega) hb
  have hother : ∀ j, ur ≤ j → j < ur + 1024 → j ≠ i →
      (r.rxBuffer.insert (i % 1024) b).find (j % 1024) = r.rxBuffer.find (j % 1024) := by
    intro j hj hj' hne
    exact OrdMap.find_insert_ne _ (fun he => hne (eq_of_mod_eq hj hj' hlo (by lia) he)) b
  obtain ⟨m₁, ra₁, o₁, ur₁, B, E₁, hmove, hcase, hclear₁, hP₁, hEE₁, hE₁, hflush⟩ := moveWindow_eq hP
    (r := { r with rxBuffer := r.rxBuffer.insert (i % 1024) b }) hur huh hle hwidth hlo hhi hhi' hkeys
    (fun hi hsome => h.first (by
      unfold Has
      rw [← hother ur (Nat.le_refl ur) (by omega) (by omega)]
      exact hsome)) hE h.pending.expected h.pending.ur_near
  have hcase' : i < ur + 512 ∧ ur₁ = ur ∨ i = ur + 512 ∧ ur₁ = ur + 1 := by omega
  obtain ⟨hpend₁, hlt₁, hhas₁⟩ := h.pending.place hlo hhi hb hcase' hclear₁ hEE₁ hE₁
    (fun hsome => hflush (hsome.insert i b))
  have hwidth₁ := hpend₁.upper
  -- a number not received, before which the run of buffered PDUs ends
  obtain ⟨w, hw, hurw, hwuh, hwB, hB⟩ : ∃ w, m₁.find (w % 1024) = none ∧ ur₁ ≤ w ∧ w ≤ max uh (i + 1) ∧ w < B ∧
      B ≤ ur₁ + 1024 := by
    rcases hcase with ⟨hi, rfl, rfl⟩ | ⟨rfl, rfl, rfl⟩
    · by_cases hgap : uh < i
      · refine ⟨uh, ?_, hle, by lia, by lia, by lia⟩
        cases hf : m₁.find (uh % 1024) with
        | none => rfl
        | some p =>
          have hf' := hclear₁.sub hf
          rw [hother uh hle (by omega) (by omega), h.pending.find_uh] at hf'
          cases hf'
      · exact ⟨_, hpend₁.find_uh, by omega, Nat.le_refl _, by omega, by omega⟩
    · exact ⟨_, hpend₁.find_uh, by omega, Nat.le_refl _, by omega, by omega⟩
  obtain ⟨m₂, ra₂, o₂, ur₂, E₂, hadv, hur₂, hur₂w, hclear₂, hP₂, hcase₂, hfirst₂⟩ := advanceVrUr_eq hP ur₁ (max uh (i + 1))
    (r := { r with
      vrUr := ofIndex ur₁ B, vrUh := ofIndex (max uh (i + 1)) (max uh (i + 1) + 512), rxBuffer := m₁,
      reassembly := ra₁ })
    rfl hpend₁.keys hwidth₁ hw hurw hwuh hwB hB hP₁ hpend₁.expected hpend₁.uh_near
  have hpend₂ : Pending pdu m₂ ur₂ (max uh (i + 1)) E₂ := by
    rcases hcase₂ with ⟨rfl, rfl, rfl, -⟩ | ⟨hlt, rfl⟩
    · exact hpend₁
    · exact hpend₁.advance hlt (by omega) hclear₂
  obtain ⟨v, t, htimer, ht⟩ := updateReorderingTimer_eq ur₂ (max uh (i + 1)) ux
    (r := { r with
      vrUr := ofIndex ur₂ B, vrUh := ofIndex (max uh (i + 1)) (max uh (i + 1) + 512), rxBuffer := m₂,
      reassembly := ra₂ })
    rfl rfl hpend₂.lower hpend₂.upper (fun hrun => by
      obtain ⟨h1, h2, -, -, -, h6⟩ := h.timer hrun
      exact ⟨by rw [h6]; rfl, by omega, by omega⟩)
  obtain ⟨ux', hux'⟩ : ∃ ux', t = true → ur₂ < ux' ∧ ux' ≤ max uh (i + 1) ∧ Has 1024 m₂ (ux' - 1) ∧
      v = ofIndex ux' (max uh (i + 1) + 512) := by
    cases t with
    | false => exact ⟨0, fun h => by cases h⟩
    | true =>
      rcases ht rfl with ⟨hgap, rfl⟩ | ⟨hrun, hlt, -, rfl⟩
      · exact ⟨_, fun _ => ⟨hgap, Nat.le_refl _, hpend₂.last hgap, rfl⟩⟩
      · obtain ⟨h1, h2, h3, -, -, -⟩ := h.timer hrun
        have h4 : Has 1024 m₂ (ux - 1) := ((h3.insert i b).kept hclear₁ (by omega) (by omega)).kept hclear₂ (by omega) (by omega)
        exact ⟨ux, fun _ => ⟨hlt, by omega, h4, rfl⟩⟩
  refine ⟨{ r with
      vrUr := ofIndex ur₂ (max uh (i + 1) + 512), vrUh := ofIndex (max uh (i + 1)) (max uh (i + 1) + 512), vrUx := v,
      reorderingTimer := t, rxBuffer := m₂, reassembly := ra₂ },
    o₁ ++ o₂, ur₂, ux', E₂, ?_, ⟨rfl, rfl, hpend₂, hfirst₂, fun htrue => ?_⟩, ?_, by omega, ?_⟩
  · simp only [LteRlcUmRx.afterPlacing, hmove, hadv, htimer]
  · obtain ⟨h1, h2, h3, h4⟩ := hux' htrue
    exact ⟨h1, h2, h3, rfl, rfl, h4⟩
  · rw [← List.append_assoc]
    exact hP₂
  · intro hieq
    rcases hcase₂ with ⟨-, -, -, hnone⟩ | ⟨hlt, -⟩
    · rw [show ur₁ = i by omega] at hnone
      simp [Has, hnone] at hhas₁
    · omega

/-- **A PDU arrives**, with an index from `uh - 512` to `ur + 512`. -/
theorem doReceivePdu (h : Window pdu r ur uh ux E) (hE : P E r.reassembly out) {i : Nat} {b : Bytes}
    (hb : pdu i = some b) {rlcHeader : LteRlcHeader} (hd : LteRlcHeader.deserialize b = some rlcHeader)
    (hn : rlcHeader.sequenceNumber = ofIndex i 0) (hlo : uh ≤ i + 512) (hhi : i ≤ ur + 512) :
    ∃ r' o ur' uh' ux' E', r.doReceivePdu b = some (r', o) ∧ Window pdu r' ur' uh' ux' E' ∧
      P E' r'.reassembly (out ++ o) ∧ ur ≤ ur' ∧ ur' ≤ max uh (i + 1) ∧ uh' ≤ max uh (i + 1) ∧
      (i = ur → ur = uh → ur' = i + 1 ∧ uh' = i + 1) := by
  have hle := h.pending.lower
  have hbase := base_value h.vrUh
  have hseq : rlcHeader.sequenceNumber.setModulusBase (r.vrUh.sub windowSize) = ofIndex i (uh + 512) :=
    setModulusBase_eq (by rw [hn]; rfl) hbase
  obtain ⟨r₀, hr₀⟩ : ∃ r₀ : LteRlcUmRx, r₀ = { r with vrUr := ofIndex ur (uh + 512), vrUh := ofIndex uh (uh + 512) } :=
    ⟨_, rfl⟩
  have h₀ : Window pdu r₀ ur uh ux E := hr₀ ▸ h.rebase
  have hE₀ : P E r₀.reassembly out := by rw [hr₀]; exact hE
  have hur₀ : r₀.vrUr = ofIndex ur (uh + 512) := by rw [hr₀]
  have huh₀ : r₀.vrUh = ofIndex uh (uh + 512) := by rw [hr₀]
  unfold LteRlcUmRx.doReceivePdu
  rw [hd]
  simp only [hseq, setModulusBase_eq h.vrUr hbase, setModulusBase_eq h.vrUh hbase, ← hr₀]
  rcases Nat.lt_or_ge i (uh + 512) with hin | hout
  · cases hdis : r₀.isDiscarded (ofIndex i (uh + 512)) with
    | none =>
      rw [isDiscarded_eq ur uh i hur₀ huh₀ h.pending.upper hle hlo hin] at hdis
      cases hdis
    | some discarded =>
      rw [isDiscarded_eq ur uh i hur₀ huh₀ h.pending.upper hle hlo hin, Option.some.injEq] at hdis
      cases discarded with
      | true =>
        refine ⟨r₀, [], ur, uh, ux, E, rfl, h₀, by simpa using hE₀, Nat.le_refl ur, by lia, by lia, ?_⟩
        rintro rfl rfl
        simp at hdis
      | false =>
        have hur : ur ≤ i := by
          by_contra hlt
          simp [Nat.not_le.mp hlt] at hdis
        obtain ⟨r', o, ur', ux', E', hrun, hw, hP', hur', hadv⟩ := h₀.afterPlacing hP hE₀ hur₀ huh₀ hb hur hhi hin
        rw [hr₀] at hrun
        refine ⟨r', o, ur', _, ux', E', hrun, hw, hP', hur', hw.pending.lower, Nat.le_refl _, fun h1 h2 => ?_⟩
        have h3 := hadv h1
        have h4 := hw.pending.lower
        lia
  · -- only when `VR(UR)` is `VR(UH)`: the number is then that of the PDU 1024 before, which is old
    obtain rfl : ur = uh := by omega
    obtain rfl : i = ur + 512 := by lia
    have hshift : ∀ j, ofIndex j (ur + 1024 + 512) = ofIndex j (ur + 512) := fun j =>
      ofIndex_inj_value rfl (by omega)
    have hdis := isDiscarded_eq (r := r₀) (ur + 1024) (ur + 1024) (ur + 512)
      (by rw [hshift, ofIndex_add_period]; exact hur₀) (by rw [hshift, ofIndex_add_period]; exact huh₀) (by omega)
      (Nat.le_refl _) (by omega) (by omega)
    rw [hshift] at hdis
    simp only [hdis, show ur + 512 < ur + 1024 by omega, decide_true, Bool.or_true]
    exact ⟨r₀, [], ur, ur, ux, E, rfl, h₀, by simpa using hE₀, Nat.le_refl ur, by omega, by omega, fun h1 => by omega⟩

/-- **The timer expires.** -/
theorem expireReorderingTimer (h : Window pdu r ur uh ux E) (hE : P E r.reassembly out)
    (ht : r.reorderingTimer = true) :
    ∃ r' o ur' ux', r.expireReorderingTimer = some (r', o) ∧ Window pdu r' ur' uh ux' ur' ∧
      P ur' r'.reassembly (out ++ o) ∧ ur < ur' := by
  obtain ⟨hlt, hle, hhas, hur, huh, hux⟩ := h.timer ht
  have hwidth := h.pending.upper
  have hnone := h.pending.find_uh
  -- the run of buffered numbers from `ux` on
  have hex : ∃ L, r.received ((ux + L) % 1024) = false := ⟨uh - ux, by
    rw [show ux + (uh - ux) = uh by omega, received, hnone]
    rfl⟩
  obtain ⟨L, hstop, hrun⟩ : ∃ L, r.received ((ux + L) % 1024) = false ∧
      ∀ j < L, r.received ((ux + j) % 1024) = true :=
    ⟨Nat.find hex, Nat.find_spec hex, fun j hj => by simpa using Nat.find_min hex hj⟩
  have hL : ux + L ≤ uh := by
    by_contra hgt
    have := hrun (uh - ux) (by omega)
    rw [show ux + (uh - ux) = uh by omega, received, hnone] at this
    cases this
  have hloop : loopWhile (fun sn : SequenceNumber10 => r.received sn.value) SequenceNumber10.incr 1025 r.vrUx =
      some (ofIndex (ux + L) (uh + 512)) := by
    have := loopWhile_eq (fun sn : SequenceNumber10 => r.received sn.value) SequenceNumber10.incr
      (fun k => ofIndex (ux + k) (uh + 512)) (fun k => by simp [Nat.add_assoc]) L 1025 0
      (fun j hj => by simpa using hrun j hj) (by simpa using hstop) (by omega)
    rw [hux]
    simpa using this
  obtain ⟨m, ra, o, E', hint, hclear, hP', hEE', hE', hlast⟩ := reassembleSnInterval_eq hP (uh + 512) uh (ux + L)
    (by omega) hL 1025 ur { r with reorderingTimer := false, vrUr := ofIndex (ux + L) (uh + 512) } E out
    (by omega) (by omega) (by omega) (by omega) h.pending.keys hE h.pending.expected
    (by have := h.pending.uh_near; omega)
  have hE'eq : E' = ux + L := by
    refine hlast (by omega) ?_
    rcases Nat.eq_zero_or_pos L with rfl | hpos
    · exact hhas
    · have := hrun (L - 1) (by omega)
      rwa [show ux + (L - 1) = ux + L - 1 by omega] at this
  subst hE'eq
  have hpend : Pending pdu m (ux + L) uh (ux + L) := h.pending.advance (by omega) hL hclear
  have hfirst : Has 1024 m (ux + L) → (ux + L) % 1024 = 0 := by
    intro hsome
    obtain ⟨b, hb⟩ := Option.isSome_iff_exists.mp hsome
    simp [received, hclear.sub hb] at hstop
  have hgt : (ofIndex uh (uh + 512)).gt (ofIndex (ux + L) (uh + 512)) = some (decide (ux + L < uh)) := by
    rw [← ofIndex_add_period uh, ← ofIndex_add_period (ux + L), gt_ofIndex (by omega) (by omega) (by omega) (by omega)]
    simp
  unfold LteRlcUmRx.expireReorderingTimer
  simp only [received] at hloop
  simp only [received, hloop, hur, hint]
  simp only [startReorderingTimer, huh, hgt]
  rcases Nat.lt_or_ge (ux + L) uh with hgap | hend
  · refine ⟨{ r with
        vrUr := ofIndex (ux + L) (uh + 512), rxBuffer := m, reassembly := ra, vrUx := ofIndex uh (uh + 512),
        reorderingTimer := true },
      o, ux + L, uh, ?_, ⟨rfl, h.vrUh, hpend, hfirst, fun _ => ⟨hgap, Nat.le_refl _, hpend.last hgap, rfl, huh, rfl⟩⟩,
      hP', by omega⟩
    simp [hgap, huh]
  · refine ⟨{ r with
        vrUr := ofIndex (ux + L) (uh + 512), rxBuffer := m, reassembly := ra, reorderingTimer := false },
      o, ux + L, 0, ?_, ⟨rfl, h.vrUh, hpend, hfirst, fun h => by cases h⟩, hP', by omega⟩
    simp [Nat.not_lt.mpr hend, huh]

end Window

end Ns3
