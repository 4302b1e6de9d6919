import Ns3.Lib.RingMap
import Ns3.Rlc.UmTxSound

/-!
# The receiving side over absolute indices

The PDUs of a sender are counted from 0 on, and `VR(UR)`, `VR(UX)` and `VR(UH)`
stand for indices `ur`, `ux` and `uh` among them. `Window` is what holds
between two events while every arriving PDU is near enough to these:
comparisons of sequence numbers are then those of the indices. What is
reassembled is tracked by a predicate `P E`, where `E` is the index after the
last PDU reassembled; PDUs are reassembled in ascending order of their index.
-/

namespace Ns3

open SequenceNumber10

namespace SequenceNumber10

theorem setModulusBase_eq {s base : SequenceNumber10} {i j : Nat} (hs : s.value = i % 1024)
    (hb : base.value = j % 1024) : s.setModulusBase base = ofIndex i j := by
  simp [setModulusBase, ofIndex, hs, hb]

theorem sub_value {s : SequenceNumber10} {i d : Nat} (hs : s.value = i % 1024) (hd : d < 1024) :
    (s.sub d).value = (i + (1024 - d)) % 1024 := by
  have h := sub_ofIndex i s.modulusBase hd
  have hv : (s.sub d).value = ((ofIndex i s.modulusBase).sub d).value := by simp [sub, hs, ofIndex]
  rw [hv, h, ofIndex_value]

end SequenceNumber10

namespace LteRlcUmRx

/-! ## Comparisons in the window -/

section
variable {r : LteRlcUmRx} {uh j : Nat}

theorem base_value (hh : r.vrUh.value = uh % 1024) : (r.vrUh.sub windowSize).value = (uh + 512) % 1024 :=
  sub_value hh (by decide)

theorem isInside_eq (hh : r.vrUh.value = uh % 1024) {sn : SequenceNumber10} (hs : sn.value = j % 1024)
    (hlo : uh ≤ j + 512) (hhi : j < uh + 512) :
    r.isInsideReorderingWindow sn = some (decide (j < uh), { r with vrUh := ofIndex uh (uh + 512) }) := by
  have hvrUh : r.vrUh.setModulusBase (r.vrUh.sub windowSize) = ofIndex uh (uh + 512) :=
    setModulusBase_eq hh (base_value hh)
  have hbase : (ofIndex uh (uh + 512)).sub windowSize = ofIndex (uh + 512) (uh + 512) := sub_ofIndex _ _ (by decide)
  have hseq : sn.setModulusBase (ofIndex (uh + 512) (uh + 512)) = ofIndex (j + 1024) (uh + 512) := by
    rw [ofIndex_add_period]
    exact setModulusBase_eq hs rfl
  unfold isInsideReorderingWindow
  simp only [hvrUh, hbase, hseq]
  rw [← ofIndex_add_period uh, le_ofIndex (by omega) (by omega) (by omega) (by omega),
    lt_ofIndex (by omega) (by omega) (by omega) (by omega), andAlso_some]
  simp only [show uh + 512 ≤ j + 1024 by omega, decide_true, Bool.true_and, Nat.add_lt_add_iff_right]

theorem isDiscarded_eq (ur uh i : Nat) (hur : r.vrUr = ofIndex ur (uh + 512)) (huh : r.vrUh = ofIndex uh (uh + 512))
    (hlo : uh ≤ ur + 512) (hle : ur ≤ uh) (hi : uh ≤ i + 512) (hi' : i < uh + 512) :
    r.isDiscarded (ofIndex i (uh + 512)) =
      some (decide (ur < i ∧ i < uh) && r.received (i % 1024) || decide (i < ur)) := by
  have hbase : (ofIndex uh (uh + 512)).sub windowSize = ofIndex (uh + 512) (uh + 512) := sub_ofIndex _ _ (by decide)
  unfold isDiscarded
  rw [hur, huh, hbase, ← ofIndex_add_period ur, ← ofIndex_add_period i, ← ofIndex_add_period uh,
    lt_ofIndex (by omega) (by omega) (by omega) (by omega), lt_ofIndex (by omega) (by omega) (by omega) (by omega),
    le_ofIndex (by omega) (by omega) (by omega) (by omega), lt_ofIndex (by omega) (by omega) (by omega) (by omega)]
  simp only [andAlso_some, orElse_some, ofIndex_value, Nat.add_mod_right, Nat.add_lt_add_iff_right,
    show uh + 512 ≤ i + 1024 by omega, decide_true, Bool.true_and, Bool.decide_and]

end

/-! ## Reassembling in order -/

/-- `P E` is kept by the reassembly of the PDU with an index from `E` on. -/
def Reassembles (pdu : Nat → Option Bytes) (P : Nat → Reassembly → List Bytes → Prop) : Prop :=
  ∀ p b E ra out, pdu p = some b → E ≤ p → p < E + 1024 → P E ra out →
    ∃ ra' d, reassembleAndDeliver ra b = some (ra', d) ∧ P (p + 1) ra' (out ++ d)

section
variable {pdu : Nat → Option Bytes} {P : Nat → Reassembly → List Bytes → Prop} (hP : Reassembles pdu P)
include hP

variable {r : LteRlcUmRx} {out : List Bytes}

theorem release_eq {p E : Nat} {b : Bytes} (hp : pdu p = some b) (hlo : E ≤ p)
    (hhi : p < E + 1024) (h : P E r.reassembly out) (k : Nat) :
    ∃ ra d, r.release k b = some ({ r with reassembly := ra, rxBuffer := r.rxBuffer.erase k }, d) ∧
      P (p + 1) ra (out ++ d) := by
  obtain ⟨ra, d, hra, hP'⟩ := hP p b E r.reassembly out hp hlo hhi h
  exact ⟨ra, d, by rw [release, hra], hP'⟩

theorem reassembleSnInterval_eq (B hi b : Nat) (hB : b < B) (hbhi : b ≤ hi) : ∀ (fuel a : Nat) (r : LteRlcUmRx) (E : Nat)
    (out : List Bytes), b - a < fuel → a ≤ b → hi ≤ a + 1024 → B ≤ a + 1024 →
    Buffered 1024 (fun i b => pdu i = some b) r.rxBuffer a hi → P E r.reassembly out → E ≤ a → b ≤ E + 1024 →
    ∃ m ra o E', reassembleSnInterval fuel (ofIndex a B) (ofIndex b B) r =
        some ({ r with rxBuffer := m, reassembly := ra }, o) ∧
      Cleared 1024 r.rxBuffer m a b ∧ P E' ra (out ++ o) ∧ E ≤ E' ∧ E' ≤ b ∧
      (a < b → (r.rxBuffer.find ((b - 1) % 1024)).isSome → E' = b) := by
  intro fuel
  induction fuel with
  | zero => intro a r E out hfuel; omega
  | succ fuel ih =>
    intro a r E out hfuel hab hhi hBa hbuf hE hEa hbE
    have hlt : (ofIndex a B).lt (ofIndex b B) = some (decide (a < b)) := by
      rw [← ofIndex_add_period a, ← ofIndex_add_period b, lt_ofIndex (by omega) (by omega) (by omega) (by omega)]
      simp
    unfold reassembleSnInterval
    rw [hlt]
    rcases Nat.lt_or_ge a b with hlt | hge
    · simp only [hlt, decide_true, ofIndex_value, incr_ofIndex]
      cases hf : r.rxBuffer.find (a % 1024) with
      | none =>
        -- nothing to reassemble at `a`
        have hskip := Cleared.skip hf
        obtain ⟨m, ra, o, E', hrun, hclear, hP', hEE', hE'b, hlast⟩ := ih (a + 1) r E out (by lia) hlt (by lia)
          (by lia) (hskip.buffered hbuf) hE (by lia) hbE
        refine ⟨m, ra, o, E', hrun, hskip.trans hclear (by omega) hlt, hP', hEE', hE'b, fun _ hsome => ?_⟩
        rcases Nat.lt_or_ge (a + 1) b with hlt' | hge'
        · exact hlast hlt' hsome
        · obtain rfl : b - 1 = a := by omega
          rw [hf] at hsome
          cases hsome
      | some packet =>
        obtain ⟨-, hpdu⟩ := hbuf.lookup (Nat.le_refl a) (by omega) hhi hf
        obtain ⟨ra₁, d, hrel, hP₁⟩ := release_eq hP hpdu hEa (by omega) hE (a % 1024)
        have herase := Cleared.erase (N := 1024) r.rxBuffer a
        obtain ⟨m, ra, o, E', hrun, hclear, hP', hEE', hE'b, hlast⟩ :=
          ih (a + 1) { r with reassembly := ra₁, rxBuffer := r.rxBuffer.erase (a % 1024) } (a + 1) (out ++ d) (by omega)
            hlt (by omega) (by omega) (herase.buffered hbuf) hP₁ (Nat.le_refl _) (by omega)
        refine ⟨m, ra, d ++ o, E', ?_, herase.trans hclear (by omega) hlt, ?_, by omega, hE'b, fun _ hsome => ?_⟩
        · simp only [hrel, hrun]
        · rw [← List.append_assoc]
          exact hP'
        · rcases Nat.lt_or_ge (a + 1) b with hlt' | hge'
          · refine hlast hlt' ?_
            rw [← herase.kept_at (i := b - 1) (by omega) (by omega)] at hsome
            exact hsome
          · omega
    · obtain rfl : a = b := by omega
      refine ⟨r.rxBuffer, r.reassembly, [], E, ?_, Cleared.refl _ a, by simpa using hE, Nat.le_refl E, hEa, ?_⟩
      · simp
      · intro h
        omega

omit hP in
theorem reassembleOutsideWindow_inside (uh : Nat) (hh : r.vrUh.value = uh % 1024)
    {es : List (Nat × Bytes)} (hin : ∀ e ∈ es, ∃ j, e.1 = j % 1024 ∧ uh ≤ j + 512 ∧ j < uh) :
    ∃ v, v.value = uh % 1024 ∧ reassembleOutsideWindow es r = some ({ r with vrUh := v }, []) := by
  cases es with
  | nil => exact ⟨r.vrUh, hh, rfl⟩
  | cons e es =>
    obtain ⟨j, hj, hlo, hhi⟩ := hin e List.mem_cons_self
    refine ⟨ofIndex uh (uh + 512), rfl, ?_⟩
    have hvalue : (SequenceNumber10.ofValue e.1).value = j % 1024 := by simp [SequenceNumber10.ofValue, hj]
    unfold reassembleOutsideWindow
    rw [isInside_eq hh hvalue hlo (by omega)]
    simp [hhi]

theorem reassembleOutsideWindow_eq (ur uh : Nat) {E : Nat}
    (hh : r.vrUh.value = uh % 1024) (hlo : ur ≤ uh) (hhi : uh ≤ ur + 513)
    (hbuf : Buffered 1024 (fun i b => pdu i = some b) r.rxBuffer ur uh)
    (hfirst : uh = ur + 513 → (r.rxBuffer.find (ur % 1024)).isSome → ur % 1024 = 0)
    (hE : P E r.reassembly out) (hEur : E ≤ ur) (hnear : ur < E + 1024) :
    ∃ v m ra o E', reassembleOutsideWindow r.rxBuffer.entries r =
        some ({ r with vrUh := v, rxBuffer := m, reassembly := ra }, o) ∧ v.value = uh % 1024 ∧
      Cleared 1024 r.rxBuffer m ur (if uh = ur + 513 then ur + 1 else ur) ∧ P E' ra (out ++ o) ∧ E ≤ E' ∧
      (E' = E ∨ E' = ur + 1 ∧ uh = ur + 513) ∧
      (uh = ur + 513 → (r.rxBuffer.find (ur % 1024)).isSome → E' = ur + 1) := by
  have hin : ∀ e ∈ r.rxBuffer.entries, (uh = ur + 513 → e.1 ≠ ur % 1024) →
      ∃ j, e.1 = j % 1024 ∧ uh ≤ j + 512 ∧ j < uh := by
    intro e he hne
    obtain ⟨j, hj, hj', hk, -⟩ := hbuf e.1 e.2 (r.rxBuffer.find_of_mem he)
    refine ⟨j, hk.symm, ?_, hj'⟩
    by_contra hout
    obtain rfl : j = ur := by omega
    exact hne (by omega) hk.symm
  by_cases houtside : uh = ur + 513 ∧ (r.rxBuffer.find (ur % 1024)).isSome
  · -- the entry for `ur` has the smallest key there is
    obtain ⟨huh, hsome⟩ := houtside
    have hzero := hfirst huh hsome
    obtain ⟨b, hb⟩ := Option.isSome_iff_exists.mp hsome
    obtain ⟨es, hes⟩ := r.rxBuffer.entries_of_least hb fun e _ => by rw [hzero]; exact Nat.zero_le _
    obtain ⟨-, hpdu⟩ := hbuf.lookup (Nat.le_refl ur) (by omega) (by omega) hb
    obtain ⟨ra, d, hrel, hP'⟩ := release_eq hP (r := { r with vrUh := ofIndex uh (uh + 512) }) hpdu hEur (by omega) hE
      (ur % 1024)
    have hrest : ∀ e ∈ es, ∃ j, e.1 = j % 1024 ∧ uh ≤ j + 512 ∧ j < uh := by
      intro e he
      refine hin e (by rw [hes]; exact List.mem_cons_of_mem _ he) fun _ heq => ?_
      have hsorted := r.rxBuffer.sorted
      rw [hes] at hsorted
      exact absurd ((List.pairwise_cons.mp hsorted).1 e he) (by simp [heq])
    obtain ⟨v, hv, hstop⟩ := reassembleOutsideWindow_inside uh
      (r := { r with vrUh := ofIndex uh (uh + 512), reassembly := ra, rxBuffer := r.rxBuffer.erase (ur % 1024) })
      rfl hrest
    refine ⟨v, r.rxBuffer.erase (ur % 1024), ra, d, ur + 1, ?_, hv, ?_, hP', by omega, .inr ⟨rfl, huh⟩,
      fun _ _ => rfl⟩
    · have hvalue : (SequenceNumber10.ofValue (ur % 1024)).value = (ur + 1024) % 1024 := by
        simp [SequenceNumber10.ofValue]
      have houtside : r.isInsideReorderingWindow (SequenceNumber10.ofValue (ur % 1024)) =
          some (false, { r with vrUh := ofIndex uh (uh + 512) }) := by
        rw [isInside_eq hh hvalue (by omega) (by omega)]
        simp [show ¬(ur + 1024 < uh) by omega]
      rw [hes, reassembleOutsideWindow]
      simp only [houtside, hrel, hstop, List.append_nil]
    · rw [if_pos huh]
      exact Cleared.erase r.rxBuffer ur
  · have hall : ∀ e ∈ r.rxBuffer.entries, ∃ j, e.1 = j % 1024 ∧ uh ≤ j + 512 ∧ j < uh := by
      intro e he
      refine hin e he fun huh heq => houtside ⟨huh, ?_⟩
      rw [← heq, r.rxBuffer.find_of_mem he]
      rfl
    obtain ⟨v, hv, hstop⟩ := reassembleOutsideWindow_inside uh hh hall
    refine ⟨v, r.rxBuffer, r.reassembly, [], E, hstop, hv, ?_, by simpa using hE, Nat.le_refl E, .inl rfl, ?_⟩
    · split
      · rename_i huh
        refine Cleared.skip ?_
        simpa [huh] using houtside
      · exact Cleared.refl _ ur
    · intro huh hsome
      exact absurd ⟨huh, hsome⟩ houtside

theorem moveWindow_eq {ur uh i E : Nat} (hur : r.vrUr = ofIndex ur (uh + 512))
    (huh : r.vrUh = ofIndex uh (uh + 512)) (hle : ur ≤ uh) (hwidth : uh ≤ ur + 512) (hi : ur ≤ i) (hi' : i ≤ ur + 512)
    (hi'' : i < uh + 512) (hbuf : Buffered 1024 (fun i b => pdu i = some b) r.rxBuffer ur (max uh (i + 1)))
    (hfirst : i = ur + 512 → (r.rxBuffer.find (ur % 1024)).isSome → ur % 1024 = 0)
    (hE : P E r.reassembly out) (hEur : E ≤ ur) (hnear : ur < E + 1024) :
    ∃ m ra o ur' B E', r.moveWindow (ofIndex i (uh + 512)) =
        some ({ r with
          vrUr := ofIndex ur' B
          vrUh := ofIndex (max uh (i + 1)) (max uh (i + 1) + 512)
          rxBuffer := m
          reassembly := ra }, o) ∧
      (i < ur + 512 ∧ ur' = ur ∧ B = uh + 512 ∨ i = ur + 512 ∧ ur' = ur + 1 ∧ B = i + 1 + 512) ∧
      Cleared 1024 r.rxBuffer m ur ur' ∧ P E' ra (out ++ o) ∧ E ≤ E' ∧ E' ≤ ur' ∧
      ((r.rxBuffer.find (ur % 1024)).isSome → ur' = ur + 1 → E' = ur + 1) := by
  have hinside : r.isInsideReorderingWindow (ofIndex i (uh + 512)) =
      some (decide (i < uh), { r with vrUh := ofIndex uh (uh + 512) }) :=
    isInside_eq (by rw [huh]; rfl) rfl (by omega) hi''
  unfold moveWindow
  rw [hinside]
  rcases Nat.lt_or_ge i uh with hlt | hge
  · -- inside: nothing moves
    have hmax : max uh (i + 1) = uh := by omega
    rw [hmax]
    refine ⟨r.rxBuffer, r.reassembly, [], ur, uh + 512, E, ?_, .inl ⟨by omega, rfl, rfl⟩, Cleared.refl _ ur,
      by simpa using hE, Nat.le_refl E, hEur, by omega⟩
    simp [hlt, ← hur]
  · have hmax : max uh (i + 1) = i + 1 := by omega
    rw [hmax] at hbuf ⊢
    obtain ⟨v, m, ra, o, E', hrun, hv, hclear, hP', hEE', hE', hsome⟩ := reassembleOutsideWindow_eq hP ur (i + 1)
      (r := { r with vrUh := ofIndex (i + 1) (uh + 512) }) rfl (by omega) (by omega) hbuf
      (fun h => hfirst (by omega)) hE hEur hnear
    simp only [Nat.not_lt.mpr hge, decide_false, add_ofIndex, hrun]
    rcases Nat.lt_or_ge i (ur + 512) with hin | hout
    · have hvrUr : ({ r with vrUh := v, rxBuffer := m, reassembly := ra } : LteRlcUmRx).isInsideReorderingWindow r.vrUr =
          some (true, { r with vrUh := ofIndex (i + 1) (i + 1 + 512), rxBuffer := m, reassembly := ra }) := by
        rw [isInside_eq hv (j := ur) (by rw [hur]; rfl) (by omega) (by omega)]
        simp [show ur < i + 1 by omega]
      rw [if_neg (by omega)] at hclear
      refine ⟨m, ra, o, ur, uh + 512, E', ?_, .inl ⟨hin, rfl, rfl⟩, hclear, hP', hEE', by lia, by lia⟩
      simp only [hvrUr, ← hur]
    · obtain rfl : i = ur + 512 := by omega
      have hvrUr : ({ r with vrUh := v, rxBuffer := m, reassembly := ra } : LteRlcUmRx).isInsideReorderingWindow r.vrUr =
          some (false, { r with vrUh := ofIndex (ur + 513) (ur + 513 + 512), rxBuffer := m, reassembly := ra }) := by
        rw [isInside_eq hv (j := ur + 1024) (by rw [hur]; simp) (by omega) (by omega)]
        simp
      have hsub : (ofIndex (ur + 513) (ur + 513 + 512)).sub windowSize = ofIndex (ur + 1) (ur + 513 + 512) := by
        rw [sub_ofIndex _ _ (by decide), ← ofIndex_add_period (ur + 1)]
        rfl
      rw [if_pos rfl] at hclear
      refine ⟨m, ra, o, ur + 1, ur + 513 + 512, E', ?_, .inr ⟨rfl, rfl, rfl⟩, hclear, hP', hEE', by lia,
        fun h _ => hsome rfl h⟩
      simp only [hvrUr, hsub]

theorem advanceVrUr_eq (ur uh : Nat) {B w E : Nat} (hur : r.vrUr = ofIndex ur B)
    (hbuf : Buffered 1024 (fun i b => pdu i = some b) r.rxBuffer ur uh) (hwidth : uh ≤ ur + 512)
    (hw : r.rxBuffer.find (w % 1024) = none) (hurw : ur ≤ w) (hwuh : w ≤ uh) (hwB : w < B) (hB : B ≤ ur + 1024)
    (hE : P E r.reassembly out) (hEur : E ≤ ur) (hnear : uh ≤ E + 1024) :
    ∃ m ra o ur' E', r.advanceVrUr = some ({ r with vrUr := ofIndex ur' B, rxBuffer := m, reassembly := ra }, o) ∧
      ur ≤ ur' ∧ ur' ≤ w ∧ Cleared 1024 r.rxBuffer m ur ur' ∧ P E' ra (out ++ o) ∧
      (ur' = ur ∧ E' = E ∧ m = r.rxBuffer ∧ r.rxBuffer.find (ur % 1024) = none ∨ ur < ur' ∧ E' = ur') ∧
      ((m.find (ur' % 1024)).isSome → ur' % 1024 = 0) := by
  unfold advanceVrUr
  rw [hur]
  by_cases hhas : r.received (ur % 1024)
  · have hnone : r.received 1024 = false := by
      cases hf : r.rxBuffer.find 1024 with
      | none => simp [received, hf]
      | some b =>
        obtain ⟨j, -, -, hk, -⟩ := hbuf _ _ hf
        omega
    -- the run of buffered numbers from `ur` on, cut off at 1024
    have hex : ∃ L, r.received (ur % 1024 + L) = false := ⟨1024 - ur % 1024, by
      rw [show ur % 1024 + (1024 - ur % 1024) = 1024 by omega]
      exact hnone⟩
    obtain ⟨L, hstop, hrun⟩ : ∃ L, r.received (ur % 1024 + L) = false ∧ ∀ j < L, r.received (ur % 1024 + j) = true :=
      ⟨Nat.find hex, Nat.find_spec hex, fun j hj => by simpa using Nat.find_min hex hj⟩
    have hL0 : 0 < L := by
      rcases Nat.eq_zero_or_pos L with rfl | h
      · simp [hhas] at hstop
      · exact h
    have hL : ur % 1024 + L ≤ 1024 := by
      by_contra h
      have := hrun (1024 - ur % 1024) (by omega)
      rw [show ur % 1024 + (1024 - ur % 1024) = 1024 by omega, hnone] at this
      cases this
    have hLw : L ≤ w - ur := by
      by_contra h
      have := hrun (w - ur) (by omega)
      rw [show ur % 1024 + (w - ur) = w % 1024 by omega, received, hw] at this
      cases this
    have hloop : loopWhile r.received (fun v => (v + 1) % 65536) 65537 ((ur % 1024 + 1) % 65536) =
        some (ur % 1024 + L) := by
      have h := loopWhile_eq r.received (fun v => (v + 1) % 65536)
        (fun k => (ur % 1024 + 1 + k) % 65536) (fun k => by lia) (L - 1) 65537 0
        (fun j hj => by
          rw [show (ur % 1024 + 1 + (0 + j)) % 65536 = ur % 1024 + (j + 1) by omega]
          exact hrun (j + 1) (by omega))
        (by rw [show (ur % 1024 + 1 + (0 + (L - 1))) % 65536 = ur % 1024 + L by omega]; exact hstop) (by omega)
      rw [show (ur % 1024 + 1 + (0 + (L - 1))) % 65536 = ur % 1024 + L by omega] at h
      simpa using h
    have hassign : (ofIndex ur B).assign (ur % 1024 + L) = ofIndex (ur + L) B := by
      rw [assign_ofIndex]
      exact ofIndex_inj_value (by lia) rfl
    obtain ⟨m, ra, o, E', hint, hclear, hP', hEE', hE', hlast⟩ := reassembleSnInterval_eq hP B uh (ur + L)
      (by omega) (by omega) 1025 ur { r with vrUr := ofIndex (ur + L) B } E out (by omega) (by omega)
      (by omega) hB hbuf hE hEur (by omega)
    have hE'eq : E' = ur + L := hlast (by omega) (by
      have := hrun (L - 1) (by lia)
      rwa [show ur % 1024 + (L - 1) = (ur + L - 1) % 1024 by lia] at this)
    refine ⟨m, ra, o, ur + L, E', ?_, by omega, by omega, hclear, hP', .inr ⟨by omega, hE'eq⟩, fun hsome => ?_⟩
    · simp only [ofIndex_value, hhas, if_true, hloop, hassign, hint]
    · obtain ⟨b, hb⟩ := Option.isSome_iff_exists.mp hsome
      have hb' := hclear.sub hb
      by_contra hne
      rw [show (ur + L) % 1024 = ur % 1024 + L by omega] at hb'
      simp [received, hb'] at hstop
  · have hf : r.rxBuffer.find (ur % 1024) = none := by simpa [received] using hhas
    refine ⟨r.rxBuffer, r.reassembly, [], ur, E, ?_, Nat.le_refl ur, hurw, Cleared.refl _ ur, by simpa using hE,
      .inl ⟨rfl, rfl, rfl, hf⟩, ?_⟩
    · rw [ofIndex_value, if_neg hhas, ← hur]
    · simp [hf]

end

theorem updateReorderingTimer_eq (ur uh ux : Nat) {r : LteRlcUmRx} (hur : r.vrUr.value = ur % 1024)
    (huh : r.vrUh.value = uh % 1024) (hle : ur ≤ uh) (hwidth : uh ≤ ur + 512)
    (hux : r.reorderingTimer = true → r.vrUx.value = ux % 1024 ∧ uh ≤ ux + 512 ∧ ux < uh + 512) :
    ∃ v t, r.updateReorderingTimer =
        some { r with
          vrUr := ofIndex ur (uh + 512), vrUh := ofIndex uh (uh + 512), vrUx := v, reorderingTimer := t } ∧
      (t = true → ur < uh ∧ v = ofIndex uh (uh + 512) ∨
        r.reorderingTimer = true ∧ ur < ux ∧ ux ≤ uh ∧ v = ofIndex ux (uh + 512)) := by
  have hbase := base_value huh
  have hgt : (ofIndex uh (uh + 512)).gt (ofIndex ur (uh + 512)) = some (decide (ur < uh)) := by
    rw [← ofIndex_add_period ur, ← ofIndex_add_period uh, gt_ofIndex (by omega) (by omega) (by omega) (by omega)]
    simp
  -- a timer that is not running when `VR(UH)` is compared with `VR(UR)`
  have hstart : ∀ v, ∃ v' t, ({ r with
          vrUr := ofIndex ur (uh + 512), vrUh := ofIndex uh (uh + 512), vrUx := v,
          reorderingTimer := false } : LteRlcUmRx).startReorderingTimer =
        some { r with
          vrUr := ofIndex ur (uh + 512), vrUh := ofIndex uh (uh + 512), vrUx := v', reorderingTimer := t } ∧
      (t = true → ur < uh ∧ v' = ofIndex uh (uh + 512)) := by
    intro v
    rcases Nat.lt_or_ge ur uh with hlt | hge
    · exact ⟨_, true, by simp [startReorderingTimer, hgt, hlt], fun _ => ⟨hlt, rfl⟩⟩
    · exact ⟨v, false, by simp [startReorderingTimer, hgt, Nat.not_lt.mpr hge], by simp⟩
  unfold updateReorderingTimer
  simp only [setModulusBase_eq hur hbase, setModulusBase_eq huh hbase]
  cases ht : r.reorderingTimer with
  | false =>
    obtain ⟨v, t, hrun, hv⟩ := hstart (r.vrUx.setModulusBase (r.vrUh.sub windowSize))
    refine ⟨v, t, ?_, fun h => .inl (hv h)⟩
    simpa [ht] using hrun
  | true =>
    obtain ⟨huxv, hlo, hhi⟩ := hux ht
    have hcmp : (ofIndex ux (uh + 512)).le (ofIndex ur (uh + 512)) = some (decide (ux ≤ ur)) := by
      rw [← ofIndex_add_period ux, ← ofIndex_add_period ur, le_ofIndex (by omega) (by omega) (by omega) (by omega)]
      simp
    simp only [setModulusBase_eq huxv hbase, if_true, hcmp]
    rcases Nat.lt_or_ge ur ux with hlt | hge
    · have hinside : (decide (ux < uh) || (ofIndex ux (uh + 512)).eq (ofIndex uh (uh + 512))) = decide (ux ≤ uh) := by
        rw [← ofIndex_add_period ux, ← ofIndex_add_period uh, eq_ofIndex (by omega) (by omega) (by omega) (by omega),
          ← Bool.decide_or]
        exact decide_eq_decide.mpr (by lia)
      simp only [Nat.not_le.mpr hlt, decide_false]
      rw [isInside_eq (show (ofIndex uh (uh + 512)).value = uh % 1024 from rfl) (j := ux) rfl hlo (by omega)]
      simp only [hinside]
      rcases Nat.lt_or_ge uh ux with hout | hin
      · -- ahead of the window: the timer stops
        obtain ⟨v, t, hrun, hv⟩ := hstart (ofIndex ux (uh + 512))
        refine ⟨v, t, ?_, fun h => .inl (hv h)⟩
        simpa [Nat.not_le.mpr hout] using hrun
      · refine ⟨ofIndex ux (uh + 512), true, ?_, fun _ => .inr ⟨trivial, hlt, hin, rfl⟩⟩
        simp [hin, startReorderingTimer]
    · obtain ⟨v, t, hrun, hv⟩ := hstart (ofIndex ux (uh + 512))
      refine ⟨v, t, ?_, fun h => .inl (hv h)⟩
      simpa [hge] using hrun

end LteRlcUmRx

end Ns3
