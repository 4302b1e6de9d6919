import Ns3.Lib.Machine
import Ns3.Rlc.UmRxSound

/-!
# The receiving side under any arrivals

A machine that takes any PDU at any time. Nothing is known of the indices the
sequence numbers stand for, so everything is said of the values: `inWindow h sn`
is the reordering window before `VR(UH) = h`. What a step does to the buffer is
read off the step itself, whether or not the PDUs can be reassembled.
-/

namespace Ns3

open SequenceNumber10 List

inductive UmReceiverEvent where
  | arrive (p : Bytes)
  | expire

namespace LteRlcUmRx

def machine : Machine LteRlcUmRx UmReceiverEvent Bytes where
  step r
    | .arrive p => r.doReceivePdu p
    | .expire => if r.reorderingTimer then r.expireReorderingTimer else none

def inWindow (h sn : Nat) : Bool := decide ((sn + 1536 - h) % 1024 < 512)

/-! ## Values -/

/-- Values stay below the modulus, in the registers and in the buffer. -/
structure InRange (r : LteRlcUmRx) : Prop where
  vrUr : r.vrUr.value < 1024
  vrUx : r.vrUx.value < 1024
  vrUh : r.vrUh.value < 1024
  keys : ∀ k, r.received k = true → k < 1024

theorem inRange_init : InRange {} := ⟨by decide, by decide, by decide, fun _ h => nomatch h⟩

section
variable {r r' : LteRlcUmRx} {sn : SequenceNumber10} {o : List Bytes} {k : Nat} {p : Bytes}

theorem isInside_value (r : LteRlcUmRx) (sn : SequenceNumber10) (hh : r.vrUh.value < 1024) (hs : sn.value < 1024) :
    r.isInsideReorderingWindow sn =
      some (inWindow r.vrUh.value sn.value, { r with vrUh := ofIndex r.vrUh.value (r.vrUh.value + 512) }) := by
  have huh : r.vrUh.value = (r.vrUh.value + 1024) % 1024 := by omega
  have hindex : sn.value = (r.vrUh.value + 512 + (sn.value + 1536 - r.vrUh.value) % 1024) % 1024 := by omega
  have h := isInside_eq huh hindex (by omega) (by omega)
  have hbase : ofIndex (r.vrUh.value + 1024) (r.vrUh.value + 1024 + 512) = ofIndex r.vrUh.value (r.vrUh.value + 512) :=
    ofIndex_inj_value (by omega) (by omega)
  have hin : decide (r.vrUh.value + 512 + (sn.value + 1536 - r.vrUh.value) % 1024 < r.vrUh.value + 1024) =
      inWindow r.vrUh.value sn.value := by
    unfold inWindow
    exact decide_eq_decide.mpr (by omega)
  rw [h, hbase, hin]

theorem add_value_lt (s : SequenceNumber10) (d : Nat) : (s.add d).value < 1024 := Nat.mod_lt _ (by decide)

theorem deserialize_value_lt {rlcHeader : LteRlcHeader} (h : LteRlcHeader.deserialize p = some rlcHeader) :
    rlcHeader.sequenceNumber.value < 1024 := by
  unfold LteRlcHeader.deserialize at h
  split at h
  · dsimp only at h
    split at h
    · cases h
      exact Nat.mod_lt _ (by decide)
    · obtain ⟨r, -, rfl⟩ := Option.map_eq_some_iff.mp h
      exact Nat.mod_lt _ (by decide)
  · cases h

/-! ## What is reassembled leaves the buffer -/

theorem release_inv (h : r.release k p = some (r', o)) :
    ∃ ra, r' = { r with reassembly := ra, rxBuffer := r.rxBuffer.erase k } := by
  unfold release at h
  split at h
  · cases h
  · rename_i ra _ _
    exact ⟨ra, (Prod.mk.inj (Option.some.inj h)).1.symm⟩

/-- Nothing but the reassembly changes, and the buffer, which loses PDUs. -/
def Shrinks (r r' : LteRlcUmRx) : Prop :=
  ∃ m ra, r' = { r with rxBuffer := m, reassembly := ra } ∧ ∀ k, (m.find k).isSome = true → r.received k = true

theorem Shrinks.refl (r : LteRlcUmRx) : Shrinks r r := ⟨r.rxBuffer, r.reassembly, rfl, fun _ h => h⟩

theorem Shrinks.received (h : Shrinks r r') (hk : r'.received k = true) : r.received k = true := by
  obtain ⟨m, ra, rfl, hsub⟩ := h
  exact hsub k hk

theorem Shrinks.release (h : r.release k p = some (r', o)) : Shrinks r r' := by
  obtain ⟨ra, rfl⟩ := release_inv h
  refine ⟨_, ra, rfl, fun k' hk' => ?_⟩
  rw [OrdMap.find_erase] at hk'
  by_cases hk : k' = k
  · rw [if_pos hk] at hk'
    cases hk'
  · rw [if_neg hk] at hk'
    exact hk'

theorem Shrinks.trans {r'' : LteRlcUmRx} (h : Shrinks r r') (h' : Shrinks r' r'') : Shrinks r r'' := by
  obtain ⟨m, ra, rfl, hsub⟩ := h
  obtain ⟨m', ra', rfl, hsub'⟩ := h'
  exact ⟨m', ra', rfl, fun k hk => hsub k (hsub' k hk)⟩

theorem reassembleSnInterval_inv (highSeqNumber : SequenceNumber10) : ∀ (fuel : Nat) (reassembleSn : SequenceNumber10)
    {r r' : LteRlcUmRx} {o : List Bytes}, reassembleSnInterval fuel reassembleSn highSeqNumber r = some (r', o) →
    Shrinks r r' ∧ r'.received highSeqNumber.value = r.received highSeqNumber.value := by
  intro fuel
  induction fuel with
  | zero => exact fun _ _ _ _ h => nomatch h
  | succ fuel ih =>
    intro reassembleSn r r' o h
    rw [reassembleSnInterval] at h
    cases hlt : reassembleSn.lt highSeqNumber with
    | none => simp [hlt] at h
    | some less =>
      cases less with
      | false =>
        simp only [hlt, Option.some.injEq, Prod.mk.injEq] at h
        obtain ⟨rfl, -⟩ := h
        exact ⟨.refl r, rfl⟩
      | true =>
        cases hfind : r.rxBuffer.find reassembleSn.value with
        | none =>
          simp only [hlt, hfind] at h
          exact ih _ h
        | some packet =>
          cases hrel : r.release reassembleSn.value packet with
          | none => simp [hlt, hfind, hrel] at h
          | some s =>
            cases hrest : reassembleSnInterval fuel reassembleSn.incr highSeqNumber s.1 with
            | none => simp [hlt, hfind, hrel, hrest] at h
            | some t =>
              simp only [hlt, hfind, hrel, hrest, Option.some.injEq, Prod.mk.injEq] at h
              obtain ⟨rfl, -⟩ := h
              obtain ⟨hshrinks, hend⟩ := ih _ hrest
              refine ⟨(Shrinks.release hrel).trans hshrinks, hend.trans ?_⟩
              have hne : highSeqNumber.value ≠ reassembleSn.value := by
                intro heq
                unfold SequenceNumber10.lt at hlt
                obtain ⟨g, -, hg⟩ := Option.map_eq_some_iff.mp hlt
                simp [SequenceNumber10.eq, heq] at hg
              obtain ⟨ra, hs⟩ := release_inv hrel
              rw [hs]
              simp [LteRlcUmRx.received, OrdMap.find_erase, hne]

/-! ## Flushing -/

theorem entries_erase_head {m : OrdMap Nat Bytes} {e : Nat × Bytes} {es : List (Nat × Bytes)} (h : m.entries = e :: es) :
    (m.erase e.1).entries = es := by
  have hsorted := m.sorted
  rw [h] at hsorted
  unfold OrdMap.erase
  simp only [h]
  rw [filter_cons_of_neg (by simp), filter_eq_self]
  intro e' he'
  simpa using ((pairwise_cons.mp hsorted).1 e' he').ne'

theorem reassembleOutsideWindow_inv : ∀ (es : List (Nat × Bytes)) {r r' : LteRlcUmRx} {o : List Bytes},
    r.rxBuffer.entries = es → r.vrUh.value < 1024 → (∀ e ∈ es, e.1 < 1024) →
    reassembleOutsideWindow es r = some (r', o) →
    ∃ v m ra, r' = { r with vrUh := v, rxBuffer := m, reassembly := ra } ∧ v.value = r.vrUh.value ∧
      m.entries = es.dropWhile fun e => !inWindow r.vrUh.value e.1 := by
  intro es
  induction es with
  | nil =>
    intro r r' o hes _ _ h
    cases h
    exact ⟨r.vrUh, r.rxBuffer, r.reassembly, rfl, rfl, hes⟩
  | cons e es ih =>
    intro r r' o hes hh hkeys h
    have he : (SequenceNumber10.ofValue e.1).value = e.1 := Nat.mod_eq_of_lt (hkeys e mem_cons_self)
    have hinside := isInside_value r (.ofValue e.1) hh (by rw [he]; exact hkeys e mem_cons_self)
    rw [he] at hinside
    rw [reassembleOutsideWindow, hinside] at h
    cases hin : inWindow r.vrUh.value e.1 with
    | true =>
      simp only [hin, Option.some.injEq, Prod.mk.injEq] at h
      obtain ⟨rfl, -⟩ := h
      refine ⟨_, r.rxBuffer, r.reassembly, rfl, Nat.mod_eq_of_lt hh, ?_⟩
      rw [hes, dropWhile_cons_of_neg (by simp [hin])]
    | false =>
      rw [hin] at h
      obtain ⟨r₁, hr₁⟩ : ∃ r₁ : LteRlcUmRx, r₁ = { r with vrUh := ofIndex r.vrUh.value (r.vrUh.value + 512) } := ⟨_, rfl⟩
      have hvalue : r₁.vrUh.value = r.vrUh.value := by
        rw [hr₁]
        exact Nat.mod_eq_of_lt hh
      rw [← hr₁] at h
      cases hrel : r₁.release e.1 e.2 with
      | none => simp [hrel] at h
      | some s =>
        obtain ⟨ra, hs⟩ := release_inv hrel
        cases hrest : reassembleOutsideWindow es s.1 with
        | none => simp [hrel, hrest] at h
        | some t =>
          simp only [hrel, hrest, Option.some.injEq, Prod.mk.injEq] at h
          obtain ⟨rfl, -⟩ := h
          have hbuffer : s.1.rxBuffer.entries = es := by
            rw [hs, hr₁]
            exact entries_erase_head hes
          have hsvalue : s.1.vrUh.value = r.vrUh.value := by
            rw [hs]
            exact hvalue
          obtain ⟨v, m, ra', ht, hv, hm⟩ := ih hbuffer (by omega) (fun e' he' => hkeys e' (mem_cons_of_mem e he')) hrest
          refine ⟨v, m, ra', ?_, hv.trans hsvalue, ?_⟩
          · rw [ht, hs, hr₁]
          · rw [hm, hsvalue, dropWhile_cons_of_pos (by simp [hin])]

theorem moveWindow_inv (hr : r.InRange) (hs : sn.value < 1024) (h : r.moveWindow sn = some (r', o)) :
    ∃ v m ra, r'.rxBuffer = m ∧ r'.vrUh = v ∧ r'.reassembly = ra ∧ r'.vrUx = r.vrUx ∧ r'.reorderingTimer = r.reorderingTimer ∧
      if inWindow r.vrUh.value sn.value then v.value = r.vrUh.value ∧ m = r.rxBuffer ∧ r'.vrUr = r.vrUr
      else v.value = (sn.value + 1) % 1024 ∧
        m.entries = (r.rxBuffer.entries.dropWhile fun e => !inWindow ((sn.value + 1) % 1024) e.1) ∧
        r'.vrUr = if inWindow ((sn.value + 1) % 1024) r.vrUr.value then r.vrUr else ofIndex (sn.value + 513) (sn.value + 513) := by
  have hkeys : ∀ e ∈ r.rxBuffer.entries, e.1 < 1024 := by
    intro e he
    apply hr.keys
    rw [received, OrdMap.find_of_mem _ he]
    rfl
  unfold moveWindow at h
  rw [isInside_value r sn hr.vrUh hs] at h
  cases hin : inWindow r.vrUh.value sn.value with
  | true =>
    simp only [hin, Option.some.injEq, Prod.mk.injEq] at h
    obtain ⟨rfl, -⟩ := h
    exact ⟨_, _, _, rfl, rfl, rfl, rfl, rfl, Nat.mod_eq_of_lt hr.vrUh, rfl, rfl⟩
  | false =>
    simp only [hin] at h
    cases hflush : reassembleOutsideWindow r.rxBuffer.entries
        { r with vrUh := sn.add 1 } with
    | none => simp [hflush] at h
    | some res =>
      obtain ⟨t, flushed⟩ := res
      obtain ⟨v, m, ra, ht, hv, hm⟩ := reassembleOutsideWindow_inv r.rxBuffer.entries
        (r := { r with vrUh := sn.add 1 }) rfl (add_value_lt sn 1) hkeys hflush
      have hvalue : t.vrUh.value = (sn.value + 1) % 1024 := by
        rw [ht]
        exact hv
      have hvrUr : t.vrUr = r.vrUr := by rw [ht]
      have hinside := isInside_value t t.vrUr (by rw [hvalue]; omega) (by rw [hvrUr]; exact hr.vrUr)
      rw [hvalue] at hinside
      simp only [hflush, hinside] at h
      rw [← hvrUr]
      have hbuffer : t.rxBuffer = m := by rw [ht]
      cases hedge : inWindow ((sn.value + 1) % 1024) t.vrUr.value with
      | true =>
        simp only [hedge, Option.some.injEq, Prod.mk.injEq] at h
        obtain ⟨rfl, -⟩ := h
        refine ⟨_, _, _, rfl, rfl, rfl, by rw [ht], by rw [ht], ?_⟩
        refine ⟨Nat.mod_mod .., ?_, ?_⟩
        · rw [hbuffer]
          exact hm
        · rw [hvrUr]
          rfl
      | false =>
        simp only [hedge, Option.some.injEq, Prod.mk.injEq] at h
        obtain ⟨rfl, -⟩ := h
        refine ⟨_, _, _, rfl, rfl, rfl, by rw [ht], by rw [ht], ?_⟩
        refine ⟨Nat.mod_mod .., ?_, ?_⟩
        · rw [hbuffer]
          exact hm
        · rw [windowSize, sub_ofIndex _ _ (by decide)]
          exact ofIndex_inj_value (by omega) (by omega)

/-! ## `VR(UR)` and the timer -/

theorem advanceVrUr_inv (hr : r.InRange) (h : r.advanceVrUr = some (r', o)) :
    (r.received r.vrUr.value = false ∧ r' = r) ∨
      r.received r.vrUr.value = true ∧ ∃ w, r.vrUr.value < w ∧ w ≤ 1024 ∧ r.received w = false ∧
        (∀ k, r.vrUr.value ≤ k → k < w → r.received k = true) ∧
        reassembleSnInterval 1025 r.vrUr (r.vrUr.assign w) { r with vrUr := r.vrUr.assign w } = some (r', o) := by
  unfold advanceVrUr at h
  cases hhas : r.received r.vrUr.value with
  | false =>
    simp only [hhas, Bool.false_eq_true, if_false, Option.some.injEq, Prod.mk.injEq] at h
    exact .inl ⟨rfl, h.1.symm⟩
  | true =>
    refine .inr ⟨rfl, ?_⟩
    have hnone : r.received 1024 = false := by
      cases h1024 : r.received 1024 with
      | false => rfl
      | true => exact absurd (hr.keys 1024 h1024) (Nat.lt_irrefl _)
    have hvr := hr.vrUr
    have hex : ∃ L, r.received (r.vrUr.value + L) = false := ⟨1024 - r.vrUr.value, by
      rw [show r.vrUr.value + (1024 - r.vrUr.value) = 1024 by omega]
      exact hnone⟩
    obtain ⟨L, hstop, hrun⟩ : ∃ L, r.received (r.vrUr.value + L) = false ∧ ∀ j < L, r.received (r.vrUr.value + j) = true :=
      ⟨Nat.find hex, Nat.find_spec hex, fun j hj => by simpa using Nat.find_min hex hj⟩
    have hL : 0 < L := by
      rcases Nat.eq_zero_or_pos L with rfl | hpos
      · simp [hhas] at hstop
      · exact hpos
    have hle : r.vrUr.value + L ≤ 1024 := by
      by_contra hgt
      have := hrun (1024 - r.vrUr.value) (by omega)
      rw [show r.vrUr.value + (1024 - r.vrUr.value) = 1024 by omega, hnone] at this
      cases this
    have hloop : loopWhile r.received (fun v => (v + 1) % 65536) 65537 ((r.vrUr.value + 1) % 65536) =
        some (r.vrUr.value + L) := by
      have hl := loopWhile_eq r.received (fun v => (v + 1) % 65536)
        (fun k => (r.vrUr.value + 1 + k) % 65536) (fun k => by omega) (L - 1) 65537 0
        (fun j hj => by
          rw [show (r.vrUr.value + 1 + (0 + j)) % 65536 = r.vrUr.value + (j + 1) by omega]
          exact hrun (j + 1) (by omega))
        (by rw [show (r.vrUr.value + 1 + (0 + (L - 1))) % 65536 = r.vrUr.value + L by omega]; exact hstop) (by omega)
      rw [show (r.vrUr.value + 1 + (0 + (L - 1))) % 65536 = r.vrUr.value + L by omega] at hl
      simpa using hl
    refine ⟨r.vrUr.value + L, by omega, hle, hstop, fun k hk hk' => ?_, ?_⟩
    · have := hrun (k - r.vrUr.value) (by omega)
      rwa [show r.vrUr.value + (k - r.vrUr.value) = k by omega] at this
    · simpa only [hhas, if_true, hloop] using h

theorem startReorderingTimer_inv (h : r.startReorderingTimer = some r') :
    r'.vrUr = r.vrUr ∧ r'.vrUh = r.vrUh ∧ r'.rxBuffer = r.rxBuffer ∧ (r'.vrUx = r.vrUx ∨ r'.vrUx = r.vrUh) := by
  unfold startReorderingTimer at h
  split at h
  · cases h
    exact ⟨rfl, rfl, rfl, .inl rfl⟩
  · split at h
    · cases h
    · cases h
      exact ⟨rfl, rfl, rfl, .inr rfl⟩
    · cases h
      exact ⟨rfl, rfl, rfl, .inl rfl⟩

theorem updateReorderingTimer_inv (hr : r.InRange) (h : r.updateReorderingTimer = some r') :
    r'.vrUr.value = r.vrUr.value ∧ r'.vrUh.value = r.vrUh.value ∧ r'.rxBuffer = r.rxBuffer ∧
      (r'.vrUx.value = r.vrUx.value ∨ r'.vrUx.value = r.vrUh.value) := by
  -- the last step, from a state that differs in the timer and in bases
  have hlast : ∀ r₂ : LteRlcUmRx, r₂.vrUr.value = r.vrUr.value → r₂.vrUx.value = r.vrUx.value →
      r₂.vrUh.value = r.vrUh.value → r₂.rxBuffer = r.rxBuffer → r₂.startReorderingTimer = some r' →
      r'.vrUr.value = r.vrUr.value ∧ r'.vrUh.value = r.vrUh.value ∧ r'.rxBuffer = r.rxBuffer ∧
        (r'.vrUx.value = r.vrUx.value ∨ r'.vrUx.value = r.vrUh.value) := by
    intro r₂ h1 h2 h3 h4 hstart
    obtain ⟨h5, h6, h7, h8⟩ := startReorderingTimer_inv hstart
    refine ⟨by rw [h5, h1], by rw [h6, h3], by rw [h7, h4], ?_⟩
    rcases h8 with h8 | h8
    · exact .inl (by rw [h8, h2])
    · exact .inr (by rw [h8, h3])
  unfold updateReorderingTimer at h
  dsimp only at h
  cases ht : r.reorderingTimer with
  | false =>
    simp only [ht, Bool.false_eq_true, if_false] at h
    refine hlast _ ?_ ?_ ?_ ?_ h <;> rfl
  | true =>
    simp only [ht, if_true] at h
    cases hle : (r.vrUx.setModulusBase (r.vrUh.sub windowSize)).le (r.vrUr.setModulusBase (r.vrUh.sub windowSize)) with
    | none => simp [hle] at h
    | some passed =>
      cases passed with
      | true =>
        simp only [hle] at h
        refine hlast _ ?_ ?_ ?_ ?_ h <;> rfl
      | false =>
        simp only [hle] at h
        rw [isInside_value _ _ (by exact hr.vrUh) (by exact hr.vrUx)] at h
        refine hlast _ ?_ ?_ ?_ ?_ h
        · rfl
        · rfl
        · exact Nat.mod_eq_of_lt hr.vrUh
        · rfl

end

/-! ## Whole steps -/

def rebased (r : LteRlcUmRx) : LteRlcUmRx :=
  { r with vrUr := r.vrUr.setModulusBase (r.vrUh.sub windowSize), vrUh := r.vrUh.setModulusBase (r.vrUh.sub windowSize) }

def placed (r : LteRlcUmRx) (x : Nat) (p : Bytes) : LteRlcUmRx := { r.rebased with rxBuffer := r.rxBuffer.insert x p }

/-- A PDU that came before, or comes too late. -/
def Discards (r : LteRlcUmRx) (seqNumber : SequenceNumber10) : Prop :=
  r.rebased.isDiscarded (seqNumber.setModulusBase (r.vrUh.sub windowSize)) = some true

section
variable {r r' : LteRlcUmRx} {o : List Bytes} {x k : Nat} {p : Bytes}

theorem received_placed : (r.placed x p).received k = true ↔ k = x ∨ r.received k = true := by
  unfold received placed
  rw [OrdMap.find_insert]
  by_cases hk : k = x <;> simp [hk]

theorem InRange.placed (h : r.InRange) (hx : x < 1024) (p : Bytes) : (r.placed x p).InRange := by
  refine ⟨h.vrUr, h.vrUx, h.vrUh, fun k hk => ?_⟩
  rcases received_placed.mp hk with rfl | hk
  · exact hx
  · exact h.keys k hk

theorem doReceivePdu_inv (h : r.doReceivePdu p = some (r', o)) :
    ∃ rlcHeader, LteRlcHeader.deserialize p = some rlcHeader ∧ (r.Discards rlcHeader.sequenceNumber ∧ r' = r.rebased ∨
        ¬ r.Discards rlcHeader.sequenceNumber ∧ ∃ r₁ r₂ o₁ o₂, (r.placed rlcHeader.sequenceNumber.value p).moveWindow
            (rlcHeader.sequenceNumber.setModulusBase (r.vrUh.sub windowSize)) = some (r₁, o₁) ∧
          r₁.advanceVrUr = some (r₂, o₂) ∧ r₂.updateReorderingTimer = some r') := by
  unfold doReceivePdu at h
  cases hd : LteRlcHeader.deserialize p with
  | none => simp [hd] at h
  | some rlcHeader =>
    refine ⟨rlcHeader, rfl, ?_⟩
    simp only [hd] at h
    cases hdis : r.rebased.isDiscarded (rlcHeader.sequenceNumber.setModulusBase (r.vrUh.sub windowSize)) with
    | none =>
      have hnone := hdis
      unfold rebased at hnone
      simp [hnone] at h
    | some discarded =>
      have hsome := hdis
      unfold rebased at hsome
      cases discarded with
      | true =>
        simp only [hsome, Option.some.injEq, Prod.mk.injEq] at h
        exact .inl ⟨hdis, h.1.symm⟩
      | false =>
        simp only [hsome] at h
        change (r.placed rlcHeader.sequenceNumber.value p).afterPlacing
          (rlcHeader.sequenceNumber.setModulusBase (r.vrUh.sub windowSize)) = some (r', o) at h
        refine .inr ⟨fun hd => ?_, ?_⟩
        · unfold Discards at hd
          rw [hdis] at hd
          cases hd
        · unfold afterPlacing at h
          split at h
          · cases h
          · rename_i r₁ o₁ hmove
            split at h
            · cases h
            · rename_i r₂ o₂ hadv
              split at h
              · cases h
              · rename_i r₃ htimer
                cases h
                exact ⟨r₁, r₂, o₁, o₂, hmove, hadv, htimer⟩

theorem expireReorderingTimer_inv {motive : SequenceNumber10 → Prop} (hux : motive r.vrUx)
    (hnext : ∀ sn, r.received sn.value = true → motive sn → motive sn.incr) (h : r.expireReorderingTimer = some (r', o)) :
    ∃ newVrUr r₁, r.received newVrUr.value = false ∧ motive newVrUr ∧
      reassembleSnInterval 1025 r.vrUr newVrUr { r with reorderingTimer := false, vrUr := newVrUr } = some (r₁, o) ∧
      r₁.startReorderingTimer = some r' := by
  unfold expireReorderingTimer at h
  dsimp only at h
  split at h
  · cases h
  · rename_i newVrUr hloop
    obtain ⟨hstop, hnew⟩ := loopWhile_some hnext 1025 hux hloop
    split at h
    · cases h
    · rename_i r₁ o₁ hint
      split at h
      · cases h
      · rename_i r₂ hstart
        cases h
        exact ⟨newVrUr, r₁, hstop, hnew, hint, hstart⟩

/-! ## Values stay in range -/

theorem received_iff : r.received k = true ↔ ∃ p, (k, p) ∈ r.rxBuffer.entries := by
  unfold received
  rw [Option.isSome_iff_exists]
  exact ⟨fun ⟨p, hp⟩ => ⟨p, lookupEntry_mem hp⟩, fun ⟨p, hp⟩ => ⟨p, OrdMap.find_of_mem _ hp⟩⟩

theorem received_of_dropWhile {q : Nat × Bytes → Bool} (h : r'.rxBuffer.entries = r.rxBuffer.entries.dropWhile q)
    (hk : r'.received k = true) : r.received k = true := by
  obtain ⟨p, hp⟩ := received_iff.mp hk
  rw [h] at hp
  exact received_iff.mpr ⟨p, (dropWhile_suffix _).subset hp⟩

theorem InRange.moveWindow (hr : r.InRange) {sn : SequenceNumber10} (hs : sn.value < 1024)
    (h : r.moveWindow sn = some (r', o)) : r'.InRange := by
  obtain ⟨v, m, ra, hm, hv, -, hux, -, hcase⟩ := moveWindow_inv hr hs h
  rw [← hv, ← hm] at hcase
  by_cases hin : inWindow r.vrUh.value sn.value = true
  · rw [if_pos hin] at hcase
    obtain ⟨h1, h2, h3⟩ := hcase
    refine ⟨h3 ▸ hr.vrUr, hux ▸ hr.vrUx, h1 ▸ hr.vrUh, fun k hk => hr.keys k ?_⟩
    rw [received, ← h2]
    exact hk
  · rw [if_neg hin] at hcase
    obtain ⟨h1, h2, h3⟩ := hcase
    refine ⟨?_, hux ▸ hr.vrUx, by omega, fun k hk => hr.keys k (received_of_dropWhile h2 hk)⟩
    rw [h3]
    split
    · exact hr.vrUr
    · exact Nat.mod_lt _ (by decide)

theorem InRange.shrinks (hr : r.InRange) (h : Shrinks r r') : r'.InRange := by
  have hkeys : ∀ k, r'.received k = true → k < 1024 := fun k hk => hr.keys k (h.received hk)
  obtain ⟨m, ra, rfl, -⟩ := h
  exact ⟨hr.vrUr, hr.vrUx, hr.vrUh, hkeys⟩

theorem InRange.advanceVrUr (hr : r.InRange) (h : r.advanceVrUr = some (r', o)) : r'.InRange := by
  rcases advanceVrUr_inv hr h with ⟨-, rfl⟩ | ⟨-, w, -, -, -, -, hint⟩
  · exact hr
  · have hassign : ({ r with vrUr := r.vrUr.assign w } : LteRlcUmRx).InRange :=
      ⟨Nat.mod_lt _ (by decide), hr.vrUx, hr.vrUh, hr.keys⟩
    exact hassign.shrinks (reassembleSnInterval_inv _ _ _ hint).1

theorem InRange.updateReorderingTimer (hr : r.InRange) (h : r.updateReorderingTimer = some r') : r'.InRange := by
  obtain ⟨h1, h2, h3, h4⟩ := updateReorderingTimer_inv hr h
  refine ⟨h1 ▸ hr.vrUr, ?_, h2 ▸ hr.vrUh, fun k hk => hr.keys k ?_⟩
  · rcases h4 with h4 | h4
    · exact h4 ▸ hr.vrUx
    · exact h4 ▸ hr.vrUh
  · rw [received, ← h3]
    exact hk

theorem InRange.doReceivePdu (hr : r.InRange) (h : r.doReceivePdu p = some (r', o)) : r'.InRange := by
  obtain ⟨rlcHeader, hd, hcase⟩ := doReceivePdu_inv h
  rcases hcase with ⟨-, rfl⟩ | ⟨-, r₁, r₂, o₁, o₂, hmove, hadv, htimer⟩
  · exact ⟨hr.vrUr, hr.vrUx, hr.vrUh, hr.keys⟩
  · have hx := deserialize_value_lt hd
    have hsn : (rlcHeader.sequenceNumber.setModulusBase (r.vrUh.sub windowSize)).value < 1024 := hx
    have hmoved : r₁.InRange := (hr.placed hx p).moveWindow hsn hmove
    exact (hmoved.advanceVrUr hadv).updateReorderingTimer htimer

theorem InRange.expireReorderingTimer (hr : r.InRange) (h : r.expireReorderingTimer = some (r', o)) : r'.InRange := by
  obtain ⟨newVrUr, r₁, -, hlt, hint, hstart⟩ := expireReorderingTimer_inv (motive := fun sn => sn.value < 1024) hr.vrUx
    (fun _ _ _ => Nat.mod_lt _ (by decide)) h
  have hnew : ({ r with reorderingTimer := false, vrUr := newVrUr } : LteRlcUmRx).InRange := ⟨hlt, hr.vrUx, hr.vrUh, hr.keys⟩
  have h₁ := hnew.shrinks (reassembleSnInterval_inv _ _ _ hint).1
  obtain ⟨h2, h3, h4, h5⟩ := startReorderingTimer_inv hstart
  refine ⟨h2 ▸ h₁.vrUr, ?_, h3 ▸ h₁.vrUh, fun k hk => h₁.keys k ?_⟩
  · rcases h5 with h5 | h5
    · exact h5 ▸ h₁.vrUx
    · exact h5 ▸ h₁.vrUh
  · rw [received, ← h4]
    exact hk

/-- Every value stays below the modulus, whatever arrives. -/
theorem InRange.step (hr : r.InRange) {e : UmReceiverEvent} (h : machine.step r e = some (r', o)) : r'.InRange := by
  cases e with
  | arrive p => exact hr.doReceivePdu h
  | expire =>
    change (if r.reorderingTimer then r.expireReorderingTimer else none) = some (r', o) at h
    split at h
    · exact hr.expireReorderingTimer h
    · cases h

end

end LteRlcUmRx

end Ns3
