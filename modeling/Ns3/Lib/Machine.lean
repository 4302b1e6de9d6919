import Mathlib.Data.List.Basic

/-!
# Machines and their runs

A machine takes one event at a time and answers with its next state and what
it puts out; an undefined step (a failed assertion, a dangling iterator, an
event that cannot happen now) has no successor. A run records each event with
its outputs. `Run C` are the runs whose every step meets `C` in the state
before it; properties of runs follow from properties of steps by
`Run.invariant`.
-/

namespace Ns3

open List

structure Machine (σ ε ο : Type) where
  step : σ → ε → Option (σ × List ο)

namespace Machine

variable {σ ε ο : Type}

inductive Run (M : Machine σ ε ο) (C : σ → ε → Prop) (s₀ : σ) : List (ε × List ο) → σ → Prop
  | nil : Run M C s₀ [] s₀
  | snoc {tr s e s' o} : Run M C s₀ tr s → C s e → M.step s e = some (s', o) →
      Run M C s₀ (tr ++ [(e, o)]) s'

def anyStep : σ → ε → Prop := fun _ _ => True

instance (s : σ) (e : ε) : Decidable (anyStep s e) := .isTrue trivial

def outputs (tr : List (ε × List ο)) : List ο := tr.flatMap Prod.snd

@[simp] theorem outputs_nil : outputs ([] : List (ε × List ο)) = [] := rfl

theorem outputs_append (tr tr' : List (ε × List ο)) : outputs (tr ++ tr') = outputs tr ++ outputs tr' := by
  simp [outputs]

@[simp] theorem outputs_snoc (tr : List (ε × List ο)) (e : ε) (o : List ο) :
    outputs (tr ++ [(e, o)]) = outputs tr ++ o := by
  simp [outputs]

section
variable {M : Machine σ ε ο} {C : σ → ε → Prop} {s₀ : σ}

/-- **Invariant rule.** What holds at the start and is kept by every step that
meets `C` holds at the end of every such run, of its trace and its state. -/
theorem Run.invariant (I : List (ε × List ο) → σ → Prop) (h0 : I [] s₀)
    (hstep : ∀ tr s e s' o, I tr s → C s e → M.step s e = some (s', o) → I (tr ++ [(e, o)]) s') :
    ∀ {tr s}, Run M C s₀ tr s → I tr s := by
  intro tr s h
  induction h with
  | nil => exact h0
  | snoc _ hc hs ih => exact hstep _ _ _ _ _ ih hc hs

theorem Run.mono {C' : σ → ε → Prop} (hC : ∀ s e, C s e → C' s e) : ∀ {tr s}, Run M C s₀ tr s → Run M C' s₀ tr s := by
  intro tr s h
  induction h with
  | nil => exact .nil
  | snoc _ hc hs ih => exact .snoc ih (hC _ _ hc) hs

theorem Run.append {tr tr' : List (ε × List ο)} {s s' : σ} (h : Run M C s₀ tr s) (h' : Run M C s tr' s') :
    Run M C s₀ (tr ++ tr') s' := by
  induction h' with
  | nil => rwa [append_nil]
  | snoc _ hc hs ih =>
    rw [← append_assoc]
    exact .snoc ih hc hs

theorem Run.last {tr : List (ε × List ο)} {e : ε} {o : List ο} {s' : σ} (h : Run M C s₀ (tr ++ [(e, o)]) s') :
    ∃ s, Run M C s₀ tr s ∧ C s e ∧ M.step s e = some (s', o) := by
  generalize htr : tr ++ [(e, o)] = tr' at h
  cases h with
  | nil => simp at htr
  | snoc h hc hs =>
    obtain ⟨rfl, heq⟩ := append_inj' htr rfl
    cases (List.cons.inj heq).1
    exact ⟨_, h, hc, hs⟩

theorem Run.unique {C' : σ → ε → Prop} : ∀ {tr s s'}, Run M C s₀ tr s → Run M C' s₀ tr s' → s = s' := by
  intro tr s s' h
  induction h generalizing s' with
  | nil =>
    intro h'
    generalize htr : ([] : List (ε × List ο)) = tr' at h'
    cases h' with
    | nil => rfl
    | snoc => simp at htr
  | snoc _ _ hs ih =>
    intro h'
    obtain ⟨s₁, h₁, -, hs₁⟩ := h'.last
    rw [ih h₁, hs₁] at hs
    exact (Prod.mk.inj (Option.some.inj hs)).1.symm

/-- **Condition rule.** When an output breaks `Q` just when its step does not meet `C`, all
outputs of a run meet `Q` just when it is a run under `C`. -/
theorem Run.forall_outputs_iff {Q : ο → Prop} (hstep : ∀ tr s e s' o, Run M anyStep s₀ tr s → M.step s e = some (s', o) →
    ((∀ x ∈ o, Q x) ↔ C s e)) : ∀ {tr s}, Run M anyStep s₀ tr s → ((∀ x ∈ outputs tr, Q x) ↔ Run M C s₀ tr s) := by
  intro tr s h
  induction h with
  | nil => simp [Run.nil]
  | snoc hrun _ hs ih =>
    have hiff := hstep _ _ _ _ _ hrun hs
    rw [outputs_snoc, forall_mem_append, ih, hiff]
    constructor
    · intro ⟨hbefore, hc⟩
      exact .snoc hbefore hc hs
    · intro hafter
      obtain ⟨_, hbefore, hc, _⟩ := hafter.last
      obtain rfl := hbefore.unique hrun
      exact ⟨hbefore, hc⟩

theorem Run.before {tr rest : List (ε × List ο)} {s : σ} (h : Run M C s₀ (tr ++ rest) s) : ∃ s', Run M C s₀ tr s' := by
  generalize htr : tr ++ rest = tr' at h
  induction h generalizing rest with
  | nil => exact ⟨s₀, (append_eq_nil_iff.mp htr).1 ▸ .nil⟩
  | snoc h hc hs ih =>
    rcases eq_nil_or_concat rest with rfl | ⟨init, last, rfl⟩
    · rw [append_nil] at htr
      rw [htr]
      exact ⟨_, Run.snoc h hc hs⟩
    · rw [concat_eq_append, ← append_assoc] at htr
      exact ih (append_inj' htr rfl).1

/-- **Simulation rule.** When every step that meets `C` is matched by a step of
another machine, with the same outputs, its runs are runs of that machine. -/
theorem Run.simulation {τ : Type} (N : Machine τ ε ο) (t₀ : τ) (R : σ → τ → Prop) (h0 : R s₀ t₀)
    (hstep : ∀ s t e s' o, R s t → C s e → M.step s e = some (s', o) → ∃ t', N.step t e = some (t', o) ∧ R s' t') :
    ∀ {tr s}, Run M C s₀ tr s → ∃ t, Run N anyStep t₀ tr t ∧ R s t := by
  intro tr s h
  induction h with
  | nil => exact ⟨t₀, .nil, h0⟩
  | snoc _ hc hs ih =>
    obtain ⟨t, hrun, hR⟩ := ih
    obtain ⟨t', ht', hR'⟩ := hstep _ _ _ _ _ hR hc hs
    exact ⟨t', .snoc hrun trivial ht', hR'⟩

end

/-- The state after a recorded run, when the machine puts out what is recorded. -/
def replay [DecidableEq ο] (M : Machine σ ε ο) : σ → List (ε × List ο) → Option σ
  | s, [] => some s
  | s, (e, o) :: tr =>
    match M.step s e with
    | none => none
    | some (s', o') => if o' = o then replay M s' tr else none

theorem replay_append [DecidableEq ο] (M : Machine σ ε ο) (tr' : List (ε × List ο)) :
    ∀ (tr : List (ε × List ο)) (s : σ), M.replay s (tr ++ tr') = (M.replay s tr).bind fun s' => M.replay s' tr'
  | [], _ => rfl
  | (e, o) :: tr, s => by
    rw [List.cons_append, replay, replay]
    split
    · rfl
    · split
      · exact replay_append M tr' tr _
      · rfl

variable {M : Machine σ ε ο} {C : σ → ε → Prop}

theorem Run.replay [DecidableEq ο] {s₀ s : σ} {tr : List (ε × List ο)}
    (h : Run M C s₀ tr s) : M.replay s₀ tr = some s := by
  induction h with
  | nil => rfl
  | snoc _ _ hs ih =>
    rw [replay_append, ih]
    simp [Machine.replay, hs]

/-- The run over a list of events, when every step is defined and meets `C`. -/
def exec (M : Machine σ ε ο) (C : σ → ε → Prop) [∀ s e, Decidable (C s e)] : σ → List ε → Option (List (ε × List ο) × σ)
  | s, [] => some ([], s)
  | s, e :: es =>
    if C s e then
      match M.step s e with
      | none => none
      | some (s', o) => (exec M C s' es).map fun r => ((e, o) :: r.1, r.2)
    else none

theorem Run.cons {s s' s'' : σ} {e : ε} {o : List ο}
    {tr : List (ε × List ο)} (hc : C s e) (hs : M.step s e = some (s', o)) (h : Run M C s' tr s'') :
    Run M C s ((e, o) :: tr) s'' := by
  induction h with
  | nil => simpa using Run.snoc .nil hc hs
  | snoc _ hc' hs' ih => exact Run.snoc ih hc' hs'

/-- What `exec` computes is a run; a witness evaluates it. -/
theorem run_of_exec (M : Machine σ ε ο) (C : σ → ε → Prop) [∀ s e, Decidable (C s e)] :
    ∀ (es : List ε) {s s' : σ} {tr : List (ε × List ο)}, M.exec C s es = some (tr, s') → Run M C s tr s'
  | [], s, s', tr, h => by
    simp only [exec, Option.some.injEq, Prod.mk.injEq] at h
    obtain ⟨rfl, rfl⟩ := h
    exact .nil
  | e :: es, s, s', tr, h => by
    unfold exec at h
    split at h
    · rename_i hc
      split at h
      · cases h
      · rename_i s₁ o hs
        obtain ⟨r, hr, he⟩ := Option.map_eq_some_iff.mp h
        cases he
        exact Run.cons hc hs (run_of_exec M C es hr)
    · cases h

theorem exec_append (M : Machine σ ε ο) (C : σ → ε → Prop) [∀ s e, Decidable (C s e)] (es' : List ε) :
    ∀ (es : List ε) (s : σ), M.exec C s (es ++ es') =
      (M.exec C s es).bind fun r => (M.exec C r.2 es').map fun r' => (r.1 ++ r'.1, r'.2)
  | [], s => by simp [exec]
  | e :: es, s => by
    rw [List.cons_append, exec, exec]
    split
    · split
      · rfl
      · rw [exec_append M C es' es]
        cases M.exec C _ es with
        | none => rfl
        | some r => simp [Option.map_map, Function.comp_def]
    · rfl

theorem exec_cons [∀ s e, Decidable (C s e)] {s s' : σ} {e : ε} {o : List ο}
    (hc : C s e) (hs : M.step s e = some (s', o)) (es : List ε) :
    M.exec C s (e :: es) = (M.exec C s' es).map fun r => ((e, o) :: r.1, r.2) := by
  rw [exec, if_pos hc, hs]

theorem run_of_isSome (M : Machine σ ε ο) (C : σ → ε → Prop) [∀ s e, Decidable (C s e)] (s : σ) (es : List ε)
    (h : (M.exec C s es).isSome) : Run M C s ((M.exec C s es).get h).1 ((M.exec C s es).get h).2 :=
  run_of_exec M C es (Option.some_get h).symm

theorem run_of_any (M : Machine σ ε ο) (C : σ → ε → Prop) [∀ s e, Decidable (C s e)] {s : σ} {es : List ε}
    {p : List (ε × List ο) × σ → Bool} (h : (M.exec C s es).any p = true) : ∃ tr s', Run M C s tr s' ∧ p (tr, s') = true := by
  obtain ⟨r, hexec, hp⟩ := (Option.any_eq_true _ _).mp h
  exact ⟨r.1, r.2, run_of_exec M C es hexec, hp⟩

end Machine

end Ns3
