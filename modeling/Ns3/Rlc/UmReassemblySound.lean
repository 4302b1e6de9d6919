import Mathlib.Data.List.Induction
import Ns3.Rlc.UmTxSound

/-!
# Reassembly of the PDUs of a sender

The receiving side keeps the beginning of an SDU only from the PDU it
reassembled last. So with `E` the index after that PDU, what is kept is either
nothing or what the sender had begun by then, and every SDU handed up is one
of the SDUs the PDUs before `E` complete.
-/

namespace Ns3

open SequenceNumber10

theorem absorbAll_le_append (xs : List Content) : ∀ ys : List Content,
    (absorbAll xs).1 <+: (absorbAll (xs ++ ys)).1 := by
  intro ys
  induction ys using List.reverseRecOn with
  | nil => simp
  | append_singleton ys c ih =>
    rw [← List.append_assoc, absorbAll_snoc]
    exact ih.trans (List.prefix_append ..)

theorem absorbAll_le_take (cs : List Content) {a b : Nat} (h : a ≤ b) :
    (absorbAll (cs.take a)).1 <+: (absorbAll (cs.take b)).1 := by
  obtain ⟨ys, hys⟩ : cs.take a <+: cs.take b := List.take_prefix_take_left h
  rw [← hys]
  exact absorbAll_le_append _ ys

theorem absorbAll_take_succ {cs : List Content} {n : Nat} {c : Content} (h : cs[n]? = some c) :
    absorbAll (cs.take (n + 1)) = ((absorbAll (cs.take n)).1 ++ (c.absorb (absorbAll (cs.take n)).2).1,
        (c.absorb (absorbAll (cs.take n)).2).2) := by
  rw [List.take_add_one, h, Option.toList_some, absorbAll_snoc]

/-- What is reassembled, when the PDU reassembled last has the index before `E`. -/
structure Follows (cs : List Content) (E : Nat) (ra : Reassembly) : Prop where
  kept : ra.Holds none ∨ ra.Holds (absorbAll (cs.take E)).2
  number : ra.expectedSeqNumber.value = E % 1024

namespace LteRlcUmRx

variable {cs : List Content} {E p : Nat} {ra : Reassembly} {b : Bytes} {c : Content}

theorem noteSeqNumber_eq (hE : ra.expectedSeqNumber.value = E % 1024) (hlo : E ≤ p) (hhi : p < E + 1024) :
    ∃ sn, sn.value = (p + 1) % 1024 ∧
      ra.noteSeqNumber (ofIndex p 0) = (decide (p ≠ E), { ra with expectedSeqNumber := sn }) := by
  unfold Reassembly.noteSeqNumber
  rcases Nat.eq_or_lt_of_le hlo with rfl | hlt
  · have heq : (ofIndex E 0).eq ra.expectedSeqNumber = true := by simp [SequenceNumber10.eq, hE]
    refine ⟨ra.expectedSeqNumber.incr, by simp [incr, hE], ?_⟩
    simp [heq]
  · have hne : ¬(ofIndex p 0).eq ra.expectedSeqNumber = true := by
      simp only [SequenceNumber10.eq, hE, ofIndex_value, decide_eq_true_eq]
      omega
    refine ⟨(ofIndex p 0).add 1, by simp, ?_⟩
    rw [if_neg hne, decide_eq_true (by omega)]

theorem reassembleAndDeliver_eq (hcs : Chained cs) (hc : cs[p]? = some c) (hb : Carries p b c) (h : Follows cs E ra)
    (hlo : E ≤ p) (hhi : p < E + 1024) : ∃ ra' d, reassembleAndDeliver ra b = some (ra', d) ∧ Follows cs (p + 1) ra' ∧
      d.Sublist (c.absorb (absorbAll (cs.take p)).2).1 ∧ (p = E → ra.Holds (absorbAll (cs.take E)).2 →
        d = (c.absorb (absorbAll (cs.take p)).2).1 ∧ ra'.Holds (absorbAll (cs.take (p + 1))).2) := by
  obtain ⟨rlcHeader, data, hremove, hsn, hfi, hsplit⟩ := hb
  obtain ⟨hcont, hne⟩ := hcs p c hc
  obtain ⟨sn, hsnv, hnote⟩ := noteSeqNumber_eq h.number hlo hhi
  have hnext : (absorbAll (cs.take (p + 1))).2 = (c.absorb (absorbAll (cs.take p)).2).2 := by
    rw [absorbAll_take_succ hc]
  have hempty : ra.sdusBuffer = [] := by
    rcases h.kept with hk | hk <;> exact hk.1
  -- starting over with this PDU is right whatever was kept, and exact when nothing was begun
  have hstart : ∀ kept, ∃ ra' d, ({ ra with expectedSeqNumber := sn, sdusBuffer := c.packets, keepS0 := kept } :
        Reassembly).startOver c.framingInfo = some (ra', d) ∧ Follows cs (p + 1) ra' ∧
      d.Sublist (c.absorb (absorbAll (cs.take p)).2).1 ∧
      ((absorbAll (cs.take p)).2 = none →
        d = (c.absorb (absorbAll (cs.take p)).2).1 ∧ ra'.Holds (absorbAll (cs.take (p + 1))).2) := by
    intro kept
    obtain ⟨ra', hrun, hholds, hexp⟩ := Reassembly.startOver_content
      (r := { ra with expectedSeqNumber := sn, sdusBuffer := c.packets, keepS0 := kept }) (c := c) rfl
    refine ⟨ra', c.restart.1, hrun, ⟨?_, by rw [hexp]; exact hsnv⟩, c.restart_sublist _, fun hnone => ?_⟩
    · rw [hnext]
      rcases c.restart_kept (absorbAll (cs.take p)).2 with hr | hr
      · exact .inl (hr ▸ hholds)
      · exact .inr (hr ▸ hholds)
    · have hc0 : c.continues = false := by rw [hcont, hnone]; rfl
      rw [hnext, hnone, c.absorb_none hc0]
      exact ⟨rfl, hholds⟩
  unfold reassembleAndDeliver
  rw [hremove]
  simp only [hsplit, hsn, hfi, hnote, hempty, List.nil_append]
  by_cases hlost : p = E
  · subst hlost
    simp only [ne_eq, not_true_eq_false, decide_false]
    cases hK : (absorbAll (cs.take p)).2 with
    | none =>
      have hstate : ra.reassemblingState = .waitingS0Full := by
        rcases h.kept with hk | hk
        · exact hk.2
        · rw [hK] at hk
          exact hk.2
      obtain ⟨ra', d, hrun, hf, hsub, hexact⟩ := hstart ra.keepS0
      rw [hK] at hsub hexact
      refine ⟨ra', d, ?_, hf, hsub, fun _ _ => hexact rfl⟩
      simpa only [hstate] using hrun
    | some k =>
      rcases h.kept with hk | hk
      · -- the beginning was lost before, so the end is dropped
        obtain ⟨ra', d, hrun, hf, hsub, -⟩ := hstart ra.keepS0
        rw [hK] at hsub
        refine ⟨ra', d, ?_, hf, hsub, fun _ hk' => ?_⟩
        · simpa only [hk.2] using hrun
        · cases hk.2.symm.trans hk'.2.1
      · rw [hK] at hk hnext
        obtain ⟨ra', hrun, hholds, hexp⟩ := Reassembly.continueSdu_content
          (r := { ra with expectedSeqNumber := sn, sdusBuffer := c.packets }) hk.2.2 rfl
          (by rw [hcont, hK]; rfl)
        rw [← hnext] at hholds
        refine ⟨ra', (c.absorb (some k)).1, ?_, ⟨.inr hholds, by rw [hexp]; exact hsnv⟩, List.Sublist.refl _,
          fun _ _ => ⟨rfl, hholds⟩⟩
        simpa only [hk.2.1] using hrun
  · simp only [ne_eq, hlost, not_false_eq_true, decide_true]
    cases hs : ra.reassemblingState with
    | waitingS0Full =>
      obtain ⟨ra', d, hrun, hf, hsub, -⟩ := hstart ra.keepS0
      exact ⟨ra', d, by simpa only [hs] using hrun, hf, hsub, fun he => he.elim⟩
    | waitingSiSf =>
      obtain ⟨ra', d, hrun, hf, hsub, -⟩ := hstart none
      exact ⟨ra', d, by simpa only [hs] using hrun, hf, hsub, fun he => he.elim⟩

end LteRlcUmRx

end Ns3
