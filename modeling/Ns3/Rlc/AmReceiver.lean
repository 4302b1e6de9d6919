import Ns3.Lib.Machine
import Ns3.Rlc.AmWindow

/-!
# The receiving side in acknowledged mode, over whole runs

Data PDUs arrive in any order, again and again or not at all, each with an
index at most 512 away from that of `VR(R)`, and the reordering timer expires
while it runs. No assertion fails, and the PDUs are passed to reassembly one
after another in the order of their indices.
-/

namespace Ns3

open Machine SequenceNumber10

inductive AmReceiverEvent where
  | arrive (i : Nat) (p : AmPacket)
  | expire

/-- An entity with the absolute index of `VR(R)`, which only moves forward, by
less than 1024 at once. -/
structure AmReceiver where
  entity : LteRlcAm := {}
  vrR : Nat := 0

namespace AmReceiver

def machine : Machine AmReceiver AmReceiverEvent (AmPacket × List Bytes) where
  step s
    | .arrive _ p =>
      match s.entity.doReceivePdu p with
      | none => none
      | some (e, out) => some (⟨e, indexFrom s.vrR e.rx.vrR.value⟩, out)
    | .expire =>
      match s.entity.expireReorderingTimer with
      | none => none
      | some e => some (⟨e, indexFrom s.vrR e.rx.vrR.value⟩, [])

/-- A data PDU within 512 of `VR(R)`, or a running timer. -/
def Possible (s : AmReceiver) : AmReceiverEvent → Prop
  | .arrive i p => p.IsData i ∧ s.vrR ≤ i + 512 ∧ i ≤ s.vrR + 512
  | .expire => s.entity.rx.reorderingTimer = true

instance (s : AmReceiver) : (e : AmReceiverEvent) → Decidable (s.Possible e)
  | .arrive i p => inferInstanceAs (Decidable (p.IsData i ∧ _ ≤ _ ∧ _ ≤ _))
  | .expire => inferInstanceAs (Decidable (_ = _))

/-- `VR(R) <= VR(MS) <= VR(H) <= VR(MR) = VR(R) + 512`, compared as the code
does, with `VR(R)` as the base of all. -/
def Ordered (r : LteRlcAmRx) : Prop :=
  r.vrR.modulusBase = r.vrR.value ∧ r.vrR.le r.vrMs = some true ∧ r.vrMs.le r.vrH = some true ∧
    r.vrH.le r.vrMr = some true ∧ r.vrMr = r.vrR.add 512

def Arrived (tr : List (AmReceiverEvent × List (AmPacket × List Bytes))) (i : Nat) (p : AmPacket) : Prop :=
  ∃ o, (AmReceiverEvent.arrive i p, o) ∈ tr

/-! ## The invariant -/

/-- As many PDUs were passed on as the index of `VR(R)` says. -/
structure Inv (tr : List (AmReceiverEvent × List (AmPacket × List Bytes))) (s : AmReceiver) (MS H X : Nat) : Prop where
  collects : s.entity.rx.Collects (Arrived tr) s.vrR MS H X
  count : (outputs tr).length = s.vrR
  passed : LteRlcAmRx.Passed (Arrived tr) 0 (outputs tr)

section
variable {tr : List (AmReceiverEvent × List (AmPacket × List Bytes))} {s : AmReceiver} {MS H X : Nat}

theorem Arrived.snoc {i : Nat} {p : AmPacket} (h : Arrived tr i p)
    (e : AmReceiverEvent × List (AmPacket × List Bytes)) : Arrived (tr ++ [e]) i p := by
  obtain ⟨o, ho⟩ := h
  exact ⟨o, List.mem_append_left _ ho⟩

theorem Inv.arrive (h : Inv tr s MS H X) {i : Nat} {p : AmPacket} (hp : s.Possible (.arrive i p)) :
    ∃ s' o MS' H' X', machine.step s (.arrive i p) = some (s', o) ∧ Inv (tr ++ [(.arrive i p, o)]) s' MS' H' X' := by
  obtain ⟨hdata, hlo, hhi⟩ := hp
  -- an index behind `VR(R)` has the number of one past the window
  obtain ⟨n, hmod, hn, hn', hin⟩ : ∃ n, n % 1024 = i % 1024 ∧ s.vrR ≤ n ∧ n < s.vrR + 1024 ∧
      (n < s.vrR + 512 → n = i) := by
    rcases Nat.lt_or_ge i s.vrR with hlt | hge
    · exact ⟨i + 1024, by omega, by omega, by omega, by omega⟩
    · exact ⟨i, rfl, hge, by omega, fun _ => rfl⟩
  have hdata' : p.IsData n := ⟨hdata.1, by rw [hdata.2.1, hmod], hdata.2.2⟩
  obtain ⟨rx, o, MS', H', X', hrun, hcoll, hpass, hH', -⟩ :=
    (h.collects.mono (fun j q => Arrived tr j q ∨ (j = i ∧ q = p)) fun _ _ => .inl).receive hdata'
      (fun hlt => .inr ⟨hin hlt, rfl⟩) hn hn'
  have hP : ∀ j q, (Arrived tr j q ∨ (j = i ∧ q = p)) → Arrived (tr ++ [(.arrive i p, o)]) j q := by
    rintro j q (hj | ⟨rfl, rfl⟩)
    · exact hj.snoc _
    · exact ⟨o, List.mem_append_right _ (List.mem_singleton_self _)⟩
  have hindex : indexFrom s.vrR rx.vrR.value = s.vrR + o.length := by
    have hle := hcoll.lower.trans hcoll.middle
    have hup := h.collects.upper
    have hshort : s.vrR + o.length < s.vrR + 1024 := by split at hH' <;> omega
    exact indexFrom_eq (Nat.le_add_right ..) hshort (by rw [hcoll.vrR, ofIndex_value, Nat.mod_mod])
  refine ⟨⟨{ s.entity with rx := rx }, s.vrR + o.length⟩, o, MS', H', X', ?_, hcoll.mono _ hP, ?_, ?_⟩
  · simp only [machine, LteRlcAm.doReceivePdu, hdata.1, if_true, hrun, hindex]
  · simp [h.count]
  · rw [outputs_snoc]
    refine (h.passed.mono fun j q hj => hP j q (.inl hj)).append ?_
    rw [Nat.zero_add, h.count]
    exact hpass.mono hP

theorem Inv.expire (h : Inv tr s MS H X) (htimer : s.Possible .expire) :
    ∃ s' MS' X', machine.step s .expire = some (s', []) ∧ Inv (tr ++ [(.expire, [])]) s' MS' H X' := by
  obtain ⟨rx, MS', X', hrun, hcoll, -⟩ := h.collects.expire htimer
  have hP : ∀ j q, Arrived tr j q → Arrived (tr ++ [(.expire, [])]) j q := fun j q hj => hj.snoc _
  have hindex : indexFrom s.vrR rx.vrR.value = s.vrR :=
    indexFrom_eq (Nat.le_refl _) (by omega) (by rw [hcoll.vrR, ofIndex_value, Nat.mod_mod])
  refine ⟨⟨{ s.entity with rx := rx }, s.vrR⟩, MS', X', ?_, hcoll.mono _ hP, ?_, ?_⟩
  · simp only [machine, LteRlcAm.expireReorderingTimer, hrun, hindex]
  · simp [h.count]
  · rw [outputs_snoc, List.append_nil]
    exact h.passed.mono hP

/-- Every possible step is taken, and passes PDUs on in sequence. -/
theorem Inv.step (h : Inv tr s MS H X) {e : AmReceiverEvent} (he : s.Possible e) :
    ∃ s' o MS' H' X', machine.step s e = some (s', o) ∧ Inv (tr ++ [(e, o)]) s' MS' H' X' := by
  cases e with
  | arrive i p => exact h.arrive he
  | expire =>
    obtain ⟨s', MS', X', hrun, hinv⟩ := h.expire he
    exact ⟨s', [], MS', H, X', hrun, hinv⟩

theorem inv_of_run (h : Run machine Possible {} tr s) : ∃ MS H X, Inv tr s MS H X := by
  refine Run.invariant (fun tr s => ∃ MS H X, Inv tr s MS H X) ?_ ?_ h
  · exact ⟨0, 0, 0, LteRlcAmRx.collects_init _, rfl, .nil 0⟩
  · rintro tr s e s' o ⟨MS, H, X, hinv⟩ hpos hstep
    obtain ⟨s'', o', MS', H', X', hstep', hinv'⟩ := hinv.step hpos
    cases hstep.symm.trans hstep'
    exact ⟨MS', H', X', hinv'⟩

theorem Inv.ordered (h : Inv tr s MS H X) : Ordered s.entity.rx := by
  obtain ⟨hR, hMr, hMs, hH, -, hlo, hmid, hup, -⟩ := h.collects
  unfold Ordered
  rw [hR, hMr, hMs, hH, le_ofIndex (Nat.le_refl _) (by omega) hlo (by omega), le_ofIndex hlo (by omega) (by omega)
    (by omega), le_ofIndex (by omega) (by omega) (by omega) (by omega)]
  exact ⟨rfl, by simp [hlo], by simp [hmid], by simp [hup], (add_ofIndex ..).symm⟩

theorem Inv.key_inside (h : Inv tr s MS H X) {k : Nat} {b : PduBuffer} (hk : s.entity.rx.rxonBuffer.find k = some b) :
    s.entity.rx.isInsideReceivingWindow (.ofValue k) = some (true, s.entity.rx) := by
  obtain ⟨hR, hMr, -, -, -, hlo, hmid, hup, hkeys, -⟩ := h.collects
  obtain ⟨i, hi, hi', rfl, -⟩ := hkeys k b hk
  have hofValue : SequenceNumber10.ofValue (i % 1024) = ofIndex i 0 := by simp [SequenceNumber10.ofValue, ofIndex]
  rw [hofValue, LteRlcAmRx.isInsideReceivingWindow_eq hR hMr hi (by omega)]
  simp
  omega

end

/-- **In sequence.** After every step of every run the registers are in order,
no PDU with number `VR(R)` or `VR(MS)` and none from outside of the window is
buffered, the next possible step has a result, and the PDUs passed to
reassembly are those with indices 0, 1, 2, ..., as many as `VR(R)` says. -/
theorem passed_in_sequence {tr : List (AmReceiverEvent × List (AmPacket × List Bytes))} {s : AmReceiver}
    (h : Run machine Possible {} tr s) : Ordered s.entity.rx ∧ s.entity.rx.vrR.value = s.vrR % 1024 ∧
      s.entity.rx.rxonBuffer.find s.entity.rx.vrR.value = none ∧
      s.entity.rx.rxonBuffer.find s.entity.rx.vrMs.value = none ∧ (∀ k b, s.entity.rx.rxonBuffer.find k = some b →
        s.entity.rx.isInsideReceivingWindow (.ofValue k) = some (true, s.entity.rx)) ∧
      (∀ e, s.Possible e → (machine.step s e).isSome) ∧
      (outputs tr).length = s.vrR ∧ ∀ k o, (outputs tr)[k]? = some o → Arrived tr k o.1 := by
  obtain ⟨MS, H, X, hinv⟩ := inv_of_run h
  refine ⟨hinv.ordered, ?_, ?_, ?_, fun k b => hinv.key_inside, fun e he => ?_, hinv.count, fun k o hk => ?_⟩
  · rw [hinv.collects.vrR, ofIndex_value]
  · rw [hinv.collects.vrR, ofIndex_value, hinv.collects.missing]
  · rw [hinv.collects.vrMs, ofIndex_value, hinv.collects.missingMs]
  · obtain ⟨s', o, MS', H', X', hstep, -⟩ := hinv.step he
    rw [hstep]
    rfl
  · have := hinv.passed k o hk
    rwa [Nat.zero_add] at this

def oneByte (i : Nat) : AmPacket :=
  .addHeader (LteRlcAmTx.buildHeader (takeLast ⟨[UInt8.ofNat i], .fullSdu⟩ [] 0 1) (.ofValue i) 0 true) [UInt8.ofNat i]

/-- The second of three PDUs comes after the timer has expired, and then the
first again. -/
def lateSecond : List AmReceiverEvent :=
  [.arrive 2 (oneByte 2), .arrive 0 (oneByte 0), .arrive 2 (oneByte 2), .expire, .arrive 1 (oneByte 1),
    .arrive 0 (oneByte 0)]

theorem lateSecond_isSome : (machine.exec Possible {} lateSecond).isSome := by
  decide +kernel

theorem late_second_in_sequence : ∃ tr s, Run machine Possible {} tr s ∧
    outputs tr = [(oneByte 0, [[0]]), (oneByte 1, [[1]]), (oneByte 2, [[2]])] ∧ s.vrR = 3 ∧ Ordered s.entity.rx := by
  have hrun := run_of_isSome machine Possible _ _ lateSecond_isSome
  exact ⟨_, _, hrun, by decide +kernel, by decide +kernel, (passed_in_sequence hrun).1⟩

end AmReceiver

end Ns3
