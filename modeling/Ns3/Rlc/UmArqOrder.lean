import Ns3.Rlc.UmTxBuffer

/-!
# The order of retransmissions

A retransmission is stored behind the first packet of the buffer. The SDUs
leave in the order `order`, where the retransmissions are marked with their
place among those accepted; they are in order exactly when none of them was
stored in front of an earlier one. This needs no bound on the sizes: the
buffer is the end of `order`, whatever its counter says.
-/

namespace Ns3

open Machine List

theorem pairwise_insert {l r : List Nat} {n : Nat} (h : ∀ x ∈ l ++ r, x < n) :
    (l ++ n :: r).Pairwise (· < ·) ↔ (l ++ r).Pairwise (· < ·) ∧ r = [] := by
  constructor
  · intro hp
    refine ⟨hp.sublist ((sublist_cons_self n r).append_left l), ?_⟩
    cases r with
    | nil => rfl
    | cons x r =>
      have hlt : n < x := (pairwise_cons.mp (pairwise_append.mp hp).2.1).1 x (by simp)
      have := h x (by simp)
      omega
  · rintro ⟨hp, rfl⟩
    rw [append_nil] at hp h
    exact pairwise_append.mpr ⟨hp, pairwise_singleton _ n, fun x hx y hy => by
      obtain rfl := mem_singleton.mp hy
      exact h x hx⟩

/-- A sender, with the SDUs accepted in the order they leave the buffer, and
the number of retransmissions among them. -/
structure UmArqHistory where
  tx : LteRlcUmTx
  order : List (Bytes × Option Nat) := []
  retransmissions : Nat := 0

namespace UmArqHistory

open LteRlcUmTx

def queued (h : UmArqHistory) : List (Bytes × Option Nat) := h.order.drop (h.order.length - h.tx.txBuffer.length)

/-- The order with the packet `p` stored; with priority, behind the first of
the buffer. -/
def place (h : UmArqHistory) (p : Bytes) (top : Nat) : UmArqHistory :=
  if h.tx.hasRoom p then
    if top = 1 then
      let k := h.order.length - h.tx.txBuffer.length + if h.tx.txBufferSize ≠ 0 then 1 else 0
      { h with
        order := h.order.take k ++ (p, some h.retransmissions) :: h.order.drop k
        retransmissions := h.retransmissions + 1 }
    else { h with order := h.order ++ [(p, none)] }
  else h

def note (h : UmArqHistory) : UmTxEvent → UmArqHistory
  | .transmitPdcpPdu p top => h.place p top
  | .transmitPdcpPdu2 p top => h.place p top
  | .txOpportunity _ => h
  | .txOpportunityFlag _ _ => h

def machine : Machine UmArqHistory UmTxEvent Bytes where
  step h e :=
    match LteRlcUmTx.machine.step h.tx e with
    | none => none
    | some (tx, pdus) => some ({ h.note e with tx := tx }, pdus)

def retransmittedBy (h : UmArqHistory) : UmTxEvent → Option Bytes
  | .transmitPdcpPdu p top => if top = 1 ∧ h.tx.hasRoom p then some p else none
  | .transmitPdcpPdu2 p top => if top = 1 ∧ h.tx.hasRoom p then some p else none
  | .txOpportunity _ => none
  | .txOpportunityFlag _ _ => none

/-- When a retransmission is stored, no earlier one waits behind its place. -/
def NoneBehind (h : UmArqHistory) (e : UmTxEvent) : Prop :=
  (h.retransmittedBy e).isSome → ∀ x ∈ h.queued.drop (if h.tx.txBufferSize ≠ 0 then 1 else 0), x.2 = none

instance (h : UmArqHistory) (e : UmTxEvent) : Decidable (NoneBehind h e) :=
  inferInstanceAs (Decidable (_ → _))

/-- The retransmissions leave in the order they were submitted. -/
def InOrder (h : UmArqHistory) : Prop := (h.order.filterMap Prod.snd).Pairwise (· < ·)

instance (h : UmArqHistory) : Decidable (InOrder h) := inferInstanceAs (Decidable (List.Pairwise _ _))

/-- The packets `q` are those of the buffer, the first of them perhaps cut. -/
def Waits (txBuffer : List TxPdu) (q : List (Bytes × Option Nat)) : Prop :=
  List.Forall₂ (fun t x => t.pdu <:+ x.1) txBuffer q

theorem Waits.leaves {txBuffer txBuffer' : List TxPdu} {q : List (Bytes × Option Nat)} (h : Waits txBuffer q)
    (hl : Leaves txBuffer txBuffer') : ∃ n, Waits txBuffer' (q.drop n) := by
  obtain ⟨n, hn⟩ := hl
  have hdrop := forall₂_drop n h
  refine ⟨n, ?_⟩
  generalize txBuffer.drop n = rest at hn hdrop
  generalize q.drop n = q' at hdrop
  induction hn generalizing q' with
  | nil =>
    cases hdrop
    exact .nil
  | cons hsuffix _ ih =>
    cases hdrop with
    | cons hx hrest => exact .cons (hsuffix.trans hx) (ih _ hrest)

theorem Waits.insert {txBuffer : List TxPdu} {q : List (Bytes × Option Nat)} (h : Waits txBuffer q) (n : Nat)
    (p : Bytes) (status : SduStatus) (mark : Option Nat) :
    Waits (txBuffer.take n ++ ⟨p, status⟩ :: txBuffer.drop n) (q.take n ++ (p, mark) :: q.drop n) :=
  rel_append (forall₂_take n h) (.cons (suffix_refl p) (forall₂_drop n h))

structure Inv (h : UmArqHistory) : Prop where
  waits : ∃ left, h.order = left ++ h.queued ∧ Waits h.tx.txBuffer h.queued
  marks : ∀ i ∈ h.order.filterMap Prod.snd, i < h.retransmissions

section
variable {h : UmArqHistory}

theorem queued_eq {left q : List (Bytes × Option Nat)} (horder : h.order = left ++ q) (hq : Waits h.tx.txBuffer q) :
    h.queued = q := by
  rw [queued, horder]
  refine drop_left' ?_
  rw [length_append, hq.length_eq, Nat.add_sub_cancel]

theorem drop_place (h : UmArqHistory) (n : Nat) :
    h.order.drop (h.order.length - h.tx.txBuffer.length + n) = h.queued.drop n := by
  rw [queued, drop_drop]

/-- A packet stored has the same place in the order as in the buffer. -/
theorem Inv.place_waits (hinv : Inv h) (p : Bytes) (top : Nat) : ∃ left q, (h.place p top).order = left ++ q ∧
    Waits ({ h.tx with ncArqAddTop := top }.storePdcpPdu p).txBuffer q := by
  obtain ⟨⟨left, horder, hwaits⟩, -⟩ := hinv
  have hlen : h.order.length - h.tx.txBuffer.length = left.length := by
    have := congrArg List.length horder
    rw [length_append, ← hwaits.length_eq] at this
    omega
  unfold place storePdcpPdu
  by_cases hroom : h.tx.hasRoom p = true
  · rw [if_pos hroom, if_pos (of_decide_eq_true hroom)]
    by_cases htop : top = 1
    · simp only [htop, if_true]
      refine ⟨left, h.queued.take (if h.tx.txBufferSize ≠ 0 then 1 else 0) ++ (p, some h.retransmissions) ::
        h.queued.drop (if h.tx.txBufferSize ≠ 0 then 1 else 0), ?_, ?_⟩
      · rw [drop_place, hlen]
        conv_lhs => rw [horder]
        rw [take_length_add_append, append_assoc]
      · have hinsert := hwaits.insert (if h.tx.txBufferSize ≠ 0 then 1 else 0) p .fullSdu (some h.retransmissions)
        by_cases hsize : h.tx.txBufferSize ≠ 0
        · simpa only [if_pos hsize] using hinsert
        · simpa only [if_neg hsize, take_zero, drop_zero, nil_append] using hinsert
    · simp only [if_neg htop]
      refine ⟨left, h.queued ++ [(p, none)], by rw [← append_assoc, ← horder], ?_⟩
      exact rel_append hwaits (.cons (suffix_refl p) .nil)
  · rw [if_neg hroom, if_neg (by simpa [hasRoom] using hroom)]
    exact ⟨left, h.queued, horder, hwaits⟩

/-- **Storing a packet** keeps the order exactly when it is no retransmission
or none waits behind its place. -/
theorem Inv.place_inOrder (hinv : Inv h) (p : Bytes) (top : Nat) :
    (∀ i ∈ (h.place p top).order.filterMap Prod.snd, i < (h.place p top).retransmissions) ∧
      ((h.place p top).InOrder ↔ h.InOrder ∧ (top = 1 ∧ h.tx.hasRoom p = true →
        ∀ x ∈ h.queued.drop (if h.tx.txBufferSize ≠ 0 then 1 else 0), x.2 = none)) := by
  unfold place
  by_cases hroom : h.tx.hasRoom p = true
  · rw [if_pos hroom]
    by_cases htop : top = 1
    · rw [if_pos htop, ← h.drop_place]
      generalize h.order.length - h.tx.txBuffer.length + (if h.tx.txBufferSize ≠ 0 then 1 else 0) = k
      have hsplit : h.order.filterMap Prod.snd =
          (h.order.take k).filterMap Prod.snd ++ (h.order.drop k).filterMap Prod.snd := by
        rw [← filterMap_append, take_append_drop]
      have hmarks := hinv.marks
      rw [hsplit] at hmarks
      constructor
      · intro i hi
        have : i = h.retransmissions ∨ i < h.retransmissions := by
          have := hmarks i
          simp only [filterMap_append, filterMap_cons, mem_append, mem_cons] at hi this
          tauto
        change i < h.retransmissions + 1
        omega
      · have hnone : (h.order.drop k).filterMap Prod.snd = [] ↔
            (top = 1 ∧ h.tx.hasRoom p = true → ∀ x ∈ h.order.drop k, x.2 = none) := by
          rw [filterMap_eq_nil_iff]
          exact ⟨fun hall _ => hall, fun hall => hall ⟨htop, hroom⟩⟩
        unfold InOrder
        rw [hsplit, ← hnone, ← pairwise_insert hmarks]
        simp
    · rw [if_neg htop]
      refine ⟨?_, ?_⟩
      · simpa using hinv.marks
      · simp [InOrder, htop]
  · rw [if_neg hroom]
    exact ⟨hinv.marks, by simp [hroom]⟩

theorem Inv.note_inOrder (hinv : Inv h) (e : UmTxEvent) :
    (∀ i ∈ (h.note e).order.filterMap Prod.snd, i < (h.note e).retransmissions) ∧
      ((h.note e).InOrder ↔ h.InOrder ∧ h.NoneBehind e) := by
  have hstore : ∀ p top, (top = 1 ∧ h.tx.hasRoom p = true →
      ∀ x ∈ h.queued.drop (if h.tx.txBufferSize ≠ 0 then 1 else 0), x.2 = none) ↔
      ((if top = 1 ∧ h.tx.hasRoom p then some p else none).isSome →
        ∀ x ∈ h.queued.drop (if h.tx.txBufferSize ≠ 0 then 1 else 0), x.2 = none) := by
    intro p top
    split <;> simp_all
  cases e with
  | transmitPdcpPdu p top =>
    obtain ⟨hmarks, hiff⟩ := hinv.place_inOrder p top
    exact ⟨hmarks, hiff.trans (and_congr_right fun _ => hstore p top)⟩
  | transmitPdcpPdu2 p top =>
    obtain ⟨hmarks, hiff⟩ := hinv.place_inOrder p top
    exact ⟨hmarks, hiff.trans (and_congr_right fun _ => hstore p top)⟩
  | txOpportunity bytes => exact ⟨hinv.marks, by simp [note, NoneBehind, retransmittedBy]⟩
  | txOpportunityFlag bytes flag => exact ⟨hinv.marks, by simp [note, NoneBehind, retransmittedBy]⟩

end

end UmArqHistory

/-! ## What an opportunity leaves in the buffer -/

namespace LteRlcUmTx

variable {s s' : LteRlcUmTx} {pdus : List Bytes}

theorem transmitPdu_txBuffer {d : DataField} (h : s.transmitPdu d = some (s', pdus)) : s'.txBuffer = d.txBuffer := by
  unfold transmitPdu at h
  split at h
  · cases h
  · cases h
    rfl

theorem notify_leaves {bytes : Nat} (hrun : s.doNotifyTxOpportunity bytes = some (s', pdus)) :
    Leaves s.txBuffer s'.txBuffer := by
  unfold LteRlcUmTx.doNotifyTxOpportunity at hrun
  split at hrun
  · cases hrun
    exact .refl _
  · split at hrun
    · cases hrun
      exact .refl _
    · rename_i first q hq
      rw [hq, transmitPdu_txBuffer hrun]
      exact fillDataField_leaves q first _ _ 1

theorem fillOne_leaves (first : TxPdu) (q : List TxPdu) (size next : Nat) (isCut : Bool) :
    Leaves (first :: q) (fillOne first q size next isCut).txBuffer := by
  cases isCut with
  | true => exact cutToFit_leaves first q size next
  | false => exact (Leaves.refl q).cons

theorem notifyFlag_leaves {bytes flag remain : Nat}
    (hrun : s.doNotifyTxOpportunityFlag bytes flag = some (s', pdus, remain)) : Leaves s.txBuffer s'.txBuffer := by
  unfold LteRlcUmTx.doNotifyTxOpportunityFlag at hrun
  dsimp only at hrun
  split at hrun
  · cases hrun
    exact .refl _
  · split at hrun
    · cases hrun
      exact .refl _
    · rename_i first q hq
      split at hrun
      · cases hrun
      · split at hrun
        · cases hrun
        · rename_i s₁ pdus₁ htransmit
          cases hrun
          rw [hq, transmitPdu_txBuffer htransmit]
          exact fillOne_leaves first q _ _ _

end LteRlcUmTx

namespace UmArqHistory

open LteRlcUmTx

section
variable {h : UmArqHistory}

theorem Inv.opportunity (hinv : Inv h) {tx : LteRlcUmTx} (hleaves : Leaves h.tx.txBuffer tx.txBuffer) :
    ∃ left q, h.order = left ++ q ∧ Waits tx.txBuffer q := by
  obtain ⟨⟨left, horder, hwaits⟩, -⟩ := hinv
  obtain ⟨n, hn⟩ := hwaits.leaves hleaves
  refine ⟨left ++ h.queued.take n, h.queued.drop n, ?_, hn⟩
  rw [append_assoc, take_append_drop]
  exact horder

/-- The order is lost at a step with an earlier one behind, and only there. -/
theorem Inv.step (hinv : Inv h) {e : UmTxEvent} {h' : UmArqHistory} {pdus : List Bytes}
    (hstep : machine.step h e = some (h', pdus)) : Inv h' ∧ (h'.InOrder ↔ h.InOrder ∧ h.NoneBehind e) := by
  obtain ⟨hmarks, hiff⟩ := hinv.note_inOrder e
  simp only [machine] at hstep
  split at hstep
  · cases hstep
  · rename_i tx pdus' htx
    cases hstep
    refine ⟨⟨?_, hmarks⟩, hiff⟩
    have hwaits : ∃ left q, (h.note e).order = left ++ q ∧ Waits tx.txBuffer q := by
      cases e with
      | transmitPdcpPdu p top =>
        cases htx
        exact hinv.place_waits p top
      | transmitPdcpPdu2 p top =>
        cases htx
        exact hinv.place_waits p top
      | txOpportunity bytes => exact hinv.opportunity (notify_leaves htx)
      | txOpportunityFlag bytes flag =>
        simp only [LteRlcUmTx.machine] at htx
        split at htx
        · cases htx
        · rename_i hflag
          cases htx
          exact hinv.opportunity (notifyFlag_leaves hflag)
    obtain ⟨left, q, horder, hq⟩ := hwaits
    have hqueued : queued { h.note e with tx := tx } = q := queued_eq horder hq
    exact ⟨left, by rw [hqueued]; exact horder, by rw [hqueued]; exact hq⟩

theorem order_place (h : UmArqHistory) (p : Bytes) (top : Nat) :
    (h.place p top).order.map Prod.fst = { h.tx with ncArqAddTop := top }.enqueue (h.order.map Prod.fst) p := by
  have hsame : { h.tx with ncArqAddTop := top }.hasRoom p = h.tx.hasRoom p := rfl
  unfold place enqueue
  rw [hsame]
  by_cases hroom : h.tx.hasRoom p = true
  · rw [if_pos hroom, if_pos hroom]
    by_cases htop : top = 1
    · rw [if_pos htop, if_pos htop]
      simp [map_take, map_drop]
    · rw [if_neg htop, if_neg htop]
      simp
  · rw [if_neg hroom, if_neg hroom]

theorem order_note (h : UmArqHistory) (e : UmTxEvent) :
    (h.note e).order.map Prod.fst = h.tx.orderAfter (h.order.map Prod.fst) e := by
  cases e with
  | transmitPdcpPdu p top => exact h.order_place p top
  | transmitPdcpPdu2 p top => exact h.order_place p top
  | txOpportunity bytes => rfl
  | txOpportunityFlag bytes flag => rfl

end

section
variable {maxTxBufferSize : Nat} {tr : List (UmTxEvent × List Bytes)} {h : UmArqHistory}

theorem inv_of_run {C : UmArqHistory → UmTxEvent → Prop}
    (hrun : Run machine C { tx := { maxTxBufferSize := maxTxBufferSize } } tr h) : Inv h := by
  have hinit : Inv { tx := { maxTxBufferSize := maxTxBufferSize } } :=
    ⟨⟨[], rfl, (show Waits [] [] from .nil)⟩, by simp⟩
  refine Run.invariant (fun _ h => Inv h) hinit ?_ hrun
  rintro tr h e h' pdus hinv - hstep
  exact (hinv.step hstep).1

theorem sends_of_run (hrun : Run machine (fun h e => h.tx.Regular e) { tx := { maxTxBufferSize := maxTxBufferSize } }
    tr h) : ∃ cs, Sends h.tx (h.order.map Prod.fst) (outputs tr) cs := by
  refine Run.invariant (fun tr h => ∃ cs, Sends h.tx (h.order.map Prod.fst) (outputs tr) cs) ⟨[], sends_init _⟩ ?_ hrun
  rintro tr h e h' pdus ⟨cs, hs⟩ he hstep
  obtain ⟨tx, pdus', new, htx, hsends⟩ := hs.step he
  simp only [machine, htx, Option.some.injEq, Prod.mk.injEq] at hstep
  obtain ⟨rfl, rfl⟩ := hstep
  rw [outputs_snoc]
  rw [← h.order_note e] at hsends
  exact ⟨_, hsends⟩

/-- **The order of retransmissions.** In every run the buffer is the end of
`order`, and the retransmissions are in the order they were submitted exactly
when at each step none was stored in front of another. Where no counter is too
narrow, the data fields sent and the buffer are the SDUs of `order`. -/
theorem retransmissions_inOrder_iff (maxTxBufferSize : Nat) {tr : List (UmTxEvent × List Bytes)} {h : UmArqHistory}
    (hrun : Run machine anyStep { tx := { maxTxBufferSize := maxTxBufferSize } } tr h) : Waits h.tx.txBuffer h.queued ∧
      (h.InOrder ↔ Run machine NoneBehind { tx := { maxTxBufferSize := maxTxBufferSize } } tr h) ∧
      (Run machine (fun h e => h.tx.Regular e) { tx := { maxTxBufferSize := maxTxBufferSize } } tr h →
        ((outputs tr).map dataFieldOf).flatten ++ bytesOf h.tx.txBuffer = (h.order.map Prod.fst).flatten) := by
  refine ⟨?_, ⟨?_, fun hrun' => ?_⟩, fun hrun' => ?_⟩
  · obtain ⟨-, -, hwaits⟩ := (inv_of_run hrun).waits
    exact hwaits
  · induction hrun with
    | nil => exact fun _ => .nil
    | snoc hrun _ hstep ih =>
      intro horder
      obtain ⟨hbefore, hnone⟩ := ((inv_of_run hrun).step hstep).2.mp horder
      exact .snoc (ih hbefore) hnone hstep
  · clear hrun
    induction hrun' with
    | nil => exact .nil
    | snoc hrun' hnone hstep ih => exact ((inv_of_run hrun').step hstep).2.mpr ⟨ih, hnone⟩
  · obtain ⟨cs, hs⟩ := sends_of_run hrun'
    exact hs.bytes

end

/-- A packet waits; the second retransmission is stored after the first left. -/
def oneAtATime : List UmTxEvent :=
  [.transmitPdcpPdu [1] 0, .transmitPdcpPdu [2] 1, .txOpportunity 4, .txOpportunity 3, .transmitPdcpPdu2 [3] 1,
    .txOpportunity 3]

theorem oneAtATime_isSome : (machine.exec NoneBehind { tx := {} } oneAtATime).isSome := by
  decide +kernel

theorem one_at_a_time_inOrder : ∃ tr h, Run machine anyStep { tx := {} } tr h ∧ h.retransmissions = 2 ∧ h.InOrder := by
  have hrun := run_of_isSome machine _ _ _ oneAtATime_isSome
  have hrun' := hrun.mono fun _ _ _ => trivial
  exact ⟨_, _, hrun', by decide +kernel, (retransmissions_inOrder_iff 20480 hrun').2.1.mpr hrun⟩

/-- A packet waits and two retransmissions are stored behind it. -/
def twoAtOnce : List UmTxEvent :=
  [.transmitPdcpPdu [1] 0, .transmitPdcpPdu [2] 1, .transmitPdcpPdu [3] 1, .txOpportunity 3, .txOpportunity 3,
    .txOpportunity 3]

theorem twoAtOnce_isSome : (machine.exec NonEmpty { tx := {} } twoAtOnce).isSome := by
  decide +kernel

/-- **The second retransmission is sent before the first.** -/
theorem two_at_once_reversed : ∃ tr h, Run machine NonEmpty { tx := {} } tr h ∧
    (outputs tr).map dataFieldOf = [[1], [3], [2]] ∧ ¬h.InOrder :=
  ⟨_, _, run_of_isSome machine NonEmpty _ _ twoAtOnce_isSome, by decide +kernel, by decide +kernel⟩

end UmArqHistory

end Ns3
