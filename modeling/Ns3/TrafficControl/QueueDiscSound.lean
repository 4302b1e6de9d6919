import Mathlib.Algebra.Ring.Nat
import Ns3.TrafficControl.QueueDisc

/-!
# What leaves a queue disc

At every moment the items that were accepted are those that left, the one in
`m_requeued` and those in the internal queue, in this order. Those that left, and
an item that came back from a stopped device queue, are counted as dequeued; one
that was only peeked is not. But `GetStats` takes either away, and `Run` sends a
peeked item without its header.
-/

namespace Ns3

open Machine List Option

namespace Tally

def addAll (t : Tally) (l : List QueuedPacket) : Tally := l.foldl add t

def of (l : List QueuedPacket) : Tally := ({} : Tally).addAll l

theorem addAll_append (t : Tally) (l l' : List QueuedPacket) : t.addAll (l ++ l') = (t.addAll l).addAll l' := by
  rw [addAll, foldl_append]
  rfl

theorem of_append (l l' : List QueuedPacket) : of (l ++ l') = (of l).addAll l' := addAll_append _ l l'

theorem uint32_uint32 (z : Int) : uint32 (uint32 z) = uint32 z := by
  simp only [uint32]
  omega

theorem uint64_uint64 (z : Int) : uint64 (uint64 z) = uint64 z := by
  simp only [uint64]
  omega

theorem uint32_chain (a n : Nat) : uint32 ((uint32 ((a : Int) + 1) : Int) + n) = uint32 ((a : Int) + (n + 1 : Nat)) := by
  simp only [uint32]
  lia

theorem uint64_chain (a b n : Nat) : uint64 ((uint64 ((a : Int) + b) : Int) + n) = uint64 ((a : Int) + (b + n : Nat)) := by
  simp only [uint64]
  lia

theorem addAll_eq (l : List QueuedPacket) : ∀ t : Tally, uint32 t.packets = t.packets → uint64 t.bytes = t.bytes →
    t.addAll l = ⟨uint32 (t.packets + l.length), uint64 (t.bytes + (l.map (·.size)).sum)⟩ := by
  induction l with
  | nil =>
    intro t hpackets hbytes
    simp [addAll, hpackets, hbytes]
  | cons p l ih =>
    intro t _ _
    have hpackets : uint32 (t.add p).packets = (t.add p).packets := by simp only [add, uint32_uint32]
    have hbytes : uint64 (t.add p).bytes = (t.add p).bytes := by simp only [add, uint64_uint64]
    rw [show t.addAll (p :: l) = (t.add p).addAll l from rfl, ih _ hpackets hbytes, length_cons, map_cons,
      sum_cons, add, uint32_chain, uint64_chain]

theorem of_eq (l : List QueuedPacket) : of l = ⟨uint32 l.length, uint64 ((l.map (·.size)).sum : Nat)⟩ := by
  have heq := addAll_eq l {} rfl rfl
  simpa [of] using heq

end Tally

namespace QueueDisc

/-! ## What a log says -/

def entered (log : List QueueDiscOutput) : List QueuedPacket := log.filterMap fun
  | .accepted p => some p
  | _ => none

def exits (log : List QueueDiscOutput) : List QueueDiscItem := log.filterMap fun
  | .accepted _ => none
  | .sent item | .dequeued item | .dropped item => some item

def gone (log : List QueueDiscOutput) : List QueueDiscItem := log.filterMap fun
  | .sent item | .dequeued item => some item
  | _ => none

def droppedItems (log : List QueueDiscOutput) : List QueueDiscItem := log.filterMap fun
  | .dropped item => some item
  | _ => none

section
variable (log o : List QueueDiscOutput) (l : List QueueDiscItem)

@[simp] theorem entered_append : entered (log ++ o) = entered log ++ entered o := filterMap_append

@[simp] theorem exits_append : exits (log ++ o) = exits log ++ exits o := filterMap_append

@[simp] theorem droppedItems_append : droppedItems (log ++ o) = droppedItems log ++ droppedItems o := filterMap_append

@[simp] theorem entered_dropped : entered (l.map .dropped) = [] := by simp [entered]

@[simp] theorem exits_dropped : exits (l.map .dropped) = l := by simp [exits, filterMap_map]

@[simp] theorem droppedItems_dropped : droppedItems (l.map .dropped) = l := by simp [droppedItems, filterMap_map]

theorem length_exits : (exits log).length = (gone log).length + (droppedItems log).length ∧
    ((exits log).map (·.packet.size)).sum = ((gone log).map (·.packet.size)).sum + ((droppedItems log).map (·.packet.size)).sum := by
  induction log with
  | nil => exact ⟨rfl, rfl⟩
  | cons x log ih =>
    cases x <;> simp only [exits, gone, droppedItems, filterMap_cons, length_cons, map_cons, sum_cons] at ih ⊢ <;>
      omega

end

/-! ## The invariant -/

/-- The state of a queue disc after a log, while the items of `hand` are between the queue
and their way out. -/
structure Inv (log : List QueueDiscOutput) (hand : List QueueDiscItem) (s : QueueDisc) : Prop where
  order : entered log = (exits log ++ hand ++ s.requeued.toList ++ s.internalQueue).map (·.packet)
  bare : ∀ item ∈ s.internalQueue, item.headers = 0
  held : ∀ item ∈ s.requeued, item.headers = if s.peeked then 0 else 1
  peeked : s.peeked = true → s.requeued.isSome = true
  dequeued : s.totalDequeued = .of ((exits log ++ hand ++ if s.peeked then [] else s.requeued.toList).map (·.packet))
  dropped : s.totalDroppedAfterDequeue = .of ((droppedItems log).map (·.packet))

section
variable {log : List QueueDiscOutput} {hand : List QueueDiscItem} {s : QueueDisc}

theorem inv_start (devQueueIface : Option (List Bool)) (ownPeek : Bool) :
    Inv [] [] { devQueueIface := devQueueIface, ownPeek := ownPeek } where
  order := rfl
  bare := by simp
  held := by simp
  peeked := by simp
  dequeued := rfl
  dropped := rfl

theorem Inv.congr (h : Inv log hand s) {hand' : List QueueDiscItem} (hsame : hand'.map (·.packet) = hand.map (·.packet)) :
    Inv log hand' s where
  order := by simpa [hsame] using h.order
  bare := h.bare
  held := h.held
  peeked := h.peeked
  dequeued := by simpa [hsame] using h.dequeued
  dropped := h.dropped

variable {item : QueueDiscItem} {o : List QueueDiscOutput} {s' : QueueDisc}

theorem Inv.leave (h : Inv log [item] s) {x : QueueDiscOutput} (hx : x = .sent item ∨ x = .dequeued item) :
    Inv (log ++ [x]) [] s := by
  have hexits : exits [x] = [item] ∧ entered [x] = [] ∧ droppedItems [x] = [] := by
    rcases hx with rfl | rfl <;> exact ⟨rfl, rfl, rfl⟩
  obtain ⟨hexits, hentered, hdropped⟩ := hexits
  exact ⟨by simpa [hexits, hentered] using h.order, h.bare, h.held, h.peeked, by simpa [hexits] using h.dequeued,
    by simpa [hdropped] using h.dropped⟩

theorem Inv.arrive (h : Inv log hand s) (a : Arrival) : Inv (log ++ (s.arrive a).2) hand (s.arrive a).1 := by
  cases a with
  | setStopped i stopped =>
    simp only [QueueDisc.arrive, append_nil]
    exact ⟨h.order, h.bare, h.held, h.peeked, h.dequeued, h.dropped⟩
  | enqueue p accepted =>
    cases accepted with
    | false => simpa [QueueDisc.arrive] using h
    | true =>
      have hexits : exits [.accepted p] = [] ∧ entered [.accepted p] = [p] ∧ droppedItems [.accepted p] = [] := ⟨rfl, rfl, rfl⟩
      obtain ⟨hexits, hentered, hdropped⟩ := hexits
      simp only [QueueDisc.arrive, packetEnqueued, if_true]
      refine ⟨?_, ?_, h.held, h.peeked, ?_, ?_⟩
      · simp [hexits, hentered, h.order]
      · intro item hitem
        rcases mem_append.mp hitem with hitem | hitem
        · exact h.bare item hitem
        · rw [mem_singleton.mp hitem]
      · simpa [hexits] using h.dequeued
      · simpa [hdropped] using h.dropped

@[simp] theorem arrive_requeued (s : QueueDisc) (a : Arrival) : (s.arrive a).1.requeued = s.requeued := by
  cases a with
  | enqueue p accepted => cases accepted <;> rfl
  | setStopped i stopped => rfl

@[simp] theorem arrive_peeked (s : QueueDisc) (a : Arrival) : (s.arrive a).1.peeked = s.peeked := by
  cases a with
  | enqueue p accepted => cases accepted <;> rfl
  | setStopped i stopped => rfl

theorem arrive_unsent (s : QueueDisc) (a : Arrival) : ∀ item, .sent item ∉ (s.arrive a).2 := by
  intro item
  cases a with
  | enqueue p accepted => cases accepted <;> simp [QueueDisc.arrive]
  | setStopped i stopped => simp [QueueDisc.arrive]

theorem Inv.arriveAll (l : List Arrival) : ∀ {log s}, Inv log hand s → Inv (log ++ (s.arriveAll l).2) hand (s.arriveAll l).1 ∧
    (s.arriveAll l).1.requeued = s.requeued ∧ (s.arriveAll l).1.peeked = s.peeked ∧ ∀ item, .sent item ∉ (s.arriveAll l).2 := by
  induction l with
  | nil =>
    intro log s h
    simpa [QueueDisc.arriveAll] using h
  | cons a l ih =>
    intro log s h
    obtain ⟨hinv, hrequeued, hpeeked, hunsent⟩ := ih (h.arrive a)
    rw [QueueDisc.arriveAll, ← append_assoc]
    refine ⟨hinv, hrequeued.trans (arrive_requeued s a), hpeeked.trans (arrive_peeked s a), fun item hitem => ?_⟩
    rcases mem_append.mp hitem with hitem | hitem
    · exact arrive_unsent s a item hitem
    · exact hunsent item hitem

/-! ## Dequeuing -/

theorem Inv.unpeeked (h : Inv log hand s) (hnone : s.requeued = none) : s.peeked = false := by
  by_contra htrue
  have hsome := h.peeked (by simpa using htrue)
  simp [hnone] at hsome

theorem doDequeue_spec (drops : Nat) : ∀ s : QueueDisc, ∃ dropped item rest n,
    s.internalQueue = dropped ++ item.toList ++ rest ∧
    s.doDequeue drops = ({ s with
      internalQueue := rest
      nPackets := n
      totalDequeued := s.totalDequeued.addAll ((dropped ++ if s.peeked then [] else item.toList).map (·.packet))
      totalDroppedAfterDequeue := s.totalDroppedAfterDequeue.addAll (dropped.map (·.packet)) }, item, dropped.map .dropped) := by
  induction drops with
  | zero =>
    intro s
    unfold doDequeue
    cases hq : s.internalQueue with
    | nil => exact ⟨[], none, [], s.nPackets, rfl, by cases s; simp_all [Tally.addAll]⟩
    | cons item rest =>
      cases hpeeked : s.peeked with
      | true => exact ⟨[], some item, rest, s.nPackets, rfl, by simp [Tally.addAll, packetDequeued]⟩
      | false => exact ⟨[], some item, rest, uint32 (s.nPackets - 1), rfl, by simp [Tally.addAll, packetDequeued]⟩
  | succ drops ih =>
    intro s
    unfold doDequeue
    cases hq : s.internalQueue with
    | nil => exact ⟨[], none, [], s.nPackets, rfl, by cases s; simp_all [Tally.addAll]⟩
    | cons item rest =>
      -- dropping the item counts it as dequeued, whether it is for a peek or not
      have hdrop : (({ s with internalQueue := rest }.packetDequeued item).dropAfterDequeue item) = { s with
          internalQueue := rest
          nPackets := uint32 (s.nPackets - 1)
          totalDequeued := s.totalDequeued.add item.packet
          totalDroppedAfterDequeue := s.totalDroppedAfterDequeue.add item.packet } := by
        cases hpeeked : s.peeked <;> simp [packetDequeued, dropAfterDequeue]
      simp only [hdrop]
      obtain ⟨dropped, next, rest', n, hrest, heq⟩ := ih { s with
          internalQueue := rest
          nPackets := uint32 (s.nPackets - 1)
          totalDequeued := s.totalDequeued.add item.packet
          totalDroppedAfterDequeue := s.totalDroppedAfterDequeue.add item.packet }
      simp only at hrest
      refine ⟨item :: dropped, next, rest', n, by simp [hrest], ?_⟩
      rw [heq]
      rfl

theorem Inv.takeRequeued (h : Inv log [] s) (hitem : s.requeued = some item) :
    Inv log [item] (s.takeRequeued item) ∧ (s.takeRequeued item).requeued = none ∧ (s.takeRequeued item).peeked = false ∧
    (s.takeRequeued item).devQueueIface = s.devQueueIface := by
  have horder := h.order
  have hdequeued := h.dequeued
  rw [hitem] at horder hdequeued
  cases hpeeked : s.peeked with
  | true =>
    simp only [QueueDisc.takeRequeued, hpeeked, if_true, packetDequeued, Bool.false_eq_true, if_false]
    refine ⟨⟨by simpa using horder, h.bare, by simp, by simp, ?_, h.dropped⟩, ?_⟩
    rotate_left
    · simp
    simp only [hpeeked, if_true, append_nil] at hdequeued
    simp only [hdequeued, Bool.false_eq_true, if_false, toList_none, append_nil, map_append, Tally.of_append]
    rfl
  | false =>
    simp only [QueueDisc.takeRequeued, hpeeked, Bool.false_eq_true, if_false]
    refine ⟨⟨by simpa using horder, h.bare, by simp, by simp, ?_, h.dropped⟩, by simp⟩
    simpa [hpeeked] using hdequeued

theorem Inv.doDequeue (h : Inv log [] s) (hnone : s.requeued = none) (drops : Nat) :
    ∃ s' item, ∃ dropped : List QueueDiscItem, s.doDequeue drops = (s', item, dropped.map .dropped) ∧
      Inv (log ++ dropped.map .dropped) item.toList s' ∧ s'.requeued = none ∧ s'.peeked = false ∧
      ∀ i ∈ item, i.headers = 0 := by
  have hpeeked := h.unpeeked hnone
  obtain ⟨dropped, item, rest, n, hq, heq⟩ := doDequeue_spec drops s
  have horder := h.order
  have hdequeued := h.dequeued
  have hdropped := h.dropped
  simp only [hpeeked, hnone, toList_none, Bool.false_eq_true, if_false, append_nil] at horder hdequeued
  refine ⟨_, item, dropped, heq, ⟨?_, ?_, by simp [hnone], by simp [hpeeked], ?_, ?_⟩, hnone, hpeeked, ?_⟩
  · simp [horder, hq, hnone]
  · intro i hi
    exact h.bare i (by simp [hq, hi])
  · simp [hdequeued, hpeeked, hnone, Tally.of_append, Tally.addAll_append]
  · simp [hdropped, Tally.of_append]
  · intro i hi
    exact h.bare i (by simp [hq, mem_toList.mpr hi])

theorem Inv.dequeue (h : Inv log [] s) (drops : Nat) :
    ∃ s' item, ∃ dropped : List QueueDiscItem, s.dequeue drops = (s', item, dropped.map .dropped) ∧ Inv (log ++ dropped.map .dropped) item.toList s' := by
  unfold QueueDisc.dequeue
  cases hitem : s.requeued with
  | none =>
    obtain ⟨s', item, dropped, heq, hinv, -⟩ := h.doDequeue hitem drops
    exact ⟨s', item, dropped, heq, hinv⟩
  | some item => exact ⟨_, some item, [], rfl, by simpa using (h.takeRequeued hitem).1⟩

theorem Inv.peek (h : Inv log [] s) (drops : Nat) :
    Inv (log ++ (s.peek drops).2) [] (s.peek drops).1 ∧ ∀ item, .sent item ∉ (s.peek drops).2 := by
  unfold QueueDisc.peek
  by_cases hkept : s.ownPeek ∨ s.requeued.isSome
  · rw [if_pos hkept]
    exact ⟨by simpa using h, by simp⟩
  · have hnone : s.requeued = none := by
      cases hr : s.requeued with
      | none => rfl
      | some item => simp [hr] at hkept
    have hpeeked := h.unpeeked hnone
    obtain ⟨dropped, item, rest, n, hq, heq⟩ := doDequeue_spec drops { s with peeked := true }
    have hdeq : QueueDisc.dequeue { s with peeked := true } drops = QueueDisc.doDequeue { s with peeked := true } drops := by
      simp [QueueDisc.dequeue, hnone]
    simp only at hq
    have horder := h.order
    have hdequeued := h.dequeued
    have hdropped := h.dropped
    simp only [hpeeked, hnone, toList_none, Bool.false_eq_true, if_false, append_nil] at horder hdequeued
    rw [if_neg hkept, hdeq, heq]
    cases item with
    | none =>
      refine ⟨⟨?_, ?_, by simp, by simp, ?_, ?_⟩, by simp⟩
      · simp [horder, hq]
      · intro i hi
        exact h.bare i (by simp [hq, hi])
      · simp [hdequeued, Tally.of_append]
      · simp [hdropped, Tally.of_append]
    | some item =>
      refine ⟨⟨?_, ?_, ?_, by simp, ?_, ?_⟩, by simp⟩
      · simp [horder, hq]
      · intro i hi
        exact h.bare i (by simp [hq, hi])
      · intro i hi
        cases hi
        simpa using h.bare item (by simp [hq])
      · simp [hdequeued, Tally.of_append]
      · simp [hdropped, Tally.of_append]

/-! ## Transmission -/

/-- An item that is sent has its header once. -/
def Headed : QueueDiscOutput → Prop
  | .sent item => item.headers = 1
  | _ => True

theorem headed_of_unsent (h : ∀ item, .sent item ∉ o) : ∀ x ∈ o, Headed x := by
  intro x hx
  cases x with
  | sent item => exact absurd hx (h item)
  | _ => trivial

/-- A run does not find a peeked item that its device queue lets go. -/
def Clear (s : QueueDisc) : QueueDiscEvent → Prop
  | .run _ _ => s.peeked = true → ∀ item ∈ s.requeued, s.isStopped item.packet.txQueueIndex ≠ some false
  | _ => True

instance (s : QueueDisc) : (e : QueueDiscEvent) → Decidable (Clear s e)
  | .run _ _ =>
    inferInstanceAs (Decidable (s.peeked = true → ∀ item ∈ s.requeued, s.isStopped item.packet.txQueueIndex ≠ some false))
  | .arrival _ | .peek _ | .dequeue _ => .isTrue trivial

theorem Inv.transmit (h : Inv log [item] s) (hnone : s.requeued = none) {during : List Arrival}
    {more : Bool} (heq : s.transmit item during = some (s', o, more)) :
    (s.isStopped item.packet.txQueueIndex = some true ∧ s' = s.requeue item ∧ o = [] ∧ more = false) ∨
    (s.isStopped item.packet.txQueueIndex = some false ∧ Inv (log ++ o) [] s' ∧ s'.requeued = none ∧
      ∃ o', o = .sent item :: o' ∧ ∀ i, .sent i ∉ o') := by
  obtain ⟨stopped, hstopped, heq⟩ := bind_eq_some_iff.mp heq
  cases stopped with
  | true =>
    obtain ⟨rfl, rfl, rfl⟩ : s.requeue item = s' ∧ [] = o ∧ false = more := by simpa using heq
    exact .inl ⟨hstopped, rfl, rfl, rfl⟩
  | false =>
    obtain ⟨hinv, hrequeued, -, hunsent⟩ := (h.leave (.inl rfl)).arriveAll during
    have hout : s' = (s.arriveAll during).1 ∧ o = .sent item :: (s.arriveAll during).2 := by
      simp only [Bool.false_eq_true, if_false] at heq
      by_cases hempty : (s.arriveAll during).1.nPackets = 0
      · rw [if_pos hempty] at heq
        cases heq
        exact ⟨rfl, rfl⟩
      · rw [if_neg hempty] at heq
        obtain ⟨_, -, heq⟩ := map_eq_some_iff.mp heq
        cases heq
        exact ⟨rfl, rfl⟩
    obtain ⟨rfl, rfl⟩ := hout
    refine .inr ⟨hstopped, ?_, hrequeued.trans hnone, _, rfl, hunsent⟩
    rwa [append_assoc] at hinv

theorem Inv.requeue (h : Inv log [item] s) (hnone : s.requeued = none) (hpeeked : s.peeked = false)
    (hheaders : item.headers = 1) : Inv log [] (s.requeue item) where
  order := by simpa [QueueDisc.requeue, hnone] using h.order
  bare := h.bare
  held := by simp [QueueDisc.requeue, hpeeked, hheaders]
  peeked := by simp [QueueDisc.requeue, hpeeked]
  dequeued := by simpa [QueueDisc.requeue, hnone, hpeeked] using h.dequeued
  dropped := h.dropped

theorem Inv.restart (h : Inv log [] s) {r : Round} {more : Bool}
    (heq : s.restart r = some (s', o, more)) : Inv (log ++ o) [] s' ∧ (more = true → s'.peeked = false) ∧
    ((∀ x ∈ o, Headed x) ↔ (s.peeked = true → ∀ item ∈ s.requeued, s.isStopped item.packet.txQueueIndex ≠ some false)) := by
  obtain ⟨⟨s₁, item?, o₁⟩, hdequeue, heq⟩ := bind_eq_some_iff.mp heq
  unfold dequeuePacket at hdequeue
  cases hheld : s.requeued with
  | some item =>
    rw [hheld] at hdequeue
    obtain ⟨stopped, hstopped, hdequeue⟩ := map_eq_some_iff.mp hdequeue
    cases stopped with
    | true =>
      cases hdequeue
      cases heq
      exact ⟨by simpa using h, by simp, by simp [hstopped]⟩
    | false =>
      cases hdequeue
      obtain ⟨⟨s₂, o₂, more₂⟩, htransmit, heq⟩ := map_eq_some_iff.mp heq
      cases heq
      obtain ⟨hinv, hnone, hpeeked, hdevice⟩ := h.takeRequeued hheld
      have hsame : (s.takeRequeued item).isStopped item.packet.txQueueIndex = some false := by
        rwa [isStopped, hdevice, ← isStopped]
      rcases hinv.transmit hnone htransmit with ⟨hstop, -⟩ | ⟨-, hinv', hnone', o', rfl, hunsent⟩
      · rw [hsame] at hstop
        cases hstop
      · refine ⟨hinv', fun _ => hinv'.unpeeked hnone', ?_⟩
        have hheaders := h.held item hheld
        have hrest : ∀ x ∈ o', Headed x := headed_of_unsent hunsent
        cases hp : s.peeked with
        | true => simp [Headed, hheaders, hp, hstopped]
        | false => simpa [Headed, hheaders, hp, hstopped] using hrest
  | none =>
    rw [hheld] at hdequeue
    have hpeeked := h.unpeeked hheld
    obtain ⟨may, -, hdequeue⟩ := map_eq_some_iff.mp hdequeue
    cases may with
    | false =>
      cases hdequeue
      cases heq
      exact ⟨by simpa using h, by simp, by simp⟩
    | true =>
      obtain ⟨s₂, item, dropped, hdo, hinv, hnone, hpeeked₂, hbare⟩ := h.doDequeue hheld r.drops
      have hdropped : ∀ x ∈ dropped.map QueueDiscOutput.dropped, Headed x := headed_of_unsent (by simp)
      rw [if_pos rfl, QueueDisc.dequeue, hheld] at hdequeue
      simp only [hdo] at hdequeue
      cases hdequeue
      cases item with
      | none =>
        cases heq
        exact ⟨hinv, by simp, by simpa using hdropped⟩
      | some item =>
        obtain ⟨⟨s₃, o₃, more₃⟩, htransmit, heq⟩ := map_eq_some_iff.mp heq
        cases heq
        have hheaders : item.addHeader.headers = 1 := by rw [QueueDiscItem.addHeader, hbare item rfl]
        have hinv' : Inv (log ++ dropped.map .dropped) [item.addHeader] _ := hinv.congr rfl
        rw [← append_assoc]
        rcases hinv'.transmit hnone htransmit with ⟨-, rfl, rfl, rfl⟩ | ⟨-, hsent, hnone', o', rfl, hunsent⟩
        · refine ⟨?_, by simp, by simpa using hdropped⟩
          rw [append_nil]
          exact hinv'.requeue hnone hpeeked₂ hheaders
        · refine ⟨hsent, fun _ => hsent.unpeeked hnone', ?_⟩
          have hrest : ∀ x ∈ o', Headed x := headed_of_unsent hunsent
          rw [forall_mem_append, forall_mem_cons]
          exact ⟨by simp, fun _ => ⟨hdropped, hheaders, hrest⟩⟩

theorem Inv.runLoop (rounds : Nat → Round) (n : Nat) : ∀ {log s s' o}, Inv log [] s →
    runLoop rounds (n + 1) s = some (s', o) → Inv (log ++ o) [] s' ∧ ((∀ x ∈ o, Headed x) ↔ Clear s (.run n rounds)) := by
  induction n with
  | zero =>
    intro log s s' o h heq
    obtain ⟨⟨s₁, o₁, more⟩, hrestart, heq⟩ := bind_eq_some_iff.mp heq
    obtain ⟨hinv, -, hheaded⟩ := h.restart hrestart
    have hout : s₁ = s' ∧ o₁ = o := by cases more <;> simpa [QueueDisc.runLoop] using heq
    obtain ⟨rfl, rfl⟩ := hout
    exact ⟨hinv, hheaded⟩
  | succ n ih =>
    intro log s s' o h heq
    obtain ⟨⟨s₁, o₁, more⟩, hrestart, heq⟩ := bind_eq_some_iff.mp heq
    obtain ⟨hinv, hmore, hheaded⟩ := h.restart hrestart
    cases more with
    | false =>
      cases heq
      exact ⟨hinv, hheaded⟩
    | true =>
      obtain ⟨⟨s₂, o₂⟩, hrest, heq⟩ := map_eq_some_iff.mp heq
      cases heq
      obtain ⟨hinv', hheaded'⟩ := ih hinv hrest
      -- the first round leaves no peeked item behind
      have hclear : Clear s₁ (.run n rounds) := fun hpeeked => by simp [hmore rfl] at hpeeked
      rw [forall_mem_append, hheaded, ← append_assoc]
      exact ⟨hinv', fun hboth => hboth.1, fun hfirst => ⟨hfirst, hheaded'.mpr hclear⟩⟩

/-- An item sent has its header once exactly when the step is clear. -/
theorem Inv.step {e : QueueDiscEvent} (h : Inv log [] s)
    (hs : machine.step s e = some (s', o)) : Inv (log ++ o) [] s' ∧ ((∀ x ∈ o, Headed x) ↔ Clear s e) := by
  cases e with
  | arrival a =>
    have hinv := h.arrive a
    have hunsent := arrive_unsent s a
    rw [show s.arrive a = (s', o) from Option.some.inj hs] at hinv hunsent
    exact ⟨hinv, fun _ => trivial, fun _ => headed_of_unsent hunsent⟩
  | peek drops =>
    obtain ⟨hinv, hunsent⟩ := h.peek drops
    rw [show s.peek drops = (s', o) from Option.some.inj hs] at hinv hunsent
    exact ⟨hinv, fun _ => trivial, fun _ => headed_of_unsent hunsent⟩
  | dequeue drops =>
    obtain ⟨s₁, item, dropped, heq, hinv⟩ := h.dequeue drops
    simp only [machine, QueueDisc.step, heq] at hs
    cases hs
    refine ⟨?_, fun _ => trivial, fun _ => headed_of_unsent (by simp)⟩
    rw [← append_assoc]
    cases item with
    | none => simpa using hinv
    | some item => exact hinv.leave (.inr rfl)
  | run quota rounds =>
    have hpos : ∃ n, (if quota = 0 then 4294967296 else quota) = n + 1 := by
      by_cases hquota : quota = 0
      · exact ⟨4294967295, if_pos hquota⟩
      · exact ⟨quota - 1, by rw [if_neg hquota]; omega⟩
    obtain ⟨n, hn⟩ := hpos
    simp only [machine, QueueDisc.step, QueueDisc.run, hn] at hs
    exact h.runLoop rounds n hs

end

/-! ## The statistics -/

section
variable {devQueueIface : Option (List Bool)} {ownPeek : Bool} {tr : List (QueueDiscEvent × List QueueDiscOutput)} {s : QueueDisc}

theorem Inv.of_run (h : Run machine anyStep { devQueueIface := devQueueIface, ownPeek := ownPeek } tr s) :
    Inv (outputs tr) [] s := by
  refine Run.invariant (fun tr s => Inv (outputs tr) [] s) (inv_start devQueueIface ownPeek) ?_ h
  intro tr s e s' o hinv _ hs
  rw [outputs_snoc]
  exact (hinv.step hs).1

/-- `GetStats` tells how many items were sent or dequeued, and their bytes. -/
def StatsExact (log : List QueueDiscOutput) (s : QueueDisc) : Prop :=
  s.getStats = ⟨(gone log).length, ((gone log).map (·.packet.size)).sum⟩

/-- The counters have room for what was sent or dequeued. -/
def Countable (log : List QueueDiscOutput) : Prop :=
  (gone log).length < 4294967296 ∧ ((gone log).map (·.packet.size)).sum < 18446744073709551616

theorem uint32_counted (n n' k : Nat) : uint32 ((uint32 (n + n' + k : Nat) : Int) - k - uint32 n') = n ↔ n < 4294967296 := by
  simp only [uint32]
  omega

theorem uint64_counted (n n' k : Nat) :
    uint64 ((uint64 (n + n' + k : Nat) : Int) - k - uint64 n') = n ↔ n < 18446744073709551616 := by
  simp only [uint64]
  omega

theorem uint32_short (n n' : Nat) : uint32 ((uint32 (n + n' : Nat) : Int) - 1 - uint32 n') ≠ n := by
  simp only [uint32]
  omega

theorem Inv.statsExact_iff {log : List QueueDiscOutput} (h : Inv log [] s) :
    StatsExact log s ↔ s.peeked = false ∧ Countable log := by
  obtain ⟨hlength, hsum⟩ := length_exits log
  have hdequeued := h.dequeued
  have hdropped := h.dropped
  have hmap (l : List QueueDiscItem) : Tally.of (l.map (·.packet)) = ⟨uint32 l.length, uint64 ((l.map (·.packet.size)).sum : Nat)⟩ := by
    rw [Tally.of_eq, List.map_map, length_map]
    rfl
  rw [hmap, append_nil, length_append, map_append, sum_append, hlength, hsum] at hdequeued
  rw [hmap] at hdropped
  unfold StatsExact Countable getStats
  rw [hdequeued, hdropped, Tally.mk.injEq]
  generalize (gone log).length = n
  generalize ((gone log).map (·.packet.size)).sum = size
  generalize (droppedItems log).length = n'
  generalize ((droppedItems log).map (·.packet.size)).sum = size'
  cases hpeeked : s.peeked with
  | true =>
    have hsome := h.peeked hpeeked
    simp only [hsome, if_true]
    apply iff_of_false
    · intro heq
      exact uint32_short n n' heq.1
    · simp
  | false =>
    cases hheld : s.requeued with
    | none => simpa using and_congr (uint32_counted n n' 0) (uint64_counted size size' 0)
    | some item => simpa using and_congr (uint32_counted n n' 1) (uint64_counted size size' item.packet.size)

/-- **The transmission path.** In every run what was accepted has left or is still in the disc,
in its order; the items that are sent have their headers just when no step of the run finds
a peeked item that is let go; the statistics are exact just when no peeked item is held. -/
theorem transmission_exact (devQueueIface : Option (List Bool)) (ownPeek : Bool)
    (tr : List (QueueDiscEvent × List QueueDiscOutput)) (s : QueueDisc)
    (h : Run machine anyStep { devQueueIface := devQueueIface, ownPeek := ownPeek } tr s) :
    entered (outputs tr) = (exits (outputs tr) ++ s.requeued.toList ++ s.internalQueue).map (·.packet) ∧
    ((∀ item, .sent item ∈ outputs tr → item.headers = 1) ↔
      Run machine Clear { devQueueIface := devQueueIface, ownPeek := ownPeek } tr s) ∧
    (StatsExact (outputs tr) s ↔ s.peeked = false ∧ Countable (outputs tr)) := by
  have hinv := Inv.of_run h
  refine ⟨by simpa using hinv.order, ?_, hinv.statsExact_iff⟩
  have hheaded : (∀ x ∈ outputs tr, Headed x) ↔ ∀ item, .sent item ∈ outputs tr → item.headers = 1 := by
    constructor
    · intro hall item hitem
      exact hall _ hitem
    · intro hall x hx
      cases x with
      | sent item => exact hall item hx
      | _ => trivial
  rw [← hheaded]
  exact Run.forall_outputs_iff (fun tr s e s' o hrun hs => ((Inv.of_run hrun).step hs).2) h

end

/-- The device queue stops in the first round, and the next item is sent when it wakes. -/
def requeueEvents : List QueueDiscEvent :=
  [.arrival (.enqueue ⟨0, 100, 1⟩ true), .arrival (.enqueue ⟨1, 200, 1⟩ true), .arrival (.enqueue ⟨2, 300, 0⟩ true),
    .run 64 fun _ => ⟨0, [.setStopped 1 true]⟩, .run 64 fun _ => {}, .peek 0, .arrival (.setStopped 1 false), .run 1 fun _ => {},
    .dequeue 0]

theorem requeueEvents_run : (machine.exec Clear { devQueueIface := some [false, false] } requeueEvents).isSome = true := by decide

theorem requeue_exact : ∃ tr s, Run machine Clear { devQueueIface := some [false, false] } tr s ∧
    gone (outputs tr) = [⟨⟨0, 100, 1⟩, 1⟩, ⟨⟨1, 200, 1⟩, 1⟩, ⟨⟨2, 300, 0⟩, 0⟩] ∧ StatsExact (outputs tr) s := by
  have hrun := run_of_isSome machine Clear { devQueueIface := some [false, false] } requeueEvents requeueEvents_run
  obtain ⟨-, -, hstats⟩ := transmission_exact (some [false, false]) false _ _ (hrun.mono fun _ _ _ => trivial)
  exact ⟨_, _, hrun, by decide, hstats.mpr ⟨by decide, by decide, by decide⟩⟩

/-- A packet is accepted and peeked, and then sent. -/
theorem peeked_missed : ∃ tr s tr' s', Run machine anyStep {} tr s ∧ Run machine anyStep {} (tr ++ tr') s' ∧
    outputs tr = [.accepted ⟨0, 100, 0⟩] ∧ s.getStats.packets = 4294967295 ∧ outputs tr' = [.sent ⟨⟨0, 100, 0⟩, 0⟩] := by
  have hpeek : Run machine anyStep {} _ _ :=
    (Run.nil.snoc trivial (e := .arrival (.enqueue ⟨0, 100, 0⟩ true)) rfl).snoc trivial (e := .peek 0) rfl
  have hsend := hpeek.snoc trivial (e := .run 64 fun _ => {}) rfl
  exact ⟨_, _, [_], _, hpeek, hsend, rfl, rfl, rfl⟩

end QueueDisc

end Ns3
