import Mathlib.Algebra.GroupWithZero.Nat
import Mathlib.Data.List.Nodup
import Mathlib.Data.Nat.Basic
import Mathlib.Data.Option.Basic
import Mathlib.Order.Basic
import Ns3.Wifi.WifiMacQueue

/-!
# The books of a `WifiMacQueue`

`Inv` says that the counters count the frames of the list and that a frame is
marked, with its node, exactly where it is in the list. Whatever a call takes
off the list it tells, and the rest of the list stays in its order (`Took`).
-/

namespace Ns3

open List Option

/-! ## Nodes -/

section
variable {l : List QueueNode} {n : QueueNode}

theorem find_node : ∀ {l : List QueueNode}, (l.map QueueNode.it).Nodup → n ∈ l → l.find? (fun m => m.it = n.it) = some n
  | m :: l, hnodup, hn => by
    obtain ⟨hnot, hnodup⟩ := nodup_cons.mp hnodup
    by_cases heq : m.it = n.it
    · obtain rfl | hmem := mem_cons.mp hn
      · exact find?_cons_of_pos (decide_eq_true rfl)
      · exact absurd (heq ▸ List.mem_map_of_mem hmem) hnot
    · obtain rfl | hmem := mem_cons.mp hn
      · exact absurd rfl heq
      · rw [find?_cons_of_neg (by simpa using heq), find_node hnodup hmem]

theorem perm_erase_node : ∀ {l : List QueueNode}, (l.map QueueNode.it).Nodup → n ∈ l →
    (n :: l.eraseP fun m => m.it = n.it).Perm l
  | m :: l, hnodup, hn => by
    obtain ⟨hnot, hnodup⟩ := nodup_cons.mp hnodup
    by_cases heq : m.it = n.it
    · obtain rfl | hmem := mem_cons.mp hn
      · have herase : (n :: l).eraseP (fun m => m.it = n.it) = l := eraseP_cons_of_pos (decide_eq_true rfl)
        rw [herase]
      · exact absurd (heq ▸ List.mem_map_of_mem hmem) hnot
    · obtain rfl | hmem := mem_cons.mp hn
      · exact absurd rfl heq
      · rw [eraseP_cons_of_neg (by simpa using heq)]
        exact (Perm.swap m n _).trans ((perm_erase_node hnodup hmem).cons m)

end

namespace WifiMacQueueItem

def frameSize (item : WifiMacQueueItem) : Nat := item.packetSize + item.headerSize + WIFI_MAC_FCS_LENGTH

/-- Is a frame one of the QoS data frames of a pair? -/
def isOf (pair : Mac48Address × UInt8) (item : WifiMacQueueItem) : Bool := item.isQosData && item.addressTidPair = pair

theorem getSize_eq {item : WifiMacQueueItem} (h : item.frameSize < 4294967296) : item.getSize = item.frameSize := by
  have hsize : getSize item = uint32 (item.frameSize : Nat) := rfl
  rw [hsize, uint32]
  omega

end WifiMacQueueItem

namespace WifiMacQueueState

open WifiMacQueueItem

def frames (s : WifiMacQueueState) : List WifiMacQueueItem := s.m_packets.map fun n => s.items n.item

def handles (s : WifiMacQueueState) : List Nat := s.m_packets.map QueueNode.item

def bytesOf (fs : List WifiMacQueueItem) : Nat := (fs.map frameSize).sum

structure PairsCount (s : WifiMacQueueState) (fs : List WifiMacQueueItem) : Prop where
  packets : ∀ pair, s.getNPacketsOf pair = (fs.filter (isOf pair)).length
  bytes : ∀ pair, s.getNBytesOf pair = bytesOf (fs.filter (isOf pair))

section
variable {s : WifiMacQueueState} {fs fs' : List WifiMacQueueItem} {item : Nat}

theorem bytesOf_perm (h : fs.Perm fs') : bytesOf fs = bytesOf fs' := (h.map frameSize).sum_nat

theorem bytesOf_sublist (h : fs.Sublist fs') : bytesOf fs ≤ bytesOf fs' := by
  induction h with
  | slnil => exact le_refl _
  | cons f _ ih => exact ih.trans (Nat.le_add_left _ _)
  | cons_cons f _ ih => exact Nat.add_le_add_left ih _

theorem length_le_bytesOf (fs : List WifiMacQueueItem) : 4 * fs.length ≤ bytesOf fs := by
  induction fs with
  | nil => exact le_refl _
  | cons f fs ih =>
    have hfour : 4 ≤ frameSize f := Nat.le_add_left _ _
    have hcons : bytesOf (f :: fs) = frameSize f + bytesOf fs := rfl
    rw [length_cons, hcons]
    omega

theorem PairsCount.perm (h : PairsCount s fs) (hperm : fs.Perm fs') : PairsCount s fs' :=
  ⟨fun pair => (h.packets pair).trans (hperm.filter _).length_eq,
    fun pair => (h.bytes pair).trans (bytesOf_perm (hperm.filter _))⟩

variable {data : WifiMacQueueItem}

theorem isOf_pair (hqos : data.isQosData = true) : isOf data.addressTidPair data = true := by
  rw [isOf, hqos, Bool.true_and]
  exact decide_eq_true rfl

theorem isOf_other {pair : Mac48Address × UInt8} (hne : pair ≠ data.addressTidPair) :
    isOf pair data = false := by
  rw [isOf, decide_eq_false (Ne.symm hne), Bool.and_false]

theorem isOf_noQos (hqos : data.isQosData = false) (pair : Mac48Address × UInt8) :
    isOf pair data = false := by
  rw [isOf, hqos, Bool.false_and]

theorem bytesOf_cons (f : WifiMacQueueItem) (fs : List WifiMacQueueItem) : bytesOf (f :: fs) = frameSize f + bytesOf fs := rfl

theorem unqueue_spec (hpairs : PairsCount s (s.items item :: fs)) (hsize : frameSize (s.items item) < 4294967296)
    (hqueued : (s.items item).isQueued = true) : ∃ s', s.unqueue item = some s' ∧ PairsCount s' fs ∧
      s'.items = Function.update s.items item { s.items item with m_queueAc := .AC_UNDEF } ∧ s'.m_packets = s.m_packets ∧
        s'.nextIt = s.nextIt ∧ s'.m_nPackets = s.m_nPackets ∧ s'.m_nBytes = s.m_nBytes ∧ s'.now = s.now := by
  rw [unqueue]
  by_cases hqos : (s.items item).isQosData = true
  · have hpackets := hpairs.packets (s.items item).addressTidPair
    have hbytes := hpairs.bytes (s.items item).addressTidPair
    rw [filter_cons_of_pos (isOf_pair hqos)] at hpackets hbytes
    rw [length_cons] at hpackets
    cases hfind : s.m_nQueuedPackets (s.items item).addressTidPair with
    | none =>
      rw [getNPacketsOf, hfind] at hpackets
      cases hpackets
    | some nPackets =>
      rw [getNPacketsOf, hfind] at hpackets
      have hpackets : nPackets = _ := hpackets
      have hgood : 1 ≤ nPackets ∧ (s.items item).getSize ≤ s.getNBytesOf (s.items item).addressTidPair := by
        rw [getSize_eq hsize, hbytes, hpackets]
        exact ⟨Nat.le_add_left _ _, Nat.le_add_right _ _⟩
      simp only [if_pos hqos, bind_some, if_pos hgood, if_pos hqueued]
      refine ⟨_, rfl, ⟨fun pair => ?_, fun pair => ?_⟩, rfl, rfl, rfl, rfl, rfl, rfl⟩
      · by_cases hpair : pair = (s.items item).addressTidPair
        · rw [hpair]
          simp only [getNPacketsOf, Function.update_self]
          omega
        · have hcount := hpairs.packets pair
          rw [filter_cons_of_neg (by rw [isOf_other hpair]; exact Bool.false_ne_true)] at hcount
          simp only [getNPacketsOf, Function.update_of_ne hpair]
          exact hcount
      · by_cases hpair : pair = (s.items item).addressTidPair
        · rw [hpair]
          rw [getNBytesOf]
          simp only [Function.update_self]
          rw [getSize_eq hsize, hbytes]
          exact Nat.add_sub_cancel_left _ _
        · have hcount := hpairs.bytes pair
          rw [filter_cons_of_neg (by rw [isOf_other hpair]; exact Bool.false_ne_true)] at hcount
          simp only [getNBytesOf, Function.update_of_ne hpair]
          exact hcount
  · have hnone (pair : Mac48Address × UInt8) : ¬isOf pair (s.items item) = true := by
      rw [isOf_noQos (Bool.eq_false_iff.mpr hqos)]
      exact Bool.false_ne_true
    simp only [if_neg hqos, bind_some, if_pos hqueued]
    refine ⟨_, rfl, ⟨fun pair => ?_, fun pair => ?_⟩, rfl, rfl, rfl, rfl, rfl, rfl⟩
    · have hcount := hpairs.packets pair
      rwa [filter_cons_of_neg (hnone pair)] at hcount
    · have hcount := hpairs.bytes pair
      rwa [filter_cons_of_neg (hnone pair)] at hcount

theorem countersOf_eq (hpairs : PairsCount s fs) (pair : Mac48Address × UInt8) :
    s.countersOf pair = (s.getNPacketsOf pair, s.getNBytesOf pair) := by
  cases hfind : s.m_nQueuedPackets pair with
  | none =>
    have hzero : s.getNPacketsOf pair = 0 := by rw [getNPacketsOf, hfind]
    have hnil := eq_nil_of_length_eq_zero ((hpairs.packets pair).symm.trans hzero)
    rw [countersOf, hfind, hzero, hpairs.bytes pair, hnil]
    rfl
  | some nPackets => rw [countersOf, getNPacketsOf, hfind]

theorem PairsCount.marked {f f' : WifiMacQueueItem} (h : PairsCount s (f :: fs)) (hisOf : ∀ pair, isOf pair f' = isOf pair f)
    (hsize : frameSize f' = frameSize f) : PairsCount s (f' :: fs) := by
  refine ⟨fun pair => (h.packets pair).trans ?_, fun pair => (h.bytes pair).trans ?_⟩
  · rw [filter_cons, filter_cons, hisOf]
    split
    · rfl
    · rfl
  · rw [filter_cons, filter_cons, hisOf]
    split
    · rw [bytesOf_cons, bytesOf_cons, hsize]
    · rfl

theorem countEnqueued_spec (hpairs : PairsCount s fs) (hsmall : bytesOf (data :: fs) < 4294967296) :
    PairsCount (s.countEnqueued data) (data :: fs) := by
  have hlength := length_le_bytesOf (data :: fs)
  rw [bytesOf_cons] at hlength hsmall
  rw [length_cons] at hlength
  rw [countEnqueued]
  by_cases hqos : data.isQosData = true
  · have hpackets := hpairs.packets data.addressTidPair
    have hbytes := hpairs.bytes data.addressTidPair
    have hfew : (fs.filter (isOf data.addressTidPair)).length ≤ fs.length := length_filter_le _ _
    have hless : bytesOf (fs.filter (isOf data.addressTidPair)) ≤ bytesOf fs := bytesOf_sublist filter_sublist
    simp only [if_pos hqos, countersOf_eq hpairs, getSize_eq (show frameSize data < 4294967296 by omega)]
    refine ⟨fun pair => ?_, fun pair => ?_⟩
    · by_cases hpair : pair = data.addressTidPair
      · rw [hpair, filter_cons_of_pos (isOf_pair hqos), length_cons, ← hpackets]
        have hfits : s.getNPacketsOf data.addressTidPair + 1 < 4294967296 := by omega
        rw [getNPacketsOf]
        simp only [Function.update_self]
        exact uint32_add hfits
      · rw [filter_cons_of_neg (by rw [isOf_other hpair]; exact Bool.false_ne_true), ← hpairs.packets pair]
        simp only [getNPacketsOf, Function.update_of_ne hpair]
    · by_cases hpair : pair = data.addressTidPair
      · rw [hpair, filter_cons_of_pos (isOf_pair hqos), bytesOf_cons, ← hbytes, Nat.add_comm (frameSize data)]
        have hfits : s.getNBytesOf data.addressTidPair + frameSize data < 4294967296 := by omega
        rw [getNBytesOf]
        simp only [Function.update_self]
        exact uint32_add hfits
      · rw [filter_cons_of_neg (by rw [isOf_other hpair]; exact Bool.false_ne_true), ← hpairs.bytes pair]
        simp only [getNBytesOf, Function.update_of_ne hpair]
  · have hnone (pair : Mac48Address × UInt8) : ¬isOf pair data = true := by
      rw [isOf_noQos (Bool.eq_false_iff.mpr hqos)]
      exact Bool.false_ne_true
    rw [if_neg hqos]
    refine ⟨fun pair => ?_, fun pair => ?_⟩
    · rw [filter_cons_of_neg (hnone pair), hpairs.packets pair]
    · rw [filter_cons_of_neg (hnone pair), hpairs.bytes pair]

theorem countEnqueued_rest (s : WifiMacQueueState) (data : WifiMacQueueItem) : ∃ nQueuedPackets nQueuedBytes,
    s.countEnqueued data = { s with m_nQueuedPackets := nQueuedPackets, m_nQueuedBytes := nQueuedBytes } := by
  rw [countEnqueued]
  split
  · exact ⟨_, _, rfl⟩
  · exact ⟨_, _, rfl⟩

theorem enqueued_spec (m_ac : AcIndex) (ret : Nat) (hpairs : PairsCount s fs) :
    ∃ nQueuedPackets nQueuedBytes, s.enqueued m_ac item ret = { s with
        m_nQueuedPackets := nQueuedPackets
        m_nQueuedBytes := nQueuedBytes
        items := Function.update s.items item { s.items item with m_queueAc := m_ac, m_queueIt := ret } } ∧
      (bytesOf (s.items item :: fs) < 4294967296 →
        PairsCount (s.enqueued m_ac item ret) ({ s.items item with m_queueAc := m_ac, m_queueIt := ret } :: fs)) := by
  obtain ⟨nQueuedPackets, nQueuedBytes, hcount⟩ := countEnqueued_rest s (s.items item)
  refine ⟨nQueuedPackets, nQueuedBytes, ?_, fun hsmall => ?_⟩
  · rw [enqueued, hcount]
  · let marked : WifiMacQueueItem := { s.items item with m_queueAc := m_ac, m_queueIt := ret }
    have hcounted : PairsCount (s.countEnqueued (s.items item)) (marked :: fs) :=
      (countEnqueued_spec hpairs hsmall).marked (fun _ => rfl) rfl
    exact ⟨hcounted.packets, hcounted.bytes⟩

end

end WifiMacQueueState

namespace WifiMacQueue

open WifiMacQueueItem WifiMacQueueState

/-! ## The invariant -/

structure Inv (q : WifiMacQueue) (s : WifiMacQueueState) : Prop where
  packets : s.m_nPackets = s.m_packets.length
  bytes : s.m_nBytes = WifiMacQueueState.bytesOf s.frames
  pairs : PairsCount s s.frames
  small : WifiMacQueueState.bytesOf s.frames < 4294967296
  marked : ∀ i, (s.items i).isQueued = true → i ∈ s.handles
  designated : ∀ n ∈ s.m_packets, (s.items n.item).m_queueAc = q.m_ac ∧ (s.items n.item).m_queueIt = n.it
  nodup : (s.m_packets.map QueueNode.it).Nodup
  fresh : ∀ n ∈ s.m_packets, n.it < s.nextIt
  fits : s.m_packets.length ≤ q.m_maxSize
  ac : q.m_ac ≠ .AC_UNDEF

/-- Some frames are taken off the list, and the others stay as they are. -/
structure Took (s s' : WifiMacQueueState) (left : List Nat) : Prop where
  sublist : s'.m_packets.Sublist s.m_packets
  perm : (left ++ s'.handles).Perm s.handles
  kept : ∀ i, i ∉ left → s'.items i = s.items i
  tstamp : ∀ i, (s'.items i).m_tstamp = (s.items i).m_tstamp
  now : s'.now = s.now
  nextIt : s'.nextIt = s.nextIt

section
variable {q : WifiMacQueue} {s s' s'' : WifiMacQueueState} {n m : QueueNode} {left left' : List Nat}

theorem Took.refl (s : WifiMacQueueState) : Took s s [] :=
  ⟨Sublist.refl _, Perm.refl _, fun _ _ => rfl, fun _ => rfl, rfl, rfl⟩

theorem Took.trans (h : Took s s' left) (h' : Took s' s'' left') : Took s s'' (left ++ left') := by
  refine ⟨h'.sublist.trans h.sublist, ?_, fun i hi => ?_, fun i => (h'.tstamp i).trans (h.tstamp i), h'.now.trans h.now,
    h'.nextIt.trans h.nextIt⟩
  · rw [append_assoc]
    exact (h'.perm.append_left left).trans h.perm
  · obtain ⟨hnot, hnot'⟩ := not_or.mp (mt mem_append.mpr hi)
    rw [h'.kept i hnot', h.kept i hnot]

theorem Took.isExpired (h : Took s s' left) (i : Nat) : q.isExpired s' i = q.isExpired s i := by
  rw [WifiMacQueue.isExpired, WifiMacQueue.isExpired, h.now, h.tstamp]

theorem Inv.nodeAt (h : Inv q s) (hn : n ∈ s.m_packets) : s.nodeAt n.it = some n := find_node h.nodup hn

theorem Inv.eq_of_item (h : Inv q s) (hn : n ∈ s.m_packets) (hm : m ∈ s.m_packets) (heq : m.item = n.item) : m = n := by
  have hit : m.it = n.it := by rw [← (h.designated m hm).2, heq, (h.designated n hn).2]
  exact inj_on_of_nodup_map h.nodup hm hn hit

theorem Inv.isQueued (h : Inv q s) (hn : n ∈ s.m_packets) : (s.items n.item).isQueued = true := by
  rw [WifiMacQueueItem.isQueued, (h.designated n hn).1]
  exact decide_eq_true h.ac

theorem Inv.nodup_handles (h : Inv q s) : s.handles.Nodup :=
  Nodup.map_on (fun _ hm _ hn heq => h.eq_of_item hn hm heq) (Nodup.of_map _ h.nodup)

/-- **One frame is removed**, and the books are kept. -/
theorem doRemove_spec (h : Inv q s) (hn : n ∈ s.m_packets) : ∃ s', doRemove s n.it = some (s', some n.item) ∧ Inv q s' ∧
    Took s s' [n.item] ∧ s'.m_packets = s.m_packets.eraseP fun m => m.it = n.it := by
  have hperm := perm_erase_node h.nodup hn
  have hframes := hperm.map fun m => s.items m.item
  have hhandles : (n.item :: (s.m_packets.eraseP fun m => m.it = n.it).map QueueNode.item).Perm s.handles :=
    hperm.map QueueNode.item
  have hsublist : (s.m_packets.eraseP fun m => m.it = n.it).Sublist s.m_packets := eraseP_sublist
  have hlength := hperm.length_eq
  have hbytes := bytesOf_perm hframes
  rw [map_cons] at hframes hbytes
  rw [bytesOf_cons] at hbytes
  have hsmall := h.small
  rw [frames, ← hbytes] at hsmall
  have hsize := getSize_eq (Nat.lt_of_le_of_lt (Nat.le_add_right _ _) hsmall)
  have hnotin : n.item ∉ (s.m_packets.eraseP fun m => m.it = n.it).map QueueNode.item :=
    (nodup_cons.mp (hhandles.nodup_iff.mpr h.nodup_handles)).1
  let s₁ : WifiMacQueueState := { s with
    m_packets := s.m_packets.eraseP fun m => m.it = n.it
    m_nBytes := s.m_nBytes - (s.items n.item).getSize
    m_nPackets := s.m_nPackets - 1 }
  have htake : s.queueTake n.it = some (s₁, some n.item) := by
    have hsome : s.m_nPackets ≠ 0 := by
      rw [h.packets, ← hlength]
      exact Nat.succ_ne_zero _
    have hle : (s.items n.item).getSize ≤ s.m_nBytes := by
      rw [h.bytes, frames, ← hbytes, hsize]
      exact Nat.le_add_right _ _
    rw [queueTake, if_neg hsome, h.nodeAt hn, bind_some]
    exact if_pos hle
  have hcount := h.pairs.perm hframes.symm
  have hpairs : PairsCount s₁ (s₁.items n.item :: (s.m_packets.eraseP fun m => m.it = n.it).map fun m => s.items m.item) :=
    ⟨hcount.packets, hcount.bytes⟩
  obtain ⟨s', hunqueue, hpairs', hitems, hm_packets, hnextIt, hnPackets, hnBytes, hnow⟩ :=
    unqueue_spec hpairs (Nat.lt_of_le_of_lt (Nat.le_add_right _ _) hsmall) (h.isQueued hn)
  have hother (i : Nat) (hi : i ≠ n.item) : s'.items i = s.items i := by
    rw [hitems, Function.update_of_ne hi]
  have hstay (m : QueueNode) (hm : m ∈ s'.m_packets) : s'.items m.item = s.items m.item := by
    refine hother _ fun heq => hnotin ?_
    rw [← heq]
    rw [hm_packets] at hm
    exact List.mem_map_of_mem hm
  have hframes' : s'.frames = (s.m_packets.eraseP fun m => m.it = n.it).map fun m => s.items m.item := by
    rw [frames, map_congr_left hstay, hm_packets]
  have hsub {m : QueueNode} (hm : m ∈ s'.m_packets) : m ∈ s.m_packets := by
    rw [hm_packets] at hm
    exact hsublist.subset hm
  refine ⟨s', ?_, ⟨?_, ?_, ?_, ?_, fun i hi => ?_, fun m hm => ?_, ?_, fun m hm => ?_, ?_, h.ac⟩,
    ⟨?_, ?_, fun i hi => hother i fun heq => hi (mem_singleton.mpr heq), fun i => ?_, hnow, hnextIt⟩, hm_packets⟩
  · rw [doRemove, htake]
    show (s₁.unqueue n.item).map _ = _
    rw [hunqueue]
    rfl
  · rw [hnPackets, hm_packets]
    show s.m_nPackets - 1 = _
    rw [h.packets, ← hlength]
    rfl
  · rw [hnBytes, hframes']
    show s.m_nBytes - (s.items n.item).getSize = _
    rw [h.bytes, frames, ← hbytes, hsize]
    exact Nat.add_sub_cancel_left _ _
  · rw [hframes']
    exact hpairs'
  · rw [hframes']
    omega
  · by_cases heq : i = n.item
    · rw [heq, hitems, Function.update_self] at hi
      cases hi
    · rw [hother i heq] at hi
      have hmem := hhandles.mem_iff.mpr (h.marked i hi)
      rw [handles, hm_packets]
      exact (mem_cons.mp hmem).resolve_left heq
  · rw [hstay m hm]
    exact h.designated m (hsub hm)
  · rw [hm_packets]
    exact h.nodup.sublist (hsublist.map _)
  · rw [hnextIt]
    exact h.fresh m (hsub hm)
  · rw [hm_packets]
    exact hsublist.length_le.trans h.fits
  · rw [hm_packets]
    exact hsublist
  · rw [handles, hm_packets]
    exact hhandles
  · by_cases heq : i = n.item
    · rw [heq, hitems, Function.update_self]
    · rw [hother i heq]

theorem ttlExceeded_spec (h : Inv q s) (hn : n ∈ s.m_packets) (hexpired : q.isExpired s n.item = true) :
    ∃ s', q.ttlExceeded s n = some (s', true, [.expired n.item]) ∧ Inv q s' ∧ Took s s' [n.item] ∧
      s'.m_packets = s.m_packets.eraseP fun m => m.it = n.it := by
  obtain ⟨s', hremove, hspec⟩ := doRemove_spec h hn
  refine ⟨s', ?_, hspec⟩
  rw [ttlExceeded, if_pos hexpired, hremove]
  rfl

theorem ttlExceeded_keeps (hexpired : q.isExpired s n.item = false) : q.ttlExceeded s n = some (s, false, []) := by
  rw [ttlExceeded, hexpired]
  rfl

theorem doDequeue_eq (hn : s.nodeAt (some n.it) = some n) (hexpired : q.isExpired s n.item = false) :
    q.doDequeue s n.it = (doRemove s n.it).map fun r => (r.1, r.2.toList.map .dequeued) := by
  rw [doDequeue, hn, bind_some, ttlExceeded_keeps hexpired, bind_some]
  dsimp only
  rw [if_neg Bool.false_ne_true, doRemove]
  cases s.queueTake (some n.it) with
  | none => rfl
  | some r =>
    obtain ⟨s', item⟩ := r
    cases item with
    | none => rfl
    | some item =>
      rw [bind_some, bind_some, Option.map_map]
      rfl

theorem doDequeue_spec (h : Inv q s) (hn : n ∈ s.m_packets) (hexpired : q.isExpired s n.item = false) :
    ∃ s', q.doDequeue s n.it = some (s', [.dequeued n.item]) ∧ Inv q s' ∧ Took s s' [n.item] := by
  obtain ⟨s', hremove, hinv, htook, -⟩ := doRemove_spec h hn
  refine ⟨s', ?_, hinv, htook⟩
  rw [doDequeue_eq (h.nodeAt hn) hexpired, hremove]
  rfl

theorem doDequeue_expired (h : Inv q s) (hn : n ∈ s.m_packets) (hexpired : q.isExpired s n.item = true) :
    ∃ s', q.doDequeue s n.it = some (s', [.expired n.item]) ∧ Inv q s' ∧ Took s s' [n.item] := by
  obtain ⟨s', hexceeded, hinv, htook, -⟩ := ttlExceeded_spec h hn hexpired
  refine ⟨s', ?_, hinv, htook⟩
  rw [doDequeue, h.nodeAt hn, bind_some, hexceeded]
  rfl

/-! ## Loops -/

theorem mem_erased {rest : List QueueNode} (hnodup : ((n :: rest).map QueueNode.it).Nodup)
    (hsub : ∀ m ∈ n :: rest, m ∈ s.m_packets)
    (herase : s'.m_packets = s.m_packets.eraseP fun m => m.it = n.it) : ∀ m ∈ rest, m ∈ s'.m_packets := by
  intro m hm
  have hne : m.it ≠ n.it := by
    intro heq
    apply (nodup_cons.mp hnodup).1
    rw [← heq]
    exact List.mem_map_of_mem hm
  rw [herase]
  exact (mem_eraseP_of_neg (by simpa using hne)).mpr (hsub m (mem_cons_of_mem n hm))

/-- **A loop over the queue** removes expired frames only and stops at one that is not. -/
theorem walk_spec (wanted : WifiMacQueueItem → Bool) : ∀ (nodes : List QueueNode) (s : WifiMacQueueState), Inv q s →
    (∀ n ∈ nodes, n ∈ s.m_packets) → (nodes.map QueueNode.it).Nodup → ∃ s' left passed found,
      q.walk wanted nodes s = some (s', left.map .expired, passed, found) ∧ Inv q s' ∧ Took s s' left ∧
        ∀ n, found = some n → n ∈ s'.m_packets ∧ q.isExpired s' n.item = false
  | [], s, h, _, _ => ⟨s, [], [], none, rfl, h, Took.refl s, fun _ heq => by cases heq⟩
  | n :: rest, s, h, hsub, hnodup => by
    have hn := hsub n mem_cons_self
    have hnodup' := (nodup_cons.mp hnodup).2
    rw [walk]
    by_cases hexpired : q.isExpired s n.item = true
    · obtain ⟨s₁, hexceeded, hinv₁, htook₁, herase⟩ := ttlExceeded_spec h hn hexpired
      obtain ⟨s', left, passed, found, hwalk, hinv, htook, hfound⟩ :=
        walk_spec wanted rest s₁ hinv₁ (mem_erased hnodup hsub herase) hnodup'
      refine ⟨s', n.item :: left, passed, found, ?_, hinv, htook₁.trans htook, hfound⟩
      rw [hexceeded, bind_some]
      dsimp only
      rw [if_pos rfl, hwalk]
      rfl
    · have hkept := Bool.eq_false_iff.mpr hexpired
      rw [ttlExceeded_keeps hkept, bind_some]
      dsimp only
      rw [if_neg Bool.false_ne_true]
      split
      · refine ⟨s, [], [], some n, rfl, h, Took.refl s, fun m heq => ?_⟩
        cases heq
        exact ⟨hn, hkept⟩
      · obtain ⟨s', left, passed, found, hwalk, hspec⟩ :=
          walk_spec wanted rest s h (fun m hm => hsub m (mem_cons_of_mem n hm)) hnodup'
        refine ⟨s', left, n :: passed, found, ?_, hspec⟩
        rw [hwalk]
        rfl

theorem removeUpTo_spec : ∀ (nodes : List QueueNode) (s : WifiMacQueueState), Inv q s → (∀ n ∈ nodes, n ∈ s.m_packets) →
    (nodes.map QueueNode.it).Nodup → m ∈ nodes → ∃ s' left,
      q.removeUpTo m.it nodes s = some (s', left.map .expired ++ [.removed m.item]) ∧ Inv q s' ∧ Took s s' (left ++ [m.item])
  | n :: rest, s, h, hsub, hnodup, hm => by
    have hn := hsub n mem_cons_self
    obtain ⟨hnot, hnodup'⟩ := nodup_cons.mp hnodup
    rw [removeUpTo]
    split
    · next heq =>
      have hnode : m = n := inj_on_of_nodup_map h.nodup (hsub m hm) hn heq.symm
      rw [hnode]
      obtain ⟨s', hremove, hinv, htook, -⟩ := doRemove_spec h hn
      refine ⟨s', [], ?_, hinv, htook⟩
      rw [hremove]
      rfl
    · next hne =>
      have hrest : m ∈ rest := (mem_cons.mp hm).resolve_left fun heq => hne (heq ▸ rfl)
      by_cases hexpired : q.isExpired s n.item = true
      · obtain ⟨s₁, hexceeded, hinv₁, htook₁, herase⟩ := ttlExceeded_spec h hn hexpired
        obtain ⟨s', left, hremove, hinv, htook⟩ := removeUpTo_spec rest s₁ hinv₁ (mem_erased hnodup hsub herase) hnodup' hrest
        refine ⟨s', n.item :: left, ?_, hinv, htook₁.trans htook⟩
        rw [hexceeded, bind_some]
        dsimp only
        rw [hremove]
        rfl
      · rw [ttlExceeded_keeps (Bool.eq_false_iff.mpr hexpired), bind_some]
        dsimp only
        obtain ⟨s', left, hremove, hspec⟩ :=
          removeUpTo_spec rest s h (fun m hm => hsub m (mem_cons_of_mem n hm)) hnodup' hrest
        refine ⟨s', left, ?_, hspec⟩
        rw [hremove]
        rfl

/-- Is a position the end of the list or a node of it? -/
def valid (s : WifiMacQueueState) (pos : Option Nat) : Prop := ∀ it, pos = some it → ∃ n ∈ s.m_packets, n.it = it

instance (s : WifiMacQueueState) (pos : Option Nat) : Decidable (valid s pos) :=
  match pos with
  | none => isTrue fun _ heq => nomatch heq
  | some it => decidable_of_iff (∃ n ∈ s.m_packets, n.it = it)
      ⟨fun h _ heq => Option.some.inj heq ▸ h, fun h => h it rfl⟩

theorem valid_head {nodes : List QueueNode} (h : ∀ n ∈ nodes, n ∈ s.m_packets) : valid s (nodes.head?.map QueueNode.it) := by
  intro it heq
  obtain ⟨n, hhead, hit⟩ := map_eq_some_iff.mp heq
  exact ⟨n, h n (mem_of_head? hhead), hit⟩

theorem valid_start (s : WifiMacQueueState) : valid s s.start := valid_head fun _ hn => hn

theorem valid_erased {pos : Option Nat} (hpos : valid s pos) (hne : pos ≠ some n.it)
    (herase : s'.m_packets = s.m_packets.eraseP fun m => m.it = n.it) : valid s' pos := by
  intro it heq
  obtain ⟨m, hm, hit⟩ := hpos it heq
  refine ⟨m, ?_, hit⟩
  rw [herase]
  have hother : m.it ≠ n.it := by
    intro hsame
    apply hne
    rw [heq, ← hit, hsame]
  exact (mem_eraseP_of_neg (by simpa using hother)).mpr hm

theorem removeStale_spec (pos : Option Nat) : ∀ (nodes : List QueueNode), Inv q s → (∀ n ∈ nodes, n ∈ s.m_packets) →
    (nodes.map QueueNode.it).Nodup → valid s pos → q.removeStale pos nodes s = some none ∨
      ∃ s' n pos', q.removeStale pos nodes s = some (some (s', [.expired n], pos')) ∧ Inv q s' ∧ Took s s' [n] ∧ valid s' pos'
  | [], _, _, _, _ => .inl rfl
  | n :: rest, h, hsub, hnodup, hpos => by
    have hn := hsub n mem_cons_self
    rw [removeStale]
    by_cases hexpired : q.isExpired s n.item = true
    · obtain ⟨s', hexceeded, hinv, htook, herase⟩ := ttlExceeded_spec h hn hexpired
      rw [hexceeded]
      refine .inr ⟨s', n.item, _, rfl, hinv, htook, ?_⟩
      split
      · exact valid_head (mem_erased hnodup hsub herase)
      · next hne => exact valid_erased hpos hne herase
    · rw [ttlExceeded_keeps (Bool.eq_false_iff.mpr hexpired)]
      exact removeStale_spec pos rest h (fun m hm => hsub m (mem_cons_of_mem n hm)) (nodup_cons.mp hnodup).2 hpos

/-! ## A frame is put in -/

theorem insertBefore_perm (l : List QueueNode) (pos : Option Nat) (n : QueueNode) : (insertBefore l pos n).Perm (n :: l) := by
  cases pos with
  | none => exact perm_append_singleton n l
  | some pos =>
    have hsplit : (l.takeWhile fun m => m.it ≠ pos) ++ l.dropWhile (fun m => m.it ≠ pos) = l := takeWhile_append_dropWhile
    calc insertBefore l (some pos) n
        = (l.takeWhile fun m => m.it ≠ pos) ++ n :: (l.dropWhile fun m => m.it ≠ pos) := rfl
      Perm _ (n :: ((l.takeWhile fun m => m.it ≠ pos) ++ l.dropWhile fun m => m.it ≠ pos)) := perm_middle
      _ = n :: l := by rw [hsplit]

theorem insertBefore_filter {l : List QueueNode} {p : QueueNode → Bool} (hl : ∀ m ∈ l, p m = true) (hn : p n = false)
    (pos : Option Nat) : (insertBefore l pos n).filter p = l := by
  have hneg : ¬p n = true := by
    rw [hn]
    exact Bool.false_ne_true
  cases pos with
  | none =>
    rw [insertBefore, filter_append, filter_eq_self.mpr hl, filter_cons_of_neg hneg]
    exact append_nil l
  | some pos =>
    have hsplit : (l.takeWhile fun m => m.it ≠ pos) ++ l.dropWhile (fun m => m.it ≠ pos) = l := takeWhile_append_dropWhile
    rw [insertBefore, filter_append, filter_cons_of_neg hneg, ← filter_append, hsplit]
    exact filter_eq_self.mpr hl

/-- **A frame is put in** at a valid position, or dropped when the queue is full. -/
theorem doEnqueue_spec {i : Nat} {pos : Option Nat} (h : Inv q s) (hitem : i ∉ s.handles) (hpos : valid s pos) :
    q.doEnqueue s pos i = some (s, [.droppedBeforeEnqueue i]) ∨ ∃ s', q.doEnqueue s pos i = some (s', [.enqueued i]) ∧
      s'.handles.Perm (i :: s.handles) ∧ s'.m_packets.filter (fun m => decide (m.it < s.nextIt)) = s.m_packets ∧
      (WifiMacQueueState.bytesOf s'.frames < 4294967296 → Inv q s') := by
  have hone : uint32 (s.m_nPackets + 1 : Nat) = s.m_packets.length + 1 := by
    have hlength := length_le_bytesOf s.frames
    have hsmall := h.small
    rw [frames, length_map] at hlength
    rw [frames] at hsmall
    rw [h.packets]
    exact uint32_add (by omega)
  rw [doEnqueue, queueDoEnqueue]
  by_cases hfull : uint32 (s.m_nPackets + 1 : Nat) > q.m_maxSize
  · rw [if_pos hfull]
    exact .inl rfl
  · have hplace : pos = none ∨ (s.nodeAt pos).isSome := by
      cases pos with
      | none => exact .inl rfl
      | some it =>
        obtain ⟨n, hn, rfl⟩ := hpos it rfl
        rw [h.nodeAt hn]
        exact .inr rfl
    rw [if_neg hfull, if_pos hplace]
    right
    let marked : WifiMacQueueItem := { s.items i with m_queueAc := q.m_ac, m_queueIt := s.nextIt }
    let s₁ : WifiMacQueueState := { s with
      m_packets := insertBefore s.m_packets pos ⟨s.nextIt, i⟩
      nextIt := s.nextIt + 1
      m_nBytes := uint32 (s.m_nBytes + (s.items i).getSize : Nat)
      m_nPackets := uint32 (s.m_nPackets + 1 : Nat) }
    have hpairs₁ : PairsCount s₁ s.frames := ⟨h.pairs.packets, h.pairs.bytes⟩
    obtain ⟨nQueuedPackets, nQueuedBytes, henqueued, hpairs⟩ := enqueued_spec q.m_ac s.nextIt hpairs₁
    rw [henqueued] at hpairs
    let s' : WifiMacQueueState := { s₁ with
      m_nQueuedPackets := nQueuedPackets
      m_nQueuedBytes := nQueuedBytes
      items := Function.update s.items i marked }
    have hperm : s'.m_packets.Perm (⟨s.nextIt, i⟩ :: s.m_packets) := insertBefore_perm _ _ _
    have hself : s'.items i = marked := Function.update_self _ _ _
    have hother (m : QueueNode) (hm : m ∈ s.m_packets) : s'.items m.item = s.items m.item := by
      refine Function.update_of_ne (fun heq => hitem ?_) _ _
      rw [← heq]
      exact List.mem_map_of_mem hm
    have hframes : s'.frames.Perm (marked :: s.frames) := by
      have hmap := hperm.map fun m => s'.items m.item
      rw [map_cons, hself, map_congr_left hother] at hmap
      exact hmap
    have hframeBytes : WifiMacQueueState.bytesOf s'.frames = frameSize (s.items i) + WifiMacQueueState.bytesOf s.frames := by
      rw [bytesOf_perm hframes, bytesOf_cons]
      rfl
    refine ⟨s', ?_, hperm.map QueueNode.item, ?_, fun hsmall => ⟨?_, ?_, ?_, hsmall, fun j hj => ?_, fun m hm => ?_, ?_,
      fun m hm => ?_, ?_, h.ac⟩⟩
    · show some (s₁.enqueued q.m_ac i s.nextIt, _) = _
      rw [henqueued]
    · exact insertBefore_filter (fun m hm => decide_eq_true (h.fresh m hm)) (decide_eq_false (Nat.lt_irrefl _)) pos
    · exact hone.trans hperm.length_eq.symm
    · rw [hframeBytes] at hsmall
      show uint32 (s.m_nBytes + (s.items i).getSize : Nat) = _
      rw [hframeBytes, h.bytes, getSize_eq (Nat.lt_of_le_of_lt (Nat.le_add_right _ _) hsmall), Nat.add_comm (frameSize _)]
      exact uint32_add (by omega)
    · rw [hframeBytes] at hsmall
      exact PairsCount.perm (hpairs hsmall) hframes.symm
    · apply (hperm.map QueueNode.item).mem_iff.mpr
      by_cases heq : j = i
      · rw [heq]
        exact mem_cons_self
      · rw [show s'.items j = s.items j from Function.update_of_ne heq _ _] at hj
        exact mem_cons_of_mem _ (h.marked j hj)
    · obtain rfl | hm := mem_cons.mp (hperm.mem_iff.mp hm)
      · rw [hself]
        exact ⟨rfl, rfl⟩
      · rw [hother m hm]
        exact h.designated m hm
    · apply (hperm.map QueueNode.it).nodup_iff.mpr
      refine nodup_cons.mpr ⟨fun hmem => ?_, h.nodup⟩
      obtain ⟨m, hm, hit⟩ := List.mem_map.mp hmem
      exact absurd (h.fresh m hm) (by rw [hit]; exact Nat.lt_irrefl _)
    · obtain rfl | hm := mem_cons.mp (hperm.mem_iff.mp hm)
      · exact Nat.lt_succ_self _
      · exact Nat.lt_succ_of_lt (h.fresh m hm)
    · rw [hperm.length_eq, length_cons, ← hone]
      exact Nat.le_of_not_lt hfull

end

end WifiMacQueue

end Ns3
