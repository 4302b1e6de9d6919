import Ns3.Wifi.WifiMacQueueBooks

/-!
# Runs of a `WifiMacQueue`

What one call does (`Kept`): it keeps the books, the frames that stay keep
their order, the frames it tells to leave and to enter account for the change
of the list, and no frame that it returns is expired. A run then follows by the
invariant rule.
-/

namespace Ns3

open Machine List Option

namespace WifiMacQueue

open WifiMacQueueItem WifiMacQueueState QueueOutput

/-! ## Outputs -/

/-- The frames that come off the list. -/
def leaving (out : List QueueOutput) : List Nat :=
  out.filterMap fun
    | .dequeued item => some item
    | .removed item => some item
    | .expired item => some item
    | _ => none

def entering (out : List QueueOutput) : List Nat :=
  out.filterMap fun
    | .enqueued item => some item
    | _ => none

def returned (out : List QueueOutput) : List Nat :=
  out.filterMap fun
    | .dequeued item => some item
    | .peeked item => some item
    | _ => none

@[simp] theorem leaving_append (out out' : List QueueOutput) : leaving (out ++ out') = leaving out ++ leaving out' :=
  filterMap_append

@[simp] theorem entering_append (out out' : List QueueOutput) : entering (out ++ out') = entering out ++ entering out' :=
  filterMap_append

@[simp] theorem returned_append (out out' : List QueueOutput) : returned (out ++ out') = returned out ++ returned out' :=
  filterMap_append

@[simp] theorem leaving_expired (left : List Nat) : leaving (left.map expired) = left := by
  induction left with
  | nil => rfl
  | cons i left ih => exact congrArg (i :: ·) ih

@[simp] theorem entering_expired (left : List Nat) : entering (left.map expired) = [] := by
  induction left with
  | nil => rfl
  | cons i left ih => exact ih

@[simp] theorem returned_expired (left : List Nat) : returned (left.map expired) = [] := by
  induction left with
  | nil => rfl
  | cons i left ih => exact ih

/-! ## One call -/

structure Kept (q : WifiMacQueue) (s s' : WifiMacQueueState) (out : List QueueOutput) : Prop where
  inv : Inv q s'
  order : (s'.m_packets.filter fun n => decide (n ∈ s.m_packets)).Sublist s.m_packets
  perm : (leaving out ++ s'.handles).Perm (entering out ++ s.handles)
  returned : ∀ i ∈ returned out, q.isExpired s i = false

section
variable {q : WifiMacQueue} {s s' : WifiMacQueueState} {left : List Nat} {out : List QueueOutput}

theorem Took.call (htook : Took s s' left) (hinv : Inv q s') (hleaving : leaving out = left) (hentering : entering out = [])
    (hreturned : ∀ i ∈ returned out, q.isExpired s i = false) : Kept q s s' out := by
  refine ⟨hinv, filter_sublist.trans htook.sublist, ?_, hreturned⟩
  rw [hleaving, hentering, nil_append]
  exact htook.perm

theorem Inv.same (h : Inv q s) (hleaving : leaving out = []) (hentering : entering out = [])
    (hreturned : ∀ i ∈ returned out, q.isExpired s i = false) : Kept q s s out :=
  (Took.refl s).call h hleaving hentering hreturned

theorem Inv.elapse (h : Inv q s) (now : Int) : Inv q { s with now := now } :=
  ⟨h.packets, h.bytes, ⟨h.pairs.packets, h.pairs.bytes⟩, h.small, h.marked, h.designated, h.nodup, h.fresh, h.fits, h.ac⟩

theorem Inv.assign {item : Nat} {data : WifiMacQueueItem} (h : Inv q s) (hitem : item ∉ s.handles)
    (hdata : data.m_queueAc = (s.items item).m_queueAc) : Inv q { s with items := Function.update s.items item data } := by
  have hother (n : QueueNode) (hn : n ∈ s.m_packets) : Function.update s.items item data n.item = s.items n.item := by
    refine Function.update_of_ne (fun heq => hitem ?_) _ _
    rw [← heq]
    exact List.mem_map_of_mem hn
  have hframes : ({ s with items := Function.update s.items item data } : WifiMacQueueState).frames = s.frames :=
    map_congr_left hother
  refine ⟨h.packets, ?_, ?_, ?_, fun i hi => ?_, fun n hn => ?_, h.nodup, h.fresh, h.fits, h.ac⟩
  · rw [hframes]
    exact h.bytes
  · rw [hframes]
    exact ⟨h.pairs.packets, h.pairs.bytes⟩
  · rw [hframes]
    exact h.small
  · have hi : (Function.update s.items item data i).isQueued = true := hi
    by_cases heq : i = item
    · rw [heq, Function.update_self] at hi
      have hqueued : (s.items item).isQueued = true := by
        rw [WifiMacQueueItem.isQueued, ← hdata]
        exact hi
      rw [heq]
      exact h.marked item hqueued
    · rw [Function.update_of_ne heq] at hi
      exact h.marked i hi
  · show (Function.update s.items item data n.item).m_queueAc = _ ∧ (Function.update s.items item data n.item).m_queueIt = _
    rw [hother n hn]
    exact h.designated n hn

/-! ### Insertion -/

theorem Took.notMem {i : Nat} (htook : Took s s' left) (hi : i ∉ s.handles) : i ∉ left ∧ i ∉ s'.handles :=
  not_or.mp fun hmem => hi (htook.perm.mem_iff.mp (mem_append.mpr hmem))

/-- The byte counts have room for the frames of the list. -/
def small (s : WifiMacQueueState) : Prop := WifiMacQueueState.bytesOf s.frames < 4294967296

theorem Took.enqueue {i : Nat} {pos : Option Nat} (htook : Took s s' left) (h : Inv q s) (hinv : Inv q s') (hitem : i ∉ s.handles)
    (hpos : valid s' pos) : ∃ s'' out', q.doEnqueue s' pos i = some (s'', out') ∧ (small s'' →
      ∀ out, leaving out = left → entering out = [] → returned out = [] → Kept q s s'' (out ++ out')) := by
  obtain henqueue | ⟨s'', henqueue, hperm, hfilter, hinv'⟩ := doEnqueue_spec hinv (htook.notMem hitem).2 hpos
  · refine ⟨s', _, henqueue, fun _ out hleaving hentering hreturned => htook.call hinv ?_ ?_ fun i hi => ?_⟩
    · rw [leaving_append, hleaving]
      exact append_nil left
    · rw [entering_append, hentering]
      rfl
    · rw [returned_append, hreturned] at hi
      cases hi
  · refine ⟨s'', _, henqueue, fun hsmall out hleaving hentering hreturned => ⟨hinv' hsmall, ?_, ?_, fun i hi => ?_⟩⟩
    · have hold (n : QueueNode) : decide (n ∈ s.m_packets) = (decide (n ∈ s.m_packets) && decide (n.it < s'.nextIt)) := by
        rw [Bool.eq_iff_iff, Bool.and_eq_true, decide_eq_true_iff, decide_eq_true_iff, htook.nextIt]
        exact ⟨fun hn => ⟨hn, h.fresh n hn⟩, And.left⟩
      rw [filter_congr fun n _ => hold n, ← List.filter_filter, hfilter]
      exact filter_sublist.trans htook.sublist
    · rw [leaving_append, entering_append, hleaving, hentering]
      show (left ++ [] ++ s''.handles).Perm ([i] ++ s.handles)
      rw [append_nil]
      calc left ++ s''.handles
        Perm _ (left ++ i :: s'.handles) := hperm.append_left left
        Perm _ (i :: (left ++ s'.handles)) := perm_middle
        Perm _ (i :: s.handles) := htook.perm.cons i
    · rw [returned_append, hreturned] at hi
      cases hi

theorem insert_spec {i : Nat} {pos : Option Nat} (hmax : 1 ≤ q.m_maxSize) (h : Inv q s) (hitem : i ∉ s.handles)
    (hpos : valid s pos) : ∃ s' out, q.insert s pos i = some (s', out) ∧ (small s' → Kept q s s' out) := by
  have henqueue : ∃ s' out, q.doEnqueue s pos i = some (s', out) ∧ (small s' → Kept q s s' out) := by
    obtain ⟨s', out, henqueue, hkept⟩ := (Took.refl s).enqueue h h hitem hpos
    exact ⟨s', out, henqueue, fun hsmall => hkept hsmall [] rfl rfl rfl⟩
  rw [WifiMacQueue.insert]
  split
  · exact henqueue
  · next hfull =>
    obtain hstale | ⟨s₁, n, pos', hstale, hinv, htook, hpos'⟩ :=
      removeStale_spec pos s.m_packets h (fun _ hn => hn) h.nodup hpos
    · rw [hstale, bind_some]
      dsimp only
      cases q.m_dropPolicy with
      | DROP_NEWEST => exact henqueue
      | DROP_OLDEST =>
        cases hpackets : s.m_packets with
        | nil =>
          rw [h.packets, hpackets] at hfull
          exact absurd hmax hfull
        | cons n rest =>
          have hn : n ∈ s.m_packets := by
            rw [hpackets]
            exact mem_cons_self
          have hstart : s.start = some n.it := by
            rw [start, hpackets]
            rfl
          obtain ⟨s₁, hremove, hinv, htook, herase⟩ := doRemove_spec h hn
          have hpos' : valid s₁ (if pos = s.start then s₁.start else pos) := by
            split
            · exact valid_start s₁
            · next hne => exact valid_erased hpos (hstart ▸ hne) herase
          obtain ⟨s', out, henqueue, hkept⟩ := htook.enqueue h hinv hitem hpos'
          refine ⟨s', _, ?_, fun hsmall => hkept hsmall [.removed n.item] rfl rfl rfl⟩
          rw [hstart, hremove, bind_some, ← hstart]
          rw [henqueue]
          rfl
    · obtain ⟨s', out, henqueue, hkept⟩ := htook.enqueue h hinv hitem hpos'
      refine ⟨s', _, ?_, fun hsmall => hkept hsmall [.expired n] rfl rfl rfl⟩
      rw [hstale, bind_some]
      dsimp only
      rw [henqueue]
      rfl

/-! ### Loops over the list -/

theorem walk_all (wanted : WifiMacQueueItem → Bool) (h : Inv q s) : ∃ s' left passed found,
    q.walk wanted s.m_packets s = some (s', left.map expired, passed, found) ∧ Inv q s' ∧ Took s s' left ∧
      ∀ n, found = some n → n ∈ s'.m_packets ∧ q.isExpired s' n.item = false :=
  walk_spec wanted s.m_packets s h (fun _ hn => hn) h.nodup

theorem Took.walked {last : List QueueOutput} (htook : Took s s' left) (hinv : Inv q s') (hleaving : leaving last = [])
    (hentering : entering last = []) (hreturned : returned last = []) : Kept q s s' (left.map expired ++ last) := by
  apply htook.call hinv
  · simp [hleaving]
  · simp [hentering]
  · simp [hreturned]

theorem Took.stale (htook : Took s s' left) (hinv : Inv q s') : Kept q s s' (left.map expired) := by
  apply htook.call hinv
  · simp
  · simp
  · simp

theorem Took.found {s'' : WifiMacQueueState} {i : Nat} {last : List QueueOutput} (htook : Took s s' left)
    (htook' : Took s' s'' [i]) (hinv : Inv q s'') (hleaving : leaving last = [i]) (hentering : entering last = [])
    (hreturned : ∀ j ∈ returned last, q.isExpired s' j = false) : Kept q s s'' (left.map expired ++ last) := by
  apply (htook.trans htook').call hinv
  · simp [hleaving]
  · simp [hentering]
  · intro j hj
    rw [returned_append, returned_expired] at hj
    rw [← htook.isExpired]
    exact hreturned j hj

theorem dequeue_spec (h : Inv q s) : ∃ s' out, q.dequeue s = some (s', out) ∧ Kept q s s' out := by
  obtain ⟨s₁, left, passed, found, hwalk, hinv, htook, hfound⟩ := walk_all (fun _ => true) h
  rw [dequeue, hwalk, bind_some]
  cases found with
  | none => exact ⟨s₁, _, rfl, htook.stale hinv⟩
  | some n =>
    obtain ⟨hn, hkept⟩ := hfound n rfl
    obtain ⟨s', hdequeue, hinv', htook'⟩ := doDequeue_spec hinv hn hkept
    refine ⟨s', left.map expired ++ [.dequeued n.item], ?_, htook.found htook' hinv' rfl rfl fun j hj => ?_⟩
    · dsimp only
      rw [hdequeue]
      rfl
    · rw [mem_singleton.mp hj]
      exact hkept

theorem remove_spec (h : Inv q s) : ∃ s' out, q.remove s = some (s', out) ∧ Kept q s s' out := by
  obtain ⟨s₁, left, passed, found, hwalk, hinv, htook, hfound⟩ := walk_all (fun _ => true) h
  rw [WifiMacQueue.remove, hwalk, bind_some]
  cases found with
  | none => exact ⟨s₁, _, rfl, htook.stale hinv⟩
  | some n =>
    obtain ⟨s', hremove, hinv', htook', -⟩ := doRemove_spec hinv (hfound n rfl).1
    refine ⟨s', left.map expired ++ [removed n.item], ?_, htook.found htook' hinv' rfl rfl fun j hj => by cases hj⟩
    dsimp only
    rw [hremove]
    rfl

theorem removePacket_spec (packet : Nat) (h : Inv q s) :
    ∃ s' out, q.removePacket s packet = some (s', out) ∧ Kept q s s' out := by
  obtain ⟨s₁, left, passed, found, hwalk, hinv, htook, hfound⟩ := walk_all (fun item => item.m_packet = packet) h
  rw [removePacket, hwalk, bind_some]
  cases found with
  | none => exact ⟨s₁, _, rfl, htook.walked hinv rfl rfl rfl⟩
  | some n =>
    obtain ⟨s', hremove, hinv', htook', -⟩ := doRemove_spec hinv (hfound n rfl).1
    refine ⟨s', left.map expired ++ [removed n.item, answer 1], ?_, htook.found htook' hinv' rfl rfl fun j hj => by cases hj⟩
    dsimp only
    rw [hremove]
    simp

theorem countFrames_spec (counted : WifiMacQueueItem → Bool) (h : Inv q s) :
    ∃ s' out, q.countFrames s counted = some (s', out) ∧ Kept q s s' out := by
  obtain ⟨s', left, passed, found, hwalk, hinv, htook, -⟩ := walk_all (fun _ => false) h
  rw [countFrames, hwalk]
  exact ⟨s', _, rfl, htook.walked hinv rfl rfl rfl⟩

theorem isEmpty_spec (h : Inv q s) : ∃ s' out, q.isEmpty s = some (s', out) ∧ Kept q s s' out := by
  obtain ⟨s', left, passed, found, hwalk, hinv, htook, -⟩ := walk_all (fun _ => true) h
  rw [isEmpty, hwalk]
  exact ⟨s', _, rfl, htook.walked hinv rfl rfl rfl⟩

theorem getNPackets_spec (h : Inv q s) : ∃ s' out, q.getNPackets s = some (s', out) ∧ Kept q s s' out := by
  obtain ⟨s', left, passed, found, hwalk, hinv, htook, -⟩ := walk_all (fun _ => false) h
  rw [getNPackets, hwalk]
  exact ⟨s', _, rfl, htook.walked hinv rfl rfl rfl⟩

theorem getNBytes_spec (h : Inv q s) : ∃ s' out, q.getNBytes s = some (s', out) ∧ Kept q s s' out := by
  obtain ⟨s', left, passed, found, hwalk, hinv, htook, -⟩ := walk_all (fun _ => false) h
  rw [getNBytes, hwalk]
  exact ⟨s', _, rfl, htook.walked hinv rfl rfl rfl⟩

/-! ### Calls for one frame -/

theorem dequeueIfQueued_spec (mpdu : Nat) (h : Inv q s) :
    ∃ s' out, q.dequeueIfQueued s mpdu = some (s', out) ∧ Kept q s s' out := by
  rw [dequeueIfQueued]
  split
  · next hqueued =>
    obtain ⟨n, hn, rfl⟩ := List.mem_map.mp (h.marked mpdu hqueued)
    obtain ⟨hac, hit⟩ := h.designated n hn
    rw [hit, h.nodeAt hn, if_pos ⟨hac, rfl⟩]
    by_cases hexpired : q.isExpired s n.item = true
    · obtain ⟨s', hdequeue, hinv, htook⟩ := doDequeue_expired h hn hexpired
      exact ⟨s', _, hdequeue, htook.call hinv rfl rfl fun j hj => by cases hj⟩
    · have hkept := Bool.eq_false_iff.mpr hexpired
      obtain ⟨s', hdequeue, hinv, htook⟩ := doDequeue_spec h hn hkept
      refine ⟨s', _, hdequeue, htook.call hinv rfl rfl fun j hj => ?_⟩
      rw [mem_singleton.mp hj]
      exact hkept
  · exact ⟨s, [], rfl, h.same rfl rfl fun j hj => by cases hj⟩

theorem removeAt_spec {pos : Nat} (removeExpired : Bool) (h : Inv q s) (hpos : valid s pos) :
    ∃ s' out, q.removeAt s pos removeExpired = some (s', out) ∧ Kept q s s' out := by
  obtain ⟨n, hn, rfl⟩ := hpos pos rfl
  rw [removeAt]
  split
  · obtain ⟨s', left, hremove, hinv, htook⟩ := removeUpTo_spec s.m_packets s h (fun _ hm => hm) h.nodup hn
    refine ⟨s', _, hremove, htook.call hinv ?_ ?_ ?_⟩
    · rw [leaving_append, leaving_expired]
      rfl
    · rw [entering_append, entering_expired]
      rfl
    · rw [returned_append, returned_expired]
      intro j hj
      cases hj
  · obtain ⟨s', hremove, hinv, htook, -⟩ := doRemove_spec h hn
    refine ⟨s', [.removed n.item], ?_, htook.call hinv rfl rfl fun j hj => by cases hj⟩
    rw [hremove]
    rfl

theorem peek_spec (h : Inv q s) : Kept q s s (q.peek s) := by
  rw [peek]
  split
  · next n hfind =>
    split
    · exact h.same rfl rfl fun j hj => by cases hj
    · refine h.same rfl rfl fun j hj => ?_
      rw [mem_singleton.mp hj]
      simpa using find?_some hfind
  · exact h.same rfl rfl fun j hj => by cases hj

theorem searched_isSome {pos : Option (Option Nat)} (h : Inv q s) (hpos : ∀ p ∈ pos, valid s p) :
    (searched s pos).isSome = true := by
  cases pos with
  | none => rfl
  | some p =>
    cases p with
    | none => rfl
    | some it =>
      obtain ⟨n, hn, rfl⟩ := hpos _ rfl it rfl
      simp [searched, h.nodeAt hn]

theorem peekFrom_spec {pos : Option (Option Nat)} (wanted : WifiMacQueueItem → Bool) (h : Inv q s)
    (hpos : ∀ p ∈ pos, valid s p) : ∃ s' out, q.peekFrom s pos wanted = some (s', out) ∧ Kept q s s' out := by
  obtain ⟨nodes, hnodes⟩ := isSome_iff_exists.mp (searched_isSome h hpos)
  rw [peekFrom, hnodes, map_some]
  split
  · next n hfind =>
    refine ⟨s, _, rfl, h.same rfl rfl fun j hj => ?_⟩
    rw [mem_singleton.mp hj]
    have hboth := find?_some hfind
    rw [Bool.and_eq_true] at hboth
    simpa using hboth.1
  · exact ⟨s, _, rfl, h.same rfl rfl fun j hj => by cases hj⟩

/-! ## Runs -/

/-- Queued frames are neither changed nor inserted again, and positions are those of the list. -/
def proper (s : WifiMacQueueState) : WifiMacQueueEvent → Prop
  | .assign item _ | .enqueue item | .pushFront item => item ∉ s.handles
  | .insert pos item => item ∉ s.handles ∧ valid s pos
  | .removeAt pos _ => valid s (some pos)
  | .peekByAddress _ pos | .peekByTid _ pos | .peekByTidAndAddress _ _ pos | .peekFirstAvailable _ pos =>
    ∀ p ∈ pos, valid s p
  | _ => True

instance (s : WifiMacQueueState) (e : WifiMacQueueEvent) : Decidable (proper s e) := by
  cases e <;> (unfold proper; infer_instance)

/-- A call is proper and leaves fewer than 2^32 bytes in the list. -/
def allowed (q : WifiMacQueue) (s : WifiMacQueueState) (e : WifiMacQueueEvent) : Prop :=
  proper s e ∧ ∀ r ∈ q.step s e, small r.1

instance (q : WifiMacQueue) (s : WifiMacQueueState) (e : WifiMacQueueEvent) : Decidable (allowed q s e) :=
  inferInstanceAs (Decidable (_ ∧ ∀ r ∈ q.step s e, WifiMacQueueState.bytesOf r.1.frames < 4294967296))

theorem kept_call {c : Option (WifiMacQueueState × List QueueOutput)} (h : ∃ s' out, c = some (s', out) ∧ Kept q s s' out) :
    ∃ s' out, c = some (s', out) ∧ (small s' → Kept q s s' out) := by
  obtain ⟨s', out, heq, hkept⟩ := h
  exact ⟨s', out, heq, fun _ => hkept⟩

/-- **Every call** is defined and keeps the books. -/
theorem step_spec {e : WifiMacQueueEvent} (hmax : 1 ≤ q.m_maxSize) (h : Inv q s) (hproper : proper s e) :
    ∃ s' out, q.step s e = some (s', out) ∧ (small s' → Kept q s s' out) := by
  cases e with
  | enqueue item => exact insert_spec hmax h hproper fun it heq => by cases heq
  | pushFront item => exact insert_spec hmax h hproper (valid_start s)
  | insert pos item => exact insert_spec hmax h hproper.1 hproper.2
  | elapse time =>
    refine kept_call ⟨_, _, rfl, h.elapse _, filter_sublist, Perm.refl _, fun j hj => ?_⟩
    cases hj
  | assign item data =>
    refine kept_call ⟨_, _, rfl, h.assign hproper rfl, filter_sublist, Perm.refl _, fun j hj => ?_⟩
    cases hj
  | dequeue => exact kept_call (dequeue_spec h)
  | dequeueIfQueued mpdu => exact kept_call (dequeueIfQueued_spec mpdu h)
  | peek => exact kept_call ⟨s, _, rfl, peek_spec h⟩
  | peekByAddress dest pos =>
    rw [step, peekByAddress]
    exact kept_call (peekFrom_spec _ h hproper)
  | peekByTid tid pos =>
    rw [step, peekByTid]
    exact kept_call (peekFrom_spec _ h hproper)
  | peekByTidAndAddress tid dest pos =>
    rw [step, peekByTidAndAddress]
    exact kept_call (peekFrom_spec _ h hproper)
  | peekFirstAvailable blockedPackets pos =>
    rw [step, peekFirstAvailable]
    exact kept_call (peekFrom_spec _ h hproper)
  | remove => exact kept_call (remove_spec h)
  | removePacket packet => exact kept_call (removePacket_spec packet h)
  | removeAt pos removeExpired => exact kept_call (removeAt_spec removeExpired h hproper)
  | getNPacketsByAddress dest =>
    rw [step, getNPacketsByAddress]
    exact kept_call (countFrames_spec _ h)
  | getNPacketsByTidAndAddress tid dest =>
    rw [step, getNPacketsByTidAndAddress]
    exact kept_call (countFrames_spec _ h)
  | isEmpty => exact kept_call (isEmpty_spec h)
  | getNPackets => exact kept_call (getNPackets_spec h)
  | getNBytes => exact kept_call (getNBytes_spec h)
  | getNPacketsOf tid dest => exact kept_call ⟨s, _, rfl, h.same rfl rfl fun j hj => by cases hj⟩
  | getNBytesOf tid dest => exact kept_call ⟨s, _, rfl, h.same rfl rfl fun j hj => by cases hj⟩

theorem inv_start (hac : q.m_ac ≠ .AC_UNDEF) : Inv q {} := by
  refine ⟨rfl, rfl, ⟨fun _ => rfl, fun _ => rfl⟩, by decide, fun i hi => ?_, fun n hn => ?_, nodup_nil,
    fun n hn => ?_, Nat.zero_le _, hac⟩
  · cases hi
  · cases hn
  · cases hn

/-- What entered is in the queue or has left, each once. -/
theorem run_inv {tr : List (WifiMacQueueEvent × List QueueOutput)} (hac : q.m_ac ≠ .AC_UNDEF) (hmax : 1 ≤ q.m_maxSize)
    (h : Run (machine q) (allowed q) {} tr s) :
    Inv q s ∧ (leaving (outputs tr) ++ s.handles).Perm (entering (outputs tr)) := by
  refine Run.invariant
    (fun tr s => Inv q s ∧ (leaving (outputs tr) ++ s.handles).Perm (entering (outputs tr)))
    ⟨inv_start hac, Perm.refl _⟩ ?_ h
  intro tr s e s' out hbefore hallowed hstep
  obtain ⟨hinv, hperm⟩ := hbefore
  obtain ⟨s₁, out₁, hstep₁, hkept⟩ := step_spec hmax hinv hallowed.1
  cases hstep.symm.trans hstep₁
  have hkept := hkept (hallowed.2 _ hstep₁)
  refine ⟨hkept.inv, ?_⟩
  rw [outputs_snoc, leaving_append, entering_append, append_assoc]
  calc leaving (outputs tr) ++ (leaving out ++ s'.handles)
    Perm _ (leaving (outputs tr) ++ (entering out ++ s.handles)) := hkept.perm.append_left _
    Perm _ (leaving (outputs tr) ++ (s.handles ++ entering out)) := perm_append_comm.append_left _
    _ = leaving (outputs tr) ++ s.handles ++ entering out := (append_assoc _ _ _).symm
    Perm _ (entering (outputs tr) ++ entering out) := hperm.append_right _

end

/-- **The books of the queue** after any calls, and what the next call keeps. -/
theorem books_kept (q : WifiMacQueue) (hac : q.m_ac ≠ .AC_UNDEF) (hmax : 1 ≤ q.m_maxSize)
    {tr : List (WifiMacQueueEvent × List QueueOutput)} {s : WifiMacQueueState} (h : Run (machine q) (allowed q) {} tr s) :
    (s.m_nPackets = s.m_packets.length ∧ s.m_nBytes = WifiMacQueueState.bytesOf s.frames) ∧
      (∀ pair, s.getNPacketsOf pair = (s.frames.filter (isOf pair)).length ∧
        s.getNBytesOf pair = WifiMacQueueState.bytesOf (s.frames.filter (isOf pair))) ∧
      (∀ i, (s.items i).isQueued = true ↔ i ∈ s.handles) ∧ (∀ n ∈ s.m_packets, s.nodeAt (s.items n.item).m_queueIt = some n) ∧
      s.m_packets.length ≤ q.m_maxSize ∧
      s.handles.Nodup ∧ (leaving (outputs tr) ++ s.handles).Perm (entering (outputs tr)) ∧
      ∀ e, allowed q s e → ∃ s' out, q.step s e = some (s', out) ∧
        (s'.m_packets.filter fun n => decide (n ∈ s.m_packets)).Sublist s.m_packets ∧
        ∀ i ∈ returned out, q.isExpired s i = false := by
  obtain ⟨hinv, hperm⟩ := run_inv hac hmax h
  refine ⟨⟨hinv.packets, hinv.bytes⟩, fun pair => ⟨hinv.pairs.packets pair, hinv.pairs.bytes pair⟩,
    fun i => ⟨hinv.marked i, fun hi => ?_⟩, fun n hn => ?_, hinv.fits, hinv.nodup_handles, hperm, fun e hallowed => ?_⟩
  · obtain ⟨n, hn, rfl⟩ := List.mem_map.mp hi
    exact hinv.isQueued hn
  · rw [(hinv.designated n hn).2]
    exact hinv.nodeAt hn
  · obtain ⟨s', out, hstep, hkept⟩ := step_spec hmax hinv hallowed.1
    have hkept := hkept (hallowed.2 _ hstep)
    exact ⟨s', out, hstep, hkept.order, hkept.returned⟩

def bestEffort : WifiMacQueue := ⟨.AC_BE, 2, 500, .DROP_OLDEST⟩

theorem pushFront_full : ((machine bestEffort).exec (allowed bestEffort) {} [.assign 0 { isQosData := true }, .assign 1 {},
    .assign 2 { isQosData := true }, .enqueue 0, .enqueue 1, .pushFront 2, .elapse 7, .dequeueIfQueued 1]).any
      (fun r => r.2.handles = [2]) = true := by decide

theorem oldest_dropped : ∃ tr s, Run (machine bestEffort) (allowed bestEffort) {} tr s ∧ s.handles = [2] ∧ s.handles.Nodup ∧
    (leaving (outputs tr) ++ s.handles).Perm (entering (outputs tr)) := by
  obtain ⟨tr, s, hrun, hs⟩ := run_of_any (machine bestEffort) (allowed bestEffort) pushFront_full
  obtain ⟨-, -, -, -, -, hnodup, hperm, -⟩ := books_kept bestEffort (by decide) (by decide) hrun
  exact ⟨tr, s, hrun, of_decide_eq_true hs, hnodup, hperm⟩

/-- Two frames of 2^31 bytes wrap the byte count; a frame that is inserted twice stays in the list,
unmarked, when it is dequeued; a queue for no access category marks none. -/
theorem wraps_or_twice :
    ((machine bestEffort).exec anyStep {} [.assign 0 { packetSize := 2147483648 }, .assign 1 { packetSize := 2147483648 },
      .enqueue 0, .enqueue 1]).any (fun r => r.2.m_nBytes ≠ WifiMacQueueState.bytesOf r.2.frames) = true ∧
    ((machine bestEffort).exec anyStep {} [.assign 0 {}, .enqueue 0, .enqueue 0, .dequeue]).any
      (fun r => 0 ∈ r.2.handles ∧ (r.2.items 0).isQueued = false) = true ∧
    ((machine { bestEffort with m_ac := .AC_UNDEF }).exec anyStep {} [.assign 0 {}, .enqueue 0]).any
      (fun r => 0 ∈ r.2.handles ∧ (r.2.items 0).isQueued = false) = true := by
  decide

end WifiMacQueue

end Ns3
