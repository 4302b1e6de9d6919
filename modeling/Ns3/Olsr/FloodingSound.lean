import Ns3.Olsr.MessageFlooding

/-!
# A message is flooded at most once

The first copy that comes over a symmetric link is processed and leaves the
duplicate tuple; later ones find it and are only considered for forwarding,
until one is retransmitted. A copy that finds no tuple and leaves none has done
nothing. The hop count is a byte, and 255 is followed by 0.
-/

namespace Ns3

open Machine List

/-! ## Tuples -/

section
variable {α : Type} {p q : α → Bool} {f : α → α}

theorem find_updateFirst (hf : ∀ a, p a = true → p (f a) = true) :
    ∀ l : List α, (updateFirst p f l).find? p = (l.find? p).map f
  | [] => rfl
  | a :: l => by
    by_cases ha : p a = true
    · rw [updateFirst, if_pos ha, List.find?_cons_of_pos ha, List.find?_cons_of_pos (hf a ha)]
      rfl
    · rw [updateFirst, if_neg ha, List.find?_cons_of_neg ha, List.find?_cons_of_neg ha]
      exact find_updateFirst hf l

theorem find_updateFirst_ne (hq : ∀ a, p a = true → q a = false ∧ q (f a) = false) :
    ∀ l : List α, (updateFirst p f l).find? q = l.find? q
  | [] => rfl
  | a :: l => by
    by_cases ha : p a = true
    · obtain ⟨hold, hnew⟩ := hq a ha
      rw [updateFirst, if_pos ha, find?_cons_of_neg (Bool.eq_false_iff.mp hold),
        find?_cons_of_neg (Bool.eq_false_iff.mp hnew)]
    · rw [updateFirst, if_neg ha, find?_cons, find?_cons, find_updateFirst_ne hq l]

end

namespace FloodNode

variable {n n' : FloodNode} {now : Int} {msg : MessageHeader} {localIface senderAddress : Ipv4Address}

/-- The message has a duplicate tuple now; nothing else has changed. -/
structure Noted (msg : MessageHeader) (n n' : FloodNode) (retransmitted : Bool) : Prop where
  noted : ∃ d, n'.findDuplicateTuple msg.m_originatorAddress msg.m_messageSequenceNumber = some d ∧
    d.retransmitted = retransmitted
  others : ∀ address sequenceNumber, ¬ (msg.m_originatorAddress = address ∧ msg.m_messageSequenceNumber = sequenceNumber) →
    n'.findDuplicateTuple address sequenceNumber = n.findDuplicateTuple address sequenceNumber
  state : n'.m_state = n.m_state
  queue : n'.m_queuedMessages = n.m_queuedMessages

theorem updateDuplicate_noted (n : FloodNode) (now : Int) (msg : MessageHeader) (localIface : Ipv4Address)
    (retransmitted : Bool) : Noted msg n (n.updateDuplicate now msg
      (n.findDuplicateTuple msg.m_originatorAddress msg.m_messageSequenceNumber) localIface retransmitted) retransmitted := by
  cases hfind : n.findDuplicateTuple msg.m_originatorAddress msg.m_messageSequenceNumber with
  | none =>
    have hnone : n.duplicateSet.find? (isDuplicate msg.m_originatorAddress msg.m_messageSequenceNumber) = none := hfind
    let newDup : DuplicateTuple :=
      ⟨msg.m_originatorAddress, msg.m_messageSequenceNumber, retransmitted, [localIface], now + OLSR_DUP_HOLD_TIME⟩
    refine ⟨⟨newDup, ?_, rfl⟩, fun address sequenceNumber hne => ?_, rfl, rfl⟩
    · simp only [updateDuplicate, findDuplicateTuple]
      rw [find?_append, hnone]
      simp [isDuplicate, newDup]
    · simp only [updateDuplicate, findDuplicateTuple]
      rw [find?_append]
      have hother : isDuplicate address sequenceNumber newDup = false := by simpa [isDuplicate, newDup] using hne
      rw [find?_cons_of_neg (Bool.eq_false_iff.mp hother), find?_nil, Option.or_none]
  | some d =>
    have hsome : n.duplicateSet.find? (isDuplicate msg.m_originatorAddress msg.m_messageSequenceNumber) = some d := hfind
    let updated : DuplicateTuple → DuplicateTuple := fun it =>
      { it with
        expirationTime := now + OLSR_DUP_HOLD_TIME
        retransmitted := retransmitted
        ifaceList := it.ifaceList ++ [localIface] }
    refine ⟨⟨updated d, ?_, rfl⟩, fun address sequenceNumber hne => ?_, rfl, rfl⟩
    · simp only [updateDuplicate, findDuplicateTuple]
      have hkeep : ∀ a, isDuplicate msg.m_originatorAddress msg.m_messageSequenceNumber a = true →
          isDuplicate msg.m_originatorAddress msg.m_messageSequenceNumber (updated a) = true := fun _ ha => ha
      rw [find_updateFirst hkeep, hsome]
      rfl
    · simp only [updateDuplicate, findDuplicateTuple]
      apply find_updateFirst_ne
      intro a ha
      have hother : ¬ isDuplicate address sequenceNumber a = true := by
        intro hsame
        simp only [isDuplicate, decide_eq_true_eq] at ha hsame
        exact hne ⟨ha.1.symm.trans hsame.1, ha.2.symm.trans hsame.2⟩
      exact ⟨Bool.eq_false_iff.mpr hother, Bool.eq_false_iff.mpr hother⟩

/-- The message was considered for forwarding, and was not retransmitted before. -/
structure Considered (msg : MessageHeader) (n n' : FloodNode) (retransmitted : Bool) : Prop where
  fresh : ∀ d, n.findDuplicateTuple msg.m_originatorAddress msg.m_messageSequenceNumber = some d →
    d.retransmitted = false ∧ n'.m_state = n.m_state
  noted : ∃ d, n'.findDuplicateTuple msg.m_originatorAddress msg.m_messageSequenceNumber = some d ∧
    d.retransmitted = retransmitted
  others : ∀ address sequenceNumber, ¬ (msg.m_originatorAddress = address ∧ msg.m_messageSequenceNumber = sequenceNumber) →
    n'.findDuplicateTuple address sequenceNumber = n.findDuplicateTuple address sequenceNumber
  queue : n'.m_queuedMessages = n.m_queuedMessages ++ if retransmitted then [relayed msg] else []
  alive : retransmitted = true → 1 < msg.m_timeToLive

theorem forwardDefault_cases (n : FloodNode) (now : Int) (msg : MessageHeader) (localIface senderAddress : Ipv4Address)
    {n' : FloodNode} (hn' : n' = n.forwardDefault now msg (n.findDuplicateTuple msg.m_originatorAddress msg.m_messageSequenceNumber)
      localIface senderAddress) : (n' = n ∧ (findSymLinkTuple n.m_state.linkSet senderAddress now = none ∨
      (n.findDuplicateTuple msg.m_originatorAddress msg.m_messageSequenceNumber).isSome)) ∨
    (∃ retransmitted, Considered msg n n' retransmitted) ∧ n'.m_state = n.m_state := by
  rw [forwardDefault] at hn'
  cases hsym : findSymLinkTuple n.m_state.linkSet senderAddress now with
  | none =>
    rw [hsym] at hn'
    exact .inl ⟨hn', .inl rfl⟩
  | some link =>
    rw [hsym] at hn'
    dsimp only at hn'
    by_cases hold : (n.findDuplicateTuple msg.m_originatorAddress msg.m_messageSequenceNumber).any (·.retransmitted) = true
    · rw [if_pos hold] at hn'
      obtain ⟨d, hd, -⟩ := (Option.any_eq_true _ _).mp hold
      exact .inl ⟨hn', .inr (by rw [hd]; rfl)⟩
    · rw [if_neg hold] at hn'
      have hfresh : ∀ d, n.findDuplicateTuple msg.m_originatorAddress msg.m_messageSequenceNumber = some d →
          d.retransmitted = false := by
        intro d hd
        rw [hd] at hold
        exact Bool.eq_false_iff.mpr hold
      by_cases hsend : n.toRetransmit msg senderAddress = true
      · rw [if_pos hsend] at hn'
        have h := (n.queueMessage (relayed msg)).updateDuplicate_noted now msg localIface true
        have halive : 1 < msg.m_timeToLive := by
          simp only [toRetransmit, decide_eq_true_eq] at hsend
          exact hsend.1
        rw [hn']
        exact .inr ⟨⟨true, fun d hd => ⟨hfresh d hd, h.state⟩, h.noted, h.others, h.queue, fun _ => halive⟩, h.state⟩
      · rw [if_neg hsend] at hn'
        have h := n.updateDuplicate_noted now msg localIface false
        rw [hn']
        refine .inr ⟨⟨false, fun d hd => ⟨hfresh d hd, h.state⟩, h.noted, h.others, ?_, nofun⟩, h.state⟩
        rw [h.queue]
        exact (append_nil _).symm

end FloodNode

/-! ## Messages that arrive -/

namespace Repositories

variable {s s' : Repositories} {now : Int} {msg : MessageHeader} {senderIface : Ipv4Address}

theorem process_spec (h : s.process now msg senderIface = some s') :
    s'.linkSet = s.linkSet ∧ (findSymLinkTuple s.linkSet senderIface now = none → s' = s) := by
  rw [process] at h
  cases hmessage : msg.m_message with
  | hello hello =>
    rw [hmessage] at h
    cases h
  | tc tc =>
    rw [hmessage] at h
    cases h
    refine ⟨rfl, fun hnone => ?_⟩
    simp only [processTc, TopologyInfo.processTc]
    rw [hnone]
  | mid mid =>
    rw [hmessage] at h
    cases h
    simp only [processMid]
    cases findSymLinkTuple s.linkSet senderIface now with
    | none => exact ⟨rfl, fun _ => rfl⟩
    | some link => exact ⟨rfl, fun h => by cases h⟩
  | hna hna =>
    rw [hmessage] at h
    cases h
    simp only [processHna]
    cases findSymLinkTuple s.linkSet senderIface now with
    | none => exact ⟨rfl, fun _ => rfl⟩
    | some link => exact ⟨rfl, fun h => by cases h⟩

end Repositories

namespace FloodNode

variable {n n' : FloodNode} {now : Int} {msg : MessageHeader} {receiverIfaceAddr senderIfaceAddr : Ipv4Address}

theorem recvMessage_cases (h : n.recvMessage now msg receiverIfaceAddr senderIfaceAddr = some n') :
    n' = n ∨ ∃ retransmitted, Considered msg n n' retransmitted := by
  rw [recvMessage] at h
  by_cases hdrop : msg.m_timeToLive = 0 ∨ msg.m_originatorAddress = n.m_mainAddress
  · rw [if_pos hdrop] at h
    exact .inl (Option.some.inj h).symm
  · rw [if_neg hdrop] at h
    cases hfind : n.findDuplicateTuple msg.m_originatorAddress msg.m_messageSequenceNumber with
    | none =>
      rw [hfind] at h
      obtain ⟨m_state, hprocess, hforward⟩ := Option.map_eq_some_iff.mp h
      obtain ⟨hlinks, hsame⟩ := Repositories.process_spec hprocess
      let processed : FloodNode := { n with m_state := m_state }
      have hnone : processed.findDuplicateTuple msg.m_originatorAddress msg.m_messageSequenceNumber = none := hfind
      have hrun : n' = processed.forwardDefault now msg
          (processed.findDuplicateTuple msg.m_originatorAddress msg.m_messageSequenceNumber)
          receiverIfaceAddr senderIfaceAddr := by
        rw [hnone]
        exact hforward.symm
      rcases processed.forwardDefault_cases now msg receiverIfaceAddr senderIfaceAddr hrun with
        ⟨hn', hcause⟩ | ⟨⟨retransmitted, hconsidered⟩, -⟩
      · rw [hnone] at hcause
        rcases hcause with hsym | hd
        · left
          rw [hn', show processed = { n with m_state := m_state } from rfl, hsame (hlinks ▸ hsym)]
        · cases hd
      · right
        refine ⟨retransmitted, fun d hd => ?_, hconsidered.noted, hconsidered.others, hconsidered.queue, hconsidered.alive⟩
        rw [hfind] at hd
        cases hd
    | some d =>
      rw [hfind] at h
      dsimp only at h
      by_cases hhello : msg.getMessageType = .HELLO_MESSAGE
      · rw [if_pos hhello] at h
        cases h
      · rw [if_neg hhello] at h
        by_cases hiface : receiverIfaceAddr ∈ d.ifaceList
        · rw [if_pos hiface] at h
          exact .inl (Option.some.inj h).symm
        · rw [if_neg hiface] at h
          have hrun : n' = n.forwardDefault now msg
              (n.findDuplicateTuple msg.m_originatorAddress msg.m_messageSequenceNumber) receiverIfaceAddr senderIfaceAddr := by
            rw [hfind]
            exact (Option.some.inj h).symm
          rcases n.forwardDefault_cases now msg receiverIfaceAddr senderIfaceAddr hrun with ⟨hn', -⟩ | ⟨hconsidered, -⟩
          · exact .inl hn'
          · exact .inr hconsidered

end FloodNode

/-! ## Runs -/

/-- A message that arrives, or anything else that the node comes to: other links and MPR selectors,
other messages, time. -/
inductive FloodEvent where
  | receive (now : Int) (msg : MessageHeader) (receiverIfaceAddr senderIfaceAddr : Ipv4Address)
  | other (n : FloodNode)

structure FloodEffect where
  copy : MessageHeader
  changed : Bool
  queued : List MessageHeader

def floodMachine : Machine FloodNode FloodEvent FloodEffect where
  step
    | n, .receive now msg receiverIfaceAddr senderIfaceAddr =>
      (n.recvMessage now msg receiverIfaceAddr senderIfaceAddr).map fun n' =>
        (n', [⟨msg, n'.m_state ≠ n.m_state, n'.m_queuedMessages.drop n.m_queuedMessages.length⟩])
    | _, .other n' => some (n', [])

/-- The duplicate tuple of a message is held: while it is there, nothing else changes or removes it. -/
def Held (address : Ipv4Address) (sequenceNumber : UInt16) : FloodNode → FloodEvent → Prop
  | _, .receive .. => True
  | n, .other n' => ∀ d, n.findDuplicateTuple address sequenceNumber = some d →
    n'.findDuplicateTuple address sequenceNumber = some d

instance (address : Ipv4Address) (sequenceNumber : UInt16) (n : FloodNode) (e : FloodEvent) :
    Decidable (Held address sequenceNumber n e) :=
  match e with
  | .receive .. => .isTrue trivial
  | .other n' => inferInstanceAs (Decidable (∀ d ∈ n.findDuplicateTuple address sequenceNumber,
      n'.findDuplicateTuple address sequenceNumber = some d))

/-- The copies of a message, known by its originator and its sequence number. -/
def copiesOf (address : Ipv4Address) (sequenceNumber : UInt16) (effects : List FloodEffect) : List FloodEffect :=
  effects.filter fun e => e.copy.m_originatorAddress = address ∧ e.copy.m_messageSequenceNumber = sequenceNumber

def changes (copies : List FloodEffect) : Nat := copies.countP (·.changed)

def retransmissions (copies : List FloodEffect) : List MessageHeader := copies.flatMap (·.queued)

theorem changes_snoc (copies : List FloodEffect) (e : FloodEffect) :
    changes (copies ++ [e]) = changes copies + if e.changed then 1 else 0 := by
  simp [changes, countP_append]

theorem retransmissions_snoc (copies : List FloodEffect) (e : FloodEffect) :
    retransmissions (copies ++ [e]) = retransmissions copies ++ e.queued := by
  simp [retransmissions]

/-- The copy goes on with its TTL one less and its hop count one more; all else is as it was. -/
structure Relays (copy msg : MessageHeader) : Prop where
  timeToLive : msg.m_timeToLive.toNat + 1 = copy.m_timeToLive.toNat
  hopCount : msg.m_hopCount.toNat = (copy.m_hopCount.toNat + 1) % 256
  same : msg = { copy with m_timeToLive := msg.m_timeToLive, m_hopCount := msg.m_hopCount }

theorem relays_relayed {msg : MessageHeader} (h : 1 < msg.m_timeToLive) : Relays msg (FloodNode.relayed msg) := by
  have hlt : 1 < msg.m_timeToLive.toNat := UInt8.lt_iff_toNat_lt.mp h
  have hle : (1 : UInt8) ≤ msg.m_timeToLive := UInt8.le_iff_toNat_le.mpr hlt.le
  refine ⟨?_, ?_, rfl⟩
  · show (msg.m_timeToLive - 1).toNat + 1 = msg.m_timeToLive.toNat
    rw [UInt8.toNat_sub_of_le _ _ hle, show (1 : UInt8).toNat = 1 from rfl]
    omega
  · show (msg.m_hopCount + 1).toNat = (msg.m_hopCount.toNat + 1) % 256
    rw [UInt8.toNat_add]
    rfl

structure FloodedOnce (copies : List FloodEffect) : Prop where
  changed : changes copies ≤ 1
  queued : (retransmissions copies).length ≤ 1
  relays : ∀ e ∈ copies, ∀ msg ∈ e.queued, Relays e.copy msg

/-- What the copies did, by the duplicate tuple: without one nothing, and before it says so they were
not retransmitted. -/
structure FloodInv (address : Ipv4Address) (sequenceNumber : UInt16) (n : FloodNode) (copies : List FloodEffect) : Prop where
  once : FloodedOnce copies
  unknown : n.findDuplicateTuple address sequenceNumber = none → changes copies = 0
  pending : (∀ d, n.findDuplicateTuple address sequenceNumber = some d → d.retransmitted = false) → retransmissions copies = []

section
variable {address : Ipv4Address} {sequenceNumber : UInt16} {n n' : FloodNode} {copies : List FloodEffect}

theorem FloodInv.idle (h : FloodInv address sequenceNumber n copies) (msg : MessageHeader) :
    FloodInv address sequenceNumber n (copies ++ [⟨msg, false, []⟩]) := by
  have hchanges : changes (copies ++ [⟨msg, false, []⟩]) = changes copies := changes_snoc _ _
  have hqueued : retransmissions (copies ++ [⟨msg, false, []⟩]) = retransmissions copies := by
    rw [retransmissions_snoc, append_nil]
  refine ⟨⟨?_, ?_, fun e he m hm => ?_⟩, ?_, ?_⟩
  · rw [hchanges]
    exact h.once.changed
  · rw [hqueued]
    exact h.once.queued
  · rcases mem_append.mp he with he | he
    · exact h.once.relays e he m hm
    · rw [mem_singleton.mp he] at hm
      cases hm
  · rw [hchanges]
    exact h.unknown
  · rw [hqueued]
    exact h.pending

theorem FloodInv.considered {msg : MessageHeader} {retransmitted : Bool}
    (h : FloodInv msg.m_originatorAddress msg.m_messageSequenceNumber n copies)
    (hc : FloodNode.Considered msg n n' retransmitted) : FloodInv msg.m_originatorAddress msg.m_messageSequenceNumber n'
      (copies ++ [⟨msg, n'.m_state ≠ n.m_state, n'.m_queuedMessages.drop n.m_queuedMessages.length⟩]) := by
  have hnone : retransmissions copies = [] := h.pending fun d hd => (hc.fresh d hd).1
  have hdrop : n'.m_queuedMessages.drop n.m_queuedMessages.length = if retransmitted then [FloodNode.relayed msg] else [] := by
    rw [hc.queue, drop_left]
  obtain ⟨d, hd, hflag⟩ := hc.noted
  refine ⟨⟨?_, ?_, fun e he m hm => ?_⟩, fun hunknown => ?_, fun hpending => ?_⟩
  · rw [changes_snoc]
    cases hfind : n.findDuplicateTuple msg.m_originatorAddress msg.m_messageSequenceNumber with
    | none =>
      rw [h.unknown hfind]
      split <;> decide
    | some d₀ =>
      have hsame : n'.m_state = n.m_state := (hc.fresh d₀ hfind).2
      rw [if_neg (by simp [hsame])]
      exact h.once.changed
  · rw [retransmissions_snoc, hnone, hdrop, nil_append]
    split <;> simp
  · rcases mem_append.mp he with he | he
    · exact h.once.relays e he m hm
    · rw [mem_singleton.mp he] at hm ⊢
      rw [hdrop] at hm
      cases hflagged : retransmitted with
      | false =>
        rw [hflagged] at hm
        cases hm
      | true =>
        rw [hflagged] at hm
        rw [mem_singleton.mp hm]
        exact relays_relayed (hc.alive hflagged)
  · rw [hd] at hunknown
    cases hunknown
  · have hnot : retransmitted = false := hflag.symm.trans (hpending d hd)
    rw [retransmissions_snoc, hnone, hdrop, hnot]
    rfl

theorem FloodInv.frame (h : FloodInv address sequenceNumber n copies)
    (hsame : ∀ d, n.findDuplicateTuple address sequenceNumber = some d → n'.findDuplicateTuple address sequenceNumber = some d) :
    FloodInv address sequenceNumber n' copies := by
  cases hfind : n.findDuplicateTuple address sequenceNumber with
  | none =>
    have hidle : retransmissions copies = [] := by
      apply h.pending
      intro d hd
      rw [hfind] at hd
      cases hd
    exact ⟨h.once, fun _ => h.unknown hfind, fun _ => hidle⟩
  | some d =>
    have hfind' := hsame d hfind
    refine ⟨h.once, fun hunknown => ?_, fun hpending => h.pending fun d₀ hd₀ => hpending d₀ (hsame d₀ hd₀)⟩
    rw [hfind'] at hunknown
    cases hunknown

end

/-- **At most once.** However the copies of a message arrive, while its duplicate tuple is held they
change the repositories at most once and one is retransmitted at most. -/
theorem flooded_once (address : Ipv4Address) (sequenceNumber : UInt16) {n₀ n : FloodNode}
    {tr : List (FloodEvent × List FloodEffect)} (h : Run floodMachine (Held address sequenceNumber) n₀ tr n) :
    FloodedOnce (copiesOf address sequenceNumber (outputs tr)) := by
  have hinv : FloodInv address sequenceNumber n (copiesOf address sequenceNumber (outputs tr)) := by
    refine Run.invariant (fun tr n => FloodInv address sequenceNumber n (copiesOf address sequenceNumber (outputs tr))) ?_ ?_ h
    · exact ⟨⟨Nat.zero_le _, Nat.zero_le _, nofun⟩, fun _ => rfl, fun _ => rfl⟩
    · intro tr n e n' effects hbefore hheld hstep
      rw [outputs_snoc, copiesOf, filter_append]
      cases e with
      | other other =>
        cases hstep
        rw [filter_nil, append_nil]
        exact hbefore.frame hheld
      | receive now msg receiverIfaceAddr senderIfaceAddr =>
        obtain ⟨n₁, hrecv, heq⟩ := Option.map_eq_some_iff.mp hstep
        obtain ⟨rfl, rfl⟩ := Prod.mk.inj heq
        by_cases hcopy : msg.m_originatorAddress = address ∧ msg.m_messageSequenceNumber = sequenceNumber
        · obtain ⟨rfl, rfl⟩ := hcopy
          rw [filter_cons_of_pos (by simp), filter_nil]
          rcases FloodNode.recvMessage_cases hrecv with rfl | ⟨retransmitted, hc⟩
          · have hnothing : FloodEffect.mk msg (n₁.m_state ≠ n₁.m_state) (n₁.m_queuedMessages.drop n₁.m_queuedMessages.length) =
                ⟨msg, false, []⟩ := by simp
            rw [hnothing]
            exact hbefore.idle msg
          · exact hbefore.considered hc
        · rw [filter_cons_of_neg (by simpa using hcopy), filter_nil, append_nil]
          rcases FloodNode.recvMessage_cases hrecv with rfl | ⟨retransmitted, hc⟩
          · exact hbefore
          · apply hbefore.frame
            intro d hd
            rw [hc.others address sequenceNumber hcopy]
            exact hd
  exact hinv.once

/-! ## Two runs -/

/-- A node with a symmetric link to node 2, which is a MPR selector or not yet. -/
def relayNode (mprSelectorSet : List MprSelectorTuple) (duplicateSet : List DuplicateTuple) : FloodNode where
  m_mainAddress := 1
  m_state := {
    linkSet := [⟨⟨10, 2, 100⟩, 100⟩]
    neighborSet := []
    twoHopNeighborSet := []
    mprSelectorSet := mprSelectorSet
    topologySet := []
    ifaceAssocSet := []
    associationSet := [] }
  duplicateSet := duplicateSet
  m_queuedMessages := []

def tcMessage (hopCount : UInt8) : MessageHeader := ⟨0, 20, 5, 9, hopCount, 7, .tc ⟨1, [6]⟩⟩

/-- A copy that is processed, one that is retransmitted after node 2 has become a MPR selector, and a third one. -/
theorem thirdCopy_idle : ∃ tr n, Run floodMachine (Held 5 7) (relayNode [] []) tr n ∧
    (copiesOf 5 7 (outputs tr)).map (fun e => (e.changed, e.queued.length)) = [(true, 0), (false, 1), (false, 0)] ∧
    FloodedOnce (copiesOf 5 7 (outputs tr)) := by
  have hexec : (floodMachine.exec (Held 5 7) (relayNode [] [])
      [.receive 0 (tcMessage 3) 10 2, .other (relayNode [⟨2, 100⟩] [⟨5, 7, false, [10], 30000000000⟩]),
        .receive 1 (tcMessage 4) 11 2, .receive 2 (tcMessage 5) 12 2]).any (fun r =>
      (copiesOf 5 7 (outputs r.1)).map (fun e => (e.changed, e.queued.length)) = [(true, 0), (false, 1), (false, 0)]) = true := by
    decide +kernel
  obtain ⟨tr, n, hrun, hcopies⟩ := run_of_any floodMachine (Held 5 7) hexec
  exact ⟨tr, n, hrun, of_decide_eq_true hcopies, flooded_once 5 7 hrun⟩

/-- A copy with hop count 255 goes on with 0. -/
theorem hopCount_wraps : ∃ tr n, Run floodMachine (Held 5 7) (relayNode [⟨2, 100⟩] []) tr n ∧
    ∃ e ∈ copiesOf 5 7 (outputs tr), ∃ msg ∈ e.queued, msg.m_hopCount.toNat ≠ e.copy.m_hopCount.toNat + 1 := by
  have hexec : (floodMachine.exec (Held 5 7) (relayNode [⟨2, 100⟩] []) [.receive 0 (tcMessage 255) 10 2]).any
      (fun r : List (FloodEvent × List FloodEffect) × FloodNode =>
        ∃ e ∈ copiesOf 5 7 (outputs r.1), ∃ msg ∈ e.queued, msg.m_hopCount.toNat ≠ e.copy.m_hopCount.toNat + 1) = true := by
    decide +kernel
  obtain ⟨tr, n, hrun, hcopies⟩ := run_of_any floodMachine (Held 5 7) hexec
  exact ⟨tr, n, hrun, of_decide_eq_true hcopies⟩

end Ns3
