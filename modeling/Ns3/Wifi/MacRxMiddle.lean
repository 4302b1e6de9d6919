import Ns3.Lib.BitField
import Ns3.Lib.Machine
import Ns3.Network.Mac48Address
import Ns3.Rlc.RlcHeader

/-!
# `MacRxMiddle`

Fragments of an MSDU are put together in the order they arrive in, for each
originator (and TID) on its own. While fragments are kept, every frame is
taken for the next fragment of the same MSDU: nothing ends the wait for an
MSDU that its sender has given up.

The originators send MSDU after MSDU, fragment after fragment. A frame may get
lost and is sent again with its retry bit set, also when it was the Ack that got
lost; the next fragment follows when an Ack arrives, and an MSDU may be given up
at any time.
-/

namespace Ns3

open Machine

/-- `qosTid` is the TID of QoS data. -/
structure WifiMacHeader where
  addr1 : Mac48Address
  addr2 : Mac48Address
  qosTid : Option Nat
  retry : Bool
  moreFragments : Bool
  sequenceNumber : Nat
  fragmentNumber : Nat
  deriving DecidableEq

def WifiMacHeader.sequenceControl (h : WifiMacHeader) : Nat := h.sequenceNumber <<< 4 ||| h.fragmentNumber

/-- A `WifiMacQueueItem`. -/
structure Mpdu where
  header : WifiMacHeader
  packet : Bytes
  deriving DecidableEq

structure OriginatorRxStatus where
  defragmenting : Bool := false
  lastSequenceControl : Nat := 0xffff
  fragments : List Bytes := []

namespace OriginatorRxStatus

def accumulateFirstFragment (o : OriginatorRxStatus) (packet : Bytes) : OriginatorRxStatus :=
  { o with defragmenting := true, fragments := o.fragments ++ [packet] }

def accumulateFragment (o : OriginatorRxStatus) (packet : Bytes) : OriginatorRxStatus :=
  { o with fragments := o.fragments ++ [packet] }

def accumulateLastFragment (o : OriginatorRxStatus) (packet : Bytes) : OriginatorRxStatus × Bytes :=
  ({ o with defragmenting := false, fragments := [] }, (o.fragments ++ [packet]).flatten)

def isNextFragment (o : OriginatorRxStatus) (sequenceControl : Nat) : Bool :=
  sequenceControl >>> 4 = o.lastSequenceControl >>> 4 &&
    sequenceControl &&& 0x0f = (o.lastSequenceControl &&& 0x0f) + 1

def setSequenceControl (o : OriginatorRxStatus) (sequenceControl : Nat) : OriginatorRxStatus :=
  { o with lastSequenceControl := sequenceControl }

end OriginatorRxStatus

/-- A key of `m_qosOriginatorStatus` or of `m_originatorStatus`. -/
inductive OriginatorKey where
  | qos (source : Mac48Address) (tid : Nat)
  | plain (source : Mac48Address)
  deriving DecidableEq

namespace MacRxMiddle

def lookup (h : WifiMacHeader) : OriginatorKey :=
  match h.qosTid with
  | some tid => if h.addr2.isGroup then .plain h.addr2 else .qos h.addr2 tid
  | none => .plain h.addr2

def isDuplicate (h : WifiMacHeader) (o : OriginatorRxStatus) : Bool :=
  h.retry && o.lastSequenceControl = h.sequenceControl

/-- The accumulated packet, if there is one to forward. -/
def handleFragments (packet : Bytes) (h : WifiMacHeader) (o : OriginatorRxStatus) : OriginatorRxStatus × Option Bytes :=
  if o.defragmenting then
    if h.moreFragments then
      if o.isNextFragment h.sequenceControl then
        ((o.accumulateFragment packet).setSequenceControl h.sequenceControl, none)
      else (o, none)
    else
      if o.isNextFragment h.sequenceControl then
        let (o, p) := o.accumulateLastFragment packet
        (o.setSequenceControl h.sequenceControl, some p)
      else (o, none)
  else
    if h.moreFragments then ((o.accumulateFirstFragment packet).setSequenceControl h.sequenceControl, none)
    else (o, some packet)

def receiveFrom (o : OriginatorRxStatus) (mpdu : Mpdu) : OriginatorRxStatus × List Mpdu :=
  let h := mpdu.header
  if isDuplicate h o then (o, [])
  else
    match handleFragments mpdu.packet h o with
    | (o, none) => (o, [])
    | (o, some aggregate) =>
      (if h.addr1.isGroup then o else o.setSequenceControl h.sequenceControl, [⟨h, aggregate⟩])

def receive (status : OriginatorKey → OriginatorRxStatus) (mpdu : Mpdu) :
    (OriginatorKey → OriginatorRxStatus) × List Mpdu :=
  let r := receiveFrom (status (lookup mpdu.header)) mpdu
  (Function.update status (lookup mpdu.header) r.1, r.2)

end MacRxMiddle

/-! ## The originators -/

structure Msdu where
  addr1 : Mac48Address
  addr2 : Mac48Address
  qosTid : Option Nat
  sequenceNumber : Fin 4096
  fragments : List Bytes
  nonempty : 0 < fragments.length
  numbered : fragments.length ≤ 16
  whole : addr1.isGroup = true → fragments.length = 1

namespace Msdu

def header (m : Msdu) (i : Nat) (retry : Bool) : WifiMacHeader where
  addr1 := m.addr1
  addr2 := m.addr2
  qosTid := m.qosTid
  retry := retry
  moreFragments := i + 1 < m.fragments.length
  sequenceNumber := m.sequenceNumber
  fragmentNumber := i

def key (m : Msdu) : OriginatorKey := MacRxMiddle.lookup (m.header 0 false)

end Msdu

/-- The MSDU on its way: the fragment that is sent, with its retry bit, whether it
has been received. Besides, the contents of the MSDUs received in all their fragments. -/
structure MsduSender where
  msdu : Option Msdu := none
  index : Nat := 0
  retry : Bool := false
  received : Bool := false
  complete : List Bytes := []

namespace MsduSender

/-- The frame on the air. One for a group is not sent again. -/
def frame (t : MsduSender) : Option Mpdu :=
  match t.msdu with
  | none => none
  | some m =>
    match m.fragments[t.index]? with
    | none => none
    | some packet => if m.addr1.isGroup && t.retry then none else some ⟨m.header t.index t.retry, packet⟩

/-- Nothing of the MSDU has been received. -/
def fresh (t : MsduSender) : Bool := t.index = 0 && !t.received

/-- The frame is received; in order, since each fragment is sent after those before it. -/
def markReceived (t : MsduSender) : MsduSender :=
  { t with
    received := true
    complete := match t.msdu with
      | none => t.complete
      | some m => if !t.received ∧ t.index + 1 = m.fragments.length then t.complete ++ [m.fragments.flatten] else t.complete }

/-- `NormalAckTimeout`: the frame is sent again. -/
def retransmit (t : MsduSender) : MsduSender := { t with retry := true }

/-- After an Ack: `GetNextFragment` takes the header of the fragment before, its retry bit included. -/
def nextFragment (t : MsduSender) : MsduSender :=
  match t.msdu with
  | none => t
  | some m =>
    if t.index + 1 < m.fragments.length then { t with index := t.index + 1, received := false } else { complete := t.complete }

/-- The frame is received, and the Ack for it arrives or not. -/
def delivered (t : MsduSender) (acked : Bool) : MsduSender :=
  if acked then t.markReceived.nextFragment else t.markReceived.retransmit

end MsduSender

structure WifiLinks where
  senders : OriginatorKey → MsduSender := fun _ => {}
  originatorStatus : OriginatorKey → OriginatorRxStatus := fun _ => {}

inductive WifiEvent where
  | start (m : Msdu)
  | lose (k : OriginatorKey)
  | deliver (k : OriginatorKey) (acked : Bool)

namespace WifiLinks

open MacRxMiddle

def setSender (s : WifiLinks) (k : OriginatorKey) (t : MsduSender) : WifiLinks :=
  { s with senders := Function.update s.senders k t }

def machine : Machine WifiLinks WifiEvent Mpdu where
  step s
    | .start m => some (s.setSender m.key { msdu := some m, complete := (s.senders m.key).complete }, [])
    | .lose k => (s.senders k).frame.map fun _ => (s.setSender k (s.senders k).retransmit, [])
    | .deliver k acked => (s.senders k).frame.map fun mpdu =>
      let r := receive s.originatorStatus mpdu
      ({ s.setSender k ((s.senders k).delivered acked) with originatorStatus := r.1 }, r.2)

/-- No frame that is the first received of its MSDU meets fragments of an MSDU given up, or is
taken for a duplicate of the last frame. -/
def Clear (s : WifiLinks) : WifiEvent → Prop
  | .deliver k _ => (s.senders k).fresh = true → (s.originatorStatus k).defragmenting = false ∧
      (s.senders k).frame.all (fun mpdu => !isDuplicate mpdu.header (s.originatorStatus k)) = true
  | _ => True

instance (s : WifiLinks) : ∀ e, Decidable (Clear s e)
  | .deliver _ _ => inferInstanceAs (Decidable (_ → _ ∧ _))
  | .start _ => .isTrue trivial
  | .lose _ => .isTrue trivial

def forwarded (k : OriginatorKey) (log : List Mpdu) : List Bytes :=
  (log.filter fun mpdu => lookup mpdu.header = k).map (·.packet)

/-! ## A status and the originator it is about -/

theorem sequenceControl_eq {h : WifiMacHeader} (hf : h.fragmentNumber < 16) :
    h.sequenceControl = h.sequenceNumber * 16 + h.fragmentNumber := by
  rw [WifiMacHeader.sequenceControl, ← Nat.shiftLeft_add_eq_or_of_lt (i := 4) hf, Nat.shiftLeft_eq]

theorem isNextFragment_iff (o : OriginatorRxStatus) {s i c : Nat} (hlast : o.lastSequenceControl = s * 16 + i) (hi : i + 1 < 16)
    (hc : c = s * 16 + (i + 1)) : o.isNextFragment c = true := by
  have hfield : ∀ x, x &&& 0x0f = x % 16 := fun x => Nat.and_two_pow_sub_one_eq_mod x 4
  rw [OriginatorRxStatus.isNextFragment, hlast, hc, hfield, hfield, Nat.shiftRight_eq_div_pow, Nat.shiftRight_eq_div_pow]
  simp only [Bool.and_eq_true, decide_eq_true_eq]
  omega

/-- How many fragments of the MSDU have been received. -/
def got (t : MsduSender) : Nat := if t.received then t.index + 1 else t.index

/-- Where the status stands when no MSDU was given up in front of the present one. -/
structure Tracks (t : MsduSender) (o : OriginatorRxStatus) : Prop where
  clean : o.defragmenting = false → o.fragments = []
  again : t.received = true → t.retry = true
  inside : ∀ m, t.msdu = some m → t.index < m.fragments.length
  partway : ∀ m, t.msdu = some m → 0 < got t → got t < m.fragments.length →
    o = ⟨true, (m.header (got t - 1) false).sequenceControl, m.fragments.take (got t)⟩
  done : ∀ m, t.msdu = some m → got t = m.fragments.length → o.defragmenting = false ∧
    (m.addr1.isGroup = false → o.lastSequenceControl = (m.header (got t - 1) false).sequenceControl)

section
variable {t : MsduSender} {o : OriginatorRxStatus} {m : Msdu}

theorem Tracks.start (h : Tracks t o) (m : Msdu) (complete : List Bytes) : Tracks { msdu := some m, complete := complete } o where
  clean := h.clean
  again := by simp
  inside := by
    intro m' hm
    cases hm
    exact m.nonempty
  partway := by simp [got]
  done := by
    intro m' hm heq
    cases hm
    have := m.nonempty
    simp only [got, Bool.false_eq_true, if_false] at heq
    omega

theorem Tracks.lose (h : Tracks t o) : Tracks t.retransmit o where
  clean := h.clean
  again := fun _ => rfl
  inside := h.inside
  partway := h.partway
  done := h.done

theorem frame_eq (h : Tracks t o) {mpdu : Mpdu} (hframe : t.frame = some mpdu) : ∃ m, t.msdu = some m ∧
    ∃ hi : t.index < m.fragments.length, mpdu = ⟨m.header t.index t.retry, m.fragments[t.index]⟩ ∧
      ¬ (m.addr1.isGroup = true ∧ t.retry = true) := by
  unfold MsduSender.frame at hframe
  cases hm : t.msdu with
  | none => simp [hm] at hframe
  | some m =>
    have hi := h.inside m hm
    simp only [hm, List.getElem?_eq_getElem hi] at hframe
    obtain ⟨hsent, hframe⟩ := Option.ite_none_left_eq_some.mp hframe
    cases hframe
    exact ⟨m, rfl, hi, rfl, by simpa using hsent⟩

/-- What is forwarded with a frame: the whole MSDU with its last fragment. -/
def arrives (m : Msdu) (t : MsduSender) : List Bytes :=
  if !t.received ∧ t.index + 1 = m.fragments.length then [m.fragments.flatten] else []

theorem delivered_eq (hm : t.msdu = some m) (acked : Bool) : t.delivered acked =
    let complete := t.complete ++ arrives m t
    if acked then
      if t.index + 1 < m.fragments.length then { t with index := t.index + 1, received := false, complete := complete }
      else { complete := complete }
    else { t with retry := true, received := true, complete := complete } := by
  have hcomplete : t.markReceived = { t with received := true, complete := t.complete ++ arrives m t } := by
    unfold MsduSender.markReceived arrives
    simp only [hm]
    split
    · rfl
    · rw [List.append_nil]
  rw [MsduSender.delivered, MsduSender.nextFragment, MsduSender.retransmit, hcomplete]
  simp only [hm]

theorem delivered_complete (hm : t.msdu = some m) (acked : Bool) : (t.delivered acked).complete = t.complete ++ arrives m t := by
  rw [delivered_eq hm]
  cases acked with
  | false => rfl
  | true =>
    simp only [if_true]
    split <;> rfl

theorem delivered_msdu (hm : t.msdu = some m) (acked : Bool) : ∀ m', (t.delivered acked).msdu = some m' → m' = m := by
  rw [delivered_eq hm]
  intro m' hm'
  have hsame : t.msdu = some m' := by
    cases acked with
    | false => exact hm'
    | true =>
      simp only [if_true] at hm'
      split at hm'
      · exact hm'
      · cases hm'
  exact Option.some.inj (hsame.symm.trans hm)

theorem header_sequenceControl (m : Msdu) {i : Nat} (retry : Bool) (hi : i < m.fragments.length) :
    (m.header i retry).sequenceControl = m.sequenceNumber.val * 16 + i :=
  sequenceControl_eq (h := m.header i retry) (Nat.lt_of_lt_of_le hi m.numbered)

theorem tracks_delivered {o' : OriginatorRxStatus} (hm : t.msdu = some m) (hi : t.index < m.fragments.length)
    (hpartway : t.index + 1 < m.fragments.length →
      o' = ⟨true, m.sequenceNumber.val * 16 + t.index, m.fragments.take (t.index + 1)⟩)
    (hdone : t.index + 1 = m.fragments.length → o'.defragmenting = false ∧ o'.fragments = [] ∧
      (m.addr1.isGroup = false → o'.lastSequenceControl = m.sequenceNumber.val * 16 + t.index)) (acked : Bool) :
    Tracks (t.delivered acked) o' := by
  have hcontrol := header_sequenceControl m false hi
  have hmsdu := delivered_msdu hm acked
  have hclean : o'.defragmenting = false → o'.fragments = [] := by
    intro hclean
    rcases Nat.lt_or_ge (t.index + 1) m.fragments.length with hlt | hge
    · rw [hpartway hlt] at hclean
      cases hclean
    · exact (hdone (by omega)).2.1
  rw [delivered_eq hm] at hmsdu ⊢
  cases acked with
  | false =>
    refine ⟨hclean, fun _ => rfl, ?_, ?_, ?_⟩
    · intro m' hm'
      obtain rfl := hmsdu m' hm'
      exact hi
    · intro m' hm' _ hlt
      obtain rfl := hmsdu m' hm'
      exact (hpartway hlt).trans (by rw [← hcontrol]; rfl)
    · intro m' hm' heq
      obtain rfl := hmsdu m' hm'
      exact ⟨(hdone heq).1, fun hgroup => ((hdone heq).2.2 hgroup).trans hcontrol.symm⟩
  | true =>
    simp only [if_true] at hmsdu ⊢
    by_cases hmore : t.index + 1 < m.fragments.length
    · -- the next fragment is on its way, and none of it has come
      rw [if_pos hmore] at hmsdu ⊢
      refine ⟨hclean, by simp, ?_, ?_, ?_⟩
      · intro m' hm'
        obtain rfl := hmsdu m' hm'
        exact hmore
      · intro m' hm' _ _
        obtain rfl := hmsdu m' hm'
        exact (hpartway hmore).trans (by rw [← hcontrol]; rfl)
      · intro m' hm' heq
        obtain rfl := hmsdu m' hm'
        exact absurd heq hmore.ne
    · rw [if_neg hmore]
      exact ⟨hclean, by simp, by simp, by simp, by simp⟩

theorem receive_again (h : Tracks t o) (hm : t.msdu = some m) (hi : t.index < m.fragments.length) (hreceived : t.received = true)
    (hsent : ¬ (m.addr1.isGroup = true ∧ t.retry = true)) :
    receiveFrom o ⟨m.header t.index t.retry, m.fragments[t.index]⟩ = (o, []) ∧ ∀ acked, Tracks (t.delivered acked) o := by
  have hretry := h.again hreceived
  have hgot : got t = t.index + 1 := if_pos hreceived
  have hcontrol := header_sequenceControl m t.retry hi
  have hgroup : m.addr1.isGroup = false := by simpa [hretry] using hsent
  have hpartway := h.partway m hm
  have hdone := h.done m hm
  rw [hgot, Nat.add_sub_cancel, header_sequenceControl m false hi] at hpartway hdone
  have hlast : o.lastSequenceControl = m.sequenceNumber.val * 16 + t.index := by
    rcases Nat.lt_or_ge (t.index + 1) m.fragments.length with hlt | hge
    · rw [hpartway (Nat.succ_pos _) hlt]
    · exact (hdone (by omega)).2 hgroup
  constructor
  · refine if_pos ?_
    rw [isDuplicate, Bool.and_eq_true, decide_eq_true_eq]
    exact ⟨hretry, hlast.trans hcontrol.symm⟩
  · refine tracks_delivered hm hi (hpartway (Nat.succ_pos _)) fun heq => ?_
    exact ⟨(hdone heq).1, h.clean (hdone heq).1, (hdone heq).2⟩

theorem receive_first (h : Tracks t o) (hm : t.msdu = some m) (hi : t.index < m.fragments.length) (hreceived : t.received = false)
    (hzero : t.index = 0) (hfree : o.defragmenting = false) (hnew : isDuplicate (m.header t.index t.retry) o = false) :
    ∃ o' out, receiveFrom o ⟨m.header t.index t.retry, m.fragments[t.index]⟩ = (o', out) ∧ (∀ acked, Tracks (t.delivered acked) o') ∧
      out.map (·.packet) = arrives m t ∧ ∀ mpdu ∈ out, mpdu.header = m.header t.index t.retry := by
  have hcontrol := header_sequenceControl m t.retry hi
  have hclean := h.clean hfree
  have hnone : m.fragments.take t.index = [] := by rw [hzero, List.take_zero]
  have htake : m.fragments.take (t.index + 1) = [m.fragments[t.index]] := by
    rw [List.take_add_one, List.getElem?_eq_getElem hi, hnone]
    rfl
  rw [receiveFrom, if_neg (by simpa using hnew), handleFragments, if_neg (by simp [hfree])]
  by_cases hmore : t.index + 1 < m.fragments.length
  · have hheader : (m.header t.index t.retry).moreFragments = true := decide_eq_true hmore
    have harrives : arrives m t = [] := if_neg fun hlast => by omega
    simp only [if_pos hheader]
    refine ⟨_, _, rfl, tracks_delivered hm hi (fun _ => ?_) (fun heq => by omega), by rw [harrives]; rfl, by simp⟩
    rw [OriginatorRxStatus.setSequenceControl, OriginatorRxStatus.accumulateFirstFragment, hclean, hcontrol, htake]
    rfl
  · have hheader : (m.header t.index t.retry).moreFragments = false := decide_eq_false hmore
    have hlength : t.index + 1 = m.fragments.length := by omega
    have harrives : arrives m t = [m.fragments[t.index]] := by
      have hflatten : m.fragments.flatten = [m.fragments[t.index]].flatten := by rw [← htake, hlength, List.take_length]
      rw [arrives, if_pos ⟨by simp [hreceived], hlength⟩, hflatten]
      simp
    simp only [hheader, Bool.false_eq_true, if_false]
    refine ⟨_, _, rfl, tracks_delivered hm hi (fun hlt => absurd hlt hmore) (fun _ => ?_), by rw [harrives]; rfl, by simp⟩
    by_cases hgroup : (m.header t.index t.retry).addr1.isGroup = true
    · rw [if_pos hgroup]
      exact ⟨hfree, hclean, fun hnot => absurd (hgroup.symm.trans hnot) (by decide)⟩
    · rw [if_neg hgroup]
      exact ⟨hfree, hclean, fun _ => hcontrol⟩

theorem receive_next (h : Tracks t o) (hm : t.msdu = some m) (hi : t.index < m.fragments.length) (hreceived : t.received = false)
    (hpos : 0 < t.index) :
    ∃ o' out, receiveFrom o ⟨m.header t.index t.retry, m.fragments[t.index]⟩ = (o', out) ∧ (∀ acked, Tracks (t.delivered acked) o') ∧
      out.map (·.packet) = arrives m t ∧ ∀ mpdu ∈ out, mpdu.header = m.header t.index t.retry := by
  have hgot : got t = t.index := if_neg (by simp [hreceived])
  have hcontrol := header_sequenceControl m t.retry hi
  have hstatus := h.partway m hm (by omega) (by omega)
  rw [hgot, header_sequenceControl m false (by omega)] at hstatus
  subst hstatus
  have hnumbered := m.numbered
  have hnext : OriginatorRxStatus.isNextFragment ⟨true, m.sequenceNumber.val * 16 + (t.index - 1), m.fragments.take t.index⟩
      (m.header t.index t.retry).sequenceControl = true :=
    isNextFragment_iff _ rfl (by omega) (by rw [hcontrol, Nat.sub_add_cancel hpos])
  have hnew : isDuplicate (m.header t.index t.retry)
      ⟨true, m.sequenceNumber.val * 16 + (t.index - 1), m.fragments.take t.index⟩ = false := by
    rw [isDuplicate, hcontrol, Bool.and_eq_false_iff]
    refine .inr (decide_eq_false ?_)
    simp only
    omega
  have htake : m.fragments.take (t.index + 1) = m.fragments.take t.index ++ [m.fragments[t.index]] := by
    rw [List.take_add_one, List.getElem?_eq_getElem hi]
    rfl
  rw [receiveFrom, if_neg (by simpa using hnew), handleFragments, if_pos rfl]
  by_cases hmore : t.index + 1 < m.fragments.length
  · have hheader : (m.header t.index t.retry).moreFragments = true := decide_eq_true hmore
    have harrives : arrives m t = [] := if_neg fun hlast => by omega
    simp only [if_pos hheader, if_pos hnext]
    refine ⟨_, _, rfl, tracks_delivered hm hi (fun _ => ?_) (fun heq => by omega), by rw [harrives]; rfl, by simp⟩
    rw [hcontrol, htake]
    rfl
  · have hheader : (m.header t.index t.retry).moreFragments = false := decide_eq_false hmore
    have hlength : t.index + 1 = m.fragments.length := by omega
    have harrives : arrives m t = [(m.fragments.take t.index ++ [m.fragments[t.index]]).flatten] := by
      rw [arrives, if_pos ⟨by simp [hreceived], hlength⟩, ← htake, hlength, List.take_length]
    simp only [hheader, Bool.false_eq_true, if_false, if_pos hnext]
    refine ⟨_, _, rfl, tracks_delivered hm hi (fun hlt => absurd hlt hmore) (fun _ => ?_), by rw [harrives]; rfl, by simp⟩
    by_cases hgroup : (m.header t.index t.retry).addr1.isGroup = true
    · rw [if_pos hgroup]
      exact ⟨rfl, rfl, fun _ => hcontrol⟩
    · rw [if_neg hgroup]
      exact ⟨rfl, rfl, fun _ => hcontrol⟩

end

/-! ## Runs -/

structure Linked (k : OriginatorKey) (log : List Mpdu) (t : MsduSender) (o : OriginatorRxStatus) : Prop where
  tracks : Tracks t o
  keyed : ∀ m, t.msdu = some m → m.key = k
  exact : forwarded k log = t.complete

def Inv (log : List Mpdu) (s : WifiLinks) : Prop := ∀ k, Linked k log (s.senders k) (s.originatorStatus k)

section
variable {log : List Mpdu} {s : WifiLinks}

theorem linked_update {log : List Mpdu} {k : OriginatorKey} {t : MsduSender} {o : OriginatorRxStatus}
    (hothers : ∀ k', k' ≠ k → Linked k' log (s.senders k') (s.originatorStatus k')) (hk : Linked k log t o) :
    ∀ k', Linked k' log (Function.update s.senders k t k') (Function.update s.originatorStatus k o k') := by
  intro k'
  by_cases heq : k' = k
  · subst heq
    rw [Function.update_self, Function.update_self]
    exact hk
  · rw [Function.update_of_ne heq, Function.update_of_ne heq]
    exact hothers k' heq

theorem Inv.setSender (h : Inv log s) {k : OriginatorKey} {t : MsduSender} (htracks : Tracks t (s.originatorStatus k))
    (hkeyed : ∀ m, t.msdu = some m → m.key = k) (hcomplete : t.complete = (s.senders k).complete) :
    Inv (log ++ []) (s.setSender k t) := by
  rw [List.append_nil]
  have hall := linked_update (fun k' _ => h k') ⟨htracks, hkeyed, (h k).exact.trans hcomplete.symm⟩
  rw [Function.update_eq_self] at hall
  exact hall

theorem Inv.deliver (h : Inv log s) {k : OriginatorKey} {acked : Bool} (hclear : Clear s (.deliver k acked)) {mpdu : Mpdu}
    (hframe : (s.senders k).frame = some mpdu) :
    Inv (log ++ (receive s.originatorStatus mpdu).2)
      { s.setSender k ((s.senders k).delivered acked) with originatorStatus := (receive s.originatorStatus mpdu).1 } := by
  have hk := h k
  obtain ⟨m, hm, hi, rfl, hsent⟩ := frame_eq hk.tracks hframe
  have hkey : lookup (m.header (s.senders k).index (s.senders k).retry) = k := hk.keyed m hm
  have hreceived : ∃ o' out, receiveFrom (s.originatorStatus k)
      ⟨m.header (s.senders k).index (s.senders k).retry, m.fragments[(s.senders k).index]⟩ = (o', out) ∧
      (∀ acked, Tracks ((s.senders k).delivered acked) o') ∧ out.map (·.packet) = arrives m (s.senders k) ∧
      ∀ mpdu ∈ out, mpdu.header = m.header (s.senders k).index (s.senders k).retry := by
    cases hagain : (s.senders k).received with
    | true =>
      obtain ⟨heq, htracks⟩ := receive_again hk.tracks hm hi hagain hsent
      exact ⟨_, [], heq, htracks, by simp [arrives, hagain], by simp⟩
    | false =>
      by_cases hzero : (s.senders k).index = 0
      · have hfresh : (s.senders k).fresh = true := by simp [MsduSender.fresh, hzero, hagain]
        obtain ⟨hfree, hnew⟩ := hclear hfresh
        rw [hframe] at hnew
        exact receive_first hk.tracks hm hi hagain hzero hfree (by simpa using hnew)
      · exact receive_next hk.tracks hm hi hagain (Nat.pos_of_ne_zero hzero)
  obtain ⟨o', out, hreceive, htracks, hpackets, hheaders⟩ := hreceived
  simp only [receive, hkey, hreceive]
  have hout : ∀ mpdu ∈ out, lookup mpdu.header = k := by
    intro mpdu hmpdu
    rw [hheaders mpdu hmpdu, hkey]
  refine linked_update (fun k' hne => ⟨(h k').tracks, (h k').keyed, ?_⟩) ⟨htracks acked, fun m' hm' => ?_, ?_⟩
  · -- nothing of it is from another originator
    have hnone : out.filter (fun mpdu => lookup mpdu.header = k') = [] := by
      refine List.filter_eq_nil_iff.mpr fun mpdu hmpdu => ?_
      rw [hout mpdu hmpdu]
      simpa using Ne.symm hne
    rw [forwarded, List.filter_append, hnone, List.append_nil]
    exact (h k').exact
  · rw [delivered_msdu hm acked m' hm']
    exact hk.keyed m hm
  · have hall : out.filter (fun mpdu => lookup mpdu.header = k) = out := by
      refine List.filter_eq_self.mpr fun mpdu hmpdu => ?_
      exact decide_eq_true (hout mpdu hmpdu)
    rw [forwarded, List.filter_append, hall, List.map_append, hpackets, delivered_complete hm]
    exact congrArg (· ++ arrives m (s.senders k)) hk.exact

/-- Under each key, what was forwarded is what was received complete. -/
theorem Inv.step (h : Inv log s) {e : WifiEvent} (hclear : Clear s e) {s' : WifiLinks} {o : List Mpdu}
    (hstep : machine.step s e = some (s', o)) : Inv (log ++ o) s' := by
  cases e with
  | start m =>
    cases hstep
    refine h.setSender ((h m.key).tracks.start m _) (fun m' hm => ?_) rfl
    cases hm
    rfl
  | lose k =>
    obtain ⟨mpdu, -, heq⟩ := Option.map_eq_some_iff.mp hstep
    cases heq
    exact h.setSender (h k).tracks.lose (h k).keyed rfl
  | deliver k acked =>
    obtain ⟨mpdu, hframe, heq⟩ := Option.map_eq_some_iff.mp hstep
    cases heq
    exact h.deliver hclear hframe

end

/-- **Defragmentation.** As long as no MSDU is begun behind one that was given up with fragments
kept, what is forwarded from each originator are the MSDUs received in all their
fragments, each once, in order and whole. -/
theorem defragmented (tr : List (WifiEvent × List Mpdu)) (s : WifiLinks) (h : Run machine Clear {} tr s) :
    ∀ k, forwarded k (outputs tr) = (s.senders k).complete := by
  have hinv : Inv (outputs tr) s := by
    refine Run.invariant (fun tr s => Inv (outputs tr) s) (fun k => ?_) ?_ h
    · exact ⟨⟨fun _ => rfl, by simp, by simp, by simp, by simp⟩, by simp, rfl⟩
    · intro tr s e s' o hinv hclear hstep
      rw [outputs_snoc]
      exact hinv.step hclear hstep
  exact fun k => (hinv k).exact

def msdu (sequenceNumber : Fin 4096) (fragments : List Bytes) (hlength : 0 < fragments.length ∧ fragments.length ≤ 16) : Msdu where
  addr1 := 1
  addr2 := 2
  qosTid := none
  sequenceNumber := sequenceNumber
  fragments := fragments
  nonempty := hlength.1
  numbered := hlength.2
  whole := fun hgroup => absurd hgroup (by decide)

/-- A fragment received twice, one that is lost first, an MSDU of which nothing is received, and
a burst without a retransmission. -/
def givenUpEarly : List WifiEvent :=
  [.start (msdu 4095 [[1], [2]] (by decide)), .deliver (.plain 2) false, .deliver (.plain 2) true, .lose (.plain 2),
    .deliver (.plain 2) true, .start (msdu 0 [[3], [4]] (by decide)), .lose (.plain 2), .start (msdu 1 [[5]] (by decide)),
    .deliver (.plain 2) true, .start (msdu 2 [[6], [7], [8]] (by decide)), .deliver (.plain 2) true, .deliver (.plain 2) true,
    .deliver (.plain 2) true]

theorem givenUpEarly_run : (machine.exec Clear {} givenUpEarly).isSome = true := by decide

theorem givenUpEarly_forwarded : ∃ tr s, Run machine Clear {} tr s ∧ forwarded (.plain 2) (outputs tr) = [[1, 2], [5], [6, 7, 8]] := by
  have hrun := run_of_isSome machine Clear {} givenUpEarly givenUpEarly_run
  refine ⟨_, _, hrun, (defragmented _ _ hrun (.plain 2)).trans ?_⟩
  decide

/-! ## After an MSDU that is given up -/

/-- Fragment 0 of an MSDU of two is received, then a whole one. -/
def givenUpLate : List WifiEvent :=
  [.start (msdu 1 [[1], [2]] (by decide)), .deliver (.plain 2) true, .start (msdu 2 [[3]] (by decide)),
    .deliver (.plain 2) true]

theorem givenUpLate_run : (machine.exec anyStep {} givenUpLate).isSome = true := by decide

/-- **An MSDU that is given up** is waited for, and those behind it are lost. -/
theorem givenUpLate_missed : ∃ tr s, Run machine anyStep {} tr s ∧
    forwarded (.plain 2) (outputs tr) ≠ (s.senders (.plain 2)).complete := by
  refine ⟨_, _, run_of_isSome machine anyStep {} givenUpLate givenUpLate_run, ?_⟩
  decide

end WifiLinks

end Ns3
