import Ns3.Aodv.RoutingProtocol

/-!
# What a request or a reply makes of a route

The route to the originator of a request, and to the destination of a reply.
All that a node does besides leaves the sequence number, the next hop and the
hop count of that route as they are.
-/

namespace Ns3

namespace Aodv

namespace RoutingProtocol

/-- The node has these three for `d`, and keeps them when its table is purged. -/
def Holds (s : RoutingProtocol) (now : Int) (d : Ipv4Address) (tr : BitVec 32 × Ipv4Address × Nat) : Prop :=
  s.now = now ∧ s.routingTable.Holds now d tr

/-- An entry that may be written to the table without a change for `d`. -/
def Agrees (now : Int) (d : Ipv4Address) (tr : BitVec 32 × Ipv4Address × Nat) (e : RoutingTableEntry) : Prop :=
  (e.destination = d → e.triple = tr) ∧ (e.flag = .INVALID → now ≤ e.lifeTime)

variable {s : RoutingProtocol} {now : Int} {d id : Ipv4Address} {tr : BitVec 32 × Ipv4Address × Nat} {e : RoutingTableEntry}

theorem Agrees.insertPrecursor (h : Agrees now d tr e) (id : Ipv4Address) : Agrees now d tr (e.insertPrecursor id) := by
  obtain ⟨htriple, hlife⟩ := h
  constructor
  · simpa using htriple
  · simpa using hlife

theorem agrees_initial (hd : d ≠ noAddress) : Agrees now d tr (.initial now) := by
  constructor
  · intro h
    exact absurd h.symm hd
  · intro h
    cases h

theorem agrees_of_ne (hne : e.destination ≠ d) (hlife : e.flag = .INVALID → now ≤ e.lifeTime) : Agrees now d tr e :=
  ⟨fun h => absurd h hne, hlife⟩

/-! ## The tables of the node -/

theorem Holds.lookupRoute (h : s.Holds now d tr) (id : Ipv4Address) : (s.lookupRoute id).2.Holds now d tr := by
  obtain ⟨rfl, h⟩ := h
  exact ⟨rfl, h.purge⟩

theorem Holds.agrees (h : s.Holds now d tr) (he : (s.lookupRoute id).1 = some e) : Agrees now d tr e := by
  obtain ⟨rfl, h⟩ := h
  obtain ⟨hdest, hlife⟩ := RoutingTable.purge_found he
  refine ⟨?_, hlife⟩
  intro hd
  obtain ⟨e', he', htr⟩ := h.found
  have hsame : (s.routingTable.purge s.now).entries d = some e := by
    rw [← hd, hdest]
    exact he
  rw [hsame] at he'
  cases he'
  exact htr

theorem Holds.agrees_getD (h : s.Holds now d tr) (hd : d ≠ noAddress) (id : Ipv4Address) :
    Agrees now d tr ((s.lookupRoute id).1.getD (.initial (s.lookupRoute id).2.now)) := by
  cases hfound : (s.lookupRoute id).1 with
  | none =>
    obtain ⟨rfl, -⟩ := h
    exact agrees_initial hd
  | some e => exact h.agrees hfound

theorem Holds.update (h : s.Holds now d tr) (he : Agrees now d tr e) : (s.update e).Holds now d tr := by
  obtain ⟨rfl, h⟩ := h
  exact ⟨rfl, h.update_same he.1 he.2⟩

theorem Holds.addRoute (h : s.Holds now d tr) (hne : e.destination ≠ d) : (s.addRoute e).Holds now d tr := by
  obtain ⟨rfl, h⟩ := h
  exact ⟨rfl, h.addRoute_ne hne⟩

theorem Holds.sendRerr (h : s.Holds now d tr) (nextHop : Ipv4Address) :
    (s.sendRerrWhenBreaksLinkToNextHop nextHop).Holds now d tr := by
  unfold sendRerrWhenBreaksLinkToNextHop
  have hl := h.lookupRoute nextHop
  split
  · rename_i heq
    rw [heq] at hl
    exact hl
  · rename_i heq
    rw [heq] at hl
    obtain ⟨rfl, hl⟩ := hl
    exact ⟨rfl, hl.invalidateRoutesWithDst _⟩

theorem Holds.purgeNeighbors (h : s.Holds now d tr) : s.purgeNeighbors.Holds now d tr := by
  have hall : ∀ (closed : List Neighbor) (s : RoutingProtocol), s.Holds now d tr →
      (closed.foldl (fun s nb => s.sendRerrWhenBreaksLinkToNextHop nb.neighborAddress) s).Holds now d tr := by
    intro closed
    induction closed with
    | nil => exact fun _ h => h
    | cons nb closed ih => exact fun s h => ih _ (h.sendRerr nb.neighborAddress)
  exact hall _ s h

theorem Holds.updateNeighbor (h : s.Holds now d tr) (addr : Ipv4Address) (expire : Int) :
    (s.updateNeighbor addr expire).Holds now d tr := by
  unfold RoutingProtocol.updateNeighbor
  split
  · exact h
  · exact Holds.purgeNeighbors h

/-! ## Requests -/

theorem Holds.sendReply (h : s.Holds now d tr) (rreqHeader : RreqHeader) (toOrigin : RoutingTableEntry) :
    (s.sendReply rreqHeader toOrigin).1.Holds now d tr := by
  unfold RoutingProtocol.sendReply
  dsimp only
  split <;> exact h

theorem Holds.sendReplyByIntermediateNode {toDst toOrigin : RoutingTableEntry} (h : s.Holds now d tr)
    (hdst : Agrees now d tr toDst) (horigin : Agrees now d tr toOrigin) (gratRep : Bool) :
    (s.sendReplyByIntermediateNode toDst toOrigin gratRep).1.Holds now d tr := by
  unfold RoutingProtocol.sendReplyByIntermediateNode
  apply Holds.update
  · apply Holds.update
    · split
      · exact h.lookupRoute _
      · exact h
    · exact hdst.insertPrecursor _
  · exact horigin.insertPrecursor _

theorem Holds.answerRequest (h : s.Holds now d tr) (hd : d ≠ noAddress) (ttl : Nat) (rreqHeader : RreqHeader)
    (src : Ipv4Address) : (s.answerRequest ttl rreqHeader src).1.Holds now d tr := by
  unfold RoutingProtocol.answerRequest
  split
  · exact (h.lookupRoute _).sendReply _ _
  · have hl := h.lookupRoute rreqHeader.dst
    split
    · rename_i heq
      rw [heq] at hl
      exact hl
    · rename_i toDst s' heq
      rw [heq] at hl
      have hdst : Agrees now d tr toDst := h.agrees (congrArg Prod.fst heq)
      split
      · exact hl
      · split
        · split
          · exact (hl.lookupRoute _).sendReplyByIntermediateNode hdst (hl.agrees_getD hd _) _
          · exact hl
        · exact hl

theorem Holds.routeToNeighbor {src : Ipv4Address} (h : s.Holds now d tr) (hne : src ≠ d) (rreqHeader : RreqHeader)
    (receiver : Ipv4Address) : (s.routeToNeighbor rreqHeader receiver src).Holds now d tr := by
  unfold RoutingProtocol.routeToNeighbor
  have hl := h.lookupRoute src
  split
  · rename_i heq
    rw [heq] at hl
    exact hl.addRoute hne
  · rename_i toNeighbor s' heq
    rw [heq] at hl
    have hdest : toNeighbor.destination = src := (RoutingTable.purge_found (congrArg Prod.fst heq)).1
    apply hl.update
    apply agrees_of_ne
    · exact fun hsrc => hne (hdest.symm.trans hsrc)
    · intro hflag
      cases hflag

/-- The entry for `d`, without what has expired. -/
def stored (s : RoutingProtocol) (d : Ipv4Address) : Option RoutingTableEntry := (s.routingTable.purge s.now).entries d

/-- The sequence number a request leaves for its originator. -/
def originSeqno (toOrigin : Option RoutingTableEntry) (seqno : BitVec 32) : BitVec 32 :=
  match toOrigin with
  | none => seqno
  | some e => if e.validSeqNo ∧ ¬ newer seqno e.seqNo then e.seqNo else seqno

theorem holds_create {iface : Nat} {seqNo : BitVec 32} {hops : Nat} {nextHop : Ipv4Address} {lifeTime : Int} {validSeqNo : Bool}
    (hnone : (s.lookupRoute d).1 = none) :
    ((s.lookupRoute d).2.addRoute (.create s.now iface d validSeqNo seqNo hops nextHop lifeTime)).Holds s.now d
      (seqNo, nextHop, hops) := by
  have htwice : ((s.routingTable.purge s.now).purge s.now).entries d = none := by
    have hone : (s.routingTable.purge s.now).entries d = none := hnone
    rw [RoutingTable.entries_purge, hone]
    rfl
  refine ⟨rfl, ?_⟩
  apply RoutingTable.holds_addRoute rfl htwice
  intro hflag
  cases hflag

theorem holds_found (he : (s.lookupRoute d).1 = some e) : (s.lookupRoute d).2.Holds s.now d e.triple :=
  ⟨rfl, RoutingTable.holds_purge he⟩

theorem Holds.replace {rt : RoutingTableEntry} (h : s.Holds now d tr) (hd : rt.destination = d)
    (hlife : rt.flag = .INVALID → now ≤ rt.lifeTime) : (s.update rt).Holds now d rt.triple := by
  obtain ⟨rfl, h⟩ := h
  exact ⟨rfl, h.update_self hd hlife⟩

theorem triple_reversed (rreqHeader : RreqHeader) (receiver src : Ipv4Address) (toOrigin : RoutingTableEntry) :
    (s.reversed rreqHeader receiver src toOrigin).triple =
      (originSeqno (some toOrigin) rreqHeader.originSeqno, src, rreqHeader.hopCount) := by
  simp only [reversed, originSeqno, RoutingTableEntry.triple]
  cases toOrigin.validSeqNo <;> cases newer rreqHeader.originSeqno toOrigin.seqNo <;> simp

theorem holds_routeToOrigin (s : RoutingProtocol) (rreqHeader : RreqHeader) (receiver src : Ipv4Address) :
    (s.routeToOrigin rreqHeader receiver src).Holds s.now rreqHeader.origin
      (originSeqno (s.stored rreqHeader.origin) rreqHeader.originSeqno, src, rreqHeader.hopCount) := by
  unfold routeToOrigin
  cases hfound : s.stored rreqHeader.origin with
  | none =>
    have heq : s.lookupRoute rreqHeader.origin = (none, (s.lookupRoute rreqHeader.origin).2) := Prod.ext hfound rfl
    rw [heq]
    exact holds_create hfound
  | some toOrigin =>
    have heq : s.lookupRoute rreqHeader.origin = (some toOrigin, (s.lookupRoute rreqHeader.origin).2) := Prod.ext hfound rfl
    rw [heq, ← triple_reversed rreqHeader receiver src toOrigin]
    apply (holds_found hfound).replace
    · exact (RoutingTable.purge_found hfound).1
    · intro hflag
      exact RoutingTableEntry.le_extended _ ((RoutingTable.purge_found hfound).2 hflag)

theorem ignored_table (s : RoutingProtocol) (rreqHeader : RreqHeader) (src : Ipv4Address) :
    (s.ignored rreqHeader src).2.now = s.now ∧
      (s.ignored rreqHeader src).2.routingTable = s.routingTable.purge s.now := by
  unfold ignored isDuplicate
  dsimp only
  split
  · exact ⟨rfl, rfl⟩
  · split <;> exact ⟨rfl, rfl⟩

/-! ## Replies -/

theorem Holds.acknowledge (h : s.Holds now d tr) (rrepHeader : RrepHeader) (sender : Ipv4Address) :
    (s.acknowledge rrepHeader sender).1.Holds now d tr := by
  unfold RoutingProtocol.acknowledge
  split
  · exact h.lookupRoute sender
  · exact h

theorem socketAddresses_acknowledge (s : RoutingProtocol) (rrepHeader : RrepHeader) (sender : Ipv4Address) :
    (s.acknowledge rrepHeader sender).1.socketAddresses = s.socketAddresses := by
  unfold RoutingProtocol.acknowledge
  split <;> rfl

theorem Holds.updatePrecursors {toOrigin : RoutingTableEntry} (h : s.Holds now d tr) (hd : d ≠ noAddress)
    (horigin : Agrees now d tr toOrigin) (dst : Ipv4Address) : (s.updatePrecursors dst toOrigin).Holds now d tr := by
  have hl : (s.lookupValidRoute dst).2.Holds now d tr := h.lookupRoute dst
  unfold RoutingProtocol.updatePrecursors
  split
  · rename_i heq
    rw [heq] at hl
    exact hl
  · rename_i toDst s' heq
    rw [heq] at hl
    have hfound : (s.lookupRoute dst).1 = some toDst := by
      have hvalid := congrArg Prod.fst heq
      exact (Option.filter_eq_some_iff.mp hvalid).1
    have hdst : Agrees now d tr toDst := h.agrees hfound
    have hone := hl.update (hdst.insertPrecursor toOrigin.nextHop)
    have htwo := (hone.lookupRoute toDst.nextHop).update
      ((hone.agrees_getD hd toDst.nextHop).insertPrecursor toOrigin.nextHop)
    have hthree := htwo.update (horigin.insertPrecursor toDst.nextHop)
    exact (hthree.lookupRoute toOrigin.nextHop).update
      ((hthree.agrees_getD hd toOrigin.nextHop).insertPrecursor toDst.nextHop)

theorem Holds.forwardReply (h : s.Holds now d tr) (hd : d ≠ noAddress) (ttl : Nat) (rrepHeader : RrepHeader) :
    (s.forwardReply ttl rrepHeader).1.Holds now d tr := by
  have hl := h.lookupRoute rrepHeader.origin
  unfold RoutingProtocol.forwardReply
  split
  · rename_i heq
    rw [heq] at hl
    exact hl
  · rename_i toOrigin s' heq
    rw [heq] at hl
    have horigin : Agrees now d tr toOrigin := h.agrees (congrArg Prod.fst heq)
    split
    · exact hl
    · have hlonger : Agrees now d tr
          { toOrigin with lifeTime := max s'.activeRouteTimeout (toOrigin.getLifeTime s'.now) + s'.now } := by
        obtain ⟨htriple, hlife⟩ := horigin
        obtain ⟨rfl, -⟩ := hl
        refine ⟨htriple, ?_⟩
        exact fun hflag => RoutingTableEntry.le_extended _ (hlife hflag)
      exact (hl.update hlonger).updatePrecursors hd hlonger rrepHeader.dst

/-- What is known of the destination is not older than the reply, nor worse. -/
def Fresher (rrepHeader : RrepHeader) (toDst : RoutingTableEntry) : Prop :=
  toDst.validSeqNo ∧ ¬ newer rrepHeader.dstSeqno toDst.seqNo ∧
    (rrepHeader.dstSeqno = toDst.seqNo → toDst.flag = .VALID ∧ toDst.hops ≤ rrepHeader.hopCount)

instance (rrepHeader : RrepHeader) (toDst : RoutingTableEntry) : Decidable (Fresher rrepHeader toDst) :=
  inferInstanceAs (Decidable (_ ∧ _))

theorem replaces_iff (rrepHeader : RrepHeader) (toDst : RoutingTableEntry) :
    replaces rrepHeader toDst ↔ ¬ Fresher rrepHeader toDst := by
  unfold replaces Fresher
  cases toDst.validSeqNo
  · simp
  · cases newer rrepHeader.dstSeqno toDst.seqNo
    · by_cases hseq : rrepHeader.dstSeqno = toDst.seqNo
      · by_cases hflag : toDst.flag = .VALID <;> simp [hseq, hflag]
      · simp [hseq]
    · simp

def told (rrepHeader : RrepHeader) (sender : Ipv4Address) : BitVec 32 × Ipv4Address × Nat :=
  (rrepHeader.dstSeqno, sender, rrepHeader.hopCount)

def adopted (toDst : Option RoutingTableEntry) (rrepHeader : RrepHeader) (sender : Ipv4Address) : BitVec 32 × Ipv4Address × Nat :=
  match toDst with
  | none => told rrepHeader sender
  | some toDst => if Fresher rrepHeader toDst then toDst.triple else told rrepHeader sender

/-- The node that looks for the destination itself takes every reply. -/
def dstTriple (s : RoutingProtocol) (rrepHeader : RrepHeader) (sender : Ipv4Address) : BitVec 32 × Ipv4Address × Nat :=
  if s.isMyOwnAddress rrepHeader.origin ∧ (s.stored rrepHeader.dst).any (fun toDst => toDst.flag = .IN_SEARCH) then
    told rrepHeader sender
  else adopted (s.stored rrepHeader.dst) rrepHeader sender

theorem Holds.newEntry {rrepHeader : RrepHeader} (h : s.Holds now rrepHeader.dst tr) (receiver sender : Ipv4Address) :
    (s.update (s.newEntry rrepHeader receiver sender)).Holds now rrepHeader.dst (told rrepHeader sender) := by
  apply h.replace rfl
  intro hflag
  cases hflag

theorem routeToDst_spec (s : RoutingProtocol) (rrepHeader : RrepHeader) (receiver sender : Ipv4Address) :
    ((s.routeToDst rrepHeader receiver sender).1.flag = .IN_SEARCH ↔
      (s.stored rrepHeader.dst).any (fun toDst => toDst.flag = .IN_SEARCH)) ∧
    (s.routeToDst rrepHeader receiver sender).2.socketAddresses = s.socketAddresses ∧
    (s.routeToDst rrepHeader receiver sender).2.Holds s.now rrepHeader.dst
      (adopted (s.stored rrepHeader.dst) rrepHeader sender) := by
  unfold routeToDst
  cases hfound : s.stored rrepHeader.dst with
  | none =>
    have heq : s.lookupRoute rrepHeader.dst = (none, (s.lookupRoute rrepHeader.dst).2) := Prod.ext hfound rfl
    rw [heq]
    refine ⟨?_, rfl, holds_create hfound⟩
    simp [RoutingTableEntry.initial, RoutingTableEntry.create]
  | some toDst =>
    have heq : s.lookupRoute rrepHeader.dst = (some toDst, (s.lookupRoute rrepHeader.dst).2) := Prod.ext hfound rfl
    rw [heq]
    have hheld := holds_found hfound
    refine ⟨by simp, ?_, ?_⟩
    · dsimp only
      split <;> rfl
    · by_cases hfresh : Fresher rrepHeader toDst
      · have hkept : replaces rrepHeader toDst = false := by simpa [hfresh] using replaces_iff rrepHeader toDst
        simpa [adopted, hkept, hfresh] using hheld
      · have hreplaced : replaces rrepHeader toDst = true := (replaces_iff rrepHeader toDst).mpr hfresh
        simpa [adopted, hreplaced, hfresh] using hheld.newEntry receiver sender

theorem holds_finishReply {rrepHeader : RrepHeader} (h : s.Holds now rrepHeader.dst tr) (receiver sender : Ipv4Address)
    (toDst : RoutingTableEntry) : (s.finishReply rrepHeader receiver sender toDst).Holds now rrepHeader.dst
      (if toDst.flag = .IN_SEARCH then told rrepHeader sender else tr) := by
  unfold finishReply
  by_cases hflag : toDst.flag = .IN_SEARCH
  · simp only [hflag, if_true]
    exact (h.newEntry receiver sender).lookupRoute _
  · simp only [hflag, if_false]
    exact h.lookupRoute _

theorem recvReply_holds (s : RoutingProtocol) (ttl : Nat) (rrepHeader : RrepHeader) (receiver sender : Ipv4Address)
    (hhello : rrepHeader.dst ≠ rrepHeader.origin) (hd : rrepHeader.dst ≠ noAddress) :
    (s.recvReply ttl rrepHeader receiver sender).1.Holds s.now rrepHeader.dst (s.dstTriple rrepHeader.received sender) := by
  have hne : ¬ rrepHeader.received.dst = rrepHeader.received.origin := hhello
  obtain ⟨hsearch, hsockets, hroute⟩ := routeToDst_spec s rrepHeader.received receiver sender
  unfold recvReply dstTriple
  simp only [hne, if_false]
  generalize s.routeToDst rrepHeader.received receiver sender = p at hsearch hsockets hroute ⊢
  obtain ⟨toDst, s₁⟩ := p
  have hack := hroute.acknowledge rrepHeader.received sender
  have hsockets₂ := socketAddresses_acknowledge s₁ rrepHeader.received sender
  dsimp only at hsearch hsockets hack ⊢
  generalize s₁.acknowledge rrepHeader.received sender = q at hack hsockets₂ ⊢
  obtain ⟨s₂, acks⟩ := q
  dsimp only at hack hsockets₂ ⊢
  have hown : s₂.isMyOwnAddress rrepHeader.received.origin = s.isMyOwnAddress rrepHeader.received.origin := by
    unfold isMyOwnAddress
    rw [hsockets₂, hsockets]
  simp only [hown, ← hsearch]
  by_cases hmine : s.isMyOwnAddress rrepHeader.received.origin
  · have hend := @holds_finishReply _ _ _ { rrepHeader.received with ackRequired := false } hack receiver sender toDst
    simp only [hmine, true_and, if_true]
    exact hend
  · have hpass := hack.forwardReply hd ttl { rrepHeader.received with ackRequired := false }
    simp only [hmine]
    exact hpass

theorem holds_routeOfHello (s : RoutingProtocol) (rrepHeader : RrepHeader) (receiver : Ipv4Address) :
    (s.routeOfHello rrepHeader receiver).Holds s.now rrepHeader.dst (rrepHeader.dstSeqno, rrepHeader.dst, 1) := by
  unfold routeOfHello
  cases hfound : s.stored rrepHeader.dst with
  | none =>
    have heq : s.lookupRoute rrepHeader.dst = (none, (s.lookupRoute rrepHeader.dst).2) := Prod.ext hfound rfl
    rw [heq]
    exact holds_create hfound
  | some toNeighbor =>
    have heq : s.lookupRoute rrepHeader.dst = (some toNeighbor, (s.lookupRoute rrepHeader.dst).2) := Prod.ext hfound rfl
    rw [heq]
    apply (holds_found hfound).replace
    · exact (RoutingTable.purge_found hfound).1
    · intro hflag
      cases hflag

theorem processHello_holds (s : RoutingProtocol) (rrepHeader : RrepHeader) (receiver : Ipv4Address) :
    (s.processHello rrepHeader receiver).Holds s.now rrepHeader.dst (rrepHeader.dstSeqno, rrepHeader.dst, 1) := by
  have hroute := holds_routeOfHello s rrepHeader receiver
  unfold processHello
  dsimp only
  split
  · exact hroute.updateNeighbor _ _
  · exact hroute

theorem recvRequest_holds (s : RoutingProtocol) (ttl : Nat) (rreqHeader : RreqHeader) (receiver src : Ipv4Address)
    (hseen : (s.ignored rreqHeader src).1 = false) (hne : rreqHeader.origin ≠ src) (hd : rreqHeader.origin ≠ noAddress) :
    (s.recvRequest ttl rreqHeader receiver src).1.Holds s.now rreqHeader.origin
      (originSeqno (s.stored rreqHeader.origin) rreqHeader.originSeqno, src, rreqHeader.received.hopCount) := by
  obtain ⟨hnow, htable⟩ := ignored_table s rreqHeader src
  have heq : s.ignored rreqHeader src = (false, (s.ignored rreqHeader src).2) := Prod.ext hseen rfl
  have hroute := holds_routeToOrigin (s.ignored rreqHeader src).2 rreqHeader.received receiver src
  have hstored : (s.ignored rreqHeader src).2.stored rreqHeader.origin = s.stored rreqHeader.origin := by
    unfold stored
    rw [hnow, htable]
    exact s.routingTable.entries_purge_purge s.now rreqHeader.origin
  have hsame : rreqHeader.received.origin = rreqHeader.origin := rfl
  rw [hnow, hsame, hstored] at hroute
  have hneighbor := hroute.routeToNeighbor hne.symm rreqHeader.received receiver
  unfold recvRequest
  rw [heq]
  exact (hneighbor.updateNeighbor _ _).answerRequest hd ttl _ src

theorem recvRequest_ignored (s : RoutingProtocol) (ttl : Nat) (rreqHeader : RreqHeader) (receiver src : Ipv4Address)
    (hseen : (s.ignored rreqHeader src).1 = true) :
    (s.recvRequest ttl rreqHeader receiver src).1.routingTable = s.routingTable.purge s.now := by
  have heq : s.ignored rreqHeader src = (true, (s.ignored rreqHeader src).2) := Prod.ext hseen rfl
  unfold recvRequest
  rw [heq]
  exact (ignored_table s rreqHeader src).2

/-- The sequence number, the next hop and the hop count that are stored for `d`. -/
def tripleFor (s : RoutingProtocol) (d : Ipv4Address) : Option (BitVec 32 × Ipv4Address × Nat) :=
  (s.routingTable.entries d).map RoutingTableEntry.triple

theorem Holds.tripleFor (h : s.Holds now d tr) : s.tripleFor d = some tr := by
  obtain ⟨-, e, he, rfl, -⟩ := h
  unfold RoutingProtocol.tripleFor
  rw [he]
  rfl

/-- A request always moves the route to its originator, and a Hello the one to its sender; of a reply and the route that
is there, the fresher one stays. -/
theorem route_updated (s : RoutingProtocol) (ttl : Nat) (d receiver sender : Ipv4Address) (hne : d ≠ sender)
    (hd : d ≠ noAddress) : (∀ rreqHeader : RreqHeader, rreqHeader.origin = d →
      (s.recvRequest ttl rreqHeader receiver sender).1.tripleFor d =
        if (s.ignored rreqHeader sender).1 then (s.stored d).map RoutingTableEntry.triple
        else some (originSeqno (s.stored d) rreqHeader.originSeqno, sender, (rreqHeader.hopCount + 1) % 256)) ∧
    (∀ rrepHeader : RrepHeader, rrepHeader.dst = d → rrepHeader.origin ≠ d →
      (s.recvReply ttl rrepHeader receiver sender).1.tripleFor d =
        if s.isMyOwnAddress rrepHeader.origin ∧ (s.stored d).any (fun toDst => toDst.flag = .IN_SEARCH) then
          some (told rrepHeader.received sender) else some (adopted (s.stored d) rrepHeader.received sender)) ∧
    (∀ rrepHeader : RrepHeader, rrepHeader.dst = d → rrepHeader.origin = d →
      (s.recvReply ttl rrepHeader receiver sender).1.tripleFor d = some (rrepHeader.dstSeqno, d, 1)) := by
  refine ⟨?_, ?_, ?_⟩
  · rintro rreqHeader rfl
    cases hseen : (s.ignored rreqHeader sender).1 with
    | true =>
      rw [if_pos rfl]
      unfold tripleFor
      rw [recvRequest_ignored s ttl rreqHeader receiver sender hseen]
      rfl
    | false => exact (recvRequest_holds s ttl rreqHeader receiver sender hseen hne hd).tripleFor
  · rintro rrepHeader rfl hhello
    rw [(recvReply_holds s ttl rrepHeader receiver sender hhello.symm hd).tripleFor, ← apply_ite some]
    rfl
  · rintro rrepHeader rfl hhello
    have heq : rrepHeader.received.dst = rrepHeader.received.origin := hhello.symm
    have hheld := (processHello_holds s rrepHeader.received receiver).tripleFor
    unfold recvReply
    dsimp only
    rw [if_pos heq]
    exact hheld

/-- A node with a route to 1 over 2 and the sequence number 10. -/
def routed : RoutingProtocol where
  routingTable :=
    RoutingTable.put ⟨fun _ => none, 5, by intro id e h; cases h⟩ (.create 0 0 1 true 10 2 2 100)
  rreqIdCache := []
  nb := []
  seqNo := 0
  now := 0
  socketAddresses := []
  interfaceForAddress := fun _ => 0
  netTraversalTime := 20
  nodeTraversalTime := 1
  pathDiscoveryTime := 40
  activeRouteTimeout := 30
  myRouteTimeout := 60
  helloInterval := 10
  allowedHelloLoss := 2
  enableHello := false

def request (seqno : BitVec 32) : RreqHeader where
  gratuitousRrep := false
  destinationOnly := false
  unknownSeqno := false
  hopCount := 3
  id := 7
  dst := 9
  dstSeqno := 0
  origin := 1
  originSeqno := seqno

/-- The next hop and the hop count of an older request beside the sequence number that was there. -/
theorem older_request_moves :
    newer 10 (request 5).originSeqno = true ∧ (routed.stored 1).map RoutingTableEntry.triple = some (10, 2, 2) ∧
      (routed.stored 1).map (fun e => (e.flag, e.validSeqNo)) = some (.VALID, true) ∧
      (routed.recvRequest 1 (request 5) 0 3).1.tripleFor 1 = some (10, 3, 4) := by
  decide

theorem newer_request_moves : (routed.recvRequest 1 (request 11) 0 3).1.tripleFor 1 = some (11, 3, 4) := by
  rw [(route_updated routed 1 1 0 3 (by decide) (by decide)).1 (request 11) rfl]
  decide

end RoutingProtocol

end Aodv

end Ns3
