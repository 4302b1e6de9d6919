import Ns3.Aodv.RoutingTable

/-!
# Requests and replies of AODV

What a node does with the RREQs and the RREPs it receives. The packets that
wait for a route, their timers and the RERRs are left out: no entry of the
routing table depends on them.
-/

namespace Ns3

namespace Aodv

structure RreqHeader where
  gratuitousRrep : Bool
  destinationOnly : Bool
  unknownSeqno : Bool
  hopCount : Nat
  id : BitVec 32
  dst : Ipv4Address
  dstSeqno : BitVec 32
  origin : Ipv4Address
  originSeqno : BitVec 32
  deriving DecidableEq

def RreqHeader.received (h : RreqHeader) : RreqHeader := { h with hopCount := (h.hopCount + 1) % 256 }

/-- The life time is in milliseconds. -/
structure RrepHeader where
  ackRequired : Bool
  prefixSize : Nat
  hopCount : Nat
  dst : Ipv4Address
  dstSeqno : BitVec 32
  origin : Ipv4Address
  lifeTime : BitVec 32
  deriving DecidableEq

namespace RrepHeader

def create (prefixSize hopCount : Nat) (dst : Ipv4Address) (dstSeqno : BitVec 32) (origin : Ipv4Address)
    (lifeTime : Int) : RrepHeader :=
  ⟨false, prefixSize, hopCount, dst, dstSeqno, origin, BitVec.ofInt 32 (lifeTime.tdiv 1000000)⟩

def getLifeTime (h : RrepHeader) : Int := h.lifeTime.toNat * 1000000

def received (h : RrepHeader) : RrepHeader := { h with hopCount := (h.hopCount + 1) % 256 }

end RrepHeader

/-- What goes out by the socket of an interface, with its TTL. -/
inductive Message where
  | RREQ (iface : Nat) (dest : Ipv4Address) (ttl : Nat) (h : RreqHeader)
  | RREP (iface : Nat) (dest : Ipv4Address) (ttl : Nat) (h : RrepHeader)
  | RREP_ACK (iface : Nat) (dest : Ipv4Address)
  deriving DecidableEq

structure UniqueId where
  context : Ipv4Address
  id : BitVec 32
  expire : Int
  deriving DecidableEq

structure Neighbor where
  neighborAddress : Ipv4Address
  expireTime : Int
  close : Bool
  deriving DecidableEq

structure SocketAddress where
  iface : Nat
  localAddress : Ipv4Address
  mask : Ipv4Address
  broadcast : Ipv4Address

structure RoutingProtocol where
  routingTable : RoutingTable
  rreqIdCache : List UniqueId
  nb : List Neighbor
  seqNo : BitVec 32
  now : Int
  socketAddresses : List SocketAddress
  interfaceForAddress : Ipv4Address → Nat
  netTraversalTime : Int
  nodeTraversalTime : Int
  pathDiscoveryTime : Int
  activeRouteTimeout : Int
  myRouteTimeout : Int
  helloInterval : Int
  allowedHelloLoss : Nat
  enableHello : Bool

namespace RoutingProtocol

def isMyOwnAddress (s : RoutingProtocol) (src : Ipv4Address) : Bool :=
  s.socketAddresses.any fun a => a.localAddress = src

/-! ## Tables of the node -/

def lookupRoute (s : RoutingProtocol) (id : Ipv4Address) : Option RoutingTableEntry × RoutingProtocol :=
  ((s.routingTable.lookupRoute s.now id).1, { s with routingTable := (s.routingTable.lookupRoute s.now id).2 })

def lookupValidRoute (s : RoutingProtocol) (id : Ipv4Address) : Option RoutingTableEntry × RoutingProtocol :=
  ((s.routingTable.lookupValidRoute s.now id).1, { s with routingTable := (s.routingTable.lookupValidRoute s.now id).2 })

def addRoute (s : RoutingProtocol) (rt : RoutingTableEntry) : RoutingProtocol :=
  { s with routingTable := s.routingTable.addRoute s.now rt }

def update (s : RoutingProtocol) (rt : RoutingTableEntry) : RoutingProtocol :=
  { s with routingTable := s.routingTable.update rt }

/-- The request that is seen for the first time is remembered. -/
def isDuplicate (s : RoutingProtocol) (addr : Ipv4Address) (id : BitVec 32) : Bool × RoutingProtocol :=
  let kept := s.rreqIdCache.filter fun u => ¬ u.expire < s.now
  if kept.any fun u => u.context = addr ∧ u.id = id then (true, { s with rreqIdCache := kept })
  else (false, { s with rreqIdCache := kept ++ [⟨addr, id, s.pathDiscoveryTime + s.now⟩] })

def sendRerrWhenBreaksLinkToNextHop (s : RoutingProtocol) (nextHop : Ipv4Address) : RoutingProtocol :=
  match s.lookupRoute nextHop with
  | (none, s) => s
  | (some _, s) =>
    { s with
      routingTable := s.routingTable.invalidateRoutesWithDst s.now fun id =>
        s.routingTable.getListOfDestinationWithNextHop nextHop id || id = nextHop }

def purgeNeighbors (s : RoutingProtocol) : RoutingProtocol :=
  let closed := fun nb : Neighbor => nb.expireTime < s.now ∨ nb.close
  let s' := (s.nb.filter fun nb => closed nb).foldl (fun s nb => s.sendRerrWhenBreaksLinkToNextHop nb.neighborAddress) s
  { s' with nb := s.nb.filter fun nb => ¬ closed nb }

/-- Only a new neighbor has the others looked through. -/
def updateNeighbor (s : RoutingProtocol) (addr : Ipv4Address) (expire : Int) : RoutingProtocol :=
  match s.nb.findIdx? fun nb => nb.neighborAddress = addr with
  | some i => { s with nb := s.nb.modify i fun nb => { nb with expireTime := max (expire + s.now) nb.expireTime } }
  | none => purgeNeighbors { s with nb := s.nb ++ [⟨addr, expire + s.now, false⟩] }

/-! ## Replies that are sent -/

def sendReply (s : RoutingProtocol) (rreqHeader : RreqHeader) (toOrigin : RoutingTableEntry) : RoutingProtocol × List Message :=
  let s := if ¬ rreqHeader.unknownSeqno ∧ rreqHeader.dstSeqno = s.seqNo + 1 then { s with seqNo := s.seqNo + 1 } else s
  (s, [.RREP toOrigin.iface toOrigin.nextHop toOrigin.hops
    (RrepHeader.create 0 0 rreqHeader.dst s.seqNo toOrigin.destination s.myRouteTimeout)])

/-- The timer of the entry that is asked for an acknowledgment is set on a copy. -/
def sendReplyByIntermediateNode (s : RoutingProtocol) (toDst toOrigin : RoutingTableEntry) (gratRep : Bool) :
    RoutingProtocol × List Message :=
  let rrepHeader := RrepHeader.create 0 toDst.hops toDst.destination toDst.seqNo toOrigin.destination (toDst.getLifeTime s.now)
  let rrepHeader := { rrepHeader with ackRequired := toDst.hops = 1 }
  let s := if toDst.hops = 1 then (s.lookupRoute toOrigin.nextHop).2 else s
  let toDst := toDst.insertPrecursor toOrigin.nextHop
  let toOrigin := toOrigin.insertPrecursor toDst.nextHop
  let s := (s.update toDst).update toOrigin
  let gratRepHeader := RrepHeader.create 0 toOrigin.hops toOrigin.destination toOrigin.seqNo toDst.destination
    (toOrigin.getLifeTime s.now)
  (s, .RREP toOrigin.iface toOrigin.nextHop toOrigin.hops rrepHeader ::
    if gratRep then [.RREP toDst.iface toDst.nextHop toDst.hops gratRepHeader] else [])

def sendReplyAck (s : RoutingProtocol) (neighbor : Ipv4Address) : RoutingProtocol × List Message :=
  let (toNeighbor, s) := s.lookupRoute neighbor
  (s, [.RREP_ACK (toNeighbor.getD (.initial s.now)).iface neighbor])

/-! ## Requests -/

def newer (a b : BitVec 32) : Bool := 0 < (a - b).toInt

def minimalLifetime (s : RoutingProtocol) (hop : Nat) : Int := 2 * s.netTraversalTime - 2 * hop * s.nodeTraversalTime

def reversed (s : RoutingProtocol) (rreqHeader : RreqHeader) (receiver src : Ipv4Address) (toOrigin : RoutingTableEntry) :
    RoutingTableEntry :=
  { toOrigin with
    seqNo :=
      if toOrigin.validSeqNo then
        if newer rreqHeader.originSeqno toOrigin.seqNo then rreqHeader.originSeqno else toOrigin.seqNo
      else rreqHeader.originSeqno
    validSeqNo := true
    nextHop := src
    iface := s.interfaceForAddress receiver
    hops := rreqHeader.hopCount
    lifeTime := max (s.minimalLifetime rreqHeader.hopCount) (toOrigin.getLifeTime s.now) + s.now }

def routeToOrigin (s : RoutingProtocol) (rreqHeader : RreqHeader) (receiver src : Ipv4Address) : RoutingProtocol :=
  match s.lookupRoute rreqHeader.origin with
  | (none, s) =>
    s.addRoute (.create s.now (s.interfaceForAddress receiver) rreqHeader.origin true rreqHeader.originSeqno rreqHeader.hopCount
      src (s.minimalLifetime rreqHeader.hopCount))
  | (some toOrigin, s) => s.update (s.reversed rreqHeader receiver src toOrigin)

def routeToNeighbor (s : RoutingProtocol) (rreqHeader : RreqHeader) (receiver src : Ipv4Address) : RoutingProtocol :=
  match s.lookupRoute src with
  | (none, s) =>
    s.addRoute (.create s.now (s.interfaceForAddress receiver) src false rreqHeader.originSeqno 1 src s.activeRouteTimeout)
  | (some toNeighbor, s) =>
    s.update { toNeighbor with
      lifeTime := s.activeRouteTimeout + s.now
      validSeqNo := false
      seqNo := rreqHeader.originSeqno
      flag := .VALID
      iface := s.interfaceForAddress receiver
      hops := 1
      nextHop := src }

/-- To all hosts where the network has one address, to its broadcast address otherwise. -/
def forwardRequest (s : RoutingProtocol) (ttl : Nat) (rreqHeader : RreqHeader) : List Message :=
  if ttl < 2 then []
  else s.socketAddresses.map fun a =>
    .RREQ a.iface (if a.mask = 0xffffffff then 0xffffffff else a.broadcast) (ttl - 1) rreqHeader

def newEnough (toDst : RoutingTableEntry) (rreqHeader : RreqHeader) : Bool :=
  (rreqHeader.unknownSeqno ∨ 0 ≤ (toDst.seqNo - rreqHeader.dstSeqno).toInt) ∧ toDst.validSeqNo

/-- The entry for the originator is there by now. -/
def answerRequest (s : RoutingProtocol) (ttl : Nat) (rreqHeader : RreqHeader) (src : Ipv4Address) :
    RoutingProtocol × List Message :=
  if s.isMyOwnAddress rreqHeader.dst then
    let (toOrigin, s) := s.lookupRoute rreqHeader.origin
    s.sendReply rreqHeader (toOrigin.getD (.initial s.now))
  else
    match s.lookupRoute rreqHeader.dst with
    | (none, s) => (s, s.forwardRequest ttl rreqHeader)
    | (some toDst, s) =>
      if toDst.nextHop = src then (s, [])
      else if newEnough toDst rreqHeader then
        if ¬ rreqHeader.destinationOnly ∧ toDst.flag = .VALID then
          let (toOrigin, s) := s.lookupRoute rreqHeader.origin
          s.sendReplyByIntermediateNode toDst (toOrigin.getD (.initial s.now)) rreqHeader.gratuitousRrep
        else (s, s.forwardRequest ttl { rreqHeader with dstSeqno := toDst.seqNo, unknownSeqno := false })
      else (s, s.forwardRequest ttl rreqHeader)

/-- A request of a node of the blacklist, or one that was seen before, is ignored. -/
def ignored (s : RoutingProtocol) (rreqHeader : RreqHeader) (src : Ipv4Address) : Bool × RoutingProtocol :=
  let (toPrev, s) := s.lookupRoute src
  if toPrev.any fun rt => rt.blackListState then (true, s) else s.isDuplicate rreqHeader.origin rreqHeader.id

def recvRequest (s : RoutingProtocol) (ttl : Nat) (rreqHeader : RreqHeader) (receiver src : Ipv4Address) :
    RoutingProtocol × List Message :=
  match s.ignored rreqHeader src with
  | (true, s) => (s, [])
  | (false, s) =>
    let rreqHeader := rreqHeader.received
    let s := s.routeToOrigin rreqHeader receiver src
    let s := s.routeToNeighbor rreqHeader receiver src
    let s := s.updateNeighbor src (s.allowedHelloLoss * s.helloInterval)
    s.answerRequest ttl rreqHeader src

/-! ## Replies that are received -/

def newEntry (s : RoutingProtocol) (rrepHeader : RrepHeader) (receiver sender : Ipv4Address) : RoutingTableEntry :=
  .create s.now (s.interfaceForAddress receiver) rrepHeader.dst true rrepHeader.dstSeqno rrepHeader.hopCount sender
    rrepHeader.getLifeTime

def routeOfHello (s : RoutingProtocol) (rrepHeader : RrepHeader) (receiver : Ipv4Address) : RoutingProtocol :=
  match s.lookupRoute rrepHeader.dst with
  | (none, s) =>
    s.addRoute (.create s.now (s.interfaceForAddress receiver) rrepHeader.dst true rrepHeader.dstSeqno 1 rrepHeader.dst
      rrepHeader.getLifeTime)
  | (some toNeighbor, s) =>
    s.update { toNeighbor with
      lifeTime := max (s.allowedHelloLoss * s.helloInterval) (toNeighbor.getLifeTime s.now) + s.now
      seqNo := rrepHeader.dstSeqno
      validSeqNo := true
      flag := .VALID
      iface := s.interfaceForAddress receiver
      hops := 1
      nextHop := rrepHeader.dst }

def processHello (s : RoutingProtocol) (rrepHeader : RrepHeader) (receiver : Ipv4Address) : RoutingProtocol :=
  let s := s.routeOfHello rrepHeader receiver
  if s.enableHello then s.updateNeighbor rrepHeader.dst (s.allowedHelloLoss * s.helloInterval) else s

def replaces (rrepHeader : RrepHeader) (toDst : RoutingTableEntry) : Bool :=
  if ¬ toDst.validSeqNo then true
  else if newer rrepHeader.dstSeqno toDst.seqNo then true
  else if rrepHeader.dstSeqno = toDst.seqNo ∧ toDst.flag ≠ .VALID then true
  else rrepHeader.dstSeqno = toDst.seqNo ∧ rrepHeader.hopCount < toDst.hops

def routeToDst (s : RoutingProtocol) (rrepHeader : RrepHeader) (receiver sender : Ipv4Address) :
    RoutingTableEntry × RoutingProtocol :=
  match s.lookupRoute rrepHeader.dst with
  | (none, s) => (.initial s.now, s.addRoute (s.newEntry rrepHeader receiver sender))
  | (some toDst, s) => (toDst, if replaces rrepHeader toDst then s.update (s.newEntry rrepHeader receiver sender) else s)

def updatePrecursors (s : RoutingProtocol) (dst : Ipv4Address) (toOrigin : RoutingTableEntry) : RoutingProtocol :=
  match s.lookupValidRoute dst with
  | (none, s) => s
  | (some toDst, s) =>
    let s := s.update (toDst.insertPrecursor toOrigin.nextHop)
    let (toNextHopToDst, s) := s.lookupRoute toDst.nextHop
    let s := s.update ((toNextHopToDst.getD (.initial s.now)).insertPrecursor toOrigin.nextHop)
    let s := s.update (toOrigin.insertPrecursor toDst.nextHop)
    let (toNextHopToOrigin, s) := s.lookupRoute toOrigin.nextHop
    s.update ((toNextHopToOrigin.getD (.initial s.now)).insertPrecursor toDst.nextHop)

/-- A reply to this node, which ends here, and one that goes on. -/
def finishReply (s : RoutingProtocol) (rrepHeader : RrepHeader) (receiver sender : Ipv4Address) (toDst : RoutingTableEntry) :
    RoutingProtocol :=
  let s := if toDst.flag = .IN_SEARCH then s.update (s.newEntry rrepHeader receiver sender) else s
  (s.lookupRoute rrepHeader.dst).2

def forwardReply (s : RoutingProtocol) (ttl : Nat) (rrepHeader : RrepHeader) : RoutingProtocol × List Message :=
  match s.lookupRoute rrepHeader.origin with
  | (none, s) => (s, [])
  | (some toOrigin, s) =>
    if toOrigin.flag = .IN_SEARCH then (s, [])
    else
      let toOrigin := { toOrigin with lifeTime := max s.activeRouteTimeout (toOrigin.getLifeTime s.now) + s.now }
      let s := (s.update toOrigin).updatePrecursors rrepHeader.dst toOrigin
      (s, if ttl < 2 then [] else [.RREP toOrigin.iface toOrigin.nextHop (ttl - 1) rrepHeader])

def acknowledge (s : RoutingProtocol) (rrepHeader : RrepHeader) (sender : Ipv4Address) : RoutingProtocol × List Message :=
  if rrepHeader.ackRequired then s.sendReplyAck sender else (s, [])

def recvReply (s : RoutingProtocol) (ttl : Nat) (rrepHeader : RrepHeader) (receiver sender : Ipv4Address) :
    RoutingProtocol × List Message :=
  let rrepHeader := rrepHeader.received
  if rrepHeader.dst = rrepHeader.origin then (s.processHello rrepHeader receiver, [])
  else
    let (toDst, s) := s.routeToDst rrepHeader receiver sender
    let (s, acks) := s.acknowledge rrepHeader sender
    let rrepHeader := { rrepHeader with ackRequired := false }
    if s.isMyOwnAddress rrepHeader.origin then (s.finishReply rrepHeader receiver sender toDst, acks)
    else
      let (s, messages) := s.forwardReply ttl rrepHeader
      (s, acks ++ messages)

end RoutingProtocol

end Aodv

end Ns3
