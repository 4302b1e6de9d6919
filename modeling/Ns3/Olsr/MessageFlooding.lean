import Ns3.Olsr.MessageHeader
import Ns3.Olsr.TopologySet
import Ns3.Olsr.HnaRoutes

/-!
# Processing and forwarding of messages

What a node does with a TC, MID or HNA message: it processes those that it does
not know, and forwards them by the default algorithm. It knows a message by its
duplicate tuple, which is there only once the message was considered for
forwarding.
-/

namespace Ns3

open MessageHeader (Mid Tc Hna)

structure TimedIfaceAssocTuple extends IfaceAssocTuple where
  time : Int
  deriving DecidableEq

structure TimedAssociationTuple extends AssociationTuple where
  expirationTime : Int
  deriving DecidableEq

structure MprSelectorTuple where
  mainAddr : Ipv4Address
  expirationTime : Int
  deriving DecidableEq

structure DuplicateTuple where
  address : Ipv4Address
  sequenceNumber : UInt16
  retransmitted : Bool
  ifaceList : List Ipv4Address
  expirationTime : Int
  deriving DecidableEq

/-- The sets that messages change, and those that are read on the way. -/
structure Repositories where
  linkSet : List SymLinkTuple
  neighborSet : List NeighborTuple
  twoHopNeighborSet : List TwoHopNeighborTuple
  mprSelectorSet : List MprSelectorTuple
  topologySet : TopologySet
  ifaceAssocSet : List TimedIfaceAssocTuple
  associationSet : List TimedAssociationTuple
  deriving DecidableEq

/-- In nanoseconds: `C * (1 + a / 16) * 2^b` seconds, with `C` a sixteenth. -/
def emfToTime (olsrFormat : UInt8) : Int := (16 + (olsrFormat >>> 4).toNat) * 2 ^ (olsrFormat &&& 0xf).toNat * 3906250

def OLSR_DUP_HOLD_TIME : Int := 30000000000

def MessageHeader.getVTime (msg : MessageHeader) : Int := emfToTime msg.m_vTime

/-- The first element that `p` holds for is changed. -/
def updateFirst {α : Type} (p : α → Bool) (f : α → α) : List α → List α
  | [] => []
  | a :: l => if p a then f a :: l else a :: updateFirst p f l

namespace Repositories

def getMainAddress (s : Repositories) (iface_addr : Ipv4Address) : Ipv4Address :=
  match s.ifaceAssocSet.find? fun tuple => tuple.ifaceAddr = iface_addr with
  | some tuple => tuple.mainAddr
  | none => iface_addr

def findMprSelectorTuple (s : Repositories) (mainAddr : Ipv4Address) : Option MprSelectorTuple :=
  s.mprSelectorSet.find? fun it => it.mainAddr = mainAddr

def processTc (s : Repositories) (now : Int) (msg : MessageHeader) (tc : Tc) (senderIface : Ipv4Address) : Repositories :=
  let info := TopologyInfo.processTc ⟨s.linkSet, s.topologySet⟩ now
    ⟨msg.m_originatorAddress, msg.getVTime, tc.ansn, tc.neighborAddresses⟩ senderIface
  { s with topologySet := info.topologySet }

/-- Step 2 of `ProcessMid`, for one interface address. -/
def associate (now : Int) (msg : MessageHeader) (ifaceAssoc : List TimedIfaceAssocTuple) (ifaceAddr : Ipv4Address) :
    List TimedIfaceAssocTuple :=
  if ifaceAssoc.any fun tuple => tuple.ifaceAddr = ifaceAddr ∧ tuple.mainAddr = msg.m_originatorAddress then
    ifaceAssoc.map fun tuple =>
      if tuple.ifaceAddr = ifaceAddr ∧ tuple.mainAddr = msg.m_originatorAddress then { tuple with time := now + msg.getVTime }
      else tuple
  else ifaceAssoc ++ [⟨⟨ifaceAddr, msg.m_originatorAddress⟩, now + msg.getVTime⟩]

def processMid (s : Repositories) (now : Int) (msg : MessageHeader) (mid : Mid) (senderIface : Ipv4Address) : Repositories :=
  match findSymLinkTuple s.linkSet senderIface now with
  | none => s
  | some _ =>
    let s := { s with ifaceAssocSet := mid.interfaceAddresses.foldl (associate now msg) s.ifaceAssocSet }
    { s with
      neighborSet := s.neighborSet.map fun neighbor =>
        { neighbor with neighborMainAddr := s.getMainAddress neighbor.neighborMainAddr }
      twoHopNeighborSet := s.twoHopNeighborSet.map fun twoHopNeighbor =>
        ⟨s.getMainAddress twoHopNeighbor.neighborMainAddr, s.getMainAddress twoHopNeighbor.twoHopNeighborAddr⟩ }

/-- Step 2 of `ProcessHna`, for one association. -/
def announce (now : Int) (msg : MessageHeader) (associationSet : List TimedAssociationTuple) (it : MessageHeader.Association) :
    List TimedAssociationTuple :=
  let tuple : AssociationTuple := ⟨msg.m_originatorAddress, it.address, it.mask⟩
  if associationSet.any fun it => it.toAssociationTuple = tuple then
    updateFirst (fun it => it.toAssociationTuple = tuple) (fun it => { it with expirationTime := now + msg.getVTime })
      associationSet
  else associationSet ++ [⟨tuple, now + msg.getVTime⟩]

def processHna (s : Repositories) (now : Int) (msg : MessageHeader) (hna : Hna) (senderIface : Ipv4Address) : Repositories :=
  match findSymLinkTuple s.linkSet senderIface now with
  | none => s
  | some _ => { s with associationSet := hna.associations.foldl (announce now msg) s.associationSet }

/-- The switch over the message types. HELLO messages are not flooded and are left out. -/
def process (s : Repositories) (now : Int) (msg : MessageHeader) (senderIface : Ipv4Address) : Option Repositories :=
  match msg.m_message with
  | .hello _ => none
  | .tc tc => some (s.processTc now msg tc senderIface)
  | .mid mid => some (s.processMid now msg mid senderIface)
  | .hna hna => some (s.processHna now msg hna senderIface)

end Repositories

structure FloodNode where
  m_mainAddress : Ipv4Address
  m_state : Repositories
  duplicateSet : List DuplicateTuple
  m_queuedMessages : List MessageHeader

namespace FloodNode

def isDuplicate (address : Ipv4Address) (sequenceNumber : UInt16) (it : DuplicateTuple) : Bool :=
  it.address = address ∧ it.sequenceNumber = sequenceNumber

def findDuplicateTuple (n : FloodNode) (address : Ipv4Address) (sequenceNumber : UInt16) : Option DuplicateTuple :=
  n.duplicateSet.find? (isDuplicate address sequenceNumber)

def queueMessage (n : FloodNode) (message : MessageHeader) : FloodNode :=
  { n with m_queuedMessages := n.m_queuedMessages ++ [message] }

def relayed (msg : MessageHeader) : MessageHeader :=
  { msg with m_timeToLive := msg.m_timeToLive - 1, m_hopCount := msg.m_hopCount + 1 }

/-- The sender is a MPR selector, and the message may go on. -/
def toRetransmit (n : FloodNode) (msg : MessageHeader) (senderAddress : Ipv4Address) : Bool :=
  msg.m_timeToLive > 1 ∧ (n.m_state.findMprSelectorTuple (n.m_state.getMainAddress senderAddress)).isSome

/-- The duplicate tuple that was found is updated; or there is a new one. -/
def updateDuplicate (n : FloodNode) (now : Int) (msg : MessageHeader) (duplicated : Option DuplicateTuple)
    (localIface : Ipv4Address) (retransmitted : Bool) : FloodNode :=
  match duplicated with
  | some _ =>
    { n with
      duplicateSet := updateFirst (isDuplicate msg.m_originatorAddress msg.m_messageSequenceNumber)
        (fun it => { it with
          expirationTime := now + OLSR_DUP_HOLD_TIME
          retransmitted := retransmitted
          ifaceList := it.ifaceList ++ [localIface] }) n.duplicateSet }
  | none =>
    { n with
      duplicateSet := n.duplicateSet ++ [⟨msg.m_originatorAddress, msg.m_messageSequenceNumber, retransmitted, [localIface],
        now + OLSR_DUP_HOLD_TIME⟩] }

def forwardDefault (n : FloodNode) (now : Int) (olsrMessage : MessageHeader) (duplicated : Option DuplicateTuple)
    (localIface senderAddress : Ipv4Address) : FloodNode :=
  match findSymLinkTuple n.m_state.linkSet senderAddress now with
  | none => n
  | some _ =>
    if duplicated.any (·.retransmitted) then n
    else if n.toRetransmit olsrMessage senderAddress then
      (n.queueMessage (relayed olsrMessage)).updateDuplicate now olsrMessage duplicated localIface true
    else n.updateDuplicate now olsrMessage duplicated localIface false

def recvMessage (n : FloodNode) (now : Int) (msg : MessageHeader) (receiverIfaceAddr senderIfaceAddr : Ipv4Address) :
    Option FloodNode :=
  if msg.m_timeToLive = 0 ∨ msg.m_originatorAddress = n.m_mainAddress then some n
  else
    match n.findDuplicateTuple msg.m_originatorAddress msg.m_messageSequenceNumber with
    | none =>
      (n.m_state.process now msg senderIfaceAddr).map fun m_state =>
        { n with m_state := m_state }.forwardDefault now msg none receiverIfaceAddr senderIfaceAddr
    | some duplicated =>
      if msg.getMessageType = .HELLO_MESSAGE then none
      else if receiverIfaceAddr ∈ duplicated.ifaceList then some n
      else some (n.forwardDefault now msg (some duplicated) receiverIfaceAddr senderIfaceAddr)

end FloodNode

end Ns3
