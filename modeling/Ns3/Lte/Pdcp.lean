import Ns3.Lib.Machine
import Ns3.Lte.NcControl
import Ns3.Lte.CopyControl

/-!
# `LtePdcp`

The PDCP entity over two RLC entities: it passes SDUs down plain, network
coded or copied, and hands received SDUs up to its user. What it puts out is a
list of PDUs passed to an RLC and of packets handed to `m_pdcpSapUser`.
-/

namespace Ns3

inductive RlcEntity where
  | rlc1
  | rlc2
  deriving DecidableEq

/-- A PDCP PDU on its way to an RLC: the PDCP sequence number, the NC header
if there is one, the packet, and `NcArqAddTop`. -/
structure PdcpPdu where
  rlc : RlcEntity
  pdcpSn : Nat
  header : Option NcHeader
  packet : Packet
  ncArqAddTop : Nat := 0
  deriving DecidableEq

inductive PdcpOut where
  | down (q : PdcpPdu)
  | up (p : Packet)
  deriving DecidableEq

structure LtePdcp where
  ncEnable : Bool
  copyEnable : Bool
  nc : NcControl
  copy : CopyControl
  txSequenceNumber : Nat := 0
  ncRlcToSend : Nat := 0

namespace LtePdcp

def maxPdcpSn : Nat := 4095

/-- `DoTransmitPdcpSdu` and `DoTransmitPdcpSdu2`, which differ in the RLC. -/
def transmitOn (s : LtePdcp) (rlc : RlcEntity) (header : Option NcHeader) (p : Packet) (ncArqAddTop : Nat) :
    LtePdcp × PdcpOut :=
  let next := s.txSequenceNumber + 1
  ({ s with txSequenceNumber := if next > maxPdcpSn then 0 else next },
   .down { rlc := rlc, pdcpSn := s.txSequenceNumber, header := header, packet := p,
           ncArqAddTop := ncArqAddTop })

def doTransmitPdcpSdu (s : LtePdcp) (q : NcPdu) (ncArqAddTop : Nat) : LtePdcp × PdcpOut :=
  s.transmitOn .rlc1 (some q.header) q.packet ncArqAddTop

def doTransmitPdcpSdu2 (s : LtePdcp) (q : NcPdu) (ncArqAddTop : Nat) : LtePdcp × PdcpOut :=
  s.transmitOn .rlc2 (some q.header) q.packet ncArqAddTop

def toogleSend (s : LtePdcp) (q : NcPdu) (ncArqAddTop : Nat) : LtePdcp × PdcpOut :=
  let r := if s.ncRlcToSend % 2 = 0 then s.doTransmitPdcpSdu q ncArqAddTop
           else s.doTransmitPdcpSdu2 q ncArqAddTop
  ({ r.1 with ncRlcToSend := s.ncRlcToSend + 1 }, r.2)

/-! ## Transmitting -/

/-- The redundancy loop of `TriggerDoTransmitPdcpSdu`, rounds `var` on. -/
def redundancyLoop (rand : Nat → Nat → Nat) : Nat → Nat → LtePdcp → Option (LtePdcp × List PdcpOut)
  | 0, _, s => some (s, [])
  | n + 1, var, s => do
    let (nc, q) ← s.nc.makeRedundancePacket (rand var)
    let (s, o) := { s with nc := nc }.toogleSend q 0
    let (s, os) ← redundancyLoop rand n (var + 1) s
    some (s, o :: os)

def triggerDoTransmitPdcpSdu (s : LtePdcp) (p : Packet) (rand : Nat → Nat → Nat) : Option (LtePdcp × List PdcpOut) :=
  if s.ncEnable then do
    let (nc, q) ← s.nc.sendSaveAndSetTime p
    let s := { s with nc := nc }
    let ncedsize ← s.nc.getNcedSize
    let (s, o) := s.toogleSend q 0
    if ncedsize = NcControl.originalBlockSize then
      let rounds := NcControl.encodingBlockSize - NcControl.originalBlockSize
      let (s, os) ← redundancyLoop rand rounds 0 s
      if ncedsize + rounds = NcControl.encodingBlockSize then
        some ({ s with nc := { s.nc with groupnum := s.nc.groupnum + 1 },
                       ncRlcToSend := s.ncRlcToSend % 2 }, o :: os)
      else some (s, o :: os)
    else some (s, [o])
  else if s.copyEnable then do
    let (copy, q) := s.copy.sendSaveAndSetTime p
    let (s, o₁) := { s with copy := copy }.doTransmitPdcpSdu q 0
    let (copy, q) ← s.copy.makeRedundancePacket
    let (s, o₂) := { s with copy := copy }.doTransmitPdcpSdu2 q 0
    some ({ s with copy := { s.copy with groupnum := s.copy.groupnum + 1 } }, [o₁, o₂])
  else
    let (s, o) := s.transmitOn .rlc1 none p 0
    some (s, [o])

/-! ## Status reports and their timers -/

def copyArqReqSendOnce (s : LtePdcp) (g : Nat) (q : NcPdu) : Option (LtePdcp × PdcpOut) := do
  let (s, o) := s.doTransmitPdcpSdu q 0
  let buf ← s.copy.decoding g
  let buf := { buf with numStatusReport := (buf.numStatusReport + 1) % 256,
                        statusReportTimer := some (.copyExpire g q) }
  some ({ s with copy := s.copy.setDecoding g buf }, o)

def copyExpireStatusReportTimer (s : LtePdcp) (g : Nat) (q : NcPdu) : Option (LtePdcp × List PdcpOut) := do
  let buf ← s.copy.decoding g
  if buf.numStatusReport < 3 then
    let (s, o) ← s.copyArqReqSendOnce g q
    some (s, [o])
  else some (s, [])

/-- The timer is scheduled with `CopyExpireStatusReportTimer` and `m_Copy`. -/
def ncArqReqSendOnce (s : LtePdcp) (g : Nat) (q : NcPdu) : Option (LtePdcp × PdcpOut) := do
  let (s, o) := s.doTransmitPdcpSdu q 0
  let buf ← s.nc.decoding g
  let buf := { buf with numStatusReport := (buf.numStatusReport + 1) % 256,
                        statusReportTimer := some (.copyExpire g q) }
  some ({ s with nc := s.nc.setDecoding g buf }, o)

def ncExpireStatusReportTimer (s : LtePdcp) (g : Nat) (q : NcPdu) : Option (LtePdcp × List PdcpOut) := do
  let buf ← s.nc.decoding g
  if buf.numStatusReport < 3 then
    let (s, o) ← s.ncArqReqSendOnce g q
    some (s, [o])
  else some (s, [])

def expireStatusReportTimer (s : LtePdcp) : StatusTimer → Option (LtePdcp × List PdcpOut)
  | .ncExpire g q => s.ncExpireStatusReportTimer g q
  | .copyExpire g q => s.copyExpireStatusReportTimer g q

/-! ## Receiving -/

def sendAll (send : LtePdcp → NcPdu → LtePdcp × PdcpOut) : LtePdcp → List NcPdu → LtePdcp × List PdcpOut
  | s, [] => (s, [])
  | s, q :: qs =>
    let (s, o) := send s q
    let (s, os) := sendAll send s qs
    (s, o :: os)

def requestAll (send : LtePdcp → Nat → NcPdu → Option (LtePdcp × PdcpOut)) :
    LtePdcp → List (Nat × NcPdu) → Option (LtePdcp × List PdcpOut)
  | s, [] => some (s, [])
  | s, (g, q) :: rs => do
    let (s, o) ← send s g q
    let (s, os) ← requestAll send s rs
    some (s, o :: os)

/-- The copy-mode retransmissions: each packet on both RLCs. -/
def sendOnBoth : LtePdcp → List NcPdu → LtePdcp × List PdcpOut
  | s, [] => (s, [])
  | s, q :: qs =>
    let (s, o₁) := s.doTransmitPdcpSdu q 1
    let (s, o₂) := s.doTransmitPdcpSdu2 q 1
    let (s, os) := sendOnBoth s qs
    (s, o₁ :: o₂ :: os)

/-- `if (IfDeocde ()) NcDecode ()`. -/
def decodeReady (c : NcControl) : Option (NcControl × List Packet) := do
  let ready ← c.ifDeocde
  if ready then c.ncDecode else some (c, [])

/-- `if (IfNcSendArq ())`: scan, and send each report once. -/
def ncRequest (s : LtePdcp) : Option (LtePdcp × List PdcpOut) :=
  if s.nc.ifSendArq then do
    let (nc, arqGroupNums, arqPackets) ← s.nc.ncSendArqReq
    requestAll ncArqReqSendOnce { s with nc := nc } (arqGroupNums.zip arqPackets)
  else some (s, [])

/-- The network-coding branch of `TriggerRecvPdcpSdu`. -/
def ncRecv (s : LtePdcp) (q : NcPdu) (rand : Nat → Nat → Nat) : Option (LtePdcp × List PdcpOut) :=
  let s := { s with nc := s.nc.recvAndSave q }
  if s.nc.ifRecvArq then do
    let (nc, arqPackets) ← s.nc.makeNcArqSendPacket q rand
    some (sendAll (fun s q => s.toogleSend q 1) { s with nc := nc } arqPackets)
  else do
    let direct := if s.nc.ifTransmitSduFlag then [PdcpOut.up q.packet] else []
    let (nc, decoded) ← decodeReady s.nc
    let nc ← nc.stopArqTimer
    let (s, reports) ← { s with nc := nc }.ncRequest
    some (s, direct ++ decoded.map .up ++ reports)

/-- `if (IfRecvArq ())`: send what the report asks for. -/
def copyAnswer (s : LtePdcp) (q : NcPdu) : Option (LtePdcp × List PdcpOut) :=
  if s.copy.ifRecvArq then do
    let (copy, arqPackets) ← s.copy.makeCopyArqSendPacket q
    some (sendOnBoth { s with copy := copy } arqPackets)
  else some (s, [])

/-- `if (IfCopySendArq ())`: scan, and send each report once. -/
def copyRequest (s : LtePdcp) : Option (LtePdcp × List PdcpOut) :=
  if s.copy.ifSendArq then do
    let (copy, arqGroupNums, arqPackets) ← s.copy.copySendArqReq
    requestAll copyArqReqSendOnce { s with copy := copy } (arqGroupNums.zip arqPackets)
  else some (s, [])

/-- The copy branch of `TriggerRecvPdcpSdu`. A status report does not leave
the branch early: what follows the retransmissions runs for it too. -/
def copyRecv (s : LtePdcp) (q : NcPdu) : Option (LtePdcp × List PdcpOut) := do
  let s := { s with copy := s.copy.recvAndSave q }
  let (s, retx) ← s.copyAnswer q
  let direct := if s.copy.ifTransmitSduFlag then [PdcpOut.up q.packet] else []
  let copy ← s.copy.stopArqTimer
  let (s, reports) ← { s with copy := copy }.copyRequest
  some (s, retx ++ direct ++ reports)

/-- A PDU with an NC header; the plain mode has none to look at. -/
def triggerRecvPdcpSdu (s : LtePdcp) (q : NcPdu) (rand : Nat → Nat → Nat) : Option (LtePdcp × List PdcpOut) :=
  if s.ncEnable then s.ncRecv q rand
  else if s.copyEnable then s.copyRecv q
  else some (s, [.up q.packet])

/-! ## The entity as a machine -/

inductive Event where
  | transmit (p : Packet) (rand : Nat → Nat → Nat)
  | receive (q : NcPdu) (rand : Nat → Nat → Nat)
  | ncTimer (g : Nat)
  | copyTimer (g : Nat)

/-- The timer of group `g` in network-coding mode goes off: it is no longer
running when the scheduled call is made. -/
def expireNc (s : LtePdcp) (g : Nat) : Option (LtePdcp × List PdcpOut) := do
  let buf ← s.nc.decoding g
  let t ← buf.statusReportTimer
  { s with nc := s.nc.setDecoding g { buf with statusReportTimer := none } }.expireStatusReportTimer t

def expireCopy (s : LtePdcp) (g : Nat) : Option (LtePdcp × List PdcpOut) := do
  let buf ← s.copy.decoding g
  let t ← buf.statusReportTimer
  { s with copy := s.copy.setDecoding g { buf with statusReportTimer := none } }.expireStatusReportTimer t

def step (s : LtePdcp) : Event → Option (LtePdcp × List PdcpOut)
  | .transmit p rand => s.triggerDoTransmitPdcpSdu p rand
  | .receive q rand => s.triggerRecvPdcpSdu q rand
  | .ncTimer g => s.expireNc g
  | .copyTimer g => s.expireCopy g

def machine : Machine LtePdcp Event PdcpOut := ⟨step⟩

/-- A new entity. The four flags without initializer have any value. -/
def init (ncEnable copyEnable : Bool) (flags : Bool × Bool × Bool × Bool) : LtePdcp where
  ncEnable := ncEnable
  copyEnable := copyEnable
  nc := { ifSendArq := flags.1, ifRecvArq := flags.2.1 }
  copy := { ifSendArq := flags.2.2.1, ifRecvArq := flags.2.2.2 }

end LtePdcp

end Ns3
