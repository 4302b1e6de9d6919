import Ns3.Lte.NcHeader

/-!
# `CopyControl`

Copy mode keeps the shape of network coding with groups of one SDU: each SDU
is sent on both RLCs, and the receiver asks again for groups it skipped. A
group it has never seen gets a placeholder entry with `m_noReceive` set.
-/

namespace Ns3

structure CopyEncodingBuffer where
  ncVector : List NcPara := []
  nackNum : Nat := 0

structure CopyDecodingBuffer where
  ncComplete : Bool := false
  noReceive : Bool := false
  numStatusReport : Nat := 0
  statusReportTimer : Option StatusTimer := none
  deliverdSN : List Nat := []

structure CopyControl where
  ncEncodingBufferList : OrdMap Nat CopyEncodingBuffer := OrdMap.empty
  groupnum : Nat := 0
  maxRecvGroupnum : Nat := 0
  ncDecodingBufferList : OrdMap Nat CopyDecodingBuffer := OrdMap.empty
  ifTransmitSduFlag : Bool := false
  statusReportStatistic : List Nat := [0, 0, 0, 0, 0]
  ifSendArq : Bool
  ifRecvArq : Bool
  ncVrMs : Nat := 0
  failedGroupNum : Nat := 0
  pollingInterval : Nat := 10

namespace CopyControl

def originalBlockSize : Nat := 1

def encoding (c : CopyControl) (g : Nat) : Option CopyEncodingBuffer := c.ncEncodingBufferList.find g

def decoding (c : CopyControl) (g : Nat) : Option CopyDecodingBuffer := c.ncDecodingBufferList.find g

def setEncoding (c : CopyControl) (g : Nat) (buf : CopyEncodingBuffer) : CopyControl :=
  { c with ncEncodingBufferList := c.ncEncodingBufferList.insert g buf }

def setDecoding (c : CopyControl) (g : Nat) (buf : CopyDecodingBuffer) : CopyControl :=
  { c with ncDecodingBufferList := c.ncDecodingBufferList.insert g buf }

/-! ## Sending -/

def sendSaveAndSetTime (c : CopyControl) (p : Packet) : CopyControl × NcPdu :=
  let p := p.readdHeaders
  let buf := (c.encoding c.groupnum).getD {}
  let size := buf.ncVector.length
  let para : NcPara := { p := some p, israwpacket := 1, sn := size % 256 }
  let header : NcHeader := { groupnum := c.groupnum, sn := size % 256, israwpacket := 1 }
  (c.setEncoding c.groupnum { buf with ncVector := buf.ncVector ++ [para] }, ⟨header, p⟩)

/-- The copy's SN is read after its entry is pushed, so it is one more than the
entry's position. -/
def makeRedundancePacket (c : CopyControl) : Option (CopyControl × NcPdu) := do
  let buf ← c.encoding c.groupnum
  let last ← buf.ncVector[originalBlockSize - 1]?
  let p ← last.p
  let buf := { buf with ncVector := buf.ncVector ++ [({} : NcPara)] }
  let header : NcHeader := { groupnum := c.groupnum, sn := buf.ncVector.length % 256 }
  some (c.setEncoding c.groupnum buf, ⟨header, p⟩)

/-! ## Receiving -/

/-- Whether a first data PDU of group `g` triggers a scan. -/
def polls (g : Nat) : Bool := g % 10 = 0

def recvAndSave (c : CopyControl) (q : NcPdu) : CopyControl :=
  if q.header.dorC = 1 then { c with ifRecvArq := true }
  else
    let c := { c with ifRecvArq := false, groupnum := q.header.groupnum,
                      maxRecvGroupnum := max c.maxRecvGroupnum q.header.groupnum }
    match c.decoding c.groupnum with
    | none =>
      { c.setDecoding c.groupnum { deliverdSN := [q.header.sn], ncComplete := true } with
        ifTransmitSduFlag := true, pollingInterval := 10, ifSendArq := polls c.groupnum }
    | some buf =>
      if buf.noReceive then
        { c.setDecoding c.groupnum { buf with ncComplete := true, noReceive := false } with
          ifTransmitSduFlag := true, pollingInterval := 10, ifSendArq := polls c.groupnum }
      else { c with ifTransmitSduFlag := false, ifSendArq := false }

def makeStatusReport (g : Nat) : NcPdu := ⟨{ groupnum := g, dorC := 1 }, .zeros 1⟩

/-! ## Requesting retransmissions -/

/-- The variables of the scan in `CopySendArqReq`. -/
structure Scan where
  ctl : CopyControl
  cnt : Nat := 0
  arqGroupNums : List Nat := []
  arqPackets : List NcPdu := []

def Scan.visit (s : Scan) (i : Nat) : Option Scan :=
  let c := s.ctl
  let buf := (c.decoding i).getD { noReceive := true }
  let c := c.setDecoding i buf
  if buf.ncComplete || buf.statusReportTimer.isSome then some { s with ctl := c }
  else if buf.numStatusReport < 3 then
    some { ctl := c, cnt := s.cnt + 1, arqGroupNums := s.arqGroupNums ++ [i],
           arqPackets := s.arqPackets ++ [makeStatusReport i] }
  else do
    let sstat ← bumpAt c.statusReportStatistic (buf.numStatusReport + 1) 1
    let c := c.setDecoding i { buf with ncComplete := true }
    some { s with ctl := { c with statusReportStatistic := sstat, failedGroupNum := c.failedGroupNum + 1 } }

def scanLoop : Nat → Nat → Scan → Option Scan
  | 0, _, s => some s
  | n + 1, i, s => do
    let s ← s.visit i
    if s.cnt = 3 then some s else scanLoop n (i + 1) s

def isComplete (c : CopyControl) (g : Nat) : Bool :=
  match c.decoding g with
  | some buf => buf.ncComplete
  | none => false

def copySendArqReq (c : CopyControl) : Option (CopyControl × List Nat × List NcPdu) := do
  let s ← scanLoop (c.maxRecvGroupnum + 1 - c.ncVrMs) c.ncVrMs { ctl := c }
  let c := s.ctl
  some ({ c with ncVrMs := skipWhile c.isComplete c.ncDecodingBufferList.size c.ncVrMs },
        s.arqGroupNums, s.arqPackets)

def makeCopyArqSendPacket (c : CopyControl) (q : NcPdu) : Option (CopyControl × List NcPdu) :=
  match c.encoding q.header.groupnum with
  | none => some (c, [])
  | some buf => do
    let para ← buf.ncVector[originalBlockSize - 1]?
    let p ← para.p
    some (c.setEncoding q.header.groupnum { buf with nackNum := (buf.nackNum + 1) % 256 },
          [⟨{ groupnum := q.header.groupnum }, p⟩])

def stopArqTimer (c : CopyControl) : Option CopyControl :=
  (c.decoding c.groupnum).map fun buf => c.setDecoding c.groupnum { buf with statusReportTimer := none }

end CopyControl

end Ns3
