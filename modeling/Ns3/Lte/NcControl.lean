import Ns3.Lte.NcHeader

/-!
# `NcControl`

Both directions of network coding share one object: the sender's encoding
buffers and group counter, and the receiver's decoding buffers. A step that
follows an end iterator, a null packet or an index past the end of a vector is
undefined (`none`). The packet and byte counters that nothing reads are left
out.
-/

namespace Ns3

structure NcEncodingBuffer where
  ncVector : List NcPara := []
  nackNum : Nat := 0

structure NcDecodingBuffer where
  ncVector : List NcPara := []
  rank : Nat := 0
  ncComplete : Bool := false
  numStatusReport : Nat := 0
  statusReportTimer : Option StatusTimer := none
  deliverdSN : List Nat := []

/-- `m_IfSendArq` and `m_IfRecvArq` have no initial value in the source, so a
new object takes them as arguments. -/
structure NcControl where
  ncEncodingBufferList : OrdMap Nat NcEncodingBuffer := OrdMap.empty
  groupnum : Nat := 0
  maxRecvGroupnum : Nat := 0
  ncDecodingBufferList : OrdMap Nat NcDecodingBuffer := OrdMap.empty
  ifTransmitSduFlag : Bool := false
  packetStatistic : List Nat := [0, 0, 0, 0, 0]
  statusReportStatistic : List Nat := [0, 0, 0, 0, 0]
  ifSendArq : Bool
  ifRecvArq : Bool
  ncVrMs : Nat := 0
  failedGroupNum : Nat := 0

namespace NcControl

def originalBlockSize : Nat := 10
def encodingBlockSize : Nat := 12

def encoding (c : NcControl) (g : Nat) : Option NcEncodingBuffer := c.ncEncodingBufferList.find g

def decoding (c : NcControl) (g : Nat) : Option NcDecodingBuffer := c.ncDecodingBufferList.find g

def setEncoding (c : NcControl) (g : Nat) (buf : NcEncodingBuffer) : NcControl :=
  { c with ncEncodingBufferList := c.ncEncodingBufferList.insert g buf }

def setDecoding (c : NcControl) (g : Nat) (buf : NcDecodingBuffer) : NcControl :=
  { c with ncDecodingBufferList := c.ncDecodingBufferList.insert g buf }

section
variable (c : NcControl) (g g' : Nat)

theorem encoding_setEncoding (buf : NcEncodingBuffer) :
    (c.setEncoding g buf).encoding g' = if g' = g then some buf else c.encoding g' :=
  OrdMap.find_insert ..

theorem decoding_setDecoding (buf : NcDecodingBuffer) :
    (c.setDecoding g buf).decoding g' = if g' = g then some buf else c.decoding g' :=
  OrdMap.find_insert ..

@[simp] theorem groupnum_setDecoding (buf : NcDecodingBuffer) : (c.setDecoding g buf).groupnum = c.groupnum := rfl

end

/-! ## Sending -/

/-- The shift is by an unsigned number, undefined from 64 bits on. -/
def sendSaveAndSetTime (c : NcControl) (p : Packet) : Option (NcControl × NcPdu) :=
  let p := p.readdHeaders
  let buf := (c.encoding c.groupnum).getD {}
  let size := buf.ncVector.length
  if 64 ≤ size then none
  else
    let coeff := 1 <<< (64 - 1 - size)
    let para : NcPara := { p := some p, coff := coeffBits coeff, israwpacket := 1, sn := size % 256 }
    let header : NcHeader := { groupnum := c.groupnum, sn := size % 256, israwpacket := 1, coeff := coeff }
    some (c.setEncoding c.groupnum { buf with ncVector := buf.ncVector ++ [para] }, ⟨header, p⟩)

def makeRedundancePacket (c : NcControl) (rand : Nat → Nat) : Option (NcControl × NcPdu) := do
  let buf ← c.encoding c.groupnum
  let last ← buf.ncVector[originalBlockSize - 1]?
  let p ← last.p
  let coeff := randCoeff originalBlockSize rand
  let size := buf.ncVector.length
  let header : NcHeader :=
    { groupnum := c.groupnum, coeff := coeff, sn := size % 256,
      polling := if size + 1 = encodingBlockSize then 1 else 0 }
  let para : NcPara := { coff := coeffBits coeff }
  some (c.setEncoding c.groupnum { buf with ncVector := buf.ncVector ++ [para] }, ⟨header, p⟩)

def getNcedSize (c : NcControl) : Option Nat :=
  (c.encoding c.groupnum).map fun buf => buf.ncVector.length

/-! ## Receiving -/

/-- What `RecvAndSave` does to the buffer of the PDU's group: a complete group
takes nothing more. -/
def file (buf : NcDecodingBuffer) (q : NcPdu) : NcDecodingBuffer :=
  if buf.ncComplete then buf
  else
    let para : NcPara := { p := some q.packet, coff := coeffBits q.header.coeff,
                           israwpacket := q.header.israwpacket, sn := q.header.sn }
    { buf with ncVector := buf.ncVector ++ [para],
               deliverdSN := if para.sn < originalBlockSize then buf.deliverdSN ++ [para.sn]
                             else buf.deliverdSN }

/-- A status report only raises `m_IfRecvArq`; a data PDU overwrites the group
counter with its own group and is filed there. -/
def recvAndSave (c : NcControl) (q : NcPdu) : NcControl :=
  if q.header.dorC = 1 then { c with ifRecvArq := true }
  else
    let g := q.header.groupnum
    let polls := decide (q.header.polling = 1)
    let buf := (c.decoding g).getD {}
    let direct := !buf.ncComplete && decide (q.header.sn < originalBlockSize)
    { c.setDecoding g (file buf q) with
      ifRecvArq := false
      groupnum := g
      ifSendArq := polls
      maxRecvGroupnum := if polls then max c.maxRecvGroupnum g else c.maxRecvGroupnum
      ifTransmitSduFlag := direct
      packetStatistic := if direct then c.packetStatistic.modify 0 (· + 1) else c.packetStatistic }

def ifDeocde (c : NcControl) : Option Bool :=
  (c.decoding c.groupnum).map fun buf =>
    !buf.ncComplete && decide (originalBlockSize ≤ buf.ncVector.length)

/-- The rank is the number of packets, at most the block size; the computation
from the coefficients is commented out in the source. -/
def calulateDecodingRank (c : NcControl) (g : Nat) : Option NcControl :=
  (c.decoding g).map fun buf =>
    let size := buf.ncVector.length
    c.setDecoding g { buf with rank := if size < originalBlockSize then size else originalBlockSize }

/-- The decoding loop over the SNs `js`: a missing SN `j` is answered with the
packet that arrived at position `j` of the buffer. -/
def decodeLoop (ncVector : List NcPara) : List Nat → List Nat → Option (List Packet × List Nat)
  | [], deliverd => some ([], deliverd)
  | j :: js, deliverd =>
    if j ∈ deliverd then decodeLoop ncVector js deliverd
    else do
      let para ← ncVector[j]?
      let p ← para.p
      let r ← decodeLoop ncVector js (deliverd ++ [j])
      some (p.readdHeaders :: r.1, r.2)

def ncDecode (c : NcControl) : Option (NcControl × List Packet) := do
  let buf ← c.decoding c.groupnum
  if buf.ncComplete then some (c, [])
  else
    let c ← c.calulateDecodingRank c.groupnum
    let buf ← c.decoding c.groupnum
    if originalBlockSize ≤ buf.rank then
      let r ← decodeLoop buf.ncVector (List.range originalBlockSize) buf.deliverdSN
      let pstat ← bumpAt c.packetStatistic buf.numStatusReport r.1.length
      let sstat ← bumpAt c.statusReportStatistic buf.numStatusReport 1
      let c := c.setDecoding c.groupnum { buf with ncComplete := true, deliverdSN := r.2 }
      some ({ c with packetStatistic := pstat, statusReportStatistic := sstat }, r.1)
    else some (c, [])

def makeStatusReport (c : NcControl) (g : Nat) : Option NcPdu :=
  (c.decoding g).map fun buf =>
    ⟨{ groupnum := g, dorC := 1, rank := buf.rank }, .zeros 1⟩

/-! ## Requesting retransmissions -/

structure Scan where
  ctl : NcControl
  cnt : Nat := 0
  arqGroupNums : List Nat := []
  arqPackets : List NcPdu := []

def Scan.visit (s : Scan) (i : Nat) : Option Scan :=
  let c := s.ctl
  let buf := (c.decoding i).getD {}
  let c := c.setDecoding i buf
  if buf.ncComplete || buf.statusReportTimer.isSome then some { s with ctl := c }
  else if buf.numStatusReport < 3 then do
    let c ← c.calulateDecodingRank i
    let report ← c.makeStatusReport i
    some { ctl := c, cnt := s.cnt + 1, arqGroupNums := s.arqGroupNums ++ [i],
           arqPackets := s.arqPackets ++ [report] }
  else do
    let sstat ← bumpAt c.statusReportStatistic (buf.numStatusReport + 1) 1
    let c := c.setDecoding i { buf with ncComplete := true }
    some { s with ctl := { c with statusReportStatistic := sstat, failedGroupNum := c.failedGroupNum + 1 } }

def scanLoop : Nat → Nat → Scan → Option Scan
  | 0, _, s => some s
  | n + 1, i, s => do
    let s ← s.visit i
    if s.cnt = 5 then some s else scanLoop n (i + 1) s

def isComplete (c : NcControl) (g : Nat) : Bool :=
  match c.decoding g with
  | some buf => buf.ncComplete
  | none => false

def ncSendArqReq (c : NcControl) : Option (NcControl × List Nat × List NcPdu) :=
  if c.groupnum < 4 then some (c, [], [])
  else do
    let s ← scanLoop (c.groupnum - 3 + 1 - c.ncVrMs) c.ncVrMs { ctl := c }
    let c := s.ctl
    some ({ c with ncVrMs := skipWhile c.isComplete c.ncDecodingBufferList.size c.ncVrMs },
          s.arqGroupNums, s.arqPackets)

/-- The retransmissions `i = k, k + 1, ...` (`n` of them) a report asks for;
only the one with `i = m_originalBlockSize-1-rank` polls. -/
def arqLoop (g rank : Nat) (last : Option NcPara) (rand : Nat → Nat → Nat) : Nat → Nat → Option (List NcPdu)
  | 0, _ => some []
  | n + 1, i => do
    let para ← last
    let p ← para.p
    let header : NcHeader :=
      { polling := if i = originalBlockSize - 1 - rank then 1 else 0, groupnum := g,
        coeff := randCoeff originalBlockSize (rand i) }
    let rest ← arqLoop g rank last rand n (i + 1)
    some (⟨header, p⟩ :: rest)

def makeNcArqSendPacket (c : NcControl) (q : NcPdu) (rand : Nat → Nat → Nat) : Option (NcControl × List NcPdu) :=
  match c.encoding q.header.groupnum with
  | none => some (c, [])
  | some buf => do
    let packets ← arqLoop q.header.groupnum q.header.rank buf.ncVector[originalBlockSize - 1]? rand
      (originalBlockSize - q.header.rank) 0
    some (c.setEncoding q.header.groupnum { buf with nackNum := (buf.nackNum + 1) % 256 }, packets)

def stopArqTimer (c : NcControl) : Option NcControl :=
  (c.decoding c.groupnum).map fun buf => c.setDecoding c.groupnum { buf with statusReportTimer := none }

end NcControl

end Ns3
