import Mathlib.Data.Prod.Lex
import Mathlib.Order.Fin.Basic
import Ns3.Internet.Ipv4Fragmentation
import Ns3.Lib.Machine
import Ns3.SixLowPan.Compression
import Ns3.SixLowPan.SixLowPanHc1

/-!
# Fragments of compressed packets

`DoFragmentation` cuts a packet that was compressed. A fragment tells its offset
in the packet that was not, in units of eight bytes; the first one has no
offset, and `ProcessFragment` decompresses it for its size.

Headers of the mesh are put in front of the fragments; only their size is here.
Beside the map stand the fragments that arrived since their packet was last
reassembled or given up.
-/

namespace Ns3

open Machine

/-! ## Dispatches -/

inductive Dispatch where
  | LOWPAN_NALP
  | LOWPAN_IPv6
  | LOWPAN_HC1
  | LOWPAN_BC0
  | LOWPAN_IPHC
  | LOWPAN_MESH
  | LOWPAN_FRAG1
  | LOWPAN_FRAGN
  | LOWPAN_UNSUPPORTED
  deriving DecidableEq

namespace SixLowPanDispatch

def LOWPAN_IPv6 : UInt8 := 0x41
def LOWPAN_FRAG1 : UInt8 := 0xC0
def LOWPAN_FRAGN : UInt8 := 0xE0

def getDispatchType (dispatch : UInt8) : Dispatch :=
  if dispatch ≤ 0x3F then .LOWPAN_NALP
  else if dispatch = LOWPAN_IPv6 then .LOWPAN_IPv6
  else if dispatch = SixLowPanHc1.LOWPAN_HC1 then .LOWPAN_HC1
  else if dispatch = 0x50 then .LOWPAN_BC0
  else if 0x60 ≤ dispatch ∧ dispatch ≤ 0x7F then .LOWPAN_IPHC
  else if 0x80 ≤ dispatch ∧ dispatch ≤ 0xBF then .LOWPAN_MESH
  else if LOWPAN_FRAG1 ≤ dispatch ∧ dispatch ≤ 0xC7 then .LOWPAN_FRAG1
  else if LOWPAN_FRAGN ≤ dispatch ∧ dispatch ≤ 0xE7 then .LOWPAN_FRAGN
  else .LOWPAN_UNSUPPORTED

end SixLowPanDispatch

/-! ## Headers -/

/-- A dispatch, then eleven bits of the size. -/
def datagramSizeBytes (dispatch : UInt8) (m_datagramSize : Nat) : Bytes :=
  let temp := m_datagramSize ||| (dispatch.toNat <<< 8)
  [UInt8.ofNat (temp >>> 8), UInt8.ofNat (temp &&& 0xff)]

def readDatagramSize (bytes : Bytes) : Option (Nat × Bytes) :=
  (readU8 bytes).bind fun (temp, bytes) =>
    (readU8 bytes).map fun (low, bytes) => (((temp.toNat <<< 8) ||| low.toNat) &&& 0x7FF, bytes)

structure SixLowPanFrag1 where
  m_datagramSize : Nat
  m_datagramTag : UInt16

namespace SixLowPanFrag1

def getSerializedSize (_ : SixLowPanFrag1) : Nat := 4

/-- `SetDatagramSize` and `SetDatagramTag`. -/
def of (datagramSize : Nat) (datagramTag : UInt16) : SixLowPanFrag1 := ⟨datagramSize &&& 0x7FF, datagramTag⟩

def serialize (h : SixLowPanFrag1) : Bytes :=
  datagramSizeBytes SixLowPanDispatch.LOWPAN_FRAG1 h.m_datagramSize ++ leBytes 2 h.m_datagramTag.toNat

def deserialize (bytes : Bytes) : Option SixLowPanFrag1 :=
  (readDatagramSize bytes).bind fun (m_datagramSize, bytes) =>
    (readBytes 2 bytes).map fun (m_datagramTag, _) => ⟨m_datagramSize, UInt16.ofNat (ofLeBytes m_datagramTag)⟩

end SixLowPanFrag1

structure SixLowPanFragN where
  m_datagramSize : Nat
  m_datagramTag : UInt16
  m_datagramOffset : UInt8

namespace SixLowPanFragN

def getSerializedSize (_ : SixLowPanFragN) : Nat := 5

/-- `SetDatagramSize`, `SetDatagramTag` and `SetDatagramOffset`. -/
def of (datagramSize : Nat) (datagramTag : UInt16) (datagramOffset : Nat) : SixLowPanFragN :=
  ⟨datagramSize &&& 0x7FF, datagramTag, UInt8.ofNat datagramOffset⟩

def serialize (h : SixLowPanFragN) : Bytes :=
  datagramSizeBytes SixLowPanDispatch.LOWPAN_FRAGN h.m_datagramSize ++ leBytes 2 h.m_datagramTag.toNat ++ [h.m_datagramOffset]

def deserialize (bytes : Bytes) : Option SixLowPanFragN :=
  (readDatagramSize bytes).bind fun (m_datagramSize, bytes) =>
    (readBytes 2 bytes).bind fun (m_datagramTag, bytes) =>
      (readU8 bytes).map fun (m_datagramOffset, _) => ⟨m_datagramSize, UInt16.ofNat (ofLeBytes m_datagramTag), m_datagramOffset⟩

end SixLowPanFragN

/-! ## Sending -/

structure SixLowPanSender extends SixLowPanNetDevice where
  m_useIphc : Bool := true
  m_compressionThreshold : Nat := 0
  mtu : UInt16

namespace SixLowPanSender

/-- What `DoSend` makes of a packet: the packet for the link, `origHdrSize`, and `pktSize` with the
headers of the mesh. -/
def toSend (d : SixLowPanSender) (src dst : MacAddress) (extraHdrSize : Nat) (packet : Bytes) : Option (Bytes × Nat × Nat) :=
  (if d.m_useIphc then d.compressLowPanIphc src dst (packet.length + 1) packet
    else SixLowPanHc1.compressLowPanHc1 src dst packet).map fun (compressed, origHdrSize) =>
      if uint16 (uint16 compressed.length + extraHdrSize) < d.m_compressionThreshold then
        let uncompressed := SixLowPanDispatch.LOWPAN_IPv6 :: packet
        (uncompressed, origHdrSize, uint16 (uint16 uncompressed.length + extraHdrSize))
      else (compressed, origHdrSize, uint16 (uint16 compressed.length + extraHdrSize))

end SixLowPanSender

namespace SixLowPanNetDevice

/-- A range past the end leaves nothing. -/
def createFragment (p : Bytes) (start length : Nat) : Bytes :=
  if start + length ≤ p.length then (p.drop start).take length else []

/-- The loop of `DoFragmentation`, given up after as many rounds as the packet has bytes: a round
that makes no fragment changes nothing. -/
def fragmentLoop (p : Bytes) (origPacketSize extraHdrSize l2Mtu : Nat) (tag : UInt16) : Nat → Nat → Nat → Option (List Bytes)
  | 0, _, _ => none
  | rounds + 1, offset, offsetData =>
    let fragNHdr := SixLowPanFragN.of origPacketSize tag (offset >>> 3)
    let size := uint32 (l2Mtu - fragNHdr.getSerializedSize - extraHdrSize)
    let size := size - size % 8
    let moreFrag := decide (uint32 (offsetData + size) ≤ p.length)
    let size := if moreFrag then size else uint32 (p.length - offsetData)
    let fragment := if 0 < size then [fragNHdr.serialize ++ createFragment p offsetData size] else []
    if moreFrag then
      (fragmentLoop p origPacketSize extraHdrSize l2Mtu tag rounds (uint16 (offset + size)) (uint16 (offsetData + size))).map
        fun rest => fragment ++ rest
    else some fragment

/-- An MTU that is too small for the header aborts. -/
def doFragmentation (packet : Bytes) (origPacketSize origHdrSize extraHdrSize l2Mtu : Nat) (tag : UInt16) : Option (List Bytes) :=
  let frag1Hdr := SixLowPanFrag1.of origPacketSize tag
  if l2Mtu ≤ frag1Hdr.getSerializedSize then none
  else
    let compressedHeaderSize := uint32 (packet.length - uint32 (origPacketSize - origHdrSize))
    let size := uint32 (l2Mtu - frag1Hdr.getSerializedSize - compressedHeaderSize - extraHdrSize)
    let size := uint32 (size - size % 8 + compressedHeaderSize)
    (fragmentLoop packet origPacketSize extraHdrSize l2Mtu tag (packet.length + 1) (uint16 (size + origHdrSize - compressedHeaderSize))
      (uint16 size)).map fun rest => (frag1Hdr.serialize ++ createFragment packet 0 size) :: rest

end SixLowPanNetDevice

/-! ## The list of fragments -/

structure SixLowPanFragments where
  m_packetSize : Nat
  m_fragments : List (Bytes × Nat) := []
  m_firstFragment : Option Bytes := none

namespace SixLowPanFragments

/-- The loop of `AddFragment`: a fragment with an offset that is there is left out. -/
def place (fragment : Bytes) (fragmentOffset : Nat) : List (Bytes × Nat) → Option (List (Bytes × Nat))
  | [] => some [(fragment, fragmentOffset)]
  | x :: l =>
    if x.2 > fragmentOffset then some ((fragment, fragmentOffset) :: x :: l)
    else if x.2 = fragmentOffset then if fragment.length = x.1.length then some (x :: l) else none
    else (place fragment fragmentOffset l).map fun l => x :: l

def addFragment (fr : SixLowPanFragments) (fragment : Bytes) (fragmentOffset : Nat) : Option SixLowPanFragments :=
  (place fragment fragmentOffset fr.m_fragments).map fun m_fragments => { fr with m_fragments := m_fragments }

def addFirstFragment (fr : SixLowPanFragments) (fragment : Bytes) : SixLowPanFragments :=
  { fr with m_firstFragment := some fragment }

/-- Only a first fragment is kept as it arrived. -/
def withFirst (fr : SixLowPanFragments) : Option Bytes → SixLowPanFragments
  | some packet => fr.addFirstFragment packet
  | none => fr

/-- The loop of `IsEntire`: where the fragments end, unless there is a gap. -/
def endOffset : Nat → List (Bytes × Nat) → Option Nat
  | lastEndOffset, [] => some lastEndOffset
  | lastEndOffset, x :: l =>
    if lastEndOffset < x.2 then none else endOffset (max lastEndOffset (uint16 (x.1.length + x.2))) l

def isEntire (fr : SixLowPanFragments) : Bool :=
  decide (0 < fr.m_fragments.length) && decide (endOffset 0 fr.m_fragments = some fr.m_packetSize)

/-- The loop of `GetPacket`; fragments that overlap abort. -/
def join (p : Bytes) (lastEndOffset : Nat) : List (Bytes × Nat) → Option Bytes
  | [] => some p
  | x :: l => if lastEndOffset > x.2 then none else join (p ++ x.1) (uint16 (lastEndOffset + x.1.length)) l

def getPacket (fr : SixLowPanFragments) : Option Bytes :=
  match fr.m_firstFragment, fr.m_fragments with
  | some m_firstFragment, x :: l => join m_firstFragment (uint16 x.1.length) l
  | _, _ => none

end SixLowPanFragments

/-! ## Receiving -/

/-- Addresses are ordered by their kind, then by their bytes. -/
def MacAddress.orderKey : MacAddress → Nat ×ₗ Nat
  | mac64 addr => toLex (64, ofNtoh addr.toList)
  | mac48 addr => toLex (48, ofNtoh addr.toList)
  | mac16 addr => toLex (16, ofNtoh addr.toList)
  | mac8 addr => toLex (8, addr.toNat)

theorem MacAddress.orderKey_injective : Function.Injective MacAddress.orderKey := by
  have hvector : ∀ {n : Nat} {a b : Vector UInt8 n}, ofNtoh a.toList = ofNtoh b.toList → a = b := fun {n a b} h =>
    Vector.toList_inj.mp (ofNtoh_inj (by simp) h)
  intro a b h
  obtain ⟨hkind, hbytes⟩ := Prod.mk.inj h
  cases a with
  | mac64 a =>
    cases b with
    | mac64 b => rw [hvector hbytes]
    | mac48 b => cases hkind
    | mac16 b => cases hkind
    | mac8 b => cases hkind
  | mac48 a =>
    cases b with
    | mac64 b => cases hkind
    | mac48 b => rw [hvector hbytes]
    | mac16 b => cases hkind
    | mac8 b => cases hkind
  | mac16 a =>
    cases b with
    | mac64 b => cases hkind
    | mac48 b => cases hkind
    | mac16 b => rw [hvector hbytes]
    | mac8 b => cases hkind
  | mac8 a =>
    cases b with
    | mac64 b => cases hkind
    | mac48 b => cases hkind
    | mac16 b => cases hkind
    | mac8 b => rw [UInt8.toNat_inj.mp hbytes]

instance : LinearOrder MacAddress := LinearOrder.lift' MacAddress.orderKey MacAddress.orderKey_injective

abbrev SixLowPanFragmentKey := (MacAddress ×ₗ MacAddress) ×ₗ (Nat ×ₗ Nat)

def sixLowPanFragmentKey (src dst : MacAddress) (datagramSize : Nat) (datagramTag : UInt16) : SixLowPanFragmentKey :=
  toLex (toLex (src, dst), toLex (datagramSize, datagramTag.toNat))

/-- A fragment on its way, without the headers of the mesh. -/
structure SixLowPanFrame where
  src : MacAddress
  dst : MacAddress
  packet : Bytes
  deriving DecidableEq

/-- A device that receives: `stack` is what stands on the stack when an array is made. -/
structure SixLowPanReceiver extends SixLowPanNetDevice where
  m_fragmentReassemblyListSize : Nat := 0
  m_fragmentExpirationTimeout : Int := 60
  stack : Bytes := []

/-- `m_fragments` and `m_timeoutEventList`. -/
structure SixLowPanBuffers where
  m_fragments : OrdMap SixLowPanFragmentKey SixLowPanFragments := .empty
  m_timeoutEventList : List (Int × SixLowPanFragmentKey) := []

namespace SixLowPanReceiver

open SixLowPanDispatch

/-- The first fragment without its compression, unless it is dropped; other encodings abort. -/
def decompressFirst (d : SixLowPanReceiver) (src dst : MacAddress) (p : Bytes) : Option (Option Bytes) :=
  match getDispatchType (p.headD 0) with
  | .LOWPAN_IPv6 => some (some (p.drop 1))
  | .LOWPAN_HC1 => (SixLowPanHc1.decompressLowPanHc1 d.stack src dst p).map some
  | .LOWPAN_IPHC =>
    (d.decompressLowPanIphc src dst (p.length + 1) p).map fun (p, drop) => if drop then none else some p
  | _ => none

def forget (s : SixLowPanBuffers) (key : SixLowPanFragmentKey) : SixLowPanBuffers :=
  ⟨s.m_fragments.erase key, s.m_timeoutEventList.eraseP (·.2 = key)⟩

def full (d : SixLowPanReceiver) (s : SixLowPanBuffers) : Bool :=
  d.m_fragmentReassemblyListSize ≠ 0 ∧ d.m_fragmentReassemblyListSize ≤ s.m_fragments.size

def oldestKey (s : SixLowPanBuffers) : Option SixLowPanFragmentKey := s.m_timeoutEventList.head?.map Prod.snd

/-- Without room the oldest datagram is erased. -/
def makeRoom (d : SixLowPanReceiver) (s : SixLowPanBuffers) : Option SixLowPanBuffers :=
  if d.full s then (oldestKey s).bind fun key => (s.m_fragments.find key).map fun _ => forget s key else some s

/-- The list for a key, which may be a new one. -/
def fragmentsOf (d : SixLowPanReceiver) (s : SixLowPanBuffers) (key : SixLowPanFragmentKey) (packetSize : Nat) :
    Option (SixLowPanBuffers × SixLowPanFragments) :=
  match s.m_fragments.find key with
  | some fragments => some (s, fragments)
  | none =>
    (d.makeRoom s).map fun s =>
      ({ s with m_timeoutEventList := s.m_timeoutEventList ++ [(d.now + d.m_fragmentExpirationTimeout, key)] },
        { m_packetSize := packetSize })

/-- What is done with a fragment `p` for the list of its key, and the packet when it returns true. -/
def addTo (d : SixLowPanReceiver) (s : SixLowPanBuffers) (key : SixLowPanFragmentKey) (packetSize : Nat) (p : Bytes) (offset : Nat)
    (first : Option Bytes) : Option (SixLowPanBuffers × Option Bytes) :=
  (d.fragmentsOf s key packetSize).bind fun (s, fragments) =>
    (fragments.addFragment p offset).bind fun fragments =>
      let fragments := fragments.withFirst first
      if fragments.isEntire then
        fragments.getPacket.bind fun packet =>
          (SixLowPanFrag1.deserialize packet).map fun frag1Header => (forget s key, some (packet.drop frag1Header.getSerializedSize))
      else some ({ s with m_fragments := s.m_fragments.insert key fragments }, none)

def processFragment (d : SixLowPanReceiver) (s : SixLowPanBuffers) (f : SixLowPanFrame) (isFirst : Bool) :
    Option (SixLowPanBuffers × Option Bytes) :=
  if isFirst then
    (SixLowPanFrag1.deserialize f.packet).bind fun frag1Header =>
      (d.decompressFirst f.src f.dst (f.packet.drop frag1Header.getSerializedSize)).bind fun
        | none => some (s, none)
        | some p =>
          d.addTo s (sixLowPanFragmentKey f.src f.dst frag1Header.m_datagramSize frag1Header.m_datagramTag) frag1Header.m_datagramSize p 0
            (some f.packet)
  else
    (SixLowPanFragN.deserialize f.packet).bind fun fragNHeader =>
      d.addTo s (sixLowPanFragmentKey f.src f.dst fragNHeader.m_datagramSize fragNHeader.m_datagramTag) fragNHeader.m_datagramSize
        (f.packet.drop fragNHeader.getSerializedSize) (fragNHeader.m_datagramOffset.toNat <<< 3) none

def receiveFragment (d : SixLowPanReceiver) (s : SixLowPanBuffers) (f : SixLowPanFrame) : Option (SixLowPanBuffers × Option Bytes) :=
  match getDispatchType (f.packet.headD 0) with
  | .LOWPAN_FRAG1 => d.processFragment s f true
  | .LOWPAN_FRAGN => d.processFragment s f false
  | _ => none

def handleFragmentsTimeout (m : OrdMap SixLowPanFragmentKey SixLowPanFragments) (key : SixLowPanFragmentKey) :
    Option (OrdMap SixLowPanFragmentKey SixLowPanFragments) :=
  (m.find key).map fun _ => m.erase key

def handleTimeout (now : Int) (m : OrdMap SixLowPanFragmentKey SixLowPanFragments) :
    List (Int × SixLowPanFragmentKey) → Option SixLowPanBuffers
  | [] => some ⟨m, []⟩
  | x :: l => if x.1 = now then (handleFragmentsTimeout m x.2).bind fun m => handleTimeout now m l else some ⟨m, x :: l⟩

end SixLowPanReceiver

/-! ## Datagrams and their fragments -/

/-- A packet that is sent in fragments: either its headers were compressed or it has the dispatch in
front, and the MTU has room for the headers and eight bytes of data. -/
structure SixLowPanDatagram where
  device : SixLowPanSender
  src : MacAddress
  dst : MacAddress
  tag : UInt16
  extraHdrSize : Nat
  packet : Bytes
  compressed : Bytes
  origHdrSize : Nat
  pktSize : Nat
  sent : device.toSend src dst extraHdrSize packet = some (compressed, origHdrSize, pktSize)
  encoded : origHdrSize ≠ 0 ∨ compressed = SixLowPanDispatch.LOWPAN_IPv6 :: packet
  small : packet.length ≤ 2047
  fragmented : device.mtu.toNat < pktSize
  room : 4 + (compressed.length + origHdrSize - packet.length) + 8 + extraHdrSize ≤ device.mtu.toNat

namespace SixLowPanDatagram

def compressedHeaderSize (x : SixLowPanDatagram) : Nat := x.compressed.length + x.origHdrSize - x.packet.length

def fragments (x : SixLowPanDatagram) : Option (List Bytes) :=
  SixLowPanNetDevice.doFragmentation x.compressed x.packet.length x.origHdrSize x.extraHdrSize x.device.mtu.toNat x.tag

end SixLowPanDatagram

/-! ## Runs -/

structure SixLowPanReassembly extends SixLowPanBuffers where
  arrived : List SixLowPanFrame := []

inductive SixLowPanEvent where
  | fragment (now : Int) (f : SixLowPanFrame)
  | timeout (now : Int)

namespace SixLowPanReassembly

open SixLowPanReceiver

/-- Both headers begin with size and tag. -/
def keyOf (f : SixLowPanFrame) : SixLowPanFragmentKey :=
  match SixLowPanFrag1.deserialize f.packet with
  | some h => sixLowPanFragmentKey f.src f.dst h.m_datagramSize h.m_datagramTag
  | none => sixLowPanFragmentKey f.src f.dst 0 0

def ofKey (s : SixLowPanReassembly) (key : SixLowPanFragmentKey) : List SixLowPanFrame := s.arrived.filter (keyOf · = key)

def without (arrived : List SixLowPanFrame) (keys : List SixLowPanFragmentKey) : List SixLowPanFrame :=
  arrived.filter (keyOf · ∉ keys)

def evicted (d : SixLowPanReceiver) (s : SixLowPanBuffers) (key : SixLowPanFragmentKey) : List SixLowPanFragmentKey :=
  if (s.m_fragments.find key).isNone ∧ d.full s then (oldestKey s).toList else []

def expired (now : Int) (s : SixLowPanBuffers) : List SixLowPanFragmentKey :=
  (s.m_timeoutEventList.takeWhile (·.1 = now)).map Prod.snd

/-- A packet put out is one that `ProcessFragment` returns true with. -/
def machine (d : SixLowPanReceiver) : Machine SixLowPanReassembly SixLowPanEvent Bytes where
  step s
    | .fragment now f =>
      (SixLowPanReceiver.receiveFragment { d with now := now } s.toSixLowPanBuffers f).map fun r =>
        let arrived := without s.arrived (evicted d s.toSixLowPanBuffers (keyOf f))
        match r.2 with
        | none => (⟨r.1, arrived ++ [f]⟩, [])
        | some packet => (⟨r.1, without arrived [keyOf f]⟩, [packet])
    | .timeout now =>
      (handleTimeout now s.m_fragments s.m_timeoutEventList).map fun r =>
        (⟨r, without s.arrived (expired now s.toSixLowPanBuffers)⟩, [])

def FragmentOf (sent : SixLowPanFragmentKey → Option SixLowPanDatagram) (f : SixLowPanFrame) : Prop :=
  ∃ x, sent (keyOf f) = some x ∧ ∃ fragments, x.fragments = some fragments ∧ f.packet ∈ fragments

/-- Without its compression a first fragment has the length of the original headers. -/
def Decompresses (d : SixLowPanReceiver) (sent : SixLowPanFragmentKey → Option SixLowPanDatagram) (f : SixLowPanFrame) : Prop :=
  SixLowPanDispatch.getDispatchType (f.packet.headD 0) = .LOWPAN_FRAG1 → ∀ x, sent (keyOf f) = some x →
    ∃ p, d.decompressFirst f.src f.dst (f.packet.drop 4) = some (some p) ∧
      p.length + x.compressedHeaderSize = (f.packet.drop 4).length + x.origHdrSize

/-- Fragments arrive, in any order and any number of times, and time passes. -/
def Arrives (d : SixLowPanReceiver) (sent : SixLowPanFragmentKey → Option SixLowPanDatagram) (_ : SixLowPanReassembly) :
    SixLowPanEvent → Prop
  | .fragment now f => FragmentOf sent f ∧ Decompresses { d with now := now } sent f
  | .timeout _ => True

/-- With a fragment all fragments of its datagram are there. -/
def Completes (sent : SixLowPanFragmentKey → Option SixLowPanDatagram) (s : SixLowPanReassembly) (f : SixLowPanFrame) : Prop :=
  ∃ x, sent (keyOf f) = some x ∧ ∃ fragments, x.fragments = some fragments ∧
    ∀ g ∈ fragments, (⟨f.src, f.dst, g⟩ : SixLowPanFrame) ∈ s.ofKey (keyOf f) ++ [f]

/-- The packet is put out just when its last fragment arrives, and nothing aborts. -/
def Prompt (d : SixLowPanReceiver) (sent : SixLowPanFragmentKey → Option SixLowPanDatagram) (s : SixLowPanReassembly) (now : Int)
    (f : SixLowPanFrame) : Prop :=
  ∃ s' out, (machine d).step s (.fragment now f) = some (s', out) ∧
    (Completes sent s f → ∃ x, sent (keyOf f) = some x ∧ out = [x.compressed]) ∧ (¬ Completes sent s f → out = [])

end SixLowPanReassembly

end Ns3
