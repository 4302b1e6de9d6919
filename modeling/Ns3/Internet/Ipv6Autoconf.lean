import Ns3.Internet.Ipv6Header

/-!
# Addresses made from prefixes and link-layer addresses

The kinds of link-layer addresses that an `Ipv6Address` can be made from, and
the comparisons of addresses with prefixes.
-/

namespace Ns3

inductive MacAddress where
  | mac64 (addr : Vector UInt8 8)
  | mac48 (addr : Vector UInt8 6)
  | mac16 (addr : Vector UInt8 2)
  | mac8 (addr : UInt8)
  deriving DecidableEq

/-- The last eight bytes of an address made from it. -/
def MacAddress.interfaceId : MacAddress → Bytes
  | mac64 addr => addr.toList
  | mac48 addr => [addr[0] ^^^ 0x02, addr[1], addr[2], 0xff, 0xfe, addr[3], addr[4], addr[5]]
  | mac16 addr => [0, 0, 0, 0xff, 0xfe, 0, addr[0], addr[1]]
  | mac8 addr => [0, 0, 0, 0xff, 0xfe, 0, 0, addr]

@[simp] theorem MacAddress.length_interfaceId (addr : MacAddress) : addr.interfaceId.length = 8 := by
  cases addr with
  | mac64 addr => exact addr.length_toList
  | mac48 addr => rfl
  | mac16 addr => rfl
  | mac8 addr => rfl

structure Ipv6Prefix where
  address : Ipv6Address
  prefixLength : UInt8
  deriving DecidableEq

namespace Ipv6Address

/-- `Ipv6Address::Deserialize`, from an array of 16 bytes. -/
def ofBytes (buf : Bytes) : Ipv6Address :=
  ⟨(buf ++ List.replicate 16 0).take 16, by simp⟩

theorem bytes_ofBytes {buf : Bytes} (h : buf.length = 16) : (ofBytes buf).bytes = buf := by
  exact List.take_left' h

theorem ofBytes_eq {a : Ipv6Address} {buf : Bytes} (h : buf = a.bytes) : ofBytes buf = a := by
  refine ext_bytes ?_
  rw [h, bytes_ofBytes a.length_bytes]

def getAny : Ipv6Address := ofBytes (List.replicate 16 0)

def getOnes : Ipv6Address := ofBytes (List.replicate 16 0xff)

def isMulticast (a : Ipv6Address) : Bool := a.bytes.head? = some 0xff

def combinePrefix (a : Ipv6Address) (p : Ipv6Prefix) : Ipv6Address := ofBytes (a.bytes.zipWith (· &&& ·) p.address.bytes)

def hasPrefix (a : Ipv6Address) (p : Ipv6Prefix) : Bool := a.combinePrefix p = getOnes.combinePrefix p

/-- The first eight bytes of `fe80::`. -/
def linkLocalPrefix : Bytes := [0xfe, 0x80, 0, 0, 0, 0, 0, 0]

/-- The prefix of 64 bits is that of `fe80::`. -/
def isLinkLocal (a : Ipv6Address) : Bool := a.bytes.take 8 = linkLocalPrefix

def makeAutoconfiguredLinkLocalAddress (addr : MacAddress) : Ipv6Address := ofBytes (linkLocalPrefix ++ addr.interfaceId)

def makeAutoconfiguredAddress (addr : MacAddress) (p : Ipv6Prefix) : Ipv6Address :=
  ofBytes ((getOnes.combinePrefix p).bytes.take 8 ++ addr.interfaceId)

end Ipv6Address

def Ipv6Header.initial : Ipv6Header := ⟨0, 1, 0, 0, 0, .getAny, .getAny⟩

end Ns3
