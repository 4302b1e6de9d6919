import Ns3.Lib.ByteStore

/-!
# Words in network order

Words of any width, the highest byte first, and a reader that takes them off
the front of the bytes; past the end there is nothing to read. Words with the
lowest byte first are read in the same way.
-/

namespace Ns3

def writeHton (n x : Nat) : List UInt8 := (leBytes n x).reverse

def ofNtoh (bs : List UInt8) : Nat := ofLeBytes bs.reverse

def readU8 : List UInt8 → Option (UInt8 × List UInt8)
  | [] => none
  | b :: bs => some (b, bs)

def readBytes (n : Nat) (bs : List UInt8) : Option (List UInt8 × List UInt8) :=
  if n ≤ bs.length then some (bs.take n, bs.drop n) else none

def readNtoh (n : Nat) (bs : List UInt8) : Option (Nat × List UInt8) := (readBytes n bs).map fun r => (ofNtoh r.1, r.2)

def readLsbtoh (n : Nat) (bs : List UInt8) : Option (Nat × List UInt8) := (readBytes n bs).map fun r => (ofLeBytes r.1, r.2)

@[simp] theorem readU8_cons (b : UInt8) (bs : List UInt8) : readU8 (b :: bs) = some (b, bs) := rfl

@[simp] theorem length_writeHton (n x : Nat) : (writeHton n x).length = n := by
  simp [writeHton]

theorem ofNtoh_writeHton (n x : Nat) : ofNtoh (writeHton n x) = x % 256 ^ n := by
  simp [ofNtoh, writeHton, ofLeBytes_leBytes]

theorem ofLeBytes_lt (bs : List UInt8) : ofLeBytes bs < 256 ^ bs.length := by
  induction bs with
  | nil => simp [ofLeBytes]
  | cons b bs ih =>
    have hb := b.toNat_lt
    rw [ofLeBytes, List.length_cons, Nat.pow_succ]
    omega

theorem ofNtoh_lt (bs : List UInt8) : ofNtoh bs < 256 ^ bs.length := by
  have h := ofLeBytes_lt bs.reverse
  rwa [List.length_reverse] at h

theorem leBytes_ofLeBytes (bs : List UInt8) : leBytes bs.length (ofLeBytes bs) = bs := by
  induction bs with
  | nil => rfl
  | cons b bs ih =>
    have hb := b.toNat_lt
    have hlow : (b.toNat + 256 * ofLeBytes bs) % 256 = b.toNat := by omega
    have hhigh : (b.toNat + 256 * ofLeBytes bs) / 256 = ofLeBytes bs := by omega
    rw [ofLeBytes, List.length_cons, leBytes, hlow, hhigh, ih, UInt8.ofNat_toNat]

theorem writeHton_ofNtoh (bs : List UInt8) : writeHton bs.length (ofNtoh bs) = bs := by
  have h := leBytes_ofLeBytes bs.reverse
  rw [List.length_reverse] at h
  rw [writeHton, ofNtoh, h, List.reverse_reverse]

theorem ofNtoh_inj {bs cs : List UInt8} (hlength : bs.length = cs.length) (h : ofNtoh bs = ofNtoh cs) : bs = cs := by
  rw [← writeHton_ofNtoh bs, ← writeHton_ofNtoh cs, h, hlength]

/-! ## Reading what was written -/

@[simp] theorem readBytes_append (bs rest : List UInt8) : readBytes bs.length (bs ++ rest) = some (bs, rest) := by
  simp [readBytes]

theorem readBytes_of_length {n : Nat} {bs : List UInt8} (h : bs.length = n) (rest : List UInt8) :
    readBytes n (bs ++ rest) = some (bs, rest) := by
  rw [← h, readBytes_append]

@[simp] theorem readNtoh_writeHton (n x : Nat) (rest : List UInt8) : readNtoh n (writeHton n x ++ rest) = some (x % 256 ^ n, rest) := by
  rw [readNtoh, readBytes_of_length (length_writeHton n x), Option.map_some, ofNtoh_writeHton]

@[simp] theorem readLsbtoh_leBytes (n x : Nat) (rest : List UInt8) : readLsbtoh n (leBytes n x ++ rest) = some (x % 256 ^ n, rest) := by
  rw [readLsbtoh, readBytes_of_length (length_leBytes n x), Option.map_some, ofLeBytes_leBytes]

theorem readBytes_eq_some {n : Nat} {bs x rest : List UInt8} : readBytes n bs = some (x, rest) ↔ bs = x ++ rest ∧ x.length = n := by
  constructor
  · intro h
    rw [readBytes] at h
    split at h
    · cases h
      refine ⟨(List.take_append_drop n bs).symm, ?_⟩
      rw [List.length_take]
      omega
    · cases h
  · rintro ⟨rfl, hlength⟩
    exact readBytes_of_length hlength rest

end Ns3
