/-!
# Unsigned 32-bit arithmetic

Sums and differences of 32-bit words wrap. A counter that is only changed by
them is a sum modulo `2 ^ 32`, and is that sum as long as it is below.
-/

namespace Ns3

def add32 (a b : Nat) : Nat := (a + b) % 4294967296

def sub32 (a b : Nat) : Nat := (a + 4294967296 - b % 4294967296) % 4294967296

theorem add32_lt (a b : Nat) : add32 a b < 4294967296 := Nat.mod_lt _ (by decide)

theorem add32_mod_left (a b : Nat) : add32 (a % 4294967296) b = (a + b) % 4294967296 := by
  simp only [add32]
  omega

theorem sub32_add (a b : Nat) : sub32 ((a + b) % 4294967296) b = a % 4294967296 := by
  simp only [sub32]
  omega

end Ns3
