import Mathlib.Algebra.GroupWithZero.Nat
import Mathlib.Order.Fin.Basic

/-!
# `Ipv4Address`
-/

namespace Ns3

abbrev Ipv4Address := Fin 4294967296

instance Ipv4Address.neZero : NeZero 4294967296 := ⟨by decide⟩

instance Ipv4Address.lawfulBEq : LawfulBEq Ipv4Address := inferInstance

end Ns3
