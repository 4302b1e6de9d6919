import Mathlib.Algebra.GroupWithZero.Nat

/-!
# `Mac48Address`
-/

namespace Ns3

abbrev Mac48Address := Fin 281474976710656

instance Mac48Address.neZero : NeZero 281474976710656 := ⟨by decide⟩

def Mac48Address.isGroup (a : Mac48Address) : Bool := (a.val >>> 40) % 2 = 1

end Ns3
