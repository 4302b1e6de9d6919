import Mathlib.Data.Nat.Bitwise

/-!
# Bits of a list of bytes

The bits of a list of bytes are numbered from the highest bit of the first byte,
as the bits of a network address are. Lists of one length are the same if all
their bits are.
-/

namespace Ns3

open List

def bitAt (bytes : List UInt8) (i : Nat) : Bool := (bytes.getD (i / 8) 0).toBitVec.getLsbD (7 - i % 8)

theorem bitAt_of_le {bytes : List UInt8} {i : Nat} (h : 8 * bytes.length ≤ i) : bitAt bytes i = false := by
  rw [bitAt, getD_eq_default _ _ (by omega)]
  exact BitVec.getLsbD_zero

theorem byte_ext {a b : UInt8} (h : ∀ j < 8, a.toBitVec.getLsbD j = b.toBitVec.getLsbD j) : a = b := by
  refine UInt8.toBitVec_inj.mp (BitVec.eq_of_getLsbD_eq fun j hj => h j hj)

theorem eq_of_bitAt {a b : List UInt8} (hlength : a.length = b.length) (h : ∀ i < 8 * a.length, bitAt a i = bitAt b i) : a = b := by
  refine ext_getElem hlength fun k ha hb => byte_ext fun j hj => ?_
  have hbit := h (8 * k + (7 - j)) (by omega)
  have hbyte : (8 * k + (7 - j)) / 8 = k := by omega
  have hplace : 7 - (8 * k + (7 - j)) % 8 = j := by omega
  rw [bitAt, bitAt, hbyte, hplace, getD_eq_getElem _ _ ha, getD_eq_getElem _ _ hb] at hbit
  exact hbit

theorem bitAt_append_left {a : List UInt8} (b : List UInt8) {i : Nat} (h : i < 8 * a.length) : bitAt (a ++ b) i = bitAt a i := by
  rw [bitAt, bitAt, getD_append _ _ _ _ (by omega)]

theorem bitAt_append_right {a : List UInt8} (b : List UInt8) {i : Nat} (h : 8 * a.length ≤ i) :
    bitAt (a ++ b) i = bitAt b (i - 8 * a.length) := by
  have hbyte : (i - 8 * a.length) / 8 = i / 8 - a.length := by omega
  have hplace : (i - 8 * a.length) % 8 = i % 8 := by omega
  rw [bitAt, bitAt, getD_append_right _ _ _ _ (by omega), hbyte, hplace]

theorem bitAt_drop (a : List UInt8) (n i : Nat) : bitAt (a.drop n) i = bitAt a (8 * n + i) := by
  have hbyte : (8 * n + i) / 8 = n + i / 8 := by omega
  have hplace : (8 * n + i) % 8 = i % 8 := by omega
  rw [bitAt, bitAt, hbyte, hplace, getD_eq_getElem?_getD, getD_eq_getElem?_getD, getElem?_drop]

theorem bitAt_take (a : List UInt8) {n i : Nat} (h : i < 8 * n) : bitAt (a.take n) i = bitAt a i := by
  rw [bitAt, bitAt, getD_eq_getElem?_getD, getD_eq_getElem?_getD, getElem?_take_of_lt (by omega)]

theorem bitAt_replicate_zero (n i : Nat) : bitAt (List.replicate n 0) i = false := by
  rw [bitAt, getD_eq_getElem?_getD, getElem?_replicate]
  split
  · exact BitVec.getLsbD_zero
  · exact BitVec.getLsbD_zero

theorem bitAt_modify (a : List UInt8) (n : Nat) (f : UInt8 → UInt8) {i : Nat} (h : i < 8 * a.length) : bitAt (a.modify n f) i =
    if i / 8 = n then (f (a.getD n 0)).toBitVec.getLsbD (7 - i % 8) else bitAt a i := by
  have hin : i / 8 < a.length := by omega
  have hin' : i / 8 < (a.modify n f).length := by rwa [length_modify]
  rw [bitAt, bitAt, getD_eq_getElem _ _ hin', getD_eq_getElem _ _ hin, getElem_modify]
  by_cases heq : i / 8 = n
  · have hsame : a.getD n 0 = a[i / 8] := by rw [← heq, getD_eq_getElem _ _ hin]
    rw [if_pos heq.symm, if_pos heq, hsame]
  · rw [if_neg (Ne.symm heq), if_neg heq]

theorem getLsbD_lowMask (k : Nat) {j : Nat} (hj : j < 8) : (UInt8.ofNat ((1 <<< k) - 1)).toBitVec.getLsbD j = decide (j < k) := by
  have hmask : (UInt8.ofNat ((1 <<< k) - 1)).toBitVec = BitVec.ofNat 8 (2 ^ k - 1) := by
    rw [Nat.one_shiftLeft]
    rfl
  rw [hmask, BitVec.getLsbD_ofNat, Nat.testBit_two_pow_sub_one, decide_eq_true hj, Bool.true_and]

end Ns3
