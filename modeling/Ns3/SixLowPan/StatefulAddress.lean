import Ns3.Lib.PrefixBits
import Ns3.SixLowPan.IphcSound

/-!
# Addresses that are compressed with a context

The prefix of a context is written over what was sent of an address. What comes
back is compared with the address bit by bit: `ContextKeeps` says which bits of
an address a context loses.
-/

namespace Ns3

open Ipv6Address List

namespace Ipv6Address

variable {a b : Ipv6Address}

theorem bitAt_ofBytes (buf : Bytes) {i : Nat} (hi : i < 128) : bitAt (ofBytes buf).bytes i = bitAt buf i := by
  rw [ofBytes, bitAt_take _ (by omega)]
  by_cases hin : i < 8 * buf.length
  · rw [bitAt_append_left _ hin]
  · rw [bitAt_append_right _ (by omega), bitAt_replicate_zero, bitAt_of_le (by omega)]

theorem ext_iff_bitAt : a = b ↔ ∀ i < 128, bitAt a.bytes i = bitAt b.bytes i := by
  constructor
  · intro heq i _
    rw [heq]
  · intro hbits
    have hlength : a.bytes.length = b.bytes.length := a.length_bytes.trans b.length_bytes.symm
    refine ext_bytes (eq_of_bitAt hlength fun i hi => hbits i ?_)
    rw [a.length_bytes] at hi
    exact hi

theorem bitAt_autoconfigured (mac : MacAddress) (p : Ipv6Prefix) {i : Nat} (hi : i < 128) (hlow : 64 ≤ i) :
    bitAt (makeAutoconfiguredLinkLocalAddress mac).bytes i = bitAt (makeAutoconfiguredAddress mac p).bytes i := by
  have hprefix : ((getOnes.combinePrefix p).bytes.take 8).length = 8 := by
    rw [length_take, length_bytes]
    rfl
  have hlocal : linkLocalPrefix.length = 8 := rfl
  rw [makeAutoconfiguredLinkLocalAddress, makeAutoconfiguredAddress, bitAt_ofBytes _ hi, bitAt_ofBytes _ hi,
    bitAt_append_right _ (by omega), bitAt_append_right _ (by omega), hprefix, hlocal]

theorem bitAt_linkLocal (mac : MacAddress) {i : Nat} (hi : i < 64) :
    bitAt (makeAutoconfiguredLinkLocalAddress mac).bytes i = bitAt linkLocalPrefix i := by
  have hlocal : linkLocalPrefix.length = 8 := rfl
  rw [makeAutoconfiguredLinkLocalAddress, bitAt_ofBytes _ (by omega), bitAt_append_left _ (by omega)]

end Ipv6Address

namespace SixLowPanNetDevice

open HeaderCompression SixLowPanIphc

variable {p : Ipv6Prefix} {a : Ipv6Address} {mac : MacAddress}

/-! ## The two ends of an address -/

theorem bitAt_splice {x y : Bytes} (hx : x.length = 16) (n : Nat) {i : Nat} (hi : i < 128) :
    bitAt (x.take n ++ y.drop n) i = if i < 8 * n then bitAt x i else bitAt y i := by
  have hlength : (x.take n).length = min n 16 := by rw [length_take, hx]
  split
  · rw [bitAt_append_left _ (by omega), bitAt_take _ (by omega)]
  · rw [bitAt_append_right _ (by omega), bitAt_drop, hlength]
    congr 1
    omega

theorem length_splice {x y : Bytes} (hx : x.length = 16) (hy : y.length = 16) (n : Nat) : (x.take n ++ y.drop n).length = 16 := by
  rw [length_append, length_take, length_drop, hx, hy]
  omega

theorem bitAt_overridePrefix {address : Bytes} (hlength : address.length = 16) {i : Nat} (hi : i < 128) :
    bitAt (overridePrefix p address) i = if i < p.prefixLength.toNat then bitAt p.address.bytes i else bitAt address i := by
  have hsplice := bitAt_splice (y := address) p.address.length_bytes (p.prefixLength.toNat / 8) hi
  have hsize := length_splice p.address.length_bytes hlength (p.prefixLength.toNat / 8)
  rw [overridePrefix]
  by_cases hbits : p.prefixLength.toNat % 8 ≠ 0
  · rw [if_pos hbits, bitAt_modify _ _ _ (by omega)]
    by_cases hbyte : i / 8 = p.prefixLength.toNat / 8
    · have hplace : 7 - i % 8 < 8 := by omega
      have hmask := getLsbD_lowMask (8 - p.prefixLength.toNat % 8) hplace
      have hof (bytes : Bytes) : (bytes.getD (p.prefixLength.toNat / 8) 0).toBitVec.getLsbD (7 - i % 8) = bitAt bytes i := by
        rw [bitAt, hbyte]
      simp only [if_pos hbyte, UInt8.toBitVec_or, UInt8.toBitVec_and, UInt8.toBitVec_not, BitVec.getLsbD_or, BitVec.getLsbD_and,
        BitVec.getLsbD_not, hmask, hof, hsplice, decide_eq_true hplace, Bool.true_and, if_neg (show ¬i < 8 * (p.prefixLength.toNat / 8) by omega)]
      by_cases hin : i < p.prefixLength.toNat
      · have houtside : ¬7 - i % 8 < 8 - p.prefixLength.toNat % 8 := by omega
        simp [hin, houtside]
      · have hinside : 7 - i % 8 < 8 - p.prefixLength.toNat % 8 := by omega
        simp [hin, hinside]
    · rw [if_neg hbyte, hsplice]
      congr 1
      exact propext (by omega)
  · rw [if_neg hbits, hsplice]
    congr 1
    exact propext (by omega)

theorem bitAt_cleanPrefix (a : Ipv6Address) (p : Ipv6Prefix) {i : Nat} (hi : i < 128) : bitAt (cleanPrefix a p).bytes i =
    if i < 8 * (p.prefixLength.toNat / 8) then false
    else if i / 8 = p.prefixLength.toNat / 8 ∧ p.prefixLength.toNat % 8 ≠ 0 ∧ i % 8 + p.prefixLength.toNat % 8 < 8 then false
    else bitAt a.bytes i := by
  have hsplice : bitAt (replicate (p.prefixLength.toNat / 8) 0 ++ a.bytes.drop (p.prefixLength.toNat / 8)) i =
      if i < 8 * (p.prefixLength.toNat / 8) then false else bitAt a.bytes i := by
    split
    · rw [bitAt_append_left _ (by rwa [length_replicate]), bitAt_replicate_zero]
    · rw [bitAt_append_right _ (by rw [length_replicate]; omega), bitAt_drop, length_replicate]
      congr 1
      omega
  rw [cleanPrefix, bitAt_ofBytes _ hi]
  by_cases hbits : p.prefixLength.toNat % 8 ≠ 0
  · rw [if_pos hbits, bitAt_modify _ _ _ (by rw [length_append, length_replicate, length_drop, a.length_bytes]; omega)]
    by_cases hbyte : i / 8 = p.prefixLength.toNat / 8
    · have hplace : 7 - i % 8 < 8 := by omega
      have hmask := getLsbD_lowMask (p.prefixLength.toNat % 8) hplace
      have hof (bytes : Bytes) : (bytes.getD (p.prefixLength.toNat / 8) 0).toBitVec.getLsbD (7 - i % 8) = bitAt bytes i := by
        rw [bitAt, hbyte]
      have hbehind : ¬i < 8 * (p.prefixLength.toNat / 8) := by omega
      simp only [if_pos hbyte, UInt8.toBitVec_and, BitVec.getLsbD_and, hmask, hof, hsplice, if_neg hbehind]
      by_cases hlost : i % 8 + p.prefixLength.toNat % 8 < 8
      · have houtside : ¬7 - i % 8 < p.prefixLength.toNat % 8 := by omega
        simp [hbyte, hbits, hlost, houtside]
      · have hinside : 7 - i % 8 < p.prefixLength.toNat % 8 := by omega
        simp [hlost, hinside]
    · rw [if_neg hbyte, hsplice]
      simp [hbyte]
  · rw [if_neg hbits, hsplice]
    simp [not_not.mp hbits]

/-! ## What comes back -/

/-- The address before the prefix of a context is written over it. -/
def sentBytes (p : Ipv6Prefix) (mac : MacAddress) (a : Ipv6Address) : Bytes :=
  if makeAutoconfiguredAddress mac p = a then (makeAutoconfiguredLinkLocalAddress mac).bytes
  else List.replicate 8 0 ++ (cleanPrefix a p).bytes.drop 8

theorem length_sentBytes : (sentBytes p mac a).length = 16 := by
  rw [sentBytes]
  split
  · exact length_bytes _
  · rw [length_append, length_replicate, length_drop, length_bytes]

theorem decompressStateful_compressStateful (a : Ipv6Address) (mac : MacAddress) (context : ContextEntry) :
    decompressStateful (compressStateful a mac context).1
      (inlineBytes (unicastSize (compressStateful a mac context).1) (compressStateful a mac context).2) mac context =
      .ofBytes (overridePrefix context.contextPrefix (sentBytes context.contextPrefix mac a)) := by
  rw [compressStateful, sentBytes]
  by_cases hauto : makeAutoconfiguredAddress mac context.contextPrefix = a
  · rw [if_pos hauto, if_pos hauto]
    rfl
  · rw [if_neg hauto, if_neg hauto]
    by_cases hshort : ((cleanPrefix a context.contextPrefix).bytes.drop 8).take 6 = [0, 0, 0, 0xff, 0xfe, 0]
    · have hpart := inlineBytes_eq (length_drop_bytes (cleanPrefix a context.contextPrefix) 14)
      have hsplit := (take_append_drop 6 ((cleanPrefix a context.contextPrefix).bytes.drop 8)).symm
      rw [hshort, drop_drop] at hsplit
      simp only [if_pos hshort, unicastSize, hpart, decompressStateful]
      rw [hsplit]
      rfl
    · have hpart := inlineBytes_eq (length_drop_bytes (cleanPrefix a context.contextPrefix) 8)
      simp only [if_neg hshort, unicastSize, hpart, decompressStateful]

/-- The bits of an address that a context does not lose. -/
structure ContextKeeps (p : Ipv6Prefix) (mac : MacAddress) (a : Ipv6Address) : Prop where
  /-- The address has the prefix, zeros of it included. -/
  covered : ∀ i < p.prefixLength.toNat, bitAt a.bytes i = bitAt p.address.bytes i
  /-- Between a short prefix and the interface identifier are zeros, or `fe80` for an address that is made from `mac`. -/
  between : ∀ i < 64, p.prefixLength.toNat ≤ i → bitAt a.bytes i =
    (decide (makeAutoconfiguredAddress mac p = a) && bitAt linkLocalPrefix i)
  /-- In the byte where a long prefix ends are zeros that the mask clears. -/
  masked : makeAutoconfiguredAddress mac p ≠ a → ∀ i, 64 ≤ i → p.prefixLength.toNat ≤ i →
    i / 8 = p.prefixLength.toNat / 8 → p.prefixLength.toNat % 8 ≠ 0 → i % 8 + p.prefixLength.toNat % 8 < 8 → bitAt a.bytes i = false

theorem bitAt_sentBytes {i : Nat} (hi : i < 128) : bitAt (sentBytes p mac a) i =
    if makeAutoconfiguredAddress mac p = a then if i < 64 then bitAt linkLocalPrefix i else bitAt a.bytes i
    else if i < 64 then false else bitAt (cleanPrefix a p).bytes i := by
  rw [sentBytes]
  by_cases hauto : makeAutoconfiguredAddress mac p = a
  · rw [if_pos hauto, if_pos hauto]
    split
    · exact bitAt_linkLocal mac ‹_›
    · rw [bitAt_autoconfigured mac p hi (by omega), hauto]
  · rw [if_neg hauto, if_neg hauto]
    split
    · rw [bitAt_append_left _ (by rwa [length_replicate]), bitAt_replicate_zero]
    · rw [bitAt_append_right _ (by rw [length_replicate]; omega), bitAt_drop, length_replicate]
      congr 1
      omega

theorem stateful_back_iff : ofBytes (overridePrefix p (sentBytes p mac a)) = a ↔ ContextKeeps p mac a := by
  have hbit {i : Nat} (hi : i < 128) : bitAt (ofBytes (overridePrefix p (sentBytes p mac a))).bytes i =
      if i < p.prefixLength.toNat then bitAt p.address.bytes i else bitAt (sentBytes p mac a) i := by
    rw [bitAt_ofBytes _ hi, bitAt_overridePrefix length_sentBytes hi]
  rw [ext_iff_bitAt]
  constructor
  · intro hall
    refine ⟨fun i hi => ?_, fun i hi hle => ?_, fun hauto i hlow hle hbyte hbits hlost => ?_⟩
    · by_cases hin : i < 128
      · have hsame := hall i hin
        rw [hbit hin, if_pos hi] at hsame
        exact hsame.symm
      · rw [bitAt_of_le (by rw [a.length_bytes]; omega), bitAt_of_le (by rw [p.address.length_bytes]; omega)]
    · have hsame := hall i (by omega)
      rw [hbit (by omega), if_neg (by omega), bitAt_sentBytes (by omega)] at hsame
      rw [← hsame]
      by_cases hauto : makeAutoconfiguredAddress mac p = a
      · rw [if_pos hauto, if_pos hi, decide_eq_true hauto, Bool.true_and]
      · rw [if_neg hauto, if_pos hi, decide_eq_false hauto, Bool.false_and]
    · by_cases hin : i < 128
      · have hsame := hall i hin
        rw [hbit hin, if_neg (by omega), bitAt_sentBytes hin, if_neg hauto, if_neg (by omega), bitAt_cleanPrefix _ _ hin,
          if_neg (by omega), if_pos ⟨hbyte, hbits, hlost⟩] at hsame
        exact hsame.symm
      · exact bitAt_of_le (by rw [a.length_bytes]; omega)
  · intro hkeeps i hi
    rw [hbit hi]
    by_cases hcovered : i < p.prefixLength.toNat
    · rw [if_pos hcovered, hkeeps.covered i hcovered]
    · rw [if_neg hcovered, bitAt_sentBytes hi]
      by_cases hhigh : i < 64
      · rw [hkeeps.between i hhigh (by omega)]
        by_cases hauto : makeAutoconfiguredAddress mac p = a
        · rw [if_pos hauto, if_pos hhigh, decide_eq_true hauto, Bool.true_and]
        · rw [if_neg hauto, if_pos hhigh, decide_eq_false hauto, Bool.false_and]
      · by_cases hauto : makeAutoconfiguredAddress mac p = a
        · rw [if_pos hauto, if_neg hhigh]
        · rw [if_neg hauto, if_neg hhigh, bitAt_cleanPrefix _ _ hi, if_neg (by omega)]
          by_cases hlost : i / 8 = p.prefixLength.toNat / 8 ∧ p.prefixLength.toNat % 8 ≠ 0 ∧ i % 8 + p.prefixLength.toNat % 8 < 8
          · rw [if_pos hlost]
            exact (hkeeps.masked hauto i (by omega) (by omega) hlost.1 hlost.2.1 hlost.2.2).symm
          · rw [if_neg hlost]

/-- A context that is found for an address loses none of its bits, and with it `mac` does not stand for `::`. -/
def KeepsUnicast (d : SixLowPanNetDevice) (a : Ipv6Address) (mac : MacAddress) : Prop :=
  ∀ contextId context, d.findUnicastCompressionContext a = some (contextId, context) →
    makeAutoconfiguredAddress mac context.contextPrefix ≠ .getAny ∧ ContextKeeps context.contextPrefix mac a

variable {d : SixLowPanNetDevice}

theorem unicastBack_iff_keepsUnicast : d.unicastBack a mac = some a ↔ d.KeepsUnicast a mac := by
  cases hcontext : d.findUnicastCompressionContext a with
  | none =>
    rw [unicastBack, hcontext]
    constructor
    · intro _ _ _ hfound
      cases hcontext.symm.trans hfound
    · intro _
      rfl
  | some found =>
    obtain ⟨contextId, context⟩ := found
    have hall : d.KeepsUnicast a mac ↔
        makeAutoconfiguredAddress mac context.contextPrefix ≠ .getAny ∧ ContextKeeps context.contextPrefix mac a := by
      constructor
      · intro hkeeps
        exact hkeeps contextId context hcontext
      · intro hkeeps _ _ hfound
        cases hcontext.symm.trans hfound
        exact hkeeps
    have hvalid := find?_some hcontext
    simp only [decide_eq_true_eq] at hvalid
    have hknown : d.contextOf contextId = some context := by
      rw [contextOf, d.m_contextTable.find_of_mem (mem_of_find?_eq_some hcontext)]
      exact if_neg (not_lt_of_gt hvalid.2.1)
    rw [hall]
    by_cases hany : makeAutoconfiguredAddress mac context.contextPrefix = .getAny
    · rw [unicastBack, hcontext]
      constructor
      · intro hback
        cases (if_pos hany).symm.trans hback
      · intro hkeeps
        exact absurd hany hkeeps.1
    · rw [unicastBack_of_found hcontext (by rw [autoconfigurationAborts, hcontext]; exact decide_eq_false hany), hknown,
        Option.map_some, decompressStateful_compressStateful, Option.some_inj, stateful_back_iff]
      exact (and_iff_right hany).symm

theorem sourceBack_iff_keepsUnicast : d.sourceBack a mac = some a ↔ (a ≠ .getAny → d.KeepsUnicast a mac) := by
  rw [sourceBack]
  by_cases hany : a = .getAny
  · rw [if_pos hany]
    exact iff_of_true rfl fun hne => absurd hany hne
  · rw [if_neg hany, unicastBack_iff_keepsUnicast]
    exact ⟨fun hkeeps _ => hkeeps, fun hkeeps => hkeeps hany⟩

theorem destinationBack_iff_keepsUnicast :
    d.destinationBack a mac = some a ↔ (a.isMulticast = false → d.KeepsUnicast a mac) := by
  rw [destinationBack]
  cases a.isMulticast with
  | true => exact iff_of_true rfl Bool.noConfusion
  | false =>
    rw [if_neg Bool.false_ne_true, unicastBack_iff_keepsUnicast]
    exact ⟨fun hkeeps _ => hkeeps, fun hkeeps => hkeeps rfl⟩

end SixLowPanNetDevice

end Ns3
