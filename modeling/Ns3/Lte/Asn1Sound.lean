import Ns3.Lte.Asn1Header

/-!
# What `Asn1Header` writes is what it reads

The writer is described by the bits it was given so far: whole octets, and the
rest at the top of the register. The reader is described by the bits still to
come: those in the register, then those of the octets left.
-/

namespace Ns3

open BitStream List

namespace Asn1Header

variable {n : Nat}

/-! ## The writer -/

/-- The bits given to the header so far. -/
def Written (h : Asn1Header) (bs : List Bool) : Prop :=
  ∃ pre, Holds h.serializationPendingBits pre ∧ h.numSerializationPendingBits = pre.length ∧ pre.length < 8 ∧
    bs = stream h.serializationResult ++ pre

theorem written_new : Written new [] := ⟨[], holds_zero, rfl, by simp, rfl⟩

theorem mask_next {k : Nat} {mask : BitVec 8} (hk : k < 8) (hm : mask = 0x80#8 >>> k) :
    (mask >>> 1) &&& ~~~mask = 0x80#8 >>> (k + 1) := by
  subst hm
  revert k
  decide

theorem completeOctet_spec (data : BitVec n) : ∀ (p : Nat) {octet : BitVec 8} {pre : List Bool},
    Holds octet pre → pre.length ≤ 8 →
    ∃ p' octet' xs, completeOctet data p (0x80#8 >>> pre.length) octet pre.length = (p', octet', (pre ++ xs).length) ∧
      Holds octet' (pre ++ xs) ∧ (pre ++ xs).length ≤ 8 ∧ lowBits data p = xs ++ lowBits data p' ∧
      (p' = 0 ∨ (pre ++ xs).length = 8)
  | 0, octet, pre, ho, hl => ⟨0, octet, [], by simp [completeOctet], by simpa using ho, by simpa using hl, rfl, .inl rfl⟩
  | p + 1, octet, pre, ho, hl => by
    unfold completeOctet
    by_cases hlt : pre.length < 8
    · rw [if_pos hlt, mask_next hlt rfl]
      have hlen : (pre ++ [data.getLsbD p]).length = pre.length + 1 := by simp
      obtain ⟨p', octet', xs, he, ho', hl', hb, hx⟩ :=
        completeOctet_spec data p (ho.push hlt (data.getLsbD p)) (by omega)
      rw [hlen] at he
      refine ⟨p', octet', data.getLsbD p :: xs, ?_, by simpa using ho', by simpa using hl', ?_, by simpa using hx⟩
      · rw [he]
        simp
      · rw [lowBits, hb, cons_append]
    · rw [if_neg hlt]
      exact ⟨p + 1, octet, [], by simp, by simpa using ho, by simpa using hl, rfl, .inr (by simp; omega)⟩

theorem storePendingBits_holds (data : BitVec n) : ∀ (p : Nat) {octet : BitVec 8} {pre : List Bool},
    Holds octet pre → pre.length + p ≤ 8 →
    Holds (storePendingBits data p (0x80#8 >>> pre.length) octet) (pre ++ lowBits data p)
  | 0, octet, pre, ho, _ => by simpa [storePendingBits, lowBits] using ho
  | p + 1, octet, pre, ho, hl => by
    have hlt : pre.length < 8 := by omega
    have hlen : (pre ++ [data.getLsbD p]).length = pre.length + 1 := by simp
    have h := storePendingBits_holds data p (ho.push hlt (data.getLsbD p)) (by omega)
    rw [hlen] at h
    unfold storePendingBits
    rw [mask_next hlt rfl, lowBits]
    simpa using h

theorem lowMask_next : ∀ j < 8, ((1#8 <<< (7 - j)) <<< 1) &&& ~~~(1#8 <<< (7 - j)) = 1#8 <<< (8 - j) := by
  decide

theorem getLsbD_lowMask : ∀ k < 8, ∀ i < 8, (1#8 <<< k).getLsbD i = decide (i = k) := by
  decide

theorem getLsbD_octetToWrite (data : BitVec n) (p : Nat) : ∀ (j : Nat) (octet : BitVec 8), j ≤ 8 →
    (∀ i < 8, octet.getLsbD i = (decide (i < 8 - j) && data.getLsbD (p + i))) →
    ∀ i < 8, (octetToWrite data (p + 8) j (1#8 <<< (8 - j)) octet).getLsbD i = data.getLsbD (p + i)
  | 0, octet, _, ho => fun i hi => by
    rw [octetToWrite, ho i hi]
    simp [hi]
  | j + 1, octet, hj, ho => by
    unfold octetToWrite
    have hk : 8 - (j + 1) = 7 - j := by omega
    have hd : p + 8 - (j + 1) = p + (7 - j) := by omega
    rw [hk, lowMask_next j (by omega), hd]
    refine getLsbD_octetToWrite data p j _ (by omega) fun i hi => ?_
    rw [BitVec.getLsbD_or, ho i hi, hk]
    have hm := getLsbD_lowMask (7 - j) (by omega) i hi
    rcases Nat.lt_trichotomy i (7 - j) with h | h | h
    · have h1 : i < 8 - j := by omega
      have h2 : i ≠ 7 - j := by omega
      split <;> simp [h, h1, h2, hm]
    · have h1 : i < 8 - j := by omega
      subst h
      split <;> simp_all
    · have h1 : ¬i < 8 - j := by omega
      have h2 : i ≠ 7 - j := by omega
      have h3 : ¬i < 7 - j := by omega
      split <;> simp [h1, h2, h3, hm]

theorem bits_octetToWrite (data : BitVec n) (p : Nat) :
    lowBits data (p + 8) = bits (octetToWrite data (p + 8) 8 1#8 0#8) ++ lowBits data p := by
  have h := getLsbD_octetToWrite data p 8 0#8 (le_refl 8) (by simp)
  simp only [Nat.sub_self, BitVec.shiftLeft_zero] at h
  simp only [bits, lowBits, cons_append, nil_append]
  rw [h 0 (by simp), h 1 (by simp), h 2 (by simp), h 3 (by simp), h 4 (by simp), h 5 (by simp), h 6 (by simp),
    h 7 (by simp)]
  rfl

variable {h : Asn1Header} {bs : List Bool}

theorem Written.writeOctet (hw : Written h bs)
    (hn : h.numSerializationPendingBits = 0) (octet : BitVec 8) : Written (h.writeOctet octet) (bs ++ bits octet) := by
  obtain ⟨pre, ho, hl, h8, rfl⟩ := hw
  obtain rfl : pre = [] := eq_nil_of_length_eq_zero (hl ▸ hn)
  exact ⟨[], ho, hn, h8, by simp [Asn1Header.writeOctet]⟩

theorem serializePending_written (data : BitVec n) (p : Nat) (h : Asn1Header) : ∀ {bs : List Bool}, Written h bs →
    (p = 0 ∨ h.numSerializationPendingBits = 0) → Written (serializePending data p h) (bs ++ lowBits data p) := by
  induction p, h using serializePending.induct data with
  | case1 h =>
    intro bs hw _
    simpa [serializePending, lowBits] using hw
  | case2 p h ih =>
    intro bs hw hz
    have hn : h.numSerializationPendingBits = 0 := by omega
    rw [serializePending, bits_octetToWrite, ← append_assoc]
    exact ih (hw.writeOctet hn _) (.inr hn)
  | case3 p h h0 h8 =>
    intro bs hw hz
    have hp : p ≠ 0 := h0
    have hn : h.numSerializationPendingBits = 0 := by omega
    have hlt : p < 8 := by
      by_contra hge
      exact h8 (p - 8) (by omega)
    obtain ⟨pre, ho, hl, _, rfl⟩ := hw
    obtain rfl : pre = [] := eq_nil_of_length_eq_zero (hl ▸ hn)
    rw [serializePending.eq_3 _ _ _ h0 h8]
    refine ⟨lowBits data p, ?_, by simp, by simpa using hlt, by simp⟩
    simpa using storePendingBits_holds data p ho (by simpa using hlt.le)

theorem serializeBitset_written (hw : Written h bs) (data : BitVec n)
    (hn : n < 256) : Written (serializeBitset data h) (bs ++ bits data) := by
  unfold serializeBitset
  by_cases h0 : n = 0
  · subst h0
    simpa [bits, lowBits] using hw
  rw [if_neg h0, if_pos (by omega), Nat.mod_eq_of_lt hn]
  by_cases hz : 0 < h.numSerializationPendingBits
  · obtain ⟨pre, ho, hl, h8, rfl⟩ := hw
    obtain ⟨p', octet', xs, he, ho', hl', hb, hx⟩ := completeOctet_spec data n ho h8.le
    rw [if_pos hz, hl, he]
    simp only
    rw [bits, hb, append_assoc, ← append_assoc pre]
    by_cases hfull : 8 ≤ (pre ++ xs).length
    · rw [if_pos hfull]
      have h8' : (pre ++ xs).length = 8 := by omega
      have hbits := ho'.bits hl'
      rw [h8'] at hbits
      rw [← append_assoc]
      refine serializePending_written data p' _ ?_ (.inr rfl)
      exact ⟨[], holds_zero, rfl, by simp, by simp [Asn1Header.writeOctet, hbits]⟩
    · rw [if_neg hfull]
      rw [← append_assoc]
      refine serializePending_written data p' _ ?_ (.inl (by omega))
      exact ⟨pre ++ xs, ho', rfl, by omega, rfl⟩
  · rw [if_neg hz]
    exact serializePending_written data n h hw (.inr (by omega))

theorem finalizeSerialization_stream (hw : Written h bs) :
    ∃ k < 8, stream (finalizeSerialization h).serializationResult = bs ++ List.replicate k false := by
  unfold finalizeSerialization
  by_cases hz : 0 < h.numSerializationPendingBits
  · obtain ⟨pre, ho, hl, h8, rfl⟩ := hw
    rw [if_pos hz]
    refine ⟨8 - pre.length, by omega, ?_⟩
    have hbits : stream (serializeBitset h.serializationPendingBits
        { h with numSerializationPendingBits := 0 }).serializationResult =
        stream h.serializationResult ++ bits h.serializationPendingBits := by
      have hw : bits h.serializationPendingBits = bits (octetToWrite h.serializationPendingBits 8 8 1#8 0#8) :=
        (bits_octetToWrite h.serializationPendingBits 0).trans (append_nil _)
      rw [hw]
      simp [serializeBitset, serializePending, Asn1Header.writeOctet]
    rw [hbits, ho.bits h8.le, append_assoc]
  · obtain ⟨pre, ho, hl, h8, rfl⟩ := hw
    obtain rfl : pre = [] := eq_nil_of_length_eq_zero (by omega)
    rw [if_neg hz]
    exact ⟨0, by simp, by simp⟩

/-! ## The reader -/

/-- The bits still to be read: those in the register, then the octets. -/
def Unread (h : Asn1Header) (bIterator : List (BitVec 8)) (bs : List Bool) : Prop :=
  h.numSerializationPendingBits < 8 ∧
    bs = (bits h.serializationPendingBits).take h.numSerializationPendingBits ++ stream bIterator

theorem unread_start (hn : h.numSerializationPendingBits = 0) (bIterator : List (BitVec 8)) :
    Unread h bIterator (stream bIterator) := by
  simp [Unread, hn]

theorem Unread.octets {bIterator : List (BitVec 8)} (hu : Unread h bIterator bs) :
    bIterator.length = bs.length / 8 := by
  obtain ⟨hn, rfl⟩ := hu
  simp only [length_append, length_take, bits_length, stream_length]
  omega

theorem bits_shift (octet : BitVec 8) : bits octet = octet.getMsbD 0 :: (bits (octet <<< 1)).take 7 := by
  have h := take_bits_shiftLeft octet (k := 1) (by omega)
  rw [show 8 - 1 = 7 from rfl] at h
  rw [h]
  have h0 := getElem?_bits octet (i := 0) (by omega)
  cases hb : bits octet with
  | nil => simp [hb] at h0
  | cons b bs =>
    rw [hb] at h0
    simp only [getElem?_cons_zero, Option.some.injEq] at h0
    rw [h0]
    rfl

theorem readPendingBits_spec : ∀ (k : Nat) (data : BitVec n) (octet : BitVec 8) (num : Nat), num ≤ 8 →
    ∃ xs octet', readPendingBits k data octet num = (k - xs.length, fill data k xs, octet', num - xs.length) ∧
      xs.length = min k num ∧ (bits octet).take num = xs ++ (bits octet').take (num - xs.length)
  | 0, data, octet, num, _ => ⟨[], octet, by simp [readPendingBits], by simp, by simp⟩
  | k + 1, data, octet, 0, _ => ⟨[], octet, by simp [readPendingBits], by simp, by simp⟩
  | k + 1, data, octet, num + 1, hn => by
    obtain ⟨xs, octet', he, hl, hb⟩ :=
      readPendingBits_spec k (set data k (octet.getMsbD 0)) (octet <<< 1) num (by omega)
    have htop : (octet &&& 0x80#8 != 0) = octet.getMsbD 0 := and_mask_ne_zero octet (k := 0) (by omega)
    refine ⟨octet.getMsbD 0 :: xs, octet', ?_, by simp [hl], ?_⟩
    · rw [readPendingBits, htop, he]
      simp [fill]
    · rw [bits_shift octet, take_succ_cons, take_take, Nat.min_eq_left (by omega), hb]
      simp

theorem readOctetBits_eq (octet : BitVec 8) : ∀ (j i k : Nat) (data : BitVec n), j + i ≤ 8 → j ≤ k →
    readOctetBits octet j (0x80#8 >>> i) k data = fill data k (((bits octet).drop i).take j)
  | 0, i, k, data, _, _ => by simp [readOctetBits]
  | j + 1, i, k, data, hi, hk => by
    obtain ⟨k, rfl⟩ : ∃ k', k = k' + 1 := ⟨k - 1, by omega⟩
    have hshift : (0x80#8 >>> i) >>> 1 = (0x80#8 >>> (i + 1) : BitVec 8) := (BitVec.shiftRight_add _ i 1).symm
    have hdrop : (bits octet).drop i = octet.getMsbD i :: (bits octet).drop (i + 1) := by
      have hlen : i < (bits octet).length := by simp; omega
      have hget := getElem?_bits octet (i := i) (by omega)
      rw [getElem?_eq_getElem hlen, Option.some.injEq] at hget
      rw [drop_eq_getElem_cons hlen, hget]
    rw [readOctetBits, and_mask_ne_zero octet (by omega), hshift, hdrop, take_succ_cons, fill]
    exact readOctetBits_eq octet j (i + 1) k _ (by omega) (by omega)

theorem readOctets_spec (k : Nat) (data : BitVec n) (h : Asn1Header) (bIterator : List (BitVec 8)) :
    ∀ (xs : List Bool) {rest : List Bool}, Unread h bIterator (xs ++ rest) → xs.length = k →
      (k = 0 ∨ h.numSerializationPendingBits = 0) →
      ∃ h' it, readOctets k data h bIterator = some (fill data k xs, h', it) ∧ Unread h' it rest := by
  induction k, data, h, bIterator using readOctets.induct with
  | case1 data h it =>
    intro xs rest hu hl _
    obtain rfl := eq_nil_of_length_eq_zero hl
    exact ⟨h, it, by simp [readOctets], hu⟩
  | case2 k data h =>
    intro xs rest hu hl hz
    have hn : h.numSerializationPendingBits = 0 := by omega
    have := hu.2
    simp only [hn, take_zero, stream_nil, append_nil, append_eq_nil_iff] at this
    simp [this.1] at hl
  | case3 k data h octet it ih =>
    intro xs rest hu hl hz
    have hn : h.numSerializationPendingBits = 0 := by lia
    obtain ⟨hn8, hb⟩ := hu
    simp only [hn, take_zero, nil_append, stream_cons] at hb
    have hlen : (xs.take 8).length = (bits octet).length := by simp [hl]
    rw [← take_append_drop 8 xs, append_assoc] at hb
    obtain ⟨hx, hrest⟩ := append_inj hb hlen
    obtain ⟨h', it', he, hu'⟩ := ih (xs.drop 8) ⟨hn8, by simpa [hn] using hrest⟩ (by simp [hl]) (.inr hn)
    refine ⟨h', it', ?_, hu'⟩
    have hoct : readOctetBits octet 8 0x80#8 (k + 8) data = fill data (k + 8) (xs.take 8) := by
      rw [hx]
      have h8 := readOctetBits_eq octet 8 0 (k + 8) data (by omega) (by omega)
      rwa [drop_zero, take_of_length_le (by simp)] at h8
    rw [hoct] at he
    rw [readOctets, hoct, he]
    have happ := fill_append data (xs.take 8) (xs.drop 8) (k + 8) (by simp [hl])
    rw [hlen, bits_length, Nat.add_sub_cancel, take_append_drop] at happ
    rw [happ]
  | case4 k data h octet it h0 h8 =>
    intro xs rest hu hl hz
    have hk : k ≠ 0 := h0
    have hn : h.numSerializationPendingBits = 0 := by omega
    have hlt : k < 8 := by
      by_contra hge
      exact h8 (k - 8) (by omega)
    obtain ⟨-, hb⟩ := hu
    simp only [hn, take_zero, nil_append, stream_cons] at hb
    rw [← take_append_drop k (bits octet), append_assoc] at hb
    obtain ⟨hx, hrest⟩ := append_inj hb (by simp [hl]; omega)
    rw [readOctets.eq_4 _ _ _ _ _ h0 h8]
    refine ⟨_, _, congrArg (fun d => some (d, _, it)) ?_, ?_, ?_⟩
    · rw [hx]
      simpa using readOctetBits_eq octet k 0 k data (by omega) (le_refl k)
    · simp only
      omega
    · rw [hrest, take_bits_shiftLeft octet hlt.le]

theorem deserializeBitset_spec (data v : BitVec n) {bIterator : List (BitVec 8)} {rest : List Bool}
    (hu : Unread h bIterator (bits v ++ rest)) :
    ∃ h' it, deserializeBitset data h bIterator = some (v, h', it) ∧ Unread h' it rest := by
  obtain ⟨hn, hb⟩ := hu
  obtain ⟨xs, octet, he, hl, hx⟩ :=
    readPendingBits_spec n data h.serializationPendingBits h.numSerializationPendingBits hn.le
  rw [hx, append_assoc] at hb
  have hxs : xs.length ≤ n := by omega
  -- the register gives the first bits of `v`, the octets the others
  rw [← take_append_drop xs.length (bits v), append_assoc] at hb
  obtain ⟨htake, hrest⟩ := append_inj hb (by simp [hxs])
  obtain ⟨h', it, hr, hu'⟩ := readOctets_spec (n - xs.length) (fill data n xs)
    { h with serializationPendingBits := octet, numSerializationPendingBits := h.numSerializationPendingBits - xs.length }
    bIterator ((bits v).drop xs.length) ⟨by simp only; omega, hrest⟩ (by simp) (by simp only; omega)
  refine ⟨h', it, ?_, hu'⟩
  rw [deserializeBitset, he]
  simp only
  rw [hr, fill_append data xs _ n hxs]
  have hv : xs ++ (bits v).drop xs.length = bits v := by
    nth_rewrite 1 [← htake]
    exact take_append_drop xs.length (bits v)
  rw [hv, fill_bits]

end Asn1Header

end Ns3
