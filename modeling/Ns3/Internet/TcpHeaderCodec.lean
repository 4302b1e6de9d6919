import Ns3.Internet.TcpHeader

/-!
# Round trip of TCP headers

A header with known options reads back with the same fields and options, and an
option `END` where they are padded. Any 60 bytes are read as a header unless the
loop meets an option that stops it: one of an unknown kind with the size 0, over
which it does not get, a segment size of another length, which aborts, or one
that goes on past the end of the bytes.
-/

namespace Ns3

open List Option

namespace TcpHeader

open TcpOption

/-! ## Appended options -/

section
variable {options : List TcpOption} {op : TcpOption} {h : TcpHeader}

theorem optionsSize_cons (op : TcpOption) (options : List TcpOption) :
    optionsSize (op :: options) = op.getSerializedSize + optionsSize options := rfl

theorem optionsSize_append (options others : List TcpOption) :
    optionsSize (options ++ others) = optionsSize options + optionsSize others := by
  simp [optionsSize]

theorem known_kind (hop : Known op) : isKindKnown op.getKind = true ∧ op.getKind ≠ END ∧ 0 < op.getSerializedSize := by
  cases op with
  | eol => exact hop.elim
  | unknown kind size content => exact hop.elim
  | nop => exact ⟨rfl, by decide, by decide⟩
  | sackPermitted => exact ⟨rfl, by decide, by decide⟩
  | mss m => exact ⟨rfl, (by decide : MSS ≠ END), (by decide : 0 < 4)⟩
  | winScale scale => exact ⟨rfl, (by decide : WINSCALE ≠ END), (by decide : 0 < 3)⟩
  | ts timestamp echo => exact ⟨rfl, (by decide : TS ≠ END), (by decide : 0 < 10)⟩
  | sack sackList =>
    refine ⟨rfl, (by decide : SACK ≠ END), ?_⟩
    simp only [TcpOption.getSerializedSize]
    omega

theorem appendOption_eq (hop : Known op) (hsize : h.optionsLen + op.getSerializedSize ≤ maxOptionsLen) :
    h.appendOption op = ({ h with
      options := h.options ++ [op]
      optionsLen := h.optionsLen + op.getSerializedSize
      length := (20 + 3 + (h.optionsLen + op.getSerializedSize)) / 4 }, true) := by
  obtain ⟨hknown, hend, -⟩ := known_kind hop
  rw [appendOption, if_pos hsize, hknown, Bool.not_true, if_neg Bool.false_ne_true, if_pos hend]

theorem appendOptions_eq (hops : ∀ op ∈ options, Known op) :
    ∀ h : TcpHeader, h.length = (20 + 3 + h.optionsLen) / 4 → h.optionsLen + optionsSize options ≤ maxOptionsLen →
      h.appendOptions options = { h with
        options := h.options ++ options
        optionsLen := h.optionsLen + optionsSize options
        length := (20 + 3 + (h.optionsLen + optionsSize options)) / 4 } := by
  induction options with
  | nil =>
    intro h hlength _
    have hzero : optionsSize [] = 0 := rfl
    simp only [append_nil, hzero, Nat.add_zero, ← hlength]
    rfl
  | cons op options ih =>
    intro h _ hsize
    rw [optionsSize_cons] at hsize
    have hstep := appendOption_eq (h := h) (hops op mem_cons_self) (by omega)
    show (h.appendOption op).1.appendOptions options = _
    rw [hstep, ih (fun op hop => hops op (mem_cons_of_mem _ hop)) _ rfl (by simp only; omega)]
    simp only [append_assoc, cons_append, nil_append, optionsSize_cons, Nat.add_assoc]

end

/-! ## Reading the options back -/

def padding (options : List TcpOption) : List TcpOption := if optionsSize options % 4 = 0 then [] else [eol]

variable {options : List TcpOption} {h : TcpHeader}

theorem optionsLoop_serialize (hops : ∀ op ∈ options, Known op) (hsize : optionsSize options ≤ 40)
    (p : Nat) (rest : Bytes) : ∀ rounds : Nat, options.length < rounds →
      optionsLoop rounds ((options.map TcpOption.serialize).flatten ++ (List.replicate p END ++ rest)) (optionsSize options + p) =
        some (options ++ if p = 0 then [] else [eol], optionsSize options + p) := by
  induction options with
  | nil =>
    intro rounds hrounds
    obtain ⟨rounds, rfl⟩ := Nat.exists_eq_add_one_of_ne_zero (Nat.ne_of_gt hrounds)
    have hzero : optionsSize [] + p = p := by simp [optionsSize]
    rw [hzero, optionsLoop]
    by_cases hp : p = 0
    · simp [hp]
    · obtain ⟨p, rfl⟩ := Nat.exists_eq_add_one_of_ne_zero hp
      have hread : TcpOption.deserialize (replicate (p + 1) END ++ rest) = some (eol, 1) := rfl
      simp only [map_nil, flatten_nil, nil_append, if_neg hp, hread, bind_some, TcpOption.getSerializedSize,
        ne_eq, not_true_eq_false, if_false, getKind, if_true]
      rw [if_neg (by omega), if_pos (by simp)]
  | cons op options ih =>
    intro rounds hrounds
    obtain ⟨rounds, rfl⟩ := Nat.exists_eq_add_one_of_ne_zero (Nat.ne_of_gt (Nat.lt_of_le_of_lt (Nat.zero_le _) hrounds))
    rw [optionsSize_cons] at hsize
    obtain ⟨-, hend, hpos⟩ := known_kind (hops op mem_cons_self)
    have hread := TcpOption.deserialize_serialize (hops op mem_cons_self) (by omega)
      ((options.map TcpOption.serialize).flatten ++ (replicate p END ++ rest))
    have hdrop : (op.serialize ++ ((options.map TcpOption.serialize).flatten ++ (replicate p END ++ rest))).drop op.getSerializedSize =
        (options.map TcpOption.serialize).flatten ++ (replicate p END ++ rest) :=
      drop_left' (TcpOption.length_serialize (hops op mem_cons_self))
    have hrest := ih (fun op hop => hops op (mem_cons_of_mem _ hop)) (by omega) rounds (by
      rw [length_cons] at hrounds
      omega)
    have hleft : optionsSize (op :: options) + p - op.getSerializedSize = optionsSize options + p := by
      rw [optionsSize_cons]
      omega
    rw [optionsLoop, map_cons, flatten_cons, append_assoc, if_neg (by rw [optionsSize_cons]; omega), hread,
      bind_some]
    simp only [ne_eq, not_true_eq_false, if_false, hend, hdrop, hleft, hrest, map_some]
    rw [if_neg (by rw [optionsSize_cons]; omega), optionsSize_cons, cons_append, Nat.add_assoc]

theorem length_flatten_serialize (hops : ∀ op ∈ options, Known op) :
    (options.map TcpOption.serialize).flatten.length = optionsSize options := by
  induction options with
  | nil => rfl
  | cons op options ih =>
    rw [map_cons, flatten_cons, length_append, TcpOption.length_serialize (hops op mem_cons_self),
      ih fun op hop => hops op (mem_cons_of_mem _ hop), optionsSize_cons]

theorem length_serializeWith (hops : ∀ op ∈ h.options, Known op) (checksum : Nat) :
    (h.serializeWith checksum).length = 20 + (optionsSize h.options + (4 - optionsSize h.options % 4) % 4) := by
  simp [serializeWith, serializeOptions, length_flatten_serialize hops]
  omega

theorem getSerializedSize_eq (hsize : optionsSize h.options ≤ maxOptionsLen) :
    h.getSerializedSize = 20 + (optionsSize h.options + (4 - optionsSize h.options % 4) % 4) := by
  rw [maxOptionsLen] at hsize
  simp only [getSerializedSize, calculateHeaderLength]
  split
  · lia
  · lia

theorem length_le_optionsSize (hops : ∀ op ∈ options, Known op) : options.length ≤ optionsSize options := by
  induction options with
  | nil => exact Nat.le_refl _
  | cons op options ih =>
    have hpos := (known_kind (hops op mem_cons_self)).2.2
    have hle := ih fun op hop => hops op (mem_cons_of_mem _ hop)
    rw [length_cons, optionsSize_cons]
    omega

theorem getSerializedSize_padding {h h' : TcpHeader} (hoptions : h'.options = h.options ++ padding h.options) :
    h'.getSerializedSize = h.getSerializedSize := by
  simp only [getSerializedSize, calculateHeaderLength, hoptions, optionsSize_append, padding]
  by_cases hzero : optionsSize h.options % 4 = 0
  · have hnone : optionsSize [] = 0 := rfl
    rw [if_pos hzero, hnone, Nat.add_zero]
  · have hone : optionsSize [eol] = 1 := rfl
    rw [if_neg hzero, hone]
    split
    · lia
    · rw [if_pos (by lia)]
      omega

def padLength (options : List TcpOption) : Nat := (4 - optionsSize options % 4) % 4

theorem deserialize_serializeWith (hops : ∀ op ∈ h.options, Known op) (hsize : optionsSize h.options ≤ maxOptionsLen)
    (hlength : h.length = (20 + 3 + optionsSize h.options) / 4) (checksum : Nat) (old : TcpHeader) (payload : Bytes) {rounds : Nat}
    (hrounds : 40 < rounds) :
    ∃ goodChecksum, deserialize rounds old (h.serializeWith checksum ++ payload) = some ({ h with
      options := h.options ++ padding h.options
      optionsLen := optionsSize h.options + padLength h.options
      calcChecksum := old.calcChecksum
      goodChecksum := goodChecksum }, h.getSerializedSize) := by
  rw [maxOptionsLen] at hsize
  have hsp := h.sourcePort.toNat_lt
  have hdp := h.destinationPort.toNat_lt
  have hseq := h.sequenceNumber.toNat_lt
  have hack := h.ackNumber.toNat_lt
  have hflags := h.flags.toNat_lt
  have hwindow := h.windowSize.toNat_lt
  have hurgent := h.urgentPointer.toNat_lt
  have hfield : ((h.getLength <<< 12) ||| h.flags.toNat) = h.length * 4096 + h.flags.toNat := by
    rw [getLength, Nat.shiftLeft_eq]
    exact or_eq_add 12 (by omega) (by omega)
  have hfieldLt : h.length * 4096 + h.flags.toNat < 65536 := by omega
  have hhigh : (h.length * 4096 + h.flags.toNat) >>> 12 = h.length := by
    omega
  have hlow : (h.length * 4096 + h.flags.toNat) &&& 0xff = h.flags.toNat := by
    have hmask := Nat.and_two_pow_sub_one_eq_mod (h.length * 4096 + h.flags.toNat) 8
    simp only [Nat.reducePow, Nat.add_one_sub_one] at hmask
    omega
  have hspace : uint32 (((h.length : Nat) - 5) * 4) = optionsSize h.options + padLength h.options := by
    rw [hlength, padLength, uint32]
    lia
  have hcount := length_le_optionsSize hops
  have hloop := optionsLoop_serialize hops hsize (padLength h.options) payload rounds (by omega)
  have hpad : (if padLength h.options = 0 then [] else [eol]) = padding h.options := by
    rw [padding, padLength]
    by_cases hzero : optionsSize h.options % 4 = 0
    · rw [if_pos hzero, if_pos (by lia)]
    · rw [if_neg hzero, if_neg (by lia)]
  rw [hpad] at hloop
  simp only [deserialize, serializeWith, serializeOptions, append_assoc, readNtoh_writeHton, bind_some, hfield,
    readBytes_of_length (length_leBytes 2 checksum)]
  rw [Nat.mod_eq_of_lt (a := h.length * 4096 + h.flags.toNat) (by simpa using hfieldLt)]
  simp only [hhigh, hlow, hspace]
  rw [if_neg (by rw [maxOptionsLen, padLength]; omega)]
  have hbytes : (4 - optionsSize h.options % 4) % 4 = padLength h.options := rfl
  simp only [hbytes, hloop, map_some]
  rw [Nat.mod_eq_of_lt (by simpa using hsp), Nat.mod_eq_of_lt (by simpa using hdp), Nat.mod_eq_of_lt (by simpa using hseq),
    Nat.mod_eq_of_lt (by simpa using hack), Nat.mod_eq_of_lt (by simpa using hwindow), Nat.mod_eq_of_lt (by simpa using hurgent)]
  simp only [UInt16.ofNat_toNat, UInt32.ofNat_toNat, UInt8.ofNat_toNat]
  exact ⟨_, congrArg some (Prod.ext rfl (getSerializedSize_padding rfl))⟩

/-! ## Any bytes -/

end TcpHeader

namespace TcpOption

/-- The bytes that an option in front takes, when its kind has that size. -/
def span : Bytes → Option Nat
  | [] => none
  | kind :: bytes =>
    if kind = END ∨ kind = NOP then some 1
    else
      match bytes with
      | [] => none
      | size :: _ =>
        if kind = MSS then if size = 4 then some 4 else none
        else if kind = WINSCALE then if size = 3 then some 3 else none
        else if kind = SACKPERMITTED then if size = 2 then some 2 else none
        else if kind = SACK then some (2 + (size.toNat - 2) / 8 * 8)
        else if kind = TS then if size = 10 then some 10 else none
        else if 2 ≤ size.toNat ∧ size.toNat ≤ 40 then some size.toNat else none

/-- An option in front that has no kind or no size, goes on past the end, has the size 0
though its kind is unknown, or is a segment size of another length. -/
def stuck : Bytes → Bool
  | [] => true
  | kind :: bytes =>
    if kind = END ∨ kind = NOP then false
    else
      match bytes with
      | [] => true
      | size :: content =>
        match span (kind :: size :: content) with
        | some n => content.length + 2 < n
        | none => kind = MSS || (!isKindKnown kind && size = 0)

variable {n : Nat}

theorem readNtoh_none {bytes : Bytes} (h : bytes.length < n) : readNtoh n bytes = none := by
  rw [readNtoh, readBytes, if_neg (by omega)]
  rfl

theorem readNtoh_some {bytes : Bytes} (h : n ≤ bytes.length) : readNtoh n bytes = some (ofNtoh (bytes.take n), bytes.drop n) := by
  rw [readNtoh, readBytes, if_pos h]
  rfl

theorem deserializeBlocks_cases (sackCount : Nat) : ∀ bytes : Bytes,
    (bytes.length < sackCount * 8 → deserializeBlocks sackCount bytes = none) ∧
      (sackCount * 8 ≤ bytes.length → ∃ sackList, deserializeBlocks sackCount bytes = some sackList ∧ sackList.length = sackCount) := by
  induction sackCount with
  | zero =>
    intro bytes
    exact ⟨fun h => by omega, fun _ => ⟨[], rfl, rfl⟩⟩
  | succ sackCount ih =>
    intro bytes
    constructor
    · intro hshort
      rw [deserializeBlocks]
      by_cases hleft : bytes.length < 4
      · rw [readNtoh_none hleft]
        rfl
      · by_cases hright : (bytes.drop 4).length < 4
        · simp only [readNtoh_some (Nat.not_lt.mp hleft), bind_some, readNtoh_none hright, bind_none]
        · have hrest := (ih ((bytes.drop 4).drop 4)).1 (by
            rw [length_drop] at hright
            rw [length_drop, length_drop]
            omega)
          simp only [readNtoh_some (Nat.not_lt.mp hleft), bind_some, readNtoh_some (Nat.not_lt.mp hright), hrest, map_none]
    · intro hlong
      have hleft : 4 ≤ bytes.length := by omega
      have hright : 4 ≤ (bytes.drop 4).length := by
        rw [length_drop]
        omega
      obtain ⟨sackList, hblocks, hlength⟩ := (ih ((bytes.drop 4).drop 4)).2 (by
        rw [length_drop, length_drop]
        omega)
      simp only [deserializeBlocks, readNtoh_some hleft, bind_some, readNtoh_some hright, hblocks, map_some]
      exact ⟨_, rfl, by rw [length_cons, hlength]⟩

/-- What `Deserialize` makes of the option in front. -/
structure Read (bytes : Bytes) : Prop where
  stopped : stuck bytes = true →
    deserialize bytes = none ∨ ∃ op, deserialize bytes = some (op, 0) ∧ op.getSerializedSize = 0 ∧ op.getKind ≠ END
  taken : ∀ n, stuck bytes = false → span bytes = some n →
    ∃ op, deserialize bytes = some (op, n) ∧ op.getSerializedSize = n ∧ 0 < n ∧ n ≤ bytes.length ∧ bytes.head? = some op.getKind
  refused : stuck bytes = false → span bytes = none → ∃ op n, deserialize bytes = some (op, n) ∧ n ≠ op.getSerializedSize

theorem Read.sized {kind size : UInt8} {content : Bytes} (hplain : ¬ (kind = END ∨ kind = NOP))
    (hspan : span (kind :: size :: content) = some n) (hpos : 0 < n)
    (hshort : content.length + 2 < n → deserialize (kind :: size :: content) = none) (hread : n ≤ content.length + 2 →
      ∃ op, deserialize (kind :: size :: content) = some (op, n) ∧ op.getSerializedSize = n ∧ op.getKind = kind) :
    Read (kind :: size :: content) := by
  have hstuck : stuck (kind :: size :: content) = decide (content.length + 2 < n) := by
    simp only [stuck, if_neg hplain, hspan]
  refine ⟨fun h => .inl (hshort ?_), fun k h hk => ?_, fun _ hnone => ?_⟩
  · rw [hstuck] at h
    exact of_decide_eq_true h
  · rw [hstuck] at h
    cases hspan.symm.trans hk
    have hle := Nat.not_lt.mp (of_decide_eq_false h)
    obtain ⟨op, hop, hsize, hkind⟩ := hread hle
    exact ⟨op, hop, hsize, hpos, hle, by rw [hkind]; rfl⟩
  · rw [hspan] at hnone
    cases hnone

theorem Read.mismatched {kind size : UInt8} {content : Bytes} (hplain : ¬ (kind = END ∨ kind = NOP))
    (hspan : span (kind :: size :: content) = none) (hkind : kind ≠ MSS) (hsize : isKindKnown kind = true ∨ size ≠ 0)
    (hread : ∃ op n, deserialize (kind :: size :: content) = some (op, n) ∧ n ≠ op.getSerializedSize) :
    Read (kind :: size :: content) := by
  have hstuck : stuck (kind :: size :: content) = false := by
    simp only [stuck, if_neg hplain, hspan, decide_eq_false hkind, Bool.false_or]
    rcases hsize with hknown | hsize
    · rw [hknown]
      rfl
    · rw [decide_eq_false hsize, Bool.and_false]
  refine ⟨fun h => ?_, fun n _ hn => ?_, fun _ _ => hread⟩
  · rw [hstuck] at h
    cases h
  · rw [hspan] at hn
    cases hn

theorem read (bytes : Bytes) : Read bytes := by
  cases bytes with
  | nil =>
    have hstuck : stuck [] ≠ false := Bool.noConfusion
    exact ⟨fun _ => .inl rfl, fun _ h => absurd h hstuck, fun h => absurd h hstuck⟩
  | cons kind bytes =>
    by_cases hplain : kind = END ∨ kind = NOP
    · have hspan : span (kind :: bytes) = some 1 := by cases bytes <;> simp only [span, if_pos hplain]
      have hstuck : stuck (kind :: bytes) = false := by cases bytes <;> simp only [stuck, if_pos hplain]
      refine ⟨fun h => ?_, fun n _ hn => ?_, fun _ hnone => ?_⟩
      · rw [hstuck] at h
        cases h
      · cases hspan.symm.trans hn
        rcases hplain with rfl | rfl
        · exact ⟨eol, rfl, rfl, by decide, by simp, rfl⟩
        · exact ⟨nop, rfl, rfl, by decide, by simp, rfl⟩
      · rw [hspan] at hnone
        cases hnone
    · obtain ⟨hend, hnop⟩ := not_or.mp hplain
      cases bytes with
      | nil =>
        have hnone : deserialize [kind] = none := by
          simp only [deserialize, bind_some, if_neg hend, if_neg hnop, readU8, bind_none]
        have hstuck : stuck [kind] = true := by simp only [stuck, if_neg hplain]
        refine ⟨fun _ => .inl hnone, fun n h => ?_, fun h => ?_⟩
        · rw [hstuck] at h
          cases h
        · rw [hstuck] at h
          cases h
      | cons size content =>
        have hdes : deserialize (kind :: size :: content) =
            if kind = MSS then
              if size = 4 then (readNtoh 2 content).map fun m => (mss (UInt16.ofNat m.1), 4) else none
            else if kind = WINSCALE then
              if size = 3 then (readU8 content).map fun scale => (winScale scale.1, 3) else some (winScale 0, 0)
            else if kind = SACKPERMITTED then some (sackPermitted, if size = 2 then 2 else 0)
            else if kind = SACK then
              (deserializeBlocks ((size.toNat - 2) / 8) content).map fun sackList =>
                (sack sackList, (sack sackList).getSerializedSize)
            else if kind = TS then
              if size = 10 then
                (readNtoh 4 content).bind fun timestamp =>
                  (readNtoh 4 timestamp.2).map fun echo => (ts (UInt32.ofNat timestamp.1) (UInt32.ofNat echo.1), 10)
              else some (ts 0 0, 0)
            else if size.toNat < 2 ∨ 40 < size.toNat then some (unknown kind size [], 0)
            else (readBytes (size.toNat - 2) content).map fun content => (unknown kind size content.1, size.toNat) := by
          simp only [deserialize, readU8_cons, bind_some, if_neg hend, if_neg hnop]
        by_cases hmss : kind = MSS
        · subst hmss
          by_cases hsize : size = 4
          · subst hsize
            refine Read.sized hplain rfl (by decide) (fun hshort => ?_) fun hlong => ?_
            · rw [hdes, if_pos rfl, if_pos rfl, readNtoh_none (by omega)]
              rfl
            · rw [hdes, if_pos rfl, if_pos rfl, readNtoh_some (by omega)]
              exact ⟨_, rfl, rfl, rfl⟩
          · have hnone : deserialize (MSS :: size :: content) = none := by rw [hdes, if_pos rfl, if_neg hsize]
            have hspan : span (MSS :: size :: content) = none := by simp only [span, if_neg hplain, if_true, if_neg hsize]
            have hstuck : stuck (MSS :: size :: content) = true := by simp [stuck, if_neg hplain, hspan]
            refine ⟨fun _ => .inl hnone, fun n h => ?_, fun h => ?_⟩
            · rw [hstuck] at h
              cases h
            · rw [hstuck] at h
              cases h
        rw [if_neg hmss] at hdes
        by_cases hwin : kind = WINSCALE
        · subst hwin
          rw [if_pos rfl] at hdes
          by_cases hsize : size = 3
          · subst hsize
            refine Read.sized hplain rfl (by decide) (fun hshort => ?_) fun hlong => ?_
            · obtain rfl := length_eq_zero_iff.mp (show content.length = 0 by omega)
              rfl
            · obtain ⟨scale, rest, rfl⟩ := exists_cons_of_length_pos (show 0 < content.length by omega)
              exact ⟨winScale scale, rfl, rfl, rfl⟩
          · refine Read.mismatched hplain (by simp only [span, if_neg hplain, if_neg hmss, if_true, if_neg hsize]) hmss
              (.inl rfl) ⟨winScale 0, 0, by rw [hdes, if_neg hsize], by decide⟩
        rw [if_neg hwin] at hdes
        by_cases hperm : kind = SACKPERMITTED
        · subst hperm
          rw [if_pos rfl] at hdes
          by_cases hsize : size = 2
          · subst hsize
            refine Read.sized hplain rfl (by decide) (fun hshort => by omega) fun _ => ⟨sackPermitted, ?_, rfl, rfl⟩
            rw [hdes, if_pos rfl]
          · refine Read.mismatched hplain (by simp only [span, if_neg hplain, if_neg hmss, if_neg hwin, if_true, if_neg hsize]) hmss
              (.inl rfl) ⟨sackPermitted, 0, by rw [hdes, if_neg hsize], by decide⟩
        rw [if_neg hperm] at hdes
        by_cases hsack : kind = SACK
        · subst hsack
          rw [if_pos rfl] at hdes
          obtain ⟨hshort, hlong⟩ := deserializeBlocks_cases ((size.toNat - 2) / 8) content
          refine Read.sized (n := 2 + (size.toNat - 2) / 8 * 8) hplain
            (by simp only [span, if_neg hplain, if_neg hmss, if_neg hwin, if_neg hperm, if_true]) (by omega) (fun h => ?_) fun h => ?_
          · rw [hdes, hshort (by omega)]
            rfl
          · obtain ⟨sackList, hblocks, hlength⟩ := hlong (by omega)
            have hsize : (sack sackList).getSerializedSize = 2 + (size.toNat - 2) / 8 * 8 := by
              rw [TcpOption.getSerializedSize, hlength]
            refine ⟨sack sackList, ?_, hsize, rfl⟩
            rw [hdes, hblocks, map_some, hsize]
        rw [if_neg hsack] at hdes
        by_cases hts : kind = TS
        · subst hts
          rw [if_pos rfl] at hdes
          by_cases hsize : size = 10
          · subst hsize
            rw [if_pos rfl] at hdes
            refine Read.sized hplain rfl (by decide) (fun hshort => ?_) fun hlong => ?_
            · rw [hdes]
              by_cases hleft : content.length < 4
              · rw [readNtoh_none hleft]
                rfl
              · have hright : (content.drop 4).length < 4 := by
                  rw [length_drop]
                  omega
                simp only [readNtoh_some (Nat.not_lt.mp hleft), bind_some, readNtoh_none hright, map_none]
            · have hleft : 4 ≤ content.length := by omega
              have hright : 4 ≤ (content.drop 4).length := by
                rw [length_drop]
                omega
              simp only [hdes, readNtoh_some hleft, bind_some, readNtoh_some hright, map_some]
              exact ⟨_, rfl, rfl, rfl⟩
          · refine Read.mismatched hplain
              (by simp only [span, if_neg hplain, if_neg hmss, if_neg hwin, if_neg hperm, if_neg hsack, if_true, if_neg hsize]) hmss
              (.inl rfl) ⟨ts 0 0, 0, by rw [hdes, if_neg hsize], by decide⟩
        rw [if_neg hts] at hdes
        have hunknown : isKindKnown kind = false := by
          simp only [isKindKnown, decide_eq_false hend, decide_eq_false hnop, decide_eq_false hmss, decide_eq_false hwin,
            decide_eq_false hperm, decide_eq_false hsack, decide_eq_false hts, Bool.or_false]
        have hspan : span (kind :: size :: content) = if 2 ≤ size.toNat ∧ size.toNat ≤ 40 then some size.toNat else none := by
          simp only [span, if_neg hplain, if_neg hmss, if_neg hwin, if_neg hperm, if_neg hsack, if_neg hts]
        by_cases hsize : size.toNat < 2 ∨ 40 < size.toNat
        · rw [if_pos hsize] at hdes
          rw [if_neg (by lia)] at hspan
          by_cases hzero : size = 0
          · have hstuck : stuck (kind :: size :: content) = true := by
              simp only [stuck, if_neg hplain, hspan, hunknown, decide_eq_true hzero, Bool.not_false, Bool.and_true, Bool.or_true]
            refine ⟨fun _ => .inr ⟨_, hdes, by rw [hzero]; rfl, hend⟩, fun n h => ?_, fun h => ?_⟩
            · rw [hstuck] at h
              cases h
            · rw [hstuck] at h
              cases h
          · refine Read.mismatched hplain hspan hmss (.inr hzero) ⟨_, 0, hdes, fun heq => hzero ?_⟩
            exact UInt8.toNat_inj.mp heq.symm
        · rw [if_neg hsize] at hdes
          rw [if_pos (by omega)] at hspan
          refine Read.sized hplain hspan (by omega) (fun hshort => ?_) fun hlong => ?_
          · rw [hdes, readBytes, if_neg (by omega)]
            rfl
          · rw [hdes, readBytes, if_pos (by omega)]
            exact ⟨_, rfl, rfl, rfl⟩

end TcpOption

namespace TcpHeader

open TcpOption

/-- The loop comes to an option: what is in front of the bytes, or behind an option that
is accepted. -/
inductive Meets : Bytes → Nat → Bytes → Prop
  | here {bytes : Bytes} {optionLen : Nat} : 0 < optionLen → Meets bytes optionLen bytes
  | next {bytes front : Bytes} {optionLen n : Nat} : bytes.head? ≠ some END → span bytes = some n → n < optionLen →
      Meets (bytes.drop n) (optionLen - n) front → Meets bytes optionLen front

theorem Meets.pos {bytes front : Bytes} {optionLen : Nat} (h : Meets bytes optionLen front) : 0 < optionLen := by
  cases h with
  | here hpos => exact hpos
  | next _ _ hlt _ => omega

theorem optionsLoop_some (rounds : Nat) : ∀ (bytes : Bytes) (optionLen : Nat), optionLen < rounds → optionLen ≤ bytes.length →
    (∀ front, Meets bytes optionLen front → stuck front = false) →
    ∃ options optionsLen, optionsLoop rounds bytes optionLen = some (options, optionsLen) ∧ optionsSize options ≤ optionLen ∧
      optionsLen ≤ optionLen := by
  induction rounds with
  | zero =>
    intro bytes optionLen hrounds
    exact absurd hrounds (Nat.not_lt_zero _)
  | succ rounds ih =>
    intro bytes optionLen hrounds hlength hclear
    rw [optionsLoop]
    by_cases hzero : optionLen = 0
    · rw [if_pos hzero]
      exact ⟨[], 0, rfl, Nat.zero_le _, Nat.zero_le _⟩
    · rw [if_neg hzero]
      have hstuck := hclear bytes (.here (Nat.pos_of_ne_zero hzero))
      cases hspan : span bytes with
      | none =>
        obtain ⟨op, n, hread, hne⟩ := (read bytes).refused hstuck hspan
        rw [hread, bind_some]
        simp only [if_pos hne]
        exact ⟨[], 0, rfl, Nat.zero_le _, Nat.zero_le _⟩
      | some n =>
        obtain ⟨op, hread, hsize, hpos, hle, hkind⟩ := (read bytes).taken n hstuck hspan
        rw [hread, bind_some]
        simp only [hsize, ne_eq, not_true_eq_false, if_false]
        by_cases hfits : optionLen < n
        · rw [if_pos hfits]
          exact ⟨[], 0, rfl, Nat.zero_le _, Nat.zero_le _⟩
        · rw [if_neg hfits]
          by_cases hend : op.getKind = END
          · rw [if_pos hend, if_pos hlength]
            refine ⟨[op], optionLen, rfl, ?_, Nat.le_refl _⟩
            have hone : optionsSize [op] = n := by simp [optionsSize, hsize]
            rw [hone]
            exact Nat.not_lt.mp hfits
          · rw [if_neg hend]
            have hnext : ∀ front, Meets (bytes.drop n) (optionLen - n) front → stuck front = false := by
              intro front hfront
              have hleft := hfront.pos
              refine hclear front (.next ?_ hspan (by omega) hfront)
              rw [hkind]
              exact fun heq => hend (Option.some.inj heq)
            obtain ⟨options, optionsLen, hloop, hsum, hlen⟩ := ih (bytes.drop n) (optionLen - n) (by omega)
              (by rw [length_drop]; omega) hnext
            refine ⟨op :: options, n + optionsLen, by rw [hloop]; rfl, ?_, by omega⟩
            rw [optionsSize_cons, hsize]
            omega

theorem optionsLoop_none (rounds : Nat) : ∀ {bytes : Bytes} {optionLen : Nat} {front : Bytes}, Meets bytes optionLen front →
    stuck front = true → optionsLoop rounds bytes optionLen = none := by
  induction rounds with
  | zero =>
    intro bytes optionLen front hmeets _
    rw [optionsLoop, if_neg (Nat.ne_of_gt hmeets.pos)]
  | succ rounds ih =>
    intro bytes optionLen front hmeets hstop
    have hpos := hmeets.pos
    rw [optionsLoop, if_neg (Nat.ne_of_gt hpos)]
    by_cases hstuck : stuck bytes = true
    · rcases (read bytes).stopped hstuck with hnone | ⟨op, hread, hsize, hend⟩
      · rw [hnone]
        rfl
      · -- the option takes no space, so the loop comes to it again
        have hagain := ih (.here hpos) hstuck
        rw [hread, bind_some]
        simp only [hsize, ne_eq, not_true_eq_false, if_false, if_neg (Nat.not_lt_zero _), if_neg hend, drop_zero, Nat.sub_zero,
          hagain, map_none]
    · rw [Bool.not_eq_true] at hstuck
      cases hmeets with
      | here _ =>
        rw [hstuck] at hstop
        cases hstop
      | next hhead hspan hlt hrest =>
        have hagain := ih hrest hstop
        obtain ⟨op, hread, hsize, -, -, hkind⟩ := (read bytes).taken _ hstuck hspan
        have hend : op.getKind ≠ END := fun heq => hhead (by rw [hkind, heq])
        rw [hread, bind_some]
        simp only [hsize, ne_eq, not_true_eq_false, if_false, if_neg (Nat.not_lt.mpr (Nat.le_of_lt hlt)), if_neg hend, hagain,
          map_none]

/-- The length in words that the header in front tells. -/
def dataOffset (bytes : Bytes) : Nat := ofNtoh ((bytes.drop 12).take 2) >>> 12

def optionSpace (bytes : Bytes) : Nat := (dataOffset bytes - 5) * 4

variable {bytes : Bytes}

theorem dataOffset_lt (hlength : 60 ≤ bytes.length) : dataOffset bytes < 16 := by
  have hfield := ofNtoh_lt ((bytes.drop 12).take 2)
  have hbytes : ((bytes.drop 12).take 2).length = 2 := by
    rw [length_take, length_drop]
    omega
  rw [hbytes] at hfield
  rw [dataOffset, Nat.shiftRight_eq_div_pow]
  omega

theorem deserialize_long (hlength : 60 ≤ bytes.length) (rounds : Nat) (old : TcpHeader) :
    (dataOffset bytes < 5 → ∃ h, deserialize rounds old bytes = some (h, 20) ∧ h.options = []) ∧
    (5 ≤ dataOffset bytes → ∃ filled : List TcpOption × Nat → TcpHeader, (∀ r, (filled r).options = r.1) ∧
        deserialize rounds old bytes =
    (optionsLoop rounds (bytes.drop 20) (optionSpace bytes)).map fun r => (filled r, (filled r).getSerializedSize)) := by
  have hlt := dataOffset_lt hlength
  have hspace : 5 ≤ dataOffset bytes → uint32 (((dataOffset bytes : Nat) - 5) * 4) = optionSpace bytes := by
    rw [uint32, optionSpace]
    omega
  have hshort : dataOffset bytes < 5 → maxOptionsLen < uint32 (((dataOffset bytes : Nat) - 5) * 4) := by
    rw [uint32, maxOptionsLen]
    omega
  have hread : ∀ n k : Nat, n + k ≤ 60 → readNtoh n (bytes.drop k) = some (ofNtoh ((bytes.drop k).take n), bytes.drop (k + n)) := by
    intro n k hk
    rw [readNtoh_some (by rw [length_drop]; omega), drop_drop]
  have hskip : readBytes 2 (bytes.drop 16) = some ((bytes.drop 16).take 2, bytes.drop 18) := by
    rw [readBytes, if_pos (by rw [length_drop]; omega), drop_drop]
  have hfirst := hread 2 0 (by decide)
  rw [drop_zero] at hfirst
  simp only [deserialize, hfirst, hread 2 2 (by decide), hread 4 4 (by decide), hread 4 8 (by decide), hread 2 12 (by decide),
    hread 2 14 (by decide), hskip, hread 2 18 (by decide), bind_some, Nat.zero_add, Nat.reduceAdd]
  constructor
  · intro hoff
    exact ⟨_, if_pos (hshort hoff), rfl⟩
  · intro hoff
    have hfield := hspace hoff
    rw [dataOffset] at hfield
    rw [hfield, if_neg (by rw [optionSpace, maxOptionsLen]; omega)]
    exact ⟨_, fun r => rfl, rfl⟩

theorem deserialize_some_iff (hlength : 60 ≤ bytes.length) (old : TcpHeader) :
    (∃ rounds h len, deserialize rounds old bytes = some (h, len) ∧ optionsSize h.options ≤ maxOptionsLen ∧ len ≤ 60) ↔
      ∀ front, Meets (bytes.drop 20) (optionSpace bytes) front → stuck front = false := by
  have hlt := dataOffset_lt hlength
  constructor
  · rintro ⟨rounds, h, len, hread, -⟩ front hfront
    rw [← Bool.not_eq_true]
    intro hstuck
    have hpos := hfront.pos
    obtain ⟨filled, -, hloop⟩ := (deserialize_long hlength rounds old).2 (by rw [optionSpace] at hpos; omega)
    rw [optionsLoop_none rounds hfront hstuck, hread] at hloop
    cases hloop
  · intro hclear
    obtain ⟨hshort, hlong⟩ := deserialize_long hlength 41 old
    by_cases hoff : dataOffset bytes < 5
    · obtain ⟨h, hread, hnone⟩ := hshort hoff
      have hzero : optionsSize h.options = 0 := by rw [hnone]; rfl
      exact ⟨41, h, 20, hread, by rw [hzero]; exact Nat.zero_le _, by decide⟩
    · obtain ⟨filled, hfilled, hread⟩ := hlong (Nat.not_lt.mp hoff)
      have hspace : optionSpace bytes ≤ 40 := by rw [optionSpace]; omega
      obtain ⟨options, optionsLen, hloop, hsize, -⟩ := optionsLoop_some 41 (bytes.drop 20) (optionSpace bytes) (by omega)
        (by rw [length_drop]; omega) hclear
      rw [hloop, map_some] at hread
      have hfit : optionsSize (filled (options, optionsLen)).options ≤ maxOptionsLen := by
        rw [hfilled]
        exact Nat.le_trans hsize hspace
      refine ⟨41, _, _, hread, hfit, ?_⟩
      rw [maxOptionsLen] at hfit
      rw [getSerializedSize_eq hfit]
      omega

/-! ## Headers with options -/

/-- Headers with known options read back. Any 60 bytes are a header exactly when the loop
comes to no option that stops it. -/
theorem codec_iff {h : TcpHeader} {options : List TcpOption} (hempty : h.options = []) (hzero : h.optionsLen = 0) (hfive : h.length = 5)
    (hops : ∀ op ∈ options, Known op) (hsize : optionsSize options ≤ maxOptionsLen) (payload : Bytes) (old : TcpHeader) {rounds : Nat}
    (hrounds : 40 < rounds) {bytes : Bytes} (hlength : 60 ≤ bytes.length) :
    ((h.appendOptions options).options = options ∧
      (h.appendOptions options).getLength * 4 = (h.appendOptions options).getSerializedSize ∧
      ((h.appendOptions options).serialize payload).length = (h.appendOptions options).getSerializedSize ∧
      ∃ goodChecksum, deserialize rounds old ((h.appendOptions options).serialize payload ++ payload) = some ({ h with
        length := (h.appendOptions options).length
        options := options ++ padding options
        optionsLen := optionsSize options + padLength options
        calcChecksum := old.calcChecksum
        goodChecksum := goodChecksum }, (h.appendOptions options).getSerializedSize)) ∧
    ((∃ rounds h len, deserialize rounds old bytes = some (h, len) ∧ optionsSize h.options ≤ maxOptionsLen ∧ len ≤ 60) ↔
      ∀ front, Meets (bytes.drop 20) (optionSpace bytes) front → stuck front = false) := by
  refine ⟨?_, deserialize_some_iff hlength old⟩
  have happend := appendOptions_eq hops h (by rw [hfive, hzero]) (by rw [hzero, Nat.zero_add]; exact hsize)
  rw [hempty, hzero, nil_append, Nat.zero_add] at happend
  rw [happend]
  generalize hbuilt : ({ h with options := options, optionsLen := optionsSize options, length := (20 + 3 + optionsSize options) / 4 } :
    TcpHeader) = built
  have hbuiltOps : built.options = options := by rw [← hbuilt]
  obtain ⟨checksum, hserialize⟩ : ∃ checksum, built.serialize payload = built.serializeWith checksum := by
    rw [serialize]
    split
    · exact ⟨0, rfl⟩
    · exact ⟨_, rfl⟩
  have hwords : built.length = (20 + 3 + optionsSize built.options) / 4 := by rw [← hbuilt]
  rw [← hbuiltOps] at hops hsize
  have hserialized := getSerializedSize_eq hsize
  obtain ⟨goodChecksum, hread⟩ := deserialize_serializeWith hops hsize hwords checksum old payload hrounds
  refine ⟨hbuiltOps, ?_, ?_, goodChecksum, ?_⟩
  · rw [getLength, hserialized, hwords]
    omega
  · rw [hserialize, length_serializeWith hops, hserialized]
  · rw [hserialize, hread, hbuiltOps, ← hbuilt]

/-- A data offset of 6 words, and an option of an unknown kind with the size 0. -/
def zeroSized : Bytes := List.replicate 12 0 ++ [0x60] ++ List.replicate 7 0 ++ [200, 0] ++ List.replicate 38 0

theorem codec_iff_zeroSized :
    (∃ goodChecksum, deserialize 41 {} ((({} : TcpHeader).appendOptions [nop, mss 1460]).serialize [] ++ []) = some ({ ({} : TcpHeader) with
      length := 7
      options := [nop, mss 1460, eol]
      optionsLen := 8
      goodChecksum := goodChecksum }, 28)) ∧
    ¬ ∃ rounds h len, deserialize rounds {} zeroSized = some (h, len) ∧ optionsSize h.options ≤ maxOptionsLen ∧ len ≤ 60 := by
  have hops : ∀ op ∈ [nop, mss 1460], Known op := by
    intro op hop
    rcases mem_cons.mp hop with rfl | hop
    · trivial
    · obtain rfl := mem_singleton.mp hop
      trivial
  obtain ⟨hbuilt, hread⟩ := codec_iff (h := {}) rfl rfl rfl hops (by decide) [] {} (show 40 < 41 by decide) (show 60 ≤ zeroSized.length by decide)
  refine ⟨hbuilt.2.2.2, fun hdone => ?_⟩
  have hstuck := hread.1 hdone _ (.here (by decide))
  exact absurd hstuck (by decide)

theorem zeroSized_fails : ∃ (bytes : Bytes) (old : TcpHeader), 60 ≤ bytes.length ∧ ∀ rounds, deserialize rounds old bytes = none := by
  refine ⟨zeroSized, {}, by decide, fun rounds => ?_⟩
  have hlength : 60 ≤ zeroSized.length := by decide
  obtain ⟨filled, -, hloop⟩ := (deserialize_long hlength rounds {}).2 (by decide)
  rw [hloop, optionsLoop_none rounds (.here (by decide)) (by decide)]
  rfl

end TcpHeader

end Ns3
