import Ns3.Internet.RxBufferSound

/-!
# Every run of a receive buffer

The FIN and the packets extracted, and what holds in every state of a run: the
application gets a prefix of the stream and the buffer holds the rest of what
was received.
-/

namespace Ns3

open Machine SequenceNumber32 TcpRxBuffer List Option

namespace TcpReception

section
variable {s : TcpReception} {chunks : List Chunk} {n : Nat} {blocks : List (Nat × Nat)}

theorem next_with (s : TcpReception) (b : TcpRxBuffer) (extracted : Nat) (announced : Bool) :
    TcpReception.next { s with buffer := b, extracted := extracted, announced := announced } = s.next :=
  received_congr { s with buffer := b, extracted := extracted, announced := announced } rfl rfl fun _ => Iff.rfl

/-! ## The FIN -/

theorem Inv.announce (h : Inv s chunks n blocks) (hnear : Nearby s .fin) :
    Inv { s with buffer := s.buffer.setFinSequence (ofPosition s.endOfStream), announced := true } chunks n blocks := by
  have hle := h.le_end
  have hexpected := h.expected_eq
  have hbounds := h.le_expected
  have hnext : TcpReception.next { s with
      buffer := s.buffer.setFinSequence (ofPosition s.endOfStream), announced := true } = n :=
    (next_with s _ s.extracted true).trans h.next_eq
  have hfar : s.endOfStream ≤ s.expected + 1073741824 := hnear
  refine { h with gotFin := rfl, fin := ?_, nextRxSeq := ?_ }
  · intro _
    refine ⟨rfl, ?_⟩
    show s.endOfStream ≤ _
    split at hexpected <;> omega
  · unfold expected
    rw [hnext]
    show (if s.buffer.nextRxSeq = ofPosition s.endOfStream then (ofPosition s.endOfStream).add 1 else s.buffer.nextRxSeq) =
      ofPosition (if true = true ∧ n = s.endOfStream then n + 1 else n)
    have hsame : s.buffer.nextRxSeq = ofPosition s.endOfStream ↔ s.expected = s.endOfStream := by
      rw [h.nextRxSeq, ofPosition_inj ⟨by omega, by omega⟩]
    by_cases hend : s.expected = s.endOfStream
    · rw [if_pos (hsame.mpr hend), add_ofPosition, if_pos ⟨rfl, by split at hexpected <;> omega⟩]
      congr 1
      split at hexpected <;> omega
    · rw [if_neg (mt hsame.mp hend), h.nextRxSeq]
      congr 1
      split at hexpected
      · rename_i hfin
        rw [if_pos ⟨rfl, hfin.2⟩]
        exact hexpected
      · rw [if_neg (by rintro ⟨-, hn⟩; omega)]
        exact hexpected

/-! ## `Extract` -/

def out (s : TcpReception) (k : Nat) : Bytes := (s.stream.drop s.extracted).take k

theorem Inv.extract_some (h : Inv s chunks n blocks) {k : Nat} (hpos : 0 < k) (hk : k ≤ s.buffer.availBytes) :
    ∃ chunks', extractLoop s.buffer.nextRxSeq s.buffer.data k = some (chunks'.map entry, s.out k) ∧
      (s.out k).length = k ∧
      Inv { s with
        buffer := { s.buffer with
          data := chunks'.map entry
          size := uint32 (s.buffer.size - k)
          availBytes := uint32 (s.buffer.availBytes - k) }
        extracted := s.extracted + k } chunks' n blocks ∧ ∀ c ∈ chunks, n < c.1 → c ∈ chunks' := by
  have hunread := h.unread
  have havail := h.availBytes
  have hlt := h.availBytes_lt
  have hexpected := h.le_expected
  have hnext := h.next_lt
  have hfloor := floor_le chunks n
  have hstored : ∀ q, s.unread ≤ q → q < s.unread + k → Stored chunks q := by
    intro q hq hq'
    exact (h.stored q).mpr ⟨h.below q (Nat.le_trans (Nat.le_add_right _ _) hq) (by omega), hq⟩
  obtain ⟨chunks', hloop, hapart, hwithin, hpieces, hstored', hheld, hkept⟩ := extractLoop_spec s.expected chunks s.unread k
    h.apart h.within h.pieces hstored (by omega) (by omega) (by omega) (Nat.le_add_right _ _)
  have hout : s.unread - s.firstSeq = s.extracted := Nat.add_sub_cancel_left ..
  have hmoved : TcpReception.unread { s with
      buffer := { s.buffer with
        data := chunks'.map entry
        size := uint32 (s.buffer.size - k)
        availBytes := uint32 (s.buffer.availBytes - k) }
      extracted := s.extracted + k } = s.unread + k := (Nat.add_assoc ..).symm
  have hstop : ∀ c ∈ chunks', ∃ d ∈ chunks, c.stop ≤ d.stop := by
    intro c hc
    have hcpos := hapart.pos c hc
    obtain ⟨d, hd, hq⟩ := ((hstored' (c.stop - 1)).mp ⟨c, hc, by omega, by omega⟩).1
    exact ⟨d, hd, by omega⟩
  rw [hout, ← h.nextRxSeq, ← h.data] at hloop
  refine ⟨chunks', hloop, ?_, { h with
    data := rfl, apart := hapart, pieces := ?_, stored := ?_, size := ?_, unread := ?_, nextRxSeq := ?_, availBytes := ?_,
    ahead := ?_, span := ?_ }, fun c hc hlt => hkept c hc (by lia)⟩
  · have hle := h.le_end
    rw [out, length_take, length_drop]
    unfold TcpReception.unread at havail hunread
    unfold endOfStream at hle
    omega
  · intro c hc
    rw [hmoved]
    exact hpieces c hc
  · intro q
    rw [hstored', h.stored, hmoved]
    constructor
    · rintro ⟨⟨hq, -⟩, hq'⟩
      exact ⟨hq, hq'⟩
    · rintro ⟨hq, hq'⟩
      exact ⟨⟨hq, by lia⟩, hq'⟩
  · show uint32 (s.buffer.size - k) = held chunks'
    have hsize := h.size
    have hsmall := h.apart.held_within h.within
    rw [uint32_sub (by omega) (by omega)]
    lia
  · rw [hmoved]
    omega
  · rw [expected, next_with s _ (s.extracted + k) s.announced]
    exact h.nextRxSeq
  · rw [hmoved]
    show uint32 (s.buffer.availBytes - k) = n - (s.unread + k)
    rw [uint32_sub hk (by omega)]
    lia
  · intro c hc
    obtain ⟨d, hd, hle⟩ := hstop c hc
    exact Nat.le_trans hle (h.ahead d hd)
  · intro c hc e he
    obtain ⟨d, hd, hle⟩ := hstop c hc
    obtain ⟨f, l, hchunks⟩ := exists_cons_of_ne_nil (ne_nil_of_mem hd)
    have hspan := h.span d hd f (by simp [hchunks])
    have he' := (hpieces e (mem_of_mem_head? he)).1
    obtain ⟨g, hg, hg'⟩ := hstored s.unread (Nat.le_refl _) (by omega)
    have hf := h.head_le hchunks g hg
    show c.stop ≤ e.1 + max s.buffer.maxBuffer 1073741824
    omega

/-! ## Runs -/

def Extracted (tr : List (ReceptionEvent × List Bytes)) (s : TcpReception) : Prop :=
  s.extracted ≤ s.stream.length ∧ (outputs tr).flatten = s.stream.take s.extracted

theorem Inv.extract (h : Inv s chunks n blocks) (maxSize : Nat) :
    ∃ s' o chunks', machine.step s (.extract maxSize) = some (s', o) ∧ Inv s' chunks' n blocks ∧
      s'.stream = s.stream ∧ s'.firstSeq = s.firstSeq ∧ s'.extracted = s.extracted + o.flatten.length ∧
      o.flatten = s.out o.flatten.length ∧ ∀ c ∈ chunks, n < c.1 → c ∈ chunks' := by
  by_cases hzero : min maxSize s.buffer.availBytes = 0
  · have hnone : s.buffer.extract maxSize = some (s.buffer, none) := by
      rw [TcpRxBuffer.extract, if_pos hzero]
    exact ⟨_, _, chunks, congrArg (Option.map _) hnone, h, rfl, rfl, rfl, by simp [out], fun _ hc _ => hc⟩
  · obtain ⟨chunks', hloop, hlength, hinv, hkept⟩ := h.extract_some (Nat.pos_of_ne_zero hzero) (Nat.min_le_right ..)
    have hne : ¬ s.out (min maxSize s.buffer.availBytes) = [] := by
      intro hnil
      rw [hnil] at hlength
      exact hzero hlength.symm
    have hsome : s.buffer.extract maxSize = some ({ s.buffer with
        data := chunks'.map entry
        size := uint32 (s.buffer.size - (min maxSize s.buffer.availBytes : Nat))
        availBytes := uint32 (s.buffer.availBytes - (min maxSize s.buffer.availBytes : Nat)) },
        some (s.out (min maxSize s.buffer.availBytes))) := by
      rw [TcpRxBuffer.extract, if_neg hzero, hloop]
      simp only [map_some, if_neg hne]
    refine ⟨_, _, chunks', congrArg (Option.map _) hsome, ?_, rfl, rfl, ?_, ?_, hkept⟩
    · simp only [elim_some, hlength]
      exact hinv
    · simp
    · simp only [toList_some, flatten_singleton, hlength]

/-- Any segment in the window is processed; what is extracted is next in the stream. -/
theorem Inv.step (h : Inv s chunks n blocks) : ∀ e : ReceptionEvent, Windowed s e →
    ∃ s' o chunks' n' blocks', machine.step s e = some (s', o) ∧ Inv s' chunks' n' blocks' ∧
      s'.stream = s.stream ∧ s'.firstSeq = s.firstSeq ∧ s'.extracted = s.extracted + o.flatten.length ∧
      o.flatten = s.out o.flatten.length
  | .segment first last, he => by
    obtain ⟨b, kept, chunks', n', blocks', hadd, hinv, -⟩ := h.segment he
    exact ⟨_, _, chunks', n', blocks', congrArg (Option.map _) hadd, hinv, rfl, rfl, rfl, by simp [out]⟩
  | .fin, he => ⟨_, _, chunks, n, blocks, rfl, h.announce he, rfl, rfl, rfl, by simp [out]⟩
  | .extract maxSize, _ => by
    obtain ⟨s', o, chunks', hstep, hinv, hstream, hfirst, hcount, hbytes, -⟩ := h.extract maxSize
    exact ⟨s', o, chunks', n, blocks, hstep, hinv, hstream, hfirst, hcount, hbytes⟩

theorem Extracted.snoc {tr : List (ReceptionEvent × List Bytes)} (h : Extracted tr s) {s' : TcpReception}
    {e : ReceptionEvent} {o : List Bytes} (hstream : s'.stream = s.stream)
    (hcount : s'.extracted = s.extracted + o.flatten.length) (hbytes : o.flatten = s.out o.flatten.length) :
    Extracted (tr ++ [(e, o)]) s' := by
  have hlength := congrArg List.length hbytes
  rw [out, length_take, length_drop] at hlength
  have hle := h.1
  refine ⟨by rw [hcount, hstream]; omega, ?_⟩
  rw [outputs_snoc, flatten_append, h.2, hcount, hstream, take_add]
  congr 1

end

structure Reassembled (s : TcpReception) (out : Bytes) : Prop where
  extracted : out = s.stream.take out.length
  stored : ∃ chunks, s.buffer.data = chunks.map entry ∧ Apart chunks ∧ (∀ c ∈ chunks, PieceOf s.stream s.firstSeq c) ∧
    ∀ q, Stored chunks q ↔ s.Received q ∧ s.firstSeq + out.length ≤ q
  size : s.buffer.size = (s.buffer.data.map fun e => e.2.length).sum
  below : ∀ q, s.firstSeq ≤ q → q < s.next → s.Received q
  missing : ¬ s.Received s.next
  nextRxSeq : s.buffer.nextRxSeq = ofPosition s.expected
  finished : s.buffer.finished = decide (s.announced = true ∧ s.next = s.endOfStream)
  available : s.buffer.availBytes = s.next - (s.firstSeq + out.length)

theorem Inv.reassembled {s : TcpReception} {chunks : List Chunk} {n : Nat} {blocks : List (Nat × Nat)}
    (h : Inv s chunks n blocks) {tr : List (ReceptionEvent × List Bytes)} (hout : Extracted tr s) :
    Reassembled s (outputs tr).flatten := by
  have hlength : (outputs tr).flatten.length = s.extracted := by
    rw [hout.2, length_take, Nat.min_eq_left hout.1]
  have hnext := h.next_eq
  refine ⟨?_, ⟨chunks, h.data, h.apart, fun c hc => (h.pieces c hc).2, ?_⟩, ?_, ?_, ?_, h.nextRxSeq, ?_, ?_⟩
  · rw [hlength, hout.2]
  · rw [hlength]
    exact h.stored
  · rw [h.size, h.data, List.map_map]
    rfl
  · rw [hnext]
    exact h.below
  · rw [hnext]
    exact h.missing
  · have hexpected := h.expected_eq
    have hle := h.le_end
    rw [finished, h.gotFin, h.nextRxSeq, hnext]
    by_cases ha : s.announced = true
    · have hfar := (h.fin ha).2
      rw [ha, (h.fin ha).1, Bool.true_and, hexpected, ha]
      split
      · rename_i hfin
        rw [lt_ofPosition ⟨by omega, by omega⟩]
        exact decide_eq_decide.mpr ⟨fun _ => hfin, fun _ => by omega⟩
      · rename_i hfin
        rw [lt_ofPosition ⟨by omega, by omega⟩]
        exact decide_eq_decide.mpr ⟨fun hlt => by omega, fun hfin' => absurd hfin' hfin⟩
    · simp [ha]
  · rw [hlength, hnext]
    exact h.availBytes

/-- What was extracted is a prefix of the stream. -/
theorem Inv.of_run {firstSeq maxBuffer : Nat} {stream : Bytes} (hmax : maxBuffer + 1 < 2147483648)
    {tr : List (ReceptionEvent × List Bytes)} {s : TcpReception}
    (hrun : Run machine Windowed (start firstSeq maxBuffer stream) tr s) :
    (∃ chunks n blocks, Inv s chunks n blocks) ∧ Extracted tr s ∧ s.stream = stream := by
  refine Run.invariant (fun tr s => (∃ chunks n blocks, Inv s chunks n blocks) ∧ Extracted tr s ∧ s.stream = stream)
    ⟨⟨[], firstSeq, [], inv_start stream hmax⟩, ⟨Nat.zero_le _, rfl⟩, rfl⟩ ?_ hrun
  rintro tr s e s' o ⟨⟨chunks, n, blocks, hinv⟩, hout, hstream⟩ he hstep
  obtain ⟨s₁, o₁, chunks', n', blocks', hstep₁, hinv', hstream', -, hcount, hbytes⟩ := hinv.step e he
  cases hstep₁.symm.trans hstep
  exact ⟨⟨chunks', n', blocks', hinv'⟩, hout.snoc hstream' hcount hbytes, hstream'.trans hstream⟩

/-- **Reassembly.** In every run the packets extracted are a prefix of the stream
and the buffer holds the rest of what was received; no call fails. -/
theorem stream_reassembled (firstSeq maxBuffer : Nat) (stream : Bytes) (hmax : maxBuffer + 1 < 2147483648)
    {tr : List (ReceptionEvent × List Bytes)} {s : TcpReception}
    (hrun : Run machine Windowed (start firstSeq maxBuffer stream) tr s) :
    s.stream = stream ∧ Reassembled s (outputs tr).flatten ∧ ∀ e, Windowed s e → (machine.step s e).isSome := by
  obtain ⟨⟨chunks, n, blocks, hinv⟩, hout, hstream⟩ := Inv.of_run hmax hrun
  refine ⟨hstream, hinv.reassembled hout, fun e he => ?_⟩
  obtain ⟨s', o, -, -, -, hstep, -⟩ := hinv.step e he
  rw [hstep]
  rfl

instance (p q : Nat) : Decidable (Near p q) := inferInstanceAs (Decidable (_ ∧ _))

instance (s : TcpReception) : (e : ReceptionEvent) → Decidable (Nearby s e)
  | .segment .. => inferInstanceAs (Decidable (_ ∧ _ ∧ _ ∧ _ ∧ _))
  | .fin => inferInstanceAs (Decidable (_ ≤ _))
  | .extract _ => .isTrue trivial

instance (s : TcpReception) : (e : ReceptionEvent) → Decidable (Windowed s e)
  | .segment .. => inferInstanceAs (Decidable (_ ∧ _))
  | .fin => inferInstanceAs (Decidable (Nearby s .fin))
  | .extract _ => .isTrue trivial

/-- Segments that overlap arrive out of order across the end of the sequence numbers. -/
def overlapping : List ReceptionEvent :=
  [.segment 4294967294 4294967297, .segment 4294967292 4294967295, .fin, .extract 1, .segment 4294967290 4294967293, .extract 4,
    .segment 4294967291 4294967300, .segment 4294967292 4294967296, .extract 20]

theorem overlapping_isSome :
    (machine.exec Windowed (start 4294967290 100 [1, 2, 3, 4, 5, 6, 7, 8, 9, 10]) overlapping).isSome := by
  decide +kernel

theorem overlapping_reassembled : ∃ tr s,
    Run machine Windowed (start 4294967290 100 [1, 2, 3, 4, 5, 6, 7, 8, 9, 10]) tr s ∧
      outputs tr = [[1, 2, 3, 4], [5, 6, 7, 8, 9, 10]] ∧ s.buffer.nextRxSeq = ⟨5⟩ ∧
      Reassembled s (outputs tr).flatten := by
  have hrun := run_of_isSome machine Windowed _ _ overlapping_isSome
  exact ⟨_, _, hrun, by decide +kernel, by decide +kernel, (stream_reassembled _ _ _ (by decide) hrun).2.1⟩

/-! ## Numbers that cannot be compared -/

theorem add_first {p : Bytes} (hp : p.length = 1073741824) :
    TcpRxBuffer.add { nextRxSeq := ⟨0⟩ } p ⟨0⟩ =
      some ({ nextRxSeq := ⟨1073741824⟩, size := 1073741824, availBytes := 1073741824, data := [(⟨0⟩, p)] }, true) := by
  have hfit : TcpRxBuffer.fit { nextRxSeq := ⟨0⟩ } ⟨0⟩ ⟨1073741824⟩ = (⟨0⟩, ⟨1073741824⟩) := by decide
  have hall : p.take 1073741824 = p := take_of_length_le (Nat.le_of_eq hp)
  have hlast : SequenceNumber32.add ⟨0⟩ 1073741824 = ⟨1073741824⟩ := by decide
  have hdiff : SequenceNumber32.diff ⟨1073741824⟩ ⟨0⟩ = 1073741824 := by decide
  have hskip : SequenceNumber32.diff ⟨0⟩ ⟨0⟩ = 0 := by decide
  have hge : SequenceNumber32.ge ⟨0⟩ ⟨1073741824⟩ = false := by decide
  have hlt : SequenceNumber32.lt ⟨0⟩ ⟨0⟩ = false := by decide
  have hgt : SequenceNumber32.gt ⟨0⟩ ⟨0⟩ = false := by decide
  have hcount : uint32 1073741824 = 1073741824 := by decide
  simp [TcpRxBuffer.add, hlast, hfit, trim, hge, hdiff, hskip, hall, hp, TcpRxBuffer.insert, TcpRxBuffer.present, TcpRxBuffer.store, hgt, TcpRxBuffer.advance, hlt,
    clearSackList, hcount]

theorem extract_first {p : Bytes} (hp : p.length = 1073741824) :
    TcpRxBuffer.extract { nextRxSeq := ⟨1073741824⟩, size := 1073741824, availBytes := 1073741824, data := [(⟨0⟩, p)] }
      1073741824 = some ({ nextRxSeq := ⟨1073741824⟩ }, some p) := by
  have hle : SequenceNumber32.le ⟨0⟩ ⟨1073741824⟩ = true := by decide
  have hloop : extractLoop ⟨1073741824⟩ [(⟨0⟩, p)] (1073741823 + 1) = some ([], p) := by
    rw [extractLoop, if_pos hle, hp, if_pos (Nat.le_refl _)]
    simp [extractLoop]
  have hcount : uint32 0 = 0 := by decide
  have hne : p ≠ [] := by
    rintro rfl
    cases hp
  rw [TcpRxBuffer.extract]
  simp [hloop, hcount, hne]

theorem expected_eq_of {s : TcpReception} {m : Nat} (hopen : s.announced = false) (hle : s.firstSeq ≤ m)
    (hle' : m ≤ s.endOfStream) (hbelow : ∀ q, s.firstSeq ≤ q → q < m → s.Received q) (hmissing : ¬ s.Received m) :
    s.expected = m := by
  have hnext : s.next = m := firstMissing_eq _ _ hle hle' hbelow hmissing
  rw [expected, if_neg (by simp [hopen]), hnext]

def farAhead : TcpRxBuffer where
  nextRxSeq := ⟨1073741824⟩
  size := 1
  data := [(⟨2147483647⟩, [0])]
  sackList := [(⟨2147483647⟩, ⟨2147483648⟩)]

theorem add_farAhead : TcpRxBuffer.add { nextRxSeq := ⟨1073741824⟩ } [0] ⟨2147483647⟩ = some (farAhead, true) := by
  decide +kernel

theorem farAhead_add : farAhead.add [0] ⟨0⟩ = none := by
  decide +kernel

theorem old_byte_fails {stream p : Bytes} (hlength : stream.length = 2147483648) (hp : p.length = 1073741824)
    (hfirst : stream.take 1073741824 = p) (hahead : (stream.drop 2147483647).take 1 = [0]) (hagain : stream.take 1 = [0]) :
    ∃ tr s e, Run machine Nearby (start 0 32768 stream) tr s ∧ Nearby s e ∧ machine.step s e = none := by
  have hexpected₀ : (start 0 32768 stream).expected = 0 := expected_eq_of rfl (Nat.le_refl 0) (Nat.zero_le _)
    (fun q hq hq' => absurd hq' (Nat.not_lt.mpr hq)) (by simp [Received, start])
  have hexpected₂ : ∀ b, TcpReception.expected ⟨b, stream, 0, [(0, 1073741824)], 1073741824, false⟩ = 1073741824 :=
    fun b => expected_eq_of rfl (Nat.zero_le _) (by simp [endOfStream, hlength]) (by simp [Received]) (by simp [Received])
  have hexpected₃ : TcpReception.expected
      ⟨farAhead, stream, 0, [(2147483647, 2147483648), (0, 1073741824)], 1073741824, false⟩ = 1073741824 :=
    expected_eq_of rfl (Nat.zero_le _) (by simp [endOfStream, hlength])
      (fun q _ hq' => ⟨(0, 1073741824), by simp, Nat.zero_le _, hq'⟩) (by simp [Received])
  have hrun₁ : Run machine Nearby (start 0 32768 stream) ([] ++ [(.segment 0 1073741824, [])])
      ⟨{ nextRxSeq := ⟨1073741824⟩, size := 1073741824, availBytes := 1073741824, data := [(⟨0⟩, p)] }, stream, 0,
        [(0, 1073741824)], 0, false⟩ := by
    refine Run.snoc .nil ?_ ?_
    · rw [Nearby, hexpected₀]
      simp only [endOfStream, start, hlength]
      omega
    · simp only [machine, start, Nat.sub_zero, drop_zero, hfirst]
      exact congrArg (Option.map _) (add_first hp)
  have hrun₂ : Run machine Nearby (start 0 32768 stream) ([] ++ [(.segment 0 1073741824, [])] ++ [(.extract 1073741824, [p])])
      ⟨{ nextRxSeq := ⟨1073741824⟩ }, stream, 0, [(0, 1073741824)], 1073741824, false⟩ := by
    refine Run.snoc hrun₁ trivial ?_
    simp only [machine, extract_first hp, map_some, elim_some, hp, toList_some, Nat.zero_add]
  have hcutoff : TcpReception.cutoff ⟨{ nextRxSeq := ⟨1073741824⟩ }, stream, 0, [(0, 1073741824)], 1073741824, false⟩
      2147483648 = 2147483648 := by
    simp [cutoff, firstStored, unread]
  have hahead' : ofPosition 2147483647 = ⟨2147483647⟩ := by decide
  have hrun₃ : Run machine Nearby (start 0 32768 stream)
      ([] ++ [(.segment 0 1073741824, [])] ++ [(.extract 1073741824, [p])] ++ [(.segment 2147483647 2147483648, [])])
      ⟨farAhead, stream, 0, [(2147483647, 2147483648), (0, 1073741824)], 1073741824, false⟩ := by
    refine Run.snoc hrun₂ ?_ ?_
    · simp only [Nearby, hexpected₂, endOfStream, hlength]
      omega
    · simp only [machine, Nat.sub_zero, Nat.reduceSub, hahead, hahead', hcutoff, add_farAhead, map_some]
  refine ⟨_, _, .segment 0 1, hrun₃, ?_, ?_⟩
  · simp only [Nearby, hexpected₃, endOfStream, hlength]
    omega
  · simp only [machine, Nat.sub_zero, drop_zero, hagain]
    exact congrArg (Option.map _) farAhead_add

theorem window_wraps : ((machine.exec Nearby (start 0 4294967295 [1, 2]) [.segment 0 1, .segment 1 2]).any fun r =>
    decide (r.2.buffer.nextRxSeq ≠ ofPosition r.2.expected)) = true := by
  decide +kernel

/-- **The end of the window is out of reach of the comparison**: with the default
window an old byte makes an assertion fail, and with the largest one nothing is
accepted behind the first byte. -/
theorem window_end_misjudged :
    (∃ stream tr s e, Run machine Nearby (start 0 32768 stream) tr s ∧ Nearby s e ∧ machine.step s e = none) ∧
      ∃ tr s, Run machine Nearby (start 0 4294967295 [1, 2]) tr s ∧ ¬ Reassembled s (outputs tr).flatten := by
  constructor
  · have hslice : ∀ i k, i + k ≤ 2147483648 →
        ((replicate 2147483648 (0 : UInt8)).drop i).take k = replicate k 0 := by
      intro i k hle
      rw [drop_replicate, take_replicate, Nat.min_eq_left (by omega)]
    exact ⟨_, old_byte_fails length_replicate length_replicate (hslice 0 1073741824 (by omega))
      (hslice 2147483647 1 (by omega)) (hslice 0 1 (by omega))⟩
  · obtain ⟨tr, s, hrun, hwraps⟩ := run_of_any machine Nearby window_wraps
    exact ⟨tr, s, hrun, fun hr => of_decide_eq_true hwraps hr.nextRxSeq⟩

end TcpReception

end Ns3
