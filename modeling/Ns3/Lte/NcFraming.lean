import Ns3.Lib.BitField
import Ns3.Lte.NcFrame

/-!
# The framing of a network-coding sender

`framesFrom` is what SDUs become on the way down: groups of ten, each followed
by two redundancy packets. `numberedFrom` numbers PDUs and deals them out to
the two RLC entities in turn. A sender that receives nothing emits the frames
of its SDUs, numbered.
-/

namespace Ns3

open NcControl List Option

/-! ## Frames -/

def rawPdu (groupnum sn : Nat) (p : Packet) : NcPdu :=
  ⟨{ groupnum := groupnum, sn := sn, israwpacket := 1, coeff := 2 ^ (63 - sn) }, p⟩

def redundantPdu (groupnum sn : Nat) (rand : Nat → Nat) (p : Packet) : NcPdu :=
  ⟨{ groupnum := groupnum, sn := sn, coeff := randCoeff originalBlockSize rand,
     polling := if sn + 1 = encodingBlockSize then 1 else 0 }, p⟩

/-- What the SDU with index `j` becomes: with the last of a group come the
redundancy packets. -/
def framesOf (j : Nat) (p : Packet) (rand : Nat → Nat → Nat) : List NcPdu :=
  rawPdu (j / originalBlockSize) (j % originalBlockSize) p ::
    if j % originalBlockSize + 1 = originalBlockSize then
      (List.range (encodingBlockSize - originalBlockSize)).map fun t =>
        redundantPdu (j / originalBlockSize) (originalBlockSize + t) (rand t) p
    else []

/-- The frames of SDUs, the first with index `j`, each with the random values
drawn when it is submitted. -/
def framesFrom : Nat → List (Packet × (Nat → Nat → Nat)) → List NcPdu
  | _, [] => []
  | j, (p, rand) :: ps => framesOf j p rand ++ framesFrom (j + 1) ps

def rlcAt (i : Nat) : RlcEntity := if i % 2 = 0 then .rlc1 else .rlc2

/-- The PDUs, the first of them the one with index `i` overall. -/
def numberedFrom : Nat → List NcPdu → List PdcpOut
  | _, [] => []
  | i, q :: qs =>
    .down { rlc := rlcAt i, pdcpSn := i % (LtePdcp.maxPdcpSn + 1), header := some q.header, packet := q.packet } ::
      numberedFrom (i + 1) qs

theorem numberedFrom_append : ∀ (qs qs' : List NcPdu) (i : Nat),
    numberedFrom i (qs ++ qs') = numberedFrom i qs ++ numberedFrom (i + qs.length) qs'
  | [], qs', i => rfl
  | q :: qs, qs', i => by
    rw [List.cons_append, numberedFrom, numberedFrom_append qs qs' (i + 1), List.length_cons, Nat.add_right_comm,
      Nat.add_assoc]
    rfl

namespace LtePdcp

/-- `i` PDUs were sent, to the two RLC entities in turn. -/
structure Counts (s : LtePdcp) (i : Nat) : Prop where
  number : s.txSequenceNumber = i % (maxPdcpSn + 1)
  turn : s.ncRlcToSend % 2 = i % 2

theorem Counts.toogleSend {s : LtePdcp} {i : Nat} (h : s.Counts i) (q : NcPdu) :
    [(s.toogleSend q 0).2] = numberedFrom i [q] ∧ (s.toogleSend q 0).1.Counts (i + 1) := by
  obtain ⟨hnumber, hturn⟩ := h
  unfold LtePdcp.toogleSend
  constructor
  · by_cases heven : s.ncRlcToSend % 2 = 0
    · simp [numberedFrom, rlcAt, ← hturn, heven, doTransmitPdcpSdu, transmitOn, hnumber]
    · simp [numberedFrom, rlcAt, ← hturn, heven, doTransmitPdcpSdu2, transmitOn, hnumber]
  · have hnext : (if s.txSequenceNumber + 1 > maxPdcpSn then 0 else s.txSequenceNumber + 1) =
        (i + 1) % (maxPdcpSn + 1) := by
      rw [hnumber, maxPdcpSn]
      split <;> omega
    refine ⟨?_, ?_⟩
    · split <;> exact hnext
    · dsimp only
      omega

theorem redundancyLoop_frames (rand : Nat → Nat → Nat) {p : Packet} : ∀ (n var i : Nat) (s : LtePdcp)
    {buf : NcEncodingBuffer} {last : NcPara}, s.nc.encoding s.nc.groupnum = some buf →
    buf.ncVector[originalBlockSize - 1]? = some last → last.p = some p → buf.ncVector.length + n ≤ 256 → s.Counts i →
    ∃ s', redundancyLoop rand n var s = some (s', numberedFrom i ((List.range n).map fun t =>
        redundantPdu s.nc.groupnum (buf.ncVector.length + t) (rand (var + t)) p)) ∧
      s'.Counts (i + n) ∧ s'.ncEnable = s.ncEnable ∧ s'.nc.groupnum = s.nc.groupnum ∧
      ∀ g, g ≠ s.nc.groupnum → s'.nc.encoding g = s.nc.encoding g
  | 0, var, i, s, buf, last, hbuf, hlast, hp, hlen, hcounts => ⟨s, rfl, hcounts, rfl, rfl, fun _ _ => rfl⟩
  | n + 1, var, i, s, buf, last, hbuf, hlast, hp, hlen, hcounts => by
    obtain ⟨hpos, _⟩ := List.getElem?_eq_some_iff.mp hlast
    let q := redundantPdu s.nc.groupnum buf.ncVector.length (rand var) p
    let buf₁ : NcEncodingBuffer :=
      { buf with ncVector := buf.ncVector ++ [{ coff := coeffBits (randCoeff originalBlockSize (rand var)) }] }
    have hmod : buf.ncVector.length % 256 = buf.ncVector.length := Nat.mod_eq_of_lt (by omega)
    have hred : s.nc.makeRedundancePacket (rand var) = some (s.nc.setEncoding s.nc.groupnum buf₁, q) := by
      simp [makeRedundancePacket, hbuf, hlast, hp, q, buf₁, redundantPdu, hmod]
    let s₁ : LtePdcp := { s with nc := s.nc.setEncoding s.nc.groupnum buf₁ }
    have hcounts₁ : s₁.Counts i := ⟨hcounts.number, hcounts.turn⟩
    obtain ⟨hout, hcounts₂⟩ := hcounts₁.toogleSend q
    obtain ⟨t₁, t₂, -⟩ := toogleSend_spec s₁ q 0
    have hg₁ : (s₁.toogleSend q 0).1.nc.groupnum = s.nc.groupnum := by rw [t₁]; rfl
    have henc : (s₁.toogleSend q 0).1.nc.encoding (s₁.toogleSend q 0).1.nc.groupnum = some buf₁ := by
      rw [t₁]
      exact (encoding_setEncoding ..).trans (if_pos rfl)
    have hlast₁ : buf₁.ncVector[originalBlockSize - 1]? = some last := by
      rw [getElem?_append_left hpos, hlast]
    have hlen₁ : buf₁.ncVector.length = buf.ncVector.length + 1 := by simp [buf₁]
    obtain ⟨s', hloop, hcounts', henable, hg, hoff⟩ :=
      redundancyLoop_frames rand n (var + 1) (i + 1) (s₁.toogleSend q 0).1 henc hlast₁ hp (by omega) hcounts₂
    rw [hg₁, hlen₁] at hloop
    refine ⟨s', ?_, by rwa [show i + (n + 1) = i + 1 + n by omega], henable.trans t₂.ncEnable, hg.trans hg₁,
      fun g hne => ?_⟩
    · unfold redundancyLoop
      simp only [hred, bind_eq_bind, bind_some]
      rw [hloop, bind_some, range_succ_eq_map, map_cons, List.map_map]
      have hfirst : numberedFrom i [q] = [(s₁.toogleSend q 0).2] := hout.symm
      have htail : (fun t => redundantPdu s.nc.groupnum (buf.ncVector.length + t) (rand (var + t)) p) ∘ Nat.succ =
          fun t => redundantPdu s.nc.groupnum (buf.ncVector.length + 1 + t) (rand (var + 1 + t)) p := by
        funext t
        simp only [Function.comp_apply, Nat.succ_eq_add_one, Nat.add_comm t 1, ← Nat.add_assoc]
      rw [htail]
      have hsplit := numberedFrom_append [q] ((range n).map fun t =>
        redundantPdu s.nc.groupnum (buf.ncVector.length + 1 + t) (rand (var + 1 + t)) p) i
      rw [hfirst] at hsplit
      exact congrArg (fun os => some (s', os)) hsplit.symm
    · rw [hoff g (by rw [hg₁]; exact hne), t₁]
      exact (encoding_setEncoding ..).trans (if_neg hne)

/-! ## Submitting SDUs -/

/-- `j` SDUs were submitted and `i` PDUs sent. -/
structure Framing (s : LtePdcp) (j i : Nat) : Prop where
  ncEnable : s.ncEnable = true
  group : s.nc.groupnum = j / originalBlockSize
  len : (encVector s.nc s.nc.groupnum).length = j % originalBlockSize
  above : ∀ g, s.nc.groupnum < g → encVector s.nc g = []
  counts : s.Counts i

theorem framing_init (copyEnable : Bool) (flags : Bool × Bool × Bool × Bool) :
    (init true copyEnable flags).Framing 0 0 :=
  ⟨rfl, rfl, rfl, fun _ _ => rfl, rfl, rfl⟩

theorem encVector_of_encoding {c : NcControl} {g : Nat} {buf : NcEncodingBuffer} (h : c.encoding g = some buf) :
    encVector c g = buf.ncVector := by
  rw [encVector, h]
  rfl

/-- **One SDU** becomes its frames, numbered from `i` on. -/
theorem Framing.submit {s : LtePdcp} {j i : Nat} (h : s.Framing j i) (p : Packet) (rand : Nat → Nat → Nat) :
    ∃ s', s.triggerDoTransmitPdcpSdu p rand = some (s', numberedFrom i (framesOf j p.readdHeaders rand)) ∧
      s'.Framing (j + 1) (i + (framesOf j p.readdHeaders rand).length) := by
  let g := s.nc.groupnum
  let buf := (s.nc.encoding g).getD {}
  have hlen : buf.ncVector.length = j % originalBlockSize := h.len
  have hlt : j % originalBlockSize < originalBlockSize := Nat.mod_lt _ (by decide)
  have hmod : buf.ncVector.length % 256 = j % originalBlockSize := by
    rw [hlen]
    exact Nat.mod_eq_of_lt (hlt.trans (by decide))
  have hcoeff : 1 <<< (64 - 1 - buf.ncVector.length) = 2 ^ (63 - j % originalBlockSize) := by
    rw [Nat.one_shiftLeft, hlen]
  let para : NcPara :=
    { p := some p.readdHeaders, coff := coeffBits (2 ^ (63 - j % originalBlockSize)), israwpacket := 1
      sn := j % originalBlockSize }
  let q := rawPdu g (j % originalBlockSize) p.readdHeaders
  let buf₁ : NcEncodingBuffer := { buf with ncVector := buf.ncVector ++ [para] }
  have hsend : s.nc.sendSaveAndSetTime p = some (s.nc.setEncoding g buf₁, q) := by
    have hlit : s.nc.sendSaveAndSetTime p = some
        (s.nc.setEncoding g { buf with
          ncVector := buf.ncVector ++ [{
            p := some p.readdHeaders, coff := coeffBits (1 <<< (64 - 1 - buf.ncVector.length)), israwpacket := 1
            sn := buf.ncVector.length % 256 }] },
        ⟨{ groupnum := g, sn := buf.ncVector.length % 256, israwpacket := 1
           coeff := 1 <<< (64 - 1 - buf.ncVector.length) }, p.readdHeaders⟩) :=
      if_neg (Nat.not_le.mpr ((hlen ▸ hlt).trans (by decide)))
    rw [hlit, hmod, hcoeff]
    rfl
  let s₁ : LtePdcp := { s with nc := s.nc.setEncoding g buf₁ }
  have henc₁ : s₁.nc.encoding g = some buf₁ := (encoding_setEncoding ..).trans (if_pos rfl)
  have hlen₁ : buf₁.ncVector.length = j % originalBlockSize + 1 := by simp [buf₁, hlen]
  have hnced : s₁.nc.getNcedSize = some (j % originalBlockSize + 1) := by
    change (s₁.nc.encoding g).map _ = _
    rw [henc₁, map_some, hlen₁]
  have hcounts₁ : s₁.Counts i := ⟨h.counts.number, h.counts.turn⟩
  obtain ⟨hout, hcounts₂⟩ := hcounts₁.toogleSend q
  obtain ⟨t₁, t₂, -⟩ := toogleSend_spec s₁ q 0
  have hgroup : g = j / originalBlockSize := h.group
  have hoff : ∀ g', g' ≠ g → encVector s₁.nc g' = encVector s.nc g' := fun g' hne => by
    unfold encVector
    rw [show s₁.nc.encoding g' = s.nc.encoding g' from (encoding_setEncoding ..).trans (if_neg hne)]
  by_cases hfull : j % originalBlockSize + 1 = originalBlockSize
  · -- the group is full: the redundancy packets follow
    have hlast : buf₁.ncVector[originalBlockSize - 1]? = some para := by
      rw [show originalBlockSize - 1 = buf.ncVector.length by omega]
      simp [buf₁]
    have henc₂ : (s₁.toogleSend q 0).1.nc.encoding (s₁.toogleSend q 0).1.nc.groupnum = some buf₁ := by
      rw [t₁]
      exact henc₁
    have hg₁ : (s₁.toogleSend q 0).1.nc.groupnum = g := by rw [t₁]; rfl
    obtain ⟨s', hloop, hcounts', henable, hg', hoff'⟩ := redundancyLoop_frames rand
      (encodingBlockSize - originalBlockSize) 0 (i + 1) (s₁.toogleSend q 0).1 henc₂ hlast rfl
      (by rw [hlen₁, hfull]; decide) hcounts₂
    rw [hg₁, hlen₁, hfull] at hloop
    have hframes : framesOf j p.readdHeaders rand = [q] ++ (range (encodingBlockSize - originalBlockSize)).map fun t =>
        redundantPdu g (originalBlockSize + t) (rand (0 + t)) p.readdHeaders := by
      simp only [framesOf, if_pos hfull, Nat.zero_add, hgroup, q, singleton_append]
    have hnext : (j + 1) / originalBlockSize = j / originalBlockSize + 1 ∧ (j + 1) % originalBlockSize = 0 := by
      unfold originalBlockSize at hfull ⊢
      omega
    refine ⟨{ s' with nc := { s'.nc with groupnum := s'.nc.groupnum + 1 }, ncRlcToSend := s'.ncRlcToSend % 2 }, ?_, ?_⟩
    · rw [hframes, numberedFrom_append, ← hout]
      unfold triggerDoTransmitPdcpSdu
      rw [if_pos h.ncEnable]
      rw [hsend]
      change (s₁.nc.getNcedSize).bind _ = _
      rw [hnced, bind_some]
      change (if j % originalBlockSize + 1 = originalBlockSize then
        (redundancyLoop rand (encodingBlockSize - originalBlockSize) 0 (s₁.toogleSend q 0).1).bind _ else _) = _
      rw [if_pos hfull, hloop, bind_some]
      exact if_pos (by rw [hfull]; rfl)
    · have habove : ∀ g', g < g' → encVector s'.nc g' = [] := fun g' hlt' => by
        have hne : g' ≠ g := Nat.ne_of_gt hlt'
        unfold encVector
        rw [hoff' g' (by rw [hg₁]; exact hne), t₁]
        exact (hoff g' hne).trans (h.above g' hlt')
      have hgs : s'.nc.groupnum = g := hg'.trans hg₁
      refine ⟨?_, ?_, ?_, fun g' hlt' => ?_, ?_⟩
      · exact henable.trans (t₂.ncEnable.trans h.ncEnable)
      · rw [hnext.1, ← hgroup, ← hgs]
      · rw [hnext.2]
        change (encVector s'.nc (s'.nc.groupnum + 1)).length = 0
        rw [habove _ (by omega)]
        rfl
      · change s'.nc.groupnum + 1 < g' at hlt'
        exact habove g' (by omega)
      · rw [hframes, length_append, length_map, length_range, length_singleton, ← Nat.add_assoc]
        exact ⟨hcounts'.number, (Nat.mod_mod _ 2).trans hcounts'.turn⟩
  · have hframes : framesOf j p.readdHeaders rand = [q] := by
      simp only [framesOf, if_neg hfull, hgroup, q]
    have hnext : (j + 1) / originalBlockSize = j / originalBlockSize ∧
        (j + 1) % originalBlockSize = j % originalBlockSize + 1 := by
      unfold originalBlockSize at hfull hlt ⊢
      omega
    refine ⟨(s₁.toogleSend q 0).1, ?_, ?_⟩
    · rw [hframes, ← hout]
      unfold triggerDoTransmitPdcpSdu
      rw [if_pos h.ncEnable]
      rw [hsend]
      change (s₁.nc.getNcedSize).bind _ = _
      rw [hnced, bind_some]
      exact if_neg hfull
    · rw [hframes]
      refine ⟨t₂.ncEnable.trans h.ncEnable, ?_, ?_, fun g' hlt' => ?_, hcounts₂⟩
      · rw [t₁, hnext.1]
        exact hgroup
      · rw [t₁, hnext.2]
        change (encVector s₁.nc g).length = _
        rw [encVector_of_encoding henc₁, hlen₁]
      · rw [t₁] at hlt' ⊢
        exact (hoff g' (Nat.ne_of_gt hlt')).trans (h.above g' hlt')

def submitAll : LtePdcp → List (Packet × (Nat → Nat → Nat)) → Option (LtePdcp × List PdcpOut)
  | s, [] => some (s, [])
  | s, (p, rand) :: ps => do
    let (s, os) ← s.triggerDoTransmitPdcpSdu p rand
    let (s, os') ← submitAll s ps
    some (s, os ++ os')

def readdAll (ps : List (Packet × (Nat → Nat → Nat))) : List (Packet × (Nat → Nat → Nat)) :=
  ps.map fun x => (x.1.readdHeaders, x.2)

theorem Framing.submitAll : ∀ (ps : List (Packet × (Nat → Nat → Nat))) {s : LtePdcp} {j i : Nat}, s.Framing j i →
    ∃ s', s.submitAll ps = some (s', numberedFrom i (framesFrom j (readdAll ps)))
  | [], s, _, _, _ => ⟨s, rfl⟩
  | (p, rand) :: ps, s, j, i, h => by
    obtain ⟨s₁, hrun, h₁⟩ := h.submit p rand
    obtain ⟨s', hrun'⟩ := Framing.submitAll ps h₁
    refine ⟨s', ?_⟩
    rw [readdAll, map_cons, LtePdcp.submitAll, framesFrom, numberedFrom_append, hrun]
    simp only [bind_eq_bind, bind_some, hrun']
    rfl

theorem numberedFrom_inj : ∀ {qs qs' : List NcPdu} {i : Nat}, numberedFrom i qs = numberedFrom i qs' → qs = qs'
  | [], [], _, _ => rfl
  | [], _ :: _, _, h => by cases h
  | _ :: _, [], _, h => by cases h
  | ⟨header, packet⟩ :: qs, ⟨header', packet'⟩ :: qs', i, h => by
    obtain ⟨hq, hrest⟩ := List.cons.inj h
    obtain ⟨-, -, rfl, rfl, -⟩ := hq
    rw [numberedFrom_inj hrest]

theorem framesOf_length (j : Nat) (p p' : Packet) (rand : Nat → Nat → Nat) :
    (framesOf j p rand).length = (framesOf j p' rand).length := by
  unfold framesOf
  split <;> simp

/-- The frames show every packet. -/
theorem framesFrom_readdAll : ∀ (ps : List (Packet × (Nat → Nat → Nat))) (j : Nat),
    framesFrom j (readdAll ps) = framesFrom j ps ↔ ∀ x ∈ ps, x.1.Stays
  | [], _ => by simp [readdAll]
  | (p, rand) :: ps, j => by
    rw [List.forall_mem_cons, ← framesFrom_readdAll ps (j + 1), ← Packet.readdHeaders_eq_iff]
    change framesOf j p.readdHeaders rand ++ framesFrom (j + 1) (readdAll ps) = framesOf j p rand ++ _ ↔ _
    constructor
    · intro h
      obtain ⟨hfirst, hrest⟩ := append_inj h (framesOf_length j _ _ rand)
      exact ⟨congrArg NcPdu.packet (List.cons.inj hfirst).1, hrest⟩
    · rintro ⟨hp, hrest⟩
      rw [hp, hrest]

end LtePdcp

/-! ## The coefficients drawn -/

theorem randCoeff_succ (n : Nat) (rand : Nat → Nat) :
    randCoeff (n + 1) rand = randCoeff n rand ||| ((rand n % 2) <<< (63 - n)) := by
  simp [randCoeff, range_succ]

theorem randCoeff_top (rand : Nat → Nat) : ∀ n ≤ 64, randCoeff n rand < 2 ^ 64 ∧ 2 ^ (64 - n) ∣ randCoeff n rand
  | 0, _ => ⟨Nat.two_pow_pos 64, Nat.dvd_zero _⟩
  | n + 1, hn => by
    obtain ⟨hlt, hdvd⟩ := randCoeff_top rand n (by omega)
    have hpow : 2 ^ (64 - n) = 2 ^ (63 - n) * 2 := by
      rw [← Nat.pow_succ]
      congr 1
      omega
    have hbit : (rand n % 2) <<< (63 - n) = 2 ^ (63 - n) * (rand n % 2) := by
      rw [Nat.shiftLeft_eq, Nat.mul_comm]
    have hsmall : (rand n % 2) <<< (63 - n) < 2 ^ (64 - n) := by
      rw [hbit, hpow]
      exact Nat.mul_lt_mul_of_pos_left (Nat.mod_lt _ (by decide)) (Nat.two_pow_pos _)
    rw [randCoeff_succ]
    constructor
    · exact Nat.or_lt_two_pow hlt (hsmall.trans_le (Nat.pow_le_pow_right (by decide) (by omega)))
    · rw [or_eq_add (64 - n) (Nat.mod_eq_zero_of_dvd hdvd) hsmall, hbit, show 64 - (n + 1) = 63 - n by omega]
      exact Nat.dvd_add ((hpow ▸ Nat.dvd_mul_right _ 2).trans hdvd) (Nat.dvd_mul_right _ _)

theorem frames_redundant : ∀ (ps : List (Packet × (Nat → Nat → Nat))) (j : Nat), ∀ q ∈ framesFrom j ps,
    q.header.israwpacket = 0 → originalBlockSize ≤ q.header.sn ∧ q.header.sn < encodingBlockSize ∧
      q.header.coeff < 2 ^ 64 ∧ 2 ^ (64 - originalBlockSize) ∣ q.header.coeff
  | [], _, q, hq, _ => by cases hq
  | (p, rand) :: ps, j, q, hq, hraw => by
    rcases List.mem_append.mp hq with hq | hq
    · rcases List.mem_cons.mp hq with rfl | hq
      · cases hraw
      · split at hq
        · obtain ⟨t, ht, rfl⟩ := List.mem_map.mp hq
          have ht := mem_range.mp ht
          obtain ⟨hlt, hdvd⟩ := randCoeff_top (rand t) originalBlockSize (by decide)
          refine ⟨Nat.le_add_right _ t, ?_, hlt, hdvd⟩
          change originalBlockSize + t < encodingBlockSize
          omega
        · cases hq
    · exact frames_redundant ps (j + 1) q hq hraw

/-- **The framing.** The SDUs submitted to a fresh entity come out as the
frames of groups 0, 1, 2, ..., numbered from 0 and in turn on both entities;
redundancy packets combine the originals of their group only. The frames are of
the SDUs with their headers added again, and of the SDUs themselves when none
of these is changed by that, which is no datagram of the size of a packet. -/
theorem nc_sender_frames (copyEnable : Bool) (flags : Bool × Bool × Bool × Bool)
    (ps : List (Packet × (Nat → Nat → Nat))) :
    ∃ s os, (LtePdcp.init true copyEnable flags).submitAll ps = some (s, os) ∧
      os = numberedFrom 0 (framesFrom 0 (LtePdcp.readdAll ps)) ∧
      (os = numberedFrom 0 (framesFrom 0 ps) ↔ ∀ x ∈ ps, x.1.Stays) ∧
      ∀ q ∈ framesFrom 0 (LtePdcp.readdAll ps), q.header.israwpacket = 0 → originalBlockSize ≤ q.header.sn ∧
        q.header.sn < encodingBlockSize ∧ q.header.coeff < 2 ^ 64 ∧ 2 ^ (64 - originalBlockSize) ∣ q.header.coeff := by
  obtain ⟨s, hrun⟩ := (LtePdcp.framing_init copyEnable flags).submitAll ps
  refine ⟨s, _, hrun, rfl, ?_, frames_redundant _ 0⟩
  rw [← LtePdcp.framesFrom_readdAll ps 0]
  exact ⟨LtePdcp.numberedFrom_inj, congrArg _⟩

/-- **The first SDU goes out with another length.** -/
theorem nc_sender_lowers_length : ∃ s os, (LtePdcp.init true false (false, false, false, false)).submitAll
    [(datagram 5, fun _ _ => 0)] = some (s, os) ∧ (datagram 5).IsDatagram ∧
    (downs os).map NcPdu.packet = [(datagram 5).readdHeaders] ∧ (datagram 5).readdHeaders ≠ datagram 5 ∧
    os ≠ numberedFrom 0 (framesFrom 0 [(datagram 5, fun _ _ => 0)]) := by
  obtain ⟨s, hrun⟩ := (LtePdcp.framing_init false (false, false, false, false)).submitAll [(datagram 5, fun _ _ => 0)]
  exact ⟨s, _, hrun, rfl, by decide +kernel, by decide +kernel, by decide +kernel⟩

end Ns3
