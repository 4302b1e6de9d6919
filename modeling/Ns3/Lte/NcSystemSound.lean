import Ns3.Lte.NcSystem
import Ns3.Lte.NcTimerSound

/-!
# Invariants of the network-coding system

The sender's vectors list the submitted SDUs in blocks of ten; the receiver's
buffer of a group holds the first PDUs of the group that arrived, up to ten,
and what was handed up is a function of that buffer.
-/

namespace Ns3

open NcControl LtePdcp Machine List Option

/-! ## One group at the receiver -/

/-- The entry `RecvAndSave` makes for a data PDU. -/
def paraOf (q : NcPdu) : NcPara :=
  { p := some q.packet, coff := coeffBits q.header.coeff, israwpacket := q.header.israwpacket, sn := q.header.sn }

def originals (vec : List NcPara) : List Nat :=
  (vec.filter fun para => para.sn < originalBlockSize).map NcPara.sn

def directsOf (vec : List NcPara) : List Packet :=
  (vec.filter fun para => para.sn < originalBlockSize).filterMap NcPara.p

def missing (vec : List NcPara) : List Nat :=
  (List.range originalBlockSize).filter fun j => j ∉ originals vec

def decodedOf (vec : List NcPara) : List Packet :=
  (missing vec).filterMap fun j => (vec[j]?.bind NcPara.p).map Packet.readdHeaders

theorem decodeLoop_eq {vec : List NcPara} (hvec : ∀ para ∈ vec, para.p.isSome) :
    ∀ (js dlv : List Nat), js.Nodup → (∀ j ∈ js, j < vec.length) → ∃ dlv', decodeLoop vec js dlv =
      some ((js.filter fun j => j ∉ dlv).filterMap fun j => (vec[j]?.bind NcPara.p).map Packet.readdHeaders, dlv')
  | [], dlv, _, _ => ⟨dlv, rfl⟩
  | j :: js, dlv, hnd, hjs => by
    obtain ⟨hj, hnd'⟩ := nodup_cons.mp hnd
    have hjs' : ∀ k ∈ js, k < vec.length := fun k hk => hjs k (mem_cons_of_mem _ hk)
    unfold decodeLoop
    split
    · rename_i hmem
      obtain ⟨dlv', h⟩ := decodeLoop_eq hvec js dlv hnd' hjs'
      refine ⟨dlv', ?_⟩
      rw [h, filter_cons_of_neg (by simpa using hmem)]
    · rename_i hmem
      have hlt : j < vec.length := hjs j (mem_cons_self ..)
      obtain ⟨p, hp⟩ := isSome_iff_exists.mp (hvec _ (getElem_mem hlt))
      obtain ⟨dlv', h⟩ := decodeLoop_eq hvec js (dlv ++ [j]) hnd' hjs'
      refine ⟨dlv', ?_⟩
      -- the SN just answered does not come back
      have hfilter : js.filter (fun k => k ∉ dlv ++ [j]) = js.filter fun k => k ∉ dlv := by
        refine filter_congr fun k hk => ?_
        have hne : k ≠ j := fun e => hj (e ▸ hk)
        simp [hne]
      rw [filter_cons_of_pos (by simpa using hmem)]
      simp only [getElem?_eq_getElem hlt, hp, h, hfilter, bind_eq_bind, bind_some]
      simp [getElem?_eq_getElem hlt, hp]

/-- The buffer of a group against the PDUs of it that arrived and the packets
handed up for it. -/
structure GroupOk (arr : List NcPdu) (handed : List Packet) (buf : NcDecodingBuffer) : Prop where
  vec : buf.ncVector = (arr.take buf.ncVector.length).map paraOf
  bound : buf.ncVector.length ≤ originalBlockSize
  incomplete : buf.ncComplete = false → buf.ncVector.length = arr.length ∧
    buf.ncVector.length < originalBlockSize ∧ buf.deliverdSN = originals buf.ncVector
  handed : handed = directsOf buf.ncVector ++
    if buf.ncComplete = true ∧ originalBlockSize ≤ buf.ncVector.length then decodedOf buf.ncVector else []

section
variable {arr : List NcPdu} {handed : List Packet} {buf buf' : NcDecodingBuffer}

theorem groupOk_empty : GroupOk [] [] {} :=
  ⟨rfl, by simp, fun _ => ⟨rfl, by decide, rfl⟩, rfl⟩

theorem GroupOk.scanned (h : GroupOk arr handed buf) (hs : Scanned buf buf') : GroupOk arr handed buf' := by
  refine ⟨?_, ?_, ?_, ?_⟩
  · rw [hs.vec]; exact h.vec
  · rw [hs.vec]; exact h.bound
  · intro hc
    have hc' : buf.ncComplete = false := by
      cases hb : buf.ncComplete with
      | false => rfl
      | true => rw [hs.done hb] at hc; cases hc
    rw [hs.vec, hs.dlv]
    exact h.incomplete hc'
  · rw [hs.vec, h.handed]
    cases hc : buf.ncComplete with
    | true => rw [hs.done hc]
    | false =>
      -- a group given up is too short to count as decoded
      have hlt := (h.incomplete hc).2.1
      rw [if_neg (by simp), if_neg (by omega)]

theorem file_incomplete (hc : buf.ncComplete = false) (q : NcPdu) : file buf q = { buf with
      ncVector := buf.ncVector ++ [paraOf q]
      deliverdSN := if q.header.sn < originalBlockSize then buf.deliverdSN ++ [q.header.sn] else buf.deliverdSN } := by
  unfold file
  rw [if_neg (by simp [hc])]
  rfl

theorem filter_paraOf (q : NcPdu) : [paraOf q].filter (fun para => para.sn < originalBlockSize) =
      if q.header.sn < originalBlockSize then [paraOf q] else [] := by
  by_cases h : q.header.sn < originalBlockSize
  · rw [if_pos h]
    exact filter_cons_of_pos (p := fun para : NcPara => decide (para.sn < originalBlockSize)) (decide_eq_true h)
  · rw [if_neg h]
    exact filter_cons_of_neg (p := fun para : NcPara => decide (para.sn < originalBlockSize))
      (mt of_decide_eq_true h)

theorem originals_snoc (vec : List NcPara) (q : NcPdu) : originals (vec ++ [paraOf q]) =
      if q.header.sn < originalBlockSize then originals vec ++ [q.header.sn] else originals vec := by
  unfold originals
  rw [filter_append, map_append, filter_paraOf]
  split
  · rfl
  · exact append_nil _

theorem directsOf_snoc (vec : List NcPara) (q : NcPdu) : directsOf (vec ++ [paraOf q]) =
      directsOf vec ++ if q.header.sn < originalBlockSize then [q.packet] else [] := by
  unfold directsOf
  rw [filter_append, filterMap_append, filter_paraOf]
  split <;> rfl

/-- **An arrival.** The PDU joins a group that is not complete; the tenth one
completes it. -/
theorem GroupOk.arrive (h : GroupOk arr handed buf) {q : NcPdu} {b : NcDecodingBuffer} {ps : List Packet}
    (hs : settle (file buf q) = some (b, ps)) : GroupOk (arr ++ [q]) (handed ++ (directUp buf q ++ ps)) b ∧
    (buf.ncComplete = false → b.ncVector.length = arr.length + 1 ∧
      (b.ncComplete = true ↔ b.ncVector.length = originalBlockSize)) := by
  cases hc : buf.ncComplete with
  | true =>
    have hfile : file buf q = buf := by simp [file, hc]
    rw [hfile] at hs
    obtain ⟨rfl, rfl⟩ : buf = b ∧ [] = ps := by simpa [settle, hc] using hs
    have hup : directUp buf q = [] := if_neg (by simp [hc])
    refine ⟨⟨?_, h.bound, ?_, ?_⟩, by simp⟩
    · have hlen : buf.ncVector.length ≤ arr.length := by
        have := congrArg List.length h.vec
        rw [length_map, length_take] at this
        omega
      rw [take_append_of_le_length hlen]
      exact h.vec
    · intro hf; rw [hc] at hf; cases hf
    · rw [hup, append_nil, append_nil]; exact h.handed
  | false =>
    obtain ⟨hlen, hlt, hdlv⟩ := h.incomplete hc
    have hvec : buf.ncVector = arr.map paraOf := by
      rw [h.vec, hlen, take_length]
    have hvec' : (file buf q).ncVector = (arr ++ [q]).map paraOf := by
      rw [file_incomplete hc, hvec, map_append]; rfl
    have hlen' : (file buf q).ncVector.length = arr.length + 1 := by
      rw [hvec', length_map, length_append, length_singleton]
    have hdlv' : (file buf q).deliverdSN = originals (file buf q).ncVector := by
      rw [file_incomplete hc]
      rw [originals_snoc, hdlv]
    have hcomp : (file buf q).ncComplete = false := by
      rw [file_incomplete hc]; exact hc
    have hdirect : handed ++ directUp buf q = directsOf (file buf q).ncVector := by
      rw [file_incomplete hc]
      rw [directsOf_snoc, h.handed, hc, directUp, hc]
      simp
    have htake : (file buf q).ncVector = ((arr ++ [q]).take (file buf q).ncVector.length).map paraOf := by
      rw [hlen', take_of_length_le (by simp)]; exact hvec'
    by_cases hten : originalBlockSize ≤ (file buf q).ncVector.length
    · -- the tenth PDU: decode
      have hpk : ∀ para ∈ (file buf q).ncVector, para.p.isSome := by
        intro para hp
        rw [hvec'] at hp
        obtain ⟨r, _, rfl⟩ := List.mem_map.mp hp
        rfl
      have hlast : (file buf q).ncVector.length = originalBlockSize := by omega
      obtain ⟨dlv', hloop⟩ := decodeLoop_eq hpk (range originalBlockSize) (file buf q).deliverdSN
        nodup_range (fun j hj => by rw [hlast]; exact mem_range.mp hj)
      rw [settle, if_pos ⟨hcomp, hten⟩, hloop, map_some] at hs
      cases hs
      refine ⟨⟨htake, Nat.le_of_eq hlast, by simp, ?_⟩, fun _ => ⟨hlen', by simp [hlast]⟩⟩
      rw [← append_assoc, hdirect, if_pos ⟨rfl, hten⟩, hdlv']
      rfl
    · rw [settle, if_neg (fun hh => hten hh.2)] at hs
      cases hs
      refine ⟨⟨htake, by omega, fun _ => ⟨?_, by omega, hdlv'⟩, ?_⟩, fun _ => ⟨hlen', ?_⟩⟩
      · rw [hlen', length_append, length_singleton]
      · rw [← append_assoc, hdirect, if_neg (fun hh => hten hh.2), append_nil]
      · rw [hcomp]
        constructor
        · intro hf; cases hf
        · intro he; omega

end

/-! ## The sender -/

/-- The sender's vectors and PDUs against the submitted SDUs, as they are with
their headers added again. -/
structure TxShape (sub : List Packet) (sent : List NcPdu) (tx : LtePdcp) : Prop where
  ncEnable : tx.ncEnable = true
  group : tx.nc.groupnum = sub.length / originalBlockSize
  len : (encVector tx.nc tx.nc.groupnum).length = sub.length % originalBlockSize
  above : ∀ g, tx.nc.groupnum < g → encVector tx.nc g = []
  shape : ∀ g k, k < originalBlockSize → (encVector tx.nc g)[k]?.bind NcPara.p = sub[originalBlockSize * g + k]?
  pdus : ∀ q ∈ sent, q.header.dorC = 0 ∧
    sub[originalBlockSize * q.header.groupnum + min q.header.sn (originalBlockSize - 1)]? = some q.packet
  fresh : sent.Pairwise fun q q' => q.header.sn < originalBlockSize → pairOf q ≠ pairOf q'

theorem txShape_init (flags : Bool × Bool × Bool × Bool) : TxShape [] [] (LtePdcp.init true false flags) :=
  ⟨rfl, rfl, rfl, fun _ _ => rfl, fun _ _ _ => rfl, fun _ h => (nomatch h), List.Pairwise.nil⟩

section
variable {sub : List Packet} {sent : List NcPdu} {tx tx' : LtePdcp} {o : List PdcpOut}

theorem getElem?_snoc_of_ne {α : Type} (l : List α) (a : α) {i : Nat} (h : i ≠ l.length) : (l ++ [a])[i]? = l[i]? := by
  rcases Nat.lt_or_gt_of_ne h with h | h
  · exact getElem?_append_left h
  · rw [getElem?_eq_none (by simp; omega), getElem?_eq_none (by omega)]

variable {q : NcPdu}

theorem TxShape.below (hi : TxShape sub sent tx) (hq : q ∈ sent) (hsn : q.header.sn < originalBlockSize)
    (hg : q.header.groupnum = tx.nc.groupnum) : q.header.sn < sub.length % originalBlockSize := by
  obtain ⟨hlt, _⟩ := List.getElem?_eq_some_iff.mp (hi.pdus q hq).2
  have hmin : min q.header.sn (originalBlockSize - 1) = q.header.sn := Nat.min_eq_left (by omega)
  rw [hmin, hg, hi.group] at hlt
  have := Nat.div_add_mod sub.length originalBlockSize
  omega

theorem TxShape.submit (hi : TxShape sub sent tx) {p : Packet} {rand : Nat → Nat → Nat}
    (h : tx.step (.transmit p rand) = some (tx', o)) : TxShape (sub ++ [p.readdHeaders]) (sent ++ downs o) tx' := by
  have hdm := Nat.div_add_mod sub.length originalBlockSize
  have hmlt : sub.length % originalBlockSize < originalBlockSize := Nat.mod_lt _ (by decide)
  have hroom : (encVector tx.nc tx.nc.groupnum).length < originalBlockSize := by rw [hi.len]; exact hmlt
  obtain ⟨tx₁, o₁, para, new, q, qs, hstep, hmode, _, hp, hvec, _, _, hdowns, hqd, hqg, hqsn, hqp, hnext⟩ :=
    ncTransmit_spec hi.ncEnable p rand hroom
  obtain ⟨rfl, rfl⟩ := Prod.mk.inj (Option.some.inj (hstep.symm.trans h))
  have hat : sub.length = originalBlockSize * tx.nc.groupnum + (encVector tx.nc tx.nc.groupnum).length := by
    rw [hi.len, hi.group]; exact hdm.symm
  have hlast : (sub ++ [p.readdHeaders])[sub.length]? = some p.readdHeaders := by simp
  -- the counter moves on with the tenth SDU
  have hgroup : tx₁.nc.groupnum = (sub ++ [p.readdHeaders]).length / originalBlockSize ∧
      (encVector tx₁.nc tx₁.nc.groupnum).length = (sub ++ [p.readdHeaders]).length % originalBlockSize := by
    rw [length_append, length_singleton]
    rcases hnext with ⟨hlt, rfl, _, hg⟩ | ⟨hfull, _, _, _, hg⟩
    · rw [hi.len] at hlt
      rw [hg, hvec, if_pos rfl, length_append, length_singleton, hi.len, hi.group]
      have hlt' : sub.length % 10 + 1 < 10 := hlt
      change _ = (sub.length + 1) / 10 ∧ _ = (sub.length + 1) % 10
      change sub.length / 10 = _ ∧ sub.length % 10 + 1 = _
      lia
    · rw [hi.len] at hfull
      rw [hg, hvec, if_neg (by omega), hi.above _ (Nat.lt_succ_self _), hi.group]
      have hfull' : sub.length % 10 + 1 = 10 := hfull
      change sub.length / 10 + 1 = (sub.length + 1) / 10 ∧ 0 = (sub.length + 1) % 10
      omega
  refine ⟨hmode.ncEnable.trans hi.ncEnable, hgroup.1, hgroup.2, ?_, ?_, ?_, ?_⟩
  · intro g hg
    have hlt : tx.nc.groupnum < g := by
      rcases hnext with ⟨_, _, _, he⟩ | ⟨_, _, _, _, he⟩ <;> omega
    rw [hvec, if_neg (by omega), hi.above g hlt]
  · intro g k hk
    by_cases hg : g = tx.nc.groupnum
    · subst hg
      rw [hvec, if_pos rfl]
      rcases Nat.lt_trichotomy k (encVector tx.nc tx.nc.groupnum).length with hlt | rfl | hgt
      · rw [getElem?_append_left hlt, hi.shape _ k hk, getElem?_snoc_of_ne _ _ (by omega)]
      · rw [getElem?_append_right (Nat.le_refl _), Nat.sub_self, ← hat, hlast]
        exact hp
      · -- past the new SDU there are only redundancy entries, at ten and above
        rcases hnext with ⟨_, rfl, _, _⟩ | ⟨hfull, _⟩
        · rw [getElem?_eq_none (by simp; omega), getElem?_eq_none (by simp; omega)]
          rfl
        · omega
    · rw [hvec, if_neg hg, hi.shape g k hk, getElem?_snoc_of_ne]
      intro he
      rcases Nat.lt_or_gt_of_ne hg with hlt | hgt
      · have : originalBlockSize * (g + 1) ≤ originalBlockSize * tx.nc.groupnum := Nat.mul_le_mul_left _ hlt
        rw [Nat.mul_succ] at this
        omega
      · have : originalBlockSize * (tx.nc.groupnum + 1) ≤ originalBlockSize * g := Nat.mul_le_mul_left _ hgt
        rw [Nat.mul_succ] at this
        omega
  · intro r hr
    rcases mem_append.mp hr with hr | hr
    · obtain ⟨hd, hs⟩ := hi.pdus r hr
      obtain ⟨hlt, _⟩ := List.getElem?_eq_some_iff.mp hs
      exact ⟨hd, by rw [getElem?_append_left hlt, hs]⟩
    · rw [hdowns] at hr
      rcases mem_cons.mp hr with rfl | hr
      · refine ⟨hqd, ?_⟩
        have hmin : min r.header.sn (originalBlockSize - 1) = (encVector tx.nc tx.nc.groupnum).length := by
          rw [hqsn]; omega
        rw [hmin, hqg, ← hat, hlast, hqp]
      · rcases hnext with ⟨_, _, rfl, _⟩ | ⟨hfull, _, _, hrep, _⟩
        · cases hr
        · have hr' := hrep r hr
          refine ⟨hr'.data, ?_⟩
          have hmin : min r.header.sn (originalBlockSize - 1) = (encVector tx.nc tx.nc.groupnum).length := by
            have := hr'.sn
            lia
          rw [hmin, hr'.group, ← hat, hlast, hr'.packet]
  · rw [hdowns]
    have hqs : ∀ r ∈ qs, originalBlockSize ≤ r.header.sn := by
      intro r hr
      rcases hnext with ⟨_, _, rfl, _⟩ | ⟨_, _, _, hrep, _⟩
      · cases hr
      · exact (hrep r hr).sn
    refine pairwise_append.mpr ⟨hi.fresh, pairwise_cons.mpr ⟨?_, ?_⟩, ?_⟩
    · intro r hr _ he
      have := hqs r hr
      have := (Prod.mk.inj he).2
      omega
    · exact pairwise_of_forall_mem_list fun r hr _ _ hsn => absurd hsn (Nat.not_lt.mpr (hqs r hr))
    · intro r hr r' hr' hsn he
      obtain ⟨heg, hes⟩ := Prod.mk.inj he
      rcases mem_cons.mp hr' with rfl | hr'
      · have := hi.below hr hsn (heg.trans hqg)
        rw [← hi.len] at this
        lia
      · have := hqs r' hr'
        omega

theorem TxShape.answer (hi : TxShape sub sent tx) (hq : q.header.dorC = 1) {rand : Nat → Nat → Nat}
    (h : tx.step (.receive q rand) = some (tx', o)) :
    TxShape sub (sent ++ downs o) tx' ∧ ∀ r ∈ downs o, r.header.groupnum = q.header.groupnum := by
  have hrecv : tx.ncRecv q rand = some (tx', o) := by
    rw [← h]
    exact (if_pos hi.ncEnable).symm
  obtain ⟨hg, _, hvec, hmode, _, hpdus⟩ := ncRecv_status hq hrecv
  refine ⟨⟨hmode.ncEnable.trans hi.ncEnable, hg.trans hi.group, ?_, ?_, ?_, ?_, ?_⟩, ?_⟩
  · rw [hg, hvec]; exact hi.len
  · intro g hgt
    rw [hvec]; exact hi.above g (hg ▸ hgt)
  · intro g k hk
    rw [hvec]; exact hi.shape g k hk
  · intro r hr
    rcases mem_append.mp hr with hr | hr
    · exact hi.pdus r hr
    · obtain ⟨p, hp, hrep⟩ := hpdus r hr
      refine ⟨hrep.data, ?_⟩
      have hmin : min r.header.sn (originalBlockSize - 1) = originalBlockSize - 1 := by
        have := hrep.sn
        omega
      rw [hmin, hrep.group, hrep.packet, ← hi.shape _ _ (by decide), hp]
  · have hsn : ∀ r ∈ downs o, originalBlockSize ≤ r.header.sn := fun r hr => by
      obtain ⟨_, _, hrep⟩ := hpdus r hr
      exact hrep.sn
    refine pairwise_append.mpr ⟨hi.fresh, ?_, ?_⟩
    · exact pairwise_of_forall_mem_list fun r hr _ _ hs => absurd hs (Nat.not_lt.mpr (hsn r hr))
    · intro r _ r' hr' hs he
      have := hsn r' hr'
      have := (Prod.mk.inj he).2
      omega
  · intro r hr
    obtain ⟨_, _, hrep⟩ := hpdus r hr
    exact hrep.group

theorem TxShape.reply_total (hi : TxShape sub sent tx) (hq : q.header.dorC = 1)
    (hfull : q.header.groupnum < tx.nc.groupnum) (rand : Nat → Nat → Nat) :
    ∃ tx' o p, tx.step (.receive q rand) = some (tx', o) ∧
      downs o = (List.range (originalBlockSize - q.header.rank)).map
    (reply q.header.groupnum q.header.rank p rand) := by
  have hlt : originalBlockSize * q.header.groupnum + (originalBlockSize - 1) < sub.length := by
    have : originalBlockSize * (q.header.groupnum + 1) ≤ originalBlockSize * tx.nc.groupnum :=
      Nat.mul_le_mul_left _ hfull
    rw [Nat.mul_succ, hi.group] at this
    have := Nat.div_add_mod sub.length originalBlockSize
    have hten : originalBlockSize = 10 := rfl
    omega
  have hshape := hi.shape q.header.groupnum (originalBlockSize - 1) (by decide)
  rw [getElem?_eq_getElem hlt] at hshape
  obtain ⟨para, hpara, hp⟩ := bind_eq_some_iff.mp hshape
  cases henc : tx.nc.encoding q.header.groupnum with
  | none => simp [encVector, henc] at hpara
  | some buf =>
    have hlast : buf.ncVector[originalBlockSize - 1]? = some para := by
      simpa [encVector, henc] using hpara
    obtain ⟨tx', o, h, hd⟩ := ncRecv_status_reply hq henc hlast hp rand
    exact ⟨tx', o, _, (if_pos hi.ncEnable).trans h, hd⟩

end

/-! ## The system -/

namespace NcSystem

section
variable {sent : List NcPdu} {arrived : List Nat}

theorem arrivals_append_sent (h : ∀ i ∈ arrived, i < sent.length) (l : List NcPdu) (g : Nat) :
    arrivals (sent ++ l) arrived g = arrivals sent arrived g := by
  unfold arrivals
  rw [filterMap_congr fun i hi => getElem?_append_left (h i hi)]

theorem arrivals_snoc {i : Nat} {q : NcPdu} (hq : sent[i]? = some q) (g : Nat) : arrivals sent (arrived ++ [i]) g =
      if g = q.header.groupnum then arrivals sent arrived g ++ [q] else arrivals sent arrived g := by
  unfold arrivals
  rw [filterMap_append, filter_append, filterMap_cons, hq]
  by_cases hg : g = q.header.groupnum
  · rw [if_pos hg, filterMap_nil, filter_cons_of_pos (by simp [hg])]; rfl
  · rw [if_neg hg, filterMap_nil, filter_cons_of_neg (by simpa using fun e => hg e.symm), filter_nil, append_nil]

/-- Position `i` of `sent` holds a PDU of group `g`. -/
def holds (sent : List NcPdu) (g i : Nat) : Bool :=
  (sent[i]?).any fun q => q.header.groupnum = g

theorem arrivals_length (g : Nat) : (arrivals sent arrived g).length = (arrived.filter (holds sent g)).length := by
  unfold arrivals
  induction arrived with
  | nil => rfl
  | cons i l ih =>
    cases hq : sent[i]? with
    | none =>
      rw [filterMap_cons_none hq, ih, filter_cons_of_neg (by simp [holds, hq])]
    | some q =>
      rw [filterMap_cons_some hq]
      by_cases hg : q.header.groupnum = g
      · rw [filter_cons_of_pos (by simp [hg]), filter_cons_of_pos (by simp [holds, hq, hg]),
          length_cons, length_cons, ih]
      · rw [filter_cons_of_neg (by simp [hg]), filter_cons_of_neg (by simp [holds, hq, hg]), ih]

theorem holds_append {g i : Nat} (h : i < sent.length) (l : List NcPdu) : holds (sent ++ l) g i = holds sent g i := by
  unfold holds
  rw [getElem?_append_left h]

end

/-- The retransmissions of one report against what has arrived: at the time of
the answer the group had as many arrivals as the rank says. -/
structure AnswerOk (w : NcSystem) (a : Answer) : Prop where
  rank : a.report.header.rank < originalBlockSize
  count : a.count = originalBlockSize - a.report.header.rank
  bound : a.first + a.count ≤ w.sent.length
  group : ∀ i, a.first ≤ i → i < a.first + a.count → holds w.sent a.report.header.groupnum i = true
  before : a.report.header.rank ≤
    (w.arrived.filter fun i => decide (i < a.first) && holds w.sent a.report.header.groupnum i).length

structure ReportOk (w : NcSystem) (r : NcPdu) : Prop where
  status : r.header.dorC = 1
  full : r.header.groupnum < w.tx.nc.groupnum
  rank : r.header.rank < originalBlockSize
  arrivals : r.header.rank ≤ (w.arrivedOf r.header.groupnum).length

structure Inv (w : NcSystem) : Prop where
  tx : TxShape (w.submitted.map Packet.readdHeaders) w.sent w.tx
  rx : NcInv w.rx
  total : NcRx w.rx.nc
  nodup : w.arrived.Nodup
  bound : ∀ i ∈ w.arrived, i < w.sent.length
  groups : ∀ g, GroupOk (w.arrivedOf g) (w.handedOf g) (w.rx.nc.bufferOf g)
  reports : ∀ r ∈ w.reports, ReportOk w r
  answers : ∀ a ∈ w.answers, AnswerOk w a

theorem inv_init (txFlags rxFlags : Bool × Bool × Bool × Bool) : Inv (init txFlags rxFlags) where
  tx := txShape_init txFlags
  rx := ncInv_init false rxFlags
  total := ⟨rfl, rfl, fun _ => ⟨Nat.zero_le _, fun _ h => nomatch h⟩⟩
  nodup := nodup_nil
  bound _ h := nomatch h
  groups _ := groupOk_empty
  reports _ h := nomatch h
  answers _ h := nomatch h

section
variable {w w' : NcSystem} {a : Answer} {rand : Nat → Nat → Nat}

theorem AnswerOk.sent (h : AnswerOk w a) (hb : ∀ i ∈ w.arrived, i < w.sent.length) {l : List NcPdu}
    (hs : w'.sent = w.sent ++ l) (ha : w'.arrived = w.arrived) : AnswerOk w' a := by
  refine ⟨h.rank, h.count, ?_, ?_, ?_⟩
  · rw [hs, length_append]
    have := h.bound
    omega
  · intro i hlo hhi
    have := h.bound
    rw [hs, holds_append (by omega)]
    exact h.group i hlo hhi
  · rw [hs, ha]
    refine Nat.le_trans h.before (Nat.le_of_eq (congrArg List.length (filter_congr fun i hi => ?_)))
    rw [holds_append (hb i hi)]

theorem AnswerOk.arrived (h : AnswerOk w a) {l : List Nat} (hs : w'.sent = w.sent)
    (ha : w'.arrived = w.arrived ++ l) : AnswerOk w' a := by
  refine ⟨h.rank, h.count, hs ▸ h.bound, hs ▸ h.group, ?_⟩
  rw [hs, ha, filter_append, length_append]
  exact Nat.le_trans h.before (Nat.le_add_right ..)

theorem Inv.sent (hi : Inv w) {tx : LtePdcp} {submitted : List Packet} {o : List PdcpOut}
    (htx : TxShape (submitted.map Packet.readdHeaders) (w.sent ++ downs o) tx) (hgroup : w.tx.nc.groupnum ≤ tx.nc.groupnum) :
    Inv { w with tx := tx, submitted := submitted, sent := w.sent ++ downs o } := by
  have harr : ∀ g, arrivals (w.sent ++ downs o) w.arrived g = w.arrivedOf g := arrivals_append_sent hi.bound _
  refine ⟨htx, hi.rx, hi.total, hi.nodup, ?_, ?_, ?_, fun a ha => (hi.answers a ha).sent hi.bound rfl rfl⟩
  · intro i hmem
    have := hi.bound i hmem
    simp only [length_append]
    omega
  · intro g
    have := hi.groups g
    rw [← harr g] at this
    exact this
  · intro r hr
    obtain ⟨h₁, h₂, h₃, h₄⟩ := hi.reports r hr
    rw [← harr] at h₄
    exact ⟨h₁, Nat.lt_of_lt_of_le h₂ hgroup, h₃, h₄⟩

theorem Inv.answered (hi : Inv w) (ha : AnswerOk w a) : Inv { w with answers := w.answers ++ [a] } := by
  refine { hi with reports := fun r hr => ?_, answers := fun a' ha' => ?_ }
  · obtain ⟨h₁, h₂, h₃, h₄⟩ := hi.reports r hr
    exact ⟨h₁, h₂, h₃, h₄⟩
  · have hok : AnswerOk w a' := by
      rcases mem_append.mp ha' with ha' | ha'
      · exact hi.answers a' ha'
      · obtain rfl := mem_singleton.mp ha'
        exact ha
    exact ⟨hok.rank, hok.count, hok.bound, hok.group, hok.before⟩

theorem Inv.submit (hi : Inv w) {p : Packet} (h : w.step (.submit p rand) = some w') : Inv w' := by
  obtain ⟨⟨tx, o⟩, hstep, h⟩ := bind_eq_some_iff.mp h
  cases h
  have htx := hi.tx.submit hstep
  refine hi.sent (by rwa [map_append]) ?_
  rw [htx.group, hi.tx.group, length_append, length_singleton]
  exact Nat.div_le_div_right (Nat.le_succ _)

theorem Inv.report (hi : Inv w) {j : Nat} (h : w.step (.report j rand) = some w') : Inv w' := by
  obtain ⟨q, hq, h⟩ := bind_eq_some_iff.mp h
  obtain ⟨⟨tx, o⟩, hstep, h⟩ := bind_eq_some_iff.mp h
  cases h
  have hrep := hi.reports q (mem_of_getElem? hq)
  obtain ⟨htx, hgroup⟩ := hi.tx.answer hrep.status hstep
  obtain ⟨tx₁, o₁, p, hstep', hdowns⟩ := hi.tx.reply_total hrep.status hrep.full rand
  obtain ⟨rfl, rfl⟩ := Prod.mk.inj (Option.some.inj (hstep'.symm.trans hstep))
  have harr : ∀ g, arrivals (w.sent ++ downs o₁) w.arrived g = w.arrivedOf g := arrivals_append_sent hi.bound _
  have hgr : tx₁.nc.groupnum = w.tx.nc.groupnum := by rw [htx.group, hi.tx.group]
  refine (hi.sent htx hgr.ge).answered ?_
  -- everything that arrived so far lies before the answer
  refine ⟨hrep.rank, ?_, ?_, ?_, ?_⟩
  · simp [hdowns]
  · simp
  · intro i hlo hhi
    have hlt : i - w.sent.length < (downs o₁).length := by
      dsimp only at hlo hhi
      omega
    unfold holds
    rw [getElem?_append_right hlo, getElem?_eq_getElem hlt]
    simpa using hgroup _ (getElem_mem hlt)
  · have hlen := hrep.arrivals
    rw [← harr, arrivals_length] at hlen
    refine Nat.le_trans hlen (Nat.le_of_eq (congrArg List.length (filter_congr fun i hmem => ?_)))
    have := hi.bound i hmem
    simp [this]

theorem handedOf_append (hd : List (Nat × Packet)) (g₀ : Nat) (ps : List Packet) (g : Nat) :
    ((hd ++ ps.map (g₀, ·)).filter (fun r => r.1 = g)).map Prod.snd =
      (hd.filter fun r => r.1 = g).map Prod.snd ++ if g = g₀ then ps else [] := by
  rw [filter_append, map_append]
  congr 1
  by_cases hg : g = g₀
  · rw [if_pos hg, filter_eq_self.mpr (by simp [hg]), List.map_map]
    exact List.map_id' ps
  · rw [if_neg hg, filter_eq_nil_iff.mpr (by simpa using fun _ _ e => hg e.symm), map_nil]

theorem arrive_cases {i : Nat} (h : w.step (.arrive i rand) = some w') :
    i ∉ w.arrived ∧ ∃ q rx o, w.sent[i]? = some q ∧ w.rx.step (.receive q rand) = some (rx, o) ∧
      w' = { w with rx := rx, arrived := w.arrived ++ [i], reports := w.reports ++ downs o,
                    handed := w.handed ++ (ups o).map (q.header.groupnum, ·) } := by
  change (if i ∈ w.arrived then none else _) = _ at h
  split at h
  · cases h
  · rename_i hmem
    obtain ⟨q, hq, h⟩ := bind_eq_some_iff.mp h
    obtain ⟨⟨rx, o⟩, hstep, h⟩ := bind_eq_some_iff.mp h
    exact ⟨hmem, q, rx, o, hq, hstep, (Option.some.inj h).symm⟩

theorem Inv.group_le (hi : Inv w) {q : NcPdu} (hq : q ∈ w.sent) : q.header.groupnum ≤ w.tx.nc.groupnum := by
  obtain ⟨hlt, _⟩ := List.getElem?_eq_some_iff.mp (hi.tx.pdus q hq).2
  rw [hi.tx.group, Nat.le_div_iff_mul_le (by decide), Nat.mul_comm]
  omega

theorem Inv.arrive (hi : Inv w) {i : Nat} (h : w.step (.arrive i rand) = some w') :
    Inv w' ∧ ∀ q, w.sent[i]? = some q → (w.rx.nc.bufferOf q.header.groupnum).ncComplete = false →
    (w.arrivedOf q.header.groupnum).length + 1 = originalBlockSize →
    (w'.rx.nc.bufferOf q.header.groupnum).ncComplete = true ∧
    (w'.rx.nc.bufferOf q.header.groupnum).ncVector.length = originalBlockSize := by
  obtain ⟨hmem, q, rx, o, hq, hstep, rfl⟩ := arrive_cases h
  have hsent : q ∈ w.sent := mem_of_getElem? hq
  have hdata : q.header.dorC ≠ 1 := by rw [(hi.tx.pdus q hsent).1]; decide
  have hrecv : w.rx.ncRecv q rand = some (rx, o) := (if_pos hi.rx.ncEnable).symm.trans hstep
  obtain ⟨b, ps, hsettle, hups, _, _, hmode, hscan, hreports⟩ := ncRecv_data hdata hrecv
  obtain ⟨rx', o', hrecv', htotal⟩ := ncRecv_data_total hi.total hdata rand
  obtain ⟨rfl, rfl⟩ := Prod.mk.inj (Option.some.inj (hrecv'.symm.trans hrecv))
  have harr : ∀ g, arrivals w.sent (w.arrived ++ [i]) g =
      if g = q.header.groupnum then w.arrivedOf g ++ [q] else w.arrivedOf g := arrivals_snoc hq
  obtain ⟨hown, hten⟩ := (hi.groups q.header.groupnum).arrive hsettle
  have hmid : Scanned b (rx'.nc.bufferOf q.header.groupnum) := by
    have := hscan q.header.groupnum
    rw [midBuffer, if_pos rfl] at this
    exact ⟨this.vec, this.dlv, this.done, fun t ht => .inr ((this.timer t ht).resolve_left (by simp))⟩
  refine ⟨⟨hi.tx, hi.rx.step hstep, htotal, ?_, ?_, ?_, ?_, ?_⟩, ?_⟩
  · refine nodup_append.mpr ⟨hi.nodup, by simp, ?_⟩
    intro a ha b' hb' heq
    rw [mem_singleton] at hb'
    exact hmem (hb' ▸ heq ▸ ha)
  · intro k hk
    rcases mem_append.mp hk with hk | hk
    · exact hi.bound k hk
    · rw [mem_singleton] at hk
      exact hk ▸ (List.getElem?_eq_some_iff.mp hq).1
  · intro g
    change GroupOk (arrivals w.sent (w.arrived ++ [i]) g)
      (((w.handed ++ (ups o').map (q.header.groupnum, ·)).filter (fun r => r.1 = g)).map Prod.snd) _
    rw [harr, handedOf_append]
    by_cases hg : g = q.header.groupnum
    · subst hg
      rw [if_pos rfl, if_pos rfl, hups]
      exact hown.scanned hmid
    · rw [if_neg hg, if_neg hg, append_nil]
      have := hscan g
      rw [midBuffer, if_neg hg] at this
      exact (hi.groups g).scanned this
  · intro r hr
    rcases mem_append.mp hr with hr | hr
    · obtain ⟨h₁, h₂, h₃, h₄⟩ := hi.reports r hr
      refine ⟨h₁, h₂, h₃, Nat.le_trans h₄ ?_⟩
      change _ ≤ (arrivals w.sent (w.arrived ++ [i]) r.header.groupnum).length
      rw [harr]
      split
      · rw [length_append]; exact Nat.le_add_right ..
      · exact Nat.le_refl _
    · -- a new report asks for an incomplete group that the sender has left
      obtain ⟨k, hk, hcomp, rfl⟩ := hreports r hr
      obtain ⟨hlen, hlt, _⟩ := (hi.groups k).incomplete hcomp
      have hle := hi.group_le hsent
      have hrank : (reportFor k (w.rx.nc.bufferOf k)).header.rank = (w.rx.nc.bufferOf k).ncVector.length :=
        Nat.min_eq_left (Nat.le_of_lt hlt)
      refine ⟨rfl, ?_, hrank ▸ hlt, ?_⟩
      · change k < w.tx.nc.groupnum
        omega
      · change _ ≤ (arrivals w.sent (w.arrived ++ [i]) k).length
        rw [harr, if_neg (by omega), hrank, hlen]
  · intro a ha
    exact (hi.answers a ha).arrived rfl rfl
  · intro q' hq' hcomp hlen
    obtain rfl : q = q' := Option.some.inj (hq.symm.trans hq')
    obtain ⟨hlen', hiff⟩ := hten hcomp
    rw [hlen] at hlen'
    exact ⟨hmid.done (hiff.mpr hlen'), hmid.vec.symm ▸ hlen'⟩

end

variable {w : NcSystem}

/-- No event of either party breaks the invariant, whatever is lost on the way. -/
theorem inv_run {txFlags rxFlags : Bool × Bool × Bool × Bool} {tr : List (Event × List Unit)}
    (h : Run machine anyStep (init txFlags rxFlags) tr w) : Inv w := by
  refine Run.invariant (fun _ => Inv) (inv_init txFlags rxFlags) ?_ h
  intro _ w e w' _ hi _ hstep
  obtain ⟨w₁, hs, he⟩ := map_eq_some_iff.mp hstep
  cases he
  cases e with
  | submit p rand => exact hi.submit hs
  | arrive i rand => exact (hi.arrive hs).1
  | report j rand => exact hi.report hs
  | expire g =>
    -- an expiry has no successor
    obtain ⟨⟨rx, o⟩, hexp, _⟩ := bind_eq_some_iff.mp hs
    rw [show w.rx.step (.ncTimer g) = none from expireNc_none hi.rx.copy hi.rx.timers g] at hexp
    cases hexp

/-! ## Answers to reports -/

def AllArrived (w : NcSystem) (a : Answer) : Prop :=
  ∀ i, a.first ≤ i → i < a.first + a.count → i ∈ w.arrived

theorem Inv.ten_arrivals (hi : Inv w) {a : Answer} (ha : a ∈ w.answers) (hall : AllArrived w a) :
    originalBlockSize ≤ (w.arrivedOf a.report.header.groupnum).length := by
  have hok := hi.answers a ha
  let g := a.report.header.groupnum
  let early := w.arrived.filter fun i => decide (i < a.first) && holds w.sent g i
  let late := range' a.first a.count
  have hlate : late.Nodup := nodup_range'
  have hearly : early.Nodup := hi.nodup.filter _
  have hnodup : (early ++ late).Nodup := by
    refine nodup_append.mpr ⟨hearly, hlate, ?_⟩
    intro x hx y hy he
    have hlt := (mem_filter.mp hx).2
    have hge := (mem_range'_1.mp hy).1
    simp only [Bool.and_eq_true, decide_eq_true_eq] at hlt
    omega
  have hsub : early ++ late ⊆ w.arrived.filter (holds w.sent g) := by
    intro x hx
    rcases mem_append.mp hx with hx | hx
    · obtain ⟨hm, hp⟩ := mem_filter.mp hx
      simp only [Bool.and_eq_true] at hp
      exact mem_filter.mpr ⟨hm, hp.2⟩
    · obtain ⟨hlo, hhi⟩ := mem_range'_1.mp hx
      exact mem_filter.mpr ⟨hall x hlo hhi, hok.group x hlo hhi⟩
  have hle := (subperm_of_subset hnodup hsub).length_le
  rw [length_append, length_range'] at hle
  have hbefore : a.report.header.rank ≤ early.length := hok.before
  have hcount := hok.count
  change originalBlockSize ≤ (arrivals w.sent w.arrived g).length
  rw [arrivals_length]
  omega

theorem Inv.complete (hi : Inv w) {a : Answer} (ha : a ∈ w.answers) (hall : AllArrived w a) :
    (w.rx.nc.bufferOf a.report.header.groupnum).ncComplete = true := by
  cases hc : (w.rx.nc.bufferOf a.report.header.groupnum).ncComplete with
  | true => rfl
  | false =>
    obtain ⟨hlen, hlt, _⟩ := (hi.groups a.report.header.groupnum).incomplete hc
    have := hi.ten_arrivals ha hall
    omega

/-- **Reports are answered.** In every run every report gets as many
retransmissions as its group lacks, of that group, with the polling bit on the
last only; every PDU in flight can arrive; and when the retransmissions have
all arrived their group is complete, by decoding at the last arrival if it was
neither complete nor given up before. -/
theorem nc_reports_answered {txFlags rxFlags : Bool × Bool × Bool × Bool} {tr : List (Event × List Unit)}
    {w : NcSystem} (h : Run machine anyStep (init txFlags rxFlags) tr w) :
    (∀ j q rand, w.reports[j]? = some q → ∃ w' pdus, w.step (.report j rand) = some w' ∧
      w'.sent = w.sent ++ pdus ∧ pdus.length = originalBlockSize - q.header.rank ∧
      ∀ k pdu, pdus[k]? = some pdu → pdu.header.groupnum = q.header.groupnum ∧
        (pdu.header.polling = 1 ↔ k + 1 = pdus.length)) ∧
    (∀ i rand, i < w.sent.length → i ∉ w.arrived → ∃ w', w.step (.arrive i rand) = some w') ∧
    (∀ a ∈ w.answers, a.count = originalBlockSize - a.report.header.rank ∧
      (AllArrived w a → (w.rx.nc.bufferOf a.report.header.groupnum).ncComplete = true) ∧
      ∀ i rand w', w.step (.arrive i rand) = some w' → AllArrived w' a →
        (w.rx.nc.bufferOf a.report.header.groupnum).ncComplete = false →
        (w'.rx.nc.bufferOf a.report.header.groupnum).ncComplete = true ∧
        (w'.rx.nc.bufferOf a.report.header.groupnum).ncVector.length = originalBlockSize) := by
  have hi := inv_run h
  refine ⟨?_, ?_, ?_⟩
  · intro j q rand hq
    have hrep := hi.reports q (mem_of_getElem? hq)
    obtain ⟨tx, o, p, hstep, hdowns⟩ := hi.tx.reply_total hrep.status hrep.full rand
    refine ⟨{ w with tx := tx, sent := w.sent ++ downs o,
                     answers := w.answers ++ [⟨q, w.sent.length, (downs o).length⟩] }, downs o, ?_, rfl, ?_, ?_⟩
    · change (w.reports[j]?).bind _ = _
      rw [hq, bind_some]
      rw [hstep]; rfl
    · rw [hdowns, length_map, length_range]
    · intro k pdu hk
      rw [hdowns, getElem?_map, map_eq_some_iff] at hk
      obtain ⟨k', hk', rfl⟩ := hk
      obtain ⟨hlt, he⟩ := List.getElem?_eq_some_iff.mp hk'
      rw [getElem_range] at he
      subst he
      rw [length_range] at hlt
      refine ⟨rfl, ?_⟩
      rw [hdowns, length_map, length_range]
      change (if k = originalBlockSize - 1 - q.header.rank then 1 else 0) = 1 ↔ _
      split <;> omega
  · intro i rand hlt hmem
    have hq := getElem?_eq_getElem hlt
    have hdata : (w.sent[i]).header.dorC ≠ 1 := by
      rw [(hi.tx.pdus _ (getElem_mem hlt)).1]; decide
    obtain ⟨rx, o, hrecv, _⟩ := ncRecv_data_total hi.total hdata rand
    have hstep : w.rx.step (.receive w.sent[i] rand) = some (rx, o) := (if_pos hi.rx.ncEnable).trans hrecv
    change ∃ w', (if i ∈ w.arrived then none else (w.sent[i]?).bind _) = some w'
    rw [if_neg hmem, hq, bind_some]
    rw [hstep]
    exact ⟨_, rfl⟩
  · intro a ha
    refine ⟨(hi.answers a ha).count, hi.complete ha, ?_⟩
    intro i rand w' hstep hall hcomp
    obtain ⟨hi', hdecode⟩ := hi.arrive hstep
    obtain ⟨hmem, q, rx, o, hq, _, rfl⟩ := arrive_cases hstep
    -- the arrival is one of the retransmissions, or the group was complete before
    have hin : a.first ≤ i ∧ i < a.first + a.count := by
      by_contra hout
      have hbefore : AllArrived w a := by
        intro k hlo hhi
        rcases mem_append.mp (hall k hlo hhi) with hk | hk
        · exact hk
        · rw [mem_singleton] at hk
          exact absurd (hk ▸ ⟨hlo, hhi⟩) hout
      rw [hi.complete ha hbefore] at hcomp
      cases hcomp
    have hgroup : q.header.groupnum = a.report.header.groupnum := by
      have := (hi.answers a ha).group i hin.1 hin.2
      simpa [holds, hq] using this
    have hten := hi'.ten_arrivals ha hall
    change originalBlockSize ≤ (arrivals w.sent (w.arrived ++ [i]) _).length at hten
    rw [arrivals_snoc hq, if_pos hgroup.symm, length_append, length_singleton] at hten
    obtain ⟨hlen, hlt, _⟩ := (hi.groups a.report.header.groupnum).incomplete hcomp
    have hlen' : (w.arrivedOf a.report.header.groupnum).length + 1 = originalBlockSize := by
      change originalBlockSize ≤ (w.arrivedOf a.report.header.groupnum).length + 1 at hten
      omega
    have hdone := hdecode q hq
    rw [hgroup] at hdone
    exact hdone hcomp hlen'

/-- Five groups are sent and only the last PDU arrives, which polls: the
receiver asks for the groups 0 and 1, and group 0 is answered. -/
def lossRun : Option (List (Event × List Unit) × NcSystem) :=
  machine.exec anyStep (init (false, false, false, false) (false, false, false, false))
    ((List.range 50).map (fun n => Event.submit (datagram n) fun _ _ => 0) ++
      [.arrive 59 fun _ _ => 0, .report 0 fun _ _ => 0])

theorem lossRun_isSome : lossRun.isSome := by decide +kernel

theorem lossRun_run : Run machine anyStep (init (false, false, false, false) (false, false, false, false))
      (lossRun.get lossRun_isSome).1 (lossRun.get lossRun_isSome).2 :=
  run_of_isSome machine anyStep _ _ lossRun_isSome

theorem nc_reports_answered_ten : ∃ w' pdus, (lossRun.get lossRun_isSome).2.step (.report 1 fun _ _ => 0) = some w' ∧
      w'.sent = (lossRun.get lossRun_isSome).2.sent ++ pdus ∧ pdus.length = 10 := by
  have hq : (lossRun.get lossRun_isSome).2.reports[1]? =
      some ⟨{ groupnum := 1, dorC := 1, rank := 0 }, .zeros 1⟩ := by decide +kernel
  obtain ⟨w', pdus, hstep, hsent, hlen, _⟩ :=
    (nc_reports_answered lossRun_run).1 1 _ (fun _ _ => 0) hq
  exact ⟨w', pdus, hstep, hsent, hlen⟩

end NcSystem

end Ns3
