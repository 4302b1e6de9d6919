import Ns3.Internet.TxDiscardSound

/-!
# Requests for any sequence number

The search behind `CopyFromSequence` splits an item or merges two neighbours,
round after round, whatever sequence number is asked for. `Rearranged` says
what no round changes; `Served` is what a successful request leaves.
-/

namespace Ns3

open List

namespace TcpTxBuffer

open SequenceNumber32

/-- New addresses are not below `a`, the address the next item gets. -/
structure Readdressed (l : List Nat) (a : Nat) (l' : List Nat) (a' : Nat) : Prop where
  nodup : l.Nodup → (∀ x ∈ l, x < a) → l'.Nodup
  bound : (∀ x ∈ l, x < a) → ∀ x ∈ l', x < a'
  old : ∀ x ∈ l', x ∈ l ∨ a ≤ x
  le : a ≤ a'

theorem Readdressed.refl (l : List Nat) (a : Nat) : Readdressed l a l a :=
  ⟨fun h _ => h, id, fun _ hx => .inl hx, Nat.le_refl a⟩

theorem Readdressed.trans {l l' l'' : List Nat} {a a' a'' : Nat} (h : Readdressed l a l' a')
    (h' : Readdressed l' a' l'' a'') : Readdressed l a l'' a'' where
  nodup hl ha := h'.nodup (h.nodup hl ha) (h.bound ha)
  bound ha := h'.bound (h.bound ha)
  old x hx := by
    rcases h'.old x hx with hx | hx
    · exact h.old x hx
    · exact .inr (Nat.le_trans h.le hx)
  le := Nat.le_trans h.le h'.le

theorem Readdressed.frame {l l' : List Nat} {a a' : Nat} (h : Readdressed l a l' a') (before after : List Nat) :
    Readdressed (before ++ (l ++ after)) a (before ++ (l' ++ after)) a' := by
  have hapart : ∀ {m : List Nat}, (∀ x ∈ m, x < a) → (∀ x ∈ m, x ∉ l) → ∀ x ∈ m, x ∉ l' := by
    intro m hm hl x hx hx'
    rcases h.old x hx' with hx' | hx'
    · exact hl x hx hx'
    · exact absurd (hm x hx) (Nat.not_lt.mpr hx')
  refine ⟨?_, ?_, ?_, h.le⟩
  · intro hl ha
    simp only [nodup_append, mem_append, or_imp, forall_and] at hl ha ⊢
    obtain ⟨hbefore, ⟨hl, hafter, hla⟩, hbl, hba⟩ := hl
    refine ⟨hbefore, ⟨h.nodup hl ha.2.1, hafter, ?_⟩, ?_, hba⟩
    · intro x hx y hy heq
      subst heq
      exact hapart ha.2.2 (fun z hz hz' => hla z hz' z hz rfl) x hy hx
    · intro x hx y hy heq
      subst heq
      exact hapart ha.1 (fun z hz hz' => hbl z hz z hz' rfl) x hx hy
  · intro ha x hx
    simp only [mem_append] at ha hx
    rcases hx with hx | hx | hx
    · exact Nat.lt_of_lt_of_le (ha x (.inl hx)) h.le
    · exact h.bound (fun y hy => ha y (.inr (.inl hy))) x hx
    · exact Nat.lt_of_lt_of_le (ha x (.inr (.inr hx))) h.le
  · intro x hx
    simp only [mem_append] at hx ⊢
    rcases hx with hx | hx | hx
    · exact .inl (.inl hx)
    · rcases h.old x hx with hx | hx
      · exact .inl (.inr (.inl hx))
      · exact .inr hx
    · exact .inl (.inr (.inr hx))

/-- A list of items, `m_retrans` and the address the next item gets. -/
structure Pieces where
  items : List TcpTxItem
  retrans : Nat
  nextAddress : Nat

/-- Items are split and merged among those whose sacked flag is `v`. -/
structure Rearranged (v : Bool) (p p' : Pieces) : Prop where
  bytes : bytesOf p'.items = bytesOf p.items
  filled : (∀ i ∈ p.items, 0 < i.size) → ∀ i ∈ p'.items, 0 < i.size
  laid : ∀ P, Laid P p.items → Laid P p'.items
  sacked : total (·.sacked) p'.items = total (·.sacked) p.items
  lost : total (·.lost) p'.items = total (·.lost) p.items
  /-- A merged item may have to be sent again as a whole. -/
  retrans : total (·.retrans) p.items ≤ p.retrans → p.retrans < 4294967296 →
    p'.retrans ≤ p.retrans ∧ p'.retrans + total (·.retrans) p.items = p.retrans + total (·.retrans) p'.items
  sackedAt : ∀ P q, SackedAt P p'.items q ↔ SackedAt P p.items q
  origin : ∀ i ∈ p'.items, ∃ j ∈ p.items, i.sacked = j.sacked ∧ i.lost = j.lost ∧ (i.retrans = true → j.retrans = true)
  untouched : v = false → p'.items.filter (·.sacked) = p.items.filter (·.sacked)
  addresses : Readdressed (p.items.map (·.address)) p.nextAddress (p'.items.map (·.address)) p'.nextAddress

section
variable {v : Bool} {p p' p'' : Pieces}

theorem Rearranged.refl (v : Bool) (p : Pieces) : Rearranged v p p where
  bytes := rfl
  filled h := h
  laid _ h := h
  sacked := rfl
  lost := rfl
  retrans _ _ := ⟨Nat.le_refl _, rfl⟩
  sackedAt _ _ := Iff.rfl
  origin i hi := ⟨i, hi, rfl, rfl, id⟩
  untouched _ := rfl
  addresses := Readdressed.refl _ _

theorem Rearranged.trans (h : Rearranged v p p') (h' : Rearranged v p' p'') : Rearranged v p p'' where
  bytes := h'.bytes.trans h.bytes
  filled hp := h'.filled (h.filled hp)
  laid P hp := h'.laid P (h.laid P hp)
  sacked := h'.sacked.trans h.sacked
  lost := h'.lost.trans h.lost
  retrans hle hlt := by
    obtain ⟨hle', hcount⟩ := h.retrans hle hlt
    obtain ⟨hle'', hcount'⟩ := h'.retrans (by omega) (by omega)
    exact ⟨by omega, by omega⟩
  sackedAt P q := (h'.sackedAt P q).trans (h.sackedAt P q)
  origin i hi := by
    obtain ⟨j, hj, hs, hl, hr⟩ := h'.origin i hi
    obtain ⟨k, hk, hs', hl', hr'⟩ := h.origin j hj
    exact ⟨k, hk, hs.trans hs', hl.trans hl', fun hi => hr' (hr hi)⟩
  untouched hv := (h'.untouched hv).trans (h.untouched hv)
  addresses := h.addresses.trans h'.addresses

theorem Rearranged.frame {items items' : List TcpTxItem} {retrans retrans' nextAddress nextAddress' : Nat}
    (h : Rearranged v ⟨items, retrans, nextAddress⟩ ⟨items', retrans', nextAddress'⟩) (before after : List TcpTxItem) :
    Rearranged v ⟨before ++ (items ++ after), retrans, nextAddress⟩
      ⟨before ++ (items' ++ after), retrans', nextAddress'⟩ := by
  have hbytes : bytesOf items' = bytesOf items := h.bytes
  have hsacked : total (·.sacked) items' = total (·.sacked) items := h.sacked
  have hlost : total (·.lost) items' = total (·.lost) items := h.lost
  refine ⟨?_, ?_, ?_, ?_, ?_, ?_, ?_, ?_, ?_, ?_⟩
  · simp [hbytes]
  · intro hp i hi
    simp only [mem_append] at hp hi
    rcases hi with hi | hi | hi
    · exact hp i (.inl hi)
    · exact h.filled (fun j hj => hp j (.inr (.inl hj))) i hi
    · exact hp i (.inr (.inr hi))
  · intro P hp
    simp only [laid_append, hbytes] at hp ⊢
    exact ⟨hp.1, h.laid _ hp.2.1, hp.2.2⟩
  · simp only [total_append, hsacked]
  · simp only [total_append, hlost]
  · intro hle hlt
    simp only [total_append] at hle hlt ⊢
    have hle' : total (·.retrans) items ≤ retrans := by omega
    obtain ⟨hshrunk, hcount⟩ := h.retrans hle' hlt
    simp only at hshrunk hcount
    exact ⟨hshrunk, by omega⟩
  · intro P q
    have hat := h.sackedAt (P + (bytesOf before).length) q
    simp only at hat
    simp only [sackedAt_append, hbytes, hat]
  · intro i hi
    simp only [mem_append] at hi ⊢
    rcases hi with hi | hi | hi
    · exact ⟨i, .inl hi, rfl, rfl, id⟩
    · obtain ⟨j, hj, hflags⟩ := h.origin i hi
      exact ⟨j, .inr (.inl hj), hflags⟩
    · exact ⟨i, .inr (.inr hi), rfl, rfl, id⟩
  · intro hv
    have hsame : items'.filter (·.sacked) = items.filter (·.sacked) := h.untouched hv
    simp only [filter_append, hsame]
  · simp only [map_append]
    exact h.addresses.frame _ _

theorem rearranged_split {x : TcpTxItem} {n : Nat} (retrans nextAddress : Nat) (hn : 0 < n) (hlt : n < x.size) :
    Rearranged x.sacked ⟨[x], retrans, nextAddress⟩
      ⟨[(splitItems nextAddress x n).1, (splitItems nextAddress x n).2], retrans, nextAddress + 1⟩ := by
  have htake : (x.packet.take n).length = n := by
    rw [length_take]
    exact Nat.min_eq_left (Nat.le_of_lt hlt)
  have hdrop : (x.packet.drop n).length = x.packet.length - n := length_drop
  have hsize : n < x.packet.length := hlt
  have htotal : ∀ flag : TcpTxItem → Bool, flag (splitItems nextAddress x n).1 = flag x →
      flag (splitItems nextAddress x n).2 = flag x →
      total flag [(splitItems nextAddress x n).1, (splitItems nextAddress x n).2] = total flag [x] := by
    intro flag h₁ h₂
    simp only [total_cons, total_nil, h₁, h₂]
    simp only [splitItems, TcpTxItem.size, htake, hdrop]
    split <;> omega
  refine ⟨?_, ?_, ?_, htotal _ rfl rfl, htotal _ rfl rfl, ?_, ?_, ?_, ?_, ?_⟩
  · simp [splitItems]
  · intro _ i hi
    simp only [mem_cons, not_mem_nil, or_false] at hi
    rcases hi with rfl | rfl
    · simp only [splitItems, TcpTxItem.size, htake]
      exact hn
    · simp only [splitItems, TcpTxItem.size, hdrop]
      omega
  · intro P hp
    obtain ⟨hstart, -, -⟩ := hp
    refine ⟨hstart, ?_, ?_, ?_, trivial⟩
    · simp only [splitItems, TcpTxItem.size, htake]
      exact hn
    · simp only [splitItems, TcpTxItem.size, htake, hstart, add_ofPosition]
    · simp only [splitItems, TcpTxItem.size, hdrop]
      omega
  · intro _ _
    have hsame := htotal (·.retrans) rfl rfl
    simp only [hsame]
    exact ⟨Nat.le_refl _, trivial⟩
  · intro P q
    simp only [sackedAt_cons, sackedAt_nil, or_false, splitItems, TcpTxItem.size, htake, hdrop]
    constructor
    · rintro (h | h)
      · exact ⟨h.1, by omega, by omega⟩
      · exact ⟨h.1, by omega, by omega⟩
    · intro h
      by_cases hq : q < P + n
      · exact .inl ⟨h.1, h.2.1, hq⟩
      · exact .inr ⟨h.1, by omega, by omega⟩
  · intro i hi
    refine ⟨x, by simp, ?_⟩
    simp only [mem_cons, not_mem_nil, or_false] at hi
    rcases hi with rfl | rfl <;> exact ⟨rfl, rfl, id⟩
  · intro hv
    simp [splitItems, hv]
  · refine ⟨?_, ?_, ?_, Nat.le_succ _⟩
    · intro _ ha
      simp only [map_cons, map_nil, mem_singleton, forall_eq, splitItems, nodup_cons,
        not_mem_nil, not_false_eq_true, nodup_nil, and_self, and_true] at ha ⊢
      omega
    · intro ha
      simp only [map_cons, map_nil, mem_cons, not_mem_nil, or_false, forall_eq, forall_eq_or_imp,
        splitItems] at ha ⊢
      omega
    · intro a ha
      simp only [map_cons, map_nil, mem_cons, not_mem_nil, or_false, splitItems] at ha ⊢
      omega

variable {retrans retrans' : Nat}

theorem mergeItems_some {x y m : TcpTxItem} (h : mergeItems retrans x y = some (m, retrans')) :
    (x.sacked = y.sacked ∧ x.lost = y.lost) ∧ m = { x with
      packet := x.packet ++ y.packet
      retrans := x.retrans && y.retrans
      lastSent := if x.lastSent < y.lastSent then y.lastSent else x.lastSent } ∧
      retrans' = if x.retrans = y.retrans then retrans
        else if x.retrans then uint32 (retrans - x.size) else uint32 (retrans - y.size) := by
  unfold mergeItems at h
  split at h
  · rename_i hsame
    cases h
    exact ⟨hsame, rfl, rfl⟩
  · cases h

theorem rearranged_merge {x y m : TcpTxItem} (nextAddress : Nat) (h : mergeItems retrans x y = some (m, retrans')) :
    Rearranged x.sacked ⟨[x, y], retrans, nextAddress⟩ ⟨[m], retrans', nextAddress⟩ := by
  obtain ⟨⟨hs, hl⟩, rfl, rfl⟩ := mergeItems_some h
  refine ⟨?_, ?_, ?_, ?_, ?_, ?_, ?_, ?_, ?_, ?_⟩
  · simp
  · intro hp i hi
    have hx : 0 < x.packet.length := hp x (by simp)
    rw [mem_singleton.mp hi]
    simp only [TcpTxItem.size, length_append]
    omega
  · intro P hp
    obtain ⟨hstart, hx, -⟩ := hp
    refine ⟨hstart, ?_, trivial⟩
    simp only [TcpTxItem.size, length_append] at hx ⊢
    omega
  · simp only [total_cons, total_nil, TcpTxItem.size, length_append, ← hs]
    split <;> omega
  · simp only [total_cons, total_nil, TcpTxItem.size, length_append, ← hl]
    split <;> omega
  · intro hle hlt
    simp only [total_cons, total_nil, TcpTxItem.size, length_append] at hle hlt ⊢
    cases hx : x.retrans <;> cases hy : y.retrans <;> simp [hx, hy, uint32] at hle ⊢ <;> omega
  · intro P q
    simp only [sackedAt_cons, sackedAt_nil, or_false, TcpTxItem.size, length_append, ← hs]
    constructor
    · intro h
      by_cases hq : q < P + x.packet.length
      · exact .inl ⟨h.1, h.2.1, hq⟩
      · exact .inr ⟨h.1, by omega, by omega⟩
    · rintro (h | h)
      · exact ⟨h.1, by omega, by omega⟩
      · exact ⟨h.1, by omega, by omega⟩
  · intro i hi
    rw [mem_singleton.mp hi]
    exact ⟨x, by simp, rfl, rfl, fun hr => (Bool.and_eq_true_iff.mp hr).1⟩
  · intro hv
    simp [← hs, hv]
  · refine ⟨?_, ?_, ?_, Nat.le_refl _⟩
    · intro _ _
      simp
    · intro ha a hx
      simp only [map_cons, map_nil, mem_singleton] at hx
      exact ha a (by simp [hx])
    · intro a hx
      simp only [map_cons, map_nil, mem_singleton] at hx
      exact .inl (by simp [hx])

end

/-! ## The search -/

def Search.pieces : Search → Pieces
  | .found l retrans nextAddress => ⟨l.list, retrans, nextAddress⟩
  | .again list retrans nextAddress => ⟨list, retrans, nextAddress⟩

def Search.located : Search → Option Located
  | .found l _ _ => some l
  | .again _ _ _ => none

section
variable {valid : TcpTxItem → Bool} {n q retrans nextAddress : Nat}

theorem mergeNext_rearranged {before rest : List TcpTxItem} {current : TcpTxItem} {r : Search}
    (h : mergeNext retrans nextAddress before current rest = some r) :
    Rearranged current.sacked ⟨before ++ current :: rest, retrans, nextAddress⟩ r.pieces ∧
      ∀ l, r.located = some l → l.item.sacked = current.sacked := by
  cases rest with
  | nil =>
    cases h
    refine ⟨Rearranged.refl _ _, fun l hl => ?_⟩
    cases hl
    rfl
  | cons next rest =>
    obtain ⟨m, hm, rfl⟩ := Option.map_eq_some_iff.mp h
    refine ⟨(rearranged_merge nextAddress hm).frame before rest, fun l hl => ?_⟩
    cases hl

theorem searchList_rearranged (hn : 0 < n) : ∀ (rest before : List TcpTxItem) (p : Nat) {r : Search},
    searchList valid n (ofPosition q) retrans nextAddress before (ofPosition p) rest = some r → p ≤ q →
    q < p + 2147483648 → (bytesOf rest).length < 2147483648 →
    ∃ v, Rearranged v ⟨before ++ rest, retrans, nextAddress⟩ r.pieces ∧ (SackedAt p rest q ↔ v = true) ∧
      ∀ l, r.located = some l → l.item.sacked = v
  | [], _, _, _, h, _, _, _ => by cases h
  | current :: rest, before, p, r, h, hle, hfar, hbound => by
    rw [length_bytesOf_cons] at hbound
    rw [searchList] at h
    split at h
    · rw [add_ofPosition, lt_ofPosition ⟨by omega, by omega⟩] at h
      by_cases hin : q < p + current.size
      · have hflag : SackedAt p (current :: rest) q ↔ current.sacked = true := by
          rw [sackedAt_cons]
          constructor
          · rintro (hs | hs)
            · exact hs.1
            · have := hs.le
              omega
          · exact fun hs => .inl ⟨hs, hle, hin⟩
        rw [if_pos (decide_eq_true hin)] at h
        by_cases hstart : q = p
        · subst hstart
          rw [if_pos rfl] at h
          split at h
          · split at h
            · cases h
              refine ⟨_, Rearranged.refl _ _, hflag, fun l hl => ?_⟩
              cases hl
              rfl
            · split at h
              · rename_i hlt
                cases h
                refine ⟨_, (rearranged_split retrans nextAddress hn hlt).frame before rest, hflag, fun l hl => ?_⟩
                cases hl
                rfl
              · cases h
          · obtain ⟨hre, hl⟩ := mergeNext_rearranged h
            exact ⟨_, hre, hflag, hl⟩
        · have hnear : Near q p := ⟨by omega, by omega⟩
          rw [if_neg (by rw [ofPosition_inj hnear]; exact hstart), gt_ofPosition hnear,
            if_pos (decide_eq_true (by omega)), diff_ofPosition hle (by omega)] at h
          cases h
          refine ⟨_, (rearranged_split retrans nextAddress (by omega) (by omega)).frame before rest, hflag, fun l hl => ?_⟩
          cases hl
      · rw [if_neg (by rw [decide_eq_true_eq]; exact hin)] at h
        obtain ⟨v, hre, hflag, hl⟩ := searchList_rearranged hn rest (before ++ [current]) (p + current.size) h (by omega)
          (by omega) (by omega)
        rw [append_assoc] at hre
        refine ⟨v, hre, ?_, hl⟩
        rw [← hflag, sackedAt_cons]
        constructor
        · rintro (hs | hs)
          · lia
          · exact hs
        · exact .inr
    · cases h

theorem getPacketFromList_rearranged {P : Nat} (hn : 0 < n) (hle : P ≤ q) (hfar : q < P + 2147483648) :
    ∀ (rounds : Nat) (list : List TcpTxItem) {retrans nextAddress retrans' nextAddress' : Nat} {l : Located},
    getPacketFromList valid (ofPosition P) n (ofPosition q) rounds list retrans nextAddress =
      some (l, retrans', nextAddress') → (bytesOf list).length < 2147483648 →
    Rearranged l.item.sacked ⟨list, retrans, nextAddress⟩ ⟨l.list, retrans', nextAddress'⟩ ∧
      (SackedAt P list q ↔ l.item.sacked = true)
  | 0, _, _, _, _, _, _, h, _ => by cases h
  | rounds + 1, list, retrans, nextAddress, retrans', nextAddress', l, h, hbound => by
    rw [getPacketFromList] at h
    split at h
    · cases h
    · rename_i l₁ retrans₁ nextAddress₁ hsearch
      obtain ⟨v, hre, hflag, hl⟩ := searchList_rearranged hn list [] P hsearch hle hfar hbound
      obtain ⟨rfl, hpair⟩ := Prod.mk.inj (Option.some.inj h)
      cases hpair
      rw [hl l₁ rfl]
      exact ⟨hre, hflag⟩
    · rename_i list₁ retrans₁ nextAddress₁ hsearch
      obtain ⟨v, hre, hflag, -⟩ := searchList_rearranged hn list [] P hsearch hle hfar hbound
      have hbytes : bytesOf list₁ = bytesOf list := hre.bytes
      obtain ⟨hre', hflag'⟩ := getPacketFromList_rearranged hn hle hfar rounds list₁ h (by rw [hbytes]; exact hbound)
      have hat : SackedAt P list₁ q ↔ SackedAt P list q := hre.sackedAt P q
      obtain rfl : v = l.item.sacked := by
        rw [Bool.eq_iff_iff, ← hflag, ← hflag', hat]
      exact ⟨hre.trans hre', hat.symm.trans hflag'⟩

end

/-! ## The request -/

/-- What a successful request leaves, and the item it returns. -/
inductive Served (b : TcpTxBuffer) (now : Int) (P : Nat) : TcpTxBuffer → TcpTxItem → Prop
  | again {l : Located} {retrans nextAddress : Nat}
      (hre : Rearranged false ⟨b.sentList, b.retrans, b.nextAddress⟩ ⟨l.list, retrans, nextAddress⟩)
      (hs : l.item.sacked = false) :
      Served b now P { b with
        sentList := l.before ++ { l.item with retrans := true, lastSent := now } :: l.after
        retrans := if l.item.retrans then retrans else uint32 (retrans + l.item.size)
        nextAddress := nextAddress } { l.item with retrans := true, lastSent := now }
  | new {item : TcpTxItem} {app : List TcpTxItem} {nextAddress : Nat} (hitem : NewItem b P item app)
      (haddress : Readdressed (b.appList.map (·.address)) b.nextAddress ((item :: app).map (·.address)) nextAddress) :
      Served b now P { b with
        appList := app
        sentList := b.sentList ++ [item]
        sentSize := uint32 (b.sentSize + item.size)
        nextAddress := nextAddress } item

section
variable {b b' : TcpTxBuffer} {P : Nat} {data : Bytes} {s n : Nat} {now : Int} {out : Option TcpTxItem}

theorem Stream.exists_position (h : Stream b P data) (hhead : b.firstByteSeq.gt (ofPosition s) ≠ true)
    (hleft : 0 < b.sizeFromSequence (ofPosition s)) :
    ∃ q, ofPosition s = ofPosition q ∧ P ≤ q ∧ q < P + data.length ∧
      b.sizeFromSequence (ofPosition s) = P + data.length - q := by
  have hbound := h.bound
  have hseq : ofPosition s = ofPosition (P + (s + (4294967296 - P % 4294967296)) % 4294967296) := by
    simp only [ofPosition, SequenceNumber32.mk.injEq]
    lia
  generalize hq : (s + (4294967296 - P % 4294967296)) % 4294967296 = k at hseq
  rw [hseq] at hhead hleft ⊢
  have hk : k ≤ 2147483648 := by
    rw [h.head, Ne, gt_iff] at hhead
    simp only [ofPosition] at hhead
    omega
  by_cases hlt : k < data.length
  · exact ⟨P + k, rfl, by omega, by omega, h.sizeFromSequence (by omega) (by omega)⟩
  · exfalso
    by_cases heq : k = data.length
    · rw [h.sizeFromSequence (by omega) (by omega)] at hleft
      omega
    · have hge : (ofPosition (P + data.length)).ge (ofPosition (P + k)) = true → False := by
        intro hge
        rw [h.head, Ne, gt_iff] at hhead
        rw [ge, Bool.or_eq_true, gt_iff, beq_iff_eq] at hge
        simp only [ofPosition, SequenceNumber32.mk.injEq] at hhead hge
        lia
      rw [TcpTxBuffer.sizeFromSequence, h.tailSequence, if_neg hge] at hleft
      lia

theorem mergeableSize_pos {item : TcpTxItem} {rest : List TcpTxItem} (hn : 0 < n) (hitem : 0 < item.size)
    (hbound : (bytesOf (item :: rest)).length < 2147483648) : 0 < mergeableSize n item rest := by
  cases rest with
  | nil =>
    rw [mergeableSize]
    omega
  | cons next rest =>
    rw [length_bytesOf_cons, length_bytesOf_cons] at hbound
    rw [mergeableSize, uint32_add (by omega)]
    split <;> omega

theorem retransmitSize_pos {seq : SequenceNumber32} (hn : 0 < n) : ∀ {p : Nat} {l : List TcpTxItem},
    Laid p l → (bytesOf l).length < 2147483648 → 0 < retransmitSize n seq l
  | _, [], _, _ => hn
  | p, item :: rest, hlaid, hbound => by
    rw [retransmitSize]
    split
    · exact mergeableSize_pos hn hlaid.2.1 hbound
    · rw [length_bytesOf_cons] at hbound
      exact retransmitSize_pos hn hlaid.2.2 (by omega)

theorem sendItem_some {b b' : TcpTxBuffer} {l : Located} (h : sendItem now b l = some (b', out)) :
    b' = { b with sentList := l.before ++ { l.item with lastSent := now } :: l.after } ∧
      out = some { l.item with lastSent := now } := by
  unfold sendItem at h
  by_cases hge : l.item.startSeq.ge b.firstByteSeq = true
  · rw [if_pos hge] at h
    cases h
    exact ⟨rfl, rfl⟩
  · rw [if_neg hge] at h
    cases h

theorem Ledger.served_again (h : Ledger b P data) {s q : Nat} (hs : 0 < s) (hle : P ≤ q) (hlt : q < P + data.length)
    (hcopy : ((b.getTransmittedSegment s (ofPosition q)).bind fun r =>
      if r.2.item.sacked then none else sendItem now r.1 r.2) = some (b', out)) :
    ∃ item, out = some item ∧ Served b now P b' item := by
  have hlength := h.length_le
  have hbound := h.bound
  obtain ⟨r, hr, hsend⟩ := Option.bind_eq_some_iff.mp hcopy
  unfold getTransmittedSegment at hr
  split at hr
  · obtain ⟨⟨l, retrans, nextAddress⟩, hfound, rfl⟩ := Option.map_eq_some_iff.mp hr
    rw [h.head] at hfound
    obtain ⟨hre, -⟩ := getPacketFromList_rearranged (retransmitSize_pos hs h.laid (by omega)) hle (by omega) _ _ hfound
      (by omega)
    by_cases hsacked : l.item.sacked = true
    · rw [if_pos hsacked] at hsend
      cases hsend
    · have hsacked' : l.item.sacked = false := Bool.not_eq_true _ ▸ hsacked
      rw [if_neg hsacked] at hsend
      obtain ⟨rfl, rfl⟩ := sendItem_some hsend
      rw [hsacked'] at hre
      exact ⟨_, rfl, @Served.again b now P l retrans nextAddress hre hsacked'⟩
  · cases hr

theorem Ledger.served_new (h : Ledger b P data) (hn : 0 < n) (hle : n ≤ (bytesOf b.appList).length)
    (hcopy : ((b.getNewSegment n).bind fun r => if r.2.item.retrans then none else sendItem now r.1 r.2) =
      some (b', out)) :
    ∃ item, out = some item ∧ Served b now P b' item := by
  have hlength := h.length_le
  have hbound := h.bound
  have hsent := h.sentSize
  obtain ⟨item, app, nextAddress, hnew, hitem, -⟩ := h.copy_new now hn hle
  have hsame := hcopy.symm.trans hnew
  obtain ⟨r, hr, hsend⟩ := Option.bind_eq_some_iff.mp hnew
  unfold getNewSegment at hr
  obtain ⟨⟨l, retrans, nextAddress'⟩, hfound, rfl⟩ := Option.map_eq_some_iff.mp hr
  have hnext : b.firstByteSeq.add b.sentSize = ofPosition (P + b.sentSize) := by rw [h.head, add_ofPosition]
  rw [hnext] at hfound
  obtain ⟨hre, -⟩ := getPacketFromList_rearranged hn (Nat.le_refl _) (by omega) _ _ hfound (by omega)
  by_cases hfresh : l.item.retrans = true
  · rw [if_pos hfresh] at hsend
    cases hsend
  · rw [if_neg hfresh] at hsend
    obtain ⟨hbuffer, hout⟩ := sendItem_some hsend
    cases hsame
    refine ⟨item, rfl, .new hitem ?_⟩
    have happ : app = l.before ++ l.after := congrArg TcpTxBuffer.appList hbuffer
    have haddress : nextAddress = nextAddress' := congrArg TcpTxBuffer.nextAddress hbuffer
    have hitem' : item.address = l.item.address := by rw [Option.some.inj hout]
    have hperm : ((item :: app).map (·.address)).Perm (l.list.map (·.address)) := by
      rw [happ, Located.list, map_cons, hitem']
      simp only [map_append, map_cons]
      exact perm_middle.symm
    have hread := hre.addresses
    rw [haddress]
    exact ⟨fun hl ha => hperm.nodup_iff.mpr (hread.nodup hl ha), fun ha x hx => hread.bound ha x (hperm.mem_iff.mp hx),
      fun x hx => hread.old x (hperm.mem_iff.mp hx), hread.le⟩

theorem Ledger.copyRequest_inv (h : Ledger b P data) : ∀ (rounds n : Nat) {out : Option TcpTxItem},
    copyRequest now (ofPosition s) rounds b n = some (b', out) →
    (b' = b ∧ out = none) ∨ ∃ item, out = some item ∧ Served b now P b' item
  | 0, _, _, hcopy => by cases hcopy
  | rounds + 1, n, out, hcopy => by
    have hlength := h.length_le
    have hbound := h.bound
    have hsent := h.sentSize
    rw [copyRequest] at hcopy
    split at hcopy
    · cases hcopy
    · rename_i hhead
      dsimp only at hcopy
      split at hcopy
      · cases hcopy
        exact .inl ⟨rfl, rfl⟩
      · rename_i hpos
        obtain ⟨q, hseq, hle, hlt, hleft⟩ := h.exists_position hhead (by omega)
        rw [hseq] at hcopy hpos
        rw [hseq] at hleft
        rw [hleft] at hcopy hpos
        split at hcopy
        · exact .inr (h.served_again (by lia) hle hlt hcopy)
        · split at hcopy
          · split at hcopy
            · rename_i heq
              have hend : b.firstByteSeq.add b.sentSize = ofPosition (P + b.sentSize) := by rw [h.head, add_ofPosition]
              rw [hend, ofPosition_inj ⟨by omega, by omega⟩] at heq
              exact .inr (h.served_new (by omega) (by omega) hcopy)
            · cases hcopy
          · split at hcopy
            · exact h.copyRequest_inv rounds _ (hseq ▸ hcopy)
            · cases hcopy

end

end TcpTxBuffer

end Ns3
