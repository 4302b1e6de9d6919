import Mathlib.Data.Nat.ModEq
import Ns3.Core.CalendarScheduler

/-!
# The calendar answers as the sorted list

The cursor stands at the bucket of the last time returned, and no event stored
is before that time. An event that is due within the next turn is then in the
bucket its time says, and the first bucket on the way round with such an event
has the least one. The sums of `uint64_t` may wrap around, but not at a bucket
with an event below `2 ^ 63`.
-/

namespace Ns3

open List

namespace CalendarScheduler

open Machine

/-! ## One bucket -/

def Before (reverse : Bool) (a b : Event) : Prop := order reverse a.key b.key = true

theorem gt_eq_lt (a b : EventKey) : gt a b = b.lt a := by
  simp only [gt, EventKey.lt, gt_iff_lt, eq_comm]

theorem before_iff (reverse : Bool) (a b : Event) :
    Before reverse a b ↔ if reverse then b.rank < a.rank else a.rank < b.rank := by
  cases reverse with
  | false => exact Event.lt_iff a b
  | true =>
    simp only [Before, order, if_true, gt_eq_lt]
    exact Event.lt_iff b a

variable {reverse : Bool} {ev : Event} {bucket : List Event}

theorem Before.trans {a b c : Event} (h : Before reverse a b) (h' : Before reverse b c) : Before reverse a c := by
  rw [before_iff] at h h' ⊢
  cases reverse with
  | false => exact lt_trans h h'
  | true => exact lt_trans h' h

theorem before_total {a b : Event} (h : ¬Before reverse a b) (hne : a.rank ≠ b.rank) : Before reverse b a := by
  rw [before_iff] at h ⊢
  cases reverse with
  | false => exact lt_of_le_of_ne (not_lt.mp h) hne.symm
  | true => exact lt_of_le_of_ne (not_lt.mp h) hne

theorem insertInBucket_perm (reverse : Bool) (ev : Event) (bucket : List Event) :
    (insertInBucket reverse ev bucket).Perm (ev :: bucket) := by
  induction bucket with
  | nil => exact .refl _
  | cons i bucket ih =>
    unfold insertInBucket
    split
    · exact .refl _
    · exact (ih.cons i).trans (.swap ev i bucket)

theorem insertInBucket_ordered (h : bucket.Pairwise (Before reverse)) (hne : ∀ x ∈ bucket, ev.rank ≠ x.rank) :
    (insertInBucket reverse ev bucket).Pairwise (Before reverse) := by
  induction bucket with
  | nil => exact pairwise_singleton _ _
  | cons i bucket ih =>
    obtain ⟨hi, hb⟩ := pairwise_cons.mp h
    unfold insertInBucket
    by_cases hlt : order reverse ev.key i.key = true
    · rw [if_pos hlt]
      change Before reverse ev i at hlt
      refine pairwise_cons.mpr ⟨fun x hx => ?_, h⟩
      rcases mem_cons.mp hx with rfl | hx
      · exact hlt
      · exact hlt.trans (hi x hx)
    · rw [if_neg hlt]
      refine pairwise_cons.mpr ⟨fun x hx => ?_, ih hb fun x hx => hne x (mem_cons_of_mem _ hx)⟩
      rcases mem_cons.mp ((insertInBucket_perm reverse ev bucket).mem_iff.mp hx) with rfl | hx
      · exact before_total hlt (hne i mem_cons_self)
      · exact hi x hx

theorem nextEvent_eq_none (h : nextEvent reverse bucket = none) : bucket = [] := by
  cases reverse with
  | false => simpa [nextEvent] using h
  | true => simpa [nextEvent] using h

theorem pop_sublist (reverse : Bool) (bucket : List Event) : (pop reverse bucket).Sublist bucket := by
  cases reverse with
  | false => exact tail_sublist bucket
  | true => exact dropLast_sublist bucket

theorem nextEvent_perm (h : nextEvent reverse bucket = some ev) : bucket.Perm (ev :: pop reverse bucket) := by
  cases reverse with
  | false =>
    obtain ⟨tail, rfl⟩ : ∃ tail, bucket = ev :: tail := head?_eq_some_iff.mp h
    exact .refl _
  | true =>
    obtain ⟨front, rfl⟩ : ∃ front, bucket = front ++ [ev] := getLast?_eq_some_iff.mp h
    simp [pop]

theorem nextEvent_least (hb : bucket.Pairwise (Before reverse))
    (h : nextEvent reverse bucket = some ev) : ∀ x ∈ bucket, ev.rank ≤ x.rank := by
  intro x hx
  cases reverse with
  | false =>
    obtain ⟨tail, rfl⟩ : ∃ tail, bucket = ev :: tail := head?_eq_some_iff.mp h
    rcases mem_cons.mp hx with rfl | hx
    · exact le_refl _
    · exact le_of_lt ((before_iff false ev x).mp ((pairwise_cons.mp hb).1 x hx))
  | true =>
    obtain ⟨front, rfl⟩ : ∃ front, bucket = front ++ [ev] := getLast?_eq_some_iff.mp h
    rcases mem_append.mp hx with hx | hx
    · exact le_of_lt ((before_iff true x ev).mp ((pairwise_append.mp hb).2.2 x hx ev (by simp)))
    · rw [mem_singleton.mp hx]

/-! ## All buckets -/

theorem flatten_set_perm {α : Type} {l : List (List α)} {i : Nat} {b : List α} (b' : List α) (h : l[i]? = some b) :
    (b ++ (l.set i b').flatten).Perm (b' ++ l.flatten) := by
  induction l generalizing i with
  | nil => simp at h
  | cons c l ih =>
    cases i with
    | zero =>
      obtain rfl : c = b := by simpa using h
      simp only [set_cons_zero, flatten_cons, ← append_assoc]
      exact perm_append_comm.append_right _
    | succ i =>
      have h1 : (b ++ (c ++ (l.set i b').flatten)).Perm (c ++ (b ++ (l.set i b').flatten)) := by
        simp only [← append_assoc]
        exact perm_append_comm.append_right _
      have h2 : (c ++ (b' ++ l.flatten)).Perm (b' ++ (c ++ l.flatten)) := by
        simp only [← append_assoc]
        exact perm_append_comm.append_right _
      exact h1.trans (((ih h).append_left c).trans h2)

/-- The buckets are in order, and every event is in the bucket of its time. -/
structure Tables (s : CalendarScheduler) : Prop where
  length : s.buckets.length = s.nBuckets
  nBuckets_pos : 0 < s.nBuckets
  width_pos : 0 < s.width
  width_lt : s.width < 2 ^ 64
  home : ∀ i b, s.buckets[i]? = some b → ∀ e ∈ b, s.hash e.key.ts = i
  ordered : ∀ b ∈ s.buckets, b.Pairwise (Before s.reverse)
  below : ∀ e ∈ s.events, e.key.ts < 2 ^ 63
  distinct : (s.events.map fun e => e.key.uid).Nodup

/-- The cursor is at the last time returned, which no event is before. -/
structure Cursor (s : CalendarScheduler) : Prop where
  lastBucket : s.lastBucket = s.hash s.lastPrio
  bucketTop : s.bucketTop = topOf s.width s.lastPrio
  below : s.lastPrio < 2 ^ 63
  later : ∀ e ∈ s.events, s.lastPrio ≤ e.key.ts

def SameSettings (s s' : CalendarScheduler) : Prop := s' = { s with buckets := s'.buckets }

section
variable {s : CalendarScheduler} {ev : Event}

theorem Tables.hash_lt (ht : Tables s) (ts : Nat) : s.hash ts < s.buckets.length := by
  rw [ht.length]
  exact Nat.mod_lt _ ht.nBuckets_pos

variable {e : Event} {k : Nat} {b : List Event} {minKey : EventKey} {minEvent : Option (Nat × Event)}

theorem mem_events : e ∈ s.events ↔ ∃ (i : Nat) (b : List Event), s.buckets[i]? = some b ∧ e ∈ b := by
  constructor
  · intro he
    obtain ⟨b, hb, heb⟩ := mem_flatten.mp he
    obtain ⟨i, hi⟩ := mem_iff_getElem?.mp hb
    exact ⟨i, b, hi, heb⟩
  · rintro ⟨i, b, hi, heb⟩
    exact mem_flatten.mpr ⟨b, mem_of_getElem? hi, heb⟩

theorem Tables.set (ht : Tables s) {i : Nat} {b' : List Event} (hb' : b'.Pairwise (Before s.reverse))
    (hhome : ∀ e ∈ b', s.hash e.key.ts = i) (hbelow : ∀ e ∈ b', e.key.ts < 2 ^ 63)
    (hdistinct : (({ s with buckets := s.buckets.set i b' } : CalendarScheduler).events.map fun e => e.key.uid).Nodup) :
    Tables { s with buckets := s.buckets.set i b' } := by
  have hmem : ∀ c ∈ s.buckets.set i b', c = b' ∨ c ∈ s.buckets := fun c hc => by
    rcases mem_or_eq_of_mem_set hc with h | h
    · exact .inr h
    · exact .inl h
  refine ⟨by simpa using ht.length, ht.nBuckets_pos, ht.width_pos, ht.width_lt, ?_, ?_, ?_, hdistinct⟩
  · intro j c hc e he
    by_cases hij : i = j
    · subst hij
      obtain rfl : b' = c := by
        rw [getElem?_set] at hc
        split at hc
        · split at hc
          · exact Option.some.inj hc
          · cases hc
        · contradiction
      exact hhome e he
    · rw [getElem?_set_ne hij] at hc
      exact ht.home j c hc e he
  · intro c hc
    rcases hmem c hc with rfl | hc
    · exact hb'
    · exact ht.ordered c hc
  · intro e he
    obtain ⟨c, hc, hec⟩ := mem_flatten.mp he
    rcases hmem c hc with rfl | hc
    · exact hbelow e hec
    · exact ht.below e (mem_flatten.mpr ⟨c, hc, hec⟩)

theorem doInsert_spec (ht : Tables s) (hev : ev.key.uid ∉ s.events.map fun e => e.key.uid) (hts : ev.key.ts < 2 ^ 63) :
    ∃ s', s.doInsert ev = some s' ∧ Tables s' ∧ s'.events.Perm (ev :: s.events) ∧ SameSettings s s' := by
  obtain ⟨b, hb⟩ : ∃ b, s.buckets[s.hash ev.key.ts]? = some b :=
    ⟨_, getElem?_eq_getElem (ht.hash_lt ev.key.ts)⟩
  have hbmem : b ∈ s.buckets := mem_of_getElem? hb
  have hin := insertInBucket_perm s.reverse ev b
  have hperm : ({ s with buckets := s.buckets.set (s.hash ev.key.ts) (insertInBucket s.reverse ev b) } :
      CalendarScheduler).events.Perm (ev :: s.events) := by
    have h := flatten_set_perm (insertInBucket s.reverse ev b) hb
    have h2 : (insertInBucket s.reverse ev b ++ s.buckets.flatten).Perm (b ++ (ev :: s.buckets.flatten)) :=
      (hin.append_right _).trans perm_middle.symm
    exact (perm_append_left_iff b).mp (h.trans h2)
  refine ⟨_, by rw [doInsert, hb]; rfl, ht.set ?_ ?_ ?_ ?_, hperm, rfl⟩
  · refine insertInBucket_ordered (ht.ordered b hbmem) fun x hx => Event.rank_ne fun heq => hev ?_
    exact List.mem_map.mpr ⟨x, mem_flatten.mpr ⟨b, hbmem, hx⟩, heq.symm⟩
  · intro e he
    rcases mem_cons.mp (hin.mem_iff.mp he) with rfl | he
    · rfl
    · exact ht.home _ b hb e he
  · intro e he
    rcases mem_cons.mp (hin.mem_iff.mp he) with rfl | he
    · exact hts
    · exact ht.below e (mem_flatten.mpr ⟨b, hbmem, he⟩)
  · exact (hperm.map _).nodup_iff.mpr (nodup_cons.mpr ⟨hev, ht.distinct⟩)

/-! ## The search -/

/-- The turn of an event's time, counted from the cursor in widths. -/
def turns (s : CalendarScheduler) (e : Event) : Nat := e.key.ts / s.width - s.lastPrio / s.width

/-- The round of the search that looks at the bucket of an event. -/
def round (s : CalendarScheduler) (e : Event) : Nat := s.turns e % s.nBuckets

theorem Cursor.turns_eq (hc : Cursor s) (he : e ∈ s.events) :
    e.key.ts / s.width = s.lastPrio / s.width + s.turns e := by
  have h := Nat.div_le_div_right (c := s.width) (hc.later e he)
  unfold turns
  omega

theorem round_eq_of_mod {n q L k : Nat} (hL : L ≤ q) (hk : k < n) (h : q % n = (L + k) % n) : (q - L) % n = k := by
  obtain ⟨d, rfl⟩ := Nat.exists_eq_add_of_le hL
  have hd : Nat.ModEq n d k := Nat.ModEq.add_left_cancel' L h
  rw [Nat.add_sub_cancel_left]
  exact (show d % n = k % n from hd).trans (Nat.mod_eq_of_lt hk)

theorem round_of_mem (ht : Tables s) (hc : Cursor s) (hk : k < s.nBuckets)
    (hb : s.buckets[(s.lastPrio / s.width + k) % s.nBuckets]? = some b) (he : e ∈ b) : s.round e = k := by
  have hmem : e ∈ s.events := mem_events.mpr ⟨_, b, hb, he⟩
  refine round_eq_of_mod ?_ hk (ht.home _ b hb e he)
  have := hc.turns_eq hmem
  omega

theorem mem_of_round (ht : Tables s) (hc : Cursor s) (he : e ∈ s.events)
    (hb : s.buckets[(s.lastPrio / s.width + s.round e) % s.nBuckets]? = some b) : e ∈ b := by
  obtain ⟨i, b', hb', heb⟩ := mem_events.mp he
  have hi : (s.lastPrio / s.width + s.round e) % s.nBuckets = i := by
    rw [← ht.home i b' hb' e heb, hash, hc.turns_eq he, round, Nat.add_mod_mod]
  rw [hi, hb'] at hb
  exact Option.some.inj hb ▸ heb

theorem lt_bucketTop_iff (ht : Tables s) (hc : Cursor s) (he : e ∈ s.events) :
    e.key.ts < wrap ((s.lastPrio / s.width + 1 + s.round e) * s.width) ↔ s.turns e < s.nBuckets := by
  have hturns := hc.turns_eq he
  have hround : s.round e ≤ s.turns e := Nat.mod_le _ _
  have hts := ht.below e he
  have hlast := Nat.div_mul_le_self e.key.ts s.width
  have hw := ht.width_lt
  have hle : (s.lastPrio / s.width + 1 + s.round e) * s.width ≤ (e.key.ts / s.width + 1) * s.width :=
    Nat.mul_le_mul_right _ (by omega)
  have hfit : (e.key.ts / s.width + 1) * s.width < 2 ^ 64 := by
    by_cases hz : e.key.ts / s.width = 0
    · rw [hz]
      simpa using hw
    · have hwts : s.width ≤ e.key.ts := by
        by_contra hlt
        exact hz (Nat.div_eq_of_lt (by omega))
      rw [Nat.add_mul, Nat.one_mul]
      omega
  rw [wrap, Nat.mod_eq_of_lt (lt_of_le_of_lt hle hfit), ← Nat.div_lt_iff_lt_mul ht.width_pos]
  constructor
  · intro h
    have : s.round e = s.turns e := by omega
    rw [← this]
    exact Nat.mod_lt _ ht.nBuckets_pos
  · intro h
    have : s.round e = s.turns e := Nat.mod_eq_of_lt h
    omega

/-- What the loop knows before round `k`. -/
structure Searched (s : CalendarScheduler) (k : Nat) (minKey : EventKey) (minEvent : Option (Nat × Event)) : Prop where
  far : ∀ e ∈ s.events, s.round e < k → s.nBuckets ≤ s.turns e
  none_found : minEvent = none → 2 ^ 63 ≤ minKey.ts ∧ ∀ e ∈ s.events, k ≤ s.round e
  found : ∀ i ev, minEvent = some (i, ev) → minKey = ev.key ∧
    (∃ b, s.buckets[i]? = some b ∧ nextEvent s.reverse b = some ev) ∧
    ∀ e ∈ s.events, s.round e < k → ev.rank ≤ e.rank

def Finds (s : CalendarScheduler) : Search → Prop
  | .hit i bucketTop next =>
    (∃ b, s.buckets[i]? = some b ∧ nextEvent s.reverse b = some next) ∧ (∀ e ∈ s.events, next.rank ≤ e.rank) ∧
      i = s.hash next.key.ts ∧ bucketTop = topOf s.width next.key.ts
  | .least none => s.events = []
  | .least (some (i, ev)) =>
    (∃ b, s.buckets[i]? = some b ∧ nextEvent s.reverse b = some ev) ∧ ∀ e ∈ s.events, ev.rank ≤ e.rank

theorem ts_le_of_rank_le {a b : Event} (h : a.rank ≤ b.rank) : a.key.ts ≤ b.key.ts := by
  rcases Prod.Lex.toLex_le_toLex.mp h with h | h
  · exact le_of_lt h
  · exact le_of_eq h.1

theorem rank_lt_of_ts_lt {a b : Event} (h : a.key.ts < b.key.ts) : a.rank < b.rank :=
  Prod.Lex.toLex_lt_toLex.mpr (.inl h)

theorem rank_lt_of_turns_lt (hc : Cursor s) {a b : Event} (ha : a ∈ s.events) (hb : b ∈ s.events)
    (h : s.turns a < s.turns b) : a.rank < b.rank := by
  apply rank_lt_of_ts_lt
  by_contra hle
  have hdiv := Nat.div_le_div_right (c := s.width) (not_lt.mp hle)
  rw [hc.turns_eq ha, hc.turns_eq hb] at hdiv
  omega

theorem Searched.finds (ht : Tables s) (h : Searched s s.nBuckets minKey minEvent) : Finds s (.least minEvent) := by
  have hround : ∀ e : Event, s.round e < s.nBuckets := fun e => Nat.mod_lt _ ht.nBuckets_pos
  cases hm : minEvent with
  | none =>
    refine eq_nil_iff_forall_not_mem.mpr fun e he => ?_
    have h1 := (h.none_found hm).2 e he
    have h2 := hround e
    omega
  | some r =>
    obtain ⟨-, hb, hleast⟩ := h.found r.1 r.2 hm
    exact ⟨hb, fun e he => hleast e he (hround e)⟩

theorem Searched.skip (ht : Tables s) (hc : Cursor s) (hk : k < s.nBuckets) (h : Searched s k minKey minEvent)
    (hb : s.buckets[(s.lastPrio / s.width + k) % s.nBuckets]? = some []) : Searched s (k + 1) minKey minEvent := by
  have hnot : ∀ e ∈ s.events, s.round e ≠ k := by
    rintro e he rfl
    cases mem_of_round ht hc he hb
  refine ⟨fun e he hr => h.far e he ?_, fun hm => ⟨(h.none_found hm).1, fun e he => ?_⟩, fun i ev hm => ?_⟩
  · have := hnot e he
    omega
  · have h1 := (h.none_found hm).2 e he
    have h2 := hnot e he
    omega
  · obtain ⟨h1, h2, h3⟩ := h.found i ev hm
    refine ⟨h1, h2, fun e he hr => h3 e he ?_⟩
    have := hnot e he
    omega

theorem Finds.of_hit (ht : Tables s) (hc : Cursor s) (hk : k < s.nBuckets)
    (h : Searched s k minKey minEvent) {next : Event}
    (hb : s.buckets[(s.lastPrio / s.width + k) % s.nBuckets]? = some b) (hnext : nextEvent s.reverse b = some next)
    (hlt : next.key.ts < wrap ((s.lastPrio / s.width + 1 + k) * s.width)) :
    Finds s (.hit ((s.lastPrio / s.width + k) % s.nBuckets) (wrap ((s.lastPrio / s.width + 1 + k) * s.width)) next) := by
  have hmem : next ∈ b := (nextEvent_perm hnext).mem_iff.mpr mem_cons_self
  have hev : next ∈ s.events := mem_events.mpr ⟨_, b, hb, hmem⟩
  have hround := round_of_mem ht hc hk hb hmem
  rw [← hround, lt_bucketTop_iff ht hc hev] at hlt
  have hturns : s.turns next = k := (Nat.mod_eq_of_lt hlt).symm.trans hround
  refine ⟨⟨b, hb, hnext⟩, fun e he => ?_, (ht.home _ b hb next hmem).symm, ?_⟩
  · rcases Nat.lt_trichotomy (s.round e) k with hr | hr | hr
    · have hfar := h.far e he hr
      exact le_of_lt (rank_lt_of_turns_lt hc hev he (by omega))
    · subst hr
      exact nextEvent_least (ht.ordered b (mem_of_getElem? hb)) hnext e (mem_of_round ht hc he hb)
    · have hle : s.round e ≤ s.turns e := Nat.mod_le _ _
      exact le_of_lt (rank_lt_of_turns_lt hc hev he (by omega))
  · rw [topOf, hc.turns_eq hev, hturns, Nat.add_right_comm]

theorem Searched.miss (ht : Tables s) (hc : Cursor s) (hk : k < s.nBuckets)
    (h : Searched s k minKey minEvent) {next : Event}
    (hb : s.buckets[(s.lastPrio / s.width + k) % s.nBuckets]? = some b) (hnext : nextEvent s.reverse b = some next)
    (hge : ¬next.key.ts < wrap ((s.lastPrio / s.width + 1 + k) * s.width)) : if next.key.lt minKey then
      Searched s (k + 1) next.key (some ((s.lastPrio / s.width + k) % s.nBuckets, next))
    else Searched s (k + 1) minKey minEvent := by
  have hmem : next ∈ b := (nextEvent_perm hnext).mem_iff.mpr mem_cons_self
  have hev : next ∈ s.events := mem_events.mpr ⟨_, b, hb, hmem⟩
  have hround := round_of_mem ht hc hk hb hmem
  rw [← hround, lt_bucketTop_iff ht hc hev, not_lt] at hge
  have hleast : ∀ e ∈ s.events, s.round e = k → next.rank ≤ e.rank := by
    rintro e he rfl
    exact nextEvent_least (ht.ordered b (mem_of_getElem? hb)) hnext e (mem_of_round ht hc he hb)
  have hfar : ∀ e ∈ s.events, s.round e < k + 1 → s.nBuckets ≤ s.turns e := by
    intro e he hr
    by_cases hrk : s.round e = k
    · have hts := Nat.div_le_div_right (c := s.width) (ts_le_of_rank_le (hleast e he hrk))
      rw [hc.turns_eq hev, hc.turns_eq he] at hts
      omega
    · exact h.far e he (by omega)
  by_cases hlt : next.key.lt minKey = true
  · rw [if_pos hlt]
    refine ⟨hfar, fun hm => (by cases hm), fun i ev hm => ?_⟩
    cases hm
    refine ⟨rfl, ⟨b, hb, hnext⟩, fun e he hr => ?_⟩
    by_cases hrk : s.round e = k
    · exact hleast e he hrk
    · cases hmin : minEvent with
      | none =>
        have := (h.none_found hmin).2 e he
        omega
      | some r =>
        obtain ⟨rfl, -, hold⟩ := h.found r.1 r.2 hmin
        exact le_of_lt (lt_of_lt_of_le ((Event.lt_iff next r.2).mp hlt) (hold e he (by omega)))
  · rw [if_neg hlt]
    refine ⟨hfar, fun hm => absurd ?_ hlt, fun i ev hm => ?_⟩
    · have h1 := (h.none_found hm).1
      have h2 := ht.below next hev
      rw [EventKey.lt, if_pos (by omega)]
    · obtain ⟨rfl, hbi, hold⟩ := h.found i ev hm
      refine ⟨rfl, hbi, fun e he hr => ?_⟩
      by_cases hrk : s.round e = k
      · exact le_trans (not_lt.mp fun hlt' => hlt ((Event.lt_iff next ev).mpr hlt')) (hleast e he hrk)
      · exact hold e he (by omega)

theorem search_spec (ht : Tables s) (hc : Cursor s) : ∀ (rounds k : Nat) {minKey : EventKey}
    {minEvent : Option (Nat × Event)}, rounds + k = s.nBuckets → k < s.nBuckets → Searched s k minKey minEvent →
    ∃ r, s.search rounds ((s.lastPrio / s.width + k) % s.nBuckets) (wrap ((s.lastPrio / s.width + 1 + k) * s.width))
      minKey minEvent = some r ∧ Finds s r := by
  intro rounds
  induction rounds with
  | zero =>
    intro k minKey minEvent hn hk _
    omega
  | succ rounds ih =>
    intro k minKey minEvent hn hk h
    -- what follows the round, with what is known after it
    have hgoOn : ∀ {mk : EventKey} {me : Option (Nat × Event)}, Searched s (k + 1) mk me →
        ∃ r, (if ((s.lastPrio / s.width + k) % s.nBuckets + 1) % s.nBuckets ≠ s.lastBucket then
            s.search rounds (((s.lastPrio / s.width + k) % s.nBuckets + 1) % s.nBuckets)
              (wrap (wrap ((s.lastPrio / s.width + 1 + k) * s.width) + s.width)) mk me
          else some (.least me)) = some r ∧ Finds s r := by
      intro mk me h'
      have hi : ((s.lastPrio / s.width + k) % s.nBuckets + 1) % s.nBuckets =
          (s.lastPrio / s.width + (k + 1)) % s.nBuckets := by
        rw [Nat.mod_add_mod]
        rfl
      have htop : wrap (wrap ((s.lastPrio / s.width + 1 + k) * s.width) + s.width) =
          wrap ((s.lastPrio / s.width + 1 + (k + 1)) * s.width) := by
        rw [wrap, wrap, wrap, Nat.mod_add_mod, ← Nat.succ_mul]
        rfl
      rw [hi, htop, hc.lastBucket]
      by_cases hlast : k + 1 < s.nBuckets
      · have hne : (s.lastPrio / s.width + (k + 1)) % s.nBuckets ≠ s.hash s.lastPrio := by
          intro heq
          have hcong : Nat.ModEq s.nBuckets (k + 1) 0 := Nat.ModEq.add_left_cancel' (s.lastPrio / s.width) heq
          have := (Nat.mod_eq_of_lt hlast).symm.trans hcong
          simp at this
        rw [if_pos hne]
        exact ih (k + 1) (by omega) hlast h'
      · have hk1 : k + 1 = s.nBuckets := by omega
        rw [if_neg (by rw [hk1, Nat.add_mod_right]; exact fun hne => hne rfl)]
        exact ⟨_, rfl, (hk1 ▸ h').finds ht⟩
    obtain ⟨b, hb⟩ : ∃ b, s.buckets[(s.lastPrio / s.width + k) % s.nBuckets]? = some b :=
      ⟨_, getElem?_eq_getElem (by rw [ht.length]; exact Nat.mod_lt _ ht.nBuckets_pos)⟩
    rw [search]
    simp only [hb, Option.bind_eq_bind, Option.bind_some]
    cases hnext : nextEvent s.reverse b with
    | none =>
      obtain rfl := nextEvent_eq_none hnext
      exact hgoOn (h.skip ht hc hk hb)
    | some next =>
      simp only
      by_cases hlt : next.key.ts < wrap ((s.lastPrio / s.width + 1 + k) * s.width)
      · rw [if_pos hlt]
        exact ⟨_, rfl, Finds.of_hit ht hc hk h hb hnext hlt⟩
      · rw [if_neg hlt]
        have hmiss := h.miss ht hc hk hb hnext hlt
        by_cases hmin : next.key.lt minKey = true
        · rw [if_pos hmin] at hmiss ⊢
          exact hgoOn hmiss
        · rw [if_neg hmin] at hmiss ⊢
          exact hgoOn hmiss

theorem search_start (ht : Tables s) (hc : Cursor s) (minKey : EventKey) (hmin : 2 ^ 63 ≤ minKey.ts) :
    ∃ r, s.search s.nBuckets s.lastBucket s.bucketTop minKey none = some r ∧ Finds s r := by
  have h0 : Searched s 0 minKey none :=
    ⟨fun e _ hr => absurd hr (Nat.not_lt_zero _), fun _ => ⟨hmin, fun e _ => Nat.zero_le _⟩, fun i ev hm => by cases hm⟩
  have h := search_spec ht hc s.nBuckets 0 (Nat.add_zero _) ht.nBuckets_pos h0
  rwa [Nat.add_zero, Nat.add_zero, ← topOf, ← hash, ← hc.lastBucket, ← hc.bucketTop] at h

/-! ## Taking an event out -/

def SameShape (s s' : CalendarScheduler) : Prop :=
  s' = { s with buckets := s'.buckets, lastBucket := s'.lastBucket, bucketTop := s'.bucketTop, lastPrio := s'.lastPrio }

theorem Tables.shrink (ht : Tables s) {i : Nat} {b b' : List Event} (hb : s.buckets[i]? = some b)
    (hperm : b.Perm (ev :: b')) (hsub : b'.Sublist b) : Tables { s with buckets := s.buckets.set i b' } ∧
      s.events.Perm (ev :: ({ s with buckets := s.buckets.set i b' } : CalendarScheduler).events) := by
  have hbmem : b ∈ s.buckets := mem_of_getElem? hb
  have hevents : s.events.Perm (ev :: ({ s with buckets := s.buckets.set i b' } : CalendarScheduler).events) := by
    have h := (flatten_set_perm b' hb).symm.trans (hperm.append_right _)
    exact (perm_append_left_iff b').mp (h.trans perm_middle.symm)
  refine ⟨ht.set ((ht.ordered b hbmem).sublist hsub) (fun e he => ht.home i b hb e (hsub.subset he))
    (fun e he => ht.below e (mem_flatten.mpr ⟨b, hbmem, hsub.subset he⟩)) ?_, hevents⟩
  have hnodup := (hevents.map fun e => e.key.uid).nodup_iff.mp ht.distinct
  exact (nodup_cons.mp hnodup).2

theorem Tables.moved (ht : Tables s) (lastBucket bucketTop lastPrio qSize : Nat) :
    Tables { s with lastBucket := lastBucket, bucketTop := bucketTop, lastPrio := lastPrio, qSize := qSize } :=
  ⟨ht.length, ht.nBuckets_pos, ht.width_pos, ht.width_lt, ht.home, ht.ordered, ht.below, ht.distinct⟩

theorem doRemoveNext_spec (ht : Tables s) (hc : Cursor s) (hq : s.qSize ≠ 0) (hne : s.events ≠ []) :
    ∃ s' ev, s.doRemoveNext = some (s', ev) ∧ Tables s' ∧ Cursor s' ∧ SameShape s s' ∧
      s.events.Perm (ev :: s'.events) ∧ (∀ e ∈ s.events, ev.rank ≤ e.rank) ∧ s'.lastPrio = ev.key.ts := by
  obtain ⟨r, hr, hfinds⟩ := search_start ht hc noKey (by decide)
  -- both ends of the search move the cursor to the event found
  have htake : ∀ {i : Nat} {ev : Event}, (∃ b, s.buckets[i]? = some b ∧ nextEvent s.reverse b = some ev) →
      (∀ e ∈ s.events, ev.rank ≤ e.rank) →
      let s' := popBucket { s with
        lastPrio := ev.key.ts, lastBucket := s.hash ev.key.ts, bucketTop := topOf s.width ev.key.ts } i
      Tables s' ∧ Cursor s' ∧ SameShape s s' ∧ s.events.Perm (ev :: s'.events) := by
    rintro i ev ⟨b, hb, hnext⟩ hleast
    have hset : s.buckets.modify i (pop s.reverse) = s.buckets.set i (pop s.reverse b) := by
      rw [modify_eq_set_getElem?, hb]
      rfl
    obtain ⟨ht', hperm⟩ := ht.shrink hb (nextEvent_perm hnext) (pop_sublist s.reverse b)
    have hev : ev ∈ s.events := hperm.mem_iff.mpr mem_cons_self
    simp only [popBucket, hset]
    refine ⟨ht'.moved _ _ _ s.qSize, ⟨rfl, rfl, ht.below ev hev, fun e he => ?_⟩, rfl, hperm⟩
    exact ts_le_of_rank_le (hleast e (hperm.mem_iff.mpr (mem_cons_of_mem _ he)))
  unfold doRemoveNext
  rw [if_neg (by simpa [isEmpty] using hq), hr]
  match r, hfinds with
  | .hit i bucketTop next, ⟨hb, hleast, hi, htop⟩ =>
    subst htop
    obtain ⟨h1, h2, h3, h4⟩ := htake hb hleast
    rw [← hi] at h1 h2 h3 h4
    exact ⟨_, next, rfl, h1, h2, h3, h4, hleast, rfl⟩
  | .least none, hnil => exact absurd hnil hne
  | .least (some (i, ev)), ⟨hb, hleast⟩ =>
    obtain ⟨h1, h2, h3, h4⟩ := htake hb hleast
    exact ⟨_, ev, rfl, h1, h2, h3, h4, hleast, rfl⟩

theorem peekNext_spec (ht : Tables s) (hc : Cursor s) (hq : s.qSize ≠ 0) (hne : s.events ≠ []) :
    ∃ ev, s.peekNext = some ev ∧ ev ∈ s.events ∧ ∀ e ∈ s.events, ev.rank ≤ e.rank := by
  obtain ⟨r, hr, hfinds⟩ := search_start ht hc noEvent.key (by decide)
  have hmem : ∀ {i : Nat} {ev : Event}, (∃ b, s.buckets[i]? = some b ∧ nextEvent s.reverse b = some ev) →
      ev ∈ s.events := by
    rintro i ev ⟨b, hb, hnext⟩
    exact mem_events.mpr ⟨i, b, hb, (nextEvent_perm hnext).mem_iff.mpr mem_cons_self⟩
  unfold peekNext
  rw [if_neg (by simpa [isEmpty] using hq), hr]
  match r, hfinds with
  | .hit i bucketTop next, ⟨hb, hleast, _, _⟩ => exact ⟨next, rfl, hmem hb, hleast⟩
  | .least none, hnil => exact absurd hnil hne
  | .least (some (i, ev)), ⟨hb, hleast⟩ => exact ⟨ev, rfl, hmem hb, hleast⟩

/-! ## Resizing -/

theorem SameSettings.trans {s₁ s₂ : CalendarScheduler} (h : SameSettings s s₁) (h' : SameSettings s₁ s₂) :
    SameSettings s s₂ := by
  unfold SameSettings at *
  rw [h'] at ⊢
  rw [h]

theorem Cursor.settings {s' : CalendarScheduler} (hc : Cursor s) (hsame : SameSettings s s')
    (hlater : ∀ e ∈ s'.events, s.lastPrio ≤ e.key.ts) : Cursor s' := by
  refine ⟨?_, ?_, ?_, ?_⟩
  · rw [hsame]
    exact hc.lastBucket
  · rw [hsame]
    exact hc.bucketTop
  · rw [hsame]
    exact hc.below
  · intro e he
    have hprio : s'.lastPrio = s.lastPrio := by rw [hsame]
    rw [hprio]
    exact hlater e he

theorem SameShape.trans {s₁ s₂ : CalendarScheduler} (h : SameShape s s₁) (h' : SameShape s₁ s₂) : SameShape s s₂ := by
  unfold SameShape at *
  rw [h'] at ⊢
  rw [h]

theorem insertAll_spec (evs : List Event) : ∀ {s : CalendarScheduler}, Tables s →
    ((evs ++ s.events).map fun e => e.key.uid).Nodup → (∀ e ∈ evs, e.key.ts < 2 ^ 63) →
    ∃ s', insertAll evs s = some s' ∧ Tables s' ∧ s'.events.Perm (evs ++ s.events) ∧ SameSettings s s' := by
  induction evs with
  | nil =>
    intro s ht _ _
    exact ⟨s, rfl, ht, .refl _, rfl⟩
  | cons ev evs ih =>
    intro s ht hdistinct hbelow
    simp only [cons_append, map_cons, nodup_cons] at hdistinct
    have hev : ev.key.uid ∉ s.events.map fun e => e.key.uid := fun hmem =>
      hdistinct.1 (by rw [map_append]; exact mem_append_right _ hmem)
    obtain ⟨s₁, hs₁, ht₁, hperm₁, hsame₁⟩ := doInsert_spec ht hev (hbelow ev mem_cons_self)
    have hmid : (evs ++ s₁.events).Perm (ev :: (evs ++ s.events)) := (hperm₁.append_left evs).trans perm_middle
    obtain ⟨s', hs', ht', hperm', hsame'⟩ := ih ht₁
      ((hmid.map _).nodup_iff.mpr (by simpa using hdistinct)) fun e he => hbelow e (mem_cons_of_mem _ he)
    exact ⟨s', by simp [insertAll, hs₁, hs'], ht', hperm'.trans hmid, hsame₁.trans hsame'⟩

theorem gather_spec : ∀ (k : Nat) {s : CalendarScheduler}, Tables s → Cursor s → s.qSize ≠ 0 → k ≤ s.events.length →
    ∃ s' samples, gather k s = some (s', samples) ∧ Tables s' ∧ s.events.Perm (samples ++ s'.events) ∧ SameShape s s' := by
  intro k
  induction k with
  | zero =>
    intro s ht _ _ _
    exact ⟨s, [], rfl, ht, .refl _, rfl⟩
  | succ k ih =>
    intro s ht hc hq hk
    have hne : s.events ≠ [] := by
      intro hnil
      simp [hnil] at hk
    obtain ⟨s₁, ev, hs₁, ht₁, hc₁, hsame₁, hperm₁, -, -⟩ := doRemoveNext_spec ht hc hq hne
    have hlen := hperm₁.length_eq
    rw [length_cons] at hlen
    obtain ⟨s', samples, hs', ht', hperm', hsame'⟩ := ih ht₁ hc₁ (by rw [hsame₁]; exact hq) (by omega)
    exact ⟨s', ev :: samples, by simp [gather, hs₁, hs'], ht', hperm₁.trans (hperm'.cons ev), hsame₁.trans hsame'⟩

theorem nSamples_le {q : Nat} (hq : 2 ≤ q) : nSamples q ≤ q := by
  dsimp only [nSamples]
  split <;> split <;> omega

theorem widthOf_range (k : Nat) (samples : List Event) : 0 < widthOf k samples ∧ widthOf k samples < 2 ^ 64 := by
  have hlt : ∀ x, wrap x < 2 ^ 64 := fun x => Nat.mod_lt _ (by decide)
  constructor
  · exact lt_of_lt_of_le Nat.one_pos (le_max_right _ _)
  · exact max_lt (hlt _) (by decide)

theorem calculateNewWidth_spec (ht : Tables s) (hc : Cursor s) (hq : s.qSize = s.events.length) :
    ∃ s' newWidth, s.calculateNewWidth = some (s', newWidth) ∧ Tables s' ∧ s'.events.Perm s.events ∧
      SameSettings s s' ∧ 0 < newWidth ∧ newWidth < 2 ^ 64 := by
  unfold calculateNewWidth
  by_cases h2 : s.qSize < 2
  · rw [if_pos h2]
    exact ⟨s, 1, rfl, ht, .refl _, rfl, by decide, by decide⟩
  rw [if_neg h2]
  obtain ⟨s₁, samples, hs₁, ht₁, hperm₁, hsame₁⟩ :=
    gather_spec (nSamples s.qSize) ht hc (by omega) (by rw [← hq]; exact nSamples_le (by omega))
  obtain ⟨s₂, hs₂, ht₂, hperm₂, hsame₂⟩ := insertAll_spec samples ht₁
    ((hperm₁.map _).nodup_iff.mp ht.distinct)
    fun e he => ht.below e (hperm₁.mem_iff.mpr (mem_append_left _ he))
  have hwidth := widthOf_range (nSamples s.qSize) samples
  simp only [hs₁, hs₂, Option.bind_eq_bind, Option.bind_some]
  refine ⟨_, _, rfl, ht₂.moved _ _ _ s₂.qSize, hperm₂.trans hperm₁.symm, ?_, hwidth⟩
  unfold SameSettings SameShape at *
  rw [hsame₂, hsame₁]

theorem flatten_replicate_nil (k : Nat) : (List.replicate k ([] : List Event)).flatten = [] := by
  simp

theorem init_tables (s : CalendarScheduler) {nBuckets width : Nat} (startPrio : Nat) (hn : 0 < nBuckets)
    (hw : 0 < width) (hw' : width < 2 ^ 64) : Tables (s.init nBuckets width startPrio) := by
  have hnil : (s.init nBuckets width startPrio).events = [] := flatten_replicate_nil nBuckets
  refine ⟨by simp [init], hn, hw, hw', ?_, ?_, ?_, ?_⟩
  · intro i b hb e he
    obtain rfl : b = [] := eq_of_mem_replicate (mem_of_getElem? hb)
    cases he
  · intro b hb
    obtain rfl : b = [] := eq_of_mem_replicate hb
    exact .nil
  · intro e he
    rw [hnil] at he
    cases he
  · rw [hnil]
    exact .nil

structure Inv (s : CalendarScheduler) : Prop where
  tables : Tables s
  cursor : Cursor s
  qSize : s.qSize = s.events.length

theorem inv_new (reverse : Bool) : Inv (new reverse) := by
  refine ⟨init_tables _ 0 (by decide) (by decide) (by decide), ⟨rfl, rfl, Nat.two_pow_pos 63, fun e he => ?_⟩, rfl⟩
  cases he

/-- A resize keeps the events, whatever the new size and width. -/
theorem doResize_spec (ht : Tables s) (hc : Cursor s) {newSize newWidth : Nat} (hn : 0 < newSize)
    (hw : 0 < newWidth) (hw' : newWidth < 2 ^ 64) :
    ∃ s', s.doResize newSize newWidth = some s' ∧ Tables s' ∧ Cursor s' ∧ s'.events.Perm s.events ∧
      s'.lastPrio = s.lastPrio ∧ s'.qSize = s.qSize := by
  have hnil : (s.init newSize newWidth s.lastPrio).events = [] := flatten_replicate_nil newSize
  have hempty : Cursor (s.init newSize newWidth s.lastPrio) := by
    refine ⟨rfl, rfl, hc.below, fun e he => ?_⟩
    rw [hnil] at he
    cases he
  obtain ⟨s', hs', ht', hperm, hsame⟩ := insertAll_spec s.events (init_tables s s.lastPrio hn hw hw')
    (by rw [hnil, append_nil]; exact ht.distinct) ht.below
  rw [hnil, append_nil] at hperm
  refine ⟨s', hs', ht', hempty.settings hsame fun e he => hc.later e (hperm.mem_iff.mp he), hperm, ?_, ?_⟩
  · rw [hsame]
    rfl
  · rw [hsame]
    rfl

theorem Inv.resize (h : Inv s) {newSize : Nat} (hn : 0 < newSize) :
    ∃ s', s.resize newSize = some s' ∧ Inv s' ∧ s'.events.Perm s.events ∧ s'.lastPrio = s.lastPrio := by
  obtain ⟨s₁, newWidth, hs₁, ht₁, hperm₁, hsame₁, hw, hw'⟩ := calculateNewWidth_spec h.tables h.cursor h.qSize
  have hc₁ : Cursor s₁ := h.cursor.settings hsame₁ fun e he => h.cursor.later e (hperm₁.mem_iff.mp he)
  obtain ⟨s', hs', ht', hc', hperm', hprio, hq⟩ := doResize_spec ht₁ hc₁ hn hw hw'
  have hperm := hperm'.trans hperm₁
  refine ⟨s', by simp [CalendarScheduler.resize, hs₁, hs'], ⟨ht', hc', ?_⟩, hperm, ?_⟩
  · rw [hq, hsame₁, hperm.length_eq]
    exact h.qSize
  · rw [hprio, hsame₁]

theorem Inv.resizeUp (h : Inv s) :
    ∃ s', s.resizeUp = some s' ∧ Inv s' ∧ s'.events.Perm s.events ∧ s'.lastPrio = s.lastPrio := by
  unfold CalendarScheduler.resizeUp
  by_cases hbig : s.qSize > s.nBuckets * 2 ∧ s.nBuckets < 32768
  · rw [if_pos hbig]
    exact h.resize (Nat.mul_pos h.tables.nBuckets_pos (by decide))
  · rw [if_neg hbig]
    exact ⟨s, rfl, h, .refl _, rfl⟩

theorem Inv.resizeDown (h : Inv s) :
    ∃ s', s.resizeDown = some s' ∧ Inv s' ∧ s'.events.Perm s.events ∧ s'.lastPrio = s.lastPrio := by
  unfold CalendarScheduler.resizeDown
  by_cases hsmall : s.qSize < s.nBuckets / 2
  · rw [if_pos hsmall]
    exact h.resize (by omega)
  · rw [if_neg hsmall]
    exact ⟨s, rfl, h, .refl _, rfl⟩

/-! ## Calls -/

def Allowed (s : CalendarScheduler) (call : SchedulerCall) : Prop := InOrder s.events s.lastPrio call

instance (s : CalendarScheduler) (call : SchedulerCall) : Decidable (s.Allowed call) :=
  inferInstanceAs (Decidable (InOrder s.events s.lastPrio call))

theorem Inv.insert (h : Inv s) (hev : ev.key.uid ∉ s.events.map fun e => e.key.uid) (hts : ev.key.ts < 2 ^ 63)
    (hlast : s.lastPrio ≤ ev.key.ts) :
    ∃ s', s.insert ev = some s' ∧ Inv s' ∧ s'.events.Perm (ev :: s.events) ∧ s'.lastPrio = s.lastPrio := by
  obtain ⟨s₁, hs₁, ht₁, hperm₁, hsame₁⟩ := doInsert_spec h.tables hev hts
  have hc₁ : Cursor s₁ := by
    refine h.cursor.settings hsame₁ fun e he => ?_
    rcases mem_cons.mp (hperm₁.mem_iff.mp he) with rfl | he
    · exact hlast
    · exact h.cursor.later e he
  have hinv : Inv { s₁ with qSize := s₁.qSize + 1 } := by
    refine ⟨ht₁.moved _ _ _ _, ⟨hc₁.lastBucket, hc₁.bucketTop, hc₁.below, hc₁.later⟩, ?_⟩
    change s₁.qSize + 1 = s₁.events.length
    rw [hperm₁.length_eq, length_cons, ← h.qSize, hsame₁]
  obtain ⟨s', hs', hinv', hperm', hprio⟩ := hinv.resizeUp
  refine ⟨s', by simp [CalendarScheduler.insert, hs₁, hs'], hinv', hperm'.trans hperm₁, ?_⟩
  rw [hprio, hsame₁]

theorem Inv.qSize_ne (h : Inv s) (hne : s.events ≠ []) : s.qSize ≠ 0 := by
  rw [h.qSize]
  exact fun h0 => hne (eq_nil_of_length_eq_zero h0)

theorem Inv.removeNext (h : Inv s) (hne : s.events ≠ []) :
    ∃ s' ev, s.removeNext = some (s', ev) ∧ Inv s' ∧ s.events.Perm (ev :: s'.events) ∧
      (∀ e ∈ s.events, ev.rank ≤ e.rank) ∧ s'.lastPrio = ev.key.ts := by
  have hq := h.qSize_ne hne
  obtain ⟨s₁, ev, hs₁, ht₁, hc₁, hsame₁, hperm₁, hleast, hprio₁⟩ := doRemoveNext_spec h.tables h.cursor hq hne
  have hlen := hperm₁.length_eq
  have hinv : Inv { s₁ with qSize := s₁.qSize - 1 } := by
    refine ⟨ht₁.moved _ _ _ _, ⟨hc₁.lastBucket, hc₁.bucketTop, hc₁.below, hc₁.later⟩, ?_⟩
    change s₁.qSize - 1 = s₁.events.length
    have hqs : s₁.qSize = s.qSize := by rw [hsame₁]
    rw [length_cons] at hlen
    rw [hqs, h.qSize]
    omega
  obtain ⟨s', hs', hinv', hperm', hprio⟩ := hinv.resizeDown
  refine ⟨s', ev, ?_, hinv', hperm₁.trans (hperm'.symm.cons ev), hleast, hprio.trans hprio₁⟩
  rw [CalendarScheduler.removeNext, if_neg (by simpa [isEmpty] using hq)]
  simp [hs₁, hs']

theorem eraseUid_spec (hb : (b.map fun e => e.key.uid).Nodup) (hev : ev ∈ b) :
    ∃ b', eraseUid ev b = some b' ∧ b.Perm (ev :: b') ∧ b'.Sublist b := by
  induction b with
  | nil => cases hev
  | cons i b ih =>
    obtain ⟨hi, hb⟩ := nodup_cons.mp hb
    unfold eraseUid
    by_cases huid : i.key.uid = ev.key.uid
    · have hie : ev = i := by
        rcases mem_cons.mp hev with rfl | hmem
        · rfl
        · exact absurd (List.mem_map.mpr ⟨ev, hmem, huid.symm⟩) hi
      subst hie
      rw [if_pos rfl, if_pos rfl]
      exact ⟨b, rfl, .refl _, sublist_cons_self _ _⟩
    · have hmem : ev ∈ b := by
        rcases mem_cons.mp hev with rfl | hmem
        · exact absurd rfl huid
        · exact hmem
      obtain ⟨b', hb', hperm, hsub⟩ := ih hb hmem
      rw [if_neg huid, hb']
      exact ⟨i :: b', rfl, (hperm.cons i).trans (.swap ev i b'), hsub.cons_cons i⟩

theorem Inv.remove (h : Inv s) (hev : ev ∈ s.events) :
    ∃ s', s.remove ev = some s' ∧ Inv s' ∧ s.events.Perm (ev :: s'.events) ∧ s'.lastPrio = s.lastPrio := by
  have hq := h.qSize_ne (ne_nil_of_mem hev)
  obtain ⟨i, b, hb, heb⟩ := mem_events.mp hev
  obtain rfl := h.tables.home i b hb ev heb
  have hbsub : b.Sublist s.events := sublist_flatten_of_mem (mem_of_getElem? hb)
  obtain ⟨b', hb', hperm, hsub⟩ := eraseUid_spec (h.tables.distinct.sublist (hbsub.map _)) heb
  obtain ⟨ht₁, hperm₁⟩ := h.tables.shrink hb hperm hsub
  have hlen := hperm₁.length_eq
  have hinv : Inv { s with buckets := s.buckets.set (s.hash ev.key.ts) b', qSize := s.qSize - 1 } := by
    refine ⟨ht₁.moved _ _ _ _, ⟨h.cursor.lastBucket, h.cursor.bucketTop, h.cursor.below, fun e he => ?_⟩, ?_⟩
    · exact h.cursor.later e (hperm₁.mem_iff.mpr (mem_cons_of_mem _ he))
    · change s.qSize - 1 = (s.buckets.set (s.hash ev.key.ts) b').flatten.length
      change s.events.length = (s.buckets.set (s.hash ev.key.ts) b').flatten.length + 1 at hlen
      rw [h.qSize]
      omega
  obtain ⟨s', hs', hinv', hperm', hprio⟩ := hinv.resizeDown
  refine ⟨s', ?_, hinv', hperm₁.trans (hperm'.symm.cons ev), hprio⟩
  rw [CalendarScheduler.remove, if_neg (by simpa [isEmpty] using hq)]
  simp [hb, hb', hs']

/-- Every call allowed returns, and serves the events as a sorted list does. -/
theorem Inv.step (h : Inv s) {call : SchedulerCall} (hallowed : s.Allowed call) :
    ∃ s' o, scheduler.machine.step s call = some (s', o) ∧ Inv s' ∧ Serves s.events s'.events call o ∧
      s'.lastPrio = lastTime s.lastPrio call o := by
  cases call with
  | insert ev =>
    obtain ⟨s', hs', hinv', hperm, hprio⟩ := h.insert hallowed.1 hallowed.2.1 hallowed.2.2
    exact ⟨s', [], by simp [Scheduler.machine, scheduler, hs'], hinv', ⟨rfl, hperm⟩, hprio⟩
  | peekNext =>
    obtain ⟨ev, hev, hmem, hleast⟩ := peekNext_spec h.tables h.cursor (h.qSize_ne hallowed) hallowed
    exact ⟨s, [ev], by simp [Scheduler.machine, scheduler, hev], h, ⟨ev, rfl, hmem, hleast, .refl _⟩, rfl⟩
  | removeNext =>
    obtain ⟨s', ev, hs', hinv', hperm, hleast, hprio⟩ := h.removeNext hallowed
    exact ⟨s', [ev], by simp [Scheduler.machine, scheduler, hs'], hinv', ⟨ev, rfl, hleast, hperm⟩, hprio⟩
  | remove ev =>
    obtain ⟨s', hs', hinv', hperm, hprio⟩ := h.remove hallowed
    exact ⟨s', [], by simp [Scheduler.machine, scheduler, hs'], hinv', ⟨rfl, hperm⟩, hprio⟩

end

/-- The last time returned by `RemoveNext` in a run; 0 before the first. -/
def lastReturned (tr : List (SchedulerCall × List Event)) : Nat := tr.foldl (fun last c => lastTime last c.1 c.2) 0

/-- `m_lastPrio` is the time of the event returned last, whatever was resized. -/
theorem run_inv {tr : List (SchedulerCall × List Event)} {s : CalendarScheduler}
    (hrun : Run scheduler.machine Allowed (new reverse) tr s) : Inv s ∧ s.lastPrio = lastReturned tr := by
  refine Run.invariant (fun tr s => Inv s ∧ s.lastPrio = lastReturned tr) ⟨inv_new reverse, rfl⟩ ?_ hrun
  rintro tr s call s' o ⟨hinv, hlast⟩ hallowed hstep
  obtain ⟨s₁, o₁, hstep₁, hinv', -, hlast'⟩ := hinv.step hallowed
  cases hstep₁.symm.trans hstep
  refine ⟨hinv', ?_⟩
  rw [hlast', hlast, lastReturned, lastReturned, foldl_append]
  rfl

/-- A run of the sorted list with the same calls and answers ends with the
events stored, as many as `m_qSize` says. -/
def Refines (tr : List (SchedulerCall × List Event)) (s : CalendarScheduler) : Prop :=
  (∃ l, Run SortedList.scheduler.machine anyStep [] tr l ∧ SortedList.Sorted l ∧ s.events.Perm l) ∧
    s.qSize = s.events.length

/-- **Refinement.** Whichever way the buckets are kept, the calendar answers as
the sorted list does, and no call fails. What an inserted event must not be
before is the last time returned. -/
theorem answers_as_sorted (reverse : Bool) {tr : List (SchedulerCall × List Event)} {s : CalendarScheduler}
    (hrun : Run scheduler.machine Allowed (new reverse) tr s) : Refines tr s ∧ s.lastPrio = lastReturned tr ∧
      ∀ call, s.Allowed call → (scheduler.machine.step s call).isSome := by
  obtain ⟨hinv, hlast⟩ := run_inv hrun
  obtain ⟨l, hsorted, -, hl, hperm⟩ := Run.simulation SortedList.scheduler.machine []
    (fun s l => Inv s ∧ SortedList.Sorted l ∧ s.events.Perm l)
    ⟨inv_new reverse, SortedList.sorted_nil, .refl _⟩ (by
      rintro s l call s' o ⟨hinv, hl, hperm⟩ hallowed hstep
      obtain ⟨s₁, o₁, hstep₁, hinv', hserves, -⟩ := hinv.step hallowed
      cases hstep₁.symm.trans hstep
      obtain ⟨l', hl', hsorted', hperm'⟩ := hserves.sortedList hl hperm hallowed.fresh
      exact ⟨l', hl', hinv', hsorted', hperm'⟩) hrun
  refine ⟨⟨⟨l, hsorted, hl, hperm⟩, hinv.qSize⟩, hlast, fun call hallowed => ?_⟩
  obtain ⟨s', o, hstep, -⟩ := hinv.step hallowed
  rw [hstep]
  rfl

def eventAt (ts : Nat) : Event := ⟨1, ts, ts, 0⟩

def growAndShrink : List SchedulerCall :=
  ([100, 7, 2000, 3, 50].map fun ts => .insert (eventAt ts)) ++ [.peekNext, .remove (eventAt 50)] ++
    List.replicate 4 .removeNext

theorem growAndShrink_isSome : (scheduler.machine.exec Allowed (new true) growAndShrink).isSome := by
  decide +kernel

theorem grow_and_shrink_sorted : ∃ tr s, Run scheduler.machine Allowed (new true) tr s ∧
    outputs tr = [eventAt 3, eventAt 3, eventAt 7, eventAt 100, eventAt 2000] ∧ s.nBuckets = 1 ∧ Refines tr s := by
  have hrun := run_of_isSome scheduler.machine Allowed _ _ growAndShrink_isSome
  exact ⟨_, _, hrun, by decide +kernel, by decide +kernel, (answers_as_sorted true hrun).1⟩

end CalendarScheduler

end Ns3
