import Mathlib.Data.Set.Insert
import Mathlib.Data.List.Nodup
import Mathlib.Logic.Relation

/-!
# Books of a receiver that asks for missing items

Items are numbered. The receiver keeps a number below which every item is
done, the items that are done, how often it asked for each item, the items it
gave up, in order, and their number; `tables` are the sizes of what it indexes
by how often it asked. `Step limit` is what may happen to these books. A scan
goes upwards through the items, picks missing ones to ask for, and gives up
others.
-/

namespace Ns3

open List

structure RequestBooks where
  base : Nat
  done : Set Nat
  asked : Nat → Nat
  failed : List Nat
  count : Nat
  tables : List Nat

namespace RequestBooks

def complete (b : RequestBooks) (g : Nat) : RequestBooks := { b with done := insert g b.done }

def ask (b : RequestBooks) (g : Nat) : RequestBooks := { b with asked := Function.update b.asked g (b.asked g + 1) }

def giveUp (b : RequestBooks) (g : Nat) : RequestBooks :=
  { b with done := insert g b.done, failed := b.failed ++ [g], count := b.count + 1 }

def advance (b : RequestBooks) (base : Nat) : RequestBooks := { b with base := base }

theorem asked_ask (b : RequestBooks) (g g' : Nat) : (b.ask g).asked g' = if g' = g then b.asked g + 1 else b.asked g' :=
  Function.update_apply ..

inductive Step (limit : Nat) (b : RequestBooks) : RequestBooks → Prop
  | complete (g : Nat) : Step limit b (b.complete g)
  | ask (g : Nat) : b.asked g < limit → Step limit b (b.ask g)
  | giveUp (g : Nat) : g ∉ b.done → Step limit b (b.giveUp g)
  | advance (base : Nat) : b.base ≤ base → (∀ g, b.base ≤ g → g < base → g ∈ b.done) →
      Step limit b (b.advance base)

abbrev Reaches (limit : Nat) : RequestBooks → RequestBooks → Prop := Relation.ReflTransGen (Step limit)

/-! ## What every step keeps -/

structure Sound (limit : Nat) (b : RequestBooks) : Prop where
  below : ∀ g < b.base, g ∈ b.done
  asked : ∀ g, b.asked g ≤ limit
  nodup : b.failed.Nodup
  given : ∀ g ∈ b.failed, g ∈ b.done
  count : b.count = b.failed.length

variable {limit : Nat} {b b' b'' : RequestBooks}

theorem Step.sound (h : Step limit b b') (hs : Sound limit b) : Sound limit b' := by
  cases h with
  | complete g =>
    exact ⟨fun g' hg => .inr (hs.below g' hg), hs.asked, hs.nodup, fun g' hg => .inr (hs.given g' hg), hs.count⟩
  | ask g hlt =>
    refine ⟨hs.below, fun g' => ?_, hs.nodup, hs.given, hs.count⟩
    rw [asked_ask]
    split
    · exact hlt
    · exact hs.asked g'
  | giveUp g hmiss =>
    refine ⟨fun g' hg => .inr (hs.below g' hg), hs.asked, ?_, fun g' hg => ?_, ?_⟩
    · -- what was given up before is done, and `g` is not
      refine nodup_append.mpr ⟨hs.nodup, nodup_singleton g, fun a ha c hc heq => ?_⟩
      obtain rfl := mem_singleton.mp hc
      exact hmiss (heq ▸ hs.given a ha)
    · rcases mem_append.mp hg with hg | hg
      · exact .inr (hs.given g' hg)
      · exact .inl (mem_singleton.mp hg)
    · simp only [RequestBooks.giveUp, hs.count, length_append, length_singleton]
  | advance base hle hdone =>
    refine ⟨fun g hg => ?_, hs.asked, hs.nodup, hs.given, hs.count⟩
    by_cases hlt : g < b.base
    · exact hs.below g hlt
    · exact hdone g (Nat.not_lt.mp hlt) hg

theorem Step.base_le (h : Step limit b b') : b.base ≤ b'.base := by
  cases h with
  | advance base hle hdone => exact hle
  | _ => exact Nat.le_refl _

theorem Step.tables_eq (h : Step limit b b') : b'.tables = b.tables := by
  cases h <;> rfl

theorem Reaches.sound (h : Reaches limit b b') (hs : Sound limit b) : Sound limit b' := by
  induction h with
  | refl => exact hs
  | tail _ hstep ih => exact hstep.sound ih

theorem Reaches.base_le (h : Reaches limit b b') : b.base ≤ b'.base := by
  induction h with
  | refl => exact Nat.le_refl _
  | tail _ hstep ih => exact ih.trans hstep.base_le

theorem Reaches.tables_eq (h : Reaches limit b b') : b'.tables = b.tables := by
  induction h with
  | refl => rfl
  | tail _ hstep ih => exact hstep.tables_eq.trans ih

/-! ## Scans -/

/-- One round, at item `i`, and the items it picks. -/
inductive Round (limit : Nat) (b : RequestBooks) (i : Nat) : List Nat → RequestBooks → Prop
  | leave : Round limit b i [] b
  | request : i ∉ b.done → b.asked i < limit → Round limit b i [i] b
  | giveUp : i ∉ b.done → Round limit b i [] (b.giveUp i)

/-- Rounds from item `i` on that pick at most `n` items. -/
inductive Scan (limit : Nat) : Nat → RequestBooks → Nat → List Nat → RequestBooks → Prop
  | stop (n b i) : Scan limit n b i [] b
  | round {n b i new b' gs b''} : Round limit b i new b' → new.length ≤ n →
      Scan limit (n - new.length) b' (i + 1) gs b'' → Scan limit n b i (new ++ gs) b''

variable {i n : Nat} {new gs : List Nat}

theorem Round.reaches (h : Round limit b i new b') : Reaches limit b b' := by
  cases h with
  | giveUp hmiss => exact .single (.giveUp i hmiss)
  | _ => exact .refl

theorem Round.asked_eq (h : Round limit b i new b') : b'.asked = b.asked := by
  cases h <;> rfl

theorem Round.done_iff (h : Round limit b i new b') {g : Nat} (hg : g ≠ i) : g ∈ b'.done ↔ g ∈ b.done := by
  cases h with
  | giveUp hmiss => exact Set.mem_insert_iff.trans (or_iff_right hg)
  | _ => exact Iff.rfl

theorem Round.picked (h : Round limit b i new b') :
    new = [] ∨ new = [i] ∧ i ∉ b.done ∧ i ∉ b'.done ∧ b.asked i < limit := by
  cases h with
  | request hmiss hlt => exact .inr ⟨rfl, hmiss, hmiss, hlt⟩
  | _ => exact .inl rfl

theorem Round.length_le (h : Round limit b i new b') : new.length ≤ 1 := by
  cases h with
  | request => exact Nat.le_refl 1
  | _ => exact Nat.zero_le 1

theorem Scan.reaches (h : Scan limit n b i gs b') : Reaches limit b b' := by
  induction h with
  | stop => exact .refl
  | round hr _ _ ih => exact hr.reaches.trans ih

theorem Scan.asked_eq (h : Scan limit n b i gs b') : b'.asked = b.asked := by
  induction h with
  | stop => rfl
  | round hr _ _ ih => exact ih.trans hr.asked_eq

theorem Scan.done_iff (h : Scan limit n b i gs b') {g : Nat} (hg : g < i) : g ∈ b'.done ↔ g ∈ b.done := by
  induction h with
  | stop => exact Iff.rfl
  | round hr _ _ ih => exact (ih (Nat.lt_succ_of_lt hg)).trans (hr.done_iff hg.ne)

theorem Scan.length_le (h : Scan limit n b i gs b') : gs.length ≤ n := by
  induction h with
  | stop => exact Nat.zero_le _
  | round _ hn _ ih =>
    rw [length_append]
    omega

theorem Scan.picked (h : Scan limit n b i gs b') : ∀ g ∈ gs, i ≤ g ∧ g ∉ b.done ∧ g ∉ b'.done ∧ b'.asked g < limit := by
  induction h with
  | stop => exact fun g hg => (not_mem_nil hg).elim
  | @round n b i new b' gs b'' hr hn hs ih =>
    intro g hg
    rcases mem_append.mp hg with hg | hg
    · rcases hr.picked with rfl | ⟨rfl, hb, hb', hlt⟩
      · exact (not_mem_nil hg).elim
      · obtain rfl := mem_singleton.mp hg
        refine ⟨Nat.le_refl g, hb, fun hd => hb' ((hs.done_iff (Nat.lt_succ_self g)).mp hd), ?_⟩
        rw [hs.asked_eq, hr.asked_eq]
        exact hlt
    · obtain ⟨hle, hb', hb'', hlt⟩ := ih g hg
      exact ⟨by omega, fun hd => hb' ((hr.done_iff (by omega)).mpr hd), hb'', hlt⟩

theorem Scan.sorted (h : Scan limit n b i gs b') : gs.Pairwise (· < ·) := by
  induction h with
  | stop => exact .nil
  | @round n b i new b' gs b'' hr hn hs ih =>
    refine pairwise_append.mpr ⟨?_, ih, fun a ha c hc => ?_⟩
    · rcases hr.picked with rfl | ⟨rfl, _⟩
      · exact .nil
      · exact pairwise_singleton ..
    · rcases hr.picked with rfl | ⟨rfl, _⟩
      · cases ha
      · obtain rfl := mem_singleton.mp ha
        exact (hs.picked c hc).1

theorem Scan.nodup (h : Scan limit n b i gs b') : gs.Nodup :=
  h.sorted.imp fun hlt => Nat.ne_of_lt hlt

/-! ## Books from entries -/

/-- The books of a receiver with an entry for some items: whether the item is
done, and how often it was asked for. -/
def ofEntries (base : Nat) (entry : Nat → Option (Bool × Nat)) (failed : List Nat) (count : Nat)
    (tables : List Nat) : RequestBooks where
  base := base
  done := {g | (entry g).elim false Prod.fst = true}
  asked g := (entry g).elim 0 Prod.snd
  failed := failed
  count := count
  tables := tables

section
variable {base count g : Nat} {entry entry' : Nat → Option (Bool × Nat)} {failed tables : List Nat} {x : Bool × Nat}
  (hput : ∀ g', entry' g' = if g' = g then some x else entry g')

include hput

theorem done_put_same (hdone : x.1 = (entry g).elim false Prod.fst) (g' : Nat) :
    (entry' g').elim false Prod.fst = (entry g').elim false Prod.fst := by
  rw [hput]
  split
  · rename_i hg; rw [hg]; exact hdone
  · rfl

theorem done_put (hdone : x.1 = true) :
    {g' | (entry' g').elim false Prod.fst = true} = insert g {g' | (entry g').elim false Prod.fst = true} := by
  ext g'
  rw [Set.mem_insert_iff, Set.mem_ofPred_eq, Set.mem_ofPred_eq, hput]
  split
  · rename_i hg
    exact iff_of_true hdone (.inl hg)
  · rename_i hg
    exact (or_iff_right hg).symm

theorem asked_put_same (hasked : x.2 = (entry g).elim 0 Prod.snd) (g' : Nat) :
    (entry' g').elim 0 Prod.snd = (entry g').elim 0 Prod.snd := by
  rw [hput]
  split
  · rename_i hg; rw [hg]; exact hasked
  · rfl

theorem ofEntries_same (hdone : x.1 = (entry g).elim false Prod.fst) (hasked : x.2 = (entry g).elim 0 Prod.snd) :
    ofEntries base entry' failed count tables = ofEntries base entry failed count tables := by
  simp only [ofEntries, done_put_same hput hdone, asked_put_same hput hasked]

theorem ofEntries_complete (hdone : x.1 = true) (hasked : x.2 = (entry g).elim 0 Prod.snd) :
    ofEntries base entry' failed count tables = (ofEntries base entry failed count tables).complete g := by
  simp only [ofEntries, complete, done_put hput hdone, asked_put_same hput hasked]

theorem ofEntries_giveUp (hdone : x.1 = true) (hasked : x.2 = (entry g).elim 0 Prod.snd) :
    ofEntries base entry' (failed ++ [g]) (count + 1) tables = (ofEntries base entry failed count tables).giveUp g := by
  simp only [ofEntries, giveUp, done_put hput hdone, asked_put_same hput hasked]

theorem ofEntries_ask (hdone : x.1 = (entry g).elim false Prod.fst) (hasked : x.2 = (entry g).elim 0 Prod.snd + 1) :
    ofEntries base entry' failed count tables = (ofEntries base entry failed count tables).ask g := by
  have ha : (fun g' => (entry' g').elim 0 Prod.snd) =
      Function.update (fun g' => (entry g').elim 0 Prod.snd) g ((entry g).elim 0 Prod.snd + 1) := by
    funext g'
    rw [Function.update_apply, hput]
    split
    · exact hasked
    · rfl
  simp only [ofEntries, ask, done_put_same hput hdone, ha]

end

end RequestBooks

end Ns3
