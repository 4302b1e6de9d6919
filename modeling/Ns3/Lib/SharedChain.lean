import Mathlib.Data.List.Nodup
import Mathlib.Data.List.Perm.Subperm
import Mathlib.Tactic.Common

/-!
# Linked lists with shared ends

Nodes with a next pointer and a count of the links that lead to them, and lists
that are heads of such chains. Several lists may run into one node and share all
that follows. `Balanced` says that every count is the number of links. A list
owns the nodes up to the first one with a second link: nobody else reads them.

Memory is looked at through four functions: the heads, the pointer and value of
each node, its count and the links to it. Each write is described by what it
does to these.
-/

namespace Ns3

open List Option

structure Node (α : Type) where
  next : Option Nat
  count : Nat
  val : α

/-- The heads of the lists, by handle, and the nodes, by address; `none` where there
is no list or node any more. -/
structure Chains (α : Type) where
  lists : List (Option (Option Nat)) := []
  nodes : List (Option (Node α)) := []

inductive Link where
  | head (list : Nat)
  | next (node : Nat)
  deriving DecidableEq

namespace Chains

variable {α : Type}

def list (m : Chains α) (i : Nat) : Option (Option Nat) := m.lists[i]?.join

def node (m : Chains α) (p : Nat) : Option (Node α) := m.nodes[p]?.join

def setNode (m : Chains α) (p : Nat) (n : Option (Node α)) : Chains α := { m with nodes := m.nodes.set p n }

def setList (m : Chains α) (i : Nat) (h : Option (Option Nat)) : Chains α := { m with lists := m.lists.set i h }

/-- A new node; its address is the number of nodes before. -/
def alloc (m : Chains α) (n : Node α) : Chains α := { m with nodes := m.nodes ++ [some n] }

def newList (m : Chains α) (h : Option Nat) : Chains α := { m with lists := m.lists ++ [some h] }

def incr (m : Chains α) (p : Nat) : Option (Chains α) :=
  (m.node p).map fun n => m.setNode p (some { n with count := n.count + 1 })

def decr (m : Chains α) (p : Nat) : Option (Chains α) :=
  (m.node p).bind fun n => if n.count = 0 then none else some (m.setNode p (some { n with count := n.count - 1 }))

/-- `count++` of the node a pointer leads to, if any. -/
def incrAt (m : Chains α) : Option Nat → Option (Chains α)
  | none => some m
  | some p => m.incr p

def setTarget (m : Chains α) (h : Option Nat) : Link → Option (Chains α)
  | .head i => (m.list i).map fun _ => m.setList i (some h)
  | .next p => (m.node p).map fun n => m.setNode p (some { n with next := h })

def setVal (m : Chains α) (p : Nat) (x : α) : Option (Chains α) :=
  (m.node p).map fun n => m.setNode p (some { n with val := x })

def free (m : Chains α) (p : Nat) : Option (Chains α) := (m.node p).map fun _ => m.setNode p none

/-! ## What can be seen of a memory -/

/-- The next pointer and the value of a node. -/
def view (m : Chains α) (p : Nat) : Option (Option Nat × α) := (m.node p).map fun n => (n.next, n.val)

def countAt (m : Chains α) (p : Nat) : Nat := ((m.node p).map (·.count)).getD 0

def target (m : Chains α) : Link → Option (Option Nat)
  | .head i => m.list i
  | .next p => (m.view p).map (·.1)

def links (m : Chains α) (p : Nat) : Nat :=
  m.lists.countP (fun h => decide (h = some (some p))) + m.nodes.countP (fun n => decide (n.bind (·.next) = some p))

/-- One, when a pointer leads to a node. -/
def hit (h : Option Nat) (p : Nat) : Nat := if h = some p then 1 else 0

@[simp] theorem hit_none (p : Nat) : hit none p = 0 := rfl

@[simp] theorem hit_some (q p : Nat) : hit (some q) p = if q = p then 1 else 0 := by
  simp [hit]

section
variable {m : Chains α} {p q i : Nat} {n : Node α} {h : Option Nat}

theorem node_eq_of_view {v : Option Nat × α} (hv : m.view p = some v) : m.node p = some ⟨v.1, m.countAt p, v.2⟩ := by
  obtain ⟨n, hn, rfl⟩ := map_eq_some_iff.mp hv
  rw [countAt, hn]
  rfl

theorem lt_of_node (hn : m.node p = some n) : p < m.nodes.length := by
  by_contra hge
  rw [node, getElem?_eq_none (by omega)] at hn
  cases hn

theorem node_setNode (hn : m.node q = some n) (v : Option (Node α)) (p : Nat) :
    (m.setNode q v).node p = if p = q then v else m.node p := by
  rw [node, setNode, getElem?_set]
  by_cases heq : q = p
  · subst heq
    rw [if_pos rfl, if_pos (lt_of_node hn), if_pos rfl]
    rfl
  · rw [if_neg heq, if_neg (Ne.symm heq)]
    rfl

theorem list_setList (hh : m.list i = some h) (v : Option (Option Nat)) (j : Nat) :
    (m.setList i v).list j = if j = i then v else m.list j := by
  have hlt : i < m.lists.length := by
    by_contra hge
    rw [list, getElem?_eq_none (by omega)] at hh
    cases hh
  rw [list, setList, getElem?_set]
  by_cases heq : i = j
  · subst heq
    rw [if_pos rfl, if_pos hlt, if_pos rfl]
    rfl
  · rw [if_neg heq, if_neg (Ne.symm heq)]
    rfl

theorem join_append {β : Type} (l : List (Option β)) (x : β) (k : Nat) :
    (l ++ [some x])[k]?.join = if k = l.length then some x else l[k]?.join := by
  rw [getElem?_append]
  by_cases hlt : k < l.length
  · rw [if_pos hlt, if_neg (by omega)]
  · rw [if_neg hlt]
    by_cases heq : k = l.length
    · rw [if_pos heq, heq, Nat.sub_self]
      rfl
    · rw [if_neg heq, getElem?_eq_none (by simp; omega), getElem?_eq_none (by omega)]

theorem node_alloc (n : Node α) (p : Nat) : (m.alloc n).node p = if p = m.nodes.length then some n else m.node p :=
  join_append m.nodes n p

theorem list_newList (h : Option Nat) (j : Nat) : (m.newList h).list j = if j = m.lists.length then some h else m.list j :=
  join_append m.lists h j

theorem node_fresh : m.node m.nodes.length = none := by
  rw [node, getElem?_eq_none (Nat.le_refl _)]
  rfl

theorem view_fresh : m.view m.nodes.length = none := by
  rw [view, node_fresh]
  rfl

theorem countAt_fresh : m.countAt m.nodes.length = 0 := by
  rw [countAt, node_fresh]
  rfl

theorem countP_set_eq {β : Type} (f : β → Bool) {l : List β} {k : Nat} {x : β} (hx : l[k]? = some x) (y : β) :
    (l.set k y).countP f + (if f x then 1 else 0) = l.countP f + if f y then 1 else 0 := by
  obtain ⟨hlt, rfl⟩ := List.getElem?_eq_some_iff.mp hx
  have hle : (if f l[k] then 1 else 0) ≤ l.countP f := by
    split
    · exact countP_pos_iff.mpr ⟨_, getElem_mem hlt, ‹_›⟩
    · exact Nat.zero_le _
  rw [countP_set hlt]
  omega

theorem links_setNode (hn : m.node q = some n) (v : Option (Node α)) (p : Nat) :
    (m.setNode q v).links p + hit n.next p = m.links p + hit (v.bind (·.next)) p := by
  have hcount := countP_set_eq (fun n : Option (Node α) => decide (n.bind (·.next) = some p)) (join_eq_some_iff.mp hn) v
  simp only [decide_eq_true_eq, bind_some] at hcount
  simp only [links, setNode, hit]
  omega

theorem links_setList (hh : m.list i = some h) (v : Option (Option Nat)) (p : Nat) :
    (m.setList i v).links p + hit h p = m.links p + hit v.join p := by
  have hcount := countP_set_eq (fun h : Option (Option Nat) => decide (h = some (some p))) (join_eq_some_iff.mp hh) v
  have hjoin : v = some (some p) ↔ v.join = some p := by
    rcases v with _ | _ | q <;> simp
  simp only [decide_eq_true_eq, Option.some.injEq, hjoin] at hcount
  simp only [links, setList, hit]
  omega

theorem links_pos {a : Link} (ha : m.target a = some (some p)) : 0 < m.links p := by
  cases a with
  | head i =>
    have hmem : some (some p) ∈ m.lists := mem_of_getElem? (join_eq_some_iff.mp ha)
    exact Nat.add_pos_left (countP_pos_iff.mpr ⟨_, hmem, by simp⟩) _
  | next q =>
    obtain ⟨v, hv, hnext⟩ := map_eq_some_iff.mp ha
    obtain ⟨n, hn, rfl⟩ := map_eq_some_iff.mp hv
    have hmem : some n ∈ m.nodes := mem_of_getElem? (join_eq_some_iff.mp hn)
    exact Nat.add_pos_right _ (countP_pos_iff.mpr ⟨_, hmem, by simpa using hnext⟩)

end

/-! ## What a write does -/

structure Wrote (m m' : Chains α) (list : Nat → Option (Option Nat)) (view : Nat → Option (Option Nat × α)) (count : Nat → Nat) :
    Prop where
  list : ∀ i, m'.list i = list i
  view : ∀ p, m'.view p = view p
  count : ∀ p, m'.countAt p = count p
  lists : m'.lists.length = m.lists.length

section
variable {m : Chains α} {p q i : Nat} {h : Option Nat} {v : Option Nat × α}

theorem wrote_setNode (hv : m.view q = some v) (n : Option (Node α)) :
    Wrote m (m.setNode q n) m.list (fun p => if p = q then n.map (fun n => (n.next, n.val)) else m.view p)
        (fun p => if p = q then (n.map (·.count)).getD 0 else m.countAt p) ∧
      ∀ p, (m.setNode q n).links p + hit v.1 p = m.links p + hit (n.bind (·.next)) p := by
  have hn := node_eq_of_view hv
  refine ⟨⟨fun i => rfl, fun p => ?_, fun p => ?_, rfl⟩, fun p => links_setNode hn n p⟩
  · rw [Chains.view, node_setNode hn]
    split
    · rfl
    · rfl
  · rw [countAt, node_setNode hn]
    split
    · rfl
    · rfl

theorem wrote_count (hv : m.view q = some v) {n : Nat} {count : Nat → Nat} (hq : count q = n)
    (hcount : ∀ p, p ≠ q → count p = m.countAt p) : Wrote m (m.setNode q (some ⟨v.1, n, v.2⟩)) m.list m.view count ∧
      (∀ p, (m.setNode q (some ⟨v.1, n, v.2⟩)).links p = m.links p) ∧
      (m.setNode q (some ⟨v.1, n, v.2⟩)).nodes.length = m.nodes.length := by
  obtain ⟨hwrote, hlinks⟩ := wrote_setNode hv (some ⟨v.1, n, v.2⟩)
  refine ⟨⟨hwrote.list, fun p => ?_, fun p => ?_, rfl⟩, fun p => ?_, length_set⟩
  · rw [hwrote.view p]
    split
    · rw [‹p = q›, hv]
      rfl
    · rfl
  · rw [hwrote.count p]
    split
    · rw [‹p = q›, hq]
      rfl
    · exact (hcount p ‹_›).symm
  · have := hlinks p
    simp only [bind_some] at this
    exact Nat.add_right_cancel this

theorem incr_eq (hv : m.view q = some v) : ∃ m', m.incr q = some m' ∧
    Wrote m m' m.list m.view (fun p => m.countAt p + hit (some q) p) ∧ (∀ p, m'.links p = m.links p) ∧
      m'.nodes.length = m.nodes.length := by
  have hcall : m.incr q = some (m.setNode q (some ⟨v.1, m.countAt q + 1, v.2⟩)) := by
    rw [incr, node_eq_of_view hv]
    rfl
  refine ⟨_, hcall, wrote_count hv ?_ fun p hp => ?_⟩
  · rw [hit_some, if_pos rfl]
  · rw [hit_some, if_neg (Ne.symm hp)]
    rfl

theorem decr_eq (hv : m.view q = some v) (hpos : 0 < m.countAt q) : ∃ m', m.decr q = some m' ∧
    Wrote m m' m.list m.view (fun p => m.countAt p - hit (some q) p) ∧ (∀ p, m'.links p = m.links p) ∧
      m'.nodes.length = m.nodes.length := by
  have hcall : m.decr q = some (m.setNode q (some ⟨v.1, m.countAt q - 1, v.2⟩)) := by
    rw [decr, node_eq_of_view hv, bind_some]
    exact if_neg (by dsimp only; omega)
  refine ⟨_, hcall, wrote_count hv ?_ fun p hp => ?_⟩
  · rw [hit_some, if_pos rfl]
  · rw [hit_some, if_neg (Ne.symm hp)]
    rfl

theorem incrAt_eq (hlive : ∀ q, h = some q → ∃ v, m.view q = some v) : ∃ m', m.incrAt h = some m' ∧
    Wrote m m' m.list m.view (fun p => m.countAt p + hit h p) ∧ (∀ p, m'.links p = m.links p) ∧
      m'.nodes.length = m.nodes.length := by
  cases h with
  | none => exact ⟨m, rfl, ⟨fun _ => rfl, fun _ => rfl, fun _ => rfl, rfl⟩, fun _ => rfl, rfl⟩
  | some q =>
    obtain ⟨v, hv⟩ := hlive q rfl
    exact incr_eq hv

theorem free_eq (hv : m.view q = some v) : ∃ m', m.free q = some m' ∧
    Wrote m m' m.list (fun p => if p = q then none else m.view p) (fun p => if p = q then 0 else m.countAt p) ∧
      ∀ p, m'.links p + hit v.1 p = m.links p := by
  obtain ⟨hwrote, hlinks⟩ := wrote_setNode hv none
  exact ⟨_, by rw [free, node_eq_of_view hv]; rfl, hwrote, hlinks⟩

theorem setVal_eq (hv : m.view q = some v) (x : α) : ∃ m', m.setVal q x = some m' ∧
    Wrote m m' m.list (fun p => if p = q then some (v.1, x) else m.view p) m.countAt ∧ ∀ p, m'.links p = m.links p := by
  obtain ⟨hwrote, hlinks⟩ := wrote_setNode hv (some ⟨v.1, m.countAt q, x⟩)
  refine ⟨_, by rw [setVal, node_eq_of_view hv]; rfl, ⟨hwrote.list, hwrote.view, fun p => ?_, rfl⟩, fun p => ?_⟩
  · rw [hwrote.count p]
    split
    · rw [‹p = q›]
      rfl
    · rfl
  · have := hlinks p
    simp only [bind_some] at this
    exact Nat.add_right_cancel this

theorem alloc_eq (n : Node α) :
    Wrote m (m.alloc n) m.list (fun p => if p = m.nodes.length then some (n.next, n.val) else m.view p)
        (fun p => if p = m.nodes.length then n.count else m.countAt p) ∧
      ∀ p, (m.alloc n).links p = m.links p + hit n.next p := by
  refine ⟨⟨fun i => rfl, fun p => ?_, fun p => ?_, rfl⟩, fun p => ?_⟩
  · rw [Chains.view, node_alloc]
    split
    · rfl
    · rfl
  · rw [countAt, node_alloc]
    split
    · rfl
    · rfl
  · simp [links, alloc, hit, countP_append, countP_singleton, Nat.add_assoc]

theorem links_newList (h : Option Nat) (p : Nat) : (m.newList h).links p = m.links p + hit h p := by
  simp only [links, newList, hit, countP_append, countP_singleton, decide_eq_true_eq, Option.some.injEq]
  omega

theorem setTarget_eq {b : Link} (hb : m.target b = some h) (h' : Option Nat) : ∃ m', m.setTarget h' b = some m' ∧
    Wrote m m' (fun i => if b = .head i then some h' else m.list i)
        (fun p => if b = .next p then (m.view p).map (fun v => (h', v.2)) else m.view p) m.countAt ∧
      ∀ p, m'.links p + hit h p = m.links p + hit h' p := by
  cases b with
  | head i =>
    refine ⟨m.setList i (some h'), ?_, ⟨fun j => ?_, fun p => ?_, fun p => rfl, length_set⟩, fun p => links_setList hb _ p⟩
    · rw [setTarget, show m.list i = some h from hb]
      rfl
    · rw [list_setList hb]
      by_cases heq : j = i
      · rw [if_pos heq, if_pos (heq ▸ rfl)]
      · rw [if_neg heq, if_neg (fun hlink => heq (Link.head.inj hlink).symm)]
    · rw [if_neg (fun hlink => by cases hlink)]
      rfl
  | next q =>
    obtain ⟨v, hv, rfl⟩ := map_eq_some_iff.mp hb
    obtain ⟨hwrote, hlinks⟩ := wrote_setNode hv (some ⟨h', m.countAt q, v.2⟩)
    have hcall : m.setTarget h' (.next q) = some (m.setNode q (some ⟨h', m.countAt q, v.2⟩)) := by
      rw [setTarget, node_eq_of_view hv]
      rfl
    refine ⟨_, hcall, ⟨fun j => ?_, fun p => ?_, fun p => ?_, rfl⟩, hlinks⟩
    · rw [if_neg (fun hlink => by cases hlink)]
      rfl
    · rw [hwrote.view p]
      by_cases heq : p = q
      · rw [if_pos heq, if_pos (heq ▸ rfl), heq, hv]
        rfl
      · rw [if_neg heq, if_neg (fun hlink => heq (Link.next.inj hlink).symm)]
    · rw [hwrote.count p]
      split
      · rw [‹p = q›]
        rfl
      · rfl

end

/-- Every count is the number of links, and no node is left that nothing leads to. -/
structure Balanced (m : Chains α) : Prop where
  count : ∀ p, m.countAt p = m.links p
  pos : ∀ p v, m.view p = some v → 0 < m.countAt p

theorem Balanced.live {m : Chains α} (hm : Balanced m) {a : Link} {p : Nat} (ha : m.target a = some (some p)) :
    ∃ v, m.view p = some v := by
  have hpos := links_pos ha
  rw [← hm.count p, countAt] at hpos
  cases hn : m.node p with
  | none =>
    rw [hn] at hpos
    exact absurd hpos (Nat.lt_irrefl 0)
  | some n => exact ⟨_, by rw [view, hn]; rfl⟩

/-! ## Reading a list -/

def Reads (m : Chains α) : Option Nat → List (Nat × α) → Prop
  | none, [] => True
  | some p, x :: l => x.1 = p ∧ ∃ next, m.view p = some (next, x.2) ∧ Reads m next l
  | _, _ => False

section
variable {m m' : Chains α}

theorem Reads.frame : ∀ {h : Option Nat} {l : List (Nat × α)}, Reads m h l → (∀ x ∈ l, m'.view x.1 = m.view x.1) → Reads m' h l
  | none, [], _, _ => trivial
  | some p, x :: l, ⟨hx, next, hview, hl⟩, hsame => by
    subst hx
    refine ⟨rfl, next, ?_, hl.frame fun y hy => hsame y (List.mem_cons_of_mem _ hy)⟩
    rw [hsame x List.mem_cons_self, hview]

theorem Reads.unique : ∀ {h : Option Nat} {l l' : List (Nat × α)}, Reads m h l → Reads m h l' → l = l'
  | none, [], [], _, _ => rfl
  | some p, (_, _) :: l, (_, _) :: l', ⟨hx, next, hview, hl⟩, ⟨hx', next', hview', hl'⟩ => by
    cases hview.symm.trans hview'
    dsimp only at hx hx'
    rw [hx, hx', hl.unique hl']

theorem Reads.suffix : ∀ {h : Option Nat} {l : List (Nat × α)}, Reads m h l → ∀ x ∈ l,
    ∃ l₁ l₂, l = l₁ ++ x :: l₂ ∧ Reads m (some x.1) (x :: l₂)
  | none, [], _, x, hx => by cases hx
  | some p, y :: l, ⟨hy, next, hview, hl⟩, x, hx => by
    rcases List.mem_cons.mp hx with rfl | hx
    · subst hy
      exact ⟨[], l, rfl, rfl, next, hview, hl⟩
    · obtain ⟨l₁, l₂, rfl, hread⟩ := hl.suffix x hx
      exact ⟨y :: l₁, l₂, rfl, hread⟩

theorem Reads.nodup : ∀ {h : Option Nat} {l : List (Nat × α)}, Reads m h l → (l.map Prod.fst).Nodup
  | none, [], _ => List.nodup_nil
  | some p, x :: l, ⟨hx, next, hview, hl⟩ => by
    refine List.nodup_cons.mpr ⟨fun hmem => ?_, hl.nodup⟩
    obtain ⟨y, hy, heq⟩ := List.mem_map.mp hmem
    obtain ⟨l₁, l₂, rfl, hread⟩ := hl.suffix y hy
    have hfirst : Reads m (some y.1) (x :: (l₁ ++ y :: l₂)) := by
      rw [heq, hx]
      exact ⟨hx, next, hview, hl⟩
    have hlength := congrArg List.length (hfirst.unique hread)
    simp at hlength
    omega

theorem Reads.live : ∀ {h : Option Nat} {l : List (Nat × α)}, Reads m h l → ∀ x ∈ l, ∃ next, m.view x.1 = some (next, x.2)
  | none, [], _, x, hx => by cases hx
  | some p, y :: l, ⟨hy, next, hview, hl⟩, x, hx => by
    rcases List.mem_cons.mp hx with rfl | hx
    · exact ⟨next, hy ▸ hview⟩
    · exact hl.live x hx

theorem Reads.length_le {h : Option Nat} {l : List (Nat × α)} (hl : Reads m h l) : l.length ≤ m.nodes.length := by
  have hsub : l.map Prod.fst ⊆ range m.nodes.length := fun p hp => by
    obtain ⟨x, hx, rfl⟩ := List.mem_map.mp hp
    obtain ⟨next, hview⟩ := hl.live x hx
    exact mem_range.mpr (lt_of_node (node_eq_of_view hview))
  have hle := (subperm_of_subset hl.nodup hsub).length_le
  rwa [length_map, length_range] at hle

end

/-! ## What a list owns -/

def linksOf (i : Nat) (l : List (Nat × α)) : List Link := .head i :: l.map fun x => .next x.1

/-- The way from one link to another over nodes with no other link. -/
def Owned (m : Chains α) : Link → List (Nat × α) → Link → Prop
  | a, [], b => a = b
  | a, x :: l, b => m.target a = some (some x.1) ∧ (∃ next, m.view x.1 = some (next, x.2)) ∧ m.countAt x.1 = 1 ∧
      Owned m (.next x.1) l b

section
variable {m m' : Chains α}

theorem Owned.snoc : ∀ {l : List (Nat × α)} {a b : Link} {p : Nat} {v : Option Nat × α}, Owned m a l b →
    m.target b = some (some p) → m.view p = some v → m.countAt p = 1 → Owned m a (l ++ [(p, v.2)]) (.next p)
  | [], a, b, p, v, h, hb, hv, hone => by
    subst h
    exact ⟨hb, ⟨v.1, hv⟩, hone, rfl⟩
  | x :: l, a, b, p, v, ⟨ha, hx, hx', h⟩, hb, hv, hone => ⟨ha, hx, hx', h.snoc hb hv hone⟩

theorem Owned.reads : ∀ {l : List (Nat × α)} {a b : Link} {h h' : Option Nat} {rest : List (Nat × α)}, Owned m a l b →
    m.target a = some h → m.target b = some h' → (Reads m h (l ++ rest) ↔ Reads m h' rest)
  | [], a, b, h, h', rest, hown, ha, hb => by
    subst hown
    rw [ha] at hb
    cases hb
    rfl
  | x :: l, a, b, h, h', rest, ⟨ha', ⟨next, hview⟩, _, hown⟩, ha, hb => by
    rw [ha] at ha'
    cases ha'
    have hnext : m.target (.next x.1) = some next := congrArg (Option.map _) hview
    rw [← hown.reads hnext hb]
    constructor
    · rintro ⟨-, next', hview', hread⟩
      rw [hview] at hview'
      cases hview'
      exact hread
    · exact fun hread => ⟨rfl, next, hview, hread⟩

theorem Owned.frame : ∀ {l : List (Nat × α)} {a b : Link}, Owned m a l b → (a :: l.map fun x => Link.next x.1).Nodup →
    (∀ c ∈ a :: l.map fun x => Link.next x.1, c ≠ b → m'.target c = m.target c) →
    (∀ x ∈ l, m'.countAt x.1 = m.countAt x.1 ∧ ∀ next, m.view x.1 = some (next, x.2) → ∃ next', m'.view x.1 = some (next', x.2)) →
    Owned m' a l b
  | [], a, b, h, _, _, _ => h
  | x :: l, a, b, ⟨ha, ⟨next, hview⟩, hone, h⟩, hnodup, htarget, hsame => by
    obtain ⟨hfirst, hrest⟩ := nodup_cons.mp hnodup
    have hab : a ≠ b := fun heq => by
      -- the last link is one of those behind the first
      have hlast : ∀ {l : List (Nat × α)} {c : Link}, Owned m c l b → b ∈ c :: l.map fun x => Link.next x.1 := by
        intro l
        induction l with
        | nil => exact fun h => h ▸ mem_cons_self
        | cons y l ih => exact fun h => mem_cons_of_mem _ (ih h.2.2.2)
      exact hfirst (heq ▸ hlast h)
    obtain ⟨hcount, hsame'⟩ := hsame x mem_cons_self
    refine ⟨(htarget a mem_cons_self hab).trans ha, hsame' next hview, hcount.trans hone, ?_⟩
    exact h.frame hrest (fun c hc => htarget c (mem_cons_of_mem _ hc)) fun y hy => hsame y (mem_cons_of_mem _ hy)

theorem Owned.last : ∀ {l : List (Nat × α)} {a b : Link}, Owned m a l b → b = a ∨ ∃ x ∈ l, b = .next x.1
  | [], a, b, h => .inl h.symm
  | x :: l, a, b, ⟨_, _, _, h⟩ => by
    rcases h.last with rfl | ⟨y, hy, heq⟩
    · exact .inr ⟨x, List.mem_cons_self, rfl⟩
    · exact .inr ⟨y, List.mem_cons_of_mem _ hy, heq⟩

theorem Balanced.source_unique (hm : Balanced m) {p : Nat} (hone : m.countAt p = 1) {a b : Link}
    (ha : m.target a = some (some p)) (hb : m.target b = some (some p)) : a = b := by
  rw [hm.count p] at hone
  by_contra hne
  -- without the first link there is none left, so the second one is not there
  obtain ⟨m', -, hwrote, hlinks⟩ := setTarget_eq ha none
  have hnone := hlinks p
  rw [hit_some, if_pos rfl, hit_none] at hnone
  have hb' : m'.target b = some (some p) := by
    cases b with
    | head j =>
      rw [target, hwrote.list, if_neg hne]
      exact hb
    | next q =>
      rw [target, hwrote.view, if_neg hne]
      exact hb
  have := links_pos hb'
  omega

theorem Reads.source : ∀ {l : List (Nat × α)} {a : Link} {h : Option Nat}, Reads m h l → m.target a = some h → ∀ x ∈ l,
    ∃ b ∈ a :: l.map (fun x => Link.next x.1), m.target b = some (some x.1)
  | [], a, h, _, _, x, hx => by cases hx
  | y :: l, a, none, hread, ha, x, hx => hread.elim
  | y :: l, a, some p, ⟨hy, next, hview, hl⟩, ha, x, hx => by
    have hy' : m.target (.next y.1) = some next := by
      rw [target, hy, hview]
      rfl
    rcases mem_cons.mp hx with rfl | hx
    · exact ⟨a, mem_cons_self, hy ▸ ha⟩
    · obtain ⟨b, hb, htarget⟩ := hl.source hy' x hx
      refine ⟨b, mem_cons_of_mem _ ?_, htarget⟩
      rwa [map_cons]

theorem Owned.apart (hm : Balanced m) {j : Nat} {h : Option Nat} {l : List (Nat × α)} (hj : m.list j = some h) (hl : Reads m h l) :
    ∀ {pre : List (Nat × α)} {a b : Link}, Owned m a pre b → a ∉ linksOf j l →
      b ∉ linksOf j l ∧ ∀ x ∈ pre, x.1 ∉ l.map Prod.fst
  | [], a, b, hown, hnot => by
    subst hown
    exact ⟨hnot, fun x hx => by cases hx⟩
  | x :: pre, a, b, ⟨ha, _, hone, hown⟩, hnot => by
    have hx : x.1 ∉ l.map Prod.fst := fun hmem => by
      obtain ⟨y, hy, heq⟩ := List.mem_map.mp hmem
      obtain ⟨c, hc, htarget⟩ := hl.source (a := .head j) hj y hy
      rw [heq] at htarget
      exact hnot ((hm.source_unique hone ha htarget) ▸ hc)
    have hnext : Link.next x.1 ∉ linksOf j l := fun hmem => by
      rcases mem_cons.mp hmem with heq | hmem
      · cases heq
      · obtain ⟨y, hy, heq⟩ := List.mem_map.mp hmem
        exact hx (List.mem_map.mpr ⟨y, hy, Link.next.inj heq⟩)
    obtain ⟨hb, hpre⟩ := Owned.apart hm hj hl hown hnext
    exact ⟨hb, forall_mem_cons.mpr ⟨hx, hpre⟩⟩

structure Others (m m' : Chains α) (i : Nat) : Prop where
  list : ∀ j ≠ i, m'.list j = m.list j
  reads : ∀ j ≠ i, ∀ h l, m.list j = some h → Reads m h l → Reads m' h l
  lists : m'.lists.length = m.lists.length

theorem Others.trans {m₁ m₂ m₃ : Chains α} {i : Nat} (h : Others m₁ m₂ i) (h' : Others m₂ m₃ i) : Others m₁ m₃ i :=
  ⟨fun j hj => (h'.list j hj).trans (h.list j hj),
    fun j hj p l hp hl => h'.reads j hj p l ((h.list j hj).trans hp) (h.reads j hj p l hp hl), h'.lists.trans h.lists⟩

theorem Owned.others (hm : Balanced m) {i : Nat} {pre : List (Nat × α)} {b : Link} (hown : Owned m (.head i) pre b)
    (hlist : ∀ j ≠ i, m'.list j = m.list j) (hview : ∀ p, m'.view p = m.view p ∨ m.view p = none ∨ p ∈ pre.map Prod.fst)
    (hlists : m'.lists.length = m.lists.length) : Others m m' i := by
  refine ⟨hlist, fun j hj h l hh hl => hl.frame fun x hx => ?_, hlists⟩
  rcases hview x.1 with hsame | hdead | hmem
  · exact hsame
  · obtain ⟨next, hlive⟩ := hl.live x hx
    rw [hdead] at hlive
    cases hlive
  · have hnot : Link.head i ∉ linksOf j l := fun hmem => by
      rcases mem_cons.mp hmem with heq | hmem
      · exact hj (Link.head.inj heq).symm
      · obtain ⟨y, -, heq⟩ := List.mem_map.mp hmem
        cases heq
    obtain ⟨y, hy, heq⟩ := List.mem_map.mp hmem
    exact absurd (List.mem_map_of_mem hx) (heq ▸ (Owned.apart hm hh hl hown hnot).2 y hy)

end

end Chains

end Ns3
