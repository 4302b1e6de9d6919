import Ns3.Lib.SharedCursor
import Ns3.Network.PacketTagList

/-!
# Each tag list is a list of its own

The writers of `COWTraverse` are steps of a cursor along a shared list: the
first loop moves it over owned nodes, the last one copies the nodes before the
tag. What is read of all other lists stays the same, and the counts stay the
numbers of links.
-/

namespace Ns3

open Machine List Option

namespace PacketTagLists

open Chains TagLists

section
variable {m : PacketTagLists} {i : Nat} {tid : TypeId}

/-! ## The loops -/

theorem find_eq (tid : TypeId) : ∀ {n : Nat} {h : Option Nat} {l : List (Nat × Tag)}, Reads m h l → l.length < n →
    find m tid n h = some ((l.map Prod.snd).find? (has tid))
  | n + 1, none, [], _, _ => rfl
  | n + 1, some p, x :: l, ⟨hx, next, hview, hl⟩, hlt => by
    rw [find, node_eq_of_view hview, Option.bind_some, List.map_cons]
    by_cases heq : x.2.tid = tid
    · rw [if_pos heq, List.find?_cons_of_pos (show has tid x.2 = true from decide_eq_true heq)]
    · rw [if_neg heq, List.find?_cons_of_neg (by simpa [has] using heq)]
      exact find_eq tid hl (Nat.lt_of_succ_lt_succ hlt)

def Without (tid : TypeId) (l : List (Nat × Tag)) : Prop := ∀ y ∈ l, y.2.tid ≠ tid

theorem Without.snoc {l : List (Nat × Tag)} {p : Nat} {x : Tag} (h : Without tid l) (hx : x.tid ≠ tid) : Without tid (l ++ [(p, x)]) :=
  fun y hy => by
    rcases mem_append.mp hy with hy | hy
    · exact h y hy
    · rw [mem_singleton.mp hy]
      exact hx

/-- Where the first loop stops: at the end, at the tag, or at a merge. -/
inductive Stop (m : PacketTagLists) (i : Nat) (tid : TypeId) (l : List Tag) : Link × Option Nat × Bool → Prop
  | last (b : Link) : (∀ x ∈ l, x.tid ≠ tid) → Stop m i tid l (b, none, false)
  | tag {pre rest : List (Nat × Tag)} {b : Link} {p : Nat} {x : Tag} : Chains.Cursor m i pre b ((p, x) :: rest) → Without tid pre →
      l = pre.map Prod.snd ++ x :: rest.map Prod.snd → m.countAt p = 1 → x.tid = tid → Stop m i tid l (b, some p, true)
  | merge {pre rest : List (Nat × Tag)} {b : Link} {p : Nat} {x : Tag} : Chains.Cursor m i pre b ((p, x) :: rest) → Without tid pre →
      l = pre.map Prod.snd ++ x :: rest.map Prod.snd → 1 < m.countAt p → Stop m i tid l (b, some p, false)

theorem search_stop (tid : TypeId) (hm : Balanced m) : ∀ {n : Nat} {rest pre : List (Nat × Tag)} {b : Link} {h : Option Nat}, Chains.Cursor m i pre b rest →
    m.target b = some h → Without tid pre → rest.length < n →
    ∃ r, search m tid n b h = some r ∧ Stop m i tid ((pre ++ rest).map Prod.snd) r
  | n + 1, rest, pre, b, none, hc, hb, hpre, _ => by
    obtain ⟨h', hb', hl⟩ := hc.target
    rw [hb] at hb'
    cases hb'
    cases rest with
    | nil =>
      refine ⟨_, rfl, .last b fun x hx => ?_⟩
      obtain ⟨y, hy, rfl⟩ := List.mem_map.mp hx
      rw [append_nil] at hy
      exact hpre y hy
    | cons y rest => exact hl.elim
  | n + 1, [], pre, b, some p, hc, hb, _, _ => by
    obtain ⟨h', hb', hl⟩ := hc.target
    rw [hb] at hb'
    cases hb'
    exact hl.elim
  | n + 1, (p', x) :: rest, pre, b, some p, hc, hb, hpre, hlt => by
    obtain ⟨next, hb', hview, -, -⟩ := hc.node
    obtain rfl : p = p' := Option.some.inj (Option.some.inj (hb.symm.trans hb'))
    have hpos := hm.pos p _ hview
    rw [search, node_eq_of_view hview, bind_some]
    by_cases hmerge : 1 < m.countAt p
    · rw [if_pos hmerge]
      exact ⟨_, rfl, .merge hc hpre (by simp) hmerge⟩
    · rw [if_neg hmerge]
      by_cases heq : x.tid = tid
      · rw [if_pos heq]
        exact ⟨_, rfl, .tag hc hpre (by simp) (by omega) heq⟩
      · rw [if_neg heq]
        have hnext := hc.next (by omega)
        have htarget : m.target (.next p) = some next := congrArg (Option.map _) hview
        obtain ⟨r, hr, hstop⟩ := search_stop tid hm hnext htarget (hpre.snoc heq) (Nat.lt_of_succ_lt_succ hlt)
        refine ⟨r, hr, ?_⟩
        rwa [append_assoc, singleton_append] at hstop

theorem copyUntil_eq : ∀ {n : Nat} {m : PacketTagLists} {rest pre : List (Nat × Tag)} {b : Link} {p : Nat} {x : Tag}, Balanced m →
    Chains.Cursor m i pre b ((p, x) :: rest) → Without tid pre → 1 < m.countAt p → (∃ y ∈ (p, x) :: rest, y.2.tid = tid) →
    (∀ y ∈ (p, x) :: rest, sizeOk y.2 = true) → rest.length < n →
    ∃ m' b' p' x' pre' rest', copyUntil tid n b p m = some (m', b', p') ∧ Balanced m' ∧ Chains.Cursor m' i pre' b' ((p', x') :: rest') ∧
      Without tid pre' ∧ 1 < m'.countAt p' ∧ x'.tid = tid ∧
      pre.map Prod.snd ++ x :: rest.map Prod.snd = pre'.map Prod.snd ++ x' :: rest'.map Prod.snd ∧ Others m m' i
  | n + 1, m, rest, pre, b, p, x, hm, hc, hpre, hshared, hthere, hsizes, hlt => by
    obtain ⟨d, m', hd, hval, hcall, ⟨m₁, hcall₁, hlength⟩, hm', hc', hothers, hmerge⟩ := hc.replaceShared hm hshared x
    have hcount : d.count = m.countAt p := by
      rw [countAt, hd]
      rfl
    rw [copyUntil, hd, bind_some, hcount, if_neg (by omega), hval]
    by_cases heq : x.tid = tid
    · rw [if_pos heq]
      exact ⟨m, b, p, x, pre, rest, rfl, hm, hc, hpre, hshared, heq, rfl, fun _ _ => rfl, fun _ _ _ _ _ hl => hl, rfl⟩
    · rw [if_neg heq, if_pos (hsizes _ mem_cons_self)]
      obtain ⟨next, -, hview, hrest, -⟩ := hc.node
      have hdnext : d.next = next := by
        rw [node_eq_of_view hview] at hd
        cases hd
        rfl
      cases rest with
      | nil =>
        obtain ⟨y, hy, hy'⟩ := hthere
        rw [mem_singleton.mp hy] at hy'
        exact absurd hy' heq
      | cons z rest =>
        cases next with
        | none => exact hrest.elim
        | some q =>
          obtain ⟨z₁, z₂⟩ := z
          obtain rfl : z₁ = q := hrest.1
          rw [hdnext] at hcall ⊢
          rw [bind_some, hcall, bind_some]
          have hthere' : ∃ y ∈ (z₁, z₂) :: rest, y.2.tid = tid := by
            obtain ⟨y, hy, hy'⟩ := hthere
            rcases mem_cons.mp hy with rfl | hy
            · exact absurd hy' heq
            · exact ⟨y, hy, hy'⟩
          obtain ⟨m'', b', p', x', pre', rest', hcopy, hm'', hc'', hpre', hshared', heq', happ, hothers'⟩ :=
            copyUntil_eq hm' hc' (hpre.snoc heq) (hmerge _ rfl) hthere' (fun y hy => hsizes y (mem_cons_of_mem _ hy))
              (Nat.lt_of_succ_lt_succ hlt)
          refine ⟨m'', b', p', x', pre', rest', hcopy, hm'', hc'', hpre', hshared', heq', ?_, hothers.trans hothers'⟩
          rw [← happ]
          simp

end

/-! ## The writers -/

def Holds (m : PacketTagLists) (i : Nat) (l : List Tag) : Prop := ∃ h r, m.list i = some h ∧ Reads m h r ∧ r.map Prod.snd = l

variable {m : PacketTagLists} {i : Nat} {size : TypeId → Nat}

theorem Holds.of_cursor {pre rest : List (Nat × Tag)} {b : Link} (hc : Chains.Cursor m i pre b rest) :
    Holds m i (pre.map Prod.snd ++ rest.map Prod.snd) := by
  obtain ⟨h, hi, hl⟩ := hc.reads
  exact ⟨h, _, hi, hl, map_append⟩

/-- A writer puts something in place of the tag it is called for. -/
def Writes (writer : COWWriter) (left : Tag → Tag) (put : List Tag) (tid : TypeId) (size : TypeId → Nat) : Prop :=
  ∀ {m : PacketTagLists} {i p : Nat} {pre rest : List (Nat × Tag)} {b : Link} {x : Tag} (preMerge : Bool), Balanced m →
    Chains.Cursor m i pre b ((p, x) :: rest) → x.tid = tid → x.data.length = size x.tid →
    (if preMerge then m.countAt p = 1 else 1 < m.countAt p) →
    ∃ m', writer m preMerge p b = some (m', left x) ∧ Balanced m' ∧ Others m m' i ∧
      Holds m' i (pre.map Prod.snd ++ put ++ rest.map Prod.snd)

theorem removeWriter_writes (tid : TypeId) (size : TypeId → Nat) : Writes removeWriter id [] tid size :=
  fun preMerge hm hc _ _ hcount => by
    cases preMerge with
    | true =>
      obtain ⟨d, m', hd, rfl, hcall, hm', hc', hothers⟩ := hc.dropOwned hm hcount
      refine ⟨m', ?_, hm', hothers, by simpa using Holds.of_cursor hc'⟩
      rw [removeWriter, hd, bind_some, if_pos rfl, hcall]
      rfl
    | false =>
      obtain ⟨d, m', hd, rfl, hcall, hm', hc', hothers⟩ := hc.dropShared hm hcount
      refine ⟨m', ?_, hm', hothers, by simpa using Holds.of_cursor hc'⟩
      rw [removeWriter, hd, bind_some, if_neg (by decide), hcall]
      rfl

theorem replaceWriter_writes {tag : Tag} (hfits : tag.data.length = size tag.tid) (hsize : sizeOk tag = true) :
    Writes (replaceWriter tag) (fun _ => tag) [tag] tag.tid size :=
  fun {m i p pre rest b x} preMerge hm hc htid hx hcount => by
    cases preMerge with
    | true =>
      have hover : overwrite x.data tag.data = some tag.data := by
        have hlength : x.data.length = tag.data.length := by rw [hx, hfits, htid]
        rw [overwrite, if_neg (by omega), hlength.symm, drop_length, append_nil]
      obtain ⟨next, -, hview, -, -⟩ := hc.node
      obtain ⟨m', hcall, hm', hc', hothers⟩ := hc.setOwned hm hcount tag
      refine ⟨m', ?_, hm', hothers, by simpa using Holds.of_cursor hc'⟩
      rw [replaceWriter, node_eq_of_view hview, bind_some, if_pos rfl]
      dsimp only
      rw [hover, bind_some, htid, hcall]
      rfl
    | false =>
      obtain ⟨d, m', hd, hval, hcall, -, hm', hc', hothers, -⟩ := hc.replaceShared hm hcount tag
      refine ⟨m', ?_, hm', hothers, by simpa using Holds.of_cursor hc'⟩
      rw [replaceWriter, hd, bind_some, if_neg (by decide), if_pos hsize, hcall]
      rfl

/-- The tags of each type have one size, which a node can have. -/
def Sized (size : TypeId → Nat) (l : List Tag) : Prop := ∀ x ∈ l, x.data.length = size x.tid

theorem sizeOk_of (hsize : ∀ tid, size tid < 4294967295) {x : Tag} (hx : x.data.length = size x.tid) :
    sizeOk x = true := by
  have := hsize x.tid
  rw [sizeOk, decide_eq_true_eq]
  omega

theorem cowTraverse_eq {tid : TypeId} {l : List Tag} {writer : COWWriter}
    {left : Tag → Tag} {put : List Tag} (hm : Balanced m) (hl : Holds m i l) (hsized : Sized size l)
    (hsize : ∀ tid, size tid < 4294967295) (hwriter : Writes writer left put tid size) :
    ((∀ x ∈ l, x.tid ≠ tid) ∧ cowTraverse m i tid writer = some (m, none)) ∨
      ∃ l₁ x l₂ m', l = l₁ ++ x :: l₂ ∧ (∀ y ∈ l₁, y.tid ≠ tid) ∧ x.tid = tid ∧
        cowTraverse m i tid writer = some (m', some (left x)) ∧ Balanced m' ∧ Others m m' i ∧ Holds m' i (l₁ ++ put ++ l₂) := by
  obtain ⟨h, r, hi, hread, rfl⟩ := hl
  have hfuel : r.length < m.nodes.length + 1 := Nat.lt_succ_of_le hread.length_le
  have hsearch := search_stop tid hm (Chains.Cursor.start hi hread) hi (fun y hy => by cases hy) hfuel
  rw [nil_append] at hsearch
  obtain ⟨stop, hcall, hstop⟩ := hsearch
  have hwithout : ∀ {pre : List (Nat × Tag)}, Without tid pre → ∀ y ∈ pre.map Prod.snd, y.tid ≠ tid := fun hpre y hy => by
    obtain ⟨z, hz, rfl⟩ := List.mem_map.mp hy
    exact hpre z hz
  cases hstop with
  | last b hnone =>
    refine .inl ⟨hnone, ?_⟩
    rw [cowTraverse, hi, bind_some, hcall]
    rfl
  | @tag pre rest b p x hc hpre hsplit hone htid =>
    have hx : x ∈ r.map Prod.snd := by
      rw [hsplit]
      simp
    obtain ⟨m', hwrite, hm', hothers, hholds⟩ := hwriter true hm hc htid (hsized x hx) hone
    refine .inr ⟨_, x, _, m', hsplit, hwithout hpre, htid, ?_, hm', hothers, hholds⟩
    rw [cowTraverse, hi, bind_some, hcall, bind_some]
    show (writer m true p b).map _ = _
    rw [hwrite]
    rfl
  | @merge pre rest b p x hc hpre hsplit hshared =>
    obtain ⟨next, hb, hview, hrest, -⟩ := hc.node
    have hbehind : Reads m (some p) ((p, x) :: rest) := ⟨rfl, next, hview, hrest⟩
    have hfind := find_eq tid hbehind (Nat.lt_succ_of_le hbehind.length_le)
    rw [cowTraverse, hi, bind_some, hcall, bind_some]
    dsimp only
    rw [hfind, bind_some]
    cases hthere : (((p, x) :: rest).map Prod.snd).find? (has tid) with
    | none =>
      have hnone := find?_eq_none.mp hthere
      refine .inl ⟨fun y hy => ?_, rfl⟩
      rw [hsplit] at hy
      rcases mem_append.mp hy with hy | hy
      · exact hwithout hpre y hy
      · simpa [has] using hnone y hy
    | some t =>
      have ht : t.tid = tid := by simpa [has] using find?_some hthere
      obtain ⟨y, hy, rfl⟩ := List.mem_map.mp (mem_of_find?_eq_some hthere)
      have hsizes : ∀ z ∈ (p, x) :: rest, z.2.data.length = size z.2.tid := fun z hz =>
        hsized z.2 (by rw [hsplit]; exact mem_append_right _ (List.mem_map_of_mem (f := Prod.snd) hz))
      obtain ⟨m', b', p', x', pre', rest', hcopy, hm', hc', hpre', hshared', heq, happ, hothers⟩ :=
        copyUntil_eq (n := m.nodes.length + 1) hm hc hpre hshared ⟨y, hy, ht⟩ (fun z hz => sizeOk_of hsize (hsizes z hz))
          (Nat.lt_of_succ_lt (Nat.lt_succ_of_le hbehind.length_le))
      have hx' : x' ∈ r.map Prod.snd := by
        rw [hsplit, happ]
        simp
      obtain ⟨m'', hwrite, hm'', hothers', hholds⟩ := hwriter false hm' hc' heq (hsized x' hx') hshared'
      refine .inr ⟨_, x', _, m'', hsplit.trans happ, hwithout hpre', heq, ?_, hm'', hothers.trans hothers', hholds⟩
      rw [hcopy, bind_some, hwrite]
      rfl

/-! ## `RemoveAll` -/

theorem release_eq : ∀ {n : Nat} {h : Option Nat} {r : List (Nat × Tag)} {m : PacketTagLists},
    (∀ q, m.countAt q = m.links q + hit h q) → (∀ q v, m.view q = some v → 0 < m.countAt q) → Reads m h r → r.length < n →
    ∃ m', release n h m = some m' ∧ Balanced m' ∧ (∀ j, m'.list j = m.list j) ∧ m'.lists.length = m.lists.length ∧
      ∀ j h' l, m.list j = some h' → Reads m h' l → Reads m' h' l
  | n + 1, none, [], m, hcount, hpos, _, _ => ⟨m, rfl, ⟨hcount, hpos⟩, fun _ => rfl, rfl, fun _ _ _ _ hl => hl⟩
  | n + 1, some p, x :: r, m, hcount, hpos, ⟨hx, next, hview, hread⟩, hlt => by
    obtain ⟨m₁, hcall₁, hwrote₁, hlinks₁, -⟩ := decr_eq hview (hpos p _ hview)
    have hp := hcount p
    rw [release, node_eq_of_view hview, bind_some, hcall₁, bind_some]
    by_cases hshared : 1 < m.countAt p
    · rw [if_pos hshared]
      refine ⟨m₁, rfl, ⟨fun q => ?_, fun q v hv => ?_⟩, hwrote₁.list, hwrote₁.lists, fun j h' l _ hl => hl.frame fun z _ => hwrote₁.view _⟩
      · rw [hwrote₁.count, hlinks₁, hcount, Nat.add_sub_cancel]
      · rw [hwrote₁.view] at hv
        have := hpos q v hv
        rw [hwrote₁.count, hit_some]
        split
        · subst q
          omega
        · omega
    · rw [if_neg hshared]
      obtain ⟨m₂, hcall₂, hwrote₂, hlinks₂⟩ := free_eq (hwrote₁.view p ▸ hview)
      have hdead : m.links p = 0 := by
        rw [hit_some, if_pos rfl] at hp
        omega
      have hviews : ∀ q ≠ p, m₂.view q = m.view q := fun q hq => by rw [hwrote₂.view, if_neg hq, hwrote₁.view]
      have hlists : ∀ j, m₂.list j = m.list j := fun j => by rw [hwrote₂.list, hwrote₁.list]
      -- no link leads to the node, so nothing else is read through it
      have hreads : ∀ j h' l, m.list j = some h' → Reads m h' l → Reads m₂ h' l := fun j h' l hj hl => by
        refine hl.frame fun z hz => hviews _ fun heq => ?_
        obtain ⟨c, -, htarget⟩ := hl.source (a := .head j) hj z hz
        rw [heq] at htarget
        have := links_pos htarget
        omega
      have hnot : p ∉ r.map Prod.fst := by
        have hnodup := Reads.nodup (m := m) (h := some p) (l := x :: r) ⟨hx, next, hview, hread⟩
        rw [← hx]
        exact (nodup_cons.mp hnodup).1
      obtain ⟨m', hrelease, hbalanced, hlist', hlength', hreads'⟩ := release_eq (n := n) (h := next) (r := r) (m := m₂)
        (fun q => by
          have h₂ := hlinks₂ q
          have hq := hcount q
          rw [hit_some] at hq
          rw [hwrote₂.count, hwrote₁.count, hit_some]
          rw [hlinks₁] at h₂
          dsimp only at h₂
          by_cases heq : q = p
          · subst heq
            rw [if_pos rfl]
            omega
          · rw [if_neg heq, if_neg (Ne.symm heq)]
            rw [if_neg (Ne.symm heq)] at hq
            omega)
        (fun q v hv => by
          have hqp : q ≠ p := fun heq => by
            rw [hwrote₂.view, if_pos heq] at hv
            cases hv
          rw [hviews q hqp] at hv
          have := hpos q v hv
          rw [hwrote₂.count, if_neg hqp, hwrote₁.count, hit_some, if_neg (Ne.symm hqp)]
          exact this)
        (hread.frame fun z hz => hviews _ fun heq => hnot (heq ▸ List.mem_map_of_mem hz)) (Nat.lt_of_succ_lt_succ hlt)
      refine ⟨m', by rw [hcall₂, bind_some, hrelease], hbalanced, fun j => (hlist' j).trans (hlists j), ?_,
        fun j h' l hj hl => hreads' j h' l ((hlists j).trans hj) (hreads j h' l hj hl)⟩
      rw [hlength', hwrote₂.lists, hwrote₁.lists]

theorem release_setList (i : Nat) (v : Option (Option Nat)) : ∀ (n : Nat) (h : Option Nat) (m : PacketTagLists),
    release n h (m.setList i v) = (release n h m).map fun m => m.setList i v
  | 0, _, _ => rfl
  | _ + 1, none, _ => rfl
  | n + 1, some p, m => by
    have hdecr : (m.setList i v).decr p = (m.decr p).map fun m => m.setList i v := by
      unfold decr
      rw [show (m.setList i v).node p = m.node p from rfl]
      cases m.node p with
      | none => rfl
      | some d =>
        rw [bind_some, bind_some]
        split
        · rfl
        · rfl
    have hfree : ∀ m : PacketTagLists, (m.setList i v).free p = (m.free p).map fun m => m.setList i v := fun m => by
      unfold free
      rw [show (m.setList i v).node p = m.node p from rfl, Option.map_map]
      rfl
    rw [release, release, show (m.setList i v).node p = m.node p from rfl]
    cases m.node p with
    | none => rfl
    | some d =>
      rw [bind_some, bind_some, hdecr]
      cases m.decr p with
      | none => rfl
      | some m₁ =>
        rw [map_some, bind_some, bind_some]
        split
        · rfl
        · rw [hfree]
          cases m₁.free p with
          | none => rfl
          | some m₂ =>
            exact release_setList i v n d.next m₂

theorem release_lists : ∀ {n : Nat} {h : Option Nat} {m m' : PacketTagLists}, release n h m = some m' → m'.lists = m.lists
  | n + 1, none, m, m', hcall => by
    cases hcall
    rfl
  | n + 1, some p, m, m', hcall => by
    obtain ⟨d, -, hcall⟩ := bind_eq_some_iff.mp hcall
    obtain ⟨m₁, hdecr, hcall⟩ := bind_eq_some_iff.mp hcall
    have h₁ : m₁.lists = m.lists := by
      obtain ⟨d', -, hdecr⟩ := bind_eq_some_iff.mp hdecr
      split at hdecr
      · cases hdecr
      · cases hdecr
        rfl
    split at hcall
    · cases hcall
      exact h₁
    · obtain ⟨m₂, hfree, hcall⟩ := bind_eq_some_iff.mp hcall
      obtain ⟨d', -, hfree⟩ := map_eq_some_iff.mp hfree
      rw [release_lists hcall, ← hfree]
      exact h₁

theorem removeAll_eq {l : List Tag} (hm : Balanced m) (hl : Holds m i l) :
    ∃ m', removeAll m i = some m' ∧ Balanced m' ∧ Others m m' i ∧ m'.list i = some none := by
  obtain ⟨h, r, hi, hread, -⟩ := hl
  obtain ⟨m₁, hcall₁, hwrote₁, hlinks₁⟩ := setTarget_eq (b := .head i) hi none
  have hset : m₁ = m.setList i (some none) := by
    rw [setTarget, hi] at hcall₁
    exact (Option.some.inj hcall₁).symm
  have hviews : ∀ q, m₁.view q = m.view q := fun q => by rw [hwrote₁.view, if_neg (fun heq => by cases heq)]
  have hlists : ∀ j ≠ i, m₁.list j = m.list j := fun j hj => by
    rw [hwrote₁.list, if_neg (fun heq => hj (Link.head.inj heq).symm)]
  obtain ⟨m₂, hcall₂, hbalanced, hlist₂, hlength₂, hreads₂⟩ := release_eq (n := m.nodes.length + 1) (h := h) (r := r) (m := m₁)
    (fun q => by
      have h₁ := hlinks₁ q
      rw [hit_none] at h₁
      rw [hwrote₁.count, hm.count]
      omega)
    (fun q v hv => by
      rw [hviews] at hv
      rw [hwrote₁.count]
      exact hm.pos q v hv)
    (hread.frame fun z _ => hviews _) (Nat.lt_succ_of_le hread.length_le)
  have hcall : removeAll m i = some m₂ := by
    rw [hset, release_setList] at hcall₂
    obtain ⟨m₃, hcall₃, rfl⟩ := map_eq_some_iff.mp hcall₂
    have hlist₃ : m₃.list i = some h := by
      rw [list, release_lists hcall₃]
      exact hi
    rw [removeAll, hi, bind_some, hcall₃, bind_some, setTarget, hlist₃]
    rfl
  refine ⟨m₂, hcall, hbalanced, ⟨fun j hj => (hlist₂ j).trans (hlists j hj), fun j hj h' l hj' hl => ?_, ?_⟩, ?_⟩
  · exact hreads₂ j h' l ((hlists j hj).trans hj') (hl.frame fun z _ => hviews _)
  · rw [hlength₂, hwrote₁.lists]
  · rw [hlist₂, hwrote₁.list, if_pos rfl]

/-! ## The lists and their contents -/

structure Refines (size : TypeId → Nat) (m : PacketTagLists) (s : TagLists) : Prop where
  balanced : Balanced m
  lists : m.lists.length = s.length
  holds : ∀ i l, s.get i = some l → Holds m i l
  dead : ∀ i, s.get i = none → m.list i = none
  sized : ∀ i l, s.get i = some l → Sized size l
  distinct : ∀ i l, s.get i = some l → (l.map (·.tid)).Nodup

/-- Tags have the size of their type. -/
def Fits (size : TypeId → Nat) (_ : PacketTagLists) : TagEvent → Prop
  | .add _ tag | .replace _ tag => tag.data.length = size tag.tid
  | _ => True

section
variable {size : TypeId → Nat} {m m' : PacketTagLists} {s : TagLists} {i : Nat} {l l' : List Tag}

theorem get_set {v : Option (List Tag)} (hi : s.get i = some l) (j : Nat) :
    TagLists.get (s.set i v) j = if j = i then v else s.get j := by
  have hlt : i < s.length := by
    by_contra hge
    rw [TagLists.get, getElem?_eq_none (by omega)] at hi
    cases hi
  rw [TagLists.get, getElem?_set]
  by_cases heq : i = j
  · subst heq
    rw [if_pos rfl, if_pos hlt, if_pos rfl]
    rfl
  · rw [if_neg heq, if_neg (Ne.symm heq)]
    rfl

theorem get_append (s : TagLists) (l : List Tag) (j : Nat) :
    TagLists.get (s ++ [some l]) j = if j = s.length then some l else s.get j :=
  join_append s l j

theorem Refines.changed (h : Refines size m s) (hi : s.get i = some l) (hm' : Balanced m') (hothers : Others m m' i)
    (hholds : Holds m' i l') (hsized : Sized size l') (hdistinct : (l'.map (·.tid)).Nodup) : Refines size m' (s.set i (some l')) := by
  refine ⟨hm', ?_, fun j t ht => ?_, fun j hj => ?_, fun j t ht => ?_, fun j t ht => ?_⟩
  · rw [hothers.lists, h.lists, length_set]
  · rw [get_set hi] at ht
    split at ht
    · cases ht
      exact ‹j = i› ▸ hholds
    · obtain ⟨p, r, hp, hr, hval⟩ := h.holds j t ht
      exact ⟨p, r, (hothers.list j ‹_›).trans hp, hothers.reads j ‹_› p r hp hr, hval⟩
  · rw [get_set hi] at hj
    split at hj
    · cases hj
    · rw [hothers.list j ‹_›]
      exact h.dead j hj
  · rw [get_set hi] at ht
    split at ht
    · cases ht
      exact hsized
    · exact h.sized j t ht
  · rw [get_set hi] at ht
    split at ht
    · cases ht
      exact hdistinct
    · exact h.distinct j t ht

theorem eraseP_split {tid : TypeId} {l₁ : List Tag} (l₂ : List Tag) {x : Tag} (hnone : ∀ y ∈ l₁, y.tid ≠ tid) (hx : x.tid = tid) :
    (l₁ ++ x :: l₂).eraseP (has tid) = l₁ ++ l₂ ∧ (l₁ ++ x :: l₂).find? (has tid) = some x ∧ (l₁ ++ x :: l₂).any (has tid) = true := by
  have hpos : has tid x = true := decide_eq_true hx
  have hneg : ∀ y ∈ l₁, ¬ has tid y = true := fun y hy => by simpa [has] using hnone y hy
  refine ⟨?_, ?_, ?_⟩
  · rw [eraseP_append_right _ hneg, eraseP_cons_of_pos hpos]
  · rw [find?_append, find?_eq_none.mpr hneg, none_or, find?_cons_of_pos hpos]
  · simp [hpos]

variable {tag : Tag}

theorem replaceF_split {x : Tag} {l₂ : List Tag} (hx : x.tid = tag.tid) : ∀ {l₁ : List Tag}, (∀ y ∈ l₁, y.tid ≠ tag.tid) →
    (l₁ ++ x :: l₂).replaceF (fun x => if x.tid = tag.tid then some tag else none) = l₁ ++ tag :: l₂
  | [], _ => List.replaceF_cons_of_some _ (if_pos hx)
  | y :: l₁, hnone => by
    have hskip : (if y.tid = tag.tid then some tag else none) = none := if_neg (hnone y mem_cons_self)
    have hcons := replaceF_cons_of_none (p := fun x : Tag => if x.tid = tag.tid then some tag else none) (l := l₁ ++ x :: l₂) hskip
    rw [cons_append, hcons, replaceF_split hx fun z hz => hnone z (mem_cons_of_mem _ hz)]
    rfl

/-! ## One call -/

theorem Refines.peek (h : Refines size m s) (hi : s.get i = some l) (tid : TypeId) : peek m i tid = some (l.find? (has tid)) := by
  obtain ⟨p, r, hp, hr, rfl⟩ := h.holds i l hi
  rw [PacketTagLists.peek, hp, bind_some]
  exact find_eq tid hr (Nat.lt_succ_of_le hr.length_le)

theorem Refines.add (h : Refines size m s) (hi : s.get i = some l) (hfits : tag.data.length = size tag.tid)
    (hsize : ∀ tid, size tid < 4294967295) (hnew : ∀ x ∈ l, x.tid ≠ tag.tid) :
    ∃ m', add m i tag = some m' ∧ Refines size m' (s.set i (some (tag :: l))) := by
  have hfind := h.peek hi tag.tid
  obtain ⟨p, r, hp, hr, hval⟩ := h.holds i l hi
  rw [PacketTagLists.peek, hp, bind_some] at hfind
  have hnone : l.find? (has tag.tid) = none := find?_eq_none.mpr fun x hx => by simpa [has] using hnew x hx
  obtain ⟨m', hcall, hm', hothers, hlist, hread⟩ := push h.balanced hp hr tag
  refine ⟨m', ?_, h.changed hi hm' hothers ⟨_, _, hlist, hread, by rw [← hval]; rfl⟩ ?_ ?_⟩
  · rw [PacketTagLists.add, hp, bind_some, hfind, bind_some, hnone, if_neg (by simp [sizeOk_of hsize hfits]), hcall]
  · exact forall_mem_cons.mpr ⟨hfits, h.sized i l hi⟩
  · refine nodup_cons.mpr ⟨fun hmem => ?_, h.distinct i l hi⟩
    obtain ⟨x, hx, heq⟩ := List.mem_map.mp hmem
    exact hnew x hx heq

theorem Refines.remove (h : Refines size m s) (hi : s.get i = some l) (tid : TypeId) (hsize : ∀ tid, size tid < 4294967295) :
    ∃ m', remove m i tid = some (m', l.find? (has tid)) ∧ Refines size m' (s.set i (some (l.eraseP (has tid)))) := by
  rcases cowTraverse_eq h.balanced (h.holds i l hi) (h.sized i l hi) hsize (removeWriter_writes tid size) with
    ⟨hnone, hcall⟩ | ⟨l₁, x, l₂, m', rfl, hnone, hx, hcall, hm', hothers, hholds⟩
  · have hneg : ∀ x ∈ l, ¬ has tid x = true := fun x hx => by simpa [has] using hnone x hx
    have hself : s.set i (some l) = s := by
      obtain ⟨hlt, hget⟩ := List.getElem?_eq_some_iff.mp (join_eq_some_iff.mp hi)
      rw [← hget, set_getElem_self]
    rw [find?_eq_none.mpr hneg, eraseP_of_forall_not hneg, hself]
    exact ⟨m, hcall, h⟩
  · obtain ⟨herase, hfind, -⟩ := eraseP_split l₂ hnone hx
    rw [hfind, herase]
    rw [append_nil] at hholds
    have hsub : (l₁ ++ l₂).Sublist (l₁ ++ x :: l₂) := (sublist_cons_self x l₂).append_left l₁
    exact ⟨m', hcall, h.changed hi hm' hothers hholds (fun y hy => h.sized i _ hi y (hsub.subset hy))
      ((h.distinct i _ hi).sublist (hsub.map _))⟩

theorem Refines.replace (h : Refines size m s) (hi : s.get i = some l) (hfits : tag.data.length = size tag.tid)
    (hsize : ∀ tid, size tid < 4294967295) :
    ∃ m', replace m i tag = some (m', l.any (has tag.tid)) ∧ Refines size m' (s.set i (some
    (if l.any (has tag.tid) then l.replaceF (fun x => if x.tid = tag.tid then some tag else none) else tag :: l))) := by
  rcases cowTraverse_eq h.balanced (h.holds i l hi) (h.sized i l hi) hsize
    (replaceWriter_writes hfits (sizeOk_of hsize hfits)) with ⟨hnone, hcall⟩ | ⟨l₁, x, l₂, m', rfl, hnone, hx, hcall, hm', hothers, hholds⟩
  · have hany : l.any (has tag.tid) = false := by
      rw [List.any_eq_false]
      exact fun x hx => by simpa [has] using hnone x hx
    obtain ⟨m', hadd, hrefines⟩ := h.add hi hfits hsize hnone
    rw [hany, if_neg (by decide)]
    refine ⟨m', ?_, hrefines⟩
    rw [PacketTagLists.replace, hcall, bind_some, if_neg (by simp), hadd]
    rfl
  · obtain ⟨-, -, hany⟩ := eraseP_split l₂ hnone hx
    rw [hany, if_pos rfl, replaceF_split hx hnone]
    have hsplit : l₁ ++ [tag] ++ l₂ = l₁ ++ tag :: l₂ := by simp
    rw [hsplit] at hholds
    have hsized := h.sized i _ hi
    refine ⟨m', ?_, h.changed hi hm' hothers hholds (fun y hy => ?_) ?_⟩
    · rw [PacketTagLists.replace, hcall]
      rfl
    · rcases mem_append.mp hy with hy | hy
      · exact hsized y (mem_append_left _ hy)
      · rcases mem_cons.mp hy with rfl | hy
        · exact hfits
        · exact hsized y (mem_append_right _ (mem_cons_of_mem _ hy))
    · have hdistinct := h.distinct i _ hi
      rw [map_append, map_cons, hx] at hdistinct
      rw [map_append, map_cons]
      exact hdistinct

theorem Refines.removeAll (h : Refines size m s) (hi : s.get i = some l) :
    ∃ m', removeAll m i = some m' ∧ Refines size m' (s.set i (some [])) ∧ m'.list i = some none ∧ Others m m' i := by
  obtain ⟨m', hcall, hm', hothers, hlist⟩ := removeAll_eq h.balanced (h.holds i l hi)
  refine ⟨m', hcall, h.changed hi hm' hothers ⟨none, [], hlist, trivial, rfl⟩ (fun x hx => by cases hx) nodup_nil, hlist, hothers⟩

theorem Refines.destroy (h : Refines size m s) (hi : s.get i = some l) :
    ∃ m', destroy m i = some m' ∧ Refines size m' (s.set i none) := by
  obtain ⟨m₁, hcall, hrefines, hlist, -⟩ := h.removeAll hi
  have hget : ∀ {j t}, TagLists.get (s.set i none) j = some t → j ≠ i ∧ TagLists.get (s.set i (some [])) j = some t := by
    intro j t ht
    rw [get_set hi] at ht
    split at ht
    · cases ht
    · exact ⟨‹_›, by rw [get_set hi, if_neg ‹_›, ht]⟩
  refine ⟨m₁.setList i none, by rw [PacketTagLists.destroy, hcall]; rfl, ⟨⟨fun q => ?_, hrefines.balanced.pos⟩, ?_, ?_, ?_, ?_, ?_⟩⟩
  · have hlinks := links_setList hlist none q
    have := hrefines.balanced.count q
    exact this.trans hlinks.symm
  · have := hrefines.lists
    rw [length_set] at this ⊢
    rw [setList, length_set, this]
  · intro j t ht
    obtain ⟨hj, ht'⟩ := hget ht
    obtain ⟨p, r, hp, hr, hval⟩ := hrefines.holds j t ht'
    exact ⟨p, r, by rw [list_setList hlist, if_neg hj, hp], hr.frame fun _ _ => rfl, hval⟩
  · intro j hj
    rw [get_set hi] at hj
    rw [list_setList hlist]
    split
    · rfl
    · rw [if_neg ‹_›] at hj
      exact hrefines.dead j (by rw [get_set hi, if_neg ‹_›, hj])
  · exact fun j t ht => hrefines.sized j t (hget ht).2
  · exact fun j t ht => hrefines.distinct j t (hget ht).2

theorem Refines.head_live (h : Refines size m s) {p : Option Nat} (hp : m.list i = some p) : ∀ q, p = some q → ∃ v, m.view q = some v :=
  fun _ hq => h.balanced.live (a := .head i) (hq ▸ hp)

theorem Refines.grown (h : Refines size m s) {p : Option Nat} {r : List (Nat × Tag)} (hr : Reads m p r)
    (hlive : ∀ q, p = some q → ∃ v, m.view q = some v) (hsized : Sized size (r.map Prod.snd))
    (hdistinct : ((r.map Prod.snd).map (·.tid)).Nodup) :
    ∃ m', (m.newList p).incrAt p = some m' ∧ Refines size m' (s ++ [some (r.map Prod.snd)]) := by
  obtain ⟨m', hcall, hm', hlist, hlists, hview, hlength⟩ := share h.balanced hlive
  refine ⟨m', hcall, hm', ?_, fun j t ht => ?_, fun j hj => ?_, fun j t ht => ?_, fun j t ht => ?_⟩
  · rw [hlength, h.lists, length_append]
    rfl
  · rw [get_append] at ht
    split at ht
    · cases ht
      exact ⟨p, r, by rw [‹j = _›, ← h.lists, hlist], hr.frame fun z _ => hview _, rfl⟩
    · obtain ⟨p', r', hp', hr', hval⟩ := h.holds j t ht
      exact ⟨p', r', (hlists j (h.lists ▸ ‹_›)).trans hp', hr'.frame fun z _ => hview _, hval⟩
  · rw [get_append] at hj
    split at hj
    · cases hj
    · rw [hlists j (h.lists ▸ ‹_›)]
      exact h.dead j hj
  · rw [get_append] at ht
    split at ht
    · cases ht
      exact hsized
    · exact h.sized j t ht
  · rw [get_append] at ht
    split at ht
    · cases ht
      exact hdistinct
    · exact h.distinct j t ht

theorem Refines.copy (h : Refines size m s) (hi : s.get i = some l) : ∃ m', copy m i = some m' ∧ Refines size m' (s ++ [some l]) := by
  obtain ⟨p, r, hp, hr, rfl⟩ := h.holds i l hi
  obtain ⟨m', hcall, hrefines⟩ := h.grown hr (h.head_live hp) (h.sized i _ hi) (h.distinct i _ hi)
  exact ⟨m', by rw [PacketTagLists.copy, hp, bind_some, hcall], hrefines⟩

theorem Refines.assign (h : Refines size m s) (hi : s.get i = some l) {o : Nat} (ho : s.get o = some l') :
    ∃ m', assign m i o = some m' ∧ Refines size m' (s.set i (some l')) := by
  obtain ⟨p, r, hp, hr, rfl⟩ := h.holds i l hi
  obtain ⟨p', r', hp', hr', rfl⟩ := h.holds o l' ho
  have hdef : PacketTagLists.assign m i o = if p = p' then some m
      else (PacketTagLists.removeAll m i).bind fun m => (m.setTarget p' (.head i)).bind fun m => m.incrAt p' := by
    rw [PacketTagLists.assign, hp, bind_some, hp', bind_some]
  rw [hdef]
  by_cases heq : p = p'
  · subst heq
    rw [hr.unique hr'] at hi
    have hself : s.set i (some (r'.map Prod.snd)) = s := by
      obtain ⟨hlt, hget⟩ := List.getElem?_eq_some_iff.mp (join_eq_some_iff.mp hi)
      rw [← hget, set_getElem_self]
    rw [if_pos rfl, hself]
    exact ⟨m, rfl, h⟩
  · have hoi : o ≠ i := fun hsame => heq (Option.some.inj (hp.symm.trans (hsame ▸ hp')))
    obtain ⟨m₁, hcall₁, hrefines₁, hlist₁, hothers₁⟩ := h.removeAll hi
    have hp₁ : m₁.list o = some p' := (hothers₁.list o hoi).trans hp'
    have hr₁ := hothers₁.reads o hoi p' r' hp' hr'
    obtain ⟨m₂, hcall₂, hm₂, hlist₂, hlists₂, hview₂, hlength₂⟩ := attach hrefines₁.balanced hlist₁ (hrefines₁.head_live hp₁)
    rw [if_neg heq, hcall₁, bind_some]
    refine ⟨m₂, hcall₂, h.changed hi hm₂ ⟨fun j hj => ?_, fun j hj q t hq ht => ?_, ?_⟩ ⟨p', r', hlist₂, ?_, rfl⟩ (h.sized o _ ho)
      (h.distinct o _ ho)⟩
    · rw [hlists₂ j hj, hothers₁.list j hj]
    · exact (hothers₁.reads j hj q t hq ht).frame fun z _ => hview₂ _
    · rw [hlength₂, hothers₁.lists]
    · exact hr₁.frame fun z _ => hview₂ _

/-- Both levels refuse a call, or both take it with the same answer. -/
theorem Refines.step (h : Refines size m s) (hsize : ∀ tid, size tid < 4294967295) : ∀ e : TagEvent, Fits size m e →
    (TagLists.machine.step s e = none ∧ machine.step m e = none) ∨
      ∃ s' m' o, TagLists.machine.step s e = some (s', o) ∧ machine.step m e = some (m', o) ∧ Refines size m' s'
  | .create, _ => by
    obtain ⟨m', hcall, hrefines⟩ := h.grown (p := none) (r := []) trivial (fun q hq => by cases hq) (fun x hx => by cases hx) nodup_nil
    cases hcall
    exact .inr ⟨_, _, _, rfl, rfl, hrefines⟩
  | .copy o, _ => by
    cases ho : s.get o with
    | none =>
      refine .inl ⟨congrArg (Option.map _) ho, ?_⟩
      show (PacketTagLists.copy m o).map _ = none
      rw [PacketTagLists.copy, h.dead o ho]
      rfl
    | some l =>
      obtain ⟨m', hcall, hrefines⟩ := h.copy ho
      exact .inr ⟨_, m', [], congrArg (Option.map _) ho, congrArg (Option.map _) hcall, hrefines⟩
  | .assign i o, _ => by
    cases hi : s.get i with
    | none =>
      refine .inl ⟨congrArg (Option.bind · _) hi, ?_⟩
      show (PacketTagLists.assign m i o).map _ = none
      rw [PacketTagLists.assign, h.dead i hi]
      rfl
    | some l =>
      obtain ⟨p, r, hp, -⟩ := h.holds i l hi
      cases ho : s.get o with
      | none =>
        refine .inl ⟨?_, ?_⟩
        · show (s.get i).bind _ = none
          rw [hi, bind_some, ho]
          rfl
        · show (PacketTagLists.assign m i o).map _ = none
          rw [PacketTagLists.assign, hp, bind_some, h.dead o ho]
          rfl
      | some l' =>
        obtain ⟨m', hcall, hrefines⟩ := h.assign hi ho
        refine .inr ⟨_, m', [], ?_, congrArg (Option.map _) hcall, hrefines⟩
        show (s.get i).bind _ = _
        rw [hi, bind_some, ho]
        rfl
  | .destroy i, _ => by
    cases hi : s.get i with
    | none =>
      refine .inl ⟨congrArg (Option.map _) hi, ?_⟩
      show (PacketTagLists.destroy m i).map _ = none
      rw [PacketTagLists.destroy, PacketTagLists.removeAll, h.dead i hi]
      rfl
    | some l =>
      obtain ⟨m', hcall, hrefines⟩ := h.destroy hi
      exact .inr ⟨_, m', [], congrArg (Option.map _) hi, congrArg (Option.map _) hcall, hrefines⟩
  | .add i tag, hfits => by
    cases hi : s.get i with
    | none =>
      refine .inl ⟨congrArg (Option.bind · _) hi, ?_⟩
      show (PacketTagLists.add m i tag).map _ = none
      rw [PacketTagLists.add, h.dead i hi]
      rfl
    | some l =>
      have habs : TagLists.machine.step s (.add i tag) =
          if l.any (has tag.tid) then none else some (s.set i (some (tag :: l)), []) := congrArg (Option.bind · _) hi
      rw [habs]
      by_cases hany : l.any (has tag.tid) = true
      · refine .inl ⟨if_pos hany, ?_⟩
        have hfind := h.peek hi tag.tid
        obtain ⟨p, r, hp, -⟩ := h.holds i l hi
        rw [PacketTagLists.peek, hp, bind_some] at hfind
        have hsome : (l.find? (has tag.tid)).isSome = true := by
          obtain ⟨x, hx, hx'⟩ := List.any_eq_true.mp hany
          exact find?_isSome.mpr ⟨x, hx, hx'⟩
        show (PacketTagLists.add m i tag).map _ = none
        rw [PacketTagLists.add, hp, bind_some, hfind, bind_some, if_pos (.inl hsome)]
        rfl
      · have hnew : ∀ x ∈ l, x.tid ≠ tag.tid := fun x hx heq =>
          hany (List.any_eq_true.mpr ⟨x, hx, decide_eq_true heq⟩)
        obtain ⟨m', hcall, hrefines⟩ := h.add hi hfits hsize hnew
        exact .inr ⟨_, m', [], if_neg hany, congrArg (Option.map _) hcall, hrefines⟩
  | .remove i tid, _ => by
    cases hi : s.get i with
    | none =>
      refine .inl ⟨congrArg (Option.map _) hi, ?_⟩
      show (PacketTagLists.remove m i tid).map _ = none
      rw [PacketTagLists.remove, cowTraverse, h.dead i hi]
      rfl
    | some l =>
      obtain ⟨m', hcall, hrefines⟩ := h.remove hi tid hsize
      exact .inr ⟨_, m', _, congrArg (Option.map _) hi, congrArg (Option.map _) hcall, hrefines⟩
  | .replace i tag, hfits => by
    cases hi : s.get i with
    | none =>
      refine .inl ⟨congrArg (Option.map _) hi, ?_⟩
      show (PacketTagLists.replace m i tag).map _ = none
      rw [PacketTagLists.replace, cowTraverse, h.dead i hi]
      rfl
    | some l =>
      obtain ⟨m', hcall, hrefines⟩ := h.replace hi hfits hsize
      have hstep : machine.step m (.replace i tag) = some (m', [answerOf (l.any (has tag.tid))]) := congrArg (Option.map _) hcall
      refine .inr ⟨_, m', _, ?_, hstep, hrefines⟩
      refine (congrArg (Option.map _) hi).trans ?_
      rw [map_some]
      by_cases hany : l.any (has tag.tid) = true
      · rw [if_pos hany, if_pos hany, hany]
        rfl
      · rw [if_neg hany, if_neg hany, eq_false_of_ne_true hany]
        rfl
  | .peek i tid, _ => by
    cases hi : s.get i with
    | none =>
      refine .inl ⟨congrArg (Option.map _) hi, ?_⟩
      show (PacketTagLists.peek m i tid).map _ = none
      rw [PacketTagLists.peek, h.dead i hi]
      rfl
    | some l => exact .inr ⟨s, m, _, congrArg (Option.map _) hi, congrArg (Option.map _) (h.peek hi tid), h⟩
  | .removeAll i, _ => by
    cases hi : s.get i with
    | none =>
      refine .inl ⟨congrArg (Option.map _) hi, ?_⟩
      show (PacketTagLists.removeAll m i).map _ = none
      rw [PacketTagLists.removeAll, h.dead i hi]
      rfl
    | some l =>
      obtain ⟨m', hcall, hrefines, -⟩ := h.removeAll hi
      exact .inr ⟨_, m', [], congrArg (Option.map _) hi, congrArg (Option.map _) hcall, hrefines⟩

theorem refines_start : Refines size {} [] :=
  { balanced := ⟨fun _ => rfl, fun p v hv => by cases hv⟩
    lists := rfl
    holds := fun i l hi => by cases hi
    dead := fun _ _ => rfl
    sized := fun i l hi => by cases hi
    distinct := fun i l hi => by cases hi }

/-- **Packet tag lists.** Every run is one of lists that share nothing, with the same
answers; every count is the number of links to its node, no node is left that none
leads to, and a call fails just when it names no list or adds a type again. -/
theorem lists_independent (size : TypeId → Nat) (hsize : ∀ tid, size tid < 4294967295) {tr : List (TagEvent × List TagAnswer)}
    {m : PacketTagLists} (hrun : Run machine (Fits size) {} tr m) :
    ∃ s, Run TagLists.machine anyStep [] tr s ∧ Refines size m s ∧
      ∀ e, Fits size m e → ((machine.step m e).isSome ↔ (TagLists.machine.step s e).isSome) := by
  obtain ⟨s, hrun', hrefines⟩ := Run.simulation TagLists.machine [] (Refines size) refines_start
    (fun m s e m' o h hfits hstep => by
      rcases h.step hsize e hfits with ⟨-, hnone⟩ | ⟨s', m'', o', habs, hconc, hrefines⟩
      · rw [hnone] at hstep
        cases hstep
      · rw [hconc] at hstep
        cases hstep
        exact ⟨s', habs, hrefines⟩) hrun
  refine ⟨s, hrun', hrefines, fun e hfits => ?_⟩
  rcases hrefines.step hsize e hfits with ⟨habs, hconc⟩ | ⟨s', m', o, habs, hconc, -⟩
  · simp [habs, hconc]
  · simp [habs, hconc]

end

instance (size : TypeId → Nat) (m : PacketTagLists) : (e : TagEvent) → Decidable (Fits size m e)
  | .add _ tag | .replace _ tag => inferInstanceAs (Decidable (tag.data.length = size tag.tid))
  | .create | .copy _ | .assign .. | .destroy _ | .remove .. | .peek .. | .removeAll _ => .isTrue trivial

/-- Two lists that share three tags; one loses the tag in the middle and the other gets
a new value of the last one. -/
def sharedTags : List TagEvent :=
  [.create, .add 0 ⟨1, [10]⟩, .add 0 ⟨2, [20]⟩, .add 0 ⟨3, [30]⟩, .copy 0, .add 1 ⟨4, [40]⟩, .remove 1 2, .replace 0 ⟨1, [11]⟩,
    .peek 1 1, .peek 0 1, .create, .assign 2 1, .destroy 1, .peek 2 2, .replace 2 ⟨2, [22]⟩, .removeAll 0, .peek 2 3]

theorem sharedTags_isSome : (machine.exec (Fits fun _ => 1) {} sharedTags).isSome := by
  decide +kernel

theorem sharedTags_independent : ∃ tr m, Run machine (Fits fun _ => 1) {} tr m ∧
    outputs tr = [.value [20], .found, .value [10], .value [11], .notFound, .notFound, .value [30]] ∧
    ∃ s, Run TagLists.machine anyStep [] tr s ∧ Refines (fun _ => 1) m s := by
  have hrun := run_of_isSome machine (Fits fun _ => 1) {} sharedTags sharedTags_isSome
  obtain ⟨s, hrun', hrefines, -⟩ := lists_independent (fun _ => 1) (fun _ => by decide) hrun
  exact ⟨_, _, hrun, by decide +kernel, s, hrun', hrefines⟩

end PacketTagLists

end Ns3
