import Ns3.Network.BufferWrite

/-!
# Families of buffers

Any number of buffers that share memory read as lists of bytes of their own, as
long as no buffer is appended in one of two ways: with bytes behind its zeroes,
where the zero areas are put together, and into a block it shares.
-/

namespace Ns3

open Handles Machine ByteLists List Option

def BufferEvent.operands : BufferEvent → List Nat
  | .create _ => []
  | .copy o | .createFragment o _ _ => [o]
  | .assign i o | .addAtEndBuffer i o => [i, o]
  | .destroy i | .addAtStart i _ | .addAtEnd i _ | .removeAtStart i _ | .removeAtEnd i _ | .write i _ _ => [i]

namespace Buffers

open Buffer

def owners (s : Buffers) : List Buffer := (live s.handles).map (·.buffer)

def rest (s : Buffers) (i : Nat) : List Buffer := (live (s.handles.set i none)).map (·.buffer)

/-- Bytes to be written are in what was just added. -/
def Covers (added : Option (Nat × Nat)) (offset length : Nat) : Prop :=
  match added with
  | some (first, n) => first ≤ offset ∧ offset + length ≤ first + n
  | none => False

/-- What the callers promise: sizes below 2^31, another buffer to append, a fragment of
what is there, and bytes written where they were just added. -/
def Allowed (s : Buffers) : BufferEvent → Prop
  | .create n => n < 2147483648
  | .createFragment o start length => ∀ b, s.buffer o = some b → start + length ≤ b.getSize
  | .addAtStart i n | .addAtEnd i n => ∀ b, s.buffer i = some b → b.getSize + n < 2147483648
  | .addAtEndBuffer i o =>
    i ≠ o ∧ ∀ b, s.buffer i = some b → ∀ ob, s.buffer o = some ob → b.getSize + ob.getSize < 2147483648
  | .removeAtStart _ n => n < 2147483648
  | .write i offset bytes => ∀ h, s.handle i = some h → Covers h.added offset bytes.length
  | .copy _ | .assign .. | .destroy _ | .removeAtEnd .. => True

def Plain (s : Buffers) : BufferEvent → Prop
  | .addAtEndBuffer i o => ∀ b, s.buffer i = some b → ∀ ob, s.buffer o = some ob →
      ∀ d, s.heap.pool.block b.data = some d → Appendable d b ob
  | _ => True

def Condition (s : Buffers) (e : BufferEvent) : Prop := Allowed s e ∧ Plain s e

/-! ## The state -/

/-- The place of bytes that were just added: beside the zero area, and out of reach of
all others. -/
structure Fresh (s : Buffers) (i : Nat) (b : Buffer) (first n : Nat) : Prop where
  beside : first + n ≤ b.zeroAreaStart - b.start ∨ b.zeroAreaEnd ≤ b.start + first ∧ b.start + first + n ≤ b.stop
  apart : ∀ j h, j ≠ i → s.handle j = some h → h.buffer.data = b.data →
    ∀ x, (b.iterAt (b.start + first)).target ≤ x → x < (b.iterAt (b.start + first)).target + n → ¬ Inside h.buffer x

structure Good (s : Buffers) : Prop where
  inv : Inv s.heap s.owners
  fresh : ∀ i h first n, s.handle i = some h → h.added = some (first, n) → Fresh s i h.buffer first n

section
variable {s : Buffers} {i o j : Nat} {h h' : BufferHandle} {m : BufferHeap} {b : Buffer}

theorem owners_perm (hi : s.handle i = some h) : s.owners.Perm (h.buffer :: s.rest i) :=
  (live_perm hi).map BufferHandle.buffer

theorem owners_set (hi : s.handle i = some h) (m : BufferHeap) (h' : BufferHandle) :
    (s.set i m (some h')).owners.Perm (h'.buffer :: s.rest i) := (live_set hi h').map BufferHandle.buffer

theorem owners_push (s : Buffers) (m : BufferHeap) (b : Buffer) : (s.push m b).owners.Perm (b :: s.owners) :=
  (live_push s.handles _).map BufferHandle.buffer

theorem mem_rest (hi : s.handle i = some h) (hne : j ≠ i) (hj : s.handle j = some h') : h'.buffer ∈ s.rest i :=
  List.mem_map_of_mem ((Handles.mem_rest hi).2 ⟨j, hne, hj⟩)

theorem mem_owners (hi : s.handle i = some h) : h.buffer ∈ s.owners := List.mem_map_of_mem (mem_live.2 ⟨i, hi⟩)

theorem handle_set (hi : s.handle i = some h) (m : BufferHeap) (v : Option BufferHandle) (j : Nat) :
    (s.set i m v).handle j = if j = i then v else s.handle j := get_set hi v j

theorem handle_push (s : Buffers) (m : BufferHeap) (b : Buffer) (j : Nat) :
    (s.push m b).handle j = if j = s.handles.length then some ⟨b, none⟩ else s.handle j := get_push s.handles _ j

theorem buffer_eq (hb : s.buffer i = some b) : ∃ h, s.handle i = some h ∧ h.buffer = b := map_eq_some_iff.1 hb

theorem Fresh.inside {first n x : Nat} (hf : Fresh s i b first n) (hoffsets : b.start ≤ b.zeroAreaStart ∧ b.zeroAreaStart ≤ b.zeroAreaEnd ∧ b.zeroAreaEnd ≤ b.stop)
    (hlow : (b.iterAt (b.start + first)).target ≤ x) (hhigh : x < (b.iterAt (b.start + first)).target + n) : Inside b x := by
  obtain ⟨h₁, h₂, h₃⟩ := hoffsets
  simp only [Inside, getInternalEnd]
  rcases hf.beside with hin | ⟨hle, hin⟩
  · rw [target_front (by omega)] at hlow hhigh
    omega
  · rw [target_back h₂ hle] at hlow hhigh
    omega

/-! ## Families -/

def bytesAt (m : BufferHeap) (h : BufferHandle) : Option Bytes := (contentAt m h.buffer).map BufferContent.bytes

theorem view_eq (s : Buffers) : s.view = Handles.view (bytesAt s.heap) s.handles := by
  refine map_congr_left fun x _ => congrArg x.bind (funext fun h => ?_)
  rw [bytesAt, contentAt, Pool.view]
  cases s.heap.pool.block h.buffer.data with
  | none => rfl
  | some d => rfl

theorem view_set {bytes : Bytes} (hi : s.handle i = some h) (hsame : ∀ c ∈ s.rest i, contentAt m c = contentAt s.heap c)
    (hself : bytesAt m h' = some bytes) : (s.set i m (some h')).view = s.view.set i (some bytes) := by
  rw [view_eq, view_eq, ← hself]
  exact Handles.view_set hi (some h') fun j g hne hj => congrArg _ (hsame _ (mem_rest hi hne hj))

theorem view_clear (hi : s.handle i = some h) (hsame : ∀ c ∈ s.rest i, contentAt m c = contentAt s.heap c) :
    (s.set i m none).view = s.view.set i none := by
  rw [view_eq, view_eq]
  exact Handles.view_set hi none fun j g hne hj => congrArg _ (hsame _ (mem_rest hi hne hj))

theorem view_push {bytes : Bytes} (hsame : ∀ c ∈ s.owners, contentAt m c = contentAt s.heap c)
    (hself : bytesAt m ⟨b, none⟩ = some bytes) : (s.push m b).view = s.view ++ [some bytes] := by
  rw [view_eq, view_eq, ← hself]
  exact Handles.view_push s.handles ⟨b, none⟩ fun j g hj => congrArg _ (hsame _ (mem_owners hj))

theorem get_view (hi : s.handle i = some h) : get s.view i = bytesAt s.heap h := by
  rw [view_eq, Handles.get_view]
  exact congrArg (Option.bind · _) hi

theorem Good.set (hgood : Good s) (hi : s.handle i = some h) (hinv : Inv m (h'.buffer :: s.rest i))
    (hothers : ∀ j g first n, j ≠ i → s.handle j = some g → g.added = some (first, n) → h'.buffer.data = g.buffer.data →
      ∀ x, (g.buffer.iterAt (g.buffer.start + first)).target ≤ x → x < (g.buffer.iterAt (g.buffer.start + first)).target + n →
        ¬ Inside h'.buffer x) (hself : ∀ first n, h'.added = some (first, n) →
      (first + n ≤ h'.buffer.zeroAreaStart - h'.buffer.start ∨
        h'.buffer.zeroAreaEnd ≤ h'.buffer.start + first ∧ h'.buffer.start + first + n ≤ h'.buffer.stop) ∧
      Apart h'.buffer (s.rest i) (h'.buffer.iterAt (h'.buffer.start + first)).target n) :
    Good (s.set i m (some h')) where
  inv := hinv.perm (owners_set hi m h').symm
  fresh j g first n hj hadded := by
    rw [handle_set hi] at hj
    by_cases heq : j = i
    · subst heq
      rw [if_pos rfl] at hj
      cases hj
      obtain ⟨hbeside, hapart⟩ := hself first n hadded
      refine ⟨hbeside, fun k g' hne hk hdata => ?_⟩
      rw [handle_set hi, if_neg hne] at hk
      exact hapart _ (mem_rest hi hne hk) hdata
    · rw [if_neg heq] at hj
      have hold := hgood.fresh j g first n hj hadded
      refine ⟨hold.beside, fun k g' hne hk hdata => ?_⟩
      rw [handle_set hi] at hk
      by_cases hki : k = i
      · rw [if_pos hki] at hk
        cases hk
        exact hothers j g first n heq hj hadded hdata
      · rw [if_neg hki] at hk
        exact hold.apart k g' hne hk hdata

theorem Good.update (hgood : Good s) (hi : s.handle i = some h) (hchanged : Changed s.heap h.buffer m h'.buffer (s.rest i))
    (hself : ∀ first n, h'.added = some (first, n) → (first + n ≤ h'.buffer.zeroAreaStart - h'.buffer.start ∨
        h'.buffer.zeroAreaEnd ≤ h'.buffer.start + first ∧ h'.buffer.start + first + n ≤ h'.buffer.stop) ∧
      Apart h'.buffer (s.rest i) (h'.buffer.iterAt (h'.buffer.start + first)).target n) :
    Good (s.set i m (some h')) := by
  refine hgood.set hi hchanged.inv (fun j g first n hne hj hadded hdata x hlow hhigh hin => ?_) hself
  have hold := hgood.fresh j g first n hj hadded
  have hinside := hold.inside (hgood.inv.offsets (mem_owners hj)) hlow hhigh
  obtain ⟨heq, hinb⟩ := hchanged.apart g.buffer (mem_rest hi hne hj) hdata.symm x hinside hin
  exact hold.apart i h (Ne.symm hne) hi (heq.trans hdata) x hlow hhigh hinb

theorem Good.push (hgood : Good s) (hinv : Inv m (b :: s.owners)) (hsource : b.data ∉ s.owners.map (·.data) ∨
      ∃ o g, s.handle o = some g ∧ g.added = none ∧ g.buffer.data = b.data ∧ ∀ x, Inside b x → Inside g.buffer x) :
    Good (s.push m b) where
  inv := hinv.perm (owners_push s m b).symm
  fresh j g first n hj hadded := by
    rw [handle_push] at hj
    by_cases heq : j = s.handles.length
    · rw [if_pos heq] at hj
      cases hj
      cases hadded
    · rw [if_neg heq] at hj
      have hold := hgood.fresh j g first n hj hadded
      refine ⟨hold.beside, fun k g' hne hk hdata x hlow hhigh hin => ?_⟩
      rw [handle_push] at hk
      by_cases hkl : k = s.handles.length
      · rw [if_pos hkl] at hk
        cases hk
        rcases hsource with hnot | ⟨o, go, ho, hnone, hodata, hsub⟩
        · exact hnot (hdata ▸ mem_data (mem_owners hj))
        · have hoj : o ≠ j := by
            rintro rfl
            cases ho.symm.trans hj
            rw [hnone] at hadded
            cases hadded
          exact hold.apart o go hoj ho (hodata.trans hdata) x hlow hhigh (hsub x hin)
      · rw [if_neg hkl] at hk
        exact hold.apart k g' hne hk hdata x hlow hhigh hin

theorem Good.destroy (hgood : Good s) (hi : s.handle i = some h) (hinv : Inv m (s.rest i)) : Good (s.set i m none) where
  inv := hinv
  fresh j g first n hj hadded := by
    rw [handle_set hi] at hj
    by_cases heq : j = i
    · rw [if_pos heq] at hj
      cases hj
    · rw [if_neg heq] at hj
      have hold := hgood.fresh j g first n hj hadded
      refine ⟨hold.beside, fun k g' hne hk => ?_⟩
      rw [handle_set hi] at hk
      by_cases hki : k = i
      · rw [if_pos hki] at hk
        cases hk
      · rw [if_neg hki] at hk
        exact hold.apart k g' hne hk

theorem Good.refl (hgood : Good s) (hi : s.handle i = some h) : Changed s.heap h.buffer s.heap h.buffer (s.rest i) :=
  (hgood.inv.perm (owners_perm hi)).shrink rfl (fun _ _ => id) fun _ => id

theorem settle_eq (hi : s.handle i = some h) : s.settle i = s.set i s.heap (some { h with added := none }) := by
  have hentry : s.handles[i]? = some (some h) := join_eq_some_iff.1 hi
  refine congrArg _ (ext_getElem? fun j => ?_)
  rw [getElem?_modify, getElem?_set]
  by_cases heq : i = j
  · subst heq
    rw [if_pos rfl, if_pos (lt_of_get hi), hentry]
    exact congrArg some (if_pos rfl)
  · simp [if_neg heq]

theorem Good.settle (hgood : Good s) (hi : s.handle i = some h) : Good (s.settle i) ∧ (s.settle i).view = s.view ∧
    (s.settle i).handle i = some { h with added := none } ∧ ∀ j, j ≠ i → (s.settle i).handle j = s.handle j := by
  rw [settle_eq hi]
  refine ⟨hgood.update hi (hgood.refl hi) (fun _ _ heq => nomatch heq), ?_, ?_, fun j hne => ?_⟩
  · have hread : bytesAt s.heap { h with added := none } = get s.view i := (get_view hi).symm
    obtain ⟨c, hc, -⟩ := hgood.inv.contentAt (mem_owners hi)
    have hbytes : bytesAt s.heap h = some c.bytes := by rw [bytesAt, hc]; rfl
    rw [view_set hi (fun _ _ => rfl) (hread.trans ((get_view hi).trans hbytes))]
    refine ext_getElem? fun j => ?_
    rw [getElem?_set]
    by_cases heq : i = j
    · subst heq
      have hget := (get_view hi).trans hbytes
      rw [if_pos rfl, if_pos (lt_of_get hget), join_eq_some_iff.1 hget]
    · rw [if_neg heq]
  · rw [handle_set hi, if_pos rfl]
  · rw [handle_set hi, if_neg hne]

/-! ## Steps -/

def Simulated (raw : Nat → BufferData) (s : Buffers) (e : BufferEvent) : Prop :=
  ∃ s', (machine raw).step s e = some (s', []) ∧ Good s' ∧ Step s.view e s'.view

theorem Good.reads (hgood : Good s) (hi : s.handle i = some h) : ∃ c, contentAt s.heap h.buffer = some c ∧
    c.bytes.length = h.buffer.getSize ∧ get s.view i = some c.bytes ∧ Inv s.heap (h.buffer :: s.rest i) := by
  obtain ⟨c, hc, hlength⟩ := hgood.inv.contentAt (mem_owners hi)
  refine ⟨c, hc, hlength, ?_, hgood.inv.perm (owners_perm hi)⟩
  rw [get_view hi, bytesAt, hc]
  rfl

theorem bytesAt_eq {c : BufferContent} (hc : contentAt m h.buffer = some c) : bytesAt m h = some c.bytes := by
  rw [bytesAt, hc]
  rfl

theorem buffer_of (hi : s.handle i = some h) : s.buffer i = some h.buffer := congrArg (Option.map _) hi

section
variable (raw : Nat → BufferData)

theorem create_step (hgood : Good s) {n : Nat} (hn : n < 2147483648) : Simulated raw s (.create n) := by
  obtain ⟨m, b, hcall, hinv, hnot, hview, hc⟩ := initialized_spec raw hgood.inv hn
  refine ⟨s.push m b, congrArg (Option.map _) hcall, hgood.push hinv (.inl hnot), ?_⟩
  rw [view_push (fun c hc => contentAt_congr (hview c hc)) (bytesAt_eq hc)]
  simp only [BufferContent.bytes, nil_append, append_nil]
  exact .create n

theorem copy_step (hgood : Good s) (ho : s.handle o = some h) : Simulated raw s (.copy o) := by
  obtain ⟨hsettled, hsame, ht, -⟩ := hgood.settle ho
  obtain ⟨c, hc, -, hget, -⟩ := hsettled.reads ht
  obtain ⟨m, hcall, hinv, hview⟩ := copy_spec hsettled.inv (mem_owners ht)
  refine ⟨(s.settle o).push m h.buffer.copied, ?_, hsettled.push hinv (.inr ⟨o, _, ht, rfl, rfl, fun _ => id⟩), ?_⟩
  · have hcopy : copy s.heap h.buffer = some (m, h.buffer.copied) := hcall
    simp only [machine, buffer_of ho, bind_some, hcopy, map_some]
  · have hread : bytesAt m ⟨h.buffer.copied, none⟩ = some c.bytes := bytesAt_eq ((contentAt_congr (b := h.buffer) (hview _)).trans hc)
    rw [view_push (fun c _ => contentAt_congr (hview _)) hread, ← hsame]
    exact .copy hget

theorem destroy_step (hgood : Good s) (hi : s.handle i = some h) : Simulated raw s (.destroy i) := by
  obtain ⟨c, hc, -, hget, hinv⟩ := hgood.reads hi
  obtain ⟨m, hcall, hinv', hview⟩ := destroy_spec hinv
  refine ⟨s.set i m none, ?_, hgood.destroy hi hinv', ?_⟩
  · simp only [machine, buffer_of hi, bind_some, hcall, map_some]
  · rw [view_clear hi fun c hc => contentAt_congr (hview c hc)]
    exact .destroy hget

theorem assign_step (hgood : Good s) (hi : s.handle i = some h) (ho : s.handle o = some h') : Simulated raw s (.assign i o) := by
  obtain ⟨hsettled, hsame, ht, hothers⟩ := hgood.settle ho
  obtain ⟨k, hk, hbuffer⟩ : ∃ k, (s.settle o).handle i = some k ∧ k.buffer = h.buffer := by
    by_cases heq : i = o
    · subst heq
      cases hi.symm.trans ho
      exact ⟨_, ht, rfl⟩
    · exact ⟨h, (hothers i heq).trans hi, rfl⟩
  obtain ⟨co, hco, -, hgeto, -⟩ := hsettled.reads ht
  obtain ⟨c, hc, -, hget, hinv⟩ := hsettled.reads hk
  obtain ⟨m, hcall, hinv', hview⟩ := assign_spec hinv ((owners_perm hk).mem_iff.1 (mem_owners ht))
  refine ⟨(s.settle o).set i m (some ⟨h'.buffer, none⟩), ?_,
    hsettled.set hk hinv' (fun j g first n hne hj hadded hdata x hlow hhigh => ?_) (fun _ _ heq => nomatch heq), ?_⟩
  · have hassign : assign s.heap h.buffer h'.buffer = some (m, h'.buffer) := by
      rw [← hbuffer]
      exact hcall
    simp only [machine, buffer_of hi, buffer_of ho, bind_some, hassign, map_some]
  · have hoj : o ≠ j := by
      rintro rfl
      cases ht.symm.trans hj
      cases hadded
    exact (hsettled.fresh j g first n hj hadded).apart o _ hoj ht hdata x hlow hhigh
  · have hread : bytesAt m ⟨h'.buffer, none⟩ = some co.bytes :=
      bytesAt_eq ((contentAt_congr (hview h'.buffer mem_cons_self)).trans hco)
    rw [view_set hk (fun c hc => contentAt_congr (hview c (mem_cons_of_mem _ hc))) hread, ← hsame]
    exact .assign hget hgeto

theorem data_removeAtStart (b : Buffer) (n : Nat) : (b.removeAtStart n).data = b.data := by
  simp only [removeAtStart]
  split_ifs
  all_goals rfl

theorem data_removeAtEnd (b : Buffer) (n : Nat) : (b.removeAtEnd n).data = b.data := by
  simp only [removeAtEnd]
  split_ifs
  all_goals rfl

theorem removed {l : List Buffer} (hinv : Inv m l) (hb : b ∈ l) {b' : Buffer} (hdata : b'.data = b.data) {f : Bytes → Bytes}
    (hspec : ∀ v top, Placed v top b → ∀ d, (b'.content d).bytes = f (b.content d).bytes) {c : BufferContent}
    (hc : contentAt m b = some c) : ∃ c', contentAt m b' = some c' ∧ c'.bytes = f c.bytes := by
  obtain ⟨d, top, -, hv, -, -, htop⟩ := hinv.owned hb
  cases (contentAt_eq hv).symm.trans hc
  exact ⟨_, contentAt_eq (hdata ▸ hv), hspec _ _ (htop b hb rfl) d.body⟩

theorem remove_step (hgood : Good s) (hi : s.handle i = some h) {e : BufferEvent} {b' : Buffer} (hdata : b'.data = h.buffer.data)
    {f : Bytes → Bytes}
    (hspec : ∀ v top, Placed v top h.buffer → Placed v top b' ∧ (∀ x, Inside b' x → Inside h.buffer x) ∧
      ∀ d, (b'.content d).bytes = f (h.buffer.content d).bytes)
    (hcall : (machine raw).step s e = some (s.set i s.heap (some ⟨b', none⟩), []))
    (hstep : ∀ l, get s.view i = some l → l.length = h.buffer.getSize → Step s.view e (s.view.set i (some (f l)))) :
    Simulated raw s e := by
  obtain ⟨c, hc, hlength, hget, hinv⟩ := hgood.reads hi
  obtain ⟨c', hc', hbytes⟩ := removed hinv mem_cons_self hdata (fun v top hp => (hspec v top hp).2.2) hc
  obtain ⟨d, top, -, hv, -, -, htop⟩ := hinv.owned mem_cons_self
  have hin := (hspec _ _ (htop _ mem_cons_self rfl)).2.1
  refine ⟨_, hcall, hgood.update hi (hinv.shrink hdata (fun v top hp => (hspec v top hp).1) hin)
    (fun _ _ heq => nomatch heq), ?_⟩
  rw [view_set hi (fun _ _ => rfl) (bytesAt_eq hc'), hbytes]
  exact hstep _ hget hlength

theorem removeAtStart_step (hgood : Good s) (hi : s.handle i = some h) (n : Nat) : Simulated raw s (.removeAtStart i n) := by
  refine remove_step raw hgood hi (data_removeAtStart _ n) (fun v top hp => removeAtStart_spec hp n) ?_
    fun l hl _ => .removeAtStart hl
  simp only [machine, buffer_of hi, map_some]

theorem removeAtEnd_step (hgood : Good s) (hi : s.handle i = some h) (n : Nat) : Simulated raw s (.removeAtEnd i n) := by
  refine remove_step raw hgood hi (f := fun l => l.take (h.buffer.getSize - n)) (data_removeAtEnd _ n)
    (fun v top hp => removeAtEnd_spec hp n) ?_ fun l hl hlength => ?_
  · simp only [machine, buffer_of hi, map_some]
  · rw [← hlength]
    exact .removeAtEnd hl

theorem createFragment_step (hgood : Good s) (ho : s.handle o = some h) {start length : Nat}
    (hin : start + length ≤ h.buffer.getSize) : Simulated raw s (.createFragment o start length) := by
  obtain ⟨hsettled, hsame, ht, -⟩ := hgood.settle ho
  obtain ⟨c, hc, hlength, hget, -⟩ := hsettled.reads ht
  obtain ⟨m, hcall, hinv, hview⟩ := copy_spec hsettled.inv (mem_owners ht)
  have hcopied : contentAt m h.buffer.copied = some c := (contentAt_congr (b := h.buffer) (hview _)).trans hc
  obtain ⟨d, top, -, hv, -, -, htop⟩ := hinv.owned mem_cons_self
  have hplaced := htop _ mem_cons_self rfl
  have hsize : sub32 h.buffer.getSize (start + length) = h.buffer.getSize - (start + length) := by
    have hsmall := hplaced.small
    simp only [copied] at hsmall
    simp only [sub32, getSize] at hin ⊢
    lia
  -- first the start of the copy goes, then its end
  obtain ⟨hplaced₁, hin₁, hbytes₁⟩ := removeAtStart_spec hplaced start
  obtain ⟨hplaced₂, hin₂, hbytes₂⟩ := removeAtEnd_spec hplaced₁ (h.buffer.getSize - (start + length))
  have hdata : ((h.buffer.copied.removeAtStart start).removeAtEnd (h.buffer.getSize - (start + length))).data = h.buffer.copied.data :=
    (data_removeAtEnd _ _).trans (data_removeAtStart _ _)
  have hleft : (h.buffer.copied.removeAtStart start).getSize = c.bytes.length - start := by
    rw [← length_bytes hplaced₁ d.body, hbytes₁, length_drop]
    cases (contentAt_eq hv).symm.trans hcopied
    rfl
  have hshrunk := hinv.shrink hdata (fun v top hp => (removeAtEnd_spec (removeAtStart_spec hp start).1 _).1)
    fun x hx => hin₁ x (hin₂ x hx)
  obtain ⟨c', hc', hbytes⟩ := removed hinv mem_cons_self hdata
    (f := fun l => (l.drop start).take (c.bytes.length - start - (h.buffer.getSize - (start + length))))
    (fun v top hp e => by
      obtain ⟨hp₁, -, he₁⟩ := removeAtStart_spec hp start
      rw [(removeAtEnd_spec hp₁ _).2.2 e, he₁ e, hleft]) hcopied
  have hkept : c.bytes.length - start - (h.buffer.getSize - (start + length)) = length := by
    rw [hlength]
    show h.buffer.getSize - start - (h.buffer.getSize - (start + length)) = length
    omega
  rw [hkept] at hbytes
  refine ⟨(s.settle o).push m ((h.buffer.copied.removeAtStart start).removeAtEnd (h.buffer.getSize - (start + length))), ?_,
    hsettled.push hshrunk.inv (.inr ⟨o, _, ht, rfl, hdata.symm, fun x hx => hin₁ x (hin₂ x hx)⟩), ?_⟩
  · have hcopy : copy s.heap h.buffer = some (m, h.buffer.copied) := hcall
    simp only [machine, buffer_of ho, bind_some, createFragment, hcopy, map_some, hsize]
  · have hread : bytesAt m ⟨(h.buffer.copied.removeAtStart start).removeAtEnd (h.buffer.getSize - (start + length)), none⟩ =
        some c'.bytes := bytesAt_eq (h := ⟨_, none⟩) hc'
    rw [view_push (fun c _ => contentAt_congr (hview _)) hread, hbytes, ← hsame]
    exact .createFragment hget

theorem addAtStart_step (hgood : Good s) (hi : s.handle i = some h) {n : Nat} (hsize : h.buffer.getSize + n < 2147483648) :
    Simulated raw s (.addAtStart i n) := by
  obtain ⟨c, hc, -, hget, hinv⟩ := hgood.reads hi
  obtain ⟨m, b, c', fresh, hcall, hchanged, hc', hfresh, hcontent, hapart⟩ := addAtStart_spec raw hinv hsize
  obtain rfl := Option.some.inj (hc'.symm.trans hc)
  obtain ⟨h₁, h₂, h₃⟩ := hchanged.inv.offsets mem_cons_self
  have hfront := (length_contentAt hcontent).1
  rw [length_append, hfresh] at hfront
  refine ⟨s.set i m (some ⟨b, some (0, n)⟩), ?_, hgood.update hi hchanged ?_, ?_⟩
  · simp only [machine, buffer_of hi, bind_some, hcall, map_some]
  · intro first k heq
    cases heq
    refine ⟨.inl (by simp only; omega), ?_⟩
    rw [target_front (by simp only; omega)]
    exact hapart
  · have hread : bytesAt m ⟨b, some (0, n)⟩ = some (fresh ++ c'.bytes) := by
      rw [bytesAt_eq (h := ⟨b, some (0, n)⟩) hcontent]
      simp only [BufferContent.bytes, append_assoc]
    rw [view_set hi hchanged.same hread]
    exact .addAtStart hget hfresh

theorem addAtEnd_step (hgood : Good s) (hi : s.handle i = some h) {n : Nat} (hsize : h.buffer.getSize + n < 2147483648) :
    Simulated raw s (.addAtEnd i n) := by
  obtain ⟨c, hc, -, hget, hinv⟩ := hgood.reads hi
  obtain ⟨m, b, c', fresh, hcall, hchanged, hc', hfresh, hcontent, hapart, -⟩ := addAtEnd_spec raw hinv hsize
  obtain rfl := Option.some.inj (hc'.symm.trans hc)
  obtain ⟨h₁, h₂, h₃⟩ := hchanged.inv.offsets mem_cons_self
  have hback := (length_contentAt hcontent).2.2
  rw [length_append, hfresh] at hback
  refine ⟨s.set i m (some ⟨b, some (b.getSize - n, n)⟩), ?_, hgood.update hi hchanged ?_, ?_⟩
  · simp only [machine, buffer_of hi, bind_some, hcall, map_some]
  · intro first k heq
    cases heq
    refine ⟨.inr (by simp only [getSize]; omega), fun e he hdata x hlow hhigh => hapart e he hdata x ?_ ?_⟩
    · rw [target_back h₂ (by simp only [getSize]; omega)] at hlow
      simp only [getSize, getInternalEnd] at hlow ⊢
      omega
    · rw [target_back h₂ (by simp only [getSize]; omega)] at hhigh
      simp only [getSize, getInternalEnd] at hhigh ⊢
      lia
  · have hread : bytesAt m ⟨b, some (b.getSize - n, n)⟩ = some (c'.bytes ++ fresh) := by
      rw [bytesAt_eq (h := ⟨b, some (b.getSize - n, n)⟩) hcontent]
      simp only [BufferContent.bytes, append_assoc]
    rw [view_set hi hchanged.same hread]
    exact .addAtEnd hget hfresh

theorem addAtEndBuffer_step (hgood : Good s) (hi : s.handle i = some h) (ho : s.handle o = some h') (hne : i ≠ o)
    {d : Block BufferData} (hd : s.heap.pool.block h.buffer.data = some d) (happend : Appendable d h.buffer h'.buffer)
    (hsize : h.buffer.getSize + h'.buffer.getSize < 2147483648) : Simulated raw s (.addAtEndBuffer i o) := by
  obtain ⟨c, hc, -, hget, hinv⟩ := hgood.reads hi
  obtain ⟨co, hco, -, hgeto, -⟩ := hgood.reads ho
  obtain ⟨m, b, c', hcall, hchanged, hc', hbytes⟩ :=
    addAtEndBuffer_spec raw hinv hd (mem_rest hi (Ne.symm hne) ho) happend hc hco hsize
  refine ⟨s.set i m (some ⟨b, none⟩), ?_, hgood.update hi hchanged (fun _ _ heq => nomatch heq), ?_⟩
  · simp only [machine, buffer_of hi, buffer_of ho, bind_some, hcall, map_some]
  · rw [view_set hi hchanged.same (bytesAt_eq (h := ⟨b, none⟩) hc'), hbytes]
    exact .addAtEndBuffer hget hgeto

theorem write_step (hgood : Good s) (hi : s.handle i = some h) {first n offset : Nat} {bytes : Bytes}
    (hadded : h.added = some (first, n)) (hfirst : first ≤ offset) (hlast : offset + bytes.length ≤ first + n) :
    Simulated raw s (.write i offset bytes) := by
  obtain ⟨c, hc, -, hget, hinv⟩ := hgood.reads hi
  obtain ⟨h₁, h₂, h₃⟩ := hinv.offsets mem_cons_self
  have hfresh := hgood.fresh i h first n hi hadded
  have hapart : Apart h.buffer (s.rest i) (h.buffer.iterAt (h.buffer.start + first)).target n := by
    intro e he hdata
    obtain ⟨g, hg, rfl⟩ := List.mem_map.1 he
    obtain ⟨j, hne, hj⟩ := (Handles.mem_rest hi).1 hg
    exact hfresh.apart j g hne hj hdata
  have htarget : (h.buffer.iterAt (h.buffer.start + offset)).target =
      (h.buffer.iterAt (h.buffer.start + first)).target + (offset - first) ∨ bytes.length = 0 := by
    rcases hfresh.beside with hin | ⟨hle, hin⟩
    · rw [target_front (by omega), target_front (by omega)]
      omega
    · rw [target_back h₂ (by omega), target_back h₂ hle]
      omega
  have hregion : Apart h.buffer (s.rest i) (h.buffer.iterAt (h.buffer.start + offset)).target bytes.length :=
    fun e he hdata x hlow hhigh => hapart e he hdata x (by omega) (by omega)
  obtain ⟨m, c', hnext, hcall, hchanged, hc', hbytes⟩ := write_spec hinv hc
    (by have hbeside := hfresh.beside; omega) hregion
  refine ⟨s.set i m (some h), ?_, hgood.update hi hchanged ?_, ?_⟩
  · simp only [machine, hi, bind_some, hnext, hcall, map_some]
  · intro first' n' heq
    cases hadded.symm.trans heq
    exact ⟨hfresh.beside, hapart⟩
  · rw [view_set hi hchanged.same (bytesAt_eq hc'), hbytes]
    exact .write hget

/-- **Steps.** While the condition is met, each operation on buffers that exist is
possible, and does to the lists what it is for. -/
theorem step_spec (hgood : Good s) : (e : BufferEvent) → Condition s e → (∀ i ∈ e.operands, ∃ h, s.handle i = some h) →
    Simulated raw s e
  | .create n, hc, _ => create_step raw hgood hc.1
  | .copy o, _, hlive => by
    obtain ⟨h, ho⟩ := hlive o mem_cons_self
    exact copy_step raw hgood ho
  | .assign i o, _, hlive => by
    obtain ⟨h, hi⟩ := hlive i mem_cons_self
    obtain ⟨h', ho⟩ := hlive o (mem_cons_of_mem _ mem_cons_self)
    exact assign_step raw hgood hi ho
  | .destroy i, _, hlive => by
    obtain ⟨h, hi⟩ := hlive i mem_cons_self
    exact destroy_step raw hgood hi
  | .createFragment o start length, hc, hlive => by
    obtain ⟨h, ho⟩ := hlive o mem_cons_self
    exact createFragment_step raw hgood ho (hc.1 _ (buffer_of ho))
  | .addAtStart i n, hc, hlive => by
    obtain ⟨h, hi⟩ := hlive i mem_cons_self
    exact addAtStart_step raw hgood hi (hc.1 _ (buffer_of hi))
  | .addAtEnd i n, hc, hlive => by
    obtain ⟨h, hi⟩ := hlive i mem_cons_self
    exact addAtEnd_step raw hgood hi (hc.1 _ (buffer_of hi))
  | .addAtEndBuffer i o, ⟨hallowed, hplain⟩, hlive => by
    obtain ⟨h, hi⟩ := hlive i mem_cons_self
    obtain ⟨h', ho⟩ := hlive o (mem_cons_of_mem _ mem_cons_self)
    obtain ⟨d, -, hd, -⟩ := hgood.inv.owned (mem_owners hi)
    exact addAtEndBuffer_step raw hgood hi ho hallowed.1 hd (hplain _ (buffer_of hi) _ (buffer_of ho) d hd)
      (hallowed.2 _ (buffer_of hi) _ (buffer_of ho))
  | .removeAtStart i n, _, hlive => by
    obtain ⟨h, hi⟩ := hlive i mem_cons_self
    exact removeAtStart_step raw hgood hi n
  | .removeAtEnd i n, _, hlive => by
    obtain ⟨h, hi⟩ := hlive i mem_cons_self
    exact removeAtEnd_step raw hgood hi n
  | .write i offset bytes, hc, hlive => by
    obtain ⟨h, hi⟩ := hlive i mem_cons_self
    have hallowed := hc.1 h hi
    cases hadded : h.added with
    | none =>
      rw [hadded] at hallowed
      cases hallowed
    | some p =>
      rw [hadded] at hallowed
      exact write_step raw hgood hi hadded hallowed.1 hallowed.2

theorem exists_of_bind {β : Type} {f : Buffer → Option β} {r : β} (hbind : (s.buffer i).bind f = some r) :
    ∃ h, s.handle i = some h := by
  obtain ⟨b, hb, -⟩ := bind_eq_some_iff.1 hbind
  obtain ⟨h, hi, -⟩ := buffer_eq hb
  exact ⟨h, hi⟩

theorem exists_of_map {β : Type} {f : Buffer → β} {r : β} (hmap : (s.buffer i).map f = some r) :
    ∃ h, s.handle i = some h := by
  obtain ⟨b, hb, -⟩ := map_eq_some_iff.1 hmap
  obtain ⟨h, hi, -⟩ := buffer_eq hb
  exact ⟨h, hi⟩

theorem operands_of_step {r : Buffers × List Unit} : (e : BufferEvent) → (machine raw).step s e = some r →
    ∀ i ∈ e.operands, ∃ h, s.handle i = some h
  | .create _, _ => fun i hi => nomatch hi
  | .copy o, hcall | .createFragment o _ _, hcall => by
    simp only [BufferEvent.operands, List.forall_mem_singleton]
    exact exists_of_bind hcall
  | .destroy i, hcall | .addAtStart i _, hcall | .addAtEnd i _, hcall => by
    simp only [BufferEvent.operands, List.forall_mem_singleton]
    exact exists_of_bind hcall
  | .removeAtStart i _, hcall | .removeAtEnd i _, hcall => by
    simp only [BufferEvent.operands, List.forall_mem_singleton]
    exact exists_of_map hcall
  | .assign i o, hcall | .addAtEndBuffer i o, hcall => by
    simp only [BufferEvent.operands, List.forall_mem_cons, List.not_mem_nil, false_imp_iff, implies_true, and_true]
    obtain ⟨b, -, hcall'⟩ := bind_eq_some_iff.1 hcall
    exact ⟨exists_of_bind hcall, exists_of_bind hcall'⟩
  | .write i _ _, hcall => by
    simp only [BufferEvent.operands, forall_mem_singleton]
    obtain ⟨h, hi, -⟩ := bind_eq_some_iff.1 hcall
    exact ⟨h, hi⟩

theorem good_start : Good {} where
  inv := ⟨⟨fun _ => rfl, fun _ hp => (nomatch hp), nodup_nil, fun _ _ hb => (nomatch hb)⟩, fun _ _ hv => (nomatch hv)⟩
  fresh _ _ _ _ hi := nomatch hi

theorem Good.checks (hgood : Good s) (hb : s.buffer i = some b) :
    ∃ d, s.heap.pool.block b.data = some d ∧ checkInternalState d b := by
  obtain ⟨h, hi, rfl⟩ := buffer_eq hb
  have hmem := mem_owners hi
  obtain ⟨d, top, hd, -, -, hcount, htop⟩ := hgood.inv.owned hmem
  obtain ⟨h₁, h₂, h₃, h₄, h₅, h₆, h₇, -⟩ := htop _ hmem rfl
  simp only at h₄ h₅ h₇
  refine ⟨d, hd, ?_, ⟨h₁, h₂, h₃⟩, ⟨h₄, by omega⟩, by omega, by omega, by omega⟩
  rw [hcount]
  exact count_pos_iff.2 (mem_data hmem)

/-- **Buffers.** As long as the condition is met, each buffer is a list of bytes of its
own, in the state that the code checks for, and no operation on buffers that exist fails. -/
theorem buffers_independent {tr : List (BufferEvent × List Unit)} (hrun : Run (machine raw) Condition {} tr s) :
    Reaches (tr.map Prod.fst) s.view ∧
      (∀ i b, s.buffer i = some b → ∃ d, s.heap.pool.block b.data = some d ∧ checkInternalState d b) ∧
      ∀ e, Condition s e → (∀ i ∈ e.operands, (s.buffer i).isSome) → ((machine raw).step s e).isSome := by
  have hreached : Reaches (tr.map Prod.fst) s.view ∧ Good s := by
    have hstart : Reaches (([] : List (BufferEvent × List Unit)).map Prod.fst) (view {}) ∧ Good {} :=
      ⟨Reaches.nil, good_start⟩
    refine Run.invariant (fun tr s => Reaches (tr.map Prod.fst) s.view ∧ Good s) hstart ?_ hrun
    intro tr s e s' o ⟨hreaches, hgood⟩ hc hcall
    obtain ⟨s'', hcall', hgood', hstep⟩ := step_spec raw hgood e hc (operands_of_step raw e hcall)
    cases hcall.symm.trans hcall'
    rw [map_append]
    exact ⟨.snoc hreaches hstep, hgood'⟩
  refine ⟨hreached.1, fun i b hb => hreached.2.checks hb, fun e hc hlive => ?_⟩
  obtain ⟨s', hcall, -⟩ := step_spec raw hreached.2 e hc fun i hi => by
    obtain ⟨b, hb⟩ := isSome_iff_exists.1 (hlive i hi)
    obtain ⟨h, hh, -⟩ := buffer_eq hb
    exact ⟨h, hh⟩
  rw [hcall]
  rfl

end

end

scoped instance decidableSome {α : Type} (o : Option α) (p : α → Prop) [∀ a, Decidable (p a)] : Decidable (∀ a, o = some a → p a) :=
  match o with
  | none => .isTrue fun _ h => nomatch h
  | some a => decidable_of_iff (p a) ⟨fun h _ hb => Option.some.inj hb ▸ h, fun h => h a rfl⟩

instance (added : Option (Nat × Nat)) (offset length : Nat) : Decidable (Covers added offset length) :=
  match added with
  | some (first, n) => inferInstanceAs (Decidable (first ≤ offset ∧ offset + length ≤ first + n))
  | none => .isFalse id

instance (s : Buffers) : (e : BufferEvent) → Decidable (Allowed s e)
  | .create n => inferInstanceAs (Decidable (n < 2147483648))
  | .removeAtStart _ n => inferInstanceAs (Decidable (n < 2147483648))
  | .createFragment o start length => inferInstanceAs (Decidable (∀ b, s.buffer o = some b → start + length ≤ b.getSize))
  | .addAtStart i n | .addAtEnd i n => inferInstanceAs (Decidable (∀ b, s.buffer i = some b → b.getSize + n < 2147483648))
  | .addAtEndBuffer i o => inferInstanceAs (Decidable (i ≠ o ∧ ∀ b, s.buffer i = some b → ∀ ob, s.buffer o = some ob →
      b.getSize + ob.getSize < 2147483648))
  | .write i offset bytes => inferInstanceAs (Decidable (∀ h, s.handle i = some h → Covers h.added offset bytes.length))
  | .copy _ | .assign .. | .destroy _ | .removeAtEnd .. => .isTrue trivial

instance (s : Buffers) : (e : BufferEvent) → Decidable (Plain s e)
  | .addAtEndBuffer i o => inferInstanceAs (Decidable (∀ b, s.buffer i = some b → ∀ ob, s.buffer o = some ob →
      ∀ d, s.heap.pool.block b.data = some d → Appendable d b ob))
  | .create _ | .copy _ | .assign .. | .destroy _ | .createFragment .. | .addAtStart .. | .addAtEnd .. | .removeAtStart ..
  | .removeAtEnd .. | .write .. => .isTrue trivial

instance (s : Buffers) (e : BufferEvent) : Decidable (Condition s e) := inferInstanceAs (Decidable (Allowed s e ∧ Plain s e))

def rawMemory : Nat → BufferData := fun _ => ⟨0, 0, fun _ => 170⟩

/-- Two buffers that share bytes grow at both ends, and a fragment of one takes in the
other. -/
def sharedBytes : List BufferEvent :=
  [.create 4, .addAtStart 0 2, .write 0 0 [1, 2], .copy 0, .addAtEnd 0 2, .write 0 6 [3, 4], .addAtEnd 1 1, .write 1 6 [5],
    .createFragment 0 1 6, .addAtEndBuffer 2 1, .removeAtStart 1 3, .removeAtEnd 0 1, .assign 1 2, .destroy 0]

theorem sharedBytes_isSome : ((machine rawMemory).exec Condition {} sharedBytes).isSome := by
  decide +kernel

theorem sharedBytes_independent : ∃ tr s, Run (machine rawMemory) Condition {} tr s ∧
    s.view = [none, some [2, 0, 0, 0, 0, 3, 1, 2, 0, 0, 0, 0, 5], some [2, 0, 0, 0, 0, 3, 1, 2, 0, 0, 0, 0, 5]] ∧
    Reaches (tr.map Prod.fst) s.view := by
  have hrun := run_of_isSome (machine rawMemory) Condition {} sharedBytes sharedBytes_isSome
  exact ⟨_, _, hrun, by decide +kernel, (buffers_independent rawMemory hrun).1⟩

def byteBehindZeroes : List BufferEvent :=
  [.create 0, .addAtEnd 0 20, .removeAtEnd 0 20, .addAtEnd 0 1, .write 0 0 [9], .create 5, .addAtEnd 1 1, .write 1 5 [7]]

theorem byteBehindZeroes_isSome : ((machine rawMemory).exec Allowed {} byteBehindZeroes).isSome := by
  decide +kernel

def roomBehindBoth : List BufferEvent :=
  [.create 0, .addAtEnd 0 5, .removeAtEnd 0 5, .addAtEnd 0 2, .write 0 0 [1, 2], .copy 0]

theorem roomBehindBoth_isSome : ((machine rawMemory).exec Allowed {} roomBehindBoth).isSome := by
  decide +kernel

theorem append_inv {l l' : ByteLists} {i o : Nat} (hstep : Step l (.addAtEndBuffer i o) l') :
    ∃ x y, get l i = some x ∧ get l o = some y ∧ l' = l.set i (some (x ++ y)) := by
  cases hstep with
  | addAtEndBuffer hx hy => exact ⟨_, _, hx, hy, rfl⟩

/-- The byte behind the zeroes is not copied; appended to its copy, a buffer grows in the
block of both, and an assertion fails. -/
theorem append_fails : (∃ tr s s', Run (machine rawMemory) Allowed {} tr s ∧ Allowed s (.addAtEndBuffer 0 1) ∧
      (machine rawMemory).step s (.addAtEndBuffer 0 1) = some (s', []) ∧ s.view = [some [9], some [0, 0, 0, 0, 0, 7]] ∧
      s'.view = [some [9, 0, 0, 0, 0, 0, 170], some [0, 0, 0, 0, 0, 7]] ∧ ¬ Step s.view (.addAtEndBuffer 0 1) s'.view) ∧
    ∃ tr s, Run (machine rawMemory) Allowed {} tr s ∧ Allowed s (.addAtEndBuffer 0 1) ∧
      s.view = [some [1, 2], some [1, 2]] ∧ (machine rawMemory).step s (.addAtEndBuffer 0 1) = none := by
  have hrun := run_of_isSome (machine rawMemory) Allowed {} byteBehindZeroes byteBehindZeroes_isSome
  have hrun' := run_of_isSome (machine rawMemory) Allowed {} roomBehindBoth roomBehindBoth_isSome
  constructor
  · have hviews : ((machine rawMemory).step ((machine rawMemory).exec Allowed {} byteBehindZeroes |>.get byteBehindZeroes_isSome).2
        (.addAtEndBuffer 0 1)).map (fun r => (r.1.view, r.2)) = some ([some [9, 0, 0, 0, 0, 0, 170], some [0, 0, 0, 0, 0, 7]], []) := by
      decide +kernel
    have hview : ((machine rawMemory).exec Allowed {} byteBehindZeroes |>.get byteBehindZeroes_isSome).2.view =
        [some [9], some [0, 0, 0, 0, 0, 7]] := by
      decide +kernel
    obtain ⟨⟨s', o⟩, hcall, hresult⟩ := map_eq_some_iff.1 hviews
    obtain ⟨hview', rfl⟩ := Prod.mk.inj hresult
    refine ⟨_, _, s', hrun, by decide +kernel, hcall, hview, hview', fun hstep => ?_⟩
    rw [hview, hview'] at hstep
    obtain ⟨l, k, hl, hk, heq⟩ := append_inv hstep
    cases hl
    cases hk
    exact absurd heq (by decide)
  · exact ⟨_, _, hrun', by decide +kernel, by decide +kernel, isNone_iff_eq_none.1 (by decide +kernel)⟩

end Buffers

end Ns3
