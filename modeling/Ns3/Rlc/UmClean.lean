import Ns3.Lib.Fold
import Ns3.Rlc.UmDelivery

/-!
# Cleaning the reordering window

After a PDU was taken in, the buffer lies in the reordering window and not before
`VR(UR)`, as long as every flush meets what is out of the window before what is
in it: it goes through the buffer by the values of the numbers and stops at the
first one inside. The state then stands for indices `ur` and `uh`, with the
buffer between them.
-/

namespace Ns3

open SequenceNumber10

namespace LteRlcUmRx

def windowPlace (h sn : Nat) : Nat := (sn + 1536 - h) % 1024

/-- The buffer lies in the window, and not before `VR(UR)`. -/
def Clean (r : LteRlcUmRx) : Prop :=
  ∀ k, r.received k = true → inWindow r.vrUh.value k = true ∧
    windowPlace r.vrUh.value r.vrUr.value ≤ windowPlace r.vrUh.value k

/-- When a PDU with number `x` moves the window, what it leaves outside has smaller
numbers than what stays inside. -/
def FlushesInOrder (r : LteRlcUmRx) (x : Nat) : Prop :=
  inWindow r.vrUh.value x = true ∨ ∀ k k', (k = x ∨ r.received k = true) → (k' = x ∨ r.received k' = true) →
    inWindow ((x + 1) % 1024) k = false → inWindow ((x + 1) % 1024) k' = true → k < k'

def Flushes (r : LteRlcUmRx) : UmReceiverEvent → Prop
  | .arrive p => ∀ rlcHeader, LteRlcHeader.deserialize p = some rlcHeader → r.FlushesInOrder rlcHeader.sequenceNumber.value
  | .expire => True

/-- The registers stand for `ur` and `uh`, and the buffer for indices between them. -/
structure Between (r : LteRlcUmRx) (ur uh : Nat) : Prop where
  vrUr : r.vrUr.value = ur % 1024
  vrUh : r.vrUh.value = uh % 1024
  lower : ur ≤ uh
  upper : uh ≤ ur + 512
  keys : Buffered 1024 (fun _ _ => True) r.rxBuffer ur uh

/-- While the timer runs, `VR(UX)` stands for `ux` and the bases agree. -/
def Waits (r : LteRlcUmRx) (ur uh ux : Nat) : Prop :=
  r.reorderingTimer = true → ur < ux ∧ ux ≤ uh ∧ r.vrUr = ofIndex ur (uh + 512) ∧ r.vrUh = ofIndex uh (uh + 512) ∧
    r.vrUx = ofIndex ux (uh + 512)

section
variable {r r' : LteRlcUmRx} {ur uh ux i k : Nat} {o : List Bytes} {p : Bytes}

theorem inWindow_index {i uh : Nat} (hlo : uh ≤ i + 512) (hhi : i < uh + 512) :
    inWindow (uh % 1024) (i % 1024) = decide (i < uh) := by
  unfold inWindow
  exact decide_eq_decide.mpr (by omega)

theorem Between.clean (h : r.Between ur uh) : r.Clean := by
  intro k hk
  obtain ⟨b, hb⟩ := Option.isSome_iff_exists.mp hk
  obtain ⟨i, hlo, hhi, rfl, -⟩ := h.keys k b hb
  have hup := h.upper
  rw [h.vrUh, h.vrUr]
  refine ⟨?_, ?_⟩
  · rw [inWindow_index (by omega) (by omega)]
    exact decide_eq_true hhi
  · unfold windowPlace
    lia

theorem Between.not_received (h : r.Between ur uh) : r.received (uh % 1024) = false := by
  have hlo := h.lower
  have hup := h.upper
  cases hk : r.received (uh % 1024) with
  | false => rfl
  | true =>
    obtain ⟨b, hb⟩ := Option.isSome_iff_exists.mp hk
    have := (h.keys.lookup (i := uh) hlo (by omega) (by omega) hb).1
    omega

/-! ## An interval of indices -/

theorem reassembleSnInterval_cleared {B b : Nat} (hb : b < B) : ∀ (fuel a : Nat) {r r' : LteRlcUmRx} {o : List Bytes},
    a ≤ b → B ≤ a + 1024 → reassembleSnInterval fuel (ofIndex a B) (ofIndex b B) r = some (r', o) →
    Cleared 1024 r.rxBuffer r'.rxBuffer a b := by
  intro fuel
  induction fuel with
  | zero => exact fun _ _ _ _ _ _ h => nomatch h
  | succ fuel ih =>
    intro a r r' o hab hB h
    have hlt : (ofIndex a B).lt (ofIndex b B) = some (decide (a < b)) := by
      rw [← ofIndex_add_period a, ← ofIndex_add_period b, lt_ofIndex (by omega) (by omega) (by omega) (by omega)]
      simp
    rw [reassembleSnInterval, hlt] at h
    rcases Nat.lt_or_ge a b with hless | hge
    · simp only [hless, decide_true, ofIndex_value, incr_ofIndex] at h
      cases hfind : r.rxBuffer.find (a % 1024) with
      | none =>
        simp only [hfind] at h
        have hrest := ih (a + 1) hless (by omega) h
        exact (Cleared.skip hfind).trans hrest (Nat.le_succ a) hless
      | some packet =>
        cases hrel : r.release (a % 1024) packet with
        | none => simp [hfind, hrel] at h
        | some s =>
          cases hrest : reassembleSnInterval fuel (ofIndex (a + 1) B) (ofIndex b B) s.1 with
          | none => simp [hfind, hrel, hrest] at h
          | some t =>
            simp only [hfind, hrel, hrest, Option.some.injEq, Prod.mk.injEq] at h
            obtain ⟨rfl, -⟩ := h
            have hcleared := ih (a + 1) hless (by omega) hrest
            obtain ⟨ra, hs⟩ := release_inv hrel
            have hbuffer : s.1.rxBuffer = r.rxBuffer.erase (a % 1024) := by rw [hs]
            rw [hbuffer] at hcleared
            exact (Cleared.erase r.rxBuffer a).trans hcleared (Nat.le_succ a) hless
    · obtain rfl : a = b := by omega
      simp only [Nat.lt_irrefl, decide_false, Option.some.injEq, Prod.mk.injEq] at h
      obtain ⟨rfl, -⟩ := h
      exact Cleared.refl _ a

/-! ## A PDU in the buffer -/

theorem advanceVrUr_between {B w : Nat} (hr : r.InRange) (hur : r.vrUr = ofIndex ur B) (h : r.Between ur uh)
    (hw : r.received (w % 1024) = false) (hurw : ur ≤ w) (hwuh : w ≤ uh) (hwB : w < B) (hB : B ≤ ur + 1024)
    (hadv : r.advanceVrUr = some (r', o)) :
    ∃ ur', ur ≤ ur' ∧ r'.Between ur' uh ∧ r'.vrUh = r.vrUh ∧ r'.vrUx = r.vrUx ∧ r'.reorderingTimer = r.reorderingTimer := by
  have hup := h.upper
  rcases advanceVrUr_inv hr hadv with ⟨-, rfl⟩ | ⟨hhas, v, hlt, hle, -, hrun, hint⟩
  · exact ⟨ur, Nat.le_refl ur, h, rfl, rfl, rfl⟩
  · rw [h.vrUr] at hlt hrun
    obtain ⟨L, rfl⟩ : ∃ L, v = ur % 1024 + L := ⟨v - ur % 1024, by omega⟩
    have hLw : ur + L ≤ w := by
      by_contra hgt
      have := hrun (w % 1024) (by lia) (by lia)
      rw [hw] at this
      cases this
    have hassign : r.vrUr.assign (ur % 1024 + L) = ofIndex (ur + L) B := by
      rw [hur, assign_ofIndex]
      exact ofIndex_inj_value (by omega) rfl
    rw [hassign, hur] at hint
    have hcleared := reassembleSnInterval_cleared (by omega) 1025 ur (by omega) hB hint
    obtain ⟨⟨m, ra, rfl, -⟩, -⟩ := reassembleSnInterval_inv _ _ _ hint
    exact ⟨ur + L, by omega, ⟨rfl, h.vrUh, by omega, by omega, hcleared.buffered h.keys⟩, rfl, rfl, rfl⟩

theorem updateReorderingTimer_waits (ux : Nat) (h : r.Between ur uh)
    (hux : r.reorderingTimer = true → r.vrUx.value = ux % 1024 ∧ uh ≤ ux + 1024 ∧ ux ≤ uh)
    (htimer : r.updateReorderingTimer = some r') : ∃ ux', r'.Between ur uh ∧ r'.Waits ur uh ux' := by
  have hup := h.upper
  have hlo := h.lower
  -- the index from `uh - 512` on that `VR(UX)` stands for
  obtain ⟨ux₁, hux₁⟩ : ∃ ux₁, r.reorderingTimer = true → r.vrUx.value = ux₁ % 1024 ∧ uh ≤ ux₁ + 512 ∧ ux₁ < uh + 512 := by
    rcases Nat.lt_or_ge (ux + 512) uh with hlt | hge
    · refine ⟨ux + 1024, fun hrun => ?_⟩
      obtain ⟨h1, h2, h3⟩ := hux hrun
      exact ⟨by omega, by omega, by omega⟩
    · refine ⟨ux, fun hrun => ?_⟩
      obtain ⟨h1, h2, h3⟩ := hux hrun
      exact ⟨h1, hge, by omega⟩
  obtain ⟨v, t, heq, ht⟩ := updateReorderingTimer_eq ur uh ux₁ h.vrUr h.vrUh hlo hup hux₁
  cases heq.symm.trans htimer
  cases t with
  | false => exact ⟨0, ⟨rfl, rfl, hlo, hup, h.keys⟩, fun hrun => by cases hrun⟩
  | true =>
    rcases ht rfl with ⟨hgap, rfl⟩ | ⟨-, hlt, hle, rfl⟩
    · exact ⟨uh, ⟨rfl, rfl, hlo, hup, h.keys⟩, fun _ => ⟨hgap, Nat.le_refl uh, rfl, rfl, rfl⟩⟩
    · exact ⟨ux₁, ⟨rfl, rfl, hlo, hup, h.keys⟩, fun _ => ⟨hlt, hle, rfl, rfl, rfl⟩⟩

theorem flush_window {x : Nat} {m : OrdMap Nat Bytes}
    (hm : m.entries = r.rxBuffer.entries.dropWhile fun e => !inWindow ((x + 1) % 1024) e.1)
    (hin : ∀ k k', r.received k = true → r.received k' = true → inWindow ((x + 1) % 1024) k = false →
      inWindow ((x + 1) % 1024) k' = true → k < k') {b : Bytes} (hk : m.find k = some b) :
    inWindow ((x + 1) % 1024) k = true ∧ r.rxBuffer.find k = some b := by
  have hmem : (k, b) ∈ r.rxBuffer.entries.dropWhile fun e => !inWindow ((x + 1) % 1024) e.1 := hm ▸ lookupEntry_mem hk
  refine ⟨?_, OrdMap.find_of_mem _ ((List.dropWhile_suffix _).subset hmem)⟩
  have hleft := dropWhile_sorted (q := fun e : Nat × Bytes => !inWindow ((x + 1) % 1024) e.1) r.rxBuffer.sorted
    (fun a ha b hb hab hout => by
      by_contra hinside
      have := hin b.1 a.1 (received_iff.mpr ⟨b.2, hb⟩) (received_iff.mpr ⟨a.2, ha⟩) (by simpa using hout)
        (by simpa using hinside)
      omega) (k, b) hmem
  simpa using hleft

/-- The window has moved, and `VR(UR)` may go on, up to a number `w` that is not there. -/
structure Moved (r : LteRlcUmRx) (ur uh B w : Nat) : Prop where
  between : r.Between ur uh
  vrUr : r.vrUr = ofIndex ur B
  absent : r.received (w % 1024) = false
  le_absent : ur ≤ w
  absent_le : w ≤ uh
  below : w < B
  period : B ≤ ur + 1024

theorem Moved.finish {B w : Nat} (h : r.Moved ur uh B w) (hr : r.InRange)
    (hux : r.reorderingTimer = true → r.vrUx.value = ux % 1024 ∧ uh ≤ ux + 1024 ∧ ux ≤ uh) {r₁ : LteRlcUmRx}
    (hadv : r.advanceVrUr = some (r₁, o)) (htimer : r₁.updateReorderingTimer = some r') :
    ∃ ur' ux', ur ≤ ur' ∧ r'.Between ur' uh ∧ r'.Waits ur' uh ux' := by
  obtain ⟨ur₁, hge, hbetween, -, hux₁, ht⟩ :=
    advanceVrUr_between hr h.vrUr h.between h.absent h.le_absent h.absent_le h.below h.period hadv
  obtain ⟨ux', hbetween', hwaits⟩ := updateReorderingTimer_waits ux hbetween (by rw [hux₁, ht]; exact hux) htimer
  exact ⟨ur₁, ux', hge, hbetween', hwaits⟩

theorem Between.placed (h : r.Between ur uh) (p : Bytes) (hlo : ur ≤ i) (hhi : i < uh + 512) :
    Buffered 1024 (fun _ _ => True) (r.placed (i % 1024) p).rxBuffer ur (max uh (i + 1)) := by
  have hle := h.lower
  exact h.keys.insert _ hlo (by omega) (by omega) trivial

theorem Between.flushed (h : r.Between ur uh) (hlo : ur ≤ i) (hout : uh ≤ i) (hhi : i < uh + 512)
    (hflush : r.FlushesInOrder (i % 1024)) {m : OrdMap Nat Bytes}
    (hm : m.entries = (r.placed (i % 1024) p).rxBuffer.entries.dropWhile fun e => !inWindow ((i % 1024 + 1) % 1024) e.1)
    {b : Bytes} (hk : m.find k = some b) : ∃ j, ur ≤ j ∧ j < i + 1 ∧ j % 1024 = k ∧ i + 1 ≤ j + 512 := by
  have hle := h.lower
  have horder : ∀ k k', (r.placed (i % 1024) p).received k = true → (r.placed (i % 1024) p).received k' = true →
      inWindow ((i % 1024 + 1) % 1024) k = false → inWindow ((i % 1024 + 1) % 1024) k' = true → k < k' := by
    rcases hflush with hin | hall
    · rw [h.vrUh, inWindow_index (by omega) hhi, decide_eq_true_eq] at hin
      omega
    · exact fun k k' hk hk' => hall k k' (received_placed.mp hk) (received_placed.mp hk')
  obtain ⟨hin, hold⟩ := flush_window hm horder hk
  obtain ⟨j, hj, hj', rfl, -⟩ := h.placed p hlo hhi k b hold
  have hup := h.upper
  refine ⟨j, hj, by omega, rfl, ?_⟩
  rw [inWindow, decide_eq_true_eq] at hin
  omega

theorem Between.moved_outside (h : r.Between ur uh) (hlo : ur ≤ i) (hout : uh ≤ i) (hhi : i < uh + 512)
    (hflush : r.FlushesInOrder (i % 1024)) {r₁ : LteRlcUmRx} (hvrUh : r₁.vrUh.value = (i % 1024 + 1) % 1024)
    (hm : r₁.rxBuffer.entries = (r.placed (i % 1024) p).rxBuffer.entries.dropWhile fun e =>
      !inWindow ((i % 1024 + 1) % 1024) e.1)
    (hvrUr : r₁.vrUr = if inWindow ((i % 1024 + 1) % 1024) (ur % 1024) then ofIndex ur (uh + 512)
      else ofIndex (i % 1024 + 513) (i % 1024 + 513)) : ∃ ur₁ B w, ur ≤ ur₁ ∧ r₁.Moved ur₁ (i + 1) B w := by
  have hle := h.lower
  have hup := h.upper
  have hedge : inWindow ((i % 1024 + 1) % 1024) (ur % 1024) = decide (i + 1 ≤ ur + 512) := by
    unfold inWindow
    exact decide_eq_decide.mpr (by omega)
  have hvrUh' : r₁.vrUh.value = (i + 1) % 1024 := by
    rw [hvrUh]
    omega
  rcases Nat.lt_or_ge (ur + 512) (i + 1) with hgone | hstays
  · -- `VR(UR)` falls out of the window
    rw [hedge, decide_eq_false (Nat.not_le.mpr hgone), if_neg Bool.false_ne_true] at hvrUr
    have hur₁ : r₁.vrUr = ofIndex (i - 511) (i + 513) := by
      rw [hvrUr]
      exact ofIndex_inj_value (by lia) (by lia)
    have hbetween : r₁.Between (i - 511) (i + 1) := by
      refine ⟨by rw [hur₁]; rfl, hvrUh', by omega, by omega, fun k b hk => ?_⟩
      obtain ⟨j, hj, hj', hjk, hjw⟩ := h.flushed hlo hout hhi hflush hm hk
      exact ⟨j, by omega, hj', hjk, trivial⟩
    exact ⟨i - 511, i + 513, i + 1, by lia, hbetween, hur₁, hbetween.not_received, by lia, Nat.le_refl _, by lia, by lia⟩
  · rw [hedge, decide_eq_true hstays, if_pos rfl] at hvrUr
    have hbetween : r₁.Between ur (i + 1) := by
      refine ⟨by rw [hvrUr]; rfl, hvrUh', by omega, by omega, fun k b hk => ?_⟩
      obtain ⟨j, hj, hj', hjk, -⟩ := h.flushed hlo hout hhi hflush hm hk
      exact ⟨j, hj, hj', hjk, trivial⟩
    -- the number `uh` ends the run unless it is the one placed
    rcases Nat.lt_or_ge uh i with hgap | htouch
    · have hnot : r₁.received (uh % 1024) = false := by
        cases hk : r₁.received (uh % 1024) with
        | false => rfl
        | true =>
          have hold := received_of_dropWhile hm hk
          rcases received_placed.mp hold with heq | hold
          · omega
          · rw [h.not_received] at hold
            cases hold
      exact ⟨ur, uh + 512, uh, Nat.le_refl ur, hbetween, hvrUr, hnot, hle, by lia, by lia, by lia⟩
    · obtain rfl : i = uh := by lia
      exact ⟨ur, i + 512, i + 1, Nat.le_refl ur, hbetween, hvrUr, hbetween.not_received, by lia, Nat.le_refl _, by lia, by lia⟩

theorem afterPlacing_between (hr : r.InRange) (h : r.Between ur uh) (hw : r.Waits ur uh ux) (hlo : ur ≤ i)
    (hhi : i < uh + 512) (hflush : r.FlushesInOrder (i % 1024)) {r₁ r₂ : LteRlcUmRx} {o₁ o₂ : List Bytes}
    (hmove : (r.placed (i % 1024) p).moveWindow (ofIndex i (uh + 512)) = some (r₁, o₁))
    (hadv : r₁.advanceVrUr = some (r₂, o₂)) (htimer : r₂.updateReorderingTimer = some r') :
    ∃ ur' uh' ux', ur ≤ ur' ∧ r'.Between ur' uh' ∧ r'.Waits ur' uh' ux' := by
  have hle := h.lower
  have hup := h.upper
  have hbase := base_value h.vrUh
  have hplaced := hr.placed (Nat.mod_lt i (by decide)) p
  have hvrUr : (r.placed (i % 1024) p).vrUr = ofIndex ur (uh + 512) := setModulusBase_eq h.vrUr hbase
  have hvrUh : (r.placed (i % 1024) p).vrUh = ofIndex uh (uh + 512) := setModulusBase_eq h.vrUh hbase
  have hsn : (ofIndex i (uh + 512)).value < 1024 := Nat.mod_lt i (by decide)
  have hmoved := hplaced.moveWindow hsn hmove
  obtain ⟨v, m, ra, hm, hv, -, hux, ht, hcase⟩ := moveWindow_inv hplaced hsn hmove
  rw [← hm, ← hv, hvrUh, hvrUr] at hcase
  change if inWindow (uh % 1024) (i % 1024) then r₁.vrUh.value = uh % 1024 ∧
      r₁.rxBuffer = (r.placed (i % 1024) p).rxBuffer ∧ r₁.vrUr = ofIndex ur (uh + 512)
    else r₁.vrUh.value = (i % 1024 + 1) % 1024 ∧
      (r₁.rxBuffer.entries = (r.placed (i % 1024) p).rxBuffer.entries.dropWhile fun e =>
        !inWindow ((i % 1024 + 1) % 1024) e.1) ∧
      r₁.vrUr = if inWindow ((i % 1024 + 1) % 1024) (ur % 1024) then ofIndex ur (uh + 512)
        else ofIndex (i % 1024 + 513) (i % 1024 + 513) at hcase
  have huxw : r₁.reorderingTimer = true → r₁.vrUx.value = ux % 1024 ∧ ur < ux ∧ ux ≤ uh := by
    intro hrun
    obtain ⟨h1, h2, -, -, h5⟩ := hw (ht ▸ hrun)
    refine ⟨?_, h1, h2⟩
    rw [hux]
    exact congrArg SequenceNumber10.value h5
  have hinside : inWindow (uh % 1024) (i % 1024) = decide (i < uh) := inWindow_index (by lia) hhi
  rcases Nat.lt_or_ge i uh with hin | hout
  · -- inside: nothing moves
    rw [if_pos (hinside.trans (decide_eq_true hin))] at hcase
    obtain ⟨h1, h2, h3⟩ := hcase
    have hbetween : r₁.Between ur uh := by
      have hkeys := h.placed p hlo hhi
      rw [Nat.max_eq_left hin] at hkeys
      exact ⟨by rw [h3]; rfl, h1, hle, hup, by rw [h2]; exact hkeys⟩
    have hstart : r₁.Moved ur uh (uh + 512) uh :=
      ⟨hbetween, h3, hbetween.not_received, hle, Nat.le_refl uh, by omega, by omega⟩
    obtain ⟨ur', ux', hge, hbetween', hwaits⟩ := hstart.finish hmoved (fun hrun => by
      obtain ⟨h4, h5, h6⟩ := huxw hrun
      exact ⟨h4, by lia, h6⟩) hadv htimer
    exact ⟨ur', uh, ux', hge, hbetween', hwaits⟩
  · rw [if_neg (by simpa [hinside] using hout)] at hcase
    obtain ⟨h1, h2, h3⟩ := hcase
    obtain ⟨ur₁, B, w, hge, hstart⟩ := h.moved_outside hlo hout hhi hflush h1 h2 h3
    obtain ⟨ur', ux', hge', hbetween', hwaits⟩ := hstart.finish hmoved (fun hrun => by
      obtain ⟨h4, h5, h6⟩ := huxw hrun
      exact ⟨h4, by lia, by lia⟩) hadv htimer
    exact ⟨ur', i + 1, ux', hge.trans hge', hbetween', hwaits⟩

/-! ## Steps -/

/-- There are indices for the registers; the first ones are 1024. -/
def Windowed (r : LteRlcUmRx) : Prop := ∃ ur uh ux, 1024 ≤ ur ∧ r.Between ur uh ∧ r.Waits ur uh ux

theorem windowed_init : Windowed {} :=
  ⟨1024, 1024, 0, Nat.le_refl _, ⟨rfl, rfl, Nat.le_refl _, by decide, fun _ _ hf => nomatch hf⟩, fun h => nomatch h⟩

theorem doReceivePdu_windowed (hr : r.InRange) (h : r.Windowed) (hflush : r.Flushes (.arrive p))
    (hs : r.doReceivePdu p = some (r', o)) : r'.Windowed := by
  obtain ⟨ur, uh, ux, hbig, hbetween, hw⟩ := h
  have hle := hbetween.lower
  have hup := hbetween.upper
  have hbase := base_value hbetween.vrUh
  have hvrUr : r.rebased.vrUr = ofIndex ur (uh + 512) := setModulusBase_eq hbetween.vrUr hbase
  have hvrUh : r.rebased.vrUh = ofIndex uh (uh + 512) := setModulusBase_eq hbetween.vrUh hbase
  obtain ⟨rlcHeader, hd, hcase⟩ := doReceivePdu_inv hs
  rcases hcase with ⟨-, rfl⟩ | ⟨hdis, r₁, r₂, o₁, o₂, hmove, hadv, htimer⟩
  · refine ⟨ur, uh, ux, hbig, ⟨by rw [hvrUr]; rfl, by rw [hvrUh]; rfl, hle, hup, hbetween.keys⟩, fun hrun => ?_⟩
    obtain ⟨h1, h2, -, -, h5⟩ := hw hrun
    exact ⟨h1, h2, hvrUr, hvrUh, h5⟩
  · -- the index of the PDU that is nearest to `uh`
    have hx := deserialize_value_lt hd
    obtain ⟨i, hlo, hhi, hix⟩ : ∃ i, uh ≤ i + 512 ∧ i < uh + 512 ∧ rlcHeader.sequenceNumber.value = i % 1024 :=
      ⟨uh - 512 + (rlcHeader.sequenceNumber.value + 1536 - uh % 1024) % 1024, by omega, by omega, by omega⟩
    have hsn : rlcHeader.sequenceNumber.setModulusBase (r.vrUh.sub windowSize) = ofIndex i (uh + 512) :=
      setModulusBase_eq hix hbase
    have hge : ur ≤ i := by
      by_contra hlt
      apply hdis
      rw [Discards, hsn, isDiscarded_eq ur uh i hvrUr hvrUh hup hle hlo hhi]
      simp [Nat.not_le.mp hlt]
    rw [hsn, hix] at hmove
    obtain ⟨ur', uh', ux', hmono, hbetween', hw'⟩ :=
      afterPlacing_between hr hbetween hw hge hhi (hix ▸ hflush rlcHeader hd) hmove hadv htimer
    exact ⟨ur', uh', ux', hbig.trans hmono, hbetween', hw'⟩

theorem expireReorderingTimer_windowed (h : r.Windowed) (hrun : r.reorderingTimer = true)
    (hs : r.expireReorderingTimer = some (r', o)) : r'.Windowed := by
  obtain ⟨ur, uh, ux, hbig, hbetween, hw⟩ := h
  obtain ⟨hlt, hle, hur, huh, hux⟩ := hw hrun
  have hup := hbetween.upper
  obtain ⟨newVrUr, r₁, -, ⟨w, rfl, hge, hend⟩, hint, hstart⟩ :=
    expireReorderingTimer_inv (motive := fun sn => ∃ w, sn = ofIndex w (uh + 512) ∧ ux ≤ w ∧ w ≤ uh)
      ⟨ux, hux, Nat.le_refl ux, hle⟩ (fun sn hrec ⟨w, hsn, hge, hend⟩ => by
        have hne : w ≠ uh := by
          rintro rfl
          rw [hsn, ofIndex_value, hbetween.not_received] at hrec
          cases hrec
        exact ⟨w + 1, by rw [hsn, incr_ofIndex], by omega, by omega⟩) hs
  rw [hur] at hint
  have hcleared := reassembleSnInterval_cleared (by omega) 1025 ur (by omega) (by omega) hint
  obtain ⟨⟨m, ra, rfl, -⟩, -⟩ := reassembleSnInterval_inv _ _ _ hint
  have hgt : (ofIndex uh (uh + 512)).gt (ofIndex w (uh + 512)) = some (decide (w < uh)) := by
    rw [← ofIndex_add_period uh, ← ofIndex_add_period w, gt_ofIndex (by omega) (by omega) (by omega) (by omega)]
    simp
  simp only [startReorderingTimer, huh, hgt, Bool.false_eq_true, if_false] at hstart
  have hkeys : Buffered 1024 (fun _ _ => True) m w uh := hcleared.buffered hbetween.keys
  rcases Nat.lt_or_ge w uh with hgap | hclosed
  · simp only [hgap, decide_true, Option.some.injEq] at hstart
    obtain rfl := hstart
    exact ⟨w, uh, uh, by omega, ⟨rfl, rfl, hend, by omega, hkeys⟩, fun _ => ⟨hgap, Nat.le_refl uh, rfl, rfl, rfl⟩⟩
  · simp only [Nat.not_lt.mpr hclosed, decide_false, Option.some.injEq] at hstart
    obtain rfl := hstart
    exact ⟨w, uh, 0, by omega, ⟨rfl, rfl, hend, by omega, hkeys⟩, fun hrun => by cases hrun⟩

/-! ## Runs -/

/-- After every flush there are indices for the registers. -/
theorem windowed_of_run {tr : List (UmReceiverEvent × List Bytes)} (h : machine.Run Flushes {} tr r) :
    r.InRange ∧ r.Windowed := by
  refine h.invariant (fun _ r => r.InRange ∧ r.Windowed) ⟨inRange_init, windowed_init⟩ ?_
  intro _ r e r' o hinv hflush hs
  obtain ⟨hr, hw⟩ := hinv
  refine ⟨hr.step hs, ?_⟩
  cases e with
  | arrive p => exact doReceivePdu_windowed hr hw hflush hs
  | expire =>
    change (if r.reorderingTimer then r.expireReorderingTimer else none) = some (r', o) at hs
    split at hs
    · exact expireReorderingTimer_windowed hw ‹_› hs
    · cases hs

/-- **The buffer stays in the window** while flushes meet first what is out of it. -/
theorem rxBuffer_clean {tr : List (UmReceiverEvent × List Bytes)} (h : machine.Run Flushes {} tr r) : r.Clean := by
  obtain ⟨-, ur, uh, ux, -, hbetween, -⟩ := windowed_of_run h
  exact hbetween.clean

end

instance (r : LteRlcUmRx) (x : Nat) : Decidable (r.FlushesInOrder x) :=
  decidable_of_iff (inWindow r.vrUh.value x = true ∨ ∀ k ∈ x :: r.rxBuffer.entries.map Prod.fst,
      ∀ k' ∈ x :: r.rxBuffer.entries.map Prod.fst,
        inWindow ((x + 1) % 1024) k = false → inWindow ((x + 1) % 1024) k' = true → k < k') <| by
    have hkeys : ∀ k, k ∈ x :: r.rxBuffer.entries.map Prod.fst ↔ k = x ∨ r.received k = true := fun k => by
      simp [received_iff]
    unfold FlushesInOrder
    simp only [hkeys]
    exact or_congr_right ⟨fun h k k' hk hk' => h k hk k' hk', fun h k hk k' hk' => h k k' hk hk'⟩

instance (r : LteRlcUmRx) : (e : UmReceiverEvent) → Decidable (r.Flushes e)
  | .arrive p => inferInstanceAs (Decidable (∀ rlcHeader ∈ LteRlcHeader.deserialize p,
      r.FlushesInOrder rlcHeader.sequenceNumber.value))
  | .expire => .isTrue trivial

/-- An expiry hands up 500; 1014 moves the window on, and 502 is flushed. -/
def flushedByLast : List UmReceiverEvent :=
  [.arrive (singlePdu 500), .arrive (singlePdu 502), .expire, .arrive (singlePdu 600), .arrive (singlePdu 1012),
    .arrive (singlePdu 1014)]

theorem flushedByLast_flushes : ((machine.exec Flushes {} flushedByLast).any fun s =>
    decide (Machine.outputs s.1 = [[7], [7]] ∧ s.2.received 502 = false ∧ s.2.received 600 = true)) = true := by
  decide +kernel

theorem rxBuffer_clean_flushed : ∃ tr r, machine.Run Flushes {} tr r ∧ Machine.outputs tr = [[7], [7]] ∧
    r.received 502 = false ∧ r.received 600 = true ∧ r.Clean := by
  obtain ⟨tr, r, hrun, hflushes⟩ := Machine.run_of_any machine Flushes flushedByLast_flushes
  obtain ⟨hout, hgone, hkept⟩ := of_decide_eq_true hflushes
  exact ⟨tr, r, hrun, hout, hgone, hkept, rxBuffer_clean hrun⟩

/-- The third number moves the window over the wrap: 500 is left outside, 6 is inside. -/
def acrossWrap : List UmReceiverEvent := [.arrive (singlePdu 500), .arrive (singlePdu 998), .arrive (singlePdu 6)]

theorem acrossWrap_left : ((machine.exec Machine.anyStep {} acrossWrap).any fun s =>
    s.2.received 500 && !inWindow s.2.vrUh.value 500) = true := by
  decide +kernel

/-- **500 stays in the buffer** out of the window. -/
theorem out_of_window_left : ∃ tr r, machine.Run Machine.anyStep {} tr r ∧ ¬ r.Clean := by
  obtain ⟨tr, r, hrun, hleft⟩ := Machine.run_of_any machine Machine.anyStep acrossWrap_left
  rw [Bool.and_eq_true] at hleft
  refine ⟨tr, r, hrun, fun hclean => ?_⟩
  have hin := (hclean 500 hleft.1).1
  simp [hin] at hleft

end LteRlcUmRx

end Ns3
