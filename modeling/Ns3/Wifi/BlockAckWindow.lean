import Mathlib.Data.List.Basic
import Mathlib.Tactic.Common

/-!
# `BlockAckWindow`

A window of sequence numbers with a bit for each, kept in a ring: `m_head` is
the place of the bit of `m_winStart`. `bit i` is the bit of the number `i`
behind the start of the window; in these terms an advance is a shift.

Sequence numbers have 12 bits. An access outside of the window fails.
-/

namespace Ns3

open List

/-- `GetDistance`: how far a number is behind the start, round the circle. -/
def getDistance (seqNumber startingSeqNumber : Nat) : Option Nat :=
  if seqNumber < 4096 ∧ startingSeqNumber < 4096 then some ((seqNumber + 4096 - startingSeqNumber) % 4096) else none

theorem getDistance_eq {p q : Nat} (hle : q ≤ p) (hlt : p < q + 4096) :
    getDistance (p % 4096) (q % 4096) = some (p - q) := by
  rw [getDistance, if_pos ⟨by omega, by omega⟩]
  congr 1
  omega

theorem getDistance_behind {p q : Nat} (hlt : p < q) (hle : q ≤ p + 4096) :
    getDistance (p % 4096) (q % 4096) = some (p + 4096 - q) := by
  rw [getDistance, if_pos ⟨by omega, by omega⟩]
  congr 1
  omega

structure BlockAckWindow where
  winStart : Nat
  window : List Bool
  head : Nat
  deriving DecidableEq

namespace BlockAckWindow

def init (winStart winSize : Nat) : BlockAckWindow := ⟨winStart, List.replicate winSize false, 0⟩

def reset (w : BlockAckWindow) (winStart : Nat) : BlockAckWindow := init winStart w.window.length

def winSize (w : BlockAckWindow) : Nat := w.window.length

def get (w : BlockAckWindow) (distance : Nat) : Option Bool :=
  if distance < w.winSize then w.window[(w.head + distance) % w.winSize]? else none

/-- `At (distance) = true`. -/
def mark (w : BlockAckWindow) (distance : Nat) : Option BlockAckWindow :=
  if distance < w.winSize then some { w with window := w.window.set ((w.head + distance) % w.winSize) true } else none

def shift : Nat → BlockAckWindow → BlockAckWindow
  | 0, w => w
  | count + 1, w => shift count { w with window := w.window.set w.head false, head := (w.head + 1) % w.winSize }

def advance (w : BlockAckWindow) (count : Nat) : BlockAckWindow :=
  if w.winSize ≤ count then w.reset ((w.winStart + count) % 4096)
  else { shift count w with winStart := (w.winStart + count) % 4096 }

/-! ## The bits -/

def bit (w : BlockAckWindow) (i : Nat) : Bool := w.window.getD ((w.head + i) % w.winSize) false

/-- The head is a place of the ring, and the start a sequence number. -/
structure Valid (w : BlockAckWindow) (size : Nat) : Prop where
  winSize : w.winSize = size
  head : w.head < size
  winStart : w.winStart < 4096

section
variable {w : BlockAckWindow} {size : Nat}

theorem valid_init {winStart : Nat} (hsize : 0 < size) (hstart : winStart < 4096) : (init winStart size).Valid size :=
  ⟨by simp [init, BlockAckWindow.winSize], hsize, hstart⟩

theorem bit_init (winStart size i : Nat) : (init winStart size).bit i = false := by
  rw [bit, init, getD_eq_getElem?_getD, getElem?_replicate]
  split <;> rfl

theorem place_eq {head i : Nat} (hhead : head < size) (hi : i < size) :
    (head + i) % size = if head + i < size then head + i else head + i - size := by
  split
  · exact Nat.mod_eq_of_lt ‹_›
  · rw [Nat.mod_eq_sub_mod (by omega), Nat.mod_eq_of_lt (by omega)]

theorem get_eq (h : w.Valid size) {i : Nat} (hi : i < size) : w.get i = some (w.bit i) := by
  have hsize := h.winSize
  have hplace : (w.head + i) % w.winSize < w.window.length := Nat.mod_lt _ (by unfold BlockAckWindow.winSize at hsize ⊢; omega)
  rw [get, if_pos (by omega), bit, getD_eq_getElem?_getD, getElem?_eq_getElem hplace, Option.getD_some]

theorem mark_eq (h : w.Valid size) {i : Nat} (hi : i < size) :
    ∃ w', w.mark i = some w' ∧ w'.Valid size ∧ w'.winStart = w.winStart ∧
      ∀ j < size, w'.bit j = (decide (j = i) || w.bit j) := by
  have hsize := h.winSize
  have hlength : w.window.length = size := hsize
  refine ⟨_, if_pos (by omega), ⟨by simpa [BlockAckWindow.winSize] using hsize, h.head, h.winStart⟩, rfl, fun j hj => ?_⟩
  simp only [bit, BlockAckWindow.winSize, length_set, hlength, getD_eq_getElem?_getD, getElem?_set]
  rw [place_eq h.head hi, place_eq h.head hj]
  have hhead := h.head
  by_cases hij : j = i
  · subst hij
    simp only [if_true, decide_true, Bool.true_or]
    rw [if_pos (by split <;> omega)]
    rfl
  · rw [if_neg (by split <;> split <;> omega), decide_eq_false hij, Bool.false_or]

theorem shift_one (h : w.Valid size) :
    let w' : BlockAckWindow := { w with window := w.window.set w.head false, head := (w.head + 1) % w.winSize }
    w'.Valid size ∧ w'.winStart = w.winStart ∧ ∀ j < size, w'.bit j = if j + 1 < size then w.bit (j + 1) else false := by
  have hsize := h.winSize
  have hlength : w.window.length = size := hsize
  have hhead := h.head
  refine ⟨⟨by simpa [BlockAckWindow.winSize] using hsize, ?_, h.winStart⟩, rfl, fun j hj => ?_⟩
  · rw [hsize]
    exact Nat.mod_lt _ (by omega)
  · simp only [bit, BlockAckWindow.winSize, length_set, hlength, getD_eq_getElem?_getD, getElem?_set]
    have hplace : ((w.head + 1) % size + j) % size = (w.head + (j + 1)) % size := by
      rw [Nat.mod_add_mod]
      congr 1
      omega
    rw [hplace]
    by_cases hlast : j + 1 < size
    · rw [if_pos hlast, if_neg]
      rw [place_eq h.head hlast]
      split <;> omega
    · have hend : (w.head + (j + 1)) % size = w.head := by
        rw [show j + 1 = size by omega, Nat.add_mod_right, Nat.mod_eq_of_lt hhead]
      rw [if_neg hlast, hend, if_pos rfl, if_pos hhead]
      rfl

theorem shift_bit : ∀ (count : Nat) {w : BlockAckWindow}, w.Valid size → (shift count w).Valid size ∧
    (shift count w).winStart = w.winStart ∧
    ∀ j < size, (shift count w).bit j = if j + count < size then w.bit (j + count) else false
  | 0, w, h => ⟨h, rfl, fun j hj => by simp [shift, hj]⟩
  | count + 1, w, h => by
    obtain ⟨h₁, hstart₁, hbit₁⟩ := shift_one h
    obtain ⟨h₂, hstart₂, hbit₂⟩ := shift_bit count h₁
    refine ⟨h₂, hstart₂.trans hstart₁, fun j hj => ?_⟩
    rw [shift, hbit₂ j hj]
    by_cases hlt : j + count < size
    · rw [if_pos hlt, hbit₁ _ hlt]
      rfl
    · rw [if_neg hlt, if_neg (by omega)]

theorem advance_bit (h : w.Valid size) (count : Nat) :
    (w.advance count).Valid size ∧ (w.advance count).winStart = (w.winStart + count) % 4096 ∧
      ∀ j < size, (w.advance count).bit j = if j + count < size then w.bit (j + count) else false := by
  have hsize := h.winSize
  have hhead := h.head
  have hmod : (w.winStart + count) % 4096 < 4096 := Nat.mod_lt _ (by decide)
  rw [advance]
  by_cases hle : w.winSize ≤ count
  · rw [if_pos hle, reset, show w.window.length = size from hsize]
    refine ⟨valid_init (by omega) hmod, rfl, fun j hj => ?_⟩
    rw [bit_init, if_neg (by omega)]
  · rw [if_neg hle]
    obtain ⟨h₁, -, hbit⟩ := shift_bit count h
    exact ⟨⟨h₁.winSize, h₁.head, hmod⟩, rfl, hbit⟩

end

end BlockAckWindow

end Ns3
