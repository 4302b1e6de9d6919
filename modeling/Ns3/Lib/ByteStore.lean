import Mathlib.Algebra.Order.Ring.Nat
import Mathlib.Algebra.Order.Sub.Basic
import Mathlib.Data.Nat.SuccPred
import Ns3.Lib.Word32

/-!
# Bytes in memory

What a serializer does to memory is the list of the bytes it writes, each with
its address, in order. A serializer that checks the room it has stops with the
writes made so far (`Except.error`) or ends with all of them (`Except.ok`).
Words are stored with their lowest byte first.
-/

namespace Ns3

open List

/-! ## Words -/

def leBytes : Nat → Nat → List UInt8
  | 0, _ => []
  | n + 1, x => UInt8.ofNat (x % 256) :: leBytes n (x / 256)

def ofLeBytes : List UInt8 → Nat
  | [] => 0
  | b :: bs => b.toNat + 256 * ofLeBytes bs

@[simp] theorem length_leBytes (n x : Nat) : (leBytes n x).length = n := by
  induction n generalizing x with
  | zero => rfl
  | succ n ih => simp [leBytes, ih]

theorem ofLeBytes_leBytes (n x : Nat) : ofLeBytes (leBytes n x) = x % 256 ^ n := by
  induction n generalizing x with
  | zero => simp [leBytes, ofLeBytes, Nat.mod_one]
  | succ n ih =>
    have hb : (UInt8.ofNat (x % 256)).toNat = x % 256 := by simp
    rw [leBytes, ofLeBytes, ih, hb, Nat.pow_succ, Nat.mul_comm (256 ^ n) 256, Nat.mod_mul]

/-! ## Padding to words -/

def pad4 (n : Nat) : Nat := add32 n 3 / 4 * 4

theorem pad4_mod (n : Nat) : pad4 n % 4 = 0 := Nat.mul_mod_left _ _

theorem add32_mod {a b : Nat} (ha : a % 4 = 0) (hb : b % 4 = 0) : add32 a b % 4 = 0 := by
  simp only [add32]
  omega

/-! ## Writes -/

abbrev Writes := List (Nat × UInt8)

def storeAt : Nat → List UInt8 → Writes
  | _, [] => []
  | a, b :: bs => (a, b) :: storeAt (a + 1) bs

/-- No write at or past `n`. -/
def Below (ws : Writes) (n : Nat) : Prop := ∀ w ∈ ws, w.1 < n

instance (ws : Writes) (n : Nat) : Decidable (Below ws n) := inferInstanceAs (Decidable (∀ w ∈ ws, w.1 < n))

def onto (ws : Writes) (memory : Nat → UInt8) : Nat → UInt8 :=
  ws.foldl (fun mem w a => if a = w.1 then w.2 else mem a) memory

def load (memory : Nat → UInt8) : Nat → Nat → List UInt8
  | _, 0 => []
  | a, n + 1 => memory a :: load memory (a + 1) n

def patch (memory : Nat → UInt8) (a : Nat) (bs : List UInt8) : Nat → UInt8 := fun x =>
  if a ≤ x ∧ x < a + bs.length then bs.getD (x - a) 0 else memory x

def loadWord (memory : Nat → UInt8) (a n : Nat) : Nat := ofLeBytes (load memory a n)

section
variable {memory other : Nat → UInt8} {a n : Nat}

@[simp] theorem length_load (memory : Nat → UInt8) (a n : Nat) : (load memory a n).length = n := by
  induction n generalizing a with
  | zero => rfl
  | succ n ih => simp [load, ih]

theorem load_add (memory : Nat → UInt8) (a n k : Nat) :
    load memory a (n + k) = load memory a n ++ load memory (a + n) k := by
  induction n generalizing a with
  | zero => simp [load]
  | succ n ih => rw [Nat.succ_add, load, load, ih, cons_append, Nat.add_assoc, Nat.add_comm 1 n]

theorem load_congr (h : ∀ x, a ≤ x → x < a + n → memory x = other x) : load memory a n = load other a n := by
  induction n generalizing a with
  | zero => rfl
  | succ n ih =>
    rw [load, load, h a (Nat.le_refl _) (by omega), ih fun x hx hlt => h x (by omega) (by omega)]

theorem take_load (memory : Nat → UInt8) (a n k : Nat) : (load memory a n).take k = load memory a (min k n) := by
  rcases Nat.le_total k n with h | h
  · obtain ⟨d, rfl⟩ := Nat.exists_eq_add_of_le h
    rw [load_add, take_left' (length_load _ _ _), Nat.min_eq_left h]
  · rw [take_of_length_le (by rw [length_load]; exact h), Nat.min_eq_right h]

theorem drop_load (memory : Nat → UInt8) (a n k : Nat) : (load memory a n).drop k = load memory (a + k) (n - k) := by
  rcases Nat.le_total k n with h | h
  · obtain ⟨d, rfl⟩ := Nat.exists_eq_add_of_le h
    rw [load_add, drop_left' (length_load _ _ _), Nat.add_sub_cancel_left]
  · rw [drop_of_length_le (by rw [length_load]; exact h), Nat.sub_eq_zero_of_le h, load]

variable {bs : List UInt8} {offset : Nat}

theorem patch_outside {x : Nat} (h : x < a ∨ a + bs.length ≤ x) : patch memory a bs x = memory x :=
  if_neg (by omega)

theorem getElem_load (memory : Nat → UInt8) (a n k : Nat) (h : k < (load memory a n).length) :
    (load memory a n)[k] = memory (a + k) := by
  induction n generalizing a k with
  | zero => exact absurd h (Nat.not_lt_zero k)
  | succ n ih =>
    cases k with
    | zero => rfl
    | succ k =>
      refine (ih (a + 1) k (by simpa [load] using h)).trans ?_
      rw [Nat.add_assoc, Nat.add_comm 1 k]

theorem load_patch (memory : Nat → UInt8) (a : Nat) (bs : List UInt8) : load (patch memory a bs) a bs.length = bs := by
  refine ext_getElem (by simp) fun k hk hlt => ?_
  rw [getElem_load, patch, if_pos ⟨Nat.le_add_right _ _, by omega⟩, Nat.add_sub_cancel_left]
  simp [List.getD, hlt]

theorem patch_nil (memory : Nat → UInt8) (a : Nat) : patch memory a [] = memory :=
  funext fun _ => if_neg (by simp only [length_nil]; omega)

theorem patch_append (memory : Nat → UInt8) (a : Nat) (xs ys : List UInt8) :
    patch (patch memory a xs) (a + xs.length) ys = patch memory a (xs ++ ys) := by
  funext x
  simp only [patch, length_append, getD_eq_getElem?_getD]
  by_cases hy : a + xs.length ≤ x ∧ x < a + xs.length + ys.length
  · rw [if_pos hy, if_pos (by omega), getElem?_append_right (by omega), Nat.sub_sub]
  · rw [if_neg hy]
    by_cases hx : a ≤ x ∧ x < a + xs.length
    · rw [if_pos hx, if_pos (by omega), getElem?_append_left (by omega)]
    · rw [if_neg hx, if_neg (by omega)]

theorem load_patch_outside {b : Nat} (h : b + n ≤ a ∨ a + bs.length ≤ b) :
    load (patch memory a bs) b n = load memory b n :=
  load_congr fun x hx hlt => patch_outside (by omega)

/-- The bytes from `offset` on replaced by others. -/
def splice (l : List UInt8) (offset : Nat) (bs : List UInt8) : List UInt8 :=
  l.take offset ++ bs ++ l.drop (offset + bs.length)

theorem splice_append_left {xs : List UInt8} (h : offset + bs.length ≤ xs.length)
    (ys : List UInt8) : splice (xs ++ ys) offset bs = splice xs offset bs ++ ys := by
  rw [splice, splice, take_append_of_le_length (by omega), drop_append_of_le_length h]
  simp only [append_assoc]

theorem splice_append_right (xs ys : List UInt8) (bs : List UInt8) :
    splice (xs ++ ys) (xs.length + offset) bs = xs ++ splice ys offset bs := by
  rw [splice, splice, take_length_add_append, Nat.add_assoc, drop_length_add_append, append_assoc,
    append_assoc, append_assoc]

theorem load_patch_inside (h : offset + bs.length ≤ n) :
    load (patch memory (a + offset) bs) a n = splice (load memory a n) offset bs := by
  obtain ⟨k, rfl⟩ := Nat.exists_eq_add_of_le h
  rw [Nat.add_assoc, load_add, load_add, load_patch, load_patch_outside (.inl (Nat.le_refl _)),
    load_patch_outside (.inr (Nat.le_refl _)), splice, ← Nat.add_assoc, take_load, drop_load,
    Nat.min_eq_left (by omega), Nat.add_sub_cancel_left, ← Nat.add_assoc, append_assoc]

end

theorem storeAt_append (a : Nat) (xs ys : List UInt8) :
    storeAt a (xs ++ ys) = storeAt a xs ++ storeAt (a + xs.length) ys := by
  induction xs generalizing a with
  | nil => rfl
  | cons x xs ih => rw [cons_append, storeAt, storeAt, ih, cons_append, length_cons, Nat.add_right_comm,
      Nat.add_assoc]

theorem onto_storeAt (a : Nat) (bs : List UInt8) (memory : Nat → UInt8) :
    onto (storeAt a bs) memory = patch memory a bs := by
  induction bs generalizing a memory with
  | nil => exact (patch_nil memory a).symm
  | cons b bs ih =>
    have hfirst : (fun x => if x = a then b else memory x) = patch memory a [b] := by
      funext x
      by_cases hx : x = a
      · simp [patch, hx]
      · rw [if_neg hx, patch_outside]
        simp only [length_singleton]
        omega
    have hrest := patch_append memory a [b] bs
    rw [← hfirst, length_singleton, ← ih] at hrest
    exact hrest

theorem mem_storeAt {a n : Nat} {bs : List UInt8} (hn : bs.length = n + 1) : ∃ b, (a + n, b) ∈ storeAt a bs := by
  induction n generalizing a bs with
  | zero =>
    obtain ⟨b, rfl⟩ := length_eq_one_iff.1 hn
    exact ⟨b, by simp [storeAt]⟩
  | succ n ih =>
    obtain ⟨b, bs, rfl⟩ : ∃ b cs, bs = b :: cs := exists_cons_of_length_eq_add_one hn
    have htail : bs.length = n + 1 := by simpa using hn
    obtain ⟨c, hc⟩ := ih (a := a + 1) htail
    rw [Nat.add_right_comm, Nat.add_assoc] at hc
    exact ⟨c, mem_cons_of_mem _ hc⟩

theorem Below.mono {vs ws : Writes} {n : Nat} (h : Below ws n) (hsub : ∀ w ∈ vs, w ∈ ws) : Below vs n :=
  fun w hw => h w (hsub w hw)

theorem Below.of_storeAt {a n k : Nat} {bs : List UInt8} (h : Below (storeAt a bs) n) (hk : bs.length = k + 1) :
    a + k < n := by
  obtain ⟨b, hb⟩ := mem_storeAt (a := a) hk
  exact h _ hb

/-! ## Serializers -/

/-- Where a serializer stands: its address, the bytes it has counted, its writes. -/
structure Cursor where
  p : Nat
  size : Nat := 0
  out : Writes := []

namespace Cursor

/-- `bs` is written when `bs`, filled up to a multiple of four, has room; only that
many bytes are counted and stepped over. -/
def put (maxSize : Nat) (bs : List UInt8) (c : Cursor) : Except Writes Cursor :=
  if add32 c.size (pad4 bs.length) ≤ maxSize then
    .ok ⟨c.p + pad4 bs.length, add32 c.size (pad4 bs.length), c.out ++ storeAt c.p bs⟩
  else
    .error c.out

def putWord (maxSize x : Nat) (c : Cursor) : Except Writes Cursor := c.put maxSize (leBytes 4 x)

theorem put_ok {maxSize : Nat} {bs : List UInt8} {c c' : Cursor} (h : c.put maxSize bs = .ok c') :
    c' = ⟨c.p + pad4 bs.length, add32 c.size (pad4 bs.length), c.out ++ storeAt c.p bs⟩ := by
  unfold put at h
  split at h
  · exact (Except.ok.inj h).symm
  · exact nomatch h

end Cursor

theorem bind_ok {ε α β : Type} {x : Except ε α} {f : α → Except ε β} {b : β} :
    (x >>= f) = .ok b ↔ ∃ a, x = .ok a ∧ f a = .ok b := by
  cases x with
  | error e => simp [bind, Except.bind]
  | ok a => simp [bind, Except.bind]

end Ns3
