import Ns3.Lib.NetOrder

/-!
# Readers with assertions

A reader takes words off the front of bytes. It comes to its value with the
bytes that are left, or it fails an assertion, or it would read past the end.
`Reads` is for the bytes that were written of a value, `Stays` for any bytes:
exactly the next `m` bytes are read, or an assertion fails among them.
-/

namespace Ns3

open List

inductive Reading (α : Type) where
  | done (a : α) (rest : List UInt8)
  | failed (rest : List UInt8)
  | pastEnd

def Reading.left {α : Type} : Reading α → Nat
  | .done _ rest => rest.length
  | .failed rest => rest.length
  | .pastEnd => 0

structure ByteReader (α : Type) where
  run : List UInt8 → Reading α
  left_le : ∀ bs, (run bs).left ≤ bs.length

namespace ByteReader

variable {α β : Type}

def andThen (x : Reading α) (f : α → ByteReader β) : Reading β :=
  match x with
  | .done a rest => (f a).run rest
  | .failed rest => .failed rest
  | .pastEnd => .pastEnd

theorem andThen_left_le (x : Reading α) (f : α → ByteReader β) : (andThen x f).left ≤ x.left := by
  cases x with
  | done a rest => exact (f a).left_le rest
  | failed rest => exact Nat.le_refl _
  | pastEnd => exact Nat.le_refl _

instance : Monad ByteReader where
  pure a := ⟨fun bs => .done a bs, fun _ => Nat.le_refl _⟩
  bind r f := ⟨fun bs => andThen (r.run bs) f, fun bs => Nat.le_trans (andThen_left_le _ f) (r.left_le bs)⟩

/-- A word of `n` bytes in network order. -/
def word (n : Nat) : ByteReader Nat where
  run bs := if n ≤ bs.length then .done (ofNtoh (bs.take n)) (bs.drop n) else .pastEnd
  left_le bs := by
    split
    · exact (List.drop_sublist n bs).length_le
    · exact Nat.zero_le _

def check (p : Prop) [Decidable p] : ByteReader Unit where
  run bs := if p then .done () bs else .failed bs
  left_le bs := by split <;> exact Nat.le_refl _

def times (r : ByteReader α) : Nat → ByteReader (List α)
  | 0 => pure []
  | n + 1 => do
    let a ← r
    let as ← times r n
    pure (a :: as)

theorem ext {r r' : ByteReader α} (h : ∀ bs, r.run bs = r'.run bs) : r = r' := by
  cases r
  cases r'
  congr 1
  exact funext h

theorem run_pure (a : α) (bs : List UInt8) : (pure a : ByteReader α).run bs = .done a bs := rfl

theorem run_bind (r : ByteReader α) (f : α → ByteReader β) (bs : List UInt8) :
    (r >>= f).run bs = andThen (r.run bs) f := rfl

variable {p : Prop} {bs rest bytes : List UInt8} {n k : Nat} {r : ByteReader α} {f : α → ByteReader β} {b : β}
  {a : α}

theorem run_check [Decidable p] : (check p).run bs = if p then .done () bs else .failed bs := rfl

theorem run_word (h : n ≤ bs.length) : (word n).run bs = .done (ofNtoh (bs.take n)) (bs.drop n) := if_pos h

instance : LawfulMonad ByteReader := LawfulMonad.mk' _
  (fun r => ext fun bs => by
    show andThen (r.run bs) _ = r.run bs
    cases r.run bs <;> rfl)
  (fun _ _ => rfl)
  (fun r f g => ext fun bs => by
    show andThen (andThen (r.run bs) f) g = andThen (r.run bs) fun a => f a >>= g
    cases r.run bs <;> rfl)

theorem bind_done
    (h : (r >>= f).run bs = .done b rest) : ∃ a mid, r.run bs = .done a mid ∧ (f a).run mid = .done b rest := by
  rw [run_bind] at h
  cases hr : r.run bs with
  | done a mid =>
    rw [hr] at h
    exact ⟨a, mid, rfl, h⟩
  | failed mid =>
    rw [hr] at h
    cases h
  | pastEnd =>
    rw [hr] at h
    cases h

theorem left_le_of_done (h : r.run bs = .done a rest) : rest.length ≤ bs.length := by
  have := r.left_le bs
  rwa [h] at this

/-! ## Loops -/

def Shortens (r : ByteReader α) : Prop := ∀ bs a rest, r.run bs = .done a rest → rest.length < bs.length

theorem shortens_word (h : 0 < n) : (word n).Shortens := by
  intro bs x rest hrun
  by_cases hn : n ≤ bs.length
  · rw [run_word hn] at hrun
    obtain ⟨-, rfl⟩ := Reading.done.inj hrun
    rw [length_drop]
    omega
  · have hpast : (word n).run bs = .pastEnd := if_neg hn
    rw [hpast] at hrun
    cases hrun

theorem Shortens.bind (h : r.Shortens) (f : α → ByteReader β) : (r >>= f).Shortens := by
  intro bs b rest hrun
  obtain ⟨a, mid, hr, hf⟩ := bind_done hrun
  exact Nat.lt_of_le_of_lt (left_le_of_done hf) (h bs a mid hr)

theorem Shortens.check [Decidable p] {f : Unit → ByteReader β} (h : (f ()).Shortens) : (check p >>= f).Shortens := by
  intro bs b rest hrun
  obtain ⟨a, mid, hp, hf⟩ := bind_done hrun
  exact Nat.lt_of_lt_of_le (h mid b rest hf) (left_le_of_done hp)

section
variable {σ : Type} {stop : σ → Bool} {step : σ → ByteReader (α × σ)} {hstep : ∀ s, (step s).Shortens} {s : σ}

/-- The loop that reads on until `stop`: each time a value, and what it goes on from. -/
def loopFrom (stop : σ → Bool) (step : σ → ByteReader (α × σ)) (hstep : ∀ s, (step s).Shortens) (s : σ) (bs : List UInt8) :
    Reading (List α) :=
  if stop s then .done [] bs
  else
    match hrun : (step s).run bs with
    | .done (a, s') rest =>
      have := hstep s bs (a, s') rest hrun
      match loopFrom stop step hstep s' rest with
      | .done as rest => .done (a :: as) rest
      | .failed rest => .failed rest
      | .pastEnd => .pastEnd
    | .failed rest => .failed rest
    | .pastEnd => .pastEnd
termination_by bs.length

theorem loopFrom_left_le (stop : σ → Bool) (step : σ → ByteReader (α × σ)) (hstep : ∀ s, (step s).Shortens) (s : σ)
    (bs : List UInt8) : (loopFrom stop step hstep s bs).left ≤ bs.length := by
  rw [loopFrom]
  by_cases hs : stop s = true
  · rw [if_pos hs]
    exact Nat.le_refl _
  · rw [if_neg hs]
    have hle := (step s).left_le bs
    split
    · rename_i a s' rest hrun
      have hlt := hstep s bs (a, s') rest hrun
      have hrest := loopFrom_left_le stop step hstep s' rest
      cases hloop : loopFrom stop step hstep s' rest with
      | done as rest' =>
        rw [hloop] at hrest
        exact Nat.le_trans hrest (Nat.le_of_lt hlt)
      | failed rest' =>
        rw [hloop] at hrest
        exact Nat.le_trans hrest (Nat.le_of_lt hlt)
      | pastEnd => exact Nat.zero_le _
    · rename_i rest hrun
      rwa [hrun] at hle
    · exact Nat.zero_le _
termination_by bs.length

def loop (stop : σ → Bool) (step : σ → ByteReader (α × σ)) (hstep : ∀ s, (step s).Shortens) (s : σ) : ByteReader (List α) :=
  ⟨loopFrom stop step hstep s, loopFrom_left_le stop step hstep s⟩

theorem loop_stop (hs : stop s = true) : loop stop step hstep s = pure [] := by
  apply ByteReader.ext
  intro bs
  show loopFrom stop step hstep s bs = .done [] bs
  rw [loopFrom, if_pos hs]

theorem loop_step (hs : stop s = false) : loop stop step hstep s =
    step s >>= fun r => loop stop step hstep r.2 >>= fun as => pure (r.1 :: as) := by
  apply ByteReader.ext
  intro bs
  show loopFrom stop step hstep s bs = _
  rw [loopFrom, if_neg (Bool.eq_false_iff.mp hs), run_bind]
  dsimp only
  split
  · rename_i a s' rest hrun
    rw [hrun]
    show _ = andThen ((loop stop step hstep s').run rest) _
    rw [show (loop stop step hstep s').run rest = loopFrom stop step hstep s' rest from rfl]
    cases loopFrom stop step hstep s' rest <;> rfl
  · rename_i rest hrun
    rw [hrun]
    rfl
  · rename_i hrun
    rw [hrun]
    rfl

end

/-! ## Bytes that were written -/

/-- These bytes are read as `a`, whatever comes after them. -/
def Reads (r : ByteReader α) (bytes : List UInt8) (a : α) : Prop := ∀ rest, r.run (bytes ++ rest) = .done a rest

theorem reads_pure (a : α) : (pure a : ByteReader α).Reads [] a := fun _ => rfl

theorem reads_word {n x : Nat} (h : x < 256 ^ n) : (word n).Reads (writeHton n x) x := by
  intro rest
  have hlength : n ≤ (writeHton n x ++ rest).length := by simp
  rw [run_word hlength, take_left' (length_writeHton n x), drop_left' (length_writeHton n x), ofNtoh_writeHton,
    Nat.mod_eq_of_lt h]

theorem Reads.bind {bytes more : List UInt8}
    (h : r.Reads bytes a) (hf : (f a).Reads more b) : (r >>= f).Reads (bytes ++ more) b := by
  intro rest
  rw [run_bind, append_assoc, h]
  exact hf rest

theorem Reads.bind_pure (h : r.Reads bytes a) (g : α → β) : (r >>= fun a => pure (g a)).Reads bytes (g a) := by
  rw [← append_nil bytes]
  exact h.bind (reads_pure _)

theorem Reads.check [Decidable p] {f : Unit → ByteReader β} (hp : p)
    (hf : (f ()).Reads bytes b) : (check p >>= f).Reads bytes b := by
  intro rest
  rw [run_bind, run_check, if_pos hp]
  exact hf rest

theorem Reads.times {write : α → List UInt8} (as : List α) (h : ∀ a ∈ as, r.Reads (write a) a) :
    (r.times as.length).Reads (as.flatMap write) as := by
  induction as with
  | nil => exact reads_pure []
  | cons a as ih =>
    rw [flatMap_cons]
    apply (h a mem_cons_self).bind
    have hrest := ih fun b hb => h b (mem_cons_of_mem a hb)
    exact hrest.bind_pure (a :: ·)

/-! ## Any bytes -/

/-- It reads `k` bytes, if they are there. -/
def Takes (r : ByteReader α) (k : Nat) : Prop :=
  ∀ bs, (k ≤ bs.length → ∃ a, r.run bs = .done a (bs.drop k)) ∧ (bs.length < k → r.run bs = .pastEnd)

theorem takes_pure (a : α) : (pure a : ByteReader α).Takes 0 :=
  fun _ => ⟨fun _ => ⟨a, rfl⟩, fun h => absurd h (Nat.not_lt_zero _)⟩

theorem takes_word (n : Nat) : (word n).Takes n := by
  intro bs
  exact ⟨fun h => ⟨_, run_word h⟩, fun h => if_neg (Nat.not_le.mpr h)⟩

theorem Takes.bind {k l : Nat} (h : r.Takes k) (hf : ∀ a, (f a).Takes l) : (r >>= f).Takes (k + l) := by
  intro bs
  constructor
  · intro hlength
    obtain ⟨a, ha⟩ := (h bs).1 (by omega)
    obtain ⟨b, hb⟩ := ((hf a) (bs.drop k)).1 (by rw [length_drop]; omega)
    rw [run_bind, ha, ← drop_drop]
    exact ⟨b, hb⟩
  · intro hlength
    by_cases hk : k ≤ bs.length
    · obtain ⟨a, ha⟩ := (h bs).1 hk
      rw [run_bind, ha]
      exact ((hf a) (bs.drop k)).2 (by rw [length_drop]; omega)
    · rw [run_bind, (h bs).2 (Nat.not_le.mp hk)]
      rfl

theorem Takes.bind_pure (h : r.Takes k) (g : α → β) : (r >>= fun a => pure (g a)).Takes k :=
  h.bind fun a => takes_pure (g a)

theorem Takes.times (h : r.Takes k) : ∀ n, (r.times n).Takes (n * k)
  | 0 => by
    rw [Nat.zero_mul]
    exact takes_pure []
  | n + 1 => by
    rw [Nat.succ_mul, Nat.add_comm (n * k)]
    exact h.bind fun a => (Takes.times h n).bind_pure _

/-- The next `m` bytes are read and no more; or an assertion fails before more are. -/
def Stays (r : ByteReader α) (m : Nat) (bs : List UInt8) : Prop :=
  match r.run bs with
  | .done _ rest => rest.length + m = bs.length
  | .failed rest => bs.length ≤ rest.length + m
  | .pastEnd => False

variable {r : ByteReader α} {f : α → ByteReader β} {m : Nat} {bs : List UInt8}

theorem stays_pure (a : α) : (pure a : ByteReader α).Stays m bs ↔ m = 0 := by
  rw [Stays, run_pure]
  exact Nat.add_eq_left

theorem stays_bind_pure (g : α → β) : (r >>= fun a => pure (g a)).Stays m bs ↔ r.Stays m bs := by
  rw [Stays, Stays, run_bind]
  cases r.run bs <;> rfl

theorem stays_check [Decidable p] {f : Unit → ByteReader β} : (check p >>= f).Stays m bs ↔ (p → (f ()).Stays m bs) := by
  rw [Stays, run_bind, run_check]
  by_cases hp : p
  · rw [if_pos hp, forall_prop_of_true hp]
    rfl
  · rw [if_neg hp, forall_prop_of_false hp, iff_true]
    exact Nat.le_add_right _ _

theorem stays_after (hr : r.run bs = .done a rest) (hk : rest.length + k = bs.length) :
    (r >>= f).Stays m bs ↔ k ≤ m ∧ (f a).Stays (m - k) rest := by
  have hleft := (f a).left_le rest
  rw [Stays, Stays, run_bind, hr, andThen]
  cases hf : (f a).run rest with
  | done b rest' =>
    rw [hf, Reading.left] at hleft
    dsimp only
    omega
  | failed rest' =>
    rw [hf, Reading.left] at hleft
    dsimp only
    omega
  | pastEnd => simp

theorem Takes.stays_bind (h : r.Takes k) :
    (r >>= f).Stays m bs ↔ k ≤ bs.length ∧ k ≤ m ∧ ∃ a, r.run bs = .done a (bs.drop k) ∧ (f a).Stays (m - k) (bs.drop k) := by
  by_cases hk : k ≤ bs.length
  · obtain ⟨a, ha⟩ := (h bs).1 hk
    have hlength : (bs.drop k).length + k = bs.length := by rw [length_drop]; omega
    rw [stays_after ha hlength, and_iff_right hk]
    constructor
    · exact fun ⟨hm, hf⟩ => ⟨hm, a, ha, hf⟩
    · rintro ⟨hm, b, hb, hf⟩
      obtain ⟨rfl, -⟩ := Reading.done.inj (ha.symm.trans hb)
      exact ⟨hm, hf⟩
  · rw [Stays, run_bind, (h bs).2 (Nat.not_le.mp hk)]
    simp [andThen, hk]

theorem Takes.stays_const {P : Prop} (h : r.Takes k) (hf : ∀ a, (f a).Stays (m - k) (bs.drop k) ↔ P) :
    (r >>= f).Stays m bs ↔ k ≤ bs.length ∧ k ≤ m ∧ P := by
  rw [h.stays_bind]
  constructor
  · rintro ⟨hk, hm, a, -, ha⟩
    exact ⟨hk, hm, (hf a).mp ha⟩
  · rintro ⟨hk, hm, hP⟩
    obtain ⟨a, ha⟩ := (h bs).1 hk
    exact ⟨hk, hm, a, ha, (hf a).mpr hP⟩

theorem stays_word {f : Nat → ByteReader β} : (word n >>= f).Stays m bs ↔
      n ≤ bs.length ∧ n ≤ m ∧ (f (ofNtoh (bs.take n))).Stays (m - n) (bs.drop n) := by
  rw [(takes_word n).stays_bind]
  constructor
  · rintro ⟨hn, hm, x, hx, hf⟩
    rw [run_word hn] at hx
    obtain ⟨rfl, -⟩ := Reading.done.inj hx
    exact ⟨hn, hm, hf⟩
  · exact fun ⟨hn, hm, hf⟩ => ⟨hn, hm, _, run_word hn, hf⟩

theorem Takes.stays (h : r.Takes k) : r.Stays m bs ↔ k ≤ bs.length ∧ m = k := by
  rw [Stays]
  by_cases hk : k ≤ bs.length
  · obtain ⟨a, ha⟩ := (h bs).1 hk
    rw [ha]
    dsimp only
    rw [length_drop]
    omega
  · rw [(h bs).2 (Nat.not_le.mp hk)]
    simp [hk]

end ByteReader

end Ns3
