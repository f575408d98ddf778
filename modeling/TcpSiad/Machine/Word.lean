import Mathlib.Data.BitVec

/-! Machine words and faults as `tcp-siad.cpp` uses them: `uint32_t` is `BitVec 32` and `uint64_t`
is `BitVec 64`, with wrapping arithmetic and unsigned `<`. A division by a variable is `divide`,
which stops with `divByZero` and the source line instead of reading `x / 0` as `0`. -/
namespace TcpSiad

/-- The way a call can fail: an integer division by zero at a line of `tcp-siad.cpp`. -/
inductive Fault where
  | divByZero (line : Nat)
  deriving DecidableEq, Repr

/-- Unsigned division at source line `line`. -/
def divide {w : Nat} (line : Nat) (a b : BitVec w) : Except Fault (BitVec w) :=
  if b = 0 then throw (.divByZero line) else pure (a / b)

/-- `std::max` on one unsigned type, `(a < b) ? b : a`. -/
def stdMax {w : Nat} (a b : BitVec w) : BitVec w := if a < b then b else a

/-- `std::min` on one unsigned type, `(b < a) ? b : a`. -/
def stdMin {w : Nat} (a b : BitVec w) : BitVec w := if b < a then b else a

/-- The floor `if (v < lo) v = lo;` that the source applies to `alpha`, window and threshold. -/
def atLeast {w : Nat} (lo v : BitVec w) : BitVec w := if v < lo then lo else v

section Except

variable {ε α β : Type} {x : Except ε α} {f : α → Except ε β} {b : β} {e : ε}

@[simp] theorem bind_eq_ok : x >>= f = .ok b ↔ ∃ a, x = .ok a ∧ f a = .ok b := by
  cases x <;> simp [Bind.bind, Except.bind]

theorem bind_eq_error : x >>= f = .error e ↔ x = .error e ∨ ∃ a, x = .ok a ∧ f a = .error e := by
  cases x <;> simp [Bind.bind, Except.bind]

@[simp] theorem pure_eq_ok {a b : α} : (pure a : Except ε α) = .ok b ↔ a = b := by
  simp [pure, Except.pure]

@[simp] theorem map_eq_ok {g : α → β} : g <$> x = .ok b ↔ ∃ a, x = .ok a ∧ g a = b := by
  cases x <;> simp [Functor.map, Except.map]

theorem map_eq_error {g : α → β} : g <$> x = .error e ↔ x = .error e := by
  cases x <;> simp [Functor.map, Except.map]

theorem pure_ne_error {a : α} : (pure a : Except ε α) ≠ .error e := by
  simp [pure, Except.pure]

end Except

section Word

variable {w : Nat} {line : Nat} {a b q : BitVec w}

@[simp] theorem divide_eq_ok : divide line a b = .ok q ↔ b ≠ 0 ∧ a / b = q := by
  unfold divide
  split
  · simp_all [throw, throwThe, MonadExceptOf.throw]
  · simp_all

theorem divide_of_ne_zero (h : b ≠ 0) : divide line a b = .ok (a / b) := by
  rw [divide, if_neg h]; rfl

theorem divide_eq_error {e : Fault} : divide line a b = .error e ↔ b = 0 ∧ e = .divByZero line := by
  unfold divide
  split <;> simp_all [throw, throwThe, MonadExceptOf.throw, pure, Except.pure, eq_comm]

@[simp] theorem toNat_stdMax : (stdMax a b).toNat = max a.toNat b.toNat := by
  unfold stdMax; split <;> (rename_i h; rw [BitVec.lt_def] at h; omega)

@[simp] theorem toNat_stdMin : (stdMin a b).toNat = min a.toNat b.toNat := by
  unfold stdMin; split <;> (rename_i h; rw [BitVec.lt_def] at h; omega)

@[simp] theorem toNat_atLeast : (atLeast a b).toNat = max a.toNat b.toNat := by
  unfold atLeast; split <;> (rename_i h; rw [BitVec.lt_def] at h; omega)

theorem stdMin_le_right : stdMin a b ≤ b := by
  rw [BitVec.le_def, toNat_stdMin]; exact min_le_right _ _

theorem le_atLeast : a ≤ atLeast a b := by
  rw [BitVec.le_def, toNat_atLeast]; exact le_max_left _ _

theorem one_le_stdMax_one (b : BitVec 32) : 1 ≤ stdMax 1 b := by
  rw [BitVec.le_def, toNat_stdMax]; exact le_max_left _ _

theorem udiv_le_self : a / b ≤ a := by
  rw [BitVec.le_def, BitVec.toNat_udiv]; exact Nat.div_le_self _ _

theorem sub_le_self_of_le (h : b ≤ a) : a - b ≤ a := by
  rw [BitVec.le_def, BitVec.toNat_sub_of_le h]; exact Nat.sub_le _ _

theorem toNat_add_le (a b : BitVec 32) : (a + b).toNat ≤ a.toNat + b.toNat := by
  rw [BitVec.toNat_add]; exact Nat.mod_le _ _

theorem toNat_udiv_mul (c d : BitVec 32) : (c / d * d).toNat = c.toNat / d.toNat * d.toNat := by
  have := Nat.div_mul_le_self c.toNat d.toNat
  have := c.isLt
  simp only [BitVec.toNat_mul, BitVec.toNat_udiv]
  exact Nat.mod_eq_of_lt (by omega)

theorem toNat_sub_udiv_mul (c d : BitVec 32) :
    (c - c / d * d).toNat = c.toNat - c.toNat / d.toNat * d.toNat := by
  have := Nat.div_mul_le_self c.toNat d.toNat
  rw [BitVec.toNat_sub_of_le (by rw [BitVec.le_def, toNat_udiv_mul]; exact this), toNat_udiv_mul]

/-- A 32-bit value scaled by `m / d` in 64 bits, `m * x / d` truncated back to 32 bits, is at
most the value when `m ≤ d`, even where the 64-bit product wraps. -/
theorem toNat_delayScaled_le {m d : BitVec 64} (hRatio : m ≤ d) (x : BitVec 32) :
    (((m * x.setWidth 64) / d).setWidth 32).toNat ≤ x.toNat := by
  rw [BitVec.le_def] at hRatio
  have hx : (x.setWidth 64).toNat = x.toNat := by
    rw [BitVec.toNat_setWidth]; exact Nat.mod_eq_of_lt (by omega)
  rw [BitVec.toNat_setWidth, BitVec.toNat_udiv, BitVec.toNat_mul, hx]
  calc (m.toNat * x.toNat % 2 ^ 64 / d.toNat) % 2 ^ 32
      ≤ m.toNat * x.toNat % 2 ^ 64 / d.toNat := Nat.mod_le _ _
    _ ≤ m.toNat * x.toNat / d.toNat := Nat.div_le_div_right (Nat.mod_le _ _)
    _ ≤ x.toNat := Nat.div_le_of_le_mul (Nat.mul_le_mul_right _ hRatio)

/-! ### The unsigned order -/

theorem lt_or_eq_or_gt (a b : BitVec w) : a < b ∨ a = b ∨ b < a := by
  rcases Nat.lt_trichotomy a.toNat b.toNat with h | h | h
  exacts [.inl h, .inr (.inl (BitVec.eq_of_toNat_eq h)), .inr (.inr h)]

theorem not_lt_zero_word (a : BitVec w) : ¬a < 0 := by
  simp [BitVec.lt_def]

theorem ne_zero_of_gt (h : a < b) : b ≠ 0 :=
  fun h0 => not_lt_zero_word a (h0 ▸ h)

theorem le_of_lt_word (h : a < b) : a ≤ b :=
  BitVec.le_def.mpr (Nat.le_of_lt h)

end Word

end TcpSiad
