import Mathlib.Tactic

/-!
# Unsigned 64-bit arithmetic on natural numbers

Sums and products are reduced modulo `2 ^ 64`, and a difference that would be
negative wraps around once, as `uint64_t` and `size_t` operations do.
-/

namespace Sponge.Lib

def add64 (a b : ℕ) : ℕ := (a + b) % 2 ^ 64

def sub64 (a b : ℕ) : ℕ := if b ≤ a then a - b else a + 2 ^ 64 - b

def mul64 (a b : ℕ) : ℕ := a * b % 2 ^ 64

theorem add64_of_lt {a b : ℕ} (h : a + b < 2 ^ 64) : add64 a b = a + b :=
  Nat.mod_eq_of_lt h

theorem sub64_of_le {a b : ℕ} (h : b ≤ a) : sub64 a b = a - b :=
  if_pos h

theorem add64_lt (a b : ℕ) : add64 a b < 2 ^ 64 :=
  Nat.mod_lt _ (by norm_num)

theorem sub64_lt {a : ℕ} (b : ℕ) (h : a < 2 ^ 64) : sub64 a b < 2 ^ 64 := by
  rw [sub64]
  split_ifs <;> omega

/-- Adding back what was subtracted is the identity modulo `2 ^ 64`, also when
the difference wrapped around. -/
theorem sub64_add_mod (a : ℕ) {b : ℕ} (h : b ≤ 2 ^ 64) :
    (sub64 a b + b) % 2 ^ 64 = a % 2 ^ 64 := by
  rw [sub64]
  split_ifs <;> omega

/-- The distance to a point that stays behind grows like the clock. -/
theorem sub64_add64 {a b : ℕ} (ha : a < 2 ^ 64) (hb : b < 2 ^ 64) (n : ℕ) :
    sub64 (add64 a n) b = (sub64 a b + n) % 2 ^ 64 := by
  rw [sub64, sub64, add64]
  split_ifs <;> omega

/-- The distance between two readings of a clock is the time between them, up to rounds. -/
theorem sub64_mod {a b : ℕ} (h : b ≤ a) :
    sub64 (a % 2 ^ 64) (b % 2 ^ 64) = (a - b) % 2 ^ 64 := by
  rw [sub64]
  split_ifs <;> omega

theorem add64_add64 (a b c : ℕ) : add64 (add64 a b) c = add64 a (b + c) := by
  simp only [add64]
  omega

end Sponge.Lib
