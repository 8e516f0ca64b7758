import Mathlib.Algebra.Ring.Nat
import Mathlib.Data.Int.Order.Basic
import Mathlib.Tactic.Common

/-!
# Machine integers

Unsigned 64-bit arithmetic on `ℕ`, wrapping at `2 ^ 64`, and the conversions of such a value to
the signed types.  Each operation comes with the lemma that removes the wrapping where the exact
result fits.
-/

namespace MachineInt

/-- `a + b` in a 64-bit unsigned type. -/
def uadd (a b : ℕ) : ℕ := (a + b) % 2 ^ 64

/-- `a - b` in a 64-bit unsigned type. -/
def usub (a b : ℕ) : ℕ := (a + (2 ^ 64 - b)) % 2 ^ 64

/-- `a << k` in a 64-bit unsigned type. -/
def ushl (a k : ℕ) : ℕ := (a * 2 ^ k) % 2 ^ 64

/-- `a` with its `k` low bits cleared. -/
def alignDown (k a : ℕ) : ℕ := a / 2 ^ k * 2 ^ k

/-- `a` rounded up to a multiple of `2 ^ k` in a 64-bit unsigned type. -/
def alignUp (k a : ℕ) : ℕ := alignDown k (uadd a (2 ^ k - 1))

/-- The value of a 64-bit unsigned integer converted to `int64_t`. -/
def toInt64 (a : ℕ) : ℤ := Int.bmod a (2 ^ 64)

/-- The value of an unsigned integer converted to a 32-bit `int`. -/
def toInt32 (a : ℕ) : ℤ := Int.bmod a (2 ^ 32)

theorem uadd_eq {a b : ℕ} (h : a + b < 2 ^ 64) : uadd a b = a + b := Nat.mod_eq_of_lt h

theorem usub_eq {a b : ℕ} (h : b ≤ a) (ha : a < 2 ^ 64) : usub a b = a - b := by
  unfold usub
  omega

theorem ushl_eq {a k : ℕ} (h : a * 2 ^ k < 2 ^ 64) : ushl a k = a * 2 ^ k := Nat.mod_eq_of_lt h

theorem alignDown_le (k a : ℕ) : alignDown k a ≤ a := Nat.div_mul_le_self a (2 ^ k)

theorem dvd_alignDown (k a : ℕ) : 2 ^ k ∣ alignDown k a := Nat.dvd_mul_left _ _

theorem dvd_alignUp (k a : ℕ) : 2 ^ k ∣ alignUp k a := dvd_alignDown k _

theorem alignDown_eq_self {k a : ℕ} (h : 2 ^ k ∣ a) : alignDown k a = a := Nat.div_mul_cancel h

theorem le_alignDown_iff {k a m : ℕ} (h : 2 ^ k ∣ m) : m ≤ alignDown k a ↔ m ≤ a := by
  obtain ⟨q, rfl⟩ := h
  rw [alignDown, Nat.mul_comm, Nat.mul_le_mul_right_iff (Nat.two_pow_pos k),
    Nat.le_div_iff_mul_le (Nat.two_pow_pos k), Nat.mul_comm]

/-- A multiple of `2 ^ k` is at least `a` exactly when it is at least `a` rounded up, where rounding
does not wrap. -/
theorem alignUp_le_iff {k a m : ℕ} (h : 2 ^ k ∣ m) (ha : a + 2 ^ k ≤ 2 ^ 64) :
    alignUp k a ≤ m ↔ a ≤ m := by
  have hpos := Nat.two_pow_pos k
  obtain ⟨q, rfl⟩ := h
  rw [alignUp, uadd_eq (by omega), alignDown, Nat.mul_comm, Nat.mul_le_mul_left_iff hpos,
    ← Nat.lt_succ_iff, Nat.div_lt_iff_lt_mul hpos, Nat.succ_mul, Nat.mul_comm (2 ^ k)]
  omega

theorem le_alignUp {k a : ℕ} (ha : a + 2 ^ k ≤ 2 ^ 64) : a ≤ alignUp k a :=
  (alignUp_le_iff (dvd_alignUp k a) ha).1 (Nat.le_refl _)

theorem toInt64_eq {a : ℕ} (h : a < 2 ^ 63) : toInt64 a = a := by
  unfold toInt64
  rw [Int.bmod_eq_of_le (by omega) (by omega)]

theorem toInt32_usub_nonpos_iff {a b : ℕ} (ha : a < 2 ^ 31) (hb : b < 2 ^ 31) :
    toInt32 (usub a b) ≤ 0 ↔ a ≤ b := by
  unfold toInt32 usub
  rw [Int.bmod_def]
  omega

end MachineInt
