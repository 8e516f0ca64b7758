import Mathlib.Order.Basic
import Mathlib.Tactic.Common

/-!
# Ranges of addresses

When every byte of a range that starts at null or in an interval lies in the interval.
-/

namespace AddressRange

/-- A range of `n` bytes lies in `[lo, hi)`. -/
def Within (lo hi : ℕ) (r : ℕ × ℕ) : Prop := ∀ i < r.2, lo ≤ r.1 + i ∧ r.1 + i < hi

/-- A range that starts at null or in the interval lies in it when it is empty, or when it does not
start at null and ends in the interval at the latest. -/
theorem within_iff {lo hi a n : ℕ} (hlo : 0 < lo) (h : a = 0 ∨ lo ≤ a ∧ a < hi) :
    Within lo hi (a, n) ↔ n = 0 ∨ a ≠ 0 ∧ a + n ≤ hi := by
  constructor
  · intro hall
    rcases Nat.eq_zero_or_pos n with hn | hn
    · exact Or.inl hn
    · have hfirst := hall 0 hn
      have hlast := hall (n - 1) (Nat.sub_lt hn Nat.one_pos)
      simp only at hfirst hlast
      exact Or.inr ⟨by omega, by omega⟩
  · rintro (rfl | ⟨hne, hle⟩) i hi
    · cases hi
    · have hmem := h.resolve_left hne
      simp only at hi ⊢
      omega

end AddressRange
