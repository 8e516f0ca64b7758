import Mathlib.Tactic.Common

/-!
# Images at a bias

A memory whose addresses are the numbers below `n`, in which an image is laid out at a bias: what
the image has at `v` is kept at the bias plus `v`, and the sum wraps.  `view` is the memory as the
image sees it, and `overwrite` changes a range of it.
-/

namespace BiasedImage

variable {α : Type*} {n bias s len u v : ℕ} {m : ℕ → α}

/-- The memory after the cells of `[a, a + len)` have been changed, each by its place and what was
in it. -/
def overwrite (m : ℕ → α) (a len : ℕ) (f : ℕ → α → α) (x : ℕ) : α :=
  if a ≤ x ∧ x < a + len then f (x - a) (m x) else m x

/-- What the image has at `v`. -/
def view (n : ℕ) (m : ℕ → α) (bias v : ℕ) : α := m ((bias + v) % n)

theorem add_mod_eq (hbias : bias < n) (hv : v < n) :
    (bias + v) % n = if n ≤ bias + v then bias + v - n else bias + v := by
  rw [Nat.add_mod_eq_ite, Nat.mod_eq_of_lt hbias, Nat.mod_eq_of_lt hv]

theorem add_mod_inj (hbias : bias < n) (hu : u < n) (hv : v < n) :
    (bias + u) % n = (bias + v) % n ↔ u = v := by
  rw [add_mod_eq hbias hu, add_mod_eq hbias hv]
  split_ifs <;> omega

/-- A range of addresses that does not wrap is a range of the image. -/
theorem view_overwrite {f : ℕ → α → α} (hbias : bias < n) (hv : v < n) (hs : s < n)
    (hfit : s + len ≤ n) (hroom : (bias + s) % n + len ≤ n) :
    view n (overwrite m ((bias + s) % n) len f) bias v =
      if s ≤ v ∧ v < s + len then f (v - s) (view n m bias v) else view n m bias v := by
  have hrange : ((bias + s) % n ≤ (bias + v) % n ∧ (bias + v) % n < (bias + s) % n + len) ↔
      s ≤ v ∧ v < s + len := by
    rw [add_mod_eq hbias hs] at hroom ⊢
    rw [add_mod_eq hbias hv]
    split_ifs at hroom ⊢ <;> omega
  unfold view overwrite
  by_cases hin : s ≤ v ∧ v < s + len
  · rw [if_pos (hrange.2 hin), if_pos hin]
    congr 1
    obtain ⟨hle, hlt⟩ := hrange.2 hin
    rw [add_mod_eq hbias hs] at hroom hle hlt ⊢
    rw [add_mod_eq hbias hv] at hle hlt ⊢
    split_ifs at hroom hle hlt ⊢ <;> omega
  · rw [if_neg fun h => hin (hrange.1 h), if_neg hin]

end BiasedImage
