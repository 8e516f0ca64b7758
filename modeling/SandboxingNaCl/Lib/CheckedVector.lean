import Mathlib.Data.List.Basic

/-!
# Vectors with checked access

A vector is the list of its elements.  `load`, `store`, `move` and `fill` work on ranges of it and
fail when one lies outside; each has a rule for a vector that is given in pieces.
-/

namespace CheckedVector

variable {α : Type*}

/-- `xs.resize(n)`, with `a` in the new places. -/
def resize (xs : List α) (n : ℕ) (a : α) : List α := xs.take n ++ List.replicate (n - xs.length) a

/-- `n` elements from the `i`-th on. -/
def loadRange (xs : List α) (i n : ℕ) : Option (List α) :=
  if i + n ≤ xs.length then some ((xs.drop i).take n) else none

/-- The elements from the `i`-th on become `ys`. -/
def storeRange (xs : List α) (i : ℕ) (ys : List α) : Option (List α) :=
  if i + ys.length ≤ xs.length then some (xs.take i ++ ys ++ xs.drop (i + ys.length)) else none

/-- `xs[i] = a`. -/
def store (xs : List α) (i : ℕ) (a : α) : Option (List α) := storeRange xs i [a]

/-- `memmove(&xs[i], &xs[j], n)`. -/
def move (xs : List α) (i j n : ℕ) : Option (List α) := (loadRange xs j n).bind (storeRange xs i)

/-- `memset(&xs[i], a, n)`. -/
def fill (xs : List α) (i : ℕ) (a : α) (n : ℕ) : Option (List α) :=
  storeRange xs i (List.replicate n a)

theorem length_resize (xs : List α) (n : ℕ) (a : α) : (resize xs n a).length = n := by
  rw [resize, List.length_append, List.length_take, List.length_replicate]
  omega

theorem resize_append (xs ys : List α) (n : ℕ) (a : α) :
    resize (xs ++ ys) (xs.length + n) a = xs ++ resize ys n a := by
  rw [resize, resize, List.take_length_add_append, List.length_append, Nat.add_sub_add_left,
    List.append_assoc]

theorem loadRange_append (xs ys zs : List α) :
    loadRange (xs ++ ys ++ zs) xs.length ys.length = some ys := by
  rw [loadRange, if_pos (by simp), List.append_assoc, List.drop_left, List.take_left]

theorem storeRange_append (xs ys zs : List α) {ws : List α} (h : ws.length = ys.length) :
    storeRange (xs ++ ys ++ zs) xs.length ws = some (xs ++ ws ++ zs) := by
  have htake : (xs ++ ys ++ zs).take xs.length = xs := by
    rw [List.append_assoc, List.take_left]
  have hdrop : (xs ++ ys ++ zs).drop (xs.length + ys.length) = zs := by
    rw [← List.length_append, List.drop_left]
  rw [storeRange, if_pos (by simp [h]), h, htake, hdrop]

theorem store_append (xs zs : List α) (a b : α) :
    store (xs ++ a :: zs) xs.length b = some (xs ++ b :: zs) := by
  have h : storeRange (xs ++ [a] ++ zs) xs.length [b] = some (xs ++ [b] ++ zs) :=
    storeRange_append xs [a] zs rfl
  rw [List.append_assoc, List.append_assoc] at h
  exact h

theorem store_eq_set {xs : List α} {i : ℕ} (h : i < xs.length) (a : α) :
    store xs i a = some (xs.set i a) := by
  have hroom : i + [a].length ≤ xs.length := h
  rw [store, storeRange, if_pos hroom, List.set_eq_take_append_cons_drop, if_pos h,
    List.append_assoc]
  rfl

theorem fill_append (xs ys zs : List α) (a : α) :
    fill (xs ++ ys ++ zs) xs.length a ys.length =
      some (xs ++ List.replicate ys.length a ++ zs) :=
  storeRange_append xs ys zs (List.length_replicate)

/-- A vector in three pieces of given lengths. -/
theorem exists_pieces {zs : List α} {a b c : ℕ} (h : zs.length = a + b + c) :
    ∃ xs ys ws, zs = xs ++ ys ++ ws ∧ xs.length = a ∧ ys.length = b ∧ ws.length = c := by
  refine ⟨zs.take a, (zs.drop a).take b, (zs.drop a).drop b, ?_, ?_, ?_, ?_⟩
  · rw [List.append_assoc, List.take_append_drop, List.take_append_drop]
  · rw [List.length_take]
    omega
  · rw [List.length_take, List.length_drop]
    omega
  · rw [List.length_drop, List.length_drop]
    omega

end CheckedVector
