import Mathlib.Data.List.Basic

/-!
# Run-length encoding with a marker

In an encoded list a `marker` and a count stand for further copies of the element before them, as many
as `reps` makes of the count.  A marker without an element before it or a valid count behind it ends
the expansion.
-/

namespace RunLength

variable {α : Type*} [DecidableEq α]

/-- The expansion of a list behind an element. -/
def expandAfter (marker : α) (reps : α → Option ℕ) : Option α → List α → List α
  | _, [] => []
  | last, a :: rest =>
    if a ≠ marker then a :: expandAfter marker reps (some a) rest
    else
      match last, rest with
      | some last, count :: rest =>
        match reps count with
        | some n => List.replicate n last ++ expandAfter marker reps (some last) rest
        | none => []
      | _, _ => []

/-- Each marker has an element before it and a valid count behind it. -/
def validAfter (marker : α) (reps : α → Option ℕ) : Option α → List α → Bool
  | _, [] => true
  | last, a :: rest =>
    if a ≠ marker then validAfter marker reps (some a) rest
    else
      match last, rest with
      | some last, count :: rest => (reps count).isSome && validAfter marker reps (some last) rest
      | _, _ => false

def expand (marker : α) (reps : α → Option ℕ) (xs : List α) : List α :=
  expandAfter marker reps none xs

def decode (marker : α) (reps : α → Option ℕ) (xs : List α) : Option (List α) :=
  if validAfter marker reps none xs then some (expand marker reps xs) else none

section

variable {marker : α} {reps : α → Option ℕ} {last : Option α} {a count : α} {xs rest : List α} {n : ℕ}

theorem expandAfter_cons_of_ne (h : a ≠ marker) : expandAfter marker reps last (a :: rest) =
    a :: expandAfter marker reps (some a) rest := by
  cases last <;> cases rest <;> simp [expandAfter, h]

theorem expandAfter_none_marker : expandAfter marker reps none (marker :: rest) = [] := by
  simp [expandAfter]

theorem expandAfter_marker_nil : expandAfter marker reps last [marker] = [] := by
  cases last <;> simp [expandAfter]

theorem expandAfter_run (h : reps count = some n) :
    expandAfter marker reps (some a) (marker :: count :: rest) =
      List.replicate n a ++ expandAfter marker reps (some a) rest := by
  simp [expandAfter, h]

theorem expandAfter_bad (h : reps count = none) :
    expandAfter marker reps last (marker :: count :: rest) = [] := by
  cases last <;> simp [expandAfter, h]

theorem expandAfter_append (h : marker ∉ xs) : expandAfter marker reps last (xs ++ rest) =
    xs ++ expandAfter marker reps (xs.getLast?.or last) rest := by
  induction xs generalizing last with
  | nil => rfl
  | cons x xs ih =>
    have hx : x ≠ marker := fun h' => h (h' ▸ List.mem_cons_self)
    rw [List.cons_append, expandAfter_cons_of_ne hx, ih (List.not_mem_of_not_mem_cons h),
      List.cons_append, List.getLast?_cons]
    cases xs.getLast? <;> rfl

theorem validAfter_cons_of_ne (h : a ≠ marker) : validAfter marker reps last (a :: rest) =
    validAfter marker reps (some a) rest := by
  cases last <;> cases rest <;> simp [validAfter, h]

theorem validAfter_run (h : reps count = some n) :
    validAfter marker reps (some a) (marker :: count :: rest) =
      validAfter marker reps (some a) rest := by
  simp [validAfter, h]

theorem validAfter_append (h : marker ∉ xs) : validAfter marker reps last (xs ++ rest) =
    validAfter marker reps (xs.getLast?.or last) rest := by
  induction xs generalizing last with
  | nil => rfl
  | cons x xs ih =>
    have hx : x ≠ marker := fun h' => h (h' ▸ List.mem_cons_self)
    rw [List.cons_append, validAfter_cons_of_ne hx, ih (List.not_mem_of_not_mem_cons h),
      List.getLast?_cons]
    cases xs.getLast? <;> rfl

end

end RunLength
