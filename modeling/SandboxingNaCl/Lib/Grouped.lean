import Mathlib.Data.List.Basic

/-!
# Lists in groups

The elements of a list that have the same value of `f` stand side by side.  A search for an element
of a group need only look from the group's head to its last element.
-/

namespace Grouped

variable {α β : Type*} {f : α → β} {l : List α} {i j : ℕ} {a b : α} {v : β}

/-- Between two elements of a group all are of the group. -/
def IsGrouped (f : α → β) (l : List α) : Prop :=
  ∀ (i j k : ℕ) (a b c : α), i ≤ j → j ≤ k → l[i]? = some a → l[j]? = some b → l[k]? = some c →
    f a = f c → f b = f a

/-- The first element of a group. -/
structure IsHead (f : α → β) (l : List α) (v : β) (i : ℕ) : Prop where
  mem : ∃ a, l[i]? = some a ∧ f a = v
  first : ∀ j a, j < i → l[j]? = some a → f a ≠ v

/-- The element after it, if there is one, is of another group. -/
def IsLast (f : α → β) (l : List α) (i : ℕ) : Prop :=
  ∀ a b, l[i]? = some a → l[i + 1]? = some b → f b ≠ f a

theorem IsLast.after (h : IsGrouped f l) (hlast : IsLast f l i) (hi : l[i]? = some a)
    (hj : l[j]? = some b) (hij : i < j) : f b ≠ f a := by
  intro heq
  obtain ⟨c, hc⟩ : ∃ c, l[i + 1]? = some c := by
    obtain ⟨hlen, -⟩ := List.getElem?_eq_some_iff.1 hj
    exact ⟨_, List.getElem?_eq_getElem (by omega)⟩
  exact hlast a c hi hc (h i (i + 1) j a c b (by omega) hij hi hc hj heq.symm)

theorem exists_next_of_not_isLast (hlast : ¬ IsLast f l i) (hi : l[i]? = some a) :
    ∃ b, l[i + 1]? = some b ∧ f b = f a := by
  unfold IsLast at hlast
  push Not at hlast
  obtain ⟨a', b, ha', hb, heq⟩ := hlast
  rw [hi] at ha'
  cases ha'
  exact ⟨b, hb, heq⟩

theorem not_mem_of_isLast (h : IsGrouped f l) (hlast : IsLast f l i) (hi : l[i]? = some a)
    (hb : f b = f a) (hbefore : ∀ j < i, l[j]? ≠ some b) (hne : a ≠ b) : b ∉ l := by
  intro hmem
  obtain ⟨j, hj⟩ := List.getElem?_of_mem hmem
  rcases Nat.lt_trichotomy j i with hlt | heq | hgt
  · exact hbefore j hlt hj
  · rw [heq, hi] at hj
    exact hne (Option.some.inj hj)
  · exact hlast.after h hi hj hgt hb

end Grouped
