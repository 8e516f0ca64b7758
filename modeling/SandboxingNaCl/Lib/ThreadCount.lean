import Mathlib.Algebra.BigOperators.Group.Finset.Piecewise
import Mathlib.Algebra.Order.BigOperators.Group.Finset

/-!
# Counting threads

A system gives each of finitely many threads the point of its code that it has reached.  `count` is the
number of threads at a kind of point; a step moves one thread, and changes the count by that thread.
`total` adds up what the threads have.  `OwnedBy` says that a mutex belongs to the thread that is at a
point where it has it.
-/

namespace Threads

open Function

variable {θ π : Type*} [Fintype θ] {P : π → Bool} {point : θ → π} {t : θ}

/-- The number of threads whose point meets `P`. -/
def count (P : π → Bool) (point : θ → π) : ℕ := (Finset.univ.filter fun t => P (point t)).card

theorem count_update_add [DecidableEq θ] (P : π → Bool) (point : θ → π) (t : θ) (p : π) :
    count P (update point t p) + (P (point t)).toNat = count P point + (P p).toNat := by
  have hrest : ∀ f : θ → π, count P f =
      ((Finset.univ.erase t).filter fun u => P (f u)).card + (P (f t)).toNat := by
    intro f
    unfold count
    rw [← Finset.insert_erase (Finset.mem_univ t), Finset.filter_insert, Finset.erase_insert_eq_erase,
      Finset.erase_idem]
    cases P (f t) with
    | false => simp
    | true => simp
  have hothers : ((Finset.univ.erase t).filter fun u => P (update point t p u)) =
      (Finset.univ.erase t).filter fun u => P (point u) := by
    apply Finset.filter_congr
    intro u hu
    rw [update_of_ne (Finset.ne_of_mem_erase hu)]
  rw [hrest, hrest point, hothers, update_self]
  omega

theorem count_update_update_add [DecidableEq θ] {u : θ} (htu : t ≠ u) (P : π → Bool)
    (point : θ → π) (p q : π) :
    count P (update (update point u q) t p) + (P (point t)).toNat +
      (P (point u)).toNat = count P point + (P p).toNat + (P q).toNat := by
  have hfirst := count_update_add P point u q
  have hsecond := count_update_add P (update point u q) t p
  rw [update_of_ne htu] at hsecond
  omega

theorem count_pos_of (ht : P (point t) = true) : 0 < count P point :=
  Finset.card_pos.2 ⟨t, by simpa using ht⟩

theorem exists_of_count_pos (h : 0 < count P point) : ∃ t, P (point t) = true := by
  obtain ⟨t, ht⟩ := Finset.card_pos.1 h
  exact ⟨t, by simpa using ht⟩

theorem count_eq_zero (h : ∀ t, P (point t) = false) : count P point = 0 := by
  simp [count, h]

theorem count_le_card : count P point ≤ Fintype.card θ := Finset.card_le_univ _

theorem count_lt_card (ht : P (point t) = false) : count P point < Fintype.card θ := by
  apply Finset.card_lt_univ_of_notMem (x := t)
  simp [ht]

def total (f : θ → ℕ) : ℕ := ∑ t, f t

theorem total_update_add [DecidableEq θ] (f : θ → ℕ) (t : θ) (n : ℕ) :
    total (update f t n) + f t = total f + n := by
  unfold total
  rw [Finset.sum_update_of_mem (Finset.mem_univ t), ← Finset.sum_sdiff (Finset.subset_univ {t}),
    Finset.sum_singleton]
  omega

theorem total_eq_zero_iff {f : θ → ℕ} : total f = 0 ↔ ∀ t, f t = 0 := by
  simp [total]

theorem le_total (f : θ → ℕ) (t : θ) : f t ≤ total f :=
  Finset.single_le_sum (fun _ _ => Nat.zero_le _) (Finset.mem_univ t)

/-! ## Mutexes -/

section

variable {θ π : Type*} {inside : π → Prop} {point : θ → π} {mu : Option θ} {t u : θ} {p : π}

/-- The threads at the points `inside` are those that have the mutex. -/
def OwnedBy (inside : π → Prop) (point : θ → π) (mu : Option θ) : Prop :=
  ∀ t, inside (point t) ↔ mu = some t

theorem OwnedBy.eq (h : OwnedBy inside point mu) (ht : inside (point t)) (hu : inside (point u)) :
    t = u :=
  Option.some.inj (((h t).1 ht).symm.trans ((h u).1 hu))

theorem OwnedBy.not_inside (h : OwnedBy inside point none) (t : θ) : ¬ inside (point t) :=
  fun ht => nomatch (h t).1 ht

variable [DecidableEq θ]

theorem OwnedBy.keep (h : OwnedBy inside point mu) (hp : inside p ↔ inside (point t)) :
    OwnedBy inside (update point t p) mu := by
  intro u
  by_cases hut : u = t
  · subst hut
    rw [update_self, hp]
    exact h u
  · rw [update_of_ne hut]
    exact h u

theorem OwnedBy.take (h : OwnedBy inside point none) (hp : inside p) :
    OwnedBy inside (update point t p) (some t) := by
  intro u
  by_cases hut : u = t
  · subst hut
    rw [update_self]
    exact iff_of_true hp rfl
  · rw [update_of_ne hut]
    exact iff_of_false (h.not_inside u) fun heq => hut (Option.some.inj heq).symm

theorem OwnedBy.release (h : OwnedBy inside point mu) (ht : inside (point t)) (hp : ¬ inside p) :
    OwnedBy inside (update point t p) none := by
  intro u
  by_cases hut : u = t
  · subst hut
    rw [update_self]
    exact iff_of_false hp nofun
  · rw [update_of_ne hut]
    exact iff_of_false (fun hu => hut (h.eq hu ht)) nofun

end

end Threads
