import Mathlib.Data.List.DropRight
import Mathlib.Data.List.GetD
import Mathlib.Data.Nat.ModEq

/-!
# Ring buffers

A ring has `n` cells and the place of the next insertion.  `Holds r l` says that the ring has the
last elements of the list `l`, as many of them as there are cells.
-/

structure RingBuffer (α : Type*) (n : ℕ) where
  cells : Vector α n
  insertIx : Fin n

namespace RingBuffer

variable {α : Type*} {n : ℕ} [NeZero n] {r : RingBuffer α n} {l : List α} {j : ℕ}

def cell (r : RingBuffer α n) (j : ℕ) : α :=
  have hj : j % n < n := Nat.mod_lt j (Nat.pos_of_neZero n)
  r.cells[j % n]

def push (r : RingBuffer α n) (a : α) : RingBuffer α n where
  cells := r.cells.set r.insertIx a
  insertIx := ⟨(r.insertIx + 1) % n, Nat.mod_lt _ (Nat.pos_of_neZero n)⟩

structure Holds (r : RingBuffer α n) (l : List α) : Prop where
  insertIx_eq : r.insertIx = l.length % n
  cell_eq : ∀ j (hj : j < l.length), l.length ≤ j + n → r.cell j = l[j]

theorem cell_push (r : RingBuffer α n) (a : α) (j : ℕ) :
    (r.push a).cell j = if j % n = r.insertIx then a else r.cell j := by
  simp only [cell, push, Vector.getElem_set, eq_comm]

theorem cell_mod_add (r : RingBuffer α n) (j i : ℕ) : r.cell (j % n + i) = r.cell (j + i) := by
  simp only [cell, Nat.mod_add_mod]

theorem holds_nil (h : r.insertIx = (0 : ℕ)) : r.Holds [] where
  insertIx_eq := h.trans (Nat.zero_mod n).symm
  cell_eq _ hj := absurd hj (Nat.not_lt_zero _)

theorem Holds.push (h : r.Holds l) (a : α) : (r.push a).Holds (l ++ [a]) where
  insertIx_eq := by
    rw [List.length_append, List.length_singleton]
    change (r.insertIx + 1 : ℕ) % n = _
    rw [h.insertIx_eq, Nat.mod_add_mod]
  cell_eq j hj hlast := by
    rw [List.length_append, List.length_singleton] at hj hlast
    rw [cell_push, h.insertIx_eq]
    rcases Nat.lt_succ_iff_lt_or_eq.1 hj with hlt | rfl
    · -- an earlier place that is still among the last ones is another cell
      have hne : j % n ≠ l.length % n := fun heq => by
        have hdvd : n ∣ l.length - j := (Nat.modEq_iff_dvd' hlt.le).1 heq
        exact absurd (Nat.le_of_dvd (Nat.sub_pos_of_lt hlt) hdvd) (by omega)
      rw [if_neg hne, h.cell_eq j hlt (by omega), List.getElem_append_left hlt]
    · rw [if_pos rfl, List.getElem_append_right le_rfl]
      simp only [Nat.sub_self, List.getElem_singleton]

theorem Holds.foldl_push (h : r.Holds l) (as : List α) :
    (as.foldl RingBuffer.push r).Holds (l ++ as) := by
  induction as generalizing r l with
  | nil => rwa [List.append_nil]
  | cons a as ih =>
    rw [List.foldl_cons, ← List.singleton_append, ← List.append_assoc]
    exact ih (h.push a)

theorem Holds.cell_rtake (h : r.Holds l) {num i : ℕ} (hn : num ≤ n) (hl : num ≤ l.length)
    (hi : i < num) : some (r.cell ((r.insertIx + n - num) % n + i)) = (l.rtake num)[i]? := by
  have hplace : (r.insertIx + n - num) + i = r.insertIx + (n - num + i) := by omega
  rw [cell_mod_add, hplace, h.insertIx_eq, cell_mod_add, List.rtake, List.getElem?_drop,
    List.getElem?_eq_getElem (by omega), ← h.cell_eq _ _ (by omega)]
  have hround : l.length + (n - num + i) = l.length - num + i + n := by omega
  simp only [cell, hround, Nat.add_mod_right]

end RingBuffer
