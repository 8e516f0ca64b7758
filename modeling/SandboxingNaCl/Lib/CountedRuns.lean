import Mathlib.Data.List.Basic
import Mathlib.Logic.Function.Iterate

/-!
# Counted runs of symbols

A list of symbols with counts generates the symbols, each as often as its count says.  A cursor
walks the list one symbol at a time, and so reads a run of none as one.  That makes no difference to
a sequence that goes on with a default for ever if it is nothing but the default from there on.
-/

namespace CountedRuns

variable {α : Type*}

def generated (runs : List (α × ℕ)) : List α := runs.flatMap fun (a, n) => List.replicate n a

/-- The runs, with one symbol at least in each. -/
def atLeastOnce (runs : List (α × ℕ)) : List (α × ℕ) := runs.map fun (a, n) => (a, max 1 n)

/-- The run that comes next, and how many of its symbols have been read. -/
structure Cursor where
  ix : ℕ
  count : ℕ

def start : Cursor := ⟨0, 0⟩

def Cursor.symbol (runs : List (α × ℕ)) (c : Cursor) : Option α := runs[c.ix]?.map Prod.fst

/-- One symbol further on. -/
def Cursor.next (runs : List (α × ℕ)) (c : Cursor) : Cursor :=
  match runs[c.ix]? with
  | none => c
  | some (_, n) => if n ≤ c.count + 1 then ⟨c.ix + 1, 0⟩ else ⟨c.ix, c.count + 1⟩

/-- The run that comes next has not been read through. -/
def Cursor.Valid (runs : List (α × ℕ)) (c : Cursor) : Prop :=
  ∀ run, runs[c.ix]? = some run → c.count < max 1 run.2

def Cursor.rest (runs : List (α × ℕ)) (c : Cursor) : List α :=
  (generated (atLeastOnce (runs.drop c.ix))).drop c.count

/-- From every run of none on there is nothing but the default. -/
def OnlyTrailingEmpty (d : α) : List (α × ℕ) → Prop
  | [] => True
  | (a, n) :: runs =>
    (n = 0 → ∀ run ∈ (a, n) :: runs, run.1 = d) ∧ OnlyTrailingEmpty d runs

section

variable {runs : List (α × ℕ)} {c : Cursor} {a d : α} {n k : ℕ}

@[simp] theorem generated_nil : generated ([] : List (α × ℕ)) = [] := rfl

@[simp] theorem generated_cons :
    generated ((a, n) :: runs) = List.replicate n a ++ generated runs := rfl

@[simp] theorem atLeastOnce_nil : atLeastOnce ([] : List (α × ℕ)) = [] := rfl

@[simp] theorem atLeastOnce_cons :
    atLeastOnce ((a, n) :: runs) = (a, max 1 n) :: atLeastOnce runs := rfl

/-! ### The cursor -/

theorem valid_start : start.Valid runs :=
  fun _ _ => Nat.lt_of_lt_of_le Nat.one_pos (Nat.le_max_left ..)

theorem Cursor.Valid.next (h : c.Valid runs) : (c.next runs).Valid runs := by
  unfold Cursor.next
  cases hrun : runs[c.ix]? with
  | none => exact h
  | some run =>
    dsimp only
    split_ifs with hcount
    · exact fun _ _ => Nat.lt_of_lt_of_le Nat.one_pos (Nat.le_max_left ..)
    · intro run' hrun'
      obtain rfl : run = run' := Option.some.inj (hrun.symm.trans hrun')
      exact Nat.lt_of_lt_of_le (Nat.lt_of_not_le hcount) (Nat.le_max_right ..)

theorem Cursor.valid_iterate (runs : List (α × ℕ)) (n : ℕ) :
    ((Cursor.next runs)^[n] start).Valid runs := by
  induction n with
  | zero => exact valid_start
  | succ n ih =>
    rw [Function.iterate_succ_apply']
    exact ih.next

theorem rest_of_getElem? {run : α × ℕ} (hrun : runs[c.ix]? = some run) (h : c.Valid runs) :
    c.rest runs = List.replicate (max 1 run.2 - c.count) run.1 ++
      generated (atLeastOnce (runs.drop (c.ix + 1))) := by
  have hle : c.count ≤ (List.replicate (max 1 run.2) run.1).length := by
    rw [List.length_replicate]
    exact Nat.le_of_lt (h run hrun)
  obtain ⟨hlt, hget⟩ := List.getElem?_eq_some_iff.1 hrun
  rw [Cursor.rest, List.drop_eq_getElem_cons hlt, hget, atLeastOnce_cons, generated_cons,
    List.drop_append_of_le_length hle, List.drop_replicate]

theorem symbol_eq_head? (h : c.Valid runs) : c.symbol runs = (c.rest runs).head? := by
  unfold Cursor.symbol
  cases hrun : runs[c.ix]? with
  | none =>
    rw [Cursor.rest, List.drop_eq_nil_of_le (List.getElem?_eq_none_iff.1 hrun), atLeastOnce_nil,
      generated_nil, List.drop_nil]
    rfl
  | some run =>
    obtain ⟨m, hm⟩ := Nat.exists_eq_add_of_lt (h run hrun)
    have hcopies : max 1 run.2 - c.count = m + 1 := by omega
    rw [rest_of_getElem? hrun h, hcopies, List.replicate_succ]
    rfl

theorem rest_next (h : c.Valid runs) : (c.next runs).rest runs = (c.rest runs).tail := by
  cases hrun : runs[c.ix]? with
  | none =>
    rw [Cursor.next, hrun, Cursor.rest, List.drop_eq_nil_of_le (List.getElem?_eq_none_iff.1 hrun),
      atLeastOnce_nil, generated_nil, List.drop_nil]
    rfl
  | some run =>
    have hvalid := h run hrun
    rw [rest_of_getElem? hrun h, Cursor.next, hrun]
    dsimp only
    split_ifs with hcount
    · have hcopies : max 1 run.2 - c.count = 1 := by omega
      rw [hcopies]
      rfl
    · have hcopies : max 1 run.2 - c.count = max 1 run.2 - (c.count + 1) + 1 := by omega
      have hnext : (⟨c.ix, c.count + 1⟩ : Cursor).Valid runs := by
        intro run' hrun'
        obtain rfl : run = run' := Option.some.inj (hrun.symm.trans hrun')
        exact Nat.lt_of_lt_of_le (Nat.lt_of_not_le hcount) (Nat.le_max_right ..)
      rw [rest_of_getElem? (c := ⟨c.ix, c.count + 1⟩) hrun hnext, hcopies, List.replicate_succ]
      rfl

theorem rest_iterate (runs : List (α × ℕ)) (n : ℕ) :
    ((Cursor.next runs)^[n] start).rest runs = (generated (atLeastOnce runs)).drop n := by
  induction n with
  | zero => rfl
  | succ n ih =>
    rw [Function.iterate_succ_apply', rest_next (Cursor.valid_iterate runs n), ih, List.tail_drop]

theorem symbol_iterate (runs : List (α × ℕ)) (n : ℕ) :
    ((Cursor.next runs)^[n] start).symbol runs = (generated (atLeastOnce runs))[n]? := by
  rw [symbol_eq_head? (Cursor.valid_iterate runs n), rest_iterate, List.head?_drop]

/-! ### Runs of none -/

theorem getD_append_right {xs ys : List α} (h : xs.length ≤ k) :
    (xs ++ ys)[k]?.getD d = ys[k - xs.length]?.getD d := by
  rw [List.getElem?_append_right h]

theorem getD_generated_of_forall (h : ∀ run ∈ runs, run.1 = d) (k : ℕ) :
    (generated runs)[k]?.getD d = d := by
  cases hk : (generated runs)[k]? with
  | none => rfl
  | some a =>
    obtain ⟨run, hrun, hmem⟩ := List.mem_flatMap.1 (List.mem_of_getElem? hk)
    rw [Option.getD_some, List.eq_of_mem_replicate hmem]
    exact h run hrun

theorem forall_atLeastOnce (h : ∀ run ∈ runs, run.1 = d) : ∀ run ∈ atLeastOnce runs, run.1 = d := by
  intro run hrun
  obtain ⟨run', hmem, rfl⟩ := List.mem_map.1 hrun
  exact h run' hmem

/-- A run of none that only the default follows makes no difference. -/
theorem getD_atLeastOnce (h : OnlyTrailingEmpty d runs) (k : ℕ) :
    (generated (atLeastOnce runs))[k]?.getD d = (generated runs)[k]?.getD d := by
  induction runs generalizing k with
  | nil => rfl
  | cons run runs ih =>
    obtain ⟨a, n⟩ := run
    by_cases hn : n = 0
    · rw [getD_generated_of_forall (forall_atLeastOnce (h.1 hn)),
        getD_generated_of_forall (h.1 hn)]
    · have hmax : max 1 n = n := Nat.max_eq_right (Nat.one_le_iff_ne_zero.2 hn)
      rw [atLeastOnce_cons, generated_cons, generated_cons, hmax]
      by_cases hk : k < (List.replicate n a).length
      · rw [List.getElem?_append_left hk, List.getElem?_append_left hk]
      · rw [getD_append_right (Nat.le_of_not_lt hk), getD_append_right (Nat.le_of_not_lt hk)]
        exact ih h.2 _

/-- The last symbol but for the default is no earlier when each run has one symbol at least. -/
theorem exists_last (h : ∃ run ∈ runs, run.1 ≠ d) :
    ∃ k, (generated (atLeastOnce runs))[k]?.getD d ≠ d ∧
      ∀ j : ℕ, k < j → (generated runs)[j]?.getD d = d := by
  induction runs with
  | nil => exact absurd h (by simp)
  | cons run runs ih =>
    obtain ⟨a, n⟩ := run
    rw [atLeastOnce_cons, generated_cons, generated_cons]
    by_cases hdefault : ∀ run ∈ runs, run.1 = d
    · have ha : a ≠ d := by
        obtain ⟨run, hmem, hne⟩ := h
        rcases List.mem_cons.1 hmem with rfl | hmem
        · exact hne
        · exact absurd (hdefault run hmem) hne
      refine ⟨max 1 n - 1, ?_, fun j hj => ?_⟩
      · rw [List.getElem?_append_left (by rw [List.length_replicate]; omega),
          List.getElem?_replicate_of_lt (by omega)]
        exact ha
      · rw [getD_append_right (by rw [List.length_replicate]; omega)]
        exact getD_generated_of_forall hdefault _
    · push Not at hdefault
      obtain ⟨k, hk, hlast⟩ := ih hdefault
      refine ⟨max 1 n + k, ?_, fun j hj => ?_⟩
      · rw [getD_append_right (by simp), List.length_replicate, Nat.add_sub_cancel_left]
        exact hk
      · rw [getD_append_right (by rw [List.length_replicate]; omega), List.length_replicate]
        exact hlast _ (by omega)

/-- A run of none that something else follows, or that is of something else, does. -/
theorem exists_of_not_onlyTrailingEmpty (h : ¬ OnlyTrailingEmpty d runs) :
    ∃ k, (generated (atLeastOnce runs))[k]?.getD d ≠ d ∧
      ∀ j : ℕ, k ≤ j → (generated runs)[j]?.getD d = d := by
  induction runs with
  | nil => exact absurd trivial h
  | cons run runs ih =>
    obtain ⟨a, n⟩ := run
    rw [atLeastOnce_cons, generated_cons, generated_cons]
    rcases not_and_or.1 h with hempty | hlater
    · obtain ⟨rfl, hne⟩ := Classical.not_imp.1 hempty
      rw [List.replicate_zero, List.nil_append]
      by_cases hdefault : ∀ run ∈ runs, run.1 = d
      · have ha : a ≠ d := fun heq => hne fun run hrun => by
          rcases List.mem_cons.1 hrun with rfl | hrun
          · exact heq
          · exact hdefault run hrun
        exact ⟨0, ha, fun j _ => getD_generated_of_forall hdefault j⟩
      · push Not at hdefault
        obtain ⟨k, hk, hlast⟩ := exists_last hdefault
        exact ⟨k + 1, hk, fun j hj => hlast j hj⟩
    · obtain ⟨k, hk, hlast⟩ := ih hlater
      refine ⟨max 1 n + k, ?_, fun j hj => ?_⟩
      · rw [getD_append_right (by simp), List.length_replicate, Nat.add_sub_cancel_left]
        exact hk
      · rw [getD_append_right (by rw [List.length_replicate]; omega), List.length_replicate]
        exact hlast _ (by omega)

end

end CountedRuns
