import SandboxingNaCl.DecoderGen.BitPattern
import Mathlib.Data.List.Dedup
import Mathlib.Data.List.Perm.Basic

/-!
# Minimisation of the decoder tables

`optimize_rows` of `validator_arm/dgen_opt.py` and of `validator_mips/dgen/dgen_opt.py`, and the
sequence of tests that is generated from its result.
-/

namespace SandboxingNaCl

namespace DecoderGen

/-- The generators differ in when they merge rows and in how they drop columns. -/
inductive Generator
  | arm
  | mips

namespace Row

variable {κ α : Type}

def add (row other : Row κ α) : Row κ α :=
  ⟨List.zipWith BitPattern.add row.patterns other.patterns, row.action⟩

/-- `cmp` of two lists of patterns. -/
def cmpPatterns [Ord κ] : List (BitPattern κ) → List (BitPattern κ) → Ordering
  | [], [] => .eq
  | [], _ :: _ => .lt
  | _ :: _, [] => .gt
  | p :: ps, q :: qs => (p.cmp q).then (cmpPatterns ps qs)

/-- `__cmp__`, with `compare` for that of the actions. -/
def cmp [Ord κ] [Ord α] (row other : Row κ α) : Ordering :=
  (cmpPatterns row.patterns other.patterns).then (compare row.action other.action)

variable [DecidableEq κ] [DecidableEq α]

def strictlyOverlapsBits (row : Row κ α) (p : BitPattern κ) : Bool :=
  row.patterns.any p.strictlyOverlaps

/-- The condition under which `can_merge` counts a column as compatible. -/
def compatibleColumn (g : Generator) (row other : Row κ α) (a b : BitPattern κ) : Bool :=
  match g with
  | .arm =>
    !row.strictlyOverlapsBits a && !other.strictlyOverlapsBits b && a.isStrictlyCompatible b
  | .mips => a.isStrictlyCompatible b

def canMerge (g : Generator) (row other : Row κ α) : Bool :=
  let columns := row.patterns.zip other.patterns
  let equalColumns := columns.countP fun c => decide (c.1 = c.2)
  let compatColumns := columns.countP fun c => compatibleColumn g row other c.1 c.2
  let cols := row.patterns.length
  row.action = other.action ∧
    (equalColumns = cols ∨ equalColumns + 1 = cols ∧ compatColumns = 1)

end Row

variable {κ α : Type} [DecidableEq κ] [DecidableEq α]

/-- The first row that `row` can be merged with, and the other rows. -/
def takeMergeable (g : Generator) (row : Row κ α) :
    List (Row κ α) → Option (Row κ α × List (Row κ α))
  | [] => none
  | other :: rows =>
    if row.canMerge g other then some (other, rows)
    else (takeMergeable g row rows).map fun (found, rest) => (found, other :: rest)

/-- The first pair of `each_index_pair` that can be merged, and the other rows. -/
def mergeablePair (g : Generator) :
    List (Row κ α) → Option (Row κ α × Row κ α × List (Row κ α))
  | [] => none
  | row :: rows =>
    match takeMergeable g row rows with
    | some (other, rest) => some (row, other, rest)
    | none => (mergeablePair g rows).map fun (a, b, rest) => (a, b, row :: rest)

variable {g : Generator} {row other : Row κ α} {rows rest : List (Row κ α)}

theorem takeMergeable_some (h : takeMergeable g row rows = some (other, rest)) :
    rows.Perm (other :: rest) ∧ row.canMerge g other = true := by
  induction rows generalizing rest with
  | nil => cases h
  | cons first rows ih =>
    rw [takeMergeable] at h
    split_ifs at h with hmerge
    · cases h
      exact ⟨List.Perm.refl _, hmerge⟩
    · obtain ⟨⟨found, rest'⟩, hfound, heq⟩ := Option.map_eq_some_iff.1 h
      cases heq
      obtain ⟨hperm, hmerge'⟩ := ih hfound
      exact ⟨(hperm.cons first).trans (List.Perm.swap _ _ _), hmerge'⟩

theorem mergeablePair_some (h : mergeablePair g rows = some (row, other, rest)) :
    rows.Perm (row :: other :: rest) ∧ row.canMerge g other = true := by
  induction rows generalizing rest with
  | nil => cases h
  | cons first rows ih =>
    rw [mergeablePair] at h
    split at h
    · rename_i found rest' hfound
      cases h
      obtain ⟨hperm, hmerge⟩ := takeMergeable_some hfound
      exact ⟨hperm.cons _, hmerge⟩
    · obtain ⟨⟨a, b, rest'⟩, hfound, heq⟩ := Option.map_eq_some_iff.1 h
      cases heq
      obtain ⟨hperm, hmerge⟩ := ih hfound
      refine ⟨(hperm.cons _).trans ?_, hmerge⟩
      exact (List.Perm.swap _ _ _).trans ((List.Perm.swap _ _ _).cons _)

theorem length_lt_of_mergeablePair (h : mergeablePair g rows = some (row, other, rest)) :
    (rest ++ [row.add other]).length < rows.length := by
  have hlength := (mergeablePair_some h).1.length_eq
  simp only [List.length_cons, List.length_append, List.length_nil] at hlength ⊢
  omega

def optimizeRowsForSingleAction (g : Generator) (rows : List (Row κ α)) : List (Row κ α) :=
  match _h : mergeablePair g rows with
  | none => rows
  | some (row, other, rest) => optimizeRowsForSingleAction g (rest ++ [row.add other])
termination_by rows.length
decreasing_by exact length_lt_of_mergeablePair _h

theorem optimizeRowsForSingleAction_none (h : mergeablePair g rows = none) :
    optimizeRowsForSingleAction g rows = rows := by
  rw [optimizeRowsForSingleAction]
  split
  · rfl
  · rename_i hsome
    rw [h] at hsome
    cases hsome

theorem optimizeRowsForSingleAction_some (h : mergeablePair g rows = some (row, other, rest)) :
    optimizeRowsForSingleAction g rows =
      optimizeRowsForSingleAction g (rest ++ [row.add other]) := by
  rw [optimizeRowsForSingleAction]
  split
  · rename_i hnone
    rw [h] at hnone
    cases hnone
  · rename_i hsome
    rw [h] at hsome
    cases hsome
    rfl

/-- What holds of rows that cannot be merged, and of rows when it holds after the next merge, holds of
all rows. -/
@[elab_as_elim]
theorem optimize_induction {motive : List (Row κ α) → Prop}
    (hnone : ∀ rows, mergeablePair g rows = none → motive rows)
    (hsome : ∀ rows row other rest, mergeablePair g rows = some (row, other, rest) →
      motive (rest ++ [row.add other]) → motive rows) (rows : List (Row κ α)) : motive rows := by
  induction hn : rows.length using Nat.strongRecOn generalizing rows with
  | _ n ih =>
    cases hpair : mergeablePair g rows with
    | none => exact hnone rows hpair
    | some pair =>
      obtain ⟨row, other, rest⟩ := pair
      exact hsome rows row other rest hpair
        (ih _ (hn ▸ length_lt_of_mergeablePair hpair) _ rfl)

/-- A column of a row in which some row has a significant bit, or the first one if there are none. -/
def usedColumn (rows : List (Row κ α)) (col : ℕ) : Bool :=
  let used (i : ℕ) := rows.any fun r => r.patterns[i]?.any fun p => p.mask ≠ 0
  let numCols := (rows.head?.map fun r => r.patterns.length).getD 0
  used col || (col = 0 && !(List.range numCols).any used)

def removeUnusedColumns (g : Generator) (rows : List (Row κ α)) : List (Row κ α) :=
  match g with
  | .arm => rows.map fun r =>
    if r.patterns = [] then r
    else
      let simpPatterns := r.patterns.filter fun p => p.mask ≠ 0
      { r with patterns :=
          if simpPatterns = [] then [BitPattern.alwaysMatches none] else simpPatterns }
  | .mips => rows.map fun r =>
    { r with patterns := r.patterns.zipIdx.filterMap fun c =>
        if usedColumn rows c.2 then some c.1 else none }

def rowsOf (rows : List (Row κ α)) (action : α) : List (Row κ α) :=
  rows.filter fun r => r.action = action

/-- `optimize_rows`.  The order of the actions is that of a Python dictionary, and the caller sorts
the result. -/
def optimizeRows (g : Generator) (rows : List (Row κ α)) : List (Row κ α) :=
  removeUnusedColumns g
    ((rows.map (·.action)).dedup.flatMap fun a => optimizeRowsForSingleAction g (rowsOf rows a))

/-- The generated code: the action of the first of the sorted rows whose test the word passes. -/
def selectedAction [Ord κ] [Ord α] (g : Generator) (rows : List (Row κ α)) (w : Word) : Option α :=
  (((optimizeRows g rows).mergeSort fun r s => r.cmp s != .gt).find? (·.test w)).map (·.action)

/-- A table: every row has a pattern for each column. -/
structure DecoderTable (κ α : Type) where
  columns : ℕ
  rows : List (Row κ α)
  width : ∀ r ∈ rows, r.patterns.length = columns
  valid : ∀ r ∈ rows, ∀ p ∈ r.patterns, p.Valid

/-! ## Merging two rows -/

/-- Every pattern is valid and there is one for each of `n` columns. -/
def Row.Ok (n : ℕ) (row : Row κ α) : Prop :=
  row.patterns.length = n ∧ ∀ p ∈ row.patterns, p.Valid

/-- The words that are lost when two rows are merged: those that have the common bits of two negated
patterns of one column and pass the tests of the others. -/
def Row.drops (row other : Row κ α) (w : Word) : Bool :=
  (row.patterns.zip other.patterns).any (fun c => c.1.blurs c.2 && c.1.agrees c.2 w) &&
    (row.patterns.zip other.patterns).all fun c => c.1 ≠ c.2 || c.1.test w

omit [DecidableEq κ] in
theorem ne_of_isStrictlyCompatible {p q : BitPattern κ} (h : p.isStrictlyCompatible q = true) :
    p ≠ q := by
  rintro rfl
  obtain ⟨hop, -⟩ | ⟨-, -, i, hi⟩ := BitPattern.isStrictlyCompatible_cases h
  · exact hop rfl
  · have hself := hi i
    simp [BitPattern.conflicts] at hself

omit [DecidableEq α] in
theorem isStrictlyCompatible_of_compatibleColumn {a b : BitPattern κ}
    (h : row.compatibleColumn g other a b = true) : a.isStrictlyCompatible b = true := by
  cases g with
  | arm => exact (Bool.and_eq_true_iff.1 h).2
  | mips => exact h

omit [DecidableEq κ] in
theorem eq_of_mem_zip_self {x y : BitPattern κ} {ps : List (BitPattern κ)}
    (h : (x, y) ∈ ps.zip ps) : x = y := by
  induction ps with
  | nil => cases h
  | cons p ps ih =>
    rw [List.zip_cons_cons, List.mem_cons] at h
    obtain h | h := h
    · cases h
      rfl
    · exact ih h

theorem eq_of_countP {ps qs : List (BitPattern κ)} (hlength : ps.length = qs.length)
    (h : (ps.zip qs).countP (fun c => decide (c.1 = c.2)) = ps.length) : ps = qs := by
  have hzip : (ps.zip qs).length = ps.length := by
    rw [List.length_zip, ← hlength, Nat.min_self]
  have hall := List.countP_eq_length.1 (h.trans hzip.symm)
  have hmap : (ps.zip qs).map Prod.fst = (ps.zip qs).map Prod.snd :=
    List.map_congr_left fun c hc => of_decide_eq_true (hall c hc)
  rwa [List.map_fst_zip (Nat.le_of_eq hlength), List.map_snd_zip (Nat.le_of_eq hlength.symm)] at hmap

theorem exists_split_of_countP {ps qs : List (BitPattern κ)} (hlength : ps.length = qs.length)
    (h : (ps.zip qs).countP (fun c => decide (c.1 = c.2)) + 1 = ps.length) :
    ∃ l a b l', ps = l ++ a :: l' ∧ qs = l ++ b :: l' ∧ a ≠ b := by
  induction ps generalizing qs with
  | nil => cases h
  | cons p ps ih =>
    cases qs with
    | nil => cases hlength
    | cons q qs =>
      have hlength' : ps.length = qs.length := Nat.succ.inj hlength
      rw [List.zip_cons_cons, List.countP_cons, List.length_cons] at h
      by_cases hpq : p = q
      · obtain ⟨l, a, b, l', rfl, rfl, hne⟩ := ih hlength' (by simpa [hpq] using h)
        exact ⟨p :: l, a, b, l', rfl, congrArg (· :: (l ++ b :: l')) hpq.symm, hne⟩
      · obtain rfl := eq_of_countP hlength' (by simpa [hpq] using h)
        exact ⟨[], p, q, ps, rfl, rfl, hpq⟩

theorem canMerge_cases (hlength : row.patterns.length = other.patterns.length)
    (h : row.canMerge g other = true) :
    row.action = other.action ∧ (row.patterns = other.patterns ∨
      ∃ l a b l', row.patterns = l ++ a :: l' ∧ other.patterns = l ++ b :: l' ∧
        a.isStrictlyCompatible b = true) := by
  obtain ⟨haction, hall | ⟨hone, hcompat⟩⟩ := of_decide_eq_true h
  · exact ⟨haction, Or.inl (eq_of_countP hlength hall)⟩
  · obtain ⟨l, a, b, l', hrow, hother, hne⟩ := exists_split_of_countP hlength hone
    refine ⟨haction, Or.inr ⟨l, a, b, l', hrow, hother, ?_⟩⟩
    obtain ⟨⟨x, y⟩, hmem, hxy⟩ := List.countP_pos_iff.1 (hcompat ▸ Nat.one_pos)
    have hxy := isStrictlyCompatible_of_compatibleColumn hxy
    rw [hrow, hother, List.zip_append rfl, List.zip_cons_cons, List.mem_append, List.mem_cons] at hmem
    obtain h | h | h := hmem
    · exact absurd (eq_of_mem_zip_self h) (ne_of_isStrictlyCompatible hxy)
    · cases h
      exact hxy
    · exact absurd (eq_of_mem_zip_self h) (ne_of_isStrictlyCompatible hxy)

omit [DecidableEq κ] in
theorem any_blurs_self (ps : List (BitPattern κ)) (w : Word) :
    (ps.zip ps).any (fun c => c.1.blurs c.2 && c.1.agrees c.2 w) = false := by
  rw [List.any_eq_false]
  rintro ⟨x, y⟩ hmem
  obtain rfl := eq_of_mem_zip_self hmem
  simp [BitPattern.blurs]

theorem all_test_self (ps : List (BitPattern κ)) (w : Word) :
    (ps.zip ps).all (fun c => c.1 ≠ c.2 || c.1.test w) = ps.all (·.test w) := by
  induction ps with
  | nil => rfl
  | cons p ps ih =>
    rw [List.zip_cons_cons, List.all_cons, List.all_cons, ih]
    simp

omit [DecidableEq κ] in
theorem zipWith_add_self (ps : List (BitPattern κ)) : List.zipWith BitPattern.add ps ps = ps := by
  rw [List.zipWith_self]
  exact (List.map_congr_left fun p _ => p.add_self).trans (List.map_id ps)

omit [DecidableEq α] in
theorem drops_split {l l' : List (BitPattern κ)} {a b : BitPattern κ} (hrow : row.patterns = l ++ a :: l')
    (hother : other.patterns = l ++ b :: l') (hne : a ≠ b) (w : Word) :
    row.drops other w = (l.all (·.test w) && (a.blurs b && a.agrees b w) && l'.all (·.test w)) := by
  rw [Row.drops, hrow, hother, List.zip_append rfl, List.zip_cons_cons, List.any_append,
    List.any_cons, List.all_append, List.all_cons, any_blurs_self, any_blurs_self, all_test_self,
    all_test_self, decide_eq_true hne, Bool.or_false, Bool.false_or, Bool.true_or, Bool.true_and,
    ← Bool.and_assoc, Bool.and_comm (a.blurs b && a.agrees b w)]

theorem test_add {n : ℕ} (hrow : row.Ok n) (hother : other.Ok n) (h : row.canMerge g other = true)
    (w : Word) :
    (row.add other).test w = ((row.test w || other.test w) && !row.drops other w) := by
  obtain ⟨-, heq | ⟨l, a, b, l', hl, hl', hab⟩⟩ :=
    canMerge_cases (hrow.1.trans hother.1.symm) h
  · simp only [Row.test, Row.add, Row.drops, ← heq, zipWith_add_self, any_blurs_self]
    simp
  · have hsum : (a.add b).test w = ((a.test w || b.test w) && !(a.blurs b && a.agrees b w)) := by
      have ha : a ∈ row.patterns := hl ▸ List.mem_append_right l List.mem_cons_self
      have hb : b ∈ other.patterns := hl' ▸ List.mem_append_right l List.mem_cons_self
      rw [Bool.eq_iff_iff, BitPattern.test_add (hrow.2 a ha) (hother.2 b hb) (Or.inr hab)]
      simp only [Bool.and_eq_true, Bool.or_eq_true, Bool.not_eq_true', ← Bool.not_eq_true]
    rw [drops_split hl hl' (ne_of_isStrictlyCompatible hab)]
    simp only [Row.test, Row.add, hl, hl', List.zipWith_append rfl, List.zipWith_cons_cons,
      zipWith_add_self, List.all_append, List.all_cons, hsum]
    generalize l.all _ = before
    generalize l'.all _ = after
    cases before <;> cases after <;> simp

theorem test_or_test_of_drops {n : ℕ} (hrow : row.Ok n) (hother : other.Ok n)
    (h : row.canMerge g other = true) {w : Word} (hdrops : row.drops other w = true) :
    (row.test w || other.test w) = true := by
  obtain ⟨-, heq | ⟨l, a, b, l', hl, hl', hab⟩⟩ :=
    canMerge_cases (hrow.1.trans hother.1.symm) h
  · simp [Row.drops, heq, any_blurs_self] at hdrops
  · rw [drops_split hl hl' (ne_of_isStrictlyCompatible hab)] at hdrops
    simp only [Bool.and_eq_true] at hdrops
    obtain ⟨⟨hbefore, hblurs, -⟩, hafter⟩ := hdrops
    have hone := BitPattern.test_or_test_of_blurs (w := w) (Or.inr hab) hblurs
    simp only [Row.test, hl, hl', List.all_append, List.all_cons, hbefore, hafter, Bool.true_and,
      Bool.and_true, Bool.or_eq_true]
    exact hone

theorem ok_add {n : ℕ} (hrow : row.Ok n) (hother : other.Ok n) (h : row.canMerge g other = true) :
    (row.add other).Ok n := by
  refine ⟨?_, ?_⟩
  · rw [Row.add, List.length_zipWith, hrow.1, hother.1, Nat.min_self]
  · obtain ⟨-, heq | ⟨l, a, b, l', hl, hl', hab⟩⟩ :=
      canMerge_cases (hrow.1.trans hother.1.symm) h
    · rw [Row.add, ← heq, zipWith_add_self]
      exact hrow.2
    · have ha : a ∈ row.patterns := hl ▸ List.mem_append_right l List.mem_cons_self
      have hb : b ∈ other.patterns := hl' ▸ List.mem_append_right l List.mem_cons_self
      have hsum := BitPattern.valid_add (hrow.2 a ha) (hother.2 b hb) (Or.inr hab)
      have hrest := hrow.2
      rw [hl] at hrest
      rw [Row.add, hl, hl', List.zipWith_append rfl, List.zipWith_cons_cons, zipWith_add_self,
        zipWith_add_self]
      intro p hp
      rw [List.mem_append, List.mem_cons] at hp
      obtain hp | rfl | hp := hp
      · exact hrest p (List.mem_append_left _ hp)
      · exact hsum
      · exact hrest p (List.mem_append_right _ (List.mem_cons_of_mem _ hp))

/-! ## The rows of one action -/

def anyTest (rows : List (Row κ α)) (w : Word) : Bool := rows.any (·.test w)

/-- Whenever two rows are merged, the other rows match the words that are lost. -/
inductive MergesCovered (g : Generator) : List (Row κ α) → Prop
  | done {rows : List (Row κ α)} : mergeablePair g rows = none → MergesCovered g rows
  | merge {rows rest : List (Row κ α)} {row other : Row κ α} :
    mergeablePair g rows = some (row, other, rest) →
    (∀ w, row.drops other w = true → anyTest rest w = true) →
    MergesCovered g (rest ++ [row.add other]) → MergesCovered g rows

theorem anyTest_merge {n : ℕ} (hok : ∀ r ∈ rows, r.Ok n)
    (h : mergeablePair g rows = some (row, other, rest)) (w : Word) :
    (∀ r ∈ rest ++ [row.add other], r.Ok n) ∧
      anyTest rows w = ((row.test w || other.test w) || anyTest rest w) ∧
      anyTest (rest ++ [row.add other]) w =
        ((row.test w || other.test w) && !row.drops other w || anyTest rest w) := by
  obtain ⟨hperm, hmerge⟩ := mergeablePair_some h
  have hrow := hok row (hperm.mem_iff.2 List.mem_cons_self)
  have hother := hok other (hperm.mem_iff.2 (List.mem_cons_of_mem _ List.mem_cons_self))
  refine ⟨fun r hr => ?_, ?_, ?_⟩
  · rw [List.mem_append, List.mem_singleton] at hr
    obtain hr | rfl := hr
    · exact hok r (hperm.mem_iff.2 (List.mem_cons_of_mem _ (List.mem_cons_of_mem _ hr)))
    · exact ok_add hrow hother hmerge
  · rw [anyTest, hperm.any_eq, List.any_cons, List.any_cons, Bool.or_assoc]
    rfl
  · rw [anyTest, List.any_append, List.any_cons, List.any_nil, Bool.or_false,
      test_add hrow hother hmerge, Bool.or_comm]
    rfl

theorem test_or_test_of_pair {n : ℕ} (hok : ∀ r ∈ rows, r.Ok n)
    (h : mergeablePair g rows = some (row, other, rest)) {w : Word}
    (hdrops : row.drops other w = true) : (row.test w || other.test w) = true := by
  obtain ⟨hperm, hmerge⟩ := mergeablePair_some h
  have hrow := hok row (hperm.mem_iff.2 List.mem_cons_self)
  have hother := hok other (hperm.mem_iff.2 (List.mem_cons_of_mem _ List.mem_cons_self))
  exact test_or_test_of_drops hrow hother hmerge hdrops

theorem anyTest_of_merge {n : ℕ} (hok : ∀ r ∈ rows, r.Ok n)
    (h : mergeablePair g rows = some (row, other, rest)) {w : Word}
    (hw : anyTest (rest ++ [row.add other]) w = true) : anyTest rows w = true := by
  obtain ⟨-, hrows, hmerged⟩ := anyTest_merge hok h w
  rw [hmerged, Bool.or_eq_true, Bool.and_eq_true] at hw
  rw [hrows, Bool.or_eq_true]
  exact hw.imp_left And.left

theorem anyTest_of_optimize {n : ℕ} (hok : ∀ r ∈ rows, r.Ok n) {w : Word}
    (h : anyTest (optimizeRowsForSingleAction g rows) w = true) : anyTest rows w = true := by
  revert hok h
  refine optimize_induction (g := g) (fun rows hpair => ?_)
    (fun rows row other rest hpair ih => ?_) rows
  · rw [optimizeRowsForSingleAction_none hpair]
    exact fun _ h => h
  · rw [optimizeRowsForSingleAction_some hpair]
    exact fun hok h => anyTest_of_merge hok hpair (ih (anyTest_merge hok hpair w).1 h)

theorem action_optimize {a : α} (haction : ∀ r ∈ rows, r.action = a) :
    ∀ r ∈ optimizeRowsForSingleAction g rows, r.action = a := by
  revert haction
  refine optimize_induction (g := g) (fun rows hpair => ?_)
    (fun rows row other rest hpair ih => ?_) rows
  · rw [optimizeRowsForSingleAction_none hpair]
    exact fun haction => haction
  · rw [optimizeRowsForSingleAction_some hpair]
    intro haction
    have hmem {r : Row κ α} := (mergeablePair_some hpair).1.mem_iff (a := r)
    refine ih fun r hr => ?_
    rw [List.mem_append, List.mem_singleton] at hr
    obtain hr | rfl := hr
    · exact haction r (hmem.2 (List.mem_cons_of_mem _ (List.mem_cons_of_mem _ hr)))
    · exact haction row (hmem.2 List.mem_cons_self)

theorem anyTest_optimize_iff {n : ℕ} (hok : ∀ r ∈ rows, r.Ok n) :
    (∀ w, anyTest rows w = true → anyTest (optimizeRowsForSingleAction g rows) w = true) ↔
      MergesCovered g rows := by
  revert hok
  refine optimize_induction (g := g) (fun rows hpair => ?_)
    (fun rows row other rest hpair ih => ?_) rows
  · rw [optimizeRowsForSingleAction_none hpair]
    exact fun _ => iff_of_true (fun _ h => h) (.done hpair)
  · rw [optimizeRowsForSingleAction_some hpair]
    intro hok
    have hok' := (anyTest_merge hok hpair 0).1
    constructor
    · intro h
      refine .merge hpair (fun w hdrops => ?_) ((ih hok').1 fun w hw => ?_)
      · obtain ⟨-, hrows, hmerged⟩ := anyTest_merge hok hpair w
        rw [test_or_test_of_pair hok hpair hdrops, Bool.true_or] at hrows
        have hw := anyTest_of_optimize hok' (h w hrows)
        rwa [hmerged, hdrops, Bool.not_true, Bool.and_false, Bool.false_or] at hw
      · exact h w (anyTest_of_merge hok hpair hw)
    · intro h w hw
      cases h with
      | done hnone => rw [hpair] at hnone; cases hnone
      | merge hpair' hcovered hrest =>
        rw [hpair] at hpair'
        cases hpair'
        refine (ih hok').2 hrest w ?_
        obtain ⟨-, hrows, hmerged⟩ := anyTest_merge hok hpair w
        rw [hrows] at hw
        rw [hmerged]
        cases hdrops : row.drops other w with
        | true => rw [hcovered w hdrops, Bool.or_true]
        | false => rwa [Bool.not_false, Bool.and_true]

/-! ## The table -/

omit [DecidableEq κ] [DecidableEq α] in
theorem test_of_usedColumn {rows : List (Row κ α)} {r : Row κ α} (hr : r ∈ rows) {c : BitPattern κ × ℕ}
    (hc : c ∈ r.patterns.zipIdx) (hused : usedColumn rows c.2 = false) (w : Word) :
    c.1.test w = true := by
  have hget := List.mem_zipIdx_iff_getElem?.1 hc
  have hnone := List.any_eq_false.1 (Bool.or_eq_false_iff.1 hused).1 r hr
  simp only [hget, Option.any_some, decide_not, Bool.not_eq_true', Bool.not_eq_false,
    decide_eq_true_eq] at hnone
  simp [BitPattern.test, hnone]

omit [DecidableEq κ] [DecidableEq α] in
theorem exists_map_of_removeUnusedColumns (g : Generator) (rows : List (Row κ α)) (w : Word) :
    ∃ f : Row κ α → Row κ α, removeUnusedColumns g rows = rows.map f ∧
      ∀ r ∈ rows, (f r).test w = r.test w ∧ (f r).action = r.action := by
  cases g with
  | arm =>
    refine ⟨_, rfl, fun r _ => ?_⟩
    dsimp only
    by_cases hempty : r.patterns = []
    · rw [if_pos hempty]
      exact ⟨rfl, rfl⟩
    · rw [if_neg hempty]
      refine ⟨?_, rfl⟩
      by_cases hsimp : (r.patterns.filter fun p => p.mask ≠ 0) = []
      · have htest : r.test w = true := by
          rw [Row.test, List.all_eq_true]
          intro p hp
          have hmask : p.mask = 0 := by simpa using List.filter_eq_nil_iff.1 hsimp p hp
          simp [BitPattern.test, hmask]
        rw [if_pos hsimp, htest]
        rfl
      · rw [if_neg hsimp, Row.test, Row.test, List.all_filter]
        refine congrArg (r.patterns.all ·) (funext fun p => ?_)
        by_cases hmask : p.mask = 0
        · simp [BitPattern.test, hmask]
        · rw [decide_eq_true hmask, Bool.not_true, Bool.false_or]
  | mips =>
    refine ⟨_, rfl, fun r hr => ⟨?_, rfl⟩⟩
    rw [Bool.eq_iff_iff, Row.test, Row.test, List.all_eq_true, List.all_eq_true]
    constructor
    · intro h p hp
      obtain ⟨i, hi, rfl⟩ := List.mem_iff_getElem.1 hp
      have hmem : (r.patterns[i], i) ∈ r.patterns.zipIdx :=
        List.mk_mem_zipIdx_iff_getElem?.2 (List.getElem?_eq_getElem hi)
      cases hused : usedColumn rows i with
      | false => exact test_of_usedColumn hr hmem hused w
      | true => exact h _ (List.mem_filterMap.2 ⟨_, hmem, if_pos hused⟩)
    · intro h p hp
      obtain ⟨c, hc, hkeep⟩ := List.mem_filterMap.1 hp
      split_ifs at hkeep
      cases hkeep
      exact h _ (List.mem_of_getElem? (List.mem_zipIdx_iff_getElem?.1 hc))

omit [DecidableEq κ] [DecidableEq α] in
theorem find_action_iff {rows : List (Row κ α)} {w : Word} {a : α}
    (h : ∀ r ∈ rows, ∀ s ∈ rows, r.test w = true → s.test w = true → r.action = s.action) :
    (rows.find? (·.test w)).map (·.action) = some a ↔
      ∃ r ∈ rows, r.test w = true ∧ r.action = a := by
  rw [Option.map_eq_some_iff]
  constructor
  · rintro ⟨r, hfind, haction⟩
    have htest := List.find?_some hfind
    exact ⟨r, List.mem_of_find?_eq_some hfind, htest, haction⟩
  · rintro ⟨r, hr, htest, haction⟩
    have hsome : (rows.find? (·.test w)).isSome = true := List.find?_isSome.2 ⟨r, hr, htest⟩
    obtain ⟨s, hs⟩ := Option.isSome_iff_exists.1 hsome
    have hstest := List.find?_some hs
    refine ⟨s, hs, ?_⟩
    rw [h s (List.mem_of_find?_eq_some hs) r hr hstest htest, haction]

omit [DecidableEq κ] in
theorem mem_rowsOf {rows : List (Row κ α)} {a : α} {r : Row κ α} :
    r ∈ rowsOf rows a ↔ r ∈ rows ∧ r.action = a := by
  simp [rowsOf]

theorem mem_optimizeRows (g : Generator) (rows : List (Row κ α)) (w : Word) (a : α) :
    (∃ r ∈ optimizeRows g rows, r.test w = true ∧ r.action = a) ↔
      anyTest (optimizeRowsForSingleAction g (rowsOf rows a)) w = true := by
  obtain ⟨f, hf, hkeep⟩ := exists_map_of_removeUnusedColumns g
    ((rows.map (·.action)).dedup.flatMap fun a => optimizeRowsForSingleAction g (rowsOf rows a)) w
  have haction (b : α) : ∀ r ∈ optimizeRowsForSingleAction g (rowsOf rows b), r.action = b :=
    action_optimize fun r hr => (mem_rowsOf.1 hr).2
  rw [optimizeRows, hf, anyTest, List.any_eq_true]
  constructor
  · rintro ⟨r, hr, htest, rfl⟩
    obtain ⟨s, hs, rfl⟩ := List.mem_map.1 hr
    obtain ⟨hftest, hfaction⟩ := hkeep s hs
    obtain ⟨b, -, hsb⟩ := List.mem_flatMap.1 hs
    rw [hftest] at htest
    rw [hfaction, haction b s hsb]
    exact ⟨s, hsb, htest⟩
  · rintro ⟨s, hs, htest⟩
    have hmem : s ∈ (rows.map (·.action)).dedup.flatMap
        fun a => optimizeRowsForSingleAction g (rowsOf rows a) := by
      refine List.mem_flatMap.2 ⟨a, ?_, hs⟩
      rw [List.mem_dedup]
      cases hrows : rowsOf rows a with
      | nil =>
        rw [hrows, optimizeRowsForSingleAction_none rfl] at hs
        cases hs
      | cons r _ =>
        obtain ⟨hr, hra⟩ := mem_rowsOf.1 (hrows ▸ List.mem_cons_self : r ∈ rowsOf rows a)
        exact List.mem_map.2 ⟨r, hr, hra⟩
    obtain ⟨hftest, hfaction⟩ := hkeep s hmem
    exact ⟨f s, List.mem_map_of_mem hmem, hftest.trans htest, hfaction.trans (haction a s hs)⟩

/-- The generated code selects the action of the rows of the table that match. -/
def Preserved [Ord κ] [Ord α] (g : Generator) (rows : List (Row κ α)) : Prop :=
  ∀ w a, selectedAction g rows w = some a ↔ ∃ r ∈ rows, r.test w = true ∧ r.action = a

omit [DecidableEq κ] in
theorem anyTest_rowsOf (rows : List (Row κ α)) (w : Word) (a : α) :
    anyTest (rowsOf rows a) w = true ↔ ∃ r ∈ rows, r.test w = true ∧ r.action = a := by
  simp only [anyTest, List.any_eq_true, mem_rowsOf]
  exact exists_congr fun r => by tauto

omit [DecidableEq κ] in
theorem DecoderTable.ok (t : DecoderTable κ α) (a : α) : ∀ r ∈ rowsOf t.rows a, r.Ok t.columns :=
  fun r hr => ⟨t.width r (mem_rowsOf.1 hr).1, t.valid r (mem_rowsOf.1 hr).1⟩

section Table

variable [Ord κ] [Ord α] (t : DecoderTable κ α)
  (hdisjoint : ∀ r ∈ t.rows, ∀ s ∈ t.rows, ∀ w, r.test w = true → s.test w = true →
    r.action = s.action)

include hdisjoint in
theorem selectedAction_iff (g : Generator) (w : Word) (a : α) :
    selectedAction g t.rows w = some a ↔
      anyTest (optimizeRowsForSingleAction g (rowsOf t.rows a)) w = true := by
  have hmem {r : Row κ α} := (List.mergeSort_perm (optimizeRows g t.rows)
    fun r s => r.cmp s != .gt).mem_iff (a := r)
  rw [selectedAction, find_action_iff, ← mem_optimizeRows]
  · simp only [hmem]
  · intro r hr s hs hrtest hstest
    have hof {r : Row κ α} (hr : r ∈ optimizeRows g t.rows) (htest : r.test w = true) :
        ∃ r' ∈ t.rows, r'.test w = true ∧ r'.action = r.action := by
      rw [← anyTest_rowsOf]
      exact anyTest_of_optimize (t.ok _) ((mem_optimizeRows g _ w _).1 ⟨r, hr, htest, rfl⟩)
    obtain ⟨r', hr', hrtest', hra⟩ := hof (hmem.1 hr) hrtest
    obtain ⟨s', hs', hstest', hsa⟩ := hof (hmem.1 hs) hstest
    rw [← hra, ← hsa]
    exact hdisjoint r' hr' s' hs' w hrtest' hstest'

include hdisjoint in
theorem preserved_iff (g : Generator) :
    Preserved g t.rows ↔ ∀ r ∈ t.rows, MergesCovered g (rowsOf t.rows r.action) := by
  simp only [Preserved, selectedAction_iff t hdisjoint, ← anyTest_rowsOf]
  constructor
  · intro h r hr
    exact (anyTest_optimize_iff (t.ok _)).1 fun w => (h w _).2
  · intro h w a
    refine ⟨anyTest_of_optimize (t.ok a), fun hw => ?_⟩
    obtain ⟨r, hr, -, rfl⟩ := (anyTest_rowsOf t.rows w a).1 hw
    exact (anyTest_optimize_iff (t.ok _)).2 (h r hr) w hw

end Table

theorem test_add_row_iff {n : ℕ} (hrow : row.Ok n) (hother : other.Ok n)
    (h : row.canMerge g other = true) :
    (∀ w, (row.add other).test w = (row.test w || other.test w)) ↔
      ∀ w, row.drops other w = false := by
  refine forall_congr' fun w => ?_
  rw [test_add hrow hother h]
  cases hdrops : row.drops other w with
  | false => simp
  | true => simp [test_or_test_of_drops hrow hother h hdrops]

/-- The generated code selects what the table does exactly when other rows of the same action match
the words that are lost at each merge; nothing is lost when two patterns, or two rows, are merged
exactly when they do not hold two negated patterns with a significant bit in common. -/
theorem minimization_preserves_iff [Ord κ] [Ord α] (g : Generator) (t : DecoderTable κ α)
    (hdisjoint : ∀ r ∈ t.rows, ∀ s ∈ t.rows, ∀ w, r.test w = true → s.test w = true →
      r.action = s.action) :
    (Preserved g t.rows ↔ ∀ r ∈ t.rows, MergesCovered g (rowsOf t.rows r.action)) ∧
      (∀ p q : BitPattern κ, p.Valid → q.Valid → (p = q ∨ p.isStrictlyCompatible q = true) →
        ((∀ w, (p.add q).test w ↔ p.test w ∨ q.test w) ↔ p.blurs q = false)) ∧
      ∀ r ∈ t.rows, ∀ s ∈ t.rows, r.canMerge g s = true →
        ((∀ w, (r.add s).test w = (r.test w || s.test w)) ↔ ∀ w, r.drops s w = false) :=
  ⟨preserved_iff t hdisjoint g, fun _ _ hp hq h => BitPattern.test_add_iff hp hq h,
    fun r hr s hs h => test_add_row_iff ⟨t.width r hr, t.valid r hr⟩ ⟨t.width s hs, t.valid s hs⟩ h⟩

/-- A table with two rows of the action 0, for the words without `000` and for those without `001` in
the lowest bits. -/
def negatedTable : DecoderTable ℕ ℕ where
  columns := 1
  rows := [⟨[⟨7, 0, .ne, some 0⟩], 0⟩, ⟨[⟨7, 1, .ne, some 0⟩], 0⟩]
  width := by simp
  valid := by simp [BitPattern.Valid]

theorem minimization_preserves_iff_negatedTable :
    Preserved .arm negatedTable.rows ↔
      ∀ r ∈ negatedTable.rows, MergesCovered .arm (rowsOf negatedTable.rows r.action) :=
  (minimization_preserves_iff .arm negatedTable (by simp [negatedTable])).1

/-- Before the minimisation every word selects the action, after it the word 0 selects none. -/
theorem not_preserved_negatedTable :
    BitPattern.parse ['~', '0', '0', '0'] 2 0 (some 0) = some (⟨7, 0, .ne, some 0⟩ : BitPattern ℕ) ∧
      BitPattern.parse ['~', '0', '0', '1'] 2 0 (some 0) = some (⟨7, 1, .ne, some 0⟩ : BitPattern ℕ) ∧
      (∀ r ∈ negatedTable.rows, ∀ s ∈ negatedTable.rows, ∀ w, r.test w = true → s.test w = true →
        r.action = s.action) ∧
      ∀ g, ¬ Preserved g negatedTable.rows := by
  have hdisjoint : ∀ r ∈ negatedTable.rows, ∀ s ∈ negatedTable.rows, ∀ w, r.test w = true →
      s.test w = true → r.action = s.action := by simp [negatedTable]
  refine ⟨by decide, by decide, hdisjoint, fun g h => ?_⟩
  have hrow : ∃ r ∈ negatedTable.rows, r.test 0 = true ∧ r.action = 0 :=
    ⟨⟨[⟨7, 1, .ne, some 0⟩], 0⟩, by simp [negatedTable], by decide, rfl⟩
  have hpair : mergeablePair g (rowsOf negatedTable.rows 0) =
      some (⟨[⟨7, 0, .ne, some 0⟩], 0⟩, ⟨[⟨7, 1, .ne, some 0⟩], 0⟩, []) := by
    cases g <;> decide
  have hselected := (selectedAction_iff negatedTable hdisjoint g 0 0).1 ((h 0 0).2 hrow)
  rw [optimizeRowsForSingleAction_some hpair, optimizeRowsForSingleAction_none rfl] at hselected
  exact absurd hselected (by decide)

end DecoderGen

end SandboxingNaCl
