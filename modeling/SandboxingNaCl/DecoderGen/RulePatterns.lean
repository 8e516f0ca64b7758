import SandboxingNaCl.DecoderGen.BitPattern
import Mathlib.Data.List.Nodup
import Mathlib.Data.List.Perm.Subperm
import Mathlib.Data.Set.Insert

/-!
# Rule patterns of the decoder tables

`validator_arm/dgen_add_patterns.py`: every row gets one more pattern, which tests the bits of the
row's rule that the tables do not test on the way to the row.  The model has the walk through the
tables that looks for these bits, and the pass that adds the patterns row by row.
-/

namespace SandboxingNaCl

namespace DecoderGen

variable {κ α : Type}

/-- The action of a row. -/
inductive RowAction (α : Type)
  /-- A `DecoderAction` and its field `pattern`. -/
  | decoder (action : α) (pattern : Option (List Char))
  /-- A `DecoderMethod`. -/
  | method (name : String)
deriving DecidableEq

/-- `Table`, with the rows in the order of `rows`: the default row, if there is one, is the last. -/
structure Table (κ α : Type) where
  name : String
  rows : List (Row κ (RowAction α))

/-- `Decoder`: the tables in the order of `tables`, and the name of the primary one. -/
structure Decoder (κ α : Type) where
  tables : List (Table κ α)
  primary : String
  unique : (tables.map (·.name)).Nodup

/-- The exceptions of the pass. -/
inductive PatternError
  /-- `Table %s malformed for pattern %s`. -/
  | malformed (table : String)
  /-- `Error: action -> %s used, but not defined`. -/
  | notDefined (action : String)
  /-- `Row not reachable: %s : %s`. -/
  | notReachable
  | badPattern

def Decoder.getTable (D : Decoder κ α) (name : String) : Option (Table κ α) :=
  D.tables.find? (·.name = name)

/-- The tests of a row on the unmatched part of a rule: what remains unmatched, or nothing when the
row cannot be followed. -/
def matchRow : BitPattern κ → List (BitPattern κ) → Option (BitPattern κ)
  | unmatched, [] => some unmatched
  | unmatched, p :: patterns =>
    match unmatched.categorizeMatch p with
    | .matches => matchRow (unmatched.removeOverlappingBits p) patterns
    | .consistent => matchRow unmatched patterns
    | .conflicts => none

/-- The fields of `RulePatternLookup` that the walk builds up. -/
structure LookupState (κ : Type) where
  reachingPattern : BitPattern κ
  isReachable : Bool

section Walk

variable [DecidableEq κ] [DecidableEq α] (D : Decoder κ α) (target : Row κ (RowAction α))

/-- `_visit_row`, with `visit` for the tables that the row calls. -/
def visitRow (visit : BitPattern κ → Table κ α → LookupState κ → Except PatternError (LookupState κ))
    (unmatched : BitPattern κ) (st : LookupState κ) (row : Row κ (RowAction α)) :
    Except PatternError (LookupState κ) :=
  match matchRow unmatched row.patterns with
  | none => .ok st
  | some unmatched =>
    if row = target then .ok ⟨st.reachingPattern.unionMaskAndValue unmatched, true⟩
    else
      match row.action with
      | .decoder _ _ => .ok st
      | .method name =>
        match D.getTable name with
        | none => .error (.notDefined name)
        | some table => visit unmatched table st

/-- `_visit_table`, with the names of the tables on the stack. -/
def visitTable : ℕ → List String → BitPattern κ → Table κ α → LookupState κ →
    Except PatternError (LookupState κ)
  | 0, _, _, table, _ => .error (.malformed table.name)
  | fuel + 1, visited, unmatched, table, st =>
    if table.name ∈ visited then .error (.malformed table.name)
    else table.rows.foldlM (visitRow D target (visitTable fuel (table.name :: visited)) unmatched) st

/-- `reaching_pattern`.  No walk has more tables on its stack than the decoder has. -/
def reachingPattern (rule : BitPattern κ) : Except PatternError (BitPattern κ) := do
  match D.getTable D.primary with
  | none => .error (.notDefined D.primary)
  | some table =>
    let st ← visitTable D target (D.tables.length + 1) [] rule table
      ⟨.alwaysMatches rule.column, false⟩
    if st.isReachable then .ok st.reachingPattern else .error .notReachable

end Walk

/-- The pattern of a row's rule, if it has one. -/
def RowAction.rulePattern (column : κ) : RowAction α → Except PatternError (Option (BitPattern κ))
  | .decoder _ (some text) =>
    if text = [] then .ok none
    else
      match BitPattern.parse text 31 0 (some column) with
      | none => .error .badPattern
      | some rule => .ok (some rule)
  | .decoder _ none => .ok none
  | .method _ => .ok none

/-- `add_pattern` to a row of a table. -/
def Table.addPattern (table : Table κ α) (row : ℕ) (p : BitPattern κ) : Table κ α :=
  { table with rows := table.rows.modify row (·.addPattern p) }

theorem map_name_modify {f : Table κ α → Table κ α} (hf : ∀ table, (f table).name = table.name)
    (tables : List (Table κ α)) (t : ℕ) :
    (tables.modify t f).map (·.name) = tables.map (·.name) := by
  refine List.ext_getElem? fun i => ?_
  rw [List.getElem?_map, List.getElem?_map, List.getElem?_modify]
  cases tables[i]? with
  | none => rfl
  | some table => simp only [Option.map_eq_map, Option.map_some, apply_ite Table.name, hf, ite_self]

namespace Decoder

/-- The row in a place, given by the numbers of its table and of the row in the table. -/
def rowAt (D : Decoder κ α) (pos : ℕ × ℕ) : Option (Row κ (RowAction α)) :=
  D.tables[pos.1]?.bind (·.rows[pos.2]?)

def positions (D : Decoder κ α) : List (ℕ × ℕ) :=
  (List.range D.tables.length).flatMap fun t =>
    (List.range ((D.tables[t]?.map (·.rows.length)).getD 0)).map (t, ·)

/-- `add_pattern` to the row in a place. -/
def addPattern (D : Decoder κ α) (pos : ℕ × ℕ) (p : BitPattern κ) : Decoder κ α where
  tables := D.tables.modify pos.1 (·.addPattern pos.2 p)
  primary := D.primary
  unique := by
    rw [map_name_modify fun table => (rfl : (table.addPattern pos.2 p).name = table.name)]
    exact D.unique

variable [DecidableEq κ] [DecidableEq α]

/-- The pattern that is added to a row. -/
def extraPattern (D : Decoder κ α) (column : κ) (row : Row κ (RowAction α)) :
    Except PatternError (BitPattern κ) := do
  match ← row.action.rulePattern column with
  | none => .ok (.alwaysMatches (some column))
  | some rule => reachingPattern D row rule

/-- `_add_rule_pattern_constraints_to_row`. -/
def addConstraintToRow (column : κ) (D : Decoder κ α) (pos : ℕ × ℕ) :
    Except PatternError (Decoder κ α) := do
  match D.rowAt pos with
  | none => .ok D
  | some row => .ok (D.addPattern pos (← D.extraPattern column row))

/-- `add_rule_pattern_constraints`, with `column` for the bit field `$pattern`. -/
def addRulePatternConstraints (column : κ) (D : Decoder κ α) :
    Except PatternError (Decoder κ α) :=
  D.positions.foldlM (addConstraintToRow column) D

def stage (column : κ) (D : Decoder κ α) (pos : ℕ × ℕ) : Except PatternError (Decoder κ α) :=
  (D.positions.takeWhile (· ≠ pos)).foldlM (addConstraintToRow column) D

end Decoder

/-! ## What the walk finds -/

theorem partOf_of_matchRow {rule unmatched left : BitPattern κ} {patterns : List (BitPattern κ)}
    (hpart : unmatched.PartOf rule) (h : matchRow unmatched patterns = some left) :
    left.PartOf rule := by
  induction patterns generalizing unmatched with
  | nil =>
    cases h
    exact hpart
  | cons p patterns ih =>
    rw [matchRow] at h
    split at h
    · exact ih (hpart.removeOverlappingBits p) h
    · exact ih hpart h
    · cases h

section Walk

variable (D : Decoder κ α) (target : Row κ (RowAction α))

/-- The walk follows a path from some of the rows to the target, and leaves a part of the rule
unmatched. -/
inductive Decoder.Follows : BitPattern κ → List (Row κ (RowAction α)) → BitPattern κ → Prop
  | target {unmatched rows left} (hmem : target ∈ rows)
      (hleft : matchRow unmatched target.patterns = some left) : Follows unmatched rows left
  | method {unmatched rows row rest name table left} (hmem : row ∈ rows) (hne : row ≠ target)
      (hrest : matchRow unmatched row.patterns = some rest) (haction : row.action = .method name)
      (htable : D.getTable name = some table) (hleft : Follows rest table.rows left) :
      Follows unmatched rows left

def Decoder.leftovers (unmatched : BitPattern κ) (rows : List (Row κ (RowAction α))) :
    Set (BitPattern κ) :=
  {left | D.Follows target unmatched rows left}

/-- The reaching pattern is the union of the patterns in a set. -/
structure LookupState.Unites (st : LookupState κ) (S : Set (BitPattern κ)) : Prop where
  op : st.reachingPattern.op = .eq
  mask : ∀ i, st.reachingPattern.mask.getLsbD i = true ↔ ∃ u ∈ S, u.mask.getLsbD i = true
  value : ∀ i, st.reachingPattern.value.getLsbD i = true ↔ ∃ u ∈ S, u.value.getLsbD i = true
  reachable : st.isReachable = true ↔ S.Nonempty

variable {D target} {unmatched left : BitPattern κ} {row : Row κ (RowAction α)}
  {rows : List (Row κ (RowAction α))} {st st' : LookupState κ} {S : Set (BitPattern κ)}

theorem Decoder.Follows.mono {rows' : List (Row κ (RowAction α))}
    (h : D.Follows target unmatched rows left) (hsub : ∀ r ∈ rows, r ∈ rows') :
    D.Follows target unmatched rows' left := by
  cases h with
  | target hmem hleft => exact .target (hsub _ hmem) hleft
  | method hmem hne hrest haction htable hleft =>
    exact .method (hsub _ hmem) hne hrest haction htable hleft

theorem Decoder.Follows.partOf {rule : BitPattern κ} (h : D.Follows target unmatched rows left)
    (hpart : unmatched.PartOf rule) : left.PartOf rule := by
  induction h with
  | target _ hleft => exact partOf_of_matchRow hpart hleft
  | method _ _ hrest _ _ _ ih => exact ih (partOf_of_matchRow hpart hrest)

theorem follows_singleton : D.Follows target unmatched [row] left ↔
    row = target ∧ matchRow unmatched row.patterns = some left ∨
      row ≠ target ∧ ∃ rest name table, matchRow unmatched row.patterns = some rest ∧
        row.action = .method name ∧ D.getTable name = some table ∧
          D.Follows target rest table.rows left := by
  constructor
  · intro h
    cases h with
    | target hmem hleft =>
      obtain rfl := List.mem_singleton.1 hmem
      exact Or.inl ⟨rfl, hleft⟩
    | method hmem hne hrest haction htable hleft =>
      obtain rfl := List.mem_singleton.1 hmem
      exact Or.inr ⟨hne, _, _, _, hrest, haction, htable, hleft⟩
  · rintro (⟨rfl, hleft⟩ | ⟨hne, rest, name, table, hrest, haction, htable, hleft⟩)
    · exact .target List.mem_cons_self hleft
    · exact .method List.mem_cons_self hne hrest haction htable hleft

theorem leftovers_nil : D.leftovers target unmatched [] = ∅ := by
  refine Set.eq_empty_of_forall_notMem fun left h => ?_
  cases h with
  | target hmem => cases hmem
  | method hmem => cases hmem

theorem leftovers_cons : D.leftovers target unmatched (row :: rows) =
    D.leftovers target unmatched [row] ∪ D.leftovers target unmatched rows := by
  ext left
  constructor
  · intro h
    cases h with
    | target hmem hleft =>
      obtain rfl | hmem := List.mem_cons.1 hmem
      · exact Or.inl (.target (List.mem_singleton.2 rfl) hleft)
      · exact Or.inr (.target hmem hleft)
    | method hmem hne hrest haction htable hleft =>
      obtain rfl | hmem := List.mem_cons.1 hmem
      · exact Or.inl (.method (List.mem_singleton.2 rfl) hne hrest haction htable hleft)
      · exact Or.inr (.method hmem hne hrest haction htable hleft)
  · rintro (h | h)
    · refine Decoder.Follows.mono h fun r hr => ?_
      rw [List.mem_singleton.1 hr]
      exact List.mem_cons_self
    · exact Decoder.Follows.mono h fun r hr => List.mem_cons_of_mem _ hr

theorem LookupState.Unites.union (h : st.Unites S) (left : BitPattern κ) :
    LookupState.Unites ⟨st.reachingPattern.unionMaskAndValue left, true⟩ (S ∪ {left}) where
  op := h.op
  mask i := by
    simp only [BitPattern.unionMaskAndValue, BitVec.getLsbD_or, Bool.or_eq_true, h.mask,
      Set.mem_union, Set.mem_singleton_iff, or_and_right, exists_or, exists_eq_left]
  value i := by
    simp only [BitPattern.unionMaskAndValue, BitVec.getLsbD_or, Bool.or_eq_true, h.value,
      Set.mem_union, Set.mem_singleton_iff, or_and_right, exists_or, exists_eq_left]
  reachable := iff_of_true rfl ⟨left, Or.inr rfl⟩

theorem unites_start (column : Option κ) :
    LookupState.Unites ⟨.alwaysMatches column, false⟩ (∅ : Set (BitPattern κ)) where
  op := rfl
  mask i := by simp [BitPattern.alwaysMatches]
  value i := by simp [BitPattern.alwaysMatches]
  reachable := by simp

variable [DecidableEq κ] [DecidableEq α]
  {visit : BitPattern κ → Table κ α → LookupState κ → Except PatternError (LookupState κ)}

theorem visitRow_unites
    (hvisit : ∀ {unmatched table st st' S}, visit unmatched table st = .ok st' →
      LookupState.Unites st S → LookupState.Unites st' (S ∪ D.leftovers target unmatched table.rows))
    (h : visitRow D target visit unmatched st row = .ok st') (hst : st.Unites S) :
    st'.Unites (S ∪ D.leftovers target unmatched [row]) := by
  have hsingle (T : Set (BitPattern κ))
      (hT : ∀ left, D.Follows target unmatched [row] left ↔ left ∈ T) :
      D.leftovers target unmatched [row] = T := Set.ext hT
  unfold visitRow at h
  split at h
  · rename_i hnone
    cases h
    rw [hsingle ∅ fun left => by simp [follows_singleton, hnone], Set.union_empty]
    exact hst
  rename_i rest hrest
  split_ifs at h with htarget
  · cases h
    rw [hsingle {rest} fun left => by simp [follows_singleton, htarget ▸ hrest, htarget, eq_comm]]
    exact hst.union rest
  · split at h
    · rename_i action pattern haction
      cases h
      rw [hsingle ∅ fun left => by simp [follows_singleton, htarget, haction], Set.union_empty]
      exact hst
    · rename_i name haction
      split at h
      · cases h
      · rename_i table htable
        rw [hsingle (D.leftovers target rest table.rows) fun left => by
          simp [follows_singleton, htarget, haction, hrest, htable, Decoder.leftovers]]
        exact hvisit h hst

theorem foldlM_visitRow_unites
    (hvisit : ∀ {unmatched table st st' S}, visit unmatched table st = .ok st' →
      LookupState.Unites st S → LookupState.Unites st' (S ∪ D.leftovers target unmatched table.rows))
    (h : rows.foldlM (visitRow D target visit unmatched) st = .ok st') (hst : st.Unites S) :
    st'.Unites (S ∪ D.leftovers target unmatched rows) := by
  induction rows generalizing st S with
  | nil =>
    cases h
    rw [leftovers_nil, Set.union_empty]
    exact hst
  | cons row rows ih =>
    rw [List.foldlM_cons] at h
    cases hrow : visitRow D target visit unmatched st row with
    | error err =>
      rw [hrow] at h
      cases h
    | ok next =>
      rw [hrow] at h
      rw [leftovers_cons, ← Set.union_assoc]
      exact ih h (visitRow_unites hvisit hrow hst)

theorem visitTable_unites {fuel : ℕ} {visited : List String} {table : Table κ α}
    (h : visitTable D target fuel visited unmatched table st = .ok st') (hst : st.Unites S) :
    st'.Unites (S ∪ D.leftovers target unmatched table.rows) := by
  induction fuel generalizing visited unmatched table st st' S with
  | zero => cases h
  | succ fuel ih =>
    rw [visitTable] at h
    split_ifs at h
    exact foldlM_visitRow_unites (fun h hst => ih h hst) h hst

end Walk

section Reaching

variable {D : Decoder κ α} {row : Row κ (RowAction α)} {rule extra : BitPattern κ}

/-- A bit of the rule that is left unmatched on a path which the walk follows to the row. -/
def Decoder.Leaves (D : Decoder κ α) (row : Row κ (RowAction α)) (rule : BitPattern κ) (i : ℕ) : Prop :=
  ∃ table left, D.getTable D.primary = some table ∧ D.Follows row rule table.rows left ∧
    left.mask.getLsbD i = true

/-- Among some words, those that break the rule differ from it in a bit that some path leaves
unmatched.  If the rule is negated, all of them keep it, and they have its bits in those places. -/
def Decoder.KeepsRule (D : Decoder κ α) (row : Row κ (RowAction α)) (rule : BitPattern κ)
    (words : Word → Prop) : Prop :=
  ∀ w, words w →
    match rule.op with
    | .eq => rule.test w = false →
        ∃ i, D.Leaves row rule i ∧ w.getLsbD i ≠ rule.value.getLsbD i
    | .ne => rule.test w = true ∧
        ∀ i, D.Leaves row rule i → w.getLsbD i = rule.value.getLsbD i

theorem Decoder.Leaves.mask (hrule : rule.Valid) {i : ℕ} (h : D.Leaves row rule i) :
    rule.mask.getLsbD i = true := by
  obtain ⟨table, left, -, hfollows, hi⟩ := h
  exact (hfollows.partOf (BitPattern.partOf_self hrule)).mask i hi

variable [DecidableEq κ] [DecidableEq α]

theorem reachingPattern_spec (hrule : rule.Valid) (h : reachingPattern D row rule = .ok extra) :
    extra.PartOf { rule with op := .eq } ∧ extra.op = .eq ∧
      ∀ i, extra.mask.getLsbD i = true ↔ D.Leaves row rule i := by
  unfold reachingPattern at h
  split at h
  · cases h
  rename_i table htable
  cases hwalk : visitTable D row (D.tables.length + 1) [] rule table
      ⟨.alwaysMatches rule.column, false⟩ with
  | error err =>
    rw [hwalk] at h
    cases h
  | ok st =>
    rw [hwalk] at h
    have hunites := visitTable_unites hwalk (unites_start rule.column)
    rw [Set.empty_union] at hunites
    have hpart {left} (hleft : left ∈ D.leftovers row rule table.rows) : left.PartOf rule :=
      Decoder.Follows.partOf hleft (BitPattern.partOf_self hrule)
    have hextra : st.reachingPattern = extra := by
      change (if st.isReachable = true then _ else _) = _ at h
      split_ifs at h
      cases h
      rfl
    subst hextra
    have hleaves (i : ℕ) : st.reachingPattern.mask.getLsbD i = true ↔ D.Leaves row rule i := by
      rw [hunites.mask]
      constructor
      · rintro ⟨left, hleft, hi⟩
        exact ⟨table, left, htable, hleft, hi⟩
      · rintro ⟨table', left, htable', hleft, hi⟩
        cases htable.symm.trans htable'
        exact ⟨left, hleft, hi⟩
    refine ⟨⟨hunites.op, fun i hi => ?_, fun i => ?_⟩, hunites.op, hleaves⟩
    · obtain ⟨left, hleft, hi⟩ := (hunites.mask i).1 hi
      exact (hpart hleft).mask i hi
    · rw [Bool.eq_iff_iff, Bool.and_eq_true, hunites.value, hunites.mask]
      constructor
      · rintro ⟨left, hleft, hi⟩
        rw [(hpart hleft).value, Bool.and_eq_true] at hi
        exact ⟨⟨left, hleft, hi.1⟩, hi.2⟩
      · rintro ⟨⟨left, hleft, hi⟩, hvalue⟩
        refine ⟨left, hleft, ?_⟩
        rw [(hpart hleft).value, hi, hvalue, Bool.and_self]

theorem test_reachingPattern (hrule : rule.Valid) (h : reachingPattern D row rule = .ok extra)
    {w : Word} :
    extra.test w ↔ ∀ i, D.Leaves row rule i → w.getLsbD i = rule.value.getLsbD i := by
  obtain ⟨hpart, hop, hmask⟩ := reachingPattern_spec hrule h
  rw [hpart.test_iff hop]
  exact forall_congr' fun i => by rw [hmask]

/-- The pattern that the lookup returns and the rule are matched by the same of some words, exactly
when these words keep the rule. -/
theorem test_reachingPattern_iff (hrule : rule.Valid) (h : reachingPattern D row rule = .ok extra)
    (words : Word → Prop) :
    (∀ w, words w → (extra.test w ↔ rule.test w)) ↔ D.KeepsRule row rule words := by
  refine forall_congr' fun w => imp_congr_right fun _ => ?_
  rw [test_reachingPattern hrule h]
  cases hop : rule.op with
  | eq =>
    have htest := (BitPattern.partOf_self hrule).test_iff hop (w := w)
    simp only
    constructor
    · intro hiff hfalse
      by_contra hall
      push Not at hall
      rw [hiff.1 fun i hi => hall i hi] at hfalse
      cases hfalse
    · intro hkeeps
      refine ⟨fun hall => ?_, fun hw i hi => htest.1 hw i (hi.mask hrule)⟩
      by_contra hw
      obtain ⟨i, hi, hne⟩ := hkeeps (Bool.eq_false_of_not_eq_true hw)
      exact hne (hall i hi)
  | ne =>
    have htest := BitPattern.test_iff_of_ne hrule hop (w := w)
    simp only
    constructor
    · intro hiff
      by_cases hw : rule.test w = true
      · exact ⟨hw, hiff.2 hw⟩
      · have hall (i : ℕ) (hi : D.Leaves row rule i) :
            w.getLsbD i = rule.value.getLsbD i := by
          by_contra hne
          exact hw (htest.2 (Or.inr ⟨i, hi.mask hrule, hne⟩))
        exact absurd (hiff.1 hall) hw
    · rintro ⟨hw, hall⟩
      exact ⟨fun _ => hw, fun _ => hall⟩

/-! ## The lookup in an acyclic decoder -/

def Decoder.Calls (D : Decoder κ α) (name called : String) : Prop :=
  ∃ table ∈ D.tables, table.name = name ∧ ∃ r ∈ table.rows, r.action = .method called

def Decoder.Acyclic (D : Decoder κ α) : Prop := ∀ name, ¬ Relation.TransGen D.Calls name name

/-- The primary table and those that are called are defined. -/
def Decoder.Defined (D : Decoder κ α) : Prop :=
  (D.getTable D.primary).isSome ∧ ∀ name called, D.Calls name called → (D.getTable called).isSome

theorem foldlM_ok {σ β ε : Type} {f : σ → β → Except ε σ} {l : List β}
    (h : ∀ x ∈ l, ∀ s, ∃ s', f s x = .ok s') (s : σ) : ∃ s', l.foldlM f s = .ok s' := by
  induction l generalizing s with
  | nil => exact ⟨s, rfl⟩
  | cons x l ih =>
    obtain ⟨s', hs'⟩ := h x List.mem_cons_self s
    rw [List.foldlM_cons, hs']
    exact ih (fun y hy => h y (List.mem_cons_of_mem _ hy)) s'

omit [DecidableEq κ] [DecidableEq α] in
theorem mem_of_getTable {name : String} {table : Table κ α} (h : D.getTable name = some table) :
    table ∈ D.tables ∧ table.name = name :=
  ⟨List.mem_of_find?_eq_some h, by simpa using List.find?_some h⟩

/-- The names on the stack are different ones that lead to the table, so that no cycle is found and
the stack has at most as many names as there are tables. -/
theorem visitTable_ok (hacyclic : D.Acyclic) (hdefined : D.Defined) {fuel : ℕ}
    {visited : List String} {unmatched : BitPattern κ} {table : Table κ α} {st : LookupState κ}
    (htable : table ∈ D.tables) (hnodup : visited.Nodup)
    (hsub : visited ⊆ D.tables.map (·.name))
    (hcalls : ∀ name ∈ visited, Relation.TransGen D.Calls name table.name)
    (hfuel : fuel + visited.length = D.tables.length + 1) :
    ∃ st', visitTable D row fuel visited unmatched table st = .ok st' := by
  induction fuel generalizing visited unmatched table st with
  | zero =>
    have hlength := (hnodup.subperm hsub).length_le
    rw [List.length_map] at hlength
    omega
  | succ fuel ih =>
    have hnot : table.name ∉ visited := fun hmem => hacyclic _ (hcalls _ hmem)
    rw [visitTable, if_neg hnot]
    refine foldlM_ok (fun r hr st => ?_) st
    unfold visitRow
    split
    · exact ⟨_, rfl⟩
    rename_i rest _
    split_ifs
    · exact ⟨_, rfl⟩
    split
    · exact ⟨_, rfl⟩
    · rename_i name haction
      have hcall : D.Calls table.name name := ⟨table, htable, rfl, r, hr, haction⟩
      obtain ⟨next, hnext⟩ := Option.isSome_iff_exists.1 (hdefined.2 _ _ hcall)
      obtain ⟨hmem, hname⟩ := mem_of_getTable hnext
      rw [hnext]
      refine ih hmem (List.nodup_cons.2 ⟨hnot, hnodup⟩) ?_ ?_ ?_
      · exact List.cons_subset.2 ⟨List.mem_map_of_mem htable, hsub⟩
      · rw [hname]
        intro v hv
        obtain rfl | hv := List.mem_cons.1 hv
        · exact .single hcall
        · exact (hcalls v hv).tail hcall
      · rw [List.length_cons]
        omega

/-- In an acyclic decoder the lookup fails only for a row to which the walk follows no path. -/
theorem exists_reachingPattern_iff (hacyclic : D.Acyclic) (hdefined : D.Defined) :
    (∃ extra, reachingPattern D row rule = .ok extra) ↔
      ∃ table left, D.getTable D.primary = some table ∧ D.Follows row rule table.rows left := by
  obtain ⟨table, htable⟩ := Option.isSome_iff_exists.1 hdefined.1
  have hwalk : ∃ st, visitTable D row (D.tables.length + 1) [] rule table
      ⟨.alwaysMatches rule.column, false⟩ = .ok st :=
    visitTable_ok hacyclic hdefined (mem_of_getTable htable).1 List.nodup_nil (List.nil_subset _)
      (fun _ h => nomatch h) rfl
  obtain ⟨st, hst⟩ := hwalk
  have hreachable := (visitTable_unites hst (unites_start rule.column)).reachable
  rw [Set.empty_union] at hreachable
  have hresult : reachingPattern D row rule =
      if st.isReachable then .ok st.reachingPattern else .error .notReachable := by
    rw [reachingPattern, htable]
    simp only [hst]
    rfl
  rw [hresult]
  constructor
  · rintro ⟨extra, hextra⟩
    split_ifs at hextra with hst'
    obtain ⟨left, hleft⟩ := hreachable.1 hst'
    exact ⟨table, left, htable, hleft⟩
  · rintro ⟨table', left, htable', hleft⟩
    cases htable.symm.trans htable'
    exact ⟨st.reachingPattern, if_pos (hreachable.2 ⟨left, hleft⟩)⟩

end Reaching

/-! ## The pass over all rows -/

section Pass

variable {D D' : Decoder κ α} {column : κ} {pos pos' : ℕ × ℕ} {row : Row κ (RowAction α)}

theorem Decoder.rowAt_addPattern (D : Decoder κ α) (pos pos' : ℕ × ℕ) (p : BitPattern κ) :
    (D.addPattern pos p).rowAt pos' =
      if pos = pos' then (D.rowAt pos').map (·.addPattern p) else D.rowAt pos' := by
  obtain ⟨t, i⟩ := pos
  obtain ⟨t', i'⟩ := pos'
  simp only [rowAt, addPattern, List.getElem?_modify, Prod.mk.injEq]
  cases D.tables[t']? with
  | none => simp
  | some table =>
    by_cases ht : t = t'
    · simp only [ht, Table.addPattern]
      by_cases hi : i = i' <;> simp [hi]
    · simp [ht]

theorem Decoder.nodup_positions (D : Decoder κ α) : D.positions.Nodup := by
  rw [positions, List.nodup_flatMap]
  refine ⟨fun t _ => List.nodup_range.map fun i j h => (Prod.mk.inj h).2, ?_⟩
  refine List.nodup_range.imp fun hne => List.disjoint_left.2 fun pos hpos hpos' => ?_
  obtain ⟨i, -, rfl⟩ := List.mem_map.1 hpos
  obtain ⟨j, -, heq⟩ := List.mem_map.1 hpos'
  exact hne (Prod.mk.inj heq).1.symm

theorem Decoder.mem_positions (h : D.rowAt pos = some row) : pos ∈ D.positions := by
  obtain ⟨table, htable, hrow⟩ := Option.bind_eq_some_iff.1 h
  refine List.mem_flatMap.2 ⟨pos.1, ?_, List.mem_map.2 ⟨pos.2, ?_, rfl⟩⟩
  · exact List.mem_range.2 (List.getElem?_eq_some_iff.1 htable).1
  · rw [htable]
    exact List.mem_range.2 (List.getElem?_eq_some_iff.1 hrow).1

variable [DecidableEq κ] [DecidableEq α]

theorem rowAt_addConstraintToRow_self (h : D.addConstraintToRow column pos = .ok D')
    (hrow : D.rowAt pos = some row) : ∃ extra, D.extraPattern column row = .ok extra ∧
      D'.rowAt pos = some (row.addPattern extra) := by
  rw [Decoder.addConstraintToRow, hrow] at h
  cases hextra : D.extraPattern column row with
  | error err =>
    simp only [hextra] at h
    cases h
  | ok extra =>
    simp only [hextra] at h
    cases h
    exact ⟨extra, rfl, by rw [Decoder.rowAt_addPattern, if_pos rfl, hrow]; rfl⟩

theorem rowAt_addConstraintToRow_of_ne (h : D.addConstraintToRow column pos = .ok D')
    (hne : pos ≠ pos') : D'.rowAt pos' = D.rowAt pos' := by
  rw [Decoder.addConstraintToRow] at h
  split at h
  · cases h
    rfl
  · rename_i other _
    cases hextra : D.extraPattern column other with
    | error err =>
      simp only [hextra] at h
      cases h
    | ok extra =>
      simp only [hextra] at h
      cases h
      rw [Decoder.rowAt_addPattern, if_neg hne]

theorem rowAt_foldlM_of_notMem {places : List (ℕ × ℕ)}
    (h : places.foldlM (Decoder.addConstraintToRow column) D = .ok D') (hpos : pos ∉ places) :
    D'.rowAt pos = D.rowAt pos := by
  induction places generalizing D with
  | nil =>
    cases h
    rfl
  | cons place places ih =>
    rw [List.foldlM_cons] at h
    cases hplace : D.addConstraintToRow column place with
    | error err =>
      rw [hplace] at h
      cases h
    | ok next =>
      rw [hplace] at h
      have hne : place ≠ pos := fun heq => hpos (heq ▸ List.mem_cons_self)
      rw [ih h fun hmem => hpos (List.mem_cons_of_mem _ hmem),
        rowAt_addConstraintToRow_of_ne hplace hne]

/-- In a run over distinct places, the row in each of them gets the pattern that is found for it when
the run comes to the place. -/
theorem exists_stage_of_foldlM {places : List (ℕ × ℕ)} (hnodup : places.Nodup)
    (h : places.foldlM (Decoder.addConstraintToRow column) D = .ok D') (hpos : pos ∈ places)
    (hrow : D.rowAt pos = some row) :
    ∃ S extra, (places.takeWhile (· ≠ pos)).foldlM (Decoder.addConstraintToRow column) D = .ok S ∧
      S.extraPattern column row = .ok extra ∧ D'.rowAt pos = some (row.addPattern extra) := by
  induction places generalizing D with
  | nil => cases hpos
  | cons place places ih =>
    obtain ⟨hplace, hnodup⟩ := List.nodup_cons.1 hnodup
    rw [List.foldlM_cons] at h
    cases hnext : D.addConstraintToRow column place with
    | error err =>
      rw [hnext] at h
      cases h
    | ok next =>
      rw [hnext] at h
      by_cases heq : place = pos
      · subst heq
        obtain ⟨extra, hextra, hrow'⟩ := rowAt_addConstraintToRow_self hnext hrow
        exact ⟨D, extra, by simp; rfl, hextra, (rowAt_foldlM_of_notMem h hplace).trans hrow'⟩
      · have hmem := (List.mem_cons.1 hpos).resolve_left (Ne.symm heq)
        have hrow' := (rowAt_addConstraintToRow_of_ne hnext heq).trans hrow
        obtain ⟨S, extra, hstage, hfound⟩ := ih hnodup h hmem hrow'
        refine ⟨S, extra, ?_, hfound⟩
        have htake : (place :: places).takeWhile (· ≠ pos) = place :: places.takeWhile (· ≠ pos) :=
          List.takeWhile_cons_of_pos (decide_eq_true heq)
        rw [htake, List.foldlM_cons, hnext]
        exact hstage

end Pass

/-! ## Words on their way through the tables -/

/-- The word comes to a table: the primary one, or one that is called by the first row of a table it
has come to whose tests it passes. -/
inductive Decoder.ComesTo (D : Decoder κ α) (w : Word) : Table κ α → Prop
  | primary {table} (htable : D.getTable D.primary = some table) : ComesTo D w table
  | method {table row name next} (hcomes : ComesTo D w table)
      (hrow : table.rows.find? (·.test w) = some row) (haction : row.action = .method name)
      (hnext : D.getTable name = some next) : ComesTo D w next

/-- The word's way leads to a row: it comes to the table, passes no row before it, and passes the
tests that the row has. -/
def Decoder.Reaches (D : Decoder κ α) (pos : ℕ × ℕ) (row : Row κ (RowAction α)) (w : Word) : Prop :=
  ∃ table, D.tables[pos.1]? = some table ∧ D.ComesTo w table ∧
    (∀ r ∈ table.rows.take pos.2, r.test w = false) ∧ row.test w = true

/-- The decoder gives the word to the row in a place. -/
def Decoder.Selects (D : Decoder κ α) (pos : ℕ × ℕ) (w : Word) : Prop :=
  ∃ row, D.rowAt pos = some row ∧ D.Reaches pos row w

theorem test_addPattern (row : Row κ (RowAction α)) (p : BitPattern κ) (w : Word) :
    (row.addPattern p).test w = (row.test w && p.test w) := by
  simp [Row.test, Row.addPattern]

theorem selects_iff {D : Decoder κ α} {pos : ℕ × ℕ} {row : Row κ (RowAction α)} {p : BitPattern κ}
    (hrow : D.rowAt pos = some (row.addPattern p)) {w : Word} :
    D.Selects pos w ↔ D.Reaches pos row w ∧ p.test w = true := by
  constructor
  · rintro ⟨found, hfound, table, htable, hcomes, hbefore, htest⟩
    cases hrow.symm.trans hfound
    rw [test_addPattern, Bool.and_eq_true] at htest
    exact ⟨⟨table, htable, hcomes, hbefore, htest.1⟩, htest.2⟩
  · rintro ⟨⟨table, htable, hcomes, hbefore, htest⟩, hp⟩
    refine ⟨row.addPattern p, hrow, table, htable, hcomes, hbefore, ?_⟩
    rw [test_addPattern, htest, hp, Bool.and_self]

theorem valid_of_rulePattern {column : κ} {action : RowAction α} {rule : BitPattern κ}
    (h : action.rulePattern column = .ok (some rule)) : rule.Valid := by
  unfold RowAction.rulePattern at h
  split at h
  · split_ifs at h
    · cases h
    · split at h
      · cases h
      · rename_i hparse
        cases h
        exact BitPattern.valid_of_parse hparse
  · cases h
  · cases h

section Exact

variable [DecidableEq κ] [DecidableEq α] {D D' : Decoder κ α} {column : κ} {pos : ℕ × ℕ}
  {row : Row κ (RowAction α)} {rule : BitPattern κ}

end Exact

/-- Two rows call one table, whose row has a rule that only one of them keeps. -/
def sharedDecoder : Decoder Unit String where
  tables := [
    ⟨"main", [⟨[⟨1, 1, .eq, some ()⟩], .method "sub"⟩, ⟨[⟨1, 0, .eq, some ()⟩], .method "sub"⟩]⟩,
    ⟨"sub", [⟨[⟨2, 2, .eq, some ()⟩], .decoder "Load" (some (List.replicate 30 'x' ++ ['1', '1']))⟩]⟩]
  primary := "main"
  unique := by decide

/-- The decoder after the pass. -/
def sharedDecoderResult : Decoder Unit String where
  tables := [
    ⟨"main", [⟨[⟨1, 1, .eq, some ()⟩, ⟨0, 0, .eq, some ()⟩], .method "sub"⟩,
      ⟨[⟨1, 0, .eq, some ()⟩, ⟨0, 0, .eq, some ()⟩], .method "sub"⟩]⟩,
    ⟨"sub", [⟨[⟨2, 2, .eq, some ()⟩, ⟨0, 0, .eq, some ()⟩],
      .decoder "Load" (some (List.replicate 30 'x' ++ ['1', '1']))⟩]⟩]
  primary := "main"
  unique := by decide

def sharedRow : Row Unit (RowAction String) :=
  ⟨[⟨2, 2, .eq, some ()⟩], .decoder "Load" (some (List.replicate 30 'x' ++ ['1', '1']))⟩

def sharedRule : BitPattern Unit := ⟨3, 3, .eq, some ()⟩

theorem acyclic_sharedDecoder : sharedDecoder.Acyclic := by
  have hcalls (a b : String) (h : sharedDecoder.Calls a b) : a = "main" ∧ b = "sub" := by
    obtain ⟨table, htable, rfl, r, hr, haction⟩ := h
    simp only [sharedDecoder, List.mem_cons, List.not_mem_nil, or_false] at htable
    obtain rfl | rfl := htable
    · simp only [List.mem_cons, List.not_mem_nil, or_false] at hr
      obtain rfl | rfl := hr <;> cases haction <;> exact ⟨rfl, rfl⟩
    · simp only [List.mem_cons, List.not_mem_nil, or_false] at hr
      subst hr
      cases haction
  have hpaths (a b : String) (h : Relation.TransGen sharedDecoder.Calls a b) :
      a = "main" ∧ b = "sub" := by
    induction h with
    | single h => exact hcalls _ _ h
    | tail _ h ih => exact ⟨ih.1, (hcalls _ _ h).2⟩
  intro name h
  obtain ⟨rfl, hsub⟩ := hpaths _ _ h
  exact absurd hsub (by decide)

theorem exists_reachingPattern_iff_sharedDecoder :
    (∃ extra, reachingPattern sharedDecoder sharedRow sharedRule = .ok extra) ↔
      ∃ table left, sharedDecoder.getTable "main" = some table ∧
        sharedDecoder.Follows sharedRow sharedRule table.rows left := by
  refine exists_reachingPattern_iff acyclic_sharedDecoder ⟨rfl, ?_⟩
  rintro name called ⟨table, htable, -, r, hr, haction⟩
  simp only [sharedDecoder, List.mem_cons, List.not_mem_nil, or_false] at htable
  obtain rfl | rfl := htable
  · simp only [List.mem_cons, List.not_mem_nil, or_false] at hr
    obtain rfl | rfl := hr <;> cases haction <;> rfl
  · simp only [List.mem_cons, List.not_mem_nil, or_false] at hr
    subst hr
    cases haction

end DecoderGen

end SandboxingNaCl
