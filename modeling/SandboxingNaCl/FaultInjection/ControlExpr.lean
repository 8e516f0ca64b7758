import SandboxingNaCl.FaultInjection.Grammar

/-!
# Fault control expressions

The parser of `fault_injection.c`, from its numbers to `NaClFaultInjectionParseFaultControlExpr`.  A
C string is the list of the characters in front of its NUL.  A fault control expression of the
grammar is parsed to the symbols and counts that it is made of, and nothing is stored outside of the
array for them.
-/

namespace SandboxingNaCl

namespace FaultInjection

open CountedRuns

/-- How the initialisation ends when it does not come to its end. -/
inductive Fault
  /-- `LOG_FATAL`. -/
  | syntaxError
  | tooManyRecords
  | badAccess

/-! ## Arrays that grow -/

/-- An array from `realloc`. -/
structure GrowingArray (α : Type) where
  elems : List α
  /-- What the program takes for the number of elements that there is room for. -/
  size : ℕ
  /-- The number of elements that the block has room for. -/
  room : ℕ

namespace GrowingArray

variable {α : Type}

def empty : GrowingArray α := ⟨[], 0, 0⟩

def nextSize (size : ℕ) : ℕ := if 2 * size = 0 then 4 else 2 * size

/-- `array[num++] = a`. -/
def push (array : GrowingArray α) (a : α) : Except Fault (GrowingArray α) :=
  if array.elems.length < array.room then .ok { array with elems := array.elems ++ [a] }
  else .error .badAccess

def Sized (array : GrowingArray α) : Prop :=
  array.elems.length ≤ array.size ∧ array.size = array.room

theorem sized_empty : (empty : GrowingArray α).Sized := ⟨Nat.le_refl _, rfl⟩

theorem lt_nextSize (size : ℕ) : size < nextSize size := by
  unfold nextSize
  split_ifs <;> omega

end GrowingArray

/-! ## Numbers -/

def isSpace (c : Char) : Bool := c = ' ' ∨ 9 ≤ c.toNat ∧ c.toNat ≤ 13

/-- The sign of a number, and what is behind it. -/
def scanSign : List Char → Bool × List Char
  | '-' :: str => (true, str)
  | '+' :: str => (false, str)
  | str => (false, str)

/-- The base of a number, and what is behind a `0x` that is in front of a digit. -/
def scanBase (str : List Char) : ℕ × List Char :=
  match str with
  | '0' :: x :: c :: rest =>
    if (x = 'x' ∨ x = 'X') ∧ digitValue c < 16 then (16, c :: rest) else (8, str)
  | '0' :: _ => (8, str)
  | _ => (10, str)

/-- `strtoul(str, &end, 0)`: the number, and `end`. -/
def strtoul (str : List Char) : ℕ × List Char :=
  let (negative, chars) := scanSign (str.dropWhile isSpace)
  let (base, chars) := scanBase chars
  let digits := chars.takeWhile fun c => digitValue c < base
  if digits = [] then (0, str)
  else
    let n := numeral base digits
    (if uintptrMax < n then uintptrMax else if negative then (2 ^ 64 - n) % 2 ^ 64 else n,
      chars.dropWhile fun c => digitValue c < base)

/-- `NaClFaultInjectionParseNumber`: the number and what is behind it, if there is one. -/
def NaClFaultInjectionParseNumber (digits : List Char) : Option (ℕ × List Char) :=
  match digits with
  | '@' :: rest => some (uintptrMax, rest)
  | p =>
    let (out, pp) := strtoul p
    if pp ≠ p then some (out, pp) else none

/-! ## Expressions -/

/-- `struct NaClFaultExpr`. -/
structure NaClFaultExpr where
  pass : Bool
  faultValue : ℕ
  count : ℕ

/-- `struct NaClFaultInjectInfo`. -/
structure NaClFaultInjectInfo where
  callSiteName : List Char
  threadSpecificP : Bool
  expr : GrowingArray NaClFaultExpr

def NaClFaultInjectionParseHelperAddFaultExpr (outInfo : NaClFaultInjectInfo)
    (expr : NaClFaultExpr) : Except Fault NaClFaultInjectInfo :=
  let array := outInfo.expr
  let array :=
    if array.elems.length = array.size then
      { array with
        size := GrowingArray.nextSize array.size
        room := GrowingArray.nextSize array.size }
    else array
  (array.push expr).map fun array => { outInfo with expr := array }

/-- A `'P'` or an `'F'`, with what is behind it. -/
def parsePassOrFail : List Char → Option (NaClFaultExpr × List Char)
  | 'P' :: faultCtrl =>
    let (count, faultCtrl) := (NaClFaultInjectionParseNumber faultCtrl).getD (1, faultCtrl)
    some (⟨true, 0, count⟩, faultCtrl)
  | 'F' :: faultCtrl =>
    let (value, faultCtrl) := (NaClFaultInjectionParseNumber faultCtrl).getD (0, faultCtrl)
    match faultCtrl with
    | '/' :: faultCtrl =>
      (NaClFaultInjectionParseNumber faultCtrl).map fun (count, faultCtrl) =>
        (⟨false, value, count⟩, faultCtrl)
    | faultCtrl => some (⟨false, value, 1⟩, faultCtrl)
  | _ => none

def skipPlus : List Char → List Char
  | '+' :: faultCtrl => faultCtrl
  | faultCtrl => faultCtrl

theorem length_dropWhile_le (p : Char → Bool) (str : List Char) :
    (str.dropWhile p).length ≤ str.length :=
  (List.dropWhile_sublist p).length_le

theorem length_scanSign_le (str : List Char) : (scanSign str).2.length ≤ str.length := by
  unfold scanSign
  split <;> simp

theorem length_scanBase_le (str : List Char) : (scanBase str).2.length ≤ str.length := by
  unfold scanBase
  split
  · split_ifs <;> simp
  · exact Nat.le_refl _
  · exact Nat.le_refl _

theorem length_strtoul_le (str : List Char) : (strtoul str).2.length ≤ str.length := by
  have hchars : (scanBase (scanSign (str.dropWhile isSpace)).2).2.length ≤ str.length :=
    Nat.le_trans (length_scanBase_le _)
      (Nat.le_trans (length_scanSign_le _) (length_dropWhile_le _ _))
  unfold strtoul
  dsimp only
  split_ifs
  · exact Nat.le_refl _
  all_goals exact Nat.le_trans (length_dropWhile_le _ _) hchars

theorem length_parseNumber_le {digits rest : List Char} {out : ℕ}
    (h : NaClFaultInjectionParseNumber digits = some (out, rest)) :
    rest.length ≤ digits.length := by
  unfold NaClFaultInjectionParseNumber at h
  split at h
  · cases h
    simp
  · dsimp only at h
    split_ifs at h
    cases h
    exact length_strtoul_le _

theorem length_parsePassOrFail_lt {faultCtrl rest : List Char} {expr : NaClFaultExpr}
    (h : parsePassOrFail faultCtrl = some (expr, rest)) : rest.length < faultCtrl.length := by
  have hgetD (str : List Char) (n : ℕ) :
      ((NaClFaultInjectionParseNumber str).getD (n, str)).2.length ≤ str.length := by
    cases hnum : NaClFaultInjectionParseNumber str with
    | none => exact Nat.le_refl _
    | some num => exact length_parseNumber_le hnum
  unfold parsePassOrFail at h
  split at h
  · cases h
    exact Nat.lt_succ_of_le (hgetD _ _)
  · rename_i str
    have hle := hgetD str 0
    dsimp only at h
    split at h
    · rename_i heq
      obtain ⟨num, hnum, hpair⟩ := Option.map_eq_some_iff.1 h
      cases hpair
      rw [heq] at hle
      have hrest := length_parseNumber_le hnum
      simp only [List.length_cons] at hle ⊢
      omega
    · cases h
      exact Nat.lt_succ_of_le hle
  · cases h

theorem length_skipPlus_le (faultCtrl : List Char) :
    (skipPlus faultCtrl).length ≤ faultCtrl.length := by
  unfold skipPlus
  split <;> simp

def NaClFaultInjectionParsePassOrFailSeq (outInfo : NaClFaultInjectInfo) (faultCtrl : List Char) :
    Except Fault NaClFaultInjectInfo :=
  if faultCtrl = [] then .ok outInfo
  else
    match _h : parsePassOrFail faultCtrl with
    | none => .error .syntaxError
    | some (expr, rest) =>
      match NaClFaultInjectionParseHelperAddFaultExpr outInfo expr with
      | .error fault => .error fault
      | .ok outInfo => NaClFaultInjectionParsePassOrFailSeq outInfo (skipPlus rest)
termination_by faultCtrl.length
decreasing_by exact Nat.lt_of_le_of_lt (length_skipPlus_le rest) (length_parsePassOrFail_lt _h)

def NaClFaultInjectionParseFaultControlExpr (outInfo : NaClFaultInjectInfo)
    (faultCtrl : List Char) : Except Fault NaClFaultInjectInfo :=
  match faultCtrl with
  | 'T' :: faultCtrl =>
    NaClFaultInjectionParsePassOrFailSeq { outInfo with threadSpecificP := true } faultCtrl
  | 'G' :: faultCtrl =>
    NaClFaultInjectionParsePassOrFailSeq { outInfo with threadSpecificP := false } faultCtrl
  | _ => .error .syntaxError

/-! ## Numbers of the grammar -/

/-- What can be behind a `<pass_or_fail>`. -/
inductive AfterItem : List Char → Prop
  | nil : AfterItem []
  | pass (str : List Char) : AfterItem ('P' :: str)
  | fail (str : List Char) : AfterItem ('F' :: str)
  | plusPass (str : List Char) : AfterItem ('+' :: 'P' :: str)
  | plusFail (str : List Char) : AfterItem ('+' :: 'F' :: str)

/-- What can be behind a number, or in the place of one. -/
inductive AfterNumber : List Char → Prop
  | item {str : List Char} (h : AfterItem str) : AfterNumber str
  | slash (str : List Char) : AfterNumber ('/' :: str)

section

variable {c : Char} {d : Digits} {rest : List Char}

theorem isDigit_of_digitValue_lt (h : digitValue c < 10) : c.isDigit = true := by
  unfold digitValue at h
  split_ifs at h with hdigit
  · exact hdigit
  · omega
  · omega
  · omega

theorem toNat_of_isDigit (h : c.isDigit = true) : 48 ≤ c.toNat ∧ c.toNat ≤ 57 := by
  rw [Char.isDigit, Bool.and_eq_true, decide_eq_true_eq, decide_eq_true_eq] at h
  exact h

theorem ne_of_isDigit {c' : Char} (h : c.isDigit = true) (hc' : c'.isDigit = false) : c ≠ c' := by
  rintro rfl
  exact Bool.false_ne_true (hc'.symm.trans h)

theorem isSpace_of_isDigit (h : c.isDigit = true) : isSpace c = false := by
  have hblank : c ≠ ' ' := ne_of_isDigit h (by decide)
  have hle := (toNat_of_isDigit h).1
  rw [isSpace, decide_eq_false_iff_not, not_or]
  exact ⟨hblank, fun hspace => by omega⟩

theorem Digits.exists_cons (d : Digits) : ∃ c str, d.render = c :: str ∧ c.isDigit = true := by
  obtain ⟨radix, chars, hdigit, hne, hzero⟩ := d
  cases radix with
  | octal => exact ⟨'0', chars, rfl, by decide⟩
  | hex upper => exact ⟨'0', _, rfl, by decide⟩
  | decimal =>
    obtain ⟨c, str, rfl⟩ := List.exists_cons_of_ne_nil (hne.resolve_left (by decide))
    exact ⟨c, str, rfl, isDigit_of_digitValue_lt (hdigit c List.mem_cons_self)⟩

theorem scanSign_of_isDigit (h : c.isDigit = true) (str : List Char) :
    scanSign ((c :: str).dropWhile isSpace) = (false, c :: str) := by
  have hminus : c ≠ '-' := ne_of_isDigit h (by decide)
  have hplus : c ≠ '+' := ne_of_isDigit h (by decide)
  rw [List.dropWhile_cons_of_neg (by rw [isSpace_of_isDigit h]; decide)]
  unfold scanSign
  split
  · rename_i heq
    exact absurd (List.cons.inj heq).1 hminus
  · rename_i heq
    exact absurd (List.cons.inj heq).1 hplus
  · rfl

/-- The digits that `strtoul` comes to. -/
def Digits.scanned (d : Digits) : List Char :=
  match d.radix with
  | .octal => '0' :: d.chars
  | _ => d.chars

theorem AfterNumber.head_ne (h : AfterNumber rest) : ∀ c ∈ rest.head?, c ≠ 'x' ∧ c ≠ 'X' := by
  obtain hitem | str := h
  · cases hitem <;> simp
  · simp

theorem scanBase_zero {str : List Char} (h : ∀ c ∈ str.head?, c ≠ 'x' ∧ c ≠ 'X') :
    scanBase ('0' :: str) = (8, '0' :: str) := by
  unfold scanBase
  split
  · rename_i x c rest' heq
    obtain ⟨-, rfl⟩ := List.cons.inj heq
    have hx := h x rfl
    rw [if_neg fun hbase => hbase.1.elim hx.1 hx.2]
  · rfl
  · rename_i hnone
    exact absurd rfl (hnone str)

theorem scanBase_render (h : AfterNumber rest) :
    scanBase (d.render ++ rest) = (d.radix.base, d.scanned ++ rest) := by
  obtain ⟨radix, chars, hdigit, hne, hzero⟩ := d
  cases radix with
  | octal =>
    refine scanBase_zero fun c hc => ?_
    cases chars with
    | nil => exact h.head_ne c hc
    | cons c' chars =>
      obtain rfl : c' = c := Option.some.inj hc
      have hlt : digitValue c' < 8 := hdigit c' List.mem_cons_self
      exact ⟨fun heq => by rw [heq] at hlt; exact absurd hlt (by decide),
        fun heq => by rw [heq] at hlt; exact absurd hlt (by decide)⟩
  | hex upper =>
    obtain ⟨c, str, rfl⟩ := List.exists_cons_of_ne_nil (hne.resolve_left (by simp))
    have hlt : digitValue c < 16 := hdigit c List.mem_cons_self
    cases upper with
    | false => exact if_pos ⟨.inl rfl, hlt⟩
    | true => exact if_pos ⟨.inr rfl, hlt⟩
  | decimal =>
    obtain ⟨c, str, rfl⟩ := List.exists_cons_of_ne_nil (hne.resolve_left (by decide))
    have hne : c ≠ '0' := fun heq => hzero rfl (by rw [heq]; rfl)
    show scanBase (c :: (str ++ rest)) = (10, c :: (str ++ rest))
    unfold scanBase
    split
    · rename_i heq
      exact absurd (List.cons.inj heq).1 hne
    · rename_i heq
      exact absurd (List.cons.inj heq).1 hne
    · rfl

theorem Digits.scanned_ne_nil (d : Digits) : d.scanned ≠ [] := by
  obtain ⟨radix, chars, hdigit, hne, hzero⟩ := d
  cases radix with
  | octal => exact List.cons_ne_nil _ _
  | hex upper => exact hne.resolve_left (by simp)
  | decimal => exact hne.resolve_left (by decide)

theorem Digits.isDigit_scanned (d : Digits) : ∀ c ∈ d.scanned, digitValue c < d.radix.base := by
  obtain ⟨radix, chars, hdigit, hne, hzero⟩ := d
  cases radix with
  | octal =>
    intro c hc
    rcases List.mem_cons.1 hc with rfl | hc
    · show digitValue '0' < 8
      decide
    · exact hdigit c hc
  | hex upper => exact hdigit
  | decimal => exact hdigit

theorem Digits.numeral_scanned (d : Digits) :
    numeral d.radix.base d.scanned = numeral d.radix.base d.chars := by
  obtain ⟨radix, chars, hdigit, hne, hzero⟩ := d
  cases radix with
  | octal =>
    show List.foldl _ (8 * 0 + digitValue '0') chars = _
    have hvalue : 8 * 0 + digitValue '0' = 0 := by decide
    rw [hvalue]
    rfl
  | hex upper => rfl
  | decimal => rfl

theorem AfterNumber.not_digit (h : AfterNumber rest) (hhex : d.IsHex → rest.head? ≠ some 'F') :
    ∀ c ∈ rest.head?, ¬ digitValue c < d.radix.base := by
  intro c hc hlt
  have hbase := d.radix.base_le
  have hplus : digitValue '+' = 36 ∧ digitValue '/' = 36 ∧ digitValue 'P' = 25 := by decide
  obtain hitem | str := h
  · cases hitem with
    | nil => cases hc
    | pass str =>
      obtain rfl : 'P' = c := Option.some.inj hc
      omega
    | fail str =>
      obtain rfl : 'F' = c := Option.some.inj hc
      -- An `F` is a digit to no smaller base.
      have hvalue : digitValue 'F' = 15 := by decide
      exact hhex (show d.radix.base = 16 by omega) rfl
    | plusPass str =>
      obtain rfl : '+' = c := Option.some.inj hc
      omega
    | plusFail str =>
      obtain rfl : '+' = c := Option.some.inj hc
      omega
  · obtain rfl : '/' = c := Option.some.inj hc
    omega

theorem strtoul_render (h : AfterNumber rest) (hhex : d.IsHex → rest.head? ≠ some 'F') :
    strtoul (d.render ++ rest) = (d.value, rest) := by
  obtain ⟨c, str, hrender, hdigit⟩ := d.exists_cons
  have hsign : scanSign ((d.render ++ rest).dropWhile isSpace) = (false, d.render ++ rest) := by
    rw [hrender]
    exact scanSign_of_isDigit hdigit _
  have hscanned (c : Char) (hc : c ∈ d.scanned) : decide (digitValue c < d.radix.base) = true :=
    decide_eq_true (d.isDigit_scanned c hc)
  have hrest : rest.takeWhile (fun c => decide (digitValue c < d.radix.base)) = [] ∧
      rest.dropWhile (fun c => decide (digitValue c < d.radix.base)) = rest := by
    cases rest with
    | nil => exact ⟨rfl, rfl⟩
    | cons c rest =>
      have hnot := h.not_digit hhex c rfl
      rw [List.takeWhile_cons_of_neg (by rwa [decide_eq_true_eq]),
        List.dropWhile_cons_of_neg (by rwa [decide_eq_true_eq])]
      exact ⟨rfl, rfl⟩
  unfold strtoul
  rw [hsign]
  dsimp only
  rw [scanBase_render h]
  dsimp only
  rw [List.takeWhile_append_of_pos hscanned, List.dropWhile_append_of_pos hscanned, hrest.1,
    hrest.2, List.append_nil, if_neg d.scanned_ne_nil, d.numeral_scanned, Digits.value]
  refine Prod.ext ?_ rfl
  dsimp only
  rw [if_neg Bool.false_ne_true]
  split_ifs with hmax
  · exact (Nat.min_eq_right (Nat.le_of_lt hmax)).symm
  · exact (Nat.min_eq_left (Nat.le_of_not_lt hmax)).symm

theorem parseNumber_render (h : AfterNumber rest) (hhex : d.IsHex → rest.head? ≠ some 'F') :
    NaClFaultInjectionParseNumber (d.render ++ rest) = some (d.value, rest) := by
  obtain ⟨c, str, hrender, hdigit⟩ := d.exists_cons
  have hne : rest ≠ d.render ++ rest := by
    rw [hrender]
    intro heq
    have hlength := congrArg List.length heq
    rw [List.length_append, List.length_cons] at hlength
    omega
  unfold NaClFaultInjectionParseNumber
  split
  · rename_i heq
    rw [hrender] at heq
    exact absurd (List.cons.inj heq).1 (ne_of_isDigit hdigit (by decide))
  · rw [strtoul_render h hhex]
    exact if_pos hne

theorem parseNumber_count {count : Count} (h : AfterNumber rest)
    (hhex : count.EndsInHex → rest.head? ≠ some 'F') :
    NaClFaultInjectionParseNumber (count.render ++ rest) = some (count.value, rest) := by
  cases count with
  | digits d => exact parseNumber_render h hhex
  | infinite => rfl

theorem strtoul_afterNumber (h : AfterNumber rest) : strtoul rest = (0, rest) := by
  obtain hitem | str := h
  · cases hitem <;> rfl
  · rfl

theorem parseNumber_afterNumber (h : AfterNumber rest) :
    NaClFaultInjectionParseNumber rest = none := by
  have hat : rest.head? ≠ some '@' := by
    obtain hitem | str := h
    · cases hitem <;> simp
    · simp
  unfold NaClFaultInjectionParseNumber
  split
  · exact absurd rfl hat
  · rw [strtoul_afterNumber h]
    exact if_neg (not_not_intro rfl)

end

end FaultInjection

end SandboxingNaCl
