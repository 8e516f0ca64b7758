import Mathlib.Data.List.Forall2
import SandboxingNaCl.FaultInjection.ControlExpr

/-!
# The initialisation of fault injection

`NaClFaultInjectionModuleInternalInit` of `fault_injection.c`.  A configuration of the grammar with
four entries at most is parsed to records of its entries; the fifth record is stored behind the end
of the array, which is never made larger than for four.
-/

namespace SandboxingNaCl

namespace FaultInjection

open CountedRuns

def NaClFaultInjectionParseConfigEntry (entryStart : List Char) :
    Except Fault NaClFaultInjectInfo :=
  match entryStart.dropWhile (· ≠ '=') with
  | [] => .error .syntaxError
  | _ :: faultCtrl =>
    NaClFaultInjectionParseFaultControlExpr ⟨entryStart.takeWhile (· ≠ '='), false, .empty⟩
      faultCtrl

/-- `sizeof` of a record. -/
def sizeofInfo : ℕ := 40

def NaClFaultInjectGrowIfNeeded (table : GrowingArray NaClFaultInjectInfo) :
    Except Fault (GrowingArray NaClFaultInjectInfo) :=
  if table.elems.length < table.size then .ok table
  else
    let newSize := GrowingArray.nextSize table.size
    if uintptrMax / sizeofInfo < newSize then .error .tooManyRecords
    else .ok { table with room := newSize }

def NaClFaultInjectAddEntry (table : GrowingArray NaClFaultInjectInfo)
    (entry : NaClFaultInjectInfo) : Except Fault (GrowingArray NaClFaultInjectInfo) :=
  match NaClFaultInjectGrowIfNeeded table with
  | .error fault => .error fault
  | .ok table => table.push entry

/-- The characters that `strpbrk` looks for. -/
def isSeparator (c : Char) : Bool := c = ',' ∨ c = ':'

def nextEntry (curEntry : List Char) : List Char :=
  (curEntry.dropWhile fun c => !isSeparator c).drop 1

theorem length_nextEntry_lt {curEntry : List Char} (h : curEntry ≠ []) :
    (nextEntry curEntry).length < curEntry.length := by
  have hpos := List.length_pos_iff.2 h
  have hle := length_dropWhile_le (fun c => !isSeparator c) curEntry
  rw [nextEntry, List.length_drop]
  omega

/-- The loop of `NaClFaultInjectionModuleInternalInit`. -/
def initEntries (table : GrowingArray NaClFaultInjectInfo) (curEntry : List Char) :
    Except Fault (GrowingArray NaClFaultInjectInfo) :=
  if _h : curEntry = [] then .ok table
  else
    match NaClFaultInjectionParseConfigEntry (curEntry.takeWhile fun c => !isSeparator c) with
    | .error fault => .error fault
    | .ok entry =>
      match NaClFaultInjectAddEntry table entry with
      | .error fault => .error fault
      | .ok table => initEntries table (nextEntry curEntry)
termination_by curEntry.length
decreasing_by exact length_nextEntry_lt _h

/-- `struct NaClFaultInjectCallSiteCount`. -/
structure NaClFaultInjectCallSiteCount where
  exprIx : ℕ
  countInExpr : ℕ

/-- The variables of fault injection. -/
structure State where
  /-- The records of `gNaClFaultInjectInfo` in use. -/
  info : List NaClFaultInjectInfo
  /-- `gNaClFaultInjectCallSites`. -/
  callSites : List NaClFaultInjectCallSiteCount
  /-- `gTls_FaultInjectionCount` of each thread. -/
  threadCount : ℕ → Option (List NaClFaultInjectCallSiteCount)
  /-- `gTls_FaultInjectValue` of each thread. -/
  value : ℕ → ℕ

def newCounters (info : List NaClFaultInjectInfo) : List NaClFaultInjectCallSiteCount :=
  List.replicate info.length ⟨0, 0⟩

/-- `NaClFaultInjectionModuleInternalInit`, with the value of `NACL_FAULT_INJECTION`. -/
def NaClFaultInjectionModuleInternalInit (config : Option (List Char)) : Except Fault State :=
  match config with
  | none => .ok ⟨[], [], fun _ => none, fun _ => 0⟩
  | some config =>
    (initEntries .empty config).map fun table =>
      ⟨table.elems, newCounters table.elems, fun _ => none, fun _ => 0⟩

/-! ## Expressions of the grammar -/

def NaClFaultExpr.run (expr : NaClFaultExpr) : Symbol × ℕ :=
  (if expr.pass then .pass else .fault expr.faultValue, expr.count)

section

variable {p : PassOrFail} {rest : List Char} {info : NaClFaultInjectInfo} {expr : NaClFaultExpr}

theorem AfterItem.ne_slash {str : List Char} (h : AfterItem rest) : rest ≠ '/' :: str := by
  cases h <;> simp

theorem parseNumber_getD (value : Option Digits) (h : AfterNumber rest)
    (hhex : ∀ d ∈ value, d.IsHex → rest.head? ≠ some 'F') :
    (NaClFaultInjectionParseNumber (value.elim [] Digits.render ++ rest)).getD
      (0, value.elim [] Digits.render ++ rest) = (value.elim 0 Digits.value, rest) := by
  cases value with
  | none =>
    show (NaClFaultInjectionParseNumber rest).getD (0, rest) = (0, rest)
    rw [parseNumber_afterNumber h]
    rfl
  | some d =>
    show (NaClFaultInjectionParseNumber (d.render ++ rest)).getD (0, d.render ++ rest) = _
    rw [parseNumber_render h (hhex d rfl)]
    rfl

theorem parsePassOrFail_render (h : AfterItem rest) (hhex : p.EndsInHex → rest.head? ≠ some 'F') :
    ∃ expr, parsePassOrFail (p.render ++ rest) = some (expr, rest) ∧ expr.run = p.run := by
  cases p with
  | pass count =>
    refine ⟨⟨true, 0, count.value⟩, ?_, rfl⟩
    show parsePassOrFail ('P' :: (count.render ++ rest)) = _
    rw [parsePassOrFail, parseNumber_count (.item h) hhex]
    rfl
  | fail value count =>
    refine ⟨⟨false, value.elim 0 Digits.value, count.elim 1 Count.value⟩, ?_, rfl⟩
    cases count with
    | none =>
      have hrender : (PassOrFail.fail value none).render ++ rest =
          'F' :: (value.elim [] Digits.render ++ rest) := by
        simp [PassOrFail.render]
      have hd (d : Digits) (hd : d ∈ value) (hbase : d.IsHex) : rest.head? ≠ some 'F' :=
        hhex ⟨d, hd, hbase⟩
      rw [hrender, parsePassOrFail, parseNumber_getD value (.item h) hd]
      dsimp only
      split
      · exact absurd rfl h.ne_slash
      · rfl
    | some count =>
      have hrender : (PassOrFail.fail value (some count)).render ++ rest =
          'F' :: (value.elim [] Digits.render ++ '/' :: (count.render ++ rest)) := by
        simp [PassOrFail.render]
      rw [hrender, parsePassOrFail, parseNumber_getD value (.slash _) fun _ _ _ => by simp]
      show (NaClFaultInjectionParseNumber (count.render ++ rest)).map _ = _
      rw [parseNumber_count (.item h) hhex]
      rfl

theorem addFaultExpr_spec (h : info.expr.Sized) (expr : NaClFaultExpr) :
    ∃ array, NaClFaultInjectionParseHelperAddFaultExpr info expr = .ok { info with expr := array } ∧
      array.Sized ∧ array.elems = info.expr.elems ++ [expr] := by
  obtain ⟨name, threadSpecific, elems, size, room⟩ := info
  obtain ⟨hle, heq⟩ := h
  dsimp only at hle heq
  unfold NaClFaultInjectionParseHelperAddFaultExpr GrowingArray.push
  dsimp only
  by_cases hfull : elems.length = size
  · have hlt := GrowingArray.lt_nextSize size
    rw [if_pos hfull]
    dsimp only
    rw [if_pos (hfull ▸ hlt)]
    refine ⟨_, rfl, ⟨?_, rfl⟩, rfl⟩
    rw [List.length_append, hfull]
    exact hlt
  · rw [if_neg hfull]
    dsimp only
    rw [if_pos (by omega)]
    refine ⟨_, rfl, ⟨?_, heq⟩, rfl⟩
    rw [List.length_append]
    exact Nat.lt_of_le_of_ne hle hfull

theorem parsePassOrFailSeq_nil :
    NaClFaultInjectionParsePassOrFailSeq info [] = .ok info := by
  rw [NaClFaultInjectionParsePassOrFailSeq, if_pos rfl]

theorem parsePassOrFailSeq_step {str : List Char} {info' : NaClFaultInjectInfo}
    (hparse : parsePassOrFail str = some (expr, rest))
    (hadd : NaClFaultInjectionParseHelperAddFaultExpr info expr = .ok info') :
    NaClFaultInjectionParsePassOrFailSeq info str =
      NaClFaultInjectionParsePassOrFailSeq info' (skipPlus rest) := by
  have hne : str ≠ [] := by
    rintro rfl
    cases hparse
  rw [NaClFaultInjectionParsePassOrFailSeq, if_neg hne]
  split
  · rename_i hnone
    rw [hparse] at hnone
    cases hnone
  · rename_i expr' rest' hsome
    obtain ⟨rfl, rfl⟩ := Prod.mk.inj (Option.some.inj (hparse.symm.trans hsome))
    rw [hadd]

theorem PassOrFailSeq.exists_cons (seq : PassOrFailSeq) :
    (∃ str, seq.render = 'P' :: str ∧ ¬ seq.head.IsFail) ∨
      ∃ str, seq.render = 'F' :: str ∧ seq.head.IsFail := by
  have hitem (p : PassOrFail) (later : List Char) :
      (∃ str, p.render ++ later = 'P' :: str ∧ ¬ p.IsFail) ∨
        ∃ str, p.render ++ later = 'F' :: str ∧ p.IsFail := by
    cases p with
    | pass count => exact .inl ⟨_, rfl, id⟩
    | fail value count => exact .inr ⟨_, rfl, trivial⟩
  cases seq with
  | single p =>
    rw [PassOrFailSeq.render, ← List.append_nil p.render]
    exact hitem p []
  | cons p plus later => exact hitem p _

theorem afterItem_later (plus : Bool) (later : PassOrFailSeq) :
    AfterItem ((if plus then ['+'] else []) ++ later.render) ∧
      (((if plus then ['+'] else []) ++ later.render).head? = some 'F' →
        plus = false ∧ later.head.IsFail) ∧
      skipPlus ((if plus then ['+'] else []) ++ later.render) = later.render := by
  obtain ⟨str, hrender, hfail⟩ | ⟨str, hrender, hfail⟩ := later.exists_cons
  · rw [hrender]
    cases plus with
    | false => exact ⟨.pass str, fun hhead => absurd (Option.some.inj hhead) (by decide), rfl⟩
    | true => exact ⟨.plusPass str, fun hhead => absurd (Option.some.inj hhead) (by decide), rfl⟩
  · rw [hrender]
    cases plus with
    | false => exact ⟨.fail str, fun _ => ⟨rfl, hfail⟩, rfl⟩
    | true => exact ⟨.plusFail str, fun hhead => absurd (Option.some.inj hhead) (by decide), rfl⟩

theorem parsePassOrFailSeq_render {seq : PassOrFailSeq} (hsep : seq.Separated)
    (hinfo : info.expr.Sized) :
    ∃ array,
      NaClFaultInjectionParsePassOrFailSeq info seq.render = .ok { info with expr := array } ∧
      array.elems.map NaClFaultExpr.run = info.expr.elems.map NaClFaultExpr.run ++ seq.runs := by
  induction seq generalizing info with
  | single p =>
    obtain ⟨expr, hparse, hrun⟩ := @parsePassOrFail_render p [] .nil fun _ => by simp
    obtain ⟨array, hadd, -, helems⟩ := addFaultExpr_spec hinfo expr
    rw [List.append_nil] at hparse
    refine ⟨array, ?_, ?_⟩
    · rw [PassOrFailSeq.render, parsePassOrFailSeq_step hparse hadd]
      exact parsePassOrFailSeq_nil
    · rw [helems, List.map_append, PassOrFailSeq.runs, ← hrun]
      rfl
  | cons p plus later ih =>
    obtain ⟨hafter, hhead, hskip⟩ := afterItem_later plus later
    have hhex : p.EndsInHex →
        ((if plus then ['+'] else []) ++ later.render).head? ≠ some 'F' := by
      intro hends hF
      obtain ⟨hplus, hfail⟩ := hhead hF
      exact Bool.false_ne_true (hplus.symm.trans (hsep.1 hends hfail))
    obtain ⟨expr, hparse, hrun⟩ := parsePassOrFail_render hafter hhex
    obtain ⟨array, hadd, hsized, helems⟩ := addFaultExpr_spec hinfo expr
    have hinfo' : ({ info with expr := array } : NaClFaultInjectInfo).expr.Sized := hsized
    obtain ⟨array', hlater, hruns⟩ := ih hsep.2 hinfo'
    refine ⟨array', ?_, ?_⟩
    · rw [PassOrFailSeq.render, parsePassOrFailSeq_step hparse hadd, hskip]
      exact hlater
    · rw [hruns, helems, List.map_append, List.append_assoc, PassOrFailSeq.runs, ← hrun]
      rfl

/-! ## Separators -/

theorem not_separator_intro (radix : Radix) : ∀ c ∈ radix.intro, isSeparator c = false := by
  intro c hc
  cases radix with
  | octal =>
    rw [List.mem_singleton.1 hc]
    decide
  | decimal => cases hc
  | hex upper =>
    rcases List.mem_pair.1 hc with rfl | rfl
    · decide
    · cases upper <;> decide

theorem not_separator_digits (d : Digits) : ∀ c ∈ d.render, isSeparator c = false := by
  intro c hc
  rcases List.mem_append.1 hc with hintro | hchars
  · exact not_separator_intro d.radix c hintro
  · have hlt := d.isDigit c hchars
    have hbase := d.radix.base_le
    have hvalues : digitValue ',' = 36 ∧ digitValue ':' = 36 := by decide
    rw [isSeparator, decide_eq_false_iff_not]
    rintro (rfl | rfl) <;> omega

theorem not_separator_count (count : Count) : ∀ c ∈ count.render, isSeparator c = false := by
  cases count with
  | digits d => exact not_separator_digits d
  | infinite =>
    intro c hc
    rw [List.mem_singleton.1 hc]
    decide

theorem not_separator_passOrFail (p : PassOrFail) : ∀ c ∈ p.render, isSeparator c = false := by
  intro c hc
  cases p with
  | pass count =>
    rcases List.mem_cons.1 hc with rfl | hc
    · decide
    · exact not_separator_count count c hc
  | fail value count =>
    rcases List.mem_cons.1 hc with rfl | hc
    · decide
    · rcases List.mem_append.1 hc with hvalue | hcount
      · cases value with
        | none => cases hvalue
        | some d => exact not_separator_digits d c hvalue
      · cases count with
        | none => cases hcount
        | some count =>
          rcases List.mem_cons.1 hcount with rfl | hcount
          · decide
          · exact not_separator_count count c hcount

theorem not_separator_seq (seq : PassOrFailSeq) : ∀ c ∈ seq.render, isSeparator c = false := by
  induction seq with
  | single p => exact not_separator_passOrFail p
  | cons p plus later ih =>
    intro c hc
    rcases List.mem_append.1 hc with hitem | hlater
    · exact not_separator_passOrFail p c hitem
    · rcases List.mem_append.1 hlater with hplus | hlater
      · cases plus with
        | false => cases hplus
        | true =>
          rw [List.mem_singleton.1 hplus]
          decide
      · exact ih c hlater

theorem not_separator_entry (entry : Entry) : ∀ c ∈ entry.render, isSeparator c = false := by
  intro c hc
  rcases List.mem_append.1 hc with hname | hc
  · obtain ⟨-, hcomma, hcolon⟩ := entry.isName c hname
    exact decide_eq_false fun hsep => hsep.elim hcomma hcolon
  · rcases List.mem_cons.1 hc with rfl | hc
    · decide
    · rcases List.mem_cons.1 hc with rfl | hc
      · cases entry.expr.threadSpecific <;> decide
      · exact not_separator_seq entry.expr.seq c hc

/-! ## Entries of the grammar -/

def IsRecord (info : NaClFaultInjectInfo) (entry : Entry) : Prop :=
  info.callSiteName = entry.siteName ∧ info.threadSpecificP = entry.expr.threadSpecific ∧
    info.expr.elems.map NaClFaultExpr.run = entry.expr.seq.runs

theorem parseConfigEntry_render (entry : Entry) :
    ∃ info, NaClFaultInjectionParseConfigEntry entry.render = .ok info ∧ IsRecord info entry := by
  have hname (c : Char) (hc : c ∈ entry.siteName) : decide (c ≠ '=') = true :=
    decide_eq_true (entry.isName c hc).1
  obtain ⟨array, hparse, hruns⟩ := parsePassOrFailSeq_render entry.expr.separated
    (show (NaClFaultInjectInfo.mk entry.siteName entry.expr.threadSpecific .empty).expr.Sized from
      GrowingArray.sized_empty)
  refine ⟨⟨entry.siteName, entry.expr.threadSpecific, array⟩, ?_, rfl, rfl, hruns⟩
  rw [NaClFaultInjectionParseConfigEntry, Entry.render, List.dropWhile_append_of_pos hname,
    List.takeWhile_append_of_pos hname, List.dropWhile_cons_of_neg (by decide),
    List.takeWhile_cons_of_neg (by decide), List.append_nil, FaultControlExpression.render]
  cases hthread : entry.expr.threadSpecific with
  | false =>
    rw [hthread] at hparse
    exact hparse
  | true =>
    rw [hthread] at hparse
    exact hparse

variable {table : GrowingArray NaClFaultInjectInfo}

theorem addEntry_spec (h : table.size = 0) (info : NaClFaultInjectInfo) :
    NaClFaultInjectAddEntry table info =
      if table.elems.length < 4 then .ok ⟨table.elems ++ [info], 0, 4⟩ else .error .badAccess := by
  have hgrow : NaClFaultInjectGrowIfNeeded table = .ok { table with room := 4 } := by
    rw [NaClFaultInjectGrowIfNeeded, h, if_neg (Nat.not_lt_zero _)]
    exact if_neg (by decide)
  rw [NaClFaultInjectAddEntry, hgrow, ← h]
  rfl

theorem initEntries_nil : initEntries table [] = .ok table := by
  rw [initEntries, dif_pos rfl]

theorem Entry.render_ne_nil (entry : Entry) : entry.render ≠ [] := by
  simp [Entry.render]

theorem initEntries_step {entry : Entry} (h : table.size = 0)
    (hrest : ∀ c ∈ rest.head?, isSeparator c = true)
    (hparse : NaClFaultInjectionParseConfigEntry entry.render = .ok info) :
    initEntries table (entry.render ++ rest) =
      if table.elems.length < 4 then initEntries ⟨table.elems ++ [info], 0, 4⟩ (rest.drop 1)
      else .error .badAccess := by
  have hentry (c : Char) (hc : c ∈ entry.render) : (!isSeparator c) = true := by
    rw [not_separator_entry entry c hc]
    rfl
  have hend : rest.takeWhile (fun c => !isSeparator c) = [] ∧
      rest.dropWhile (fun c => !isSeparator c) = rest := by
    cases rest with
    | nil => exact ⟨rfl, rfl⟩
    | cons c rest =>
      have hc : (!isSeparator c) = false := by
        rw [hrest c rfl]
        rfl
      rw [List.takeWhile_cons, List.dropWhile_cons, hc]
      exact ⟨rfl, rfl⟩
  rw [initEntries, dif_neg (fun hnil => entry.render_ne_nil (List.append_eq_nil_iff.1 hnil).1),
    List.takeWhile_append_of_pos hentry, hend.1, List.append_nil, hparse, nextEntry,
    List.dropWhile_append_of_pos hentry, hend.2]
  dsimp only
  rw [addEntry_spec h]
  split_ifs
  · rfl
  · rfl

theorem initEntries_render (first : Entry) (later : List (Separator × Entry)) (h : table.size = 0) :
    ∃ records, List.Forall₂ IsRecord records (first :: later.map Prod.snd) ∧
      (table.elems.length + records.length ≤ 4 → ∃ table',
        initEntries table (Config.list first later).render = .ok table' ∧
          table'.elems = table.elems ++ records) ∧
      (table.elems.length ≤ 4 → 4 < table.elems.length + records.length →
        initEntries table (Config.list first later).render = .error .badAccess) := by
  obtain ⟨info, hparse, hrecord⟩ := parseConfigEntry_render first
  induction later generalizing table first info with
  | nil =>
    have hstep := @initEntries_step [] info table first h (by simp) hparse
    refine ⟨[info], .cons hrecord .nil, fun hle => ?_, fun hle hlt => ?_⟩
    · rw [List.length_singleton] at hle
      refine ⟨⟨table.elems ++ [info], 0, 4⟩, ?_, rfl⟩
      rw [Config.render, List.flatMap_nil, hstep, if_pos (by omega)]
      exact initEntries_nil
    · rw [List.length_singleton] at hlt
      rw [Config.render, List.flatMap_nil, hstep, if_neg (by omega)]
  | cons pair later ih =>
    obtain ⟨sep, next⟩ := pair
    obtain ⟨info', hparse', hrecord'⟩ := parseConfigEntry_render next
    have hsep : isSeparator sep.char = true := by cases sep <;> decide
    have hstep := @initEntries_step (sep.char :: (Config.list next later).render) info table
      first h (fun c hc => by rw [← Option.some.inj hc]; exact hsep) hparse
    obtain ⟨records, hrecords, hfew, hmany⟩ :=
      @ih ⟨table.elems ++ [info], 0, 4⟩ next rfl info' hparse' hrecord'
    have hrender : (Config.list first ((sep, next) :: later)).render =
        first.render ++ sep.char :: (Config.list next later).render := rfl
    rw [hrender, hstep]
    simp only [List.length_append, List.length_singleton] at hfew hmany
    refine ⟨info :: records, .cons hrecord hrecords, fun hle => ?_, fun hle hlt => ?_⟩
    · rw [List.length_cons] at hle
      obtain ⟨table', hinit, helems⟩ := hfew (by omega)
      rw [if_pos (by omega)]
      refine ⟨table', hinit, ?_⟩
      rw [helems, List.append_assoc]
      rfl
    · rw [List.length_cons] at hlt
      split_ifs with hroom
      · exact hmany (by omega) (by omega)
      · rfl

theorem moduleInit_of_le {config : Config} (h : config.entries.length ≤ 4) :
    ∃ records, List.Forall₂ IsRecord records config.entries ∧
      NaClFaultInjectionModuleInternalInit (some config.render) =
        .ok ⟨records, newCounters records, fun _ => none, fun _ => 0⟩ := by
  cases config with
  | empty =>
    refine ⟨[], .nil, ?_⟩
    show (initEntries .empty []).map _ = _
    rw [initEntries_nil]
    rfl
  | list first later =>
    obtain ⟨records, hrecords, hfew, -⟩ := @initEntries_render .empty first later rfl
    have hlength : 0 + records.length ≤ 4 := by
      rw [hrecords.length_eq, Nat.zero_add]
      exact h
    obtain ⟨table, hinit, helems⟩ := hfew hlength
    obtain rfl : table.elems = records := helems
    refine ⟨table.elems, hrecords, ?_⟩
    rw [NaClFaultInjectionModuleInternalInit, hinit]
    rfl

theorem moduleInit_of_lt {config : Config} (h : 4 < config.entries.length) :
    NaClFaultInjectionModuleInternalInit (some config.render) = .error .badAccess := by
  cases config with
  | empty => exact absurd h (by decide)
  | list first later =>
    obtain ⟨records, hrecords, -, hmany⟩ := @initEntries_render .empty first later rfl
    have hlength : 4 < 0 + records.length := by
      rw [hrecords.length_eq, Nat.zero_add]
      exact h
    rw [NaClFaultInjectionModuleInternalInit, hmany (by decide) hlength]
    rfl

end

end FaultInjection

end SandboxingNaCl
