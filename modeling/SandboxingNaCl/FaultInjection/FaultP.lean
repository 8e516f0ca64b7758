import SandboxingNaCl.FaultInjection.ModuleInit

/-!
# The answers of fault injection

`NaClFaultInjectionFaultP` and what goes with it, in runs of calls by any threads.  The mutex of a
record is held for the whole of a call that takes the record's global counter, and a thread's
counters and value are its own, so that calls come one after the other.  A call answers as the
symbol that comes next when each `P` and `F` comes once at least; that is the generated sequence
when nothing but `P` comes behind a count of 0.
-/

namespace SandboxingNaCl

namespace FaultInjection

open CountedRuns

/-- `gTls_FaultInjectionCount` of a thread, which is allocated when it is first needed. -/
def State.threadCounters (st : State) (tid : ℕ) : List NaClFaultInjectCallSiteCount :=
  (st.threadCount tid).getD (newCounters st.info)

/-- The counter, one call further on. -/
def NaClFaultInjectCallSiteCount.bump (expr : NaClFaultExpr)
    (counter : NaClFaultInjectCallSiteCount) : NaClFaultInjectCallSiteCount :=
  let count := (counter.countInExpr + 1) % 2 ^ 64
  if expr.count ≤ count then ⟨counter.exprIx + 1, 0⟩ else ⟨counter.exprIx, count⟩

/-- The counter after a call, and the value of the fault that is injected. -/
def countCall (entry : NaClFaultInjectInfo) (counter : NaClFaultInjectCallSiteCount) :
    NaClFaultInjectCallSiteCount × Option ℕ :=
  match entry.expr.elems[counter.exprIx]? with
  | none => (counter, none)
  | some expr => (counter.bump expr, if expr.pass then none else some expr.faultValue)

/-- `NaClFaultInjectionSetValue`, if there is a fault. -/
def State.setValue (st : State) (tid : ℕ) : Option ℕ → State
  | none => st
  | some value => { st with value := Function.update st.value tid value }

/-- `NaClFaultInjectionFaultP`, called by a thread. -/
def NaClFaultInjectionFaultP (st : State) (tid : ℕ) (siteName : List Char) :
    Except Fault (State × Bool) :=
  match st.info.findIdx? (·.callSiteName = siteName) with
  | none => .ok (st, false)
  | some ix =>
    match st.info[ix]? with
    | none => .error .badAccess
    | some entry =>
      let counters := if entry.threadSpecificP then st.threadCounters tid else st.callSites
      match counters[ix]? with
      | none => .error .badAccess
      | some counter =>
        let (counter, fault) := countCall entry counter
        let st :=
          if entry.threadSpecificP then
            { st with
              threadCount := Function.update st.threadCount tid (some (counters.set ix counter)) }
          else { st with callSites := counters.set ix counter }
        .ok (st.setValue tid fault, fault.isSome)

/-- `NaClFaultInjectionValue`, called by a thread. -/
def NaClFaultInjectionValue (st : State) (tid : ℕ) : ℕ := st.value tid

/-- `NaClFaultInjectionPreThreadExitCleanup`, called by a thread. -/
def NaClFaultInjectionPreThreadExitCleanup (st : State) (tid : ℕ) : State :=
  { st with threadCount := Function.update st.threadCount tid none }

def step (st : State) : Event → Except Fault State
  | .faultP tid site => (NaClFaultInjectionFaultP st tid site).map Prod.fst
  | .exit tid => .ok (NaClFaultInjectionPreThreadExitCleanup st tid)

/-- The state after some events, of which the first is the latest. -/
def run (st : State) : List Event → Except Fault State
  | [] => .ok st
  | e :: past =>
    match run st past with
    | .error fault => .error fault
    | .ok st => step st e

/-- The configuration is initialised, and after any events each call answers as the symbol for it,
with the values of the last symbols that were faults. -/
def Follows (symbol : FaultControlExpression → ℕ → Symbol) (config : Config) : Prop :=
  ∃ st₀, NaClFaultInjectionModuleInternalInit (some config.render) = .ok st₀ ∧
    ∀ past, ∃ st, run st₀ past = .ok st ∧
      (∀ tid site, ∃ st', NaClFaultInjectionFaultP st tid site =
        .ok (st', (config.symbolAt symbol past tid site).isFault)) ∧
      ∀ tid, NaClFaultInjectionValue st tid = config.lastValue symbol tid past

/-! ## One call -/

/-- The symbol of the `n`-th call when each `P` and `F` comes once at least. -/
def FaultControlExpression.readSymbol (expr : FaultControlExpression) (n : ℕ) : Symbol :=
  (generated (atLeastOnce expr.seq.runs))[n]?.getD .pass

def Symbol.value? : Symbol → Option ℕ
  | pass => none
  | fault value => some value

theorem Symbol.isSome_value? (symbol : Symbol) : symbol.value?.isSome = symbol.isFault := by
  cases symbol <;> rfl

def NaClFaultInjectInfo.runs (info : NaClFaultInjectInfo) : List (Symbol × ℕ) :=
  info.expr.elems.map NaClFaultExpr.run

def NaClFaultInjectCallSiteCount.cursor (counter : NaClFaultInjectCallSiteCount) : Cursor :=
  ⟨counter.exprIx, counter.countInExpr⟩

theorem count_le_uintptrMax (seq : PassOrFailSeq) : ∀ run ∈ seq.runs, run.2 ≤ uintptrMax := by
  have hcount (count : Count) : count.value ≤ uintptrMax := by
    cases count with
    | digits d => exact Nat.min_le_right _ _
    | infinite => exact Nat.le_refl _
  have hitem (p : PassOrFail) : p.run.2 ≤ uintptrMax := by
    cases p with
    | pass count => exact hcount count
    | fail value count =>
      cases count with
      | none => exact show 1 ≤ uintptrMax by decide
      | some count => exact hcount count
  induction seq with
  | single p => exact fun run hrun => List.mem_singleton.1 hrun ▸ hitem p
  | cons p plus later ih =>
    intro run hrun
    rcases List.mem_cons.1 hrun with rfl | hrun
    · exact hitem p
    · exact ih run hrun

section

variable {info : NaClFaultInjectInfo} {counter : NaClFaultInjectCallSiteCount} {n : ℕ}

theorem cursor_countCall (hvalid : counter.cursor.Valid info.runs)
    (hbound : ∀ run ∈ info.runs, run.2 ≤ uintptrMax) :
    (countCall info counter).1.cursor = counter.cursor.next info.runs := by
  have hruns : info.runs[counter.exprIx]? =
      info.expr.elems[counter.exprIx]?.map NaClFaultExpr.run := List.getElem?_map
  unfold Cursor.Valid at hvalid
  unfold countCall Cursor.next NaClFaultInjectCallSiteCount.cursor at *
  dsimp only at hvalid ⊢
  rw [hruns] at hvalid ⊢
  cases hexpr : info.expr.elems[counter.exprIx]? with
  | none => rfl
  | some expr =>
    rw [hexpr] at hvalid
    have hlt : counter.countInExpr < max 1 expr.count := hvalid _ rfl
    have hmem : expr.run ∈ info.runs := List.mem_map_of_mem (List.mem_of_getElem? hexpr)
    have hle : expr.count ≤ 2 ^ 64 - 1 := hbound _ hmem
    have hmod : (counter.countInExpr + 1) % 2 ^ 64 = counter.countInExpr + 1 :=
      Nat.mod_eq_of_lt (by omega)
    dsimp only [NaClFaultInjectCallSiteCount.bump, Option.map_some]
    rw [hmod]
    split_ifs with hcarry hnext hnext
    · rfl
    · exact absurd hcarry hnext
    · exact absurd hnext hcarry
    · rfl

theorem fault_countCall : (countCall info counter).2 =
    ((counter.cursor.symbol info.runs).getD .pass).value? := by
  have hruns : info.runs[counter.exprIx]? =
      info.expr.elems[counter.exprIx]?.map NaClFaultExpr.run := List.getElem?_map
  unfold countCall Cursor.symbol NaClFaultInjectCallSiteCount.cursor
  dsimp only
  rw [hruns]
  cases info.expr.elems[counter.exprIx]? with
  | none => rfl
  | some expr =>
    show (if expr.pass then none else some expr.faultValue) = expr.run.1.value?
    rw [NaClFaultExpr.run]
    cases expr.pass <;> rfl

end

/-! ## The counters of a run -/

section

variable {counters : List NaClFaultInjectCallSiteCount} {ix ix' n : ℕ}
  {record : NaClFaultInjectInfo}

/-- The counter at an index stands where `n` calls have taken it. -/
def CountedTo (counters : List NaClFaultInjectCallSiteCount) (ix : ℕ) (record : NaClFaultInjectInfo)
    (n : ℕ) : Prop :=
  ∃ counter, counters[ix]? = some counter ∧ counter.cursor = (Cursor.next record.runs)^[n] start

theorem countedTo_new {records : List NaClFaultInjectInfo} (h : records[ix]? = some record) :
    CountedTo (newCounters records) ix record 0 := by
  obtain ⟨hlt, -⟩ := List.getElem?_eq_some_iff.1 h
  exact ⟨⟨0, 0⟩, List.getElem?_replicate_of_lt hlt, rfl⟩

theorem CountedTo.set_of_ne (h : CountedTo counters ix' record n) (hne : ix ≠ ix')
    (counter : NaClFaultInjectCallSiteCount) :
    CountedTo (counters.set ix counter) ix' record n := by
  obtain ⟨counter', hget, hcursor⟩ := h
  exact ⟨counter', (List.getElem?_set_ne hne).trans hget, hcursor⟩

theorem CountedTo.countCall (h : CountedTo counters ix record n)
    (hbound : ∀ run ∈ record.runs, run.2 ≤ uintptrMax) :
    ∃ counter, counters[ix]? = some counter ∧
      CountedTo (counters.set ix (countCall record counter).1) ix record (n + 1) ∧
      (FaultInjection.countCall record counter).2 =
        ((generated (atLeastOnce record.runs))[n]?.getD .pass).value? := by
  obtain ⟨counter, hget, hcursor⟩ := h
  obtain ⟨hlt, -⟩ := List.getElem?_eq_some_iff.1 hget
  have hvalid : counter.cursor.Valid record.runs := by
    rw [hcursor]
    exact Cursor.valid_iterate record.runs n
  refine ⟨counter, hget, ⟨_, List.getElem?_set_self hlt, ?_⟩, ?_⟩
  · rw [cursor_countCall hvalid hbound, hcursor, Function.iterate_succ_apply']
  · rw [fault_countCall, hcursor, symbol_iterate]

end

theorem callSiteName_of_findIdx? {records : List NaClFaultInjectInfo} {site : List Char} {ix : ℕ}
    {record : NaClFaultInjectInfo}
    (h : records.findIdx? (·.callSiteName = site) = some ix)
    (hrecord : records[ix]? = some record) : record.callSiteName = site := by
  obtain ⟨hlt, hname, -⟩ := List.findIdx?_eq_some_iff_getElem.1 h
  obtain ⟨_, rfl⟩ := List.getElem?_eq_some_iff.1 hrecord
  exact of_decide_eq_true hname

theorem lookup_record {records : List NaClFaultInjectInfo} {entries : List Entry}
    (h : List.Forall₂ IsRecord records entries) (site : List Char) :
    (records.findIdx? (·.callSiteName = site) = none ∧ entries.find? (·.siteName = site) = none) ∨
      ∃ ix record entry, records.findIdx? (·.callSiteName = site) = some ix ∧
        records[ix]? = some record ∧ entries.find? (·.siteName = site) = some entry ∧
        IsRecord record entry := by
  induction h with
  | nil => exact .inl ⟨rfl, rfl⟩
  | @cons record entry records entries hrecord hrest ih =>
    rw [List.findIdx?_cons, List.find?_cons]
    by_cases hname : entry.siteName = site
    · have hname' : record.callSiteName = site := hrecord.1.trans hname
      refine .inr ⟨0, record, entry, ?_, rfl, ?_, hrecord⟩
      · rw [decide_eq_true hname', if_pos rfl]
      · rw [decide_eq_true hname]
    · have hname' : record.callSiteName ≠ site := fun heq => hname (hrecord.1.symm.trans heq)
      rw [decide_eq_false hname, decide_eq_false hname', if_neg Bool.false_ne_true]
      obtain ⟨hnone, hnone'⟩ | ⟨ix, record', entry', hix, hget, hfind, hrecord'⟩ := ih
      · rw [hnone, hnone']
        exact .inl ⟨rfl, rfl⟩
      · rw [hix]
        exact .inr ⟨ix + 1, record', entry', rfl, hget, hfind, hrecord'⟩

/-! ## Runs -/

/-- After the events of the past every counter stands where the calls for its site have taken it. -/
structure Counted (records : List NaClFaultInjectInfo) (past : List Event) (st : State) : Prop where
  info : st.info = records
  callSites : ∀ site ix record, records.findIdx? (·.callSiteName = site) = some ix →
    records[ix]? = some record → record.threadSpecificP = false →
      CountedTo st.callSites ix record (globalCalls site past)
  threads : ∀ tid site ix record, records.findIdx? (·.callSiteName = site) = some ix →
    records[ix]? = some record → record.threadSpecificP = true →
      CountedTo (st.threadCounters tid) ix record (threadCalls tid site past)

section

variable {records : List NaClFaultInjectInfo} {past : List Event} {st : State} {tid ix : ℕ}
  {site : List Char} {record : NaClFaultInjectInfo}

theorem counted_init (records : List NaClFaultInjectInfo) :
    Counted records [] ⟨records, newCounters records, fun _ => none, fun _ => 0⟩ where
  info := rfl
  callSites _ _ _ _ hget _ := countedTo_new hget
  threads _ _ _ _ _ hget _ := countedTo_new hget

theorem globalCalls_of_ne {site' : List Char} (h : site ≠ site') :
    globalCalls site' (.faultP tid site :: past) = globalCalls site' past := by
  rw [globalCalls, if_neg h]

theorem threadCalls_of_ne {tid' : ℕ} {site' : List Char} (h : ¬ (tid = tid' ∧ site = site')) :
    threadCalls tid' site' (.faultP tid site :: past) = threadCalls tid' site' past := by
  rw [threadCalls, if_neg h]

theorem threadCounters_update (st : State) (tid tid' : ℕ)
    (counters : Option (List NaClFaultInjectCallSiteCount)) :
    { st with threadCount := Function.update st.threadCount tid counters : State }.threadCounters
      tid' =
      if tid' = tid then counters.getD (newCounters st.info) else st.threadCounters tid' := by
  unfold State.threadCounters
  dsimp only
  rw [Function.update_apply]
  split_ifs <;> rfl

theorem Counted.exit (h : Counted records past st) (tid : ℕ) :
    Counted records (.exit tid :: past) (NaClFaultInjectionPreThreadExitCleanup st tid) where
  info := h.info
  callSites := h.callSites
  threads tid' site ix record hix hget hthread := by
    rw [NaClFaultInjectionPreThreadExitCleanup, threadCounters_update, threadCalls]
    by_cases heq : tid' = tid
    · rw [if_pos heq, if_pos heq.symm, h.info]
      exact countedTo_new hget
    · rw [if_neg heq, if_neg (Ne.symm heq)]
      exact h.threads tid' site ix record hix hget hthread

theorem Counted.setValue (h : Counted records past st) (tid : ℕ) (fault : Option ℕ) :
    Counted records past (st.setValue tid fault) := by
  cases fault with
  | none => exact h
  | some value => exact ⟨h.info, h.callSites, h.threads⟩

theorem Counted.none (h : Counted records past st)
    (hix : records.findIdx? (·.callSiteName = site) = none) :
    Counted records (.faultP tid site :: past) st := by
  have hne {site' : List Char} {ix : ℕ}
      (hix' : records.findIdx? (·.callSiteName = site') = some ix) : site ≠ site' := by
    rintro rfl
    rw [hix] at hix'
    cases hix'
  refine ⟨h.info, fun site' ix record hix' hget hglobal => ?_,
    fun tid' site' ix record hix' hget hthread => ?_⟩
  · rw [globalCalls_of_ne (hne hix')]
    exact h.callSites site' ix record hix' hget hglobal
  · rw [threadCalls_of_ne fun heq => hne hix' heq.2]
    exact h.threads tid' site' ix record hix' hget hthread

theorem ix_ne_of_ne {site' : List Char} {ix' : ℕ}
    (hix : records.findIdx? (·.callSiteName = site) = some ix) (hget : records[ix]? = some record)
    (hix' : records.findIdx? (·.callSiteName = site') = some ix') (hne : site ≠ site') :
    ix ≠ ix' := by
  rintro rfl
  exact hne ((callSiteName_of_findIdx? hix hget).symm.trans (callSiteName_of_findIdx? hix' hget))

theorem Counted.global {counter : NaClFaultInjectCallSiteCount} (h : Counted records past st)
    (hix : records.findIdx? (·.callSiteName = site) = some ix) (hget : records[ix]? = some record)
    (hglobal : record.threadSpecificP = false)
    (hnext : CountedTo (st.callSites.set ix counter) ix record (globalCalls site past + 1)) :
    Counted records (.faultP tid site :: past)
      { st with callSites := st.callSites.set ix counter } := by
  refine ⟨h.info, fun site' ix' record' hix' hget' hglobal' => ?_,
    fun tid' site' ix' record' hix' hget' hthread => ?_⟩
  · by_cases hsite : site = site'
    · subst hsite
      obtain rfl : ix = ix' := Option.some.inj (hix.symm.trans hix')
      obtain rfl : record = record' := Option.some.inj (hget.symm.trans hget')
      rw [globalCalls, if_pos rfl]
      exact hnext
    · rw [globalCalls_of_ne hsite]
      exact (h.callSites site' ix' record' hix' hget' hglobal').set_of_ne
        (ix_ne_of_ne hix hget hix' hsite) counter
  · have hsite : site ≠ site' := by
      rintro rfl
      obtain rfl : ix = ix' := Option.some.inj (hix.symm.trans hix')
      obtain rfl : record = record' := Option.some.inj (hget.symm.trans hget')
      exact Bool.false_ne_true (hglobal.symm.trans hthread)
    rw [threadCalls_of_ne fun heq => hsite heq.2]
    exact h.threads tid' site' ix' record' hix' hget' hthread

theorem Counted.thread {counter : NaClFaultInjectCallSiteCount} (h : Counted records past st)
    (hix : records.findIdx? (·.callSiteName = site) = some ix) (hget : records[ix]? = some record)
    (hthread : record.threadSpecificP = true)
    (hnext : CountedTo ((st.threadCounters tid).set ix counter) ix record
      (threadCalls tid site past + 1)) :
    Counted records (.faultP tid site :: past)
      { st with
        threadCount := Function.update st.threadCount tid
          (some ((st.threadCounters tid).set ix counter)) } := by
  refine ⟨h.info, fun site' ix' record' hix' hget' hglobal => ?_,
    fun tid' site' ix' record' hix' hget' hthread' => ?_⟩
  · have hsite : site ≠ site' := by
      rintro rfl
      obtain rfl : ix = ix' := Option.some.inj (hix.symm.trans hix')
      obtain rfl : record = record' := Option.some.inj (hget.symm.trans hget')
      exact Bool.false_ne_true (hglobal.symm.trans hthread)
    rw [globalCalls_of_ne hsite]
    exact h.callSites site' ix' record' hix' hget' hglobal
  · rw [threadCounters_update]
    by_cases htid : tid' = tid
    · subst htid
      rw [if_pos rfl, Option.getD_some]
      by_cases hsite : site = site'
      · subst hsite
        obtain rfl : ix = ix' := Option.some.inj (hix.symm.trans hix')
        obtain rfl : record = record' := Option.some.inj (hget.symm.trans hget')
        rw [threadCalls, if_pos ⟨rfl, rfl⟩]
        exact hnext
      · rw [threadCalls_of_ne fun heq => hsite heq.2]
        exact (h.threads tid' site' ix' record' hix' hget' hthread').set_of_ne
          (ix_ne_of_ne hix hget hix' hsite) counter
    · rw [if_neg htid, threadCalls_of_ne fun heq => htid heq.1.symm]
      exact h.threads tid' site' ix' record' hix' hget' hthread'

end

section

variable {config : Config} {records : List NaClFaultInjectInfo} {past : List Event} {st : State}

theorem readSymbol_record {record : NaClFaultInjectInfo} {entry : Entry}
    (h : IsRecord record entry) (n : ℕ) :
    entry.expr.readSymbol n = (generated (atLeastOnce record.runs))[n]?.getD .pass := by
  rw [FaultControlExpression.readSymbol, ← h.2.2]
  rfl

theorem Counted.faultP (h : Counted records past st)
    (hrecords : List.Forall₂ IsRecord records config.entries) (tid : ℕ) (site : List Char) :
    ∃ st', NaClFaultInjectionFaultP st tid site =
        .ok (st'.setValue tid
          (config.symbolAt FaultControlExpression.readSymbol past tid site).value?,
          (config.symbolAt FaultControlExpression.readSymbol past tid site).isFault) ∧
      Counted records (.faultP tid site :: past) st' ∧ st'.value = st.value := by
  obtain ⟨hix, hfind⟩ | ⟨ix, record, entry, hix, hget, hfind, hrecord⟩ :=
    lookup_record hrecords site
  · refine ⟨st, ?_, h.none hix, rfl⟩
    rw [NaClFaultInjectionFaultP, h.info, hix, Config.symbolAt, Config.exprOf, hfind]
    rfl
  · have hbound : ∀ run ∈ record.runs, run.2 ≤ uintptrMax := by
      rw [show record.runs = entry.expr.seq.runs from hrecord.2.2]
      exact count_le_uintptrMax _
    have hsymbol : config.symbolAt FaultControlExpression.readSymbol past tid site =
        (generated (atLeastOnce record.runs))[if record.threadSpecificP then
          threadCalls tid site past else globalCalls site past]?.getD .pass := by
      rw [Config.symbolAt, Config.exprOf, hfind, hrecord.2.1]
      exact readSymbol_record hrecord _
    cases hthread : record.threadSpecificP with
    | false =>
      rw [hthread, if_neg Bool.false_ne_true] at hsymbol
      obtain ⟨counter, hcounter, hnext, hfault⟩ :=
        (h.callSites site ix record hix hget hthread).countCall hbound
      rw [← hsymbol] at hfault
      refine ⟨_, ?_, h.global hix hget hthread hnext, rfl⟩
      rw [NaClFaultInjectionFaultP, h.info, hix]
      dsimp only
      rw [hget]
      dsimp only
      rw [hthread, if_neg Bool.false_ne_true, hcounter]
      dsimp only
      rw [if_neg Bool.false_ne_true, hfault, Symbol.isSome_value?]
    | true =>
      rw [hthread, if_pos rfl] at hsymbol
      obtain ⟨counter, hcounter, hnext, hfault⟩ :=
        (h.threads tid site ix record hix hget hthread).countCall hbound
      rw [← hsymbol] at hfault
      refine ⟨_, ?_, h.thread hix hget hthread hnext, rfl⟩
      rw [NaClFaultInjectionFaultP, h.info, hix]
      dsimp only
      rw [hget]
      dsimp only
      rw [hthread, if_pos rfl, hcounter]
      dsimp only
      rw [if_pos rfl, hfault, Symbol.isSome_value?]

theorem State.value_setValue (st : State) (tid tid' : ℕ) (fault : Option ℕ) :
    (st.setValue tid fault).value tid' =
      if tid = tid' then fault.getD (st.value tid') else st.value tid' := by
  cases fault with
  | none => exact (ite_self _).symm
  | some value =>
    show Function.update st.value tid value tid' = _
    rw [Function.update_apply]
    by_cases heq : tid' = tid
    · rw [if_pos heq, if_pos heq.symm]
      rfl
    · rw [if_neg heq, if_neg (Ne.symm heq)]

theorem lastValue_faultP (symbol : FaultControlExpression → ℕ → Symbol) (tid tid' : ℕ)
    (site : List Char) :
    config.lastValue symbol tid' (.faultP tid site :: past) =
      if tid = tid' then ((config.symbolAt symbol past tid site).value?).getD
        (config.lastValue symbol tid' past)
      else config.lastValue symbol tid' past := by
  rw [Config.lastValue]
  split_ifs with htid
  · rw [htid]
    cases config.symbolAt symbol past tid' site <;> rfl
  · rfl

theorem run_spec (hrecords : List.Forall₂ IsRecord records config.entries) (past : List Event) :
    ∃ st, run ⟨records, newCounters records, fun _ => none, fun _ => 0⟩ past = .ok st ∧
      Counted records past st ∧
      ∀ tid, st.value tid = config.lastValue FaultControlExpression.readSymbol tid past := by
  induction past with
  | nil => exact ⟨_, rfl, counted_init records, fun _ => rfl⟩
  | cons e past ih =>
    obtain ⟨st, hrun, hcounted, hvalue⟩ := ih
    rw [run, hrun]
    cases e with
    | exit tid => exact ⟨_, rfl, hcounted.exit tid, hvalue⟩
    | faultP tid site =>
      obtain ⟨st', hcall, hcounted', hsame⟩ := hcounted.faultP hrecords tid site
      refine ⟨_, congrArg (Except.map Prod.fst) hcall, hcounted'.setValue _ _, fun tid' => ?_⟩
      rw [State.value_setValue, lastValue_faultP, hsame, hvalue]

/-- With four entries at most, each call answers as the symbol for it when every `P` and `F` comes
once at least. -/
theorem follows_readSymbol (h : config.entries.length ≤ 4) :
    Follows FaultControlExpression.readSymbol config := by
  obtain ⟨records, hrecords, hinit⟩ := moduleInit_of_le h
  refine ⟨_, hinit, fun past => ?_⟩
  obtain ⟨st, hrun, hcounted, hvalue⟩ := run_spec hrecords past
  refine ⟨st, hrun, fun tid site => ?_, hvalue⟩
  obtain ⟨st', hcall, -, -⟩ := hcounted.faultP hrecords tid site
  exact ⟨_, hcall⟩

/-! ## When it is the generated sequence -/

variable {symbol symbol' : FaultControlExpression → ℕ → Symbol}

theorem symbolAt_congr
    (h : ∀ site expr, config.exprOf site = some expr → ∀ n, symbol expr n = symbol' expr n)
    (past : List Event) (tid : ℕ) (site : List Char) :
    config.symbolAt symbol past tid site = config.symbolAt symbol' past tid site := by
  unfold Config.symbolAt
  cases hexpr : config.exprOf site with
  | none => rfl
  | some expr => exact h site expr hexpr _

theorem lastValue_congr
    (h : ∀ site expr, config.exprOf site = some expr → ∀ n, symbol expr n = symbol' expr n)
    (tid : ℕ) (past : List Event) :
    config.lastValue symbol tid past = config.lastValue symbol' tid past := by
  induction past with
  | nil => rfl
  | cons e past ih =>
    cases e with
    | exit tid' => exact ih
    | faultP tid' site => rw [lastValue_faultP, lastValue_faultP, symbolAt_congr h, ih]

theorem follows_congr
    (h : ∀ site expr, config.exprOf site = some expr → ∀ n, symbol expr n = symbol' expr n)
    (hfollows : Follows symbol config) : Follows symbol' config := by
  obtain ⟨st₀, hinit, hruns⟩ := hfollows
  refine ⟨st₀, hinit, fun past => ?_⟩
  obtain ⟨st, hrun, hanswer, hvalue⟩ := hruns past
  refine ⟨st, hrun, fun tid site => ?_, fun tid => ?_⟩
  · rw [← symbolAt_congr h]
    exact hanswer tid site
  · rw [← lastValue_congr h]
    exact hvalue tid

theorem calls_replicate (tid : ℕ) (site : List Char) (n : ℕ) :
    threadCalls tid site (List.replicate n (.faultP tid site)) = n ∧
      globalCalls site (List.replicate n (.faultP tid site)) = n := by
  induction n with
  | zero => exact ⟨rfl, rfl⟩
  | succ n ih =>
    rw [List.replicate_succ, threadCalls, globalCalls, if_pos ⟨rfl, rfl⟩, if_pos rfl, ih.1, ih.2]
    exact ⟨rfl, rfl⟩

theorem symbolAt_replicate {site : List Char} {expr : FaultControlExpression}
    (h : config.exprOf site = some expr) (tid n : ℕ) :
    config.symbolAt symbol (List.replicate n (.faultP tid site)) tid site = symbol expr n := by
  rw [Config.symbolAt, h, (calls_replicate tid site n).1, (calls_replicate tid site n).2]
  exact congrArg _ (ite_self n)

theorem Follows.isFault_eq (h : Follows symbol config) (h' : Follows symbol' config)
    {site : List Char} {expr : FaultControlExpression} (hexpr : config.exprOf site = some expr)
    (n : ℕ) : (symbol expr n).isFault = (symbol' expr n).isFault := by
  obtain ⟨st₀, hinit, hruns⟩ := h
  obtain ⟨st₀', hinit', hruns'⟩ := h'
  obtain rfl : st₀ = st₀' := Except.ok.inj (hinit.symm.trans hinit')
  obtain ⟨st, hrun, hanswer, -⟩ := hruns (List.replicate n (.faultP 0 site))
  obtain ⟨st', hrun', hanswer', -⟩ := hruns' (List.replicate n (.faultP 0 site))
  obtain rfl : st = st' := Except.ok.inj (hrun.symm.trans hrun')
  obtain ⟨_, hcall⟩ := hanswer 0 site
  obtain ⟨_, hcall'⟩ := hanswer' 0 site
  have hpair := Except.ok.inj (hcall.symm.trans hcall')
  rw [symbolAt_replicate hexpr, symbolAt_replicate hexpr] at hpair
  exact congrArg Prod.snd hpair

theorem Symbol.isFault_of_ne {symbol : Symbol} (h : symbol ≠ .pass) : symbol.isFault = true := by
  cases symbol with
  | pass => exact absurd rfl h
  | fault value => rfl

end

/-- The generated sequences are followed when there are four entries at most and, in the first
expression of a site, nothing but `P` from one with a count of 0 on. -/
theorem follows_iff (config : Config) :
    Follows FaultControlExpression.symbol config ↔ config.entries.length ≤ 4 ∧
      ∀ site expr, config.exprOf site = some expr → OnlyTrailingEmpty .pass expr.seq.runs := by
  constructor
  · intro h
    have hlength : config.entries.length ≤ 4 := by
      refine Nat.le_of_not_lt fun hlt => ?_
      obtain ⟨st₀, hinit, -⟩ := h
      rw [moduleInit_of_lt hlt] at hinit
      cases hinit
    refine ⟨hlength, fun site expr hexpr => ?_⟩
    by_contra hempty
    obtain ⟨n, hread, hpast⟩ := exists_of_not_onlyTrailingEmpty hempty
    have hsame := h.isFault_eq (follows_readSymbol hlength) hexpr n
    rw [FaultControlExpression.symbol, FaultControlExpression.readSymbol, hpast n (Nat.le_refl n),
      Symbol.isFault_of_ne hread] at hsame
    cases hsame
  · rintro ⟨hlength, hempty⟩
    refine follows_congr (fun site expr hexpr n => ?_) (follows_readSymbol hlength)
    exact getD_atLeastOnce (hempty site expr hexpr) n

/-! ## Five sites -/

/-- `G` and an `F`. -/
def globalFault : FaultControlExpression := ⟨false, .single (.fail none none), trivial⟩

def letterEntry (name : Char) (h : name ≠ '=' ∧ name ≠ ',' ∧ name ≠ ':') : Entry :=
  ⟨[name], fun _ hc => List.mem_singleton.1 hc ▸ h, globalFault⟩

/-- `a=GF,b=GF,c=GF,d=GF,e=GF`. -/
def fiveSites : Config :=
  .list (letterEntry 'a' (by decide)) [(.comma, letterEntry 'b' (by decide)),
    (.comma, letterEntry 'c' (by decide)), (.comma, letterEntry 'd' (by decide)),
    (.comma, letterEntry 'e' (by decide))]

/-- The fifth record is stored outside of the array. -/
theorem not_follows_fiveSites :
    fiveSites.render = ['a', '=', 'G', 'F', ',', 'b', '=', 'G', 'F', ',', 'c', '=', 'G', 'F', ',',
      'd', '=', 'G', 'F', ',', 'e', '=', 'G', 'F'] ∧
      NaClFaultInjectionModuleInternalInit (some fiveSites.render) = .error .badAccess ∧
      ¬ Follows FaultControlExpression.symbol fiveSites := by
  have hinit := moduleInit_of_lt (show 4 < fiveSites.entries.length by decide)
  refine ⟨rfl, hinit, fun h => ?_⟩
  obtain ⟨st₀, hok, -⟩ := h
  rw [hinit] at hok
  cases hok

end FaultInjection

end SandboxingNaCl
