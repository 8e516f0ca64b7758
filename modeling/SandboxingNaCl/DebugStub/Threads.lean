import SandboxingNaCl.Lib.Runs
import Mathlib.Data.List.Sort

/-!
# The threads of the debug stub

The thread ids that `target.cc` keeps, and the thread map they are looked up in.  The stub's thread and
the hooks of the other threads take `mutex_` in turn; the stub's thread holds it from a stop until it
resumes the program or loses the connection.
-/

namespace SandboxingNaCl

open Runs

/-- `Thread`, with the `fault_signal` of its `NaClAppThread` as `CopyFaultSignalFromAppThread` reports
it: 0 is that the thread has not faulted. -/
structure DebugThread where
  appFaultSignal : ℕ
  faultSignal : ℕ
  step : Bool

/-- The position of `threadItr_`. -/
inductive ThreadItr
  | at (id : ℕ)
  | atEnd
  | invalid
deriving DecidableEq

/-- The fields of `Target` about threads, with `faulted_thread_count` of its `NaClApp`.
`processingCommands` says that the stub's thread is in `ProcessCommands`, with `mutex_`. -/
structure TargetThreads where
  threads : List (ℕ × DebugThread)
  faultedThreadCount : ℕ
  threadItr : ThreadItr
  initialBreakpointActive : Bool
  curSignal : ℕ
  sigThread : ℕ
  regThread : ℕ
  stepOverBreakpointThread : ℕ
  allThreadsSuspended : Bool
  processingCommands : Bool

/-- Why a step is not possible. -/
inductive TargetRefusal
  /-- Another thread has the mutex, or the program is not in that state. -/
  | blocked
  /-- A pointer to a thread that is not in the map is followed. -/
  | noThread
  | badIterator
  /-- A `CHECK` that is false, or `NaClLog(LOG_FATAL, ...)`. -/
  | fatal
  /-- `NaClExit`, asked for by `k`. -/
  | exited

/-- What follows the thread id in a `vCont;s:` packet. -/
inductive StepRest
  | nothing
  /-- `;c`. -/
  | continueOthers
  | unsupported

/-- The packets that use thread ids. -/
inductive ThreadCommand
  /-- `?`. -/
  | stopReply
  /-- `c` and `vCont;c`. -/
  | continue
  /-- `D`. -/
  | detach
  /-- `k`. -/
  | kill
  /-- `g`. -/
  | readRegisters
  /-- `G`. -/
  | writeRegisters
  /-- `H` with a type; `none` is the id -1. -/
  | setThread (isG : Bool) (id : Option ℕ)
  /-- `qfThreadInfo`. -/
  | firstThreadInfo
  /-- `qsThreadInfo`. -/
  | nextThreadInfo
  /-- `s`. -/
  | step
  /-- `T`. -/
  | threadAlive (id : ℕ)
  /-- `vCont;s:`. -/
  | vContStep (id : ℕ) (rest : StepRest)
  /-- `vCont;c:`. -/
  | vContContinue (id : ℕ)
  | other

/-- What happens next. -/
inductive TargetAction
  /-- `TrackThread`. -/
  | track (threadNum : ℕ)
  /-- `IgnoreThread`. -/
  | ignore (threadNum : ℕ)
  /-- A thread faults or reaches a breakpoint, and is blocked. -/
  | fault (id signal : ℕ)
  /-- A round of `Run`, from the end of `WaitForDebugEvent` to the first packet.  The host says whether
  there is input, and whether the initial breakpoint can be removed. -/
  | debugEvent (dataAvailable removed : Bool)
  /-- A packet in `ProcessCommands`. -/
  | packet (command : ThreadCommand)
  | reconnect

namespace TargetThreads

/-- `threads_.find(id)`. -/
def find (t : TargetThreads) (id : ℕ) : Option DebugThread :=
  (t.threads.find? (·.1 = id)).map Prod.snd

/-- The id is a key of `threads_`. -/
def Live (t : TargetThreads) (id : ℕ) : Prop := id ∈ t.threads.map Prod.fst

instance (t : TargetThreads) (id : ℕ) : Decidable (t.Live id) := inferInstanceAs (Decidable (_ ∈ _))

/-- `threads_[id]->...`: where the key is missing, the map gets a null pointer, which is followed. -/
def updateThread (t : TargetThreads) (id : ℕ) (f : DebugThread → DebugThread) :
    Except TargetRefusal TargetThreads :=
  if t.Live id then
    .ok { t with threads := t.threads.map fun p => if p.1 = id then (id, f p.2) else p }
  else .error .noThread

def copyFaultSignalFromAppThread (thread : DebugThread) : DebugThread :=
  if thread.faultSignal = 0 ∧ thread.appFaultSignal ≠ 0 then
    { thread with faultSignal := thread.appFaultSignal }
  else thread

def suspendAllThreads (t : TargetThreads) : TargetThreads :=
  { t with threads := t.threads.map fun p => (p.1, copyFaultSignalFromAppThread p.2) }

/-- `Thread::UnqueueFaultedThread`, through a pointer to the thread. -/
def unqueueFaultedThread (t : TargetThreads) (id : ℕ) (thread : DebugThread) :
    Except TargetRefusal TargetThreads :=
  if thread.appFaultSignal = 0 then .error .fatal
  else
    (t.updateThread id fun thread => { thread with appFaultSignal := 0, faultSignal := 0 }).map
      fun t => { t with faultedThreadCount := t.faultedThreadCount - 1 }

/-- The end of `ProcessDebugEvent`, once a thread has been chosen. -/
def reportStop (t : TargetThreads) (removed : Bool) : Except TargetRefusal TargetThreads :=
  if t.sigThread ≠ 0 then
    (t.updateThread t.sigThread fun thread => { thread with step := false }).bind fun t =>
      -- `RemoveInitialBreakpoint`
      if t.initialBreakpointActive ∧ removed = false then .error .fatal
      else .ok { t with initialBreakpointActive := false, allThreadsSuspended := true }
  else .ok { t with allThreadsSuspended := true }

/-- `ProcessDebugEvent` while a thread is stepping over a breakpoint. -/
def processStepOver (t : TargetThreads) (removed : Bool) : Except TargetRefusal TargetThreads :=
  match t.find t.stepOverBreakpointThread with
  | none => .error .noThread
  | some thread =>
    if thread.appFaultSignal = 0 then .ok t
    else
      let thread := copyFaultSignalFromAppThread thread
      (t.unqueueFaultedThread t.stepOverBreakpointThread thread).bind fun t =>
        { t with
          curSignal := thread.faultSignal
          sigThread := t.stepOverBreakpointThread
          regThread := t.stepOverBreakpointThread
          stepOverBreakpointThread := 0 }.reportStop removed

/-- `UnqueueAnyFaultedThread`, and the use of the id it has found. -/
def processFault (t : TargetThreads) (removed : Bool) : Except TargetRefusal TargetThreads :=
  match t.threads.find? (·.2.faultSignal ≠ 0) with
  | none => .error .fatal
  | some (id, thread) =>
    (t.unqueueFaultedThread id thread).bind fun t =>
      { t with curSignal := thread.faultSignal, sigThread := id, regThread := id }.reportStop
        removed

def processDebugEvent (t : TargetThreads) (dataAvailable removed : Bool) :
    Except TargetRefusal TargetThreads :=
  if t.allThreadsSuspended then .ok t
  else if t.stepOverBreakpointThread ≠ 0 then t.processStepOver removed
  else if t.faultedThreadCount ≠ 0 then t.suspendAllThreads.processFault removed
  else if t.initialBreakpointActive ∨ dataAvailable = false then .ok t
  else { t with sigThread := 0 }.suspendAllThreads.reportStop removed

/-- `Resume`, and the end of `ProcessCommands`. -/
def resume (t : TargetThreads) : Except TargetRefusal TargetThreads :=
  if t.stepOverBreakpointThread ≠ 0 ∧ ¬ t.Live t.stepOverBreakpointThread then .error .noThread
  else .ok { t with curSignal := 0, allThreadsSuspended := false, processingCommands := false }

def getNextThreadId (t : TargetThreads) : Except TargetRefusal TargetThreads :=
  match t.threadItr with
  | .invalid => .error .badIterator
  | .atEnd => .ok t
  | .at id =>
    .ok { t with threadItr := match t.threads.find? (id < ·.1) with
      | some p => .at p.1
      | none => .atEnd }

def getFirstThreadId (t : TargetThreads) : Except TargetRefusal TargetThreads :=
  { t with threadItr := match t.threads.head? with
    | some p => .at p.1
    | none => .atEnd }.getNextThreadId

/-- `ProcessPacket`, as far as it uses threads, and what `ProcessCommands` does afterwards. -/
def processPacket (t : TargetThreads) : ThreadCommand → Except TargetRefusal TargetThreads
  | .stopReply | .readRegisters | .writeRegisters | .threadAlive _ | .other => .ok t
  | .continue | .detach => t.resume
  | .kill => .error .exited
  | .setThread isG id =>
    match t.threads.head? with
    | none => .ok t
    | some first =>
      let id := id.getD first.1
      if t.Live id ∧ isG then .ok { t with regThread := id } else .ok t
  | .firstThreadInfo => t.getFirstThreadId
  | .nextThreadInfo => t.getNextThreadId
  | .step =>
    -- `GetRunThread`
    match t.threads with
    | [(id, _)] =>
      (t.updateThread id fun thread => { thread with step := true }).bind resume
    | _ => t.resume
  | .vContStep id rest =>
    if t.Live id then
      match rest with
      | .nothing =>
        if id ≠ t.sigThread then .ok t
        else
          ({ t with stepOverBreakpointThread := t.sigThread }.updateThread id fun thread =>
            { thread with step := true }).bind resume
      | .continueOthers =>
        (t.updateThread id fun thread => { thread with step := true }).bind resume
      | .unsupported => .ok t
    else .ok t
  | .vContContinue id =>
    if id = t.sigThread then
      { t with stepOverBreakpointThread := t.sigThread }.resume
    else .ok t

def step (t : TargetThreads) : TargetAction → Except TargetRefusal TargetThreads
  -- `thread_num` is an index that no other thread has
  | .track threadNum =>
    if t.processingCommands ∨ t.Live (threadNum + 1) then .error .blocked
    else
      .ok { t with
        threads := t.threads.orderedInsert (fun p q => p.1 ≤ q.1) (threadNum + 1, ⟨0, 0, false⟩) }
  -- a thread that has faulted is blocked
  | .ignore threadNum =>
    if t.processingCommands then .error .blocked
    else
      match t.find (threadNum + 1) with
      | none => .error .fatal
      | some thread =>
        if thread.appFaultSignal ≠ 0 then .error .blocked
        else
          .ok { t with
            threads := t.threads.filter (·.1 ≠ threadNum + 1)
            threadItr := if t.threadItr = .at (threadNum + 1) then .invalid else t.threadItr }
  | .fault id signal =>
    match t.find id with
    | none => .error .blocked
    | some thread =>
      if t.allThreadsSuspended ∨ thread.appFaultSignal ≠ 0 ∨ signal = 0 then .error .blocked
      else
        (t.updateThread id fun thread => { thread with appFaultSignal := signal }).map
          fun t => { t with faultedThreadCount := t.faultedThreadCount + 1 }
  | .debugEvent dataAvailable removed =>
    if t.processingCommands then .error .blocked
    else
      (t.processDebugEvent dataAvailable removed).map fun t =>
        { t with processingCommands := t.allThreadsSuspended }
  | .packet command => if t.processingCommands then t.processPacket command else .error .blocked
  | .reconnect =>
    if t.processingCommands then .ok { t with processingCommands := false } else .error .blocked

/-- The target as it is constructed, with the initial breakpoint set. -/
def initial : TargetThreads :=
  ⟨[], 0, .invalid, true, 0, 0, 0, 0, false, false⟩

/-! ## Live ids -/

/-- What the conditions on a step are: the thread that steps over a breakpoint does not exit, `vCont;c:`
does not name a signalled thread that has exited, and `qsThreadInfo` goes on from an entry that is still
there. -/
def Safe (t : TargetThreads) : TargetAction → Prop
  | .ignore threadNum => t.stepOverBreakpointThread ≠ threadNum + 1
  | .packet (.vContContinue id) => id = t.sigThread → id ≠ 0 → t.Live id
  | .packet .nextThreadInfo => t.threadItr ≠ .invalid
  | _ => True

instance (t : TargetThreads) : (a : TargetAction) → Decidable (t.Safe a)
  | .ignore threadNum => inferInstanceAs (Decidable (t.stepOverBreakpointThread ≠ threadNum + 1))
  | .packet (.vContContinue id) => inferInstanceAs (Decidable (id = t.sigThread → id ≠ 0 → t.Live id))
  | .packet .nextThreadInfo => inferInstanceAs (Decidable (t.threadItr ≠ .invalid))
  | .packet .stopReply | .packet .continue | .packet .detach | .packet .kill | .packet .readRegisters
  | .packet .writeRegisters | .packet (.setThread _ _) | .packet .firstThreadInfo | .packet .step
  | .packet (.threadAlive _) | .packet (.vContStep _ _) | .packet .other | .track _ | .fault _ _
  | .debugEvent _ _ | .reconnect => isTrue trivial

/-- A thread is stepping over a breakpoint only while the program runs, and is in the map. -/
structure Inv (t : TargetThreads) : Prop where
  pos : ∀ id, t.Live id → id ≠ 0
  stepOver : t.stepOverBreakpointThread ≠ 0 → t.Live t.stepOverBreakpointThread
  suspended : t.allThreadsSuspended = true → t.stepOverBreakpointThread = 0
  commands : t.processingCommands = true → t.allThreadsSuspended = true

/-- A step that follows no bad pointer or iterator, with what holds afterwards. -/
def Sound (P : TargetThreads → Prop) : Except TargetRefusal TargetThreads → Prop
  | .ok t => P t
  | .error .noThread | .error .badIterator => False
  | .error _ => True

/-- Nothing but the entries of `threads_` has changed, and the keys are the same. -/
def Updated (t t' : TargetThreads) : Prop :=
  ∃ threads, t' = { t with threads } ∧ threads.map Prod.fst = t.threads.map Prod.fst

section

variable {t t' : TargetThreads} {r : Except TargetRefusal TargetThreads} {P Q : TargetThreads → Prop}
  {f : TargetThreads → Except TargetRefusal TargetThreads} {g : TargetThreads → TargetThreads}
  {id : ℕ}

theorem Sound.bind (h : Sound P r) (hf : ∀ t, P t → Sound Q (f t)) : Sound Q (r.bind f) := by
  cases r with
  | ok t => exact hf t h
  | error e => cases e <;> trivial

theorem Sound.map (h : Sound P r) (hg : ∀ t, P t → Q (g t)) : Sound Q (r.map g) := by
  cases r with
  | ok t => exact hg t h
  | error e => cases e <;> trivial

theorem Updated.live_iff (h : Updated t t') (id : ℕ) : t'.Live id ↔ t.Live id := by
  obtain ⟨threads, rfl, hkeys⟩ := h
  unfold Live
  rw [hkeys]

theorem Updated.inv (h : Updated t t') (hinv : t.Inv) : t'.Inv := by
  have hlive := h.live_iff
  obtain ⟨threads, rfl, -⟩ := h
  exact ⟨fun id hid => hinv.pos id ((hlive id).1 hid), fun hstep => (hlive _).2 (hinv.stepOver hstep),
    hinv.suspended, hinv.commands⟩

theorem sound_updateThread (h : t.Live id) (f : DebugThread → DebugThread) :
    Sound (Updated t) (t.updateThread id f) := by
  unfold updateThread
  rw [if_pos h]
  refine ⟨_, rfl, ?_⟩
  rw [List.map_map]
  refine List.map_congr_left fun p _ => ?_
  simp only [Function.comp]
  split_ifs with hp
  · exact hp.symm
  · rfl

theorem live_of_find {thread : DebugThread} (h : t.find id = some thread) : t.Live id := by
  obtain ⟨p, hp, -⟩ := Option.map_eq_some_iff.1 h
  obtain rfl : p.1 = id := by simpa using List.find?_some hp
  exact List.mem_map_of_mem (List.mem_of_find?_eq_some hp)

theorem find_of_live (h : t.Live id) : ∃ thread, t.find id = some thread := by
  obtain ⟨p, hp, rfl⟩ := List.mem_map.1 h
  cases hfind : t.threads.find? (·.1 = p.1) with
  | none =>
    have := List.find?_eq_none.1 hfind p hp
    simp at this
  | some q => exact ⟨q.2, by rw [find, hfind, Option.map_some]⟩

theorem updated_suspendAllThreads (t : TargetThreads) : Updated t t.suspendAllThreads := by
  refine ⟨_, rfl, ?_⟩
  rw [List.map_map]
  rfl

theorem sound_reportStop (hpos : ∀ id, t.Live id → id ≠ 0) (hstep : t.stepOverBreakpointThread = 0)
    (hsig : t.sigThread ≠ 0 → t.Live t.sigThread) (removed : Bool) :
    Sound Inv (t.reportStop removed) := by
  have hstopped : ∀ t', Updated t t' → ∀ active,
      Inv { t' with initialBreakpointActive := active, allThreadsSuspended := true } := by
    intro t' hupdated active
    have hlive := hupdated.live_iff
    obtain ⟨threads, rfl, -⟩ := hupdated
    exact ⟨fun id hid => hpos id ((hlive id).1 hid), fun hne => absurd hstep hne, fun _ => hstep,
      fun _ => rfl⟩
  unfold reportStop
  split_ifs with hsignal
  · refine (sound_updateThread (hsig hsignal) _).bind fun t' hupdated => ?_
    split_ifs
    · trivial
    · exact hstopped t' hupdated false
  · exact hstopped t ⟨t.threads, rfl, rfl⟩ t.initialBreakpointActive

theorem sound_unqueueFaultedThread (h : t.Live id) (thread : DebugThread) :
    Sound (fun t' => ∃ n, Updated { t with faultedThreadCount := n } t')
      (t.unqueueFaultedThread id thread) := by
  unfold unqueueFaultedThread
  split_ifs
  · trivial
  · refine (sound_updateThread h _).map fun t' hupdated => ?_
    obtain ⟨threads, rfl, hkeys⟩ := hupdated
    exact ⟨_, threads, rfl, hkeys⟩

theorem Inv.processStepOver (h : t.Inv) (hstep : t.stepOverBreakpointThread ≠ 0) (removed : Bool) :
    Sound Inv (t.processStepOver removed) := by
  have hlive := h.stepOver hstep
  obtain ⟨thread, hfind⟩ := find_of_live hlive
  rw [TargetThreads.processStepOver, hfind]
  dsimp only
  split_ifs
  · exact h
  · refine (sound_unqueueFaultedThread hlive _).bind fun t' ⟨n, hupdated⟩ => ?_
    have hsame := hupdated.live_iff
    obtain ⟨threads, rfl, -⟩ := hupdated
    refine sound_reportStop ?_ rfl ?_ removed
    · exact fun id hid => h.pos id ((hsame id).1 hid)
    · exact fun _ => (hsame t.stepOverBreakpointThread).2 hlive

theorem Inv.processFault (h : t.Inv) (hstep : t.stepOverBreakpointThread = 0) (removed : Bool) :
    Sound Inv (t.processFault removed) := by
  unfold TargetThreads.processFault
  cases hfind : t.threads.find? (·.2.faultSignal ≠ 0) with
  | none => trivial
  | some p =>
    have hlive : t.Live p.1 := List.mem_map_of_mem (List.mem_of_find?_eq_some hfind)
    refine (sound_unqueueFaultedThread hlive _).bind fun t' ⟨n, hupdated⟩ => ?_
    have hsame := hupdated.live_iff
    obtain ⟨threads, rfl, -⟩ := hupdated
    refine sound_reportStop ?_ ?_ ?_ removed
    · exact fun id hid => h.pos id ((hsame id).1 hid)
    · exact hstep
    · exact fun _ => (hsame p.1).2 hlive

theorem Inv.processDebugEvent (h : t.Inv) (dataAvailable removed : Bool) :
    Sound Inv (t.processDebugEvent dataAvailable removed) := by
  unfold TargetThreads.processDebugEvent
  have hupdated := updated_suspendAllThreads t
  split_ifs with hsuspended hstep hfault hidle
  · exact h
  · exact h.processStepOver hstep removed
  · exact (hupdated.inv h).processFault (not_not.1 hstep) removed
  · exact h
  · have hlive := hupdated.live_iff
    refine sound_reportStop ?_ ?_ ?_ removed
    · exact fun id hid => h.pos id ((hlive id).1 hid)
    · exact not_not.1 hstep
    · exact fun hsig => absurd rfl hsig

theorem sound_resume (hpos : ∀ id, t.Live id → id ≠ 0)
    (hstep : t.stepOverBreakpointThread ≠ 0 → t.Live t.stepOverBreakpointThread) :
    Sound Inv t.resume := by
  unfold resume
  rw [if_neg fun hbad => hbad.2 (hstep hbad.1)]
  exact ⟨hpos, hstep, nofun, nofun⟩

theorem Inv.resume (h : t.Inv) : Sound Inv t.resume := sound_resume h.pos h.stepOver

theorem Inv.getNextThreadId (h : t.Inv) (hitr : t.threadItr ≠ .invalid) :
    Sound Inv t.getNextThreadId := by
  unfold TargetThreads.getNextThreadId
  split
  · next hinvalid => exact absurd hinvalid hitr
  · exact h
  · exact ⟨h.pos, h.stepOver, h.suspended, h.commands⟩

theorem Inv.getFirstThreadId (h : t.Inv) : Sound Inv t.getFirstThreadId := by
  unfold TargetThreads.getFirstThreadId
  refine Inv.getNextThreadId ⟨h.pos, h.stepOver, h.suspended, h.commands⟩ ?_
  dsimp only
  split <;> exact nofun

theorem Inv.processPacket (h : t.Inv) {command : ThreadCommand} (hsafe : t.Safe (.packet command)) :
    Sound Inv (t.processPacket command) := by
  have hupdate : ∀ id (f : DebugThread → DebugThread), t.Live id →
      Sound Inv ((t.updateThread id f).bind TargetThreads.resume) := fun id f hid =>
    (sound_updateThread hid f).bind fun t' hupdated => (hupdated.inv h).resume
  cases command with
  | stopReply | readRegisters | writeRegisters | threadAlive | other => exact h
  | «continue» | detach => exact h.resume
  | kill => trivial
  | setThread isG id =>
    rw [TargetThreads.processPacket]
    split
    · exact h
    · dsimp only
      split_ifs
      · exact ⟨h.pos, h.stepOver, h.suspended, h.commands⟩
      · exact h
  | firstThreadInfo => exact h.getFirstThreadId
  | nextThreadInfo => exact h.getNextThreadId hsafe
  | step =>
    unfold TargetThreads.processPacket
    dsimp only
    split
    · next id thread hthreads =>
      refine hupdate id _ ?_
      simp [Live, hthreads]
    · exact h.resume
  | vContStep id rest =>
    unfold TargetThreads.processPacket
    dsimp only
    by_cases hid : t.Live id
    · rw [if_pos hid]
      cases rest with
      | nothing =>
        dsimp only
        split_ifs with hsig
        · exact h
        · have hupdate' := @sound_updateThread { t with stepOverBreakpointThread := t.sigThread } id
          refine Sound.bind (hupdate' hid _) fun t' hupdated => ?_
          have hlive := hupdated.live_iff
          obtain ⟨threads, rfl, -⟩ := hupdated
          refine sound_resume ?_ ?_
          · exact fun id hid => h.pos id ((hlive id).1 hid)
          · exact fun _ => (hlive t.sigThread).2 (not_not.1 hsig ▸ hid)
      | continueOthers => exact hupdate id _ hid
      | unsupported => exact h
    · rw [if_neg hid]
      exact h
  | vContContinue id =>
    rw [TargetThreads.processPacket]
    split_ifs with hsig
    · exact sound_resume h.pos fun hne => hsig ▸ hsafe hsig (hsig ▸ hne)
    · exact h

theorem Inv.step (h : t.Inv) {a : TargetAction} (hsafe : t.Safe a) : Sound Inv (t.step a) := by
  cases a with
  | track threadNum =>
    rw [TargetThreads.step]
    split_ifs
    · trivial
    · have hlive : ∀ id, id ∈ (t.threads.orderedInsert (fun p q => p.1 ≤ q.1)
          (threadNum + 1, ⟨0, 0, false⟩)).map Prod.fst ↔ id = threadNum + 1 ∨ t.Live id := by
        intro id
        rw [((List.perm_orderedInsert _ _ _).map Prod.fst).mem_iff, List.map_cons, List.mem_cons]
        rfl
      refine ⟨fun id hid => ?_, fun hne => (hlive _).2 (Or.inr (h.stepOver hne)), h.suspended,
        h.commands⟩
      rcases (hlive id).1 hid with rfl | hid
      · exact Nat.succ_ne_zero threadNum
      · exact h.pos id hid
  | ignore threadNum =>
    rw [TargetThreads.step]
    split
    · trivial
    · split
      · trivial
      · split
        · trivial
        · have hlive : ∀ id, id ∈ (t.threads.filter (·.1 ≠ threadNum + 1)).map Prod.fst ↔
              t.Live id ∧ id ≠ threadNum + 1 := by
            intro id
            unfold Live
            simp
          exact ⟨fun id hid => h.pos id ((hlive id).1 hid).1,
            fun hne => (hlive _).2 ⟨h.stepOver hne, hsafe⟩, h.suspended, h.commands⟩
  | fault id signal =>
    rw [TargetThreads.step]
    split
    · trivial
    · next thread hfind =>
      split_ifs
      · trivial
      · refine (sound_updateThread (live_of_find hfind) _).map fun t' hupdated => ?_
        have hinv := hupdated.inv h
        exact ⟨hinv.pos, hinv.stepOver, hinv.suspended, hinv.commands⟩
  | debugEvent dataAvailable removed =>
    rw [TargetThreads.step]
    split_ifs
    · trivial
    · exact (h.processDebugEvent dataAvailable removed).map fun t' hinv =>
        ⟨hinv.pos, hinv.stepOver, hinv.suspended, fun hsuspended => hsuspended⟩
  | packet command =>
    rw [TargetThreads.step]
    split_ifs
    · exact h.processPacket hsafe
    · trivial
  | reconnect =>
    rw [TargetThreads.step]
    split_ifs
    · exact ⟨h.pos, h.stepOver, h.suspended, nofun⟩
    · trivial

theorem inv_initial : Inv initial := ⟨nofun, nofun, nofun, nofun⟩

/-- In a run whose steps meet the conditions no pointer to a thread that is gone is followed: the thread
that steps over a breakpoint is in the map. -/
theorem live_of_run {run : List TargetAction} (hsafe : Guarded step Safe initial run)
    (hrun : run.foldlM step initial = .ok t) :
    (t.stepOverBreakpointThread ≠ 0 → t.Live t.stepOverBreakpointThread) ∧
      ∀ a, t.Safe a → t.step a ≠ .error .noThread ∧ t.step a ≠ .error .badIterator := by
  have hinv : t.Inv := hsafe.invariant (fun s a s' hs ha hstep => by
    have hsound := hs.step ha
    rwa [hstep] at hsound) inv_initial hrun
  refine ⟨hinv.stepOver, fun a ha => ?_⟩
  have hsound := hinv.step ha
  refine ⟨fun hstep => ?_, fun hstep => ?_⟩
  · rw [hstep] at hsound
    exact hsound
  · rw [hstep] at hsound
    exact hsound

end

/-- A thread reaches the initial breakpoint, and the debugger continues it alone. -/
def smallRun : List TargetAction :=
  [.track 0, .track 1, .fault 1 11, .debugEvent false true, .packet (.vContContinue 1)]

/-- The other thread exits, and the one that was continued stops again. -/
theorem live_of_run_small : ∃ t, (smallRun ++ [TargetAction.ignore 1, .fault 1 5]).foldlM step initial =
      .ok t ∧ t.stepOverBreakpointThread = 1 ∧ t.Live 1 ∧
    t.step (.debugEvent false true) ≠ .error .noThread := by
  have hsafe : Guarded step Safe initial (smallRun ++ [TargetAction.ignore 1, .fault 1 5]) :=
    .of_check (by decide +kernel)
  have hlive := live_of_run hsafe rfl
  exact ⟨_, rfl, rfl, hlive.1 (Nat.succ_ne_zero 0), (hlive.2 (.debugEvent false true) trivial).1⟩

/-- The thread that was continued alone exits: the stub looks it up to see whether it has faulted. -/
theorem not_live_exit : ¬ ∀ (run : List TargetAction) t, run.foldlM step initial = .ok t →
    ∀ a, t.step a ≠ .error .noThread := by
  intro hlive
  exact hlive (smallRun ++ [.ignore 0]) _ rfl (.debugEvent false true) rfl

end TargetThreads

end SandboxingNaCl
