import SandboxingNaCl.DynLdr.CallbackSyscall
import SandboxingNaCl.Lib.Runs

/-!
# Nested calls and callbacks

One thread of the host process calls functions of sandboxes (`preFunctionCall`, `invokeFunctionCall`);
the sandboxed code calls back into the host (`NaClSysCallback`), which may call into a sandbox again,
and leaves through `NaClSysExitSandbox`, a `longjmp` to the buffer on top of the jump-buffer stack.  The
sandboxed code is adversarial: it issues any system call at any time, with any registers.  `S` is the
type of the sandboxes; each has one `NaClAppThread` for this thread, which `getThreadData` finds in the
thread map.  The first use of a sandbox on a thread, which makes that record, comes before the runs here.
-/

namespace SandboxingNaCl

open MachineInt

/-- The fields of `NaClThreadContext` that calls and system calls save and restore. -/
structure ThreadContext where
  rbx : ℕ
  rbp : ℕ
  rsp : ℕ
  r12 : ℕ
  r13 : ℕ
  r14 : ℕ
  r15 : ℕ
  progCtr : ℕ
  newProgCtr : ℕ
  sysret : ℕ

/-- `NACL_APP_THREAD_TRUSTED` and `NACL_APP_THREAD_UNTRUSTED`. -/
inductive SuspendState
  | trusted
  | untrusted
deriving DecidableEq

/-- A `NaClAppThread`.  A jump buffer is the height of the host stack at its `setjmp`. -/
structure AppThread where
  user : ThreadContext
  jumpBufferStack : List ℕ
  suspendState : SuspendState

def stackArrSize : ℕ := 128

/-- `nacl_current_thread`, and the records that `threadDataMap` has for this thread. -/
structure Snapshot (S : Type*) where
  tls : Option S
  threads : S → Option AppThread

/-- A frame of the host stack, with the locals of the function.  `before` is what was in force when the
function was called; the code keeps no such copy. -/
inductive Frame (S : Type*)
  /-- `invokeFunctionCall`. -/
  | invocation (s : S) (savedStackPtr : ℕ) (prevSandboxSavedInTls : Option S)
      (before : Snapshot S)
  /-- `NaClSysCallback`, with the host function above it. -/
  | callback (natp : S) (saved : ThreadContext) (before : Snapshot S)

/-- The state of the thread; `running` is the sandbox whose code it runs, if any. -/
structure CallState (S : Type*) where
  current : Snapshot S
  frames : List (Frame S)
  running : Option S

/-- Why the thread stops: a fatal error, a memory fault, a jump to a dead frame, or a step that it cannot
take. -/
inductive CallStop
  | fatal
  | fault
  | deadFrame
  | notEnabled

/-- The registers of sandboxed code at a system call. -/
structure SyscallRegs where
  rbx : ℕ
  rbp : ℕ
  rsp : ℕ
  r12 : ℕ
  r13 : ℕ
  r14 : ℕ
  userRet : ℕ

inductive Syscall
  | exitSandbox
  | callback (callbackSlotNumber : ℕ)
  | other (sysret : ℕ)

inductive CallAction (S : Type*)
  | invoke (s : S) (functionPtr paramsSize arraysSize : ℕ)
  | syscall (regs : SyscallRegs) (call : Syscall)
  | returnCallback (ret : ℕ)

/-- The stack pointer is in the sandbox, above the return addresses that a call has just pushed. -/
def StackPtrOk (as : AddressSpace) (rsp : ℕ) : Prop :=
  as.memStart < rsp ∧ rsp < as.memStart + 2 ^ as.addrBits

instance (as : AddressSpace) (rsp : ℕ) : Decidable (StackPtrOk as rsp) :=
  inferInstanceAs (Decidable (_ ∧ _))

/-! ## The functions -/

/-- `ROUND_DOWN_TO_POW2(val, 16)`. -/
def roundDownTo16 (val : ℕ) : ℕ := val / 16 * 16

/-- `ROUND_UP_TO_POW2(val, 16)`. -/
def roundUpTo16 (val : ℕ) : ℕ := uadd val 15 / 16 * 16

/-- `preFunctionCall`: the saved stack pointer and the one for the call, which leaves room for arrays,
parameters, 128 bytes and the return address. -/
def preFunctionCall (as : AddressSpace) (rsp paramsSize arraysSize : ℕ) : Option (ℕ × ℕ) := do
  let savedStackPtr ← getSandboxedAddress as rsp
  let stackPtr ← getUnsandboxedAddress as (roundDownTo16 savedStackPtr)
  let arrayLocation := usub stackPtr (roundUpTo16 arraysSize)
  let forParameters := usub arrayLocation (uadd (roundUpTo16 (uadd paramsSize 128)) 8)
  let stackPtr ← getSandboxedAddress as forParameters
  let stackPtr ← getUnsandboxedAddress as stackPtr
  return (savedStackPtr, stackPtr)

variable {S : Type*} [DecidableEq S] (space : S → AddressSpace) (slots : S → CallbackSlots)

namespace Snapshot

def setThread (c : Snapshot S) (s : S) (th : AppThread) : Snapshot S :=
  { c with threads := Function.update c.threads s (some th) }

end Snapshot

/-- `invokeFunctionCall` after `preFunctionCall`, up to the jump into the sandbox. -/
def invokeFunctionCall (st : CallState S) (s : S) (functionPtr paramsSize arraysSize : ℕ) :
    Except CallStop (CallState S) :=
  match st.running, st.current.threads s with
  | none, some th =>
    match preFunctionCall (space s) th.user.rsp paramsSize arraysSize with
    | none => .error .fatal
    | some (savedStackPtr, stackPtr) =>
      if th.suspendState ≠ .trusted ∨ th.jumpBufferStack.length = stackArrSize then
        .error .fatal
      else
        .ok {
          current := { st.current.setThread s {
            user := { th.user with
              rsp := stackPtr, newProgCtr := functionPtr, sysret := 0,
              r15 := (space s).memStart }
            jumpBufferStack := st.frames.length :: th.jumpBufferStack
            suspendState := .untrusted } with tls := some s }
          frames := .invocation s savedStackPtr st.current.tls st.current :: st.frames
          running := some s }
  | _, _ => .error .notEnabled

/-- `NaClSyscallSeg` and `NaClSyscallCSegHook` up to the handler: the registers go to the current
thread's context. -/
def syscallEntry (st : CallState S) (regs : SyscallRegs) : Except CallStop (S × AppThread) :=
  match st.current.tls with
  | none => .error .fault
  | some natp =>
    match st.current.threads natp with
    | none => .error .fault
    | some th =>
      if th.suspendState = .untrusted then
        .ok (natp, { th with
          user := { th.user with
            rbx := regs.rbx, rbp := regs.rbp, rsp := regs.rsp, r12 := regs.r12,
            r13 := regs.r13, r14 := regs.r14, newProgCtr := regs.userRet }
          suspendState := .trusted })
      else
        .error .fatal

/-- The frames that a `longjmp` leaves: down to the one that called `setjmp`. -/
def longjmp (frames : List (Frame S)) (jumpBuffer : ℕ) : List (Frame S) :=
  if jumpBuffer < frames.length then frames.drop (frames.length - (jumpBuffer + 1)) else []

/-- `invokeFunctionCall` after the `longjmp`. -/
def finishFunctionCall (current : Snapshot S) : List (Frame S) → Except CallStop (CallState S)
  | .invocation s savedStackPtr prevSandboxSavedInTls _ :: rest =>
    match current.threads s, getUnsandboxedAddress (space s) savedStackPtr with
    | some th, some rsp => .ok {
        current := { current.setThread s { th with user := { th.user with rsp := rsp } } with
          tls := prevSandboxSavedInTls }
        frames := rest
        running := none }
    | _, _ => .error .fatal
  | _ => .error .deadFrame

def naclSysExitSandbox (st : CallState S) (natp : S) (th : AppThread) :
    Except CallStop (CallState S) :=
  match th.jumpBufferStack with
  | [] => .error .fatal
  | jumpBuffer :: stack =>
    finishFunctionCall space (st.current.setThread natp { th with jumpBufferStack := stack })
      (longjmp st.frames jumpBuffer)

/-- `NaClSysCallback` up to the call of the host function. -/
def naclSysCallbackEnter (st : CallState S) (natp : S) (th : AppThread) (callbackSlotNumber : ℕ) :
    Except CallStop (CallState S) :=
  if callbackSlotNumber < callbackSlotsAvailable ∧
      (slots natp).callbackSlot callbackSlotNumber ≠ 0 then
    let current := st.current.setThread natp th
    .ok { current, frames := .callback natp th.user current :: st.frames, running := none }
  else
    .error .fatal

/-- The return of any other system call, by `NaClSwitch` to the current thread's context.  The handlers
of system calls and `sysret` in `NaClSyscallCSegHook` have 32 bits. -/
def syscallReturn (st : CallState S) (natp : S) (th : AppThread) (sysret : ℕ) : CallState S :=
  { st with
    current := st.current.setThread natp
      { th with user := { th.user with sysret := sysret % 2 ^ 32 }, suspendState := .untrusted }
    running := some natp }

/-- `NaClSysCallback` after the host function, and the return to the sandboxed code. -/
def naclSysCallbackReturn (st : CallState S) (ret : ℕ) : Except CallStop (CallState S) :=
  match st.running, st.frames with
  | none, .callback natp saved _ :: rest =>
    match st.current.threads natp with
    | none => .error .fault
    | some th =>
      if th.suspendState = .trusted then
        .ok (syscallReturn { st with frames := rest } natp { th with user := saved } ret)
      else
        .error .fatal
  | _, _ => .error .notEnabled

/-- The handler of a system call. -/
def syscallHandler (st : CallState S) (natp : S) (th : AppThread) :
    Syscall → Except CallStop (CallState S)
  | .exitSandbox => naclSysExitSandbox space st natp th
  | .callback callbackSlotNumber => naclSysCallbackEnter slots st natp th callbackSlotNumber
  | .other sysret => .ok (syscallReturn st natp th sysret)

/-- One step of the thread. -/
def callStep (st : CallState S) : CallAction S → Except CallStop (CallState S)
  | .invoke s functionPtr paramsSize arraysSize =>
    invokeFunctionCall space st s functionPtr paramsSize arraysSize
  | .syscall regs call =>
    match st.running with
    | none => .error .notEnabled
    | some s =>
      if StackPtrOk (space s) regs.rsp then do
        let (natp, th) ← syscallEntry st regs
        syscallHandler space slots st natp th call
      else
        .error .fault
  | .returnCallback ret => naclSysCallbackReturn st ret

/-! ## What is restored -/

/-- What an invocation must leave as it was: the stack pointer, the jump buffers, and whether the
thread is in trusted code. -/
def AppThread.view (th : AppThread) : ℕ × List ℕ × SuspendState :=
  (th.user.rsp, th.jumpBufferStack, th.suspendState)

def ThreadContext.calleeSaved (user : ThreadContext) : ℕ × ℕ × ℕ × ℕ × ℕ × ℕ :=
  (user.rbx, user.rbp, user.r12, user.r13, user.r14, user.r15)

/-- The thread is back in what was in force before. -/
structure Restored (before after : Snapshot S) : Prop where
  tls : after.tls = before.tls
  threads : ∀ s, (after.threads s).map AppThread.view = (before.threads s).map AppThread.view

/-- An exit of the sandboxed code returns to the innermost invocation, which is the top frame, and
restores what was in force before it. -/
def ExitReturns (st : CallState S) : Prop :=
  ∀ s regs, st.running = some s → StackPtrOk (space s) regs.rsp →
    ∃ savedStackPtr prev before rest st',
      st.frames = .invocation s savedStackPtr prev before :: rest ∧
      callStep space slots st (.syscall regs .exitSandbox) = .ok st' ∧
      st'.frames = rest ∧ st'.running = none ∧ Restored before st'.current

/-- When the host function of a callback returns, the sandboxed code that called it goes on with the
context it had at the call. -/
def CallbackReturns (st : CallState S) : Prop :=
  ∀ ret st', callStep space slots st (.returnCallback ret) = .ok st' →
    ∃ natp saved before rest,
      st.frames = .callback natp saved before :: rest ∧ st'.frames = rest ∧
      st'.running = some natp ∧ st'.current.tls = before.tls ∧
      (st'.current.threads natp).map AppThread.user =
        (before.threads natp).map (fun th => { th.user with sysret := ret % 2 ^ 32 }) ∧
      ∀ s ≠ natp,
        (st'.current.threads s).map AppThread.view = (before.threads s).map AppThread.view

/-! ## The invariant -/

def HostReady (c : Snapshot S) : Prop :=
  ∀ s th, c.threads s = some th → StackPtrOk (space s) th.user.rsp ∧ th.suspendState = .trusted

/-- The frames fit what is in force: each frame's locals are what was in force when it was pushed, and
below it the state of that moment fits the rest. -/
def Linked : List (Frame S) → Option S → Snapshot S → Prop
  | [], running, c =>
    running = none ∧ HostReady space c ∧ ∀ s th, c.threads s = some th → th.jumpBufferStack = []
  | .invocation s savedStackPtr prev before :: rest, running, c =>
    running = some s ∧ c.tls = some s ∧ prev = before.tls ∧ Linked rest none before ∧
    (∀ s' ≠ s, (c.threads s').map AppThread.view = (before.threads s').map AppThread.view) ∧
    ∃ th₀ th, before.threads s = some th₀ ∧ c.threads s = some th ∧
      th.jumpBufferStack = rest.length :: th₀.jumpBufferStack ∧
      th₀.suspendState = .trusted ∧ th.suspendState = .untrusted ∧
      getUnsandboxedAddress (space s) savedStackPtr = some th₀.user.rsp
  | .callback natp saved before :: rest, running, c =>
    running = none ∧ c.tls = some natp ∧ before.tls = some natp ∧ HostReady space c ∧
    (∀ s, (c.threads s).map AppThread.view = (before.threads s).map AppThread.view) ∧
    ∃ th₀, before.threads natp = some th₀ ∧ saved = th₀.user ∧
      Linked rest (some natp) (before.setThread natp { th₀ with suspendState := .untrusted })

def CallState.Linked (st : CallState S) : Prop :=
  SandboxingNaCl.Linked space st.frames st.running st.current

/-- No frame is on the stack, and every sandbox is ready. -/
structure CallState.Idle (st : CallState S) : Prop where
  frames : st.frames = []
  running : st.running = none
  ready : HostReady space st.current
  jumpBufferStack : ∀ s th, st.current.threads s = some th → th.jumpBufferStack = []

variable {space slots} {c c' : Snapshot S} {s : S} {st st' : CallState S}

theorem CallState.Idle.linked (h : st.Idle space) : st.Linked space := by
  rw [CallState.Linked, h.frames]
  exact ⟨h.running, h.ready, h.jumpBufferStack⟩

theorem getUnsandboxedAddress_getSandboxedAddress {as : AddressSpace} {rsp : ℕ}
    (h : StackPtrOk as rsp) {saved : ℕ} (hs : getSandboxedAddress as rsp = some saved) :
    getUnsandboxedAddress as saved = some rsp := by
  obtain ⟨hlo, hhi⟩ := h
  have hlt := as.lt
  have hpow : 2 ^ as.addrBits ≤ 2 ^ 32 := Nat.pow_le_pow_right (by decide) as.addrBits_le
  have hsaved : saved = rsp - as.memStart := by
    rw [getSandboxedAddress, if_neg (by omega), naclSysToUser, if_neg (by omega)] at hs
    exact (Option.some.inj hs).symm
  have hlow : saved &&& 0xFFFFFFFF = saved :=
    (Nat.and_two_pow_sub_one_eq_mod saved 32).trans (Nat.mod_eq_of_lt (by omega))
  rw [getUnsandboxedAddress, if_neg (by omega), hlow, naclUserToSys, if_neg (by omega),
    uadd_eq (by omega)]
  exact congrArg some (by omega)

omit [DecidableEq S] in
theorem HostReady.congr (h : HostReady space c)
    (hview : ∀ s, (c'.threads s).map AppThread.view = (c.threads s).map AppThread.view) :
    HostReady space c' := by
  intro s th hth
  have hs := hview s
  rw [hth] at hs
  obtain ⟨th₀, hth₀, hv⟩ := Option.map_eq_some_iff.1 hs.symm
  obtain ⟨hrsp, hsusp⟩ := h s th₀ hth₀
  simp only [AppThread.view, Prod.mk.injEq] at hv
  exact ⟨hv.1 ▸ hrsp, hv.2.2 ▸ hsusp⟩

theorem Linked.hostReady {frames : List (Frame S)} (h : Linked space frames none c) :
    HostReady space c := by
  cases frames with
  | nil => exact h.2.1
  | cons frame rest =>
    cases frame with
    | invocation => cases h.1
    | callback => exact h.2.2.2.1

theorem Linked.congr_host {frames : List (Frame S)} (h : Linked space frames none c)
    (htls : c'.tls = c.tls)
    (hview : ∀ s, (c'.threads s).map AppThread.view = (c.threads s).map AppThread.view) :
    Linked space frames none c' := by
  have hready := h.hostReady.congr hview
  cases frames with
  | nil =>
    refine ⟨rfl, hready, fun s th hth => ?_⟩
    have hs := hview s
    rw [hth] at hs
    obtain ⟨th₀, hth₀, hv⟩ := Option.map_eq_some_iff.1 hs.symm
    exact (congrArg (fun v => v.2.1) hv).symm.trans (h.2.2 s th₀ hth₀)
  | cons frame rest =>
    cases frame with
    | invocation => cases h.1
    | callback natp saved before =>
      obtain ⟨-, hcur, hbefore, -, hsame, hrest⟩ := h
      exact ⟨rfl, htls.trans hcur, hbefore, hready, fun s => (hview s).trans (hsame s), hrest⟩

theorem Linked.congr_running {frames : List (Frame S)} (h : Linked space frames (some s) c)
    (htls : c'.tls = c.tls)
    (hview : ∀ s' ≠ s, (c'.threads s').map AppThread.view = (c.threads s').map AppThread.view)
    {th th' : AppThread} (hth : c.threads s = some th) (hth' : c'.threads s = some th')
    (hjump : th'.jumpBufferStack = th.jumpBufferStack) (hsusp : th'.suspendState = .untrusted) :
    Linked space frames (some s) c' := by
  cases frames with
  | nil => cases h.1
  | cons frame rest =>
    cases frame with
    | callback => cases h.1
    | invocation s₀ saved prev before =>
      obtain ⟨hs, hcur, hprev, hrest, hsame, th₀, th₁, hbefore, hth₁, hj, hs₀, -, hsp⟩ := h
      cases hs
      rw [hth] at hth₁
      cases hth₁
      exact ⟨rfl, htls.trans hcur, hprev, hrest,
        fun s' hne => (hview s' hne).trans (hsame s' hne),
        th₀, th', hbefore, hth', hjump.trans hj, hs₀, hsusp, hsp⟩

theorem Linked.running {frames : List (Frame S)} (h : Linked space frames (some s) c) :
    ∃ saved prev before rest th₀ th,
      frames = .invocation s saved prev before :: rest ∧ c.tls = some s ∧ prev = before.tls ∧
      Linked space rest none before ∧
      (∀ s' ≠ s, (c.threads s').map AppThread.view = (before.threads s').map AppThread.view) ∧
      before.threads s = some th₀ ∧ c.threads s = some th ∧
      th.jumpBufferStack = rest.length :: th₀.jumpBufferStack ∧
      th₀.suspendState = .trusted ∧ th.suspendState = .untrusted ∧
      getUnsandboxedAddress (space s) saved = some th₀.user.rsp := by
  cases frames with
  | nil => cases h.1
  | cons frame rest =>
    cases frame with
    | callback => cases h.1
    | invocation s₀ saved prev before =>
      obtain ⟨hs, hcur, hprev, hrest, hsame, th₀, th, hfacts⟩ := h
      cases hs
      exact ⟨saved, prev, before, rest, th₀, th, rfl, hcur, hprev, hrest, hsame, hfacts⟩

omit [DecidableEq S] in
theorem syscallEntry_eq {th : AppThread} (regs : SyscallRegs) (htls : st.current.tls = some s)
    (hth : st.current.threads s = some th) (hsusp : th.suspendState = .untrusted) :
    ∃ th', syscallEntry st regs = .ok (s, th') ∧ th'.jumpBufferStack = th.jumpBufferStack ∧
      th'.user.rsp = regs.rsp ∧ th'.suspendState = .trusted := by
  unfold syscallEntry
  simp only [htls, hth, if_pos hsusp]
  exact ⟨_, rfl, rfl, rfl, rfl⟩

theorem setThread_self (c : Snapshot S) (s : S) (th : AppThread) :
    (c.setThread s th).threads s = some th := Function.update_self ..

theorem setThread_of_ne (c : Snapshot S) {s s' : S} (th : AppThread) (h : s' ≠ s) :
    (c.setThread s th).threads s' = c.threads s' := Function.update_of_ne h ..

theorem view_of_ne (c : Snapshot S) {s s' : S} (th : AppThread) (h : s' ≠ s) :
    ((c.setThread s th).threads s').map AppThread.view = (c.threads s').map AppThread.view := by
  rw [setThread_of_ne c th h]

theorem view_setThread {th : AppThread}
    (hself : (c'.threads s).map AppThread.view = some th.view)
    (hothers : ∀ s' ≠ s, (c.threads s').map AppThread.view = (c'.threads s').map AppThread.view)
    (s' : S) : ((c.setThread s th).threads s').map AppThread.view =
      (c'.threads s').map AppThread.view := by
  by_cases hne : s' = s
  · subst hne
    rw [setThread_self, hself]
    rfl
  · rw [view_of_ne _ _ hne, hothers s' hne]

omit [DecidableEq S] in
theorem longjmp_length (frame : Frame S) (rest : List (Frame S)) :
    longjmp (frame :: rest) rest.length = frame :: rest := by
  have hlt : rest.length < (frame :: rest).length := Nat.lt_succ_self rest.length
  rw [longjmp, if_pos hlt, List.length_cons, Nat.sub_self, List.drop_zero]

theorem finishFunctionCall_eq {saved rsp : ℕ} {prev : Option S} {before : Snapshot S}
    {rest : List (Frame S)} {th : AppThread} (hth : c.threads s = some th)
    (hrsp : getUnsandboxedAddress (space s) saved = some rsp) :
    finishFunctionCall space c (.invocation s saved prev before :: rest) = .ok {
      current := { c.setThread s { th with user := { th.user with rsp := rsp } } with tls := prev }
      frames := rest
      running := none } := by
  simp only [finishFunctionCall, hth, hrsp]

theorem CallState.Linked.exit (h : st.Linked space) (hrun : st.running = some s)
    {th th' : AppThread} (hth : st.current.threads s = some th)
    (hjump : th'.jumpBufferStack = th.jumpBufferStack) (hsusp : th'.suspendState = .trusted) :
    ∃ saved prev before rest st',
      st.frames = .invocation s saved prev before :: rest ∧
      naclSysExitSandbox space st s th' = .ok st' ∧
      st'.frames = rest ∧ st'.running = none ∧ Restored before st'.current ∧
      st'.Linked space := by
  rw [CallState.Linked, hrun] at h
  obtain ⟨saved, prev, before, rest, th₀, th₁, hframes, -, hprev, hrest, hsame, hbefore, hth₁, hj,
    hs₀, -, hsp⟩ := h.running
  rw [hth] at hth₁
  cases hth₁
  have hexit : naclSysExitSandbox space st s th' = finishFunctionCall space
      (st.current.setThread s { th' with jumpBufferStack := th₀.jumpBufferStack }) st.frames := by
    simp only [naclSysExitSandbox, hjump, hj]
    rw [hframes, longjmp_length]
  rw [hframes, finishFunctionCall_eq (setThread_self ..) hsp] at hexit
  have hself : (before.threads s).map AppThread.view = some (AppThread.view
      { user := { th'.user with rsp := th₀.user.rsp }
        jumpBufferStack := th₀.jumpBufferStack
        suspendState := th'.suspendState }) := by
    rw [hbefore, Option.map_some, AppThread.view, AppThread.view, hsusp, hs₀]
  have hview := view_setThread hself fun s' hne => (view_of_ne st.current
    { th' with jumpBufferStack := th₀.jumpBufferStack } hne).trans (hsame s' hne)
  exact ⟨saved, prev, before, rest, _, hframes, hexit, rfl, rfl, ⟨hprev, hview⟩,
    hrest.congr_host hprev hview⟩

theorem CallState.Linked.invoke (h : st.Linked space) {functionPtr paramsSize arraysSize : ℕ}
    (hs : invokeFunctionCall space st s functionPtr paramsSize arraysSize = .ok st') :
    st'.Linked space := by
  unfold invokeFunctionCall at hs
  split at hs
  · next th hrun hth =>
    rw [CallState.Linked, hrun] at h
    obtain ⟨hrsp, htrusted⟩ := h.hostReady s th hth
    split at hs
    · cases hs
    · next saved stackPtr hpre =>
      split_ifs at hs with hfatal
      cases hs
      obtain ⟨saved', hsaved, hpre⟩ := Option.bind_eq_some_iff.1 hpre
      obtain ⟨sp, -, hpre⟩ := Option.bind_eq_some_iff.1 hpre
      obtain ⟨sp', -, hpre⟩ := Option.bind_eq_some_iff.1 hpre
      obtain ⟨sp'', -, hpre⟩ := Option.bind_eq_some_iff.1 hpre
      cases hpre
      exact ⟨rfl, rfl, rfl, h, fun s' hne => view_of_ne _ _ hne,
        th, _, hth, setThread_self .., rfl, htrusted, rfl,
        getUnsandboxedAddress_getSandboxedAddress hrsp hsaved⟩
  · cases hs

theorem CallState.Linked.syscallReturn (h : st.Linked space) (hrun : st.running = some s)
    {th th' : AppThread} (hth : st.current.threads s = some th)
    (hjump : th'.jumpBufferStack = th.jumpBufferStack) (sysret : ℕ) :
    (syscallReturn st s th' sysret).Linked space := by
  rw [CallState.Linked, hrun] at h
  exact h.congr_running rfl (fun s' hne => view_of_ne _ _ hne) hth
    (setThread_self ..) hjump rfl

theorem CallState.Linked.callback (h : st.Linked space) (hrun : st.running = some s)
    {th th' : AppThread} (hth : st.current.threads s = some th)
    (hjump : th'.jumpBufferStack = th.jumpBufferStack) (hsusp : th'.suspendState = .trusted)
    (hrsp : StackPtrOk (space s) th'.user.rsp) {callbackSlotNumber : ℕ}
    (hs : naclSysCallbackEnter slots st s th' callbackSlotNumber = .ok st') :
    st'.Linked space := by
  unfold naclSysCallbackEnter at hs
  split_ifs at hs
  cases hs
  rw [CallState.Linked, hrun] at h
  obtain ⟨saved, prev, before, rest, th₀, th₁, hframes, htls, -, hrest, hsame, -⟩ := h.running
  have hready : HostReady space (st.current.setThread s th') := by
    intro s' th'' hth''
    by_cases hne : s' = s
    · subst hne
      rw [setThread_self] at hth''
      cases hth''
      exact ⟨hrsp, hsusp⟩
    · -- The other sandboxes are as they were before the invocation.
      rw [setThread_of_ne _ _ hne] at hth''
      have hview := hsame s' hne
      rw [hth''] at hview
      obtain ⟨th₂, hth₂, hv⟩ := Option.map_eq_some_iff.1 hview.symm
      obtain ⟨hrsp₂, hsusp₂⟩ := hrest.hostReady s' th₂ hth₂
      simp only [AppThread.view, Prod.mk.injEq] at hv
      exact ⟨hv.1 ▸ hrsp₂, hv.2.2 ▸ hsusp₂⟩
  refine ⟨rfl, htls, htls, hready, fun _ => rfl, th', setThread_self .., rfl, ?_⟩
  exact h.congr_running rfl
    (fun s' hne => by rw [setThread_of_ne _ _ hne, setThread_of_ne _ _ hne])
    hth (setThread_self ..) hjump rfl

theorem CallState.Linked.callbackReturn (h : st.Linked space) {ret : ℕ}
    (hs : naclSysCallbackReturn st ret = .ok st') :
    st'.Linked space ∧ ∃ natp saved before rest,
      st.frames = .callback natp saved before :: rest ∧ st'.frames = rest ∧
      st'.running = some natp ∧ st'.current.tls = before.tls ∧
      (st'.current.threads natp).map AppThread.user =
        (before.threads natp).map (fun th => { th.user with sysret := ret % 2 ^ 32 }) ∧
      ∀ s ≠ natp,
        (st'.current.threads s).map AppThread.view = (before.threads s).map AppThread.view := by
  unfold naclSysCallbackReturn at hs
  split at hs
  · next natp saved before rest hrun hframes =>
    rw [CallState.Linked, hrun, hframes] at h
    obtain ⟨-, htls, hbefore, -, hsame, th₀, hth₀, hsaved, hrest⟩ := h
    have hview := hsame natp
    rw [hth₀] at hview
    obtain ⟨th, hth, hv⟩ := Option.map_eq_some_iff.1 hview
    simp only [hth] at hs
    split_ifs at hs with htrusted
    cases hs
    refine ⟨?_, natp, saved, before, rest, hframes, rfl, rfl, htls.trans hbefore.symm, ?_,
      fun s hne => (view_of_ne _ _ hne).trans (hsame s)⟩
    · refine hrest.congr_running (htls.trans hbefore.symm) (fun s hne => ?_) (setThread_self ..)
        (setThread_self ..) (congrArg (fun v => v.2.1) hv) rfl
      rw [view_of_ne _ _ hne]
      exact (view_of_ne _ _ hne).trans (hsame s)
    · refine (congrArg (Option.map AppThread.user) (setThread_self ..)).trans ?_
      rw [hth₀, hsaved]
      rfl
  · cases hs

/-! ## Runs -/

theorem CallState.Linked.syscall (slots : S → CallbackSlots) (h : st.Linked space) (hrun : st.running = some s)
    {regs : SyscallRegs} (hrsp : StackPtrOk (space s) regs.rsp) (call : Syscall) :
    ∃ th th', st.current.threads s = some th ∧ th'.jumpBufferStack = th.jumpBufferStack ∧
      th'.user.rsp = regs.rsp ∧ th'.suspendState = .trusted ∧
      callStep space slots st (.syscall regs call) =
        syscallHandler space slots st s th' call := by
  rw [CallState.Linked, hrun] at h
  obtain ⟨saved, prev, before, rest, th₀, th, -, htls, -, -, -, -, hth, -, -, hsusp, -⟩ := h.running
  obtain ⟨th', hentry, hjump, hrsp', hsusp'⟩ := syscallEntry_eq regs htls hth hsusp
  refine ⟨th, th', hth, hjump, hrsp', hsusp', ?_⟩
  simp only [callStep, hrun, if_pos hrsp, hentry]
  rfl

theorem CallState.Linked.step (h : st.Linked space) {a : CallAction S}
    (hs : callStep space slots st a = .ok st') : st'.Linked space := by
  cases a with
  | invoke s functionPtr paramsSize arraysSize => exact h.invoke hs
  | returnCallback ret => exact (h.callbackReturn hs).1
  | syscall regs call =>
    cases hrun : st.running with
    | none => simp [callStep, hrun] at hs
    | some s =>
      by_cases hrsp : StackPtrOk (space s) regs.rsp
      · obtain ⟨th, th', hth, hjump, hrsp', hsusp, heq⟩ :=
          h.syscall slots hrun hrsp call
        rw [heq] at hs
        cases call with
        | exitSandbox =>
          obtain ⟨saved, prev, before, rest, st'', -, hexit, -, -, -, hlinked⟩ :=
            h.exit hrun hth hjump hsusp
          cases hexit.symm.trans hs
          exact hlinked
        | callback slot => exact h.callback hrun hth hjump hsusp (hrsp' ▸ hrsp) hs
        | other sysret =>
          cases hs
          exact h.syscallReturn hrun hth hjump sysret
      · simp [callStep, hrun, if_neg hrsp] at hs

theorem CallState.Linked.exitReturns (h : st.Linked space) : ExitReturns space slots st := by
  intro s regs hrun hrsp
  obtain ⟨th, th', hth, hjump, -, hsusp, heq⟩ := h.syscall slots hrun hrsp .exitSandbox
  obtain ⟨saved, prev, before, rest, st', hframes, hexit, hrest, hhost, hrestored, -⟩ :=
    h.exit hrun hth hjump hsusp
  exact ⟨saved, prev, before, rest, st', hframes, heq.trans hexit, hrest, hhost, hrestored⟩

/-- In every run of the thread, of any nesting depth and over any number of sandboxes that it has
records for, an exit returns to the innermost invocation and restores the jump-buffer stacks, the stack
pointers and the current thread of before it; the callee-saved context of a callback is restored when
the callback returns. -/
theorem nestedCalls_restored (space : S → AddressSpace) (slots : S → CallbackSlots)
    (st₀ st : CallState S) (l : List (CallAction S)) (hidle : st₀.Idle space)
    (hrun : l.foldlM (callStep space slots) st₀ = .ok st) :
    ExitReturns space slots st ∧ CallbackReturns space slots st :=
  have hlinked : st.Linked space :=
    Runs.invariant (fun _ _ _ (h : CallState.Linked space _) hs => h.step hs) hidle.linked hrun
  ⟨hlinked.exitReturns, fun _ _ hs => (hlinked.callbackReturn hs).2⟩

/-- One sandbox at 4 GB, with a thread that no call is pending on. -/
def idleCallState : CallState Unit :=
  ⟨⟨none, fun _ => some
    ⟨⟨0, 0, 0x1FFF00000, 0, 0, 0, 2 ^ 32, 0, 0, 0⟩, [], .trusted⟩⟩, [], none⟩

/-- Registers of sandboxed code with `rbx` changed. -/
def exampleRegs : SyscallRegs := ⟨7, 0, 0x1FFEFF000, 0, 0, 0, 0x100020000⟩

theorem idleCallState_idle : idleCallState.Idle fun _ => exampleSpace := by
  refine ⟨rfl, rfl, fun s th hth => ?_, fun s th hth => ?_⟩ <;> cases hth
  · exact ⟨by decide, rfl⟩
  · rfl

/-- A call, a callback in it, and a call in the callback that exits. -/
theorem nestedCalls_restored_callback :
    ∃ st, [.invoke () 0x100020000 0 0, .syscall exampleRegs (.callback 3),
        .invoke () 0x100020000 0 0, .syscall exampleRegs .exitSandbox].foldlM
        (callStep (fun _ => exampleSpace) fun _ => exampleSlots) idleCallState = .ok st ∧
      ExitReturns (fun _ => exampleSpace) (fun _ => exampleSlots) st ∧
      CallbackReturns (fun _ => exampleSpace) (fun _ => exampleSlots) st :=
  ⟨_, rfl, nestedCalls_restored (fun _ => exampleSpace) (fun _ => exampleSlots) idleCallState _
    [.invoke () 0x100020000 0 0, .syscall exampleRegs (.callback 3),
      .invoke () 0x100020000 0 0, .syscall exampleRegs .exitSandbox] idleCallState_idle
    rfl⟩

/-- Sandboxed code changes `rbx` and exits: the exit leaves its value in the context. -/
theorem not_calleeSaved_restored :
    ¬ ∀ (st₀ st st' : CallState Unit) (l : List (CallAction Unit)) (regs : SyscallRegs),
      st₀.Idle (fun _ => exampleSpace) →
      l.foldlM (callStep (fun _ => exampleSpace) fun _ => exampleSlots) st₀ = .ok st →
      callStep (fun _ => exampleSpace) (fun _ => exampleSlots) st (.syscall regs .exitSandbox) =
        .ok st' →
      ∀ s saved prev before rest, st.frames = .invocation s saved prev before :: rest →
        Restored before st'.current ∧
        ∀ s, (st'.current.threads s).map (fun th => th.user.calleeSaved) =
          (before.threads s).map (fun th => th.user.calleeSaved) := by
  intro h
  obtain ⟨-, hsaved⟩ := h idleCallState _ _ [.invoke () 0x100020000 0 0] exampleRegs
    idleCallState_idle rfl rfl () _ _ _ _ rfl
  exact absurd (hsaved ()) (by decide)

end SandboxingNaCl
