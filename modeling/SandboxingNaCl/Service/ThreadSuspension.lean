import SandboxingNaCl.Lib.Runs
import Mathlib.Data.Int.Notation

/-!
# Thread suspension

`linux/thread_suspension.c` for one thread of the application and for whoever has `threads_mu` and
suspends it.  A step is one access to `suspend_state`, to the saved registers or to the futex.
-/

namespace SandboxingNaCl

/-- The code a thread of the application is counted to run. -/
inductive AppThreadMode
  | untrusted
  | trusted
deriving DecidableEq

/-- `NACL_APP_THREAD_UNTRUSTED` and `NACL_APP_THREAD_TRUSTED`. -/
def AppThreadMode.word : AppThreadMode → BitVec 32
  | .untrusted => 1
  | .trusted => 2

/-- `NACL_APP_THREAD_SUSPENDING`. -/
def appThreadSuspending : BitVec 32 := 4

/-- `NACL_APP_THREAD_SUSPENDED`. -/
def appThreadSuspended : BitVec 32 := 8

/-- `kBaseState` of `WaitForUntrustedThreadToSuspend`. -/
def kBaseState : BitVec 32 := AppThreadMode.untrusted.word ||| appThreadSuspending

/-- `NACL_THREAD_SUSPEND_SIGNAL`, which is `SIGUSR1`. -/
def threadSuspendSignal : ℕ := 10

/-- Where the thread is, its signal handler apart. -/
inductive AppThreadPoint
  /-- Its own code, which in untrusted mode can still be that of the switch between the modes. -/
  | running (mode : AppThreadMode)
  /-- `CompareAndSwap` in `NaClAppThreadSetSuspendState`. -/
  | swapping (old new : AppThreadMode)
  /-- `FutexWait` there. -/
  | swapWaiting (old new : AppThreadMode) (state : BitVec 32)
  | swapAsleep (old new : AppThreadMode) (state : BitVec 32)
  /-- The check of `HandleUntrustedFault`. -/
  | faultCheck (signal : ℕ)
  | faultMark (signal : ℕ)
  /-- `AtomicIncrement` of `faulted_thread_count`. -/
  | faultCount
  /-- `FireDebugStubEvent`. -/
  | faultEvent
  | sigwait
  /-- The call of `HandleSuspendSignal` in `HandleUntrustedFault`. -/
  | faultSuspended
  /-- The test of `fault_signal`. -/
  | faultTest
deriving DecidableEq

/-- Where `HandleSuspendSignal` is.  `saves` says that its `suspended_registers` is not null. -/
inductive SuspendHandlerPoint
  | entry
  /-- The check of `suspend_state`. -/
  | check (saves : Bool)
  | save
  /-- The two halves of `natp->suspend_state |= NACL_APP_THREAD_SUSPENDED`. -/
  | load (saves : Bool)
  | store (saves : Bool) (state : BitVec 32)
  | wake (saves : Bool)
  | test (saves : Bool)
  | wait (saves : Bool) (state : BitVec 32)
  | asleep (saves : Bool) (state : BitVec 32)
  | apply

/-- Where `NaClUntrustedThreadSuspend` or `NaClUntrustedThreadResume` is. -/
inductive SuspenderPoint
  | idle
  | suspendLoad (saveRegisters : Bool)
  | suspendSwap (saveRegisters : Bool) (old : BitVec 32)
  /-- The `DCHECK` after the swap. -/
  | suspendCheck (saveRegisters : Bool) (old : BitVec 32)
  | allocate (saveRegisters : Bool)
  /-- `pthread_kill`. -/
  | kill (saveRegisters : Bool)
  /-- `WaitForUntrustedThreadToSuspend`. -/
  | waitLoad (saveRegisters : Bool)
  | waitFutex (saveRegisters : Bool) (state : BitVec 32)
  | waitAsleep (saveRegisters : Bool) (state : BitVec 32)
  | suspended (saveRegisters : Bool)
  | resumeLoad
  | resumeSwap (old : BitVec 32)
  | resumeWake
deriving DecidableEq

/-- What brings the process down. -/
inductive SuspendFault
  /-- `LOG_FATAL` for an unexpected state. -/
  | unexpectedState
  /-- `NaClAbort` in a signal handler. -/
  | aborted
  /-- A `DCHECK`. -/
  | checkFailed
  /-- An access to `suspended_registers` when it is null. -/
  | nullPointer

/-- Why a step is not possible. -/
inductive SuspendRefusal
  | blocked
  | fault (fault : SuspendFault)

/-- The thread and its suspender.  `regs` are the registers of the thread's own code, which a signal
handler has in the frame of the signal. -/
structure SuspendWorld (ρ : Type) where
  suspendState : BitVec 32
  suspendedRegisters : Option ρ
  faultSignal : ℕ
  faultedThreadCount : ℤ
  /-- The bytes written to `faulted_thread_fd_write`. -/
  faultEvents : ℕ
  /-- The suspend signal has been sent and not been taken yet. -/
  pending : Bool
  regs : ρ
  point : AppThreadPoint
  handler : Option SuspendHandlerPoint
  suspender : SuspenderPoint

/-- What happens next. -/
inductive SuspendEvent (ρ : Type)
  | run (regs : ρ)
  /-- The thread calls `NaClAppThreadSetSuspendState`. -/
  | setState (new : AppThreadMode)
  | signal (signal : ℕ)
  /-- The thread goes on in `NaClAppThreadSetSuspendState` or in a signal handler. -/
  | thread
  /-- `FutexWait` returns to the thread for another reason than a wake. -/
  | threadSpurious
  | suspend (saveRegisters : Bool)
  | resume
  /-- The suspender goes on; `malloc` returns a block with `fresh` in it. -/
  | suspender (fresh : ρ)
  | suspenderSpurious
  /-- `NaClAppThreadGetSuspendedRegisters`. -/
  | getRegisters
  /-- `NaClAppThreadSetSuspendedRegisters`. -/
  | setRegisters (regs : ρ)
  /-- `NaClAppThreadUnblockIfFaulted`. -/
  | unblockIfFaulted

def SuspendEvent.OfThread {ρ : Type} : SuspendEvent ρ → Prop
  | .run _ | .setState _ | .signal _ | .thread | .threadSpurious => True
  | _ => False

/-! ## Waiting and waking -/

namespace AppThreadPoint

/-- `FutexWake` reaches the thread if it is asleep. -/
def woken : AppThreadPoint → AppThreadPoint
  | .swapAsleep old new _ => .swapping old new
  | p => p

/-- `FutexWait` returns for another reason. -/
def returned : AppThreadPoint → AppThreadPoint
  | .swapWaiting old new _ | .swapAsleep old new _ => .swapping old new
  | p => p

/-- A signal interrupts the system call, which is restarted after the handler. -/
def interrupted : AppThreadPoint → AppThreadPoint
  | .swapAsleep old new state => .swapWaiting old new state
  | p => p

def interruptible : AppThreadPoint → Bool
  | .running _ | .swapping _ _ | .swapWaiting _ _ _ | .swapAsleep _ _ _ => true
  | _ => false

/-- The end of `HandleSuspendSignal`. -/
def handled : AppThreadPoint → AppThreadPoint
  | .faultSuspended => .faultTest
  | p => p

/-- What the thread has last put into `suspend_state`. -/
def mode : AppThreadPoint → AppThreadMode
  | .running mode => mode
  | .swapping old _ | .swapWaiting old _ _ | .swapAsleep old _ _ => old
  | _ => .untrusted

end AppThreadPoint

namespace SuspendHandlerPoint

def woken : SuspendHandlerPoint → SuspendHandlerPoint
  | .asleep saves _ => .test saves
  | p => p

def returned : SuspendHandlerPoint → SuspendHandlerPoint
  | .wait saves _ | .asleep saves _ => .test saves
  | p => p

end SuspendHandlerPoint

namespace SuspenderPoint

def woken : SuspenderPoint → SuspenderPoint
  | .waitAsleep saveRegisters _ => .waitLoad saveRegisters
  | p => p

def returned : SuspenderPoint → SuspenderPoint
  | .waitFutex saveRegisters _ | .waitAsleep saveRegisters _ => .waitLoad saveRegisters
  | p => p

end SuspenderPoint

/-! ## The signal handler and the thread -/

/-- What `NaClThreadSuspensionSignalHandler` calls. -/
inductive SuspensionHandler
  | handleSuspendSignal
  | handleUntrustedFault
  | notHandled

def naclThreadSuspensionSignalHandler (signal : ℕ) (isUntrusted enableFaultedThreadQueue : Bool) :
    SuspensionHandler :=
  if signal = threadSuspendSignal then .handleSuspendSignal
  else if isUntrusted && enableFaultedThreadQueue then .handleUntrustedFault
  else .notHandled

namespace SuspendWorld

variable {ρ : Type}

/-- A thread that `NaClAppThreadMake` has made. -/
def start (regs : ρ) : SuspendWorld ρ :=
  ⟨AppThreadMode.trusted.word, none, 0, 0, 0, false, regs, .running .trusted, none, .idle⟩

/-- `HandleSuspendSignal` returns. -/
def finishHandler (w : SuspendWorld ρ) : SuspendWorld ρ :=
  { w with handler := none, point := w.point.handled }

/-- The next step of `HandleSuspendSignal`. -/
def handleSuspendSignal (w : SuspendWorld ρ) :
    SuspendHandlerPoint → Except SuspendRefusal (SuspendWorld ρ)
  | .entry => .ok { w with handler := some (.check w.suspendedRegisters.isSome) }
  | .check saves =>
    if w.suspendState ≠ AppThreadMode.untrusted.word ||| appThreadSuspending then
      .error (.fault .aborted)
    else .ok { w with handler := some (if saves then .save else .load false) }
  | .save =>
    match w.suspendedRegisters with
    | none => .error (.fault .nullPointer)
    | some _ => .ok { w with suspendedRegisters := some w.regs, handler := some (.load true) }
  | .load saves => .ok { w with handler := some (.store saves w.suspendState) }
  | .store saves state =>
    .ok { w with suspendState := state ||| appThreadSuspended, handler := some (.wake saves) }
  | .wake saves =>
    .ok { w with suspender := w.suspender.woken, handler := some (.test saves) }
  | .test saves =>
    if w.suspendState &&& appThreadSuspended ≠ 0 then
      .ok { w with handler := some (.wait saves w.suspendState) }
    else if saves then .ok { w with handler := some .apply }
    else .ok w.finishHandler
  | .wait saves state =>
    if w.suspendState = state then .ok { w with handler := some (.asleep saves state) }
    else .ok { w with handler := some (.test saves) }
  | .asleep _ _ => .error .blocked
  | .apply =>
    match w.suspendedRegisters with
    | none => .error (.fault .nullPointer)
    | some saved => .ok { w with regs := saved }.finishHandler

/-- The next step of `NaClAppThreadSetSuspendState` or of `HandleUntrustedFault`. -/
def advanceThread (w : SuspendWorld ρ) : AppThreadPoint → Except SuspendRefusal (SuspendWorld ρ)
  | .swapping old new =>
    if w.suspendState = old.word then
      .ok { w with suspendState := new.word, point := .running new }
    else if w.suspendState &&& appThreadSuspending ≠ 0 then
      .ok { w with point := .swapWaiting old new w.suspendState }
    else .error (.fault .unexpectedState)
  | .swapWaiting old new state =>
    if w.suspendState = state then .ok { w with point := .swapAsleep old new state }
    else .ok { w with point := .swapping old new }
  | .faultCheck signal =>
    if w.suspendState &&& AppThreadMode.untrusted.word = 0 then .error (.fault .aborted)
    else .ok { w with point := .faultMark signal }
  | .faultMark signal => .ok { w with faultSignal := signal, point := .faultCount }
  | .faultCount =>
    .ok { w with faultedThreadCount := w.faultedThreadCount + 1, point := .faultEvent }
  | .faultEvent => .ok { w with faultEvents := w.faultEvents + 1, point := .sigwait }
  | .sigwait =>
    if w.pending then
      .ok { w with pending := false, point := .faultSuspended, handler := some .entry }
    else .error .blocked
  | .faultTest =>
    if w.faultSignal ≠ 0 then .ok { w with point := .sigwait }
    else .ok { w with point := .running .untrusted }
  | .running _ | .swapAsleep _ _ _ | .faultSuspended => .error .blocked

/-- A signal reaches the thread; all of them are blocked in a handler. -/
def takeSignal (isUntrusted : ρ → Bool) (enableFaultedThreadQueue : Bool) (w : SuspendWorld ρ)
    (signal : ℕ) : Except SuspendRefusal (SuspendWorld ρ) :=
  if w.handler.isSome || !w.point.interruptible then .error .blocked
  else
    match naclThreadSuspensionSignalHandler signal (isUntrusted w.regs) enableFaultedThreadQueue with
    | .handleSuspendSignal =>
      if w.pending then
        .ok { w with pending := false, point := w.point.interrupted, handler := some .entry }
      else .error .blocked
    | .handleUntrustedFault =>
      if w.point = .running .untrusted then .ok { w with point := .faultCheck signal }
      else .error .blocked
    | .notHandled => .error .blocked

/-! ## The suspender -/

/-- The next step of `NaClUntrustedThreadSuspend` or of `NaClUntrustedThreadResume`. -/
def advanceSuspender (w : SuspendWorld ρ) (fresh : ρ) :
    SuspenderPoint → Except SuspendRefusal (SuspendWorld ρ)
  | .suspendLoad saveRegisters =>
    if w.suspendState &&& appThreadSuspending ≠ 0 then .error (.fault .checkFailed)
    else .ok { w with suspender := .suspendSwap saveRegisters w.suspendState }
  | .suspendSwap saveRegisters old =>
    if w.suspendState = old then
      .ok { w with
        suspendState := old ||| appThreadSuspending
        suspender := .suspendCheck saveRegisters old }
    else .ok { w with suspender := .suspendLoad saveRegisters }
  | .suspendCheck saveRegisters old =>
    if w.suspendState ≠ old ||| appThreadSuspending then .error (.fault .checkFailed)
    else if old = AppThreadMode.untrusted.word then
      .ok { w with suspender := .allocate saveRegisters }
    else .ok { w with suspender := .suspended saveRegisters }
  | .allocate saveRegisters =>
    .ok { w with
      suspendedRegisters :=
        if saveRegisters && w.suspendedRegisters.isNone then some fresh else w.suspendedRegisters
      suspender := .kill saveRegisters }
  | .kill saveRegisters => .ok { w with pending := true, suspender := .waitLoad saveRegisters }
  | .waitLoad saveRegisters =>
    if w.suspendState = kBaseState then
      .ok { w with suspender := .waitFutex saveRegisters w.suspendState }
    else if w.suspendState ≠ kBaseState ||| appThreadSuspended then
      .error (.fault .unexpectedState)
    else .ok { w with suspender := .suspended saveRegisters }
  | .waitFutex saveRegisters state =>
    if w.suspendState = state then .ok { w with suspender := .waitAsleep saveRegisters state }
    else .ok { w with suspender := .waitLoad saveRegisters }
  | .resumeLoad =>
    if w.suspendState &&& appThreadSuspending = 0 then .error (.fault .checkFailed)
    else .ok { w with suspender := .resumeSwap w.suspendState }
  | .resumeSwap old =>
    if w.suspendState = old then
      .ok { w with
        suspendState := old &&& ~~~(appThreadSuspending ||| appThreadSuspended)
        suspender := .resumeWake }
    else .ok { w with suspender := .resumeLoad }
  | .resumeWake =>
    .ok { w with
      point := w.point.woken
      handler := w.handler.map SuspendHandlerPoint.woken
      suspender := .idle }
  | .idle | .waitAsleep _ _ | .suspended _ => .error .blocked

/-- `NaClAppThreadGetSuspendedRegistersInternal`. -/
def getSuspendedRegistersInternal (w : SuspendWorld ρ) : Except SuspendRefusal ρ :=
  match w.suspendedRegisters with
  | none => .error (.fault .nullPointer)
  | some saved => .ok saved

/-- The test of `NaClAppThreadGetSuspendedRegisters` and `NaClAppThreadSetSuspendedRegisters`. -/
def suspendedUntrusted (w : SuspendWorld ρ) : Bool :=
  w.suspendState &&& AppThreadMode.untrusted.word ≠ 0

/-- `NaClAppThreadSetSuspendedRegisters`. -/
def setSuspendedRegisters (isUntrusted : ρ → Bool) (w : SuspendWorld ρ) (regs : ρ) :
    Except SuspendRefusal (SuspendWorld ρ) :=
  if w.suspendedUntrusted then
    match w.getSuspendedRegistersInternal with
    | .error refusal => .error refusal
    | .ok current =>
      if isUntrusted current then .ok { w with suspendedRegisters := some regs } else .ok w
  else .ok w

/-- `NaClAppThreadUnblockIfFaulted`, with the signal if there was a fault. -/
def unblockIfFaulted (w : SuspendWorld ρ) : Except SuspendRefusal (Option ℕ × SuspendWorld ρ) :=
  if w.suspendState =
      AppThreadMode.untrusted.word ||| appThreadSuspending ||| appThreadSuspended ∨
        w.suspendState = AppThreadMode.trusted.word ||| appThreadSuspending then
    if w.faultSignal = 0 then .ok (none, w)
    else
      .ok (some w.faultSignal,
        { w with faultSignal := 0, faultedThreadCount := w.faultedThreadCount - 1 })
  else .error (.fault .checkFailed)

/-- One step.  `isUntrusted` is `NaClSignalContextIsUntrusted`. -/
def step (isUntrusted : ρ → Bool) (enableFaultedThreadQueue : Bool) (w : SuspendWorld ρ) :
    SuspendEvent ρ → Except SuspendRefusal (SuspendWorld ρ)
  | .run regs =>
    if w.handler.isSome then .error .blocked
    else
      match w.point with
      | .running .untrusted => .ok { w with regs }
      -- the code of the switch between the modes is trusted
      | .running .trusted | .swapping _ _ | .swapWaiting _ _ _ =>
        if isUntrusted regs then .error .blocked else .ok { w with regs }
      | _ => .error .blocked
  | .setState new =>
    match w.handler, w.point with
    | none, .running old =>
      if isUntrusted w.regs then .error .blocked else .ok { w with point := .swapping old new }
    | _, _ => .error .blocked
  | .signal signal => w.takeSignal isUntrusted enableFaultedThreadQueue signal
  | .thread =>
    match w.handler with
    | some point => w.handleSuspendSignal point
    | none => w.advanceThread w.point
  | .threadSpurious =>
    match w.handler with
    | some point => .ok { w with handler := some point.returned }
    | none => .ok { w with point := w.point.returned }
  | .suspend saveRegisters =>
    if w.suspender = .idle then .ok { w with suspender := .suspendLoad saveRegisters }
    else .error .blocked
  | .resume =>
    match w.suspender with
    | .suspended _ => .ok { w with suspender := .resumeLoad }
    | _ => .error .blocked
  | .suspender fresh => w.advanceSuspender fresh w.suspender
  | .suspenderSpurious => .ok { w with suspender := w.suspender.returned }
  -- the registers may only be asked for after a suspension that saves them
  | .getRegisters =>
    if w.suspender = .suspended true then
      if w.suspendedUntrusted then w.getSuspendedRegistersInternal.map fun _ => w else .ok w
    else .error .blocked
  | .setRegisters regs =>
    if w.suspender = .suspended true then w.setSuspendedRegisters isUntrusted regs
    else .error .blocked
  | .unblockIfFaulted =>
    match w.suspender with
    | .suspended _ => w.unblockIfFaulted.map Prod.snd
    | _ => .error .blocked

end SuspendWorld

end SandboxingNaCl
