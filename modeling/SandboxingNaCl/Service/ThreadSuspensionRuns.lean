import SandboxingNaCl.Service.ThreadSuspension

/-!
# Runs of thread suspension

The invariant of a thread and its suspender.  The registers with which the thread resumes change only
when it runs its own code or when the suspender modifies them.
-/

namespace SandboxingNaCl

instance (p : AppThreadMode → Prop) [DecidablePred p] : Decidable (∀ mode, p mode) :=
  decidable_of_iff (p .untrusted ∧ p .trusted)
    ⟨fun h mode => match mode with | .untrusted => h.1 | .trusted => h.2, fun h => ⟨h _, h _⟩⟩

/-- How far a suspension has come. -/
inductive SuspenderRole
  | off
  /-- `NACL_APP_THREAD_SUSPENDING` is set and the signal is not sent yet. -/
  | requesting
  | waiting
  | holding
deriving DecidableEq

instance (p : SuspenderRole → Prop) [DecidablePred p] : Decidable (∀ role, p role) :=
  decidable_of_iff (p .off ∧ p .requesting ∧ p .waiting ∧ p .holding)
    ⟨fun h role => match role with
      | .off => h.1
      | .requesting => h.2.1
      | .waiting => h.2.2.1
      | .holding => h.2.2.2,
    fun h => ⟨h _, h _, h _, h _⟩⟩

/-- `NACL_APP_THREAD_SUSPENDING` is set. -/
def SuspenderRole.requested : SuspenderRole → Bool
  | .off => false
  | _ => true

def SuspenderPoint.role : SuspenderPoint → SuspenderRole
  | .idle | .suspendLoad _ | .suspendSwap _ _ | .resumeWake => .off
  | .suspendCheck _ _ | .allocate _ | .kill _ => .requesting
  | .waitLoad _ | .waitFutex _ _ | .waitAsleep _ _ => .waiting
  | .suspended _ | .resumeLoad | .resumeSwap _ => .holding

/-- What `HandleSuspendSignal` has to do with the suspension. -/
inductive SuspendHandlerRole
  | away
  /-- `NACL_APP_THREAD_SUSPENDED` is going to be set. -/
  | arriving
  | parked
  | leaving
deriving DecidableEq

instance (p : SuspendHandlerRole → Prop) [DecidablePred p] : Decidable (∀ role, p role) :=
  decidable_of_iff (p .away ∧ p .arriving ∧ p .parked ∧ p .leaving)
    ⟨fun h role => match role with
      | .away => h.1
      | .arriving => h.2.1
      | .parked => h.2.2.1
      | .leaving => h.2.2.2,
    fun h => ⟨h _, h _, h _, h _⟩⟩

def SuspendHandlerPoint.role : SuspendHandlerPoint → SuspendHandlerRole
  | .entry | .check _ | .save | .load _ | .store _ _ => .arriving
  | .wake _ | .test _ | .wait _ _ | .asleep _ _ => .parked
  | .apply => .leaving

def suspendHandlerRole : Option SuspendHandlerPoint → SuspendHandlerRole
  | none => .away
  | some p => p.role

/-- Which roles go together; `acked` says that `NACL_APP_THREAD_SUSPENDED` is set. -/
def rolesAgree (mode : AppThreadMode) (suspender : SuspenderRole) (acked pending : Bool)
    (handler : SuspendHandlerRole) : Bool :=
  match suspender with
  | .off | .requesting =>
    !acked && !pending && handler != .arriving && (mode == .untrusted || handler == .away)
  | .waiting =>
    mode == .untrusted &&
      if acked then !pending && handler == .parked else pending != (handler == .arriving)
  | .holding =>
    !pending && if mode = .untrusted then acked && handler == .parked else !acked && handler == .away

section Roles

variable {mode : AppThreadMode} {suspender : SuspenderRole} {acked pending : Bool}
  {handler : SuspendHandlerRole}

theorem of_rolesAgree_arriving (h : rolesAgree mode suspender acked pending .arriving = true) :
    mode = .untrusted ∧ suspender = .waiting ∧ acked = false ∧ pending = false := by
  revert mode suspender acked pending
  decide

theorem of_rolesAgree_acked (h : rolesAgree mode suspender true pending handler = true) :
    mode = .untrusted ∧ suspender.requested = true ∧ pending = false ∧ handler = .parked := by
  revert mode suspender pending handler
  decide

theorem acked_of_rolesAgree_away (h : rolesAgree mode suspender acked pending .away = true) :
    acked = false := by
  revert mode suspender acked pending
  decide

theorem of_rolesAgree_pending (h : rolesAgree mode suspender acked true handler = true) :
    mode = .untrusted ∧ suspender = .waiting ∧ acked = false ∧ handler ≠ .arriving := by
  revert mode suspender acked handler
  decide

theorem of_rolesAgree_off (h : rolesAgree mode .off acked pending handler = true) :
    acked = false ∧ pending = false := by
  revert mode acked pending handler
  decide

theorem of_rolesAgree_requesting
    (h : rolesAgree mode .requesting acked pending handler = true) :
    acked = false ∧ pending = false ∧ handler ≠ .arriving := by
  revert mode acked pending handler
  decide

theorem rolesAgree_waiting (hne : handler ≠ .arriving) :
    rolesAgree .untrusted .waiting false true handler = true := by
  revert handler
  decide

theorem mode_of_rolesAgree_waiting (h : rolesAgree mode .waiting acked pending handler = true) :
    mode = .untrusted := by
  revert mode acked pending handler
  decide

theorem rolesAgree_acked (h : rolesAgree mode .waiting true pending handler = true) :
    rolesAgree mode .holding true pending handler = true := by
  revert mode pending handler
  decide

theorem rolesAgree_cleared (h : rolesAgree mode .holding acked pending handler = true) :
    rolesAgree mode .off false pending handler = true := by
  revert mode acked pending handler
  decide

theorem rolesAgree_hold (h : rolesAgree mode .requesting false pending handler = true)
    (hmode : mode ≠ .untrusted) : rolesAgree mode .holding false pending handler = true := by
  revert mode pending handler
  decide

theorem of_rolesAgree_holding (h : rolesAgree mode .holding acked pending handler = true) :
    pending = false ∧ (mode = .untrusted ∧ acked = true ∧ handler = .parked ∨
      mode = .trusted ∧ acked = false ∧ handler = .away) := by
  revert mode acked pending handler
  decide

theorem rolesAgree_away (h : rolesAgree mode suspender false pending handler = true)
    (hne : handler ≠ .arriving) : rolesAgree mode suspender false pending .away = true := by
  revert mode suspender pending handler
  decide

theorem rolesAgree_off {mode' : AppThreadMode}
    (h : rolesAgree mode suspender false pending .away = true)
    (hoff : suspender.requested = false) :
    rolesAgree mode' suspender false pending .away = true := by
  revert mode mode' suspender pending
  decide

theorem rolesAgree_leaving (h : rolesAgree mode suspender false pending .parked = true) :
    rolesAgree mode suspender false pending .leaving = true := by
  revert mode suspender pending
  decide

theorem acked_of_rolesAgree_leaving (h : rolesAgree mode suspender acked pending .leaving = true) :
    acked = false := by
  revert mode suspender acked pending
  decide

end Roles

/-- `suspend_state` by its parts. -/
def stateWord (mode : AppThreadMode) (requested acked : Bool) : BitVec 32 :=
  mode.word ||| (if requested then appThreadSuspending else 0) |||
    if acked then appThreadSuspended else 0

theorem stateWord_inj {mode mode' : AppThreadMode} {requested requested' acked acked' : Bool}
    (h : stateWord mode requested acked = stateWord mode' requested' acked') :
    mode = mode' ∧ requested = requested' ∧ acked = acked' := by
  revert mode mode' requested requested' acked acked'
  decide

theorem stateWord_and_suspending (mode : AppThreadMode) (requested acked : Bool) :
    stateWord mode requested acked &&& appThreadSuspending = 0 ↔ requested = false := by
  revert mode requested acked
  decide

theorem stateWord_and_suspended (mode : AppThreadMode) (requested acked : Bool) :
    stateWord mode requested acked &&& appThreadSuspended = 0 ↔ acked = false := by
  revert mode requested acked
  decide

theorem stateWord_and_untrusted (mode : AppThreadMode) (requested acked : Bool) :
    stateWord mode requested acked &&& AppThreadMode.untrusted.word = 0 ↔ mode = .trusted := by
  revert mode requested acked
  decide

theorem word_eq_stateWord (mode : AppThreadMode) : mode.word = stateWord mode false false := by
  revert mode
  decide

theorem kBaseState_eq : kBaseState = stateWord .untrusted true false := by decide

theorem kBaseState_or_suspended :
    kBaseState ||| appThreadSuspended = stateWord .untrusted true true := by decide

theorem word_or_suspending (mode : AppThreadMode) :
    mode.word ||| appThreadSuspending = stateWord mode true false := by
  revert mode
  decide

theorem stateWord_and_not (mode : AppThreadMode) (requested acked : Bool) :
    stateWord mode requested acked &&& ~~~(appThreadSuspending ||| appThreadSuspended) =
      stateWord mode false false := by
  revert mode requested acked
  decide

/-! ## The invariant -/

/-- What the handler that has set `NACL_APP_THREAD_SUSPENDED` knows of the saved registers. -/
def ParkedOk (acked saved saves : Bool) : Prop :=
  (acked = true → saves = saved) ∧ (saves = true → saved = true)

/-- What a point of the handler relies on.  `saved` says that `suspended_registers` is not null,
`waking` that the suspender is about to call `FutexWake`. -/
def HandlerOk (acked saved : Bool) (waking : Prop) : Option SuspendHandlerPoint → Prop
  | none | some .entry => True
  | some (.check saves) | some (.load saves) => saves = saved
  | some .save | some .apply => saved = true
  | some (.store saves state) => saves = saved ∧ state = kBaseState
  | some (.wake saves) | some (.test saves) => ParkedOk acked saved saves
  | some (.wait saves state) =>
    ParkedOk acked saved saves ∧ state = kBaseState ||| appThreadSuspended
  | some (.asleep saves state) =>
    ParkedOk acked saved saves ∧ state = kBaseState ||| appThreadSuspended ∧ (acked = true ∨ waking)

/-- What a point of the suspender relies on. -/
def SuspenderOk (mode : AppThreadMode) (acked saved : Bool) (handler : Option SuspendHandlerPoint) :
    SuspenderPoint → Prop
  | .suspendCheck _ old => old = mode.word
  | .allocate _ => mode = .untrusted
  | .kill saveRegisters => mode = .untrusted ∧ (saveRegisters = true → saved = true)
  | .waitLoad saveRegisters => saveRegisters = true → saved = true
  | .waitFutex saveRegisters state =>
    (saveRegisters = true → saved = true) ∧ state = kBaseState
  | .waitAsleep saveRegisters state =>
    (saveRegisters = true → saved = true) ∧ state = kBaseState ∧
      (acked = false ∨ ∃ saves, handler = some (.wake saves))
  | .suspended saveRegisters => mode = .untrusted → saveRegisters = true → saved = true
  | _ => True

/-- What a point of the thread relies on. -/
def PointOk (interrupted requested : Bool) (waking : Prop) : AppThreadPoint → Prop
  | .running _ | .swapping _ _ => True
  | .swapWaiting old _ state => state = old.word ||| appThreadSuspending
  | .swapAsleep old _ state =>
    interrupted = false ∧ state = old.word ||| appThreadSuspending ∧ (requested = true ∨ waking)
  | .faultSuspended => interrupted = true
  | _ => interrupted = false

theorem AppThreadPoint.mode_returned (p : AppThreadPoint) : p.returned.mode = p.mode := by
  cases p <;> rfl

theorem AppThreadPoint.mode_interrupted (p : AppThreadPoint) : p.interrupted.mode = p.mode := by
  cases p <;> rfl

theorem PointOk.returned {interrupted requested : Bool} {waking : Prop} {p : AppThreadPoint}
    (h : PointOk interrupted requested waking p) : PointOk interrupted requested waking p.returned := by
  cases p with
  | swapWaiting | swapAsleep => trivial
  | _ => exact h

theorem PointOk.interrupted {interrupted requested : Bool} {waking : Prop} {p : AppThreadPoint}
    (h : PointOk interrupted requested waking p) (hp : p.interruptible = true) :
    PointOk true requested waking p.interrupted := by
  cases p with
  | running | swapping => trivial
  | swapWaiting => exact h
  | swapAsleep => exact h.2.1
  | _ => cases hp

theorem SuspenderPoint.role_returned (p : SuspenderPoint) : p.returned.role = p.role := by
  cases p <;> rfl

theorem SuspenderOk.returned {mode : AppThreadMode} {acked saved : Bool}
    {handler : Option SuspendHandlerPoint} {p : SuspenderPoint}
    (h : SuspenderOk mode acked saved handler p) : SuspenderOk mode acked saved handler p.returned := by
  cases p with
  | waitFutex | waitAsleep => exact h.1
  | _ => exact h

/-- The handler is going to put back what is in `suspended_registers`. -/
def SuspendHandlerPoint.restores : SuspendHandlerPoint → Bool
  | .entry | .check _ | .save => false
  | .load saves | .store saves _ | .wake saves | .test saves | .wait saves _ | .asleep saves _ => saves
  | .apply => true

theorem ParkedOk.of_saved {acked saved saves : Bool} (h : saves = saved) : ParkedOk acked saved saves :=
  ⟨fun _ => h, fun hsaves => h ▸ hsaves⟩

theorem mode_handled (p : AppThreadPoint) : p.handled.mode = p.mode := by
  cases p <;> rfl

theorem PointOk.handled {requested : Bool} {waking : Prop} {p : AppThreadPoint}
    (h : PointOk true requested waking p) : PointOk false requested waking p.handled := by
  cases p with
  | running | swapping => trivial
  | swapWaiting => exact h
  | swapAsleep => exact absurd h.1 (by decide)
  | faultSuspended => rfl
  | _ => cases h

theorem SuspenderOk.of_handler {mode : AppThreadMode} {acked saved : Bool}
    {handler handler' : Option SuspendHandlerPoint} {p : SuspenderPoint}
    (h : SuspenderOk mode acked saved handler p) (hne : ∀ saves, handler ≠ some (.wake saves)) :
    SuspenderOk mode acked saved handler' p := by
  cases p with
  | waitAsleep saveRegisters state =>
    obtain ⟨hsaved, hstate, hacked | ⟨saves, hwake⟩⟩ := h
    · exact ⟨hsaved, hstate, Or.inl hacked⟩
    · exact absurd hwake (hne saves)
  | _ => exact h

theorem SuspenderOk.of_wake {mode : AppThreadMode} {acked saved saves : Bool}
    {p : SuspenderPoint} (h : SuspenderOk mode acked saved (some (.wake saves)) p) :
    SuspenderOk mode true saved (some (.wake saves)) p := by
  cases p with
  | waitAsleep saveRegisters state => exact ⟨h.1, h.2.1, Or.inr ⟨saves, rfl⟩⟩
  | _ => exact h

theorem SuspenderOk.of_off {mode : AppThreadMode} {acked saved : Bool}
    {handler : Option SuspendHandlerPoint} {p : SuspenderPoint} (h : p.role.requested = false) :
    SuspenderOk mode acked saved handler p := by
  cases p with
  | idle | suspendLoad | suspendSwap | resumeWake => trivial
  | _ => cases h

theorem role_woken (p : SuspenderPoint) : p.woken.role = p.role := by
  cases p <;> rfl

theorem woken_eq_resumeWake (p : SuspenderPoint) : p.woken = .resumeWake ↔ p = .resumeWake := by
  cases p <;> simp [SuspenderPoint.woken]

theorem SuspenderOk.woken {mode : AppThreadMode} {acked saved : Bool}
    {handler handler' : Option SuspendHandlerPoint} {p : SuspenderPoint}
    (h : SuspenderOk mode acked saved handler p) : SuspenderOk mode acked saved handler' p.woken := by
  cases p with
  | waitAsleep => exact h.1
  | _ => exact h

theorem HandlerOk.of_waking {acked saved : Bool} {waking waking' : Prop}
    {handler : Option SuspendHandlerPoint} (h : HandlerOk acked saved waking handler)
    (hwaking : waking → waking') : HandlerOk acked saved waking' handler := by
  match handler with
  | some (.asleep saves state) => exact ⟨h.1, h.2.1, h.2.2.imp_right hwaking⟩
  | none | some .entry | some (.check _) | some .save | some (.load _) | some (.store _ _)
  | some (.wake _) | some (.test _) | some (.wait _ _) | some .apply => exact h

theorem HandlerOk.of_saved {saved saved' : Bool} {waking : Prop}
    {handler : Option SuspendHandlerPoint} (h : HandlerOk false saved waking handler)
    (hrole : suspendHandlerRole handler ≠ .arriving) (hsaved : saved = true → saved' = true) :
    HandlerOk false saved' waking handler := by
  have hparked {saves : Bool} (h : ParkedOk false saved saves) : ParkedOk false saved' saves :=
    ⟨nofun, fun hsaves => hsaved (h.2 hsaves)⟩
  match handler with
  | none => trivial
  | some .entry | some (.check _) | some .save | some (.load _) | some (.store _ _) =>
    exact absurd rfl hrole
  | some (.wake _) | some (.test _) => exact hparked h
  | some (.wait _ _) => exact ⟨hparked h.1, h.2⟩
  | some (.asleep _ _) => exact ⟨hparked h.1, h.2⟩
  | some .apply => exact hsaved h

theorem HandlerOk.of_cleared {acked saved : Bool} {waking waking' : Prop}
    {handler : Option SuspendHandlerPoint} (h : HandlerOk acked saved waking handler)
    (hwaking : waking') : HandlerOk false saved waking' handler := by
  have hparked {saves : Bool} (h : ParkedOk acked saved saves) : ParkedOk false saved saves :=
    ⟨nofun, h.2⟩
  match handler with
  | some (.asleep _ _) => exact ⟨hparked h.1, h.2.1, Or.inr hwaking⟩
  | some (.wake _) | some (.test _) => exact hparked h
  | some (.wait _ _) => exact ⟨hparked h.1, h.2⟩
  | none | some .entry | some (.check _) | some .save | some (.load _) | some (.store _ _)
  | some .apply => exact h

theorem HandlerOk.saved {acked saved : Bool} {waking : Prop} {p : SuspendHandlerPoint}
    (h : HandlerOk acked saved waking (some p)) (hrestores : p.restores = true) : saved = true := by
  cases p with
  | entry | check | save => cases hrestores
  | load => exact h.symm.trans hrestores
  | store => exact h.1.symm.trans hrestores
  | wake | test => exact h.2 hrestores
  | wait | asleep => exact h.1.2 hrestores
  | apply => exact h

theorem HandlerOk.restores {saved : Bool} {waking : Prop} {p : SuspendHandlerPoint}
    (h : HandlerOk true saved waking (some p)) (hparked : p.role = .parked)
    (hsaved : saved = true) : p.restores = true := by
  cases p with
  | wake | test => exact (h.1 rfl).trans hsaved
  | wait | asleep => exact (h.1.1 rfl).trans hsaved
  | _ => cases hparked

theorem HandlerOk.woken {acked saved : Bool} {waking waking' : Prop}
    {handler : Option SuspendHandlerPoint} (h : HandlerOk acked saved waking handler) :
    HandlerOk acked saved waking' (handler.map SuspendHandlerPoint.woken) := by
  match handler with
  | some (.asleep _ _) => exact h.1
  | none | some .entry | some (.check _) | some .save | some (.load _) | some (.store _ _)
  | some (.wake _) | some (.test _) | some (.wait _ _) | some .apply => exact h

theorem PointOk.of_waking {interrupted requested requested' : Bool} {waking waking' : Prop}
    {p : AppThreadPoint} (h : PointOk interrupted requested waking p)
    (hwaking : requested = true ∨ waking → requested' = true ∨ waking') :
    PointOk interrupted requested' waking' p := by
  cases p with
  | swapAsleep => exact ⟨h.1, h.2.1, hwaking h.2.2⟩
  | _ => exact h

theorem PointOk.woken {interrupted requested requested' : Bool} {waking waking' : Prop}
    {p : AppThreadPoint} (h : PointOk interrupted requested waking p) :
    PointOk interrupted requested' waking' p.woken := by
  cases p with
  | swapAsleep => trivial
  | _ => exact h

theorem AppThreadPoint.mode_woken (p : AppThreadPoint) : p.woken.mode = p.mode := by
  cases p <;> rfl

theorem suspendHandlerRole_woken (handler : Option SuspendHandlerPoint) :
    suspendHandlerRole (handler.map SuspendHandlerPoint.woken) = suspendHandlerRole handler := by
  match handler with
  | none => rfl
  | some p => cases p <;> rfl

namespace SuspendWorld

variable {ρ : Type} {w w' : SuspendWorld ρ} {acked : Bool}

/-- What every step keeps. -/
structure Inv (w : SuspendWorld ρ) (acked : Bool) : Prop where
  word : w.suspendState = stateWord w.point.mode w.suspender.role.requested acked
  roles : rolesAgree w.point.mode w.suspender.role acked w.pending (suspendHandlerRole w.handler)
  handler : HandlerOk acked w.suspendedRegisters.isSome (w.suspender = .resumeWake) w.handler
  suspender : SuspenderOk w.point.mode acked w.suspendedRegisters.isSome w.handler w.suspender
  point : PointOk w.handler.isSome w.suspender.role.requested (w.suspender = .resumeWake) w.point

/-- The registers with which the thread goes on in its own code. -/
def resumeRegs (w : SuspendWorld ρ) : ρ :=
  match w.handler with
  | none => w.regs
  | some p => if p.restores then w.suspendedRegisters.getD w.regs else w.regs

/-- A step that goes through keeps the invariant and leaves the thread with these registers. -/
def Sound (regs : ρ) : Except SuspendRefusal (SuspendWorld ρ) → Prop
  | .ok w => (∃ acked, w.Inv acked) ∧ w.resumeRegs = regs
  | .error refusal => refusal = .blocked

theorem inv_start (regs : ρ) : (start regs).Inv false :=
  ⟨word_eq_stateWord .trusted, rfl, trivial, trivial, trivial⟩

/-! ## The signal handler -/

theorem Inv.of_handler_role (h : w.Inv acked) {p q : SuspendHandlerPoint} (hp : w.handler = some p)
    (hne : ∀ saves, p ≠ .wake saves)
    (hrole : rolesAgree w.point.mode w.suspender.role acked w.pending q.role)
    (hq : HandlerOk acked w.suspendedRegisters.isSome (w.suspender = .resumeWake) (some q)) :
    { w with handler := some q }.Inv acked := by
  refine ⟨h.word, hrole, hq, ?_, ?_⟩
  · refine h.suspender.of_handler fun saves hwake => ?_
    rw [hp] at hwake
    exact hne saves (Option.some.inj hwake)
  · have hpoint := h.point
    rw [hp] at hpoint
    exact hpoint

theorem Inv.of_handler (h : w.Inv acked) {p q : SuspendHandlerPoint} (hp : w.handler = some p)
    (hrole : q.role = p.role) (hne : ∀ saves, p ≠ .wake saves)
    (hq : HandlerOk acked w.suspendedRegisters.isSome (w.suspender = .resumeWake) (some q)) :
    { w with handler := some q }.Inv acked := by
  have hroles := h.roles
  rw [hp] at hroles
  exact h.of_handler_role hp hne ((congrArg (rolesAgree _ _ _ _) hrole).trans hroles) hq

theorem resumeRegs_of_handler {p q : SuspendHandlerPoint} (hp : w.handler = some p)
    (hq : q.restores = p.restores) : { w with handler := some q }.resumeRegs = w.resumeRegs := by
  simp only [resumeRegs, hp, hq]

theorem Inv.finishHandler (h : w.Inv false) {p : SuspendHandlerPoint} (hp : w.handler = some p)
    (hrole : p.role ≠ .arriving) (hne : ∀ saves, p ≠ .wake saves) : w.finishHandler.Inv false := by
  refine ⟨?_, ?_, trivial, ?_, ?_⟩
  · exact (mode_handled w.point).symm ▸ h.word
  · have hroles := h.roles
    rw [hp] at hroles
    exact (mode_handled w.point).symm ▸ rolesAgree_away hroles hrole
  · refine (mode_handled w.point).symm ▸ h.suspender.of_handler fun saves hwake => ?_
    rw [hp] at hwake
    exact hne saves (Option.some.inj hwake)
  · have hpoint := h.point
    rw [hp] at hpoint
    exact hpoint.handled

theorem Inv.state_of_arriving (h : w.Inv acked) (hp : suspendHandlerRole w.handler = .arriving) :
    w.suspendState = kBaseState ∧ acked = false ∧ w.suspender.role = .waiting ∧
      w.point.mode = .untrusted ∧ w.pending = false := by
  have hroles := h.roles
  rw [hp] at hroles
  obtain ⟨hmode, hrole, hacked, hpending⟩ := of_rolesAgree_arriving hroles
  have hword := h.word
  rw [hmode, hrole, hacked] at hword
  exact ⟨hword.trans kBaseState_eq.symm, hacked, hrole, hmode, hpending⟩

theorem Inv.state_of_acked (h : w.Inv true) :
    w.suspendState = kBaseState ||| appThreadSuspended := by
  obtain ⟨hmode, hrequested, -, -⟩ := of_rolesAgree_acked h.roles
  rw [h.word, hmode, hrequested]
  exact kBaseState_or_suspended.symm

theorem handleSuspendSignal_save {saved : ρ} (h : w.suspendedRegisters = some saved) :
    w.handleSuspendSignal .save =
      .ok { w with suspendedRegisters := some w.regs, handler := some (.load true) } := by
  rw [SuspendWorld.handleSuspendSignal, h]

theorem handleSuspendSignal_apply {saved : ρ} (h : w.suspendedRegisters = some saved) :
    w.handleSuspendSignal .apply = .ok { w with regs := saved }.finishHandler := by
  rw [SuspendWorld.handleSuspendSignal, h]

theorem Inv.handleSuspendSignal (h : w.Inv acked) {p : SuspendHandlerPoint}
    (hp : w.handler = some p) : Sound w.resumeRegs (w.handleSuspendSignal p) := by
  have hok := h.handler
  rw [hp] at hok
  cases p with
  | entry =>
    exact ⟨⟨acked, h.of_handler hp rfl (by simp) rfl⟩, resumeRegs_of_handler hp rfl⟩
  | check saves =>
    have hstate : w.suspendState = AppThreadMode.untrusted.word ||| appThreadSuspending :=
      (h.state_of_arriving (congrArg suspendHandlerRole hp)).1
    rw [SuspendWorld.handleSuspendSignal, if_neg (not_not.2 hstate)]
    cases saves with
    | true =>
      exact ⟨⟨acked, h.of_handler hp rfl (by simp) (Eq.symm hok)⟩, resumeRegs_of_handler hp rfl⟩
    | false => exact ⟨⟨acked, h.of_handler hp rfl (by simp) hok⟩, resumeRegs_of_handler hp rfl⟩
  | save =>
    obtain ⟨saved, hsaved⟩ := Option.isSome_iff_exists.1 hok
    have hinv : { w with handler := some (.load true) }.Inv acked :=
      h.of_handler hp rfl (by simp) (Eq.symm hok)
    rw [handleSuspendSignal_save hsaved]
    refine ⟨⟨acked, hinv.word, hinv.roles, rfl, ?_, hinv.point⟩, ?_⟩
    · exact (congrArg Option.isSome hsaved) ▸ hinv.suspender
    · simp [resumeRegs, hp, SuspendHandlerPoint.restores]
  | load saves =>
    have hstate := (h.state_of_arriving (congrArg suspendHandlerRole hp)).1
    exact ⟨⟨acked, h.of_handler hp rfl (by simp) ⟨hok, hstate⟩⟩, resumeRegs_of_handler hp rfl⟩
  | store saves state =>
    obtain ⟨-, rfl, hrole, hmode, hpending⟩ :=
      h.state_of_arriving (congrArg suspendHandlerRole hp)
    obtain ⟨hsaves, rfl⟩ := hok
    refine ⟨⟨true, ?_, ?_, ParkedOk.of_saved hsaves, ?_, ?_⟩, resumeRegs_of_handler hp rfl⟩
    · simp only [hmode, hrole]
      exact kBaseState_or_suspended
    · simp only [hmode, hrole, hpending]
      rfl
    · exact (h.suspender.of_handler fun saves hwake => by rw [hp] at hwake; cases hwake).of_wake
    · have hpoint := h.point
      rw [hp] at hpoint
      exact hpoint
  | wake saves =>
    refine ⟨⟨acked, ?_, ?_, ?_, ?_, ?_⟩, resumeRegs_of_handler hp rfl⟩
    · exact (role_woken w.suspender).symm ▸ h.word
    · have hroles := h.roles
      rw [hp] at hroles
      exact (role_woken w.suspender).symm ▸ hroles
    · exact hok
    · exact h.suspender.woken
    · have hpoint := h.point
      rw [hp] at hpoint
      simp only [role_woken, woken_eq_resumeWake]
      exact hpoint
  | test saves =>
    have hword := stateWord_and_suspended w.point.mode w.suspender.role.requested acked
    rw [← h.word] at hword
    cases acked with
    | true =>
      rw [SuspendWorld.handleSuspendSignal, if_pos fun h => Bool.noConfusion (hword.1 h)]
      exact ⟨⟨true, h.of_handler hp rfl (by simp) ⟨hok, h.state_of_acked⟩⟩,
        resumeRegs_of_handler hp rfl⟩
    | false =>
      rw [SuspendWorld.handleSuspendSignal, if_neg (not_not.2 (hword.2 rfl))]
      cases saves with
      | true =>
        have hroles := h.roles
        rw [hp] at hroles
        exact ⟨⟨false, h.of_handler_role hp (by simp) (rolesAgree_leaving hroles) (hok.2 rfl)⟩,
          resumeRegs_of_handler hp rfl⟩
      | false =>
        refine ⟨⟨false, h.finishHandler hp (by decide) (by simp)⟩, ?_⟩
        simp [resumeRegs, hp, SuspendHandlerPoint.restores, SuspendWorld.finishHandler]
  | wait saves state =>
    rw [SuspendWorld.handleSuspendSignal]
    split_ifs with hstate
    · have hacked : acked = true := by
        rw [hok.2, kBaseState_or_suspended, h.word] at hstate
        exact (stateWord_inj hstate).2.2
      exact ⟨⟨acked, h.of_handler hp rfl (by simp) ⟨hok.1, hok.2, Or.inl hacked⟩⟩,
        resumeRegs_of_handler hp rfl⟩
    · exact ⟨⟨acked, h.of_handler hp rfl (by simp) hok.1⟩, resumeRegs_of_handler hp rfl⟩
  | asleep => rfl
  | apply =>
    have hroles := h.roles
    rw [hp] at hroles
    obtain rfl := acked_of_rolesAgree_leaving hroles
    have hinv := h.finishHandler hp (by decide) (by simp)
    obtain ⟨saved, hsaved⟩ := Option.isSome_iff_exists.1 hok
    rw [handleSuspendSignal_apply hsaved]
    refine ⟨⟨false, hinv.word, hinv.roles, trivial, hinv.suspender, hinv.point⟩, ?_⟩
    simp [resumeRegs, hp, hsaved, SuspendHandlerPoint.restores, SuspendWorld.finishHandler]

/-! ## The thread -/

theorem Inv.of_point (h : w.Inv acked) {q : AppThreadPoint} (hmode : q.mode = w.point.mode)
    (hq : PointOk w.handler.isSome w.suspender.role.requested (w.suspender = .resumeWake) q) :
    { w with point := q }.Inv acked :=
  ⟨hmode ▸ h.word, hmode ▸ h.roles, h.handler, hmode ▸ h.suspender, hq⟩

theorem Inv.take (h : w.Inv acked) (hp : w.handler = none) (hpending : w.pending = true)
    {q : AppThreadPoint} (hmode : q.mode = w.point.mode)
    (hq : PointOk true w.suspender.role.requested (w.suspender = .resumeWake) q) :
    Sound w.resumeRegs
      (.ok { w with pending := false, point := q, handler := some .entry }) := by
  have hroles := h.roles
  rw [hpending] at hroles
  obtain ⟨huntrusted, hrole, rfl, -⟩ := of_rolesAgree_pending hroles
  refine ⟨⟨false, hmode ▸ h.word, ?_, trivial, ?_, hq⟩, ?_⟩
  · simp only [hmode, huntrusted, hrole]
    rfl
  · exact hmode ▸ h.suspender.of_handler fun saves hwake => by rw [hp] at hwake; cases hwake
  · simp [resumeRegs, hp, SuspendHandlerPoint.restores]

theorem Inv.advanceThread (h : w.Inv acked) (hp : w.handler = none) :
    Sound w.resumeRegs (w.advanceThread w.point) := by
  have hroles := h.roles
  rw [hp] at hroles
  obtain rfl := acked_of_rolesAgree_away hroles
  have hword := h.word
  have hpoint := h.point
  have hnone : w.handler.isSome = false := congrArg Option.isSome hp
  cases hq : w.point with
  | swapping old new =>
    rw [hq] at hword hroles
    rw [SuspendWorld.advanceThread]
    split_ifs with hstate hsuspending
    · have hoff : w.suspender.role.requested = false := by
        rw [hstate, word_eq_stateWord] at hword
        exact (stateWord_inj hword).2.1.symm
      refine ⟨⟨false, ?_, ?_, h.handler, ?_, trivial⟩, rfl⟩
      · simp only [hoff]
        exact word_eq_stateWord new
      · change rolesAgree new _ _ _ (suspendHandlerRole w.handler) = true
        rw [hp]
        exact rolesAgree_off hroles hoff
      · exact SuspenderOk.of_off hoff
    · refine ⟨⟨false, h.of_point (hq ▸ rfl) ?_⟩, rfl⟩
      rw [hword, ne_eq, stateWord_and_suspending, Bool.not_eq_false] at hsuspending
      rw [hword, hsuspending]
      exact (word_or_suspending old).symm
    · refine absurd ?_ hstate
      rw [hword, not_not, stateWord_and_suspending] at hsuspending
      rw [hword, hsuspending]
      exact (word_eq_stateWord old).symm
  | swapWaiting old new state =>
    rw [hq] at hword hpoint
    rw [SuspendWorld.advanceThread]
    split_ifs with hstate
    · refine ⟨⟨false, h.of_point (hq ▸ rfl) ⟨hnone, hpoint, Or.inl ?_⟩⟩, rfl⟩
      rw [hword, hpoint, word_or_suspending] at hstate
      exact (stateWord_inj hstate).2.1
    · exact ⟨⟨false, h.of_point (hq ▸ rfl) trivial⟩, rfl⟩
  | faultCheck signal =>
    rw [hq] at hword
    rw [SuspendWorld.advanceThread]
    split_ifs with huntrusted
    · rw [hword, stateWord_and_untrusted] at huntrusted
      cases huntrusted
    · exact ⟨⟨false, h.of_point (hq ▸ rfl) hnone⟩, rfl⟩
  | faultMark signal =>
    have hinv := h.of_point (q := .faultCount) (hq ▸ rfl) hnone
    exact ⟨⟨false, hinv.word, hinv.roles, hinv.handler, hinv.suspender, hinv.point⟩, rfl⟩
  | faultCount =>
    have hinv := h.of_point (q := .faultEvent) (hq ▸ rfl) hnone
    exact ⟨⟨false, hinv.word, hinv.roles, hinv.handler, hinv.suspender, hinv.point⟩, rfl⟩
  | faultEvent =>
    have hinv := h.of_point (q := .sigwait) (hq ▸ rfl) hnone
    exact ⟨⟨false, hinv.word, hinv.roles, hinv.handler, hinv.suspender, hinv.point⟩, rfl⟩
  | sigwait =>
    rw [SuspendWorld.advanceThread]
    split_ifs with hpending
    · exact h.take hp hpending (hq ▸ rfl) rfl
    · rfl
  | faultTest =>
    rw [SuspendWorld.advanceThread]
    split_ifs
    · exact ⟨⟨false, h.of_point (hq ▸ rfl) hnone⟩, rfl⟩
    · exact ⟨⟨false, h.of_point (hq ▸ rfl) trivial⟩, rfl⟩
  | _ => rfl

/-! ## The suspender -/

theorem Inv.of_suspender (h : w.Inv acked) {q : SuspenderPoint}
    (hrequested : q.role.requested = w.suspender.role.requested)
    (hne : w.suspender ≠ .resumeWake)
    (hrole : rolesAgree w.point.mode q.role acked w.pending (suspendHandlerRole w.handler))
    (hq : SuspenderOk w.point.mode acked w.suspendedRegisters.isSome w.handler q) :
    { w with suspender := q }.Inv acked :=
  ⟨hrequested ▸ h.word, hrole, h.handler.of_waking (absurd · hne), hq,
    h.point.of_waking fun hwake => hwake.imp hrequested.trans (absurd · hne)⟩

theorem Inv.of_suspender_role (h : w.Inv acked) {q : SuspenderPoint}
    (hrole : q.role = w.suspender.role) (hne : w.suspender ≠ .resumeWake)
    (hq : SuspenderOk w.point.mode acked w.suspendedRegisters.isSome w.handler q) :
    { w with suspender := q }.Inv acked :=
  h.of_suspender (congrArg _ hrole) hne (hrole ▸ h.roles) hq

theorem resumeRegs_woken (w : SuspendWorld ρ) :
    { w with
      point := w.point.woken
      handler := w.handler.map SuspendHandlerPoint.woken
      suspender := .idle }.resumeRegs = w.resumeRegs := by
  unfold resumeRegs
  match w.handler with
  | none => rfl
  | some p => cases p <;> rfl

theorem Inv.resumeRegs_of_saved (h : w.Inv acked) {saved : Option ρ} {p : SuspenderPoint}
    (hsaved : w.suspendedRegisters.isSome = true → saved = w.suspendedRegisters) :
    { w with suspendedRegisters := saved, suspender := p }.resumeRegs = w.resumeRegs := by
  have hok := h.handler
  unfold resumeRegs
  match hp : w.handler with
  | none => rfl
  | some q =>
    rw [hp] at hok
    dsimp only
    split_ifs with hrestores
    · rw [hsaved (hok.saved hrestores)]
    · rfl

theorem Inv.advanceSuspender (h : w.Inv acked) (fresh : ρ) :
    Sound w.resumeRegs (w.advanceSuspender fresh w.suspender) := by
  have hword := h.word
  have hroles := h.roles
  have hok := h.suspender
  cases hq : w.suspender with
  | suspendLoad saveRegisters =>
    have hrole := congrArg SuspenderPoint.role hq
    rw [hq] at hword
    rw [SuspendWorld.advanceSuspender]
    split_ifs with hsuspending
    · exact absurd (hword ▸ (stateWord_and_suspending _ _ _).2 rfl) hsuspending
    · exact ⟨⟨acked, h.of_suspender_role hrole.symm (ne_of_eq_of_ne hq nofun) trivial⟩, rfl⟩
  | suspendSwap saveRegisters old =>
    have hrole := congrArg SuspenderPoint.role hq
    rw [hq] at hword hroles
    obtain ⟨rfl, -⟩ := of_rolesAgree_off hroles
    rw [SuspendWorld.advanceSuspender]
    split_ifs with hstate
    · have hold : old = w.point.mode.word :=
        hstate.symm.trans (hword.trans (word_eq_stateWord _).symm)
      refine ⟨⟨false, ?_, hroles, ?_, hold, ?_⟩, rfl⟩
      · exact hold ▸ word_or_suspending _
      · exact h.handler.of_waking fun hwake => absurd (hq.symm.trans hwake) nofun
      · exact h.point.of_waking fun _ => Or.inl rfl
    · exact ⟨⟨false, h.of_suspender_role hrole.symm (ne_of_eq_of_ne hq nofun) trivial⟩, rfl⟩
  | suspendCheck saveRegisters old =>
    have hrole := congrArg SuspenderPoint.role hq
    rw [hq] at hword hroles hok
    obtain ⟨rfl, -⟩ := of_rolesAgree_requesting hroles
    obtain rfl : old = w.point.mode.word := hok
    have hstate : w.suspendState = w.point.mode.word ||| appThreadSuspending :=
      hword.trans (word_or_suspending _).symm
    rw [SuspendWorld.advanceSuspender, if_neg (not_not.2 hstate)]
    split_ifs with huntrusted
    · rw [word_eq_stateWord, word_eq_stateWord] at huntrusted
      exact ⟨⟨false, h.of_suspender_role hrole.symm (ne_of_eq_of_ne hq nofun)
        (stateWord_inj huntrusted).1⟩, rfl⟩
    · have hmode : w.point.mode ≠ .untrusted := fun hmode => huntrusted (congrArg _ hmode)
      exact ⟨⟨false, h.of_suspender (congrArg SuspenderRole.requested hrole).symm
        (ne_of_eq_of_ne hq nofun) (rolesAgree_hold hroles hmode) fun h => absurd h hmode⟩, rfl⟩
  | allocate saveRegisters =>
    rw [hq] at hword hroles hok
    obtain ⟨rfl, -, harriving⟩ := of_rolesAgree_requesting hroles
    have hsaved : w.suspendedRegisters.isSome = true →
        (if saveRegisters && w.suspendedRegisters.isNone then some fresh
          else w.suspendedRegisters).isSome = true := by
      split_ifs <;> simp
    refine ⟨⟨false, hword, hroles, ?_, ⟨hok, ?_⟩, ?_⟩, ?_⟩
    · exact (h.handler.of_saved harriving hsaved).of_waking
        fun hwake => absurd (hq.symm.trans hwake) nofun
    · rintro rfl
      cases w.suspendedRegisters <;> rfl
    · exact h.point.of_waking fun _ => Or.inl rfl
    · exact h.resumeRegs_of_saved fun hsome => if_neg (by simp [Option.isSome_iff_ne_none.1 hsome])
  | kill saveRegisters =>
    rw [hq] at hword hroles hok
    obtain ⟨rfl, -, harriving⟩ := of_rolesAgree_requesting hroles
    refine ⟨⟨false, hword, ?_, ?_, hok.2, ?_⟩, rfl⟩
    · change rolesAgree w.point.mode .waiting false true _ = true
      rw [hok.1]
      exact rolesAgree_waiting harriving
    · exact h.handler.of_waking fun hwake => absurd (hq.symm.trans hwake) nofun
    · exact h.point.of_waking fun _ => Or.inl rfl
  | waitLoad saveRegisters =>
    have hrole := congrArg SuspenderPoint.role hq
    rw [hq] at hword hroles hok
    obtain hmode := mode_of_rolesAgree_waiting hroles
    rw [hmode] at hword
    rw [SuspendWorld.advanceSuspender]
    split_ifs with hbase hacked
    · exact ⟨⟨acked, h.of_suspender_role hrole.symm (ne_of_eq_of_ne hq nofun) ⟨hok, hbase⟩⟩, rfl⟩
    · cases acked with
      | true => exact absurd (hword.trans kBaseState_or_suspended.symm) hacked
      | false => exact absurd (hword.trans kBaseState_eq.symm) hbase
    · rw [not_not, hword, kBaseState_or_suspended] at hacked
      obtain rfl := (stateWord_inj hacked).2.2
      exact ⟨⟨true, h.of_suspender (congrArg SuspenderRole.requested hrole).symm
        (ne_of_eq_of_ne hq nofun) (rolesAgree_acked hroles) fun _ => hok⟩, rfl⟩
  | waitFutex saveRegisters state =>
    have hrole := congrArg SuspenderPoint.role hq
    rw [hq] at hword hroles hok
    rw [SuspendWorld.advanceSuspender]
    split_ifs with hstate
    · refine ⟨⟨acked, h.of_suspender_role hrole.symm (ne_of_eq_of_ne hq nofun)
        ⟨hok.1, hok.2, Or.inl ?_⟩⟩, rfl⟩
      rw [hok.2, hword, kBaseState_eq] at hstate
      exact (stateWord_inj hstate).2.2
    · exact ⟨⟨acked, h.of_suspender_role hrole.symm (ne_of_eq_of_ne hq nofun) hok.1⟩, rfl⟩
  | resumeLoad =>
    have hrole := congrArg SuspenderPoint.role hq
    rw [hq] at hword
    rw [SuspendWorld.advanceSuspender]
    split_ifs with hsuspending
    · rw [hword, stateWord_and_suspending] at hsuspending
      cases hsuspending
    · exact ⟨⟨acked, h.of_suspender_role hrole.symm (ne_of_eq_of_ne hq nofun) trivial⟩, rfl⟩
  | resumeSwap old =>
    have hrole := congrArg SuspenderPoint.role hq
    rw [hq] at hword hroles
    rw [SuspendWorld.advanceSuspender]
    split_ifs with hstate
    · rw [← hstate, hword]
      refine ⟨⟨false, stateWord_and_not _ _ _, rolesAgree_cleared hroles, ?_, trivial, ?_⟩, rfl⟩
      · exact h.handler.of_cleared rfl
      · exact h.point.of_waking fun _ => Or.inr rfl
    · exact ⟨⟨acked, h.of_suspender_role hrole.symm (ne_of_eq_of_ne hq nofun) trivial⟩, rfl⟩
  | resumeWake =>
    rw [hq] at hword hroles
    refine ⟨⟨acked, ?_, ?_, h.handler.woken, trivial, ?_⟩, ?_⟩
    · exact hword.trans (congrArg (stateWord · _ _) w.point.mode_woken.symm)
    · simp only [AppThreadPoint.mode_woken, suspendHandlerRole_woken]
      exact hroles
    · rw [Option.isSome_map]
      exact h.point.woken
    · exact resumeRegs_woken w
  | idle | waitAsleep | suspended => rfl

/-! ## Every step -/

/-- The registers with which the thread goes on after a step: the thread's own code changes them, and
a modification when the thread has been suspended in untrusted code. -/
def registersAfter (isUntrusted : ρ → Bool) (w : SuspendWorld ρ) : SuspendEvent ρ → ρ
  | .run regs => regs
  | .setRegisters regs =>
    if w.suspendedUntrusted && isUntrusted w.resumeRegs then regs else w.resumeRegs
  | _ => w.resumeRegs

theorem Inv.returned (h : w.Inv acked) {p : SuspendHandlerPoint} (hp : w.handler = some p) :
    Sound w.resumeRegs (.ok { w with handler := some p.returned }) := by
  have hok := h.handler
  rw [hp] at hok
  have hsame : { w with handler := some p } = w := by rw [← hp]
  cases p with
  | wait | asleep => exact ⟨⟨acked, h.of_handler hp rfl nofun hok.1⟩, resumeRegs_of_handler hp rfl⟩
  | _ => exact hsame.symm ▸ ⟨⟨acked, h⟩, rfl⟩

theorem Inv.takeSignal (h : w.Inv acked) (isUntrusted : ρ → Bool) (enableFaultedThreadQueue : Bool)
    (signal : ℕ) :
    Sound w.resumeRegs (w.takeSignal isUntrusted enableFaultedThreadQueue signal) := by
  unfold SuspendWorld.takeSignal
  cases hblocked : w.handler.isSome || !w.point.interruptible with
  | true => rfl
  | false =>
    obtain ⟨hnone, hinterruptible⟩ : w.handler = none ∧ w.point.interruptible = true := by
      simpa using hblocked
    have hsome : w.handler.isSome = false := congrArg Option.isSome hnone
    rw [if_neg Bool.false_ne_true]
    cases naclThreadSuspensionSignalHandler signal (isUntrusted w.regs) enableFaultedThreadQueue with
    | handleSuspendSignal =>
      dsimp only
      split_ifs with hpending
      · have hpoint := h.point
        exact h.take hnone hpending w.point.mode_interrupted (hpoint.interrupted hinterruptible)
      · rfl
    | handleUntrustedFault =>
      dsimp only
      split_ifs with hrunning
      · exact ⟨⟨acked, h.of_point (congrArg AppThreadPoint.mode hrunning).symm hsome⟩, rfl⟩
      · rfl
    | notHandled => rfl

theorem Inv.suspendedRegisters_eq (h : w.Inv acked) (hq : w.suspender = .suspended true)
    (huntrusted : w.suspendedUntrusted = true) :
    ∃ p, w.handler = some p ∧ p.restores = true ∧ w.suspendedRegisters = some w.resumeRegs := by
  have hroles := h.roles
  have hsuspender := h.suspender
  rw [hq] at hroles hsuspender
  have hmode : w.point.mode = .untrusted := by
    have hne := of_decide_eq_true huntrusted
    rw [h.word, ne_eq, stateWord_and_untrusted] at hne
    cases hm : w.point.mode with
    | untrusted => rfl
    | trusted => exact absurd hm hne
  have hsaved := hsuspender hmode rfl
  obtain ⟨-, ⟨-, rfl, hparked⟩ | ⟨htrusted, -⟩⟩ := of_rolesAgree_holding hroles
  · have hok := h.handler
    match hp : w.handler with
    | none => rw [hp] at hparked; cases hparked
    | some p =>
      rw [hp] at hok hparked
      have hrestores := hok.restores hparked hsaved
      refine ⟨p, rfl, hrestores, ?_⟩
      obtain ⟨saved, hsome⟩ := Option.isSome_iff_exists.1 hsaved
      simp [resumeRegs, hp, hrestores, hsome]
  · rw [hmode] at htrusted
    cases htrusted

theorem Inv.setSuspendedRegisters (h : w.Inv acked) (isUntrusted : ρ → Bool)
    (hq : w.suspender = .suspended true) (regs : ρ) :
    Sound (w.registersAfter isUntrusted (.setRegisters regs))
      (w.setSuspendedRegisters isUntrusted regs) := by
  unfold SuspendWorld.setSuspendedRegisters registersAfter
  cases huntrusted : w.suspendedUntrusted with
  | false => exact ⟨⟨acked, h⟩, rfl⟩
  | true =>
    obtain ⟨p, hp, hrestores, hsaved⟩ := h.suspendedRegisters_eq hq huntrusted
    simp only [getSuspendedRegistersInternal, hsaved, if_true, Bool.true_and]
    split_ifs
    · have hsome : w.suspendedRegisters.isSome = true := congrArg Option.isSome hsaved
      have hhandler := h.handler
      have hsuspender := h.suspender
      rw [hsome] at hhandler hsuspender
      refine ⟨⟨acked, h.word, h.roles, hhandler, hsuspender, h.point⟩, ?_⟩
      simp [resumeRegs, hp, hrestores]
    · exact ⟨⟨acked, h⟩, rfl⟩

theorem Inv.suspenderReturned (h : w.Inv acked) :
    Sound w.resumeRegs (.ok { w with suspender := w.suspender.returned }) := by
  by_cases hwake : w.suspender = .resumeWake
  · have hsame : w.suspender.returned = w.suspender := by
      rw [hwake]
      rfl
    rw [hsame]
    exact ⟨⟨acked, h⟩, rfl⟩
  · exact ⟨⟨acked, h.of_suspender_role w.suspender.role_returned hwake h.suspender.returned⟩, rfl⟩

theorem Inv.unblockIfFaulted (h : w.Inv acked) (hq : w.suspender.role = .holding) :
    Sound w.resumeRegs (w.unblockIfFaulted.map Prod.snd) := by
  have hword := h.word
  have hroles := h.roles
  rw [hq] at hword hroles
  unfold SuspendWorld.unblockIfFaulted
  split_ifs with hstate
  · exact ⟨⟨acked, h⟩, rfl⟩
  · exact ⟨⟨acked, h.word, h.roles, h.handler, h.suspender, h.point⟩, rfl⟩
  · refine absurd ?_ hstate
    obtain ⟨-, ⟨hmode, rfl, -⟩ | ⟨hmode, rfl, -⟩⟩ := of_rolesAgree_holding hroles
    · rw [hmode] at hword
      exact Or.inl (hword.trans kBaseState_or_suspended.symm)
    · rw [hmode] at hword
      exact Or.inr (hword.trans (word_or_suspending .trusted).symm)

theorem Inv.step (h : w.Inv acked) (isUntrusted : ρ → Bool) (enableFaultedThreadQueue : Bool)
    (e : SuspendEvent ρ) :
    Sound (w.registersAfter isUntrusted e) (w.step isUntrusted enableFaultedThreadQueue e) := by
  cases e with
  | run regs =>
    simp only [SuspendWorld.step]
    cases hp : w.handler.isSome with
    | true => rfl
    | false =>
      have hnone : w.handler = none := by simpa using hp
      have hok : Sound regs (.ok { w with regs }) :=
        ⟨⟨acked, h.word, h.roles, h.handler, h.suspender, h.point⟩, by simp [resumeRegs, hnone]⟩
      have hguard : Sound regs
          (if isUntrusted regs then .error .blocked else .ok { w with regs }) := by
        split_ifs
        · rfl
        · exact hok
      rw [if_neg Bool.false_ne_true]
      split
      · exact hok
      · exact hguard
      · exact hguard
      · exact hguard
      · rfl
  | setState new =>
    simp only [SuspendWorld.step]
    split
    · rename_i old hp hq
      split_ifs
      · rfl
      · exact ⟨⟨acked, h.of_point (congrArg AppThreadPoint.mode hq).symm trivial⟩, rfl⟩
    · rfl
  | signal signal => exact h.takeSignal isUntrusted enableFaultedThreadQueue signal
  | thread =>
    simp only [SuspendWorld.step]
    split
    · rename_i p hp
      exact h.handleSuspendSignal hp
    · rename_i hp
      exact h.advanceThread hp
  | threadSpurious =>
    simp only [SuspendWorld.step]
    split
    · rename_i p hp
      exact h.returned hp
    · exact ⟨⟨acked, h.of_point w.point.mode_returned h.point.returned⟩, rfl⟩
  | suspend saveRegisters =>
    simp only [SuspendWorld.step]
    split_ifs with hq
    · exact ⟨⟨acked, h.of_suspender_role (congrArg SuspenderPoint.role hq).symm
        (ne_of_eq_of_ne hq nofun) trivial⟩, rfl⟩
    · rfl
  | resume =>
    simp only [SuspendWorld.step]
    split
    · rename_i saveRegisters hq
      exact ⟨⟨acked, h.of_suspender_role (congrArg SuspenderPoint.role hq).symm
        (ne_of_eq_of_ne hq nofun) trivial⟩, rfl⟩
    · rfl
  | suspender fresh => exact h.advanceSuspender fresh
  | suspenderSpurious => exact h.suspenderReturned
  | getRegisters =>
    simp only [SuspendWorld.step]
    split_ifs with hq huntrusted
    · obtain ⟨-, -, -, hsaved⟩ := h.suspendedRegisters_eq hq huntrusted
      simp only [getSuspendedRegistersInternal, hsaved]
      exact ⟨⟨acked, h⟩, rfl⟩
    · exact ⟨⟨acked, h⟩, rfl⟩
    · rfl
  | setRegisters regs =>
    simp only [SuspendWorld.step]
    split_ifs with hq
    · exact h.setSuspendedRegisters isUntrusted hq regs
    · rfl
  | unblockIfFaulted =>
    simp only [SuspendWorld.step]
    split
    · rename_i saveRegisters hq
      exact h.unblockIfFaulted (congrArg SuspenderPoint.role hq)
    · rfl

/-! ## A suspended thread -/

/-- From the return of `NaClUntrustedThreadSuspend` to the swap of `NaClUntrustedThreadResume`. -/
def Suspended (w : SuspendWorld ρ) : Prop := w.suspender.role = .holding

theorem Inv.not_running (h : w.Inv acked) (hsuspended : w.Suspended) (hp : w.handler = none) :
    w.point ≠ .running .untrusted := by
  have hroles := h.roles
  rw [hsuspended, hp] at hroles
  obtain ⟨-, ⟨-, -, hparked⟩ | ⟨hmode, -⟩⟩ := of_rolesAgree_holding hroles
  · cases hparked
  · exact fun hpoint => absurd (hmode.symm.trans (congrArg _ hpoint)) (by decide)

theorem suspendState_of_handleSuspendSignal {p : SuspendHandlerPoint} (hp : p.role ≠ .arriving)
    (hstep : w.handleSuspendSignal p = .ok w') : w'.suspendState = w.suspendState := by
  cases p with
  | entry | check | save | load | store => exact absurd rfl hp
  | wake => cases hstep; rfl
  | test =>
    rw [SuspendWorld.handleSuspendSignal] at hstep
    split_ifs at hstep <;> cases hstep <;> rfl
  | wait =>
    rw [SuspendWorld.handleSuspendSignal] at hstep
    split_ifs at hstep <;> cases hstep <;> rfl
  | asleep => cases hstep
  | apply =>
    rw [SuspendWorld.handleSuspendSignal] at hstep
    split at hstep
    · cases hstep
    · cases hstep
      rfl

theorem suspendState_of_advanceThread (hrequested : w.suspendState &&& appThreadSuspending ≠ 0)
    (hstep : w.advanceThread w.point = .ok w') : w'.suspendState = w.suspendState := by
  cases hq : w.point with
  | swapping old new =>
    rw [hq, SuspendWorld.advanceThread] at hstep
    split_ifs at hstep with hstate
    · refine absurd ?_ hrequested
      rw [hstate, word_eq_stateWord, stateWord_and_suspending]
    · cases hstep
      rfl
  | swapWaiting =>
    rw [hq, SuspendWorld.advanceThread] at hstep
    split_ifs at hstep <;> cases hstep <;> rfl
  | faultCheck | sigwait | faultTest =>
    rw [hq, SuspendWorld.advanceThread] at hstep
    split_ifs at hstep <;> cases hstep <;> rfl
  | faultMark | faultCount | faultEvent =>
    rw [hq] at hstep
    cases hstep
    rfl
  | running | swapAsleep | faultSuspended =>
    rw [hq] at hstep
    cases hstep

theorem Inv.suspendState_of_suspended (h : w.Inv acked) (hsuspended : w.Suspended)
    {isUntrusted : ρ → Bool} {enableFaultedThreadQueue : Bool} {e : SuspendEvent ρ}
    (he : e.OfThread) (hstep : w.step isUntrusted enableFaultedThreadQueue e = .ok w') :
    w'.suspendState = w.suspendState := by
  have hroles := h.roles
  rw [hsuspended] at hroles
  have hrequested : w.suspendState &&& appThreadSuspending ≠ 0 := by
    rw [h.word, hsuspended, ne_eq, stateWord_and_suspending]
    decide
  cases e with
  | run regs =>
    simp only [SuspendWorld.step] at hstep
    generalize w.handler.isSome = handling at hstep
    generalize isUntrusted regs = untrusted at hstep
    cases handling with
    | true => cases hstep
    | false =>
      rw [if_neg Bool.false_ne_true] at hstep
      split at hstep <;> cases untrusted <;> cases hstep <;> rfl
  | setState new =>
    simp only [SuspendWorld.step] at hstep
    split at hstep
    · split_ifs at hstep
      cases hstep
      rfl
    · cases hstep
  | signal signal =>
    simp only [SuspendWorld.step, SuspendWorld.takeSignal] at hstep
    generalize naclThreadSuspensionSignalHandler _ _ _ = handler at hstep
    cases handler <;> split_ifs at hstep <;> cases hstep <;> rfl
  | thread =>
    simp only [SuspendWorld.step] at hstep
    split at hstep
    · rename_i p hp
      rw [hp] at hroles
      refine suspendState_of_handleSuspendSignal (fun harriving => ?_) hstep
      rw [suspendHandlerRole, harriving] at hroles
      exact absurd (of_rolesAgree_arriving hroles).2.1 (by decide)
    · exact suspendState_of_advanceThread hrequested hstep
  | threadSpurious =>
    simp only [SuspendWorld.step] at hstep
    split at hstep <;> cases hstep <;> rfl
  | _ => exact he.elim

/-- Whoever is asleep on the futex still finds the value it waits for, or is going to be woken. -/
structure NoLostWake (w : SuspendWorld ρ) : Prop where
  suspender : ∀ saveRegisters state, w.suspender = .waitAsleep saveRegisters state →
    w.suspendState = state ∨ ∃ saves, w.handler = some (.wake saves)
  thread : ∀ old new state, w.point = .swapAsleep old new state →
    w.suspendState = state ∨ w.suspender = .resumeWake
  handler : ∀ saves state, w.handler = some (.asleep saves state) →
    w.suspendState = state ∨ w.suspender = .resumeWake

theorem Inv.noLostWake (h : w.Inv acked) : w.NoLostWake := by
  refine ⟨fun saveRegisters state hq => ?_, fun old new state hq => ?_, fun saves state hp => ?_⟩
  · have hword := h.word
    have hroles := h.roles
    have hok := h.suspender
    rw [hq] at hword hroles hok
    obtain ⟨-, rfl, rfl | hwake⟩ := hok
    · rw [mode_of_rolesAgree_waiting hroles] at hword
      exact Or.inl (hword.trans kBaseState_eq.symm)
    · exact Or.inr hwake
  · have hword := h.word
    have hroles := h.roles
    have hok := h.point
    rw [hq] at hword hok
    obtain ⟨hnone, rfl, hrequested | hwake⟩ := hok
    · rw [Option.isSome_eq_false_iff, Option.isNone_iff_eq_none] at hnone
      rw [hnone] at hroles
      rw [hrequested, acked_of_rolesAgree_away hroles] at hword
      exact Or.inl (hword.trans (word_or_suspending old).symm)
    · exact Or.inr hwake
  · have hok := h.handler
    rw [hp] at hok
    obtain ⟨-, rfl, rfl | hwake⟩ := hok
    · exact Or.inl h.state_of_acked
    · exact Or.inr hwake

/-- What holds of the thread and its suspender in a state, for every next step. -/
structure SuspensionSound (isUntrusted : ρ → Bool) (enableFaultedThreadQueue : Bool)
    (w : SuspendWorld ρ) : Prop where
  noFault : ∀ e fault, w.step isUntrusted enableFaultedThreadQueue e ≠ .error (.fault fault)
  stopped : w.Suspended → w.handler = none → w.point ≠ .running .untrusted
  unchanged : w.Suspended → ∀ e w', e.OfThread →
    w.step isUntrusted enableFaultedThreadQueue e = .ok w' → w'.suspendState = w.suspendState
  saved : w.suspender = .suspended true → w.suspendedUntrusted = true →
    w.suspendedRegisters = some w.resumeRegs
  registers : ∀ e w', w.step isUntrusted enableFaultedThreadQueue e = .ok w' →
    w'.resumeRegs = w.registersAfter isUntrusted e
  own : w.handler = none → w.regs = w.resumeRegs
  awake : w.NoLostWake

theorem Inv.sound (h : w.Inv acked) (isUntrusted : ρ → Bool) (enableFaultedThreadQueue : Bool) :
    w.SuspensionSound isUntrusted enableFaultedThreadQueue where
  noFault e fault hfault := by
    have hsound := h.step isUntrusted enableFaultedThreadQueue e
    rw [hfault] at hsound
    cases hsound
  stopped := h.not_running
  unchanged hsuspended _ _ he hstep := h.suspendState_of_suspended hsuspended he hstep
  saved hq huntrusted := by
    obtain ⟨-, -, -, hsaved⟩ := h.suspendedRegisters_eq hq huntrusted
    exact hsaved
  registers e w' hstep := by
    have hsound := h.step isUntrusted enableFaultedThreadQueue e
    rw [hstep] at hsound
    exact hsound.2
  own hp := by simp [resumeRegs, hp]
  awake := h.noLostWake

/-- In every run no check fails; a suspended thread runs no untrusted code and leaves `suspend_state`
alone; the suspender sees and sets the registers with which the thread goes on, which nothing else
changes but the thread's own code; and no wake is lost. -/
theorem suspensionSound_of_run (isUntrusted : ρ → Bool) (enableFaultedThreadQueue : Bool) (regs : ρ)
    (events : List (SuspendEvent ρ)) (w : SuspendWorld ρ)
    (hrun : events.foldlM (step isUntrusted enableFaultedThreadQueue) (start regs) = .ok w) :
    w.SuspensionSound isUntrusted enableFaultedThreadQueue := by
  obtain ⟨acked, h⟩ := Runs.invariant (fun s e s' (h : ∃ acked, s.Inv acked) hstep => by
    obtain ⟨acked, h⟩ := h
    have hsound := h.step isUntrusted enableFaultedThreadQueue e
    rw [hstep] at hsound
    exact hsound.1) ⟨false, inv_start regs⟩ hrun
  exact h.sound isUntrusted enableFaultedThreadQueue

/-- A thread in untrusted code is suspended, its registers are modified, and it is resumed and
suspended again before it has woken. -/
def suspendedTwice : List (SuspendEvent ℕ) :=
  [[.setState .untrusted, .thread, .run 100, .suspend true], .replicate 5 (.suspender 0),
    [.signal threadSuspendSignal], .replicate 8 .thread, [.suspender 0, .setRegisters 200, .resume],
    .replicate 3 (.suspender 0), [.suspend true], .replicate 5 (.suspender 0),
    .replicate 2 .thread, [.signal threadSuspendSignal], .replicate 6 .thread,
    [.suspender 0]].flatten

theorem suspensionSound_of_run_suspendedTwice :
    ∃ w, suspendedTwice.foldlM (step (fun regs => decide (100 ≤ regs)) true) (start 0) = .ok w ∧
      w.suspender = .suspended true ∧ w.suspendedRegisters = some 200 ∧
      w.SuspensionSound (fun regs => decide (100 ≤ regs)) true := by
  obtain ⟨w, hrun, hsuspended, hregs⟩ := Runs.exists_ok_of_check
    (x := suspendedTwice.foldlM (step (fun regs => decide (100 ≤ regs)) true) (start 0))
    (fun w => decide (w.suspender = .suspended true ∧ w.suspendedRegisters = some 200))
    (fun _ => of_decide_eq_true) (by decide)
  exact ⟨w, hrun, hsuspended, hregs, suspensionSound_of_run _ _ 0 suspendedTwice w hrun⟩

end SuspendWorld

end SandboxingNaCl
