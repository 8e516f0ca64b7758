import SandboxingNaCl.DynLdr.NestedCalls
import SandboxingNaCl.DynLdr.ParamPassing

/-!
# Return values across the boundary

A sandboxed function returns to `exitFunctionWrapper`, which passes `rax` and `xmm0` in halves to
`NaClSysExitSandbox`; the host reads them from the thread (`functionCallReturn*`).  The other way, what
the host function of a callback returns is the result of a system call, which the stub of the slot
passes on to its caller.  The runs are those of nested calls and callbacks, so that any number of them
may lie between a call and its return.
-/

namespace SandboxingNaCl

open MachineInt

/-- `register_eax` and `register_xmm0` of a `NaClAppThread`. -/
structure ReturnRegisters where
  registerEax : BitVec 64
  registerXmm0 : BitVec 64

/-- The arguments of `NACL_sys_exit_sandbox` that carry the return value. -/
structure ExitArgs where
  registerRetBottom : BitVec 32
  registerRetTop : BitVec 32
  registerFloatRetBottom : BitVec 32
  registerFloatRetTop : BitVec 32

/-- `exitFunctionWrapper`, with the registers at the return of the sandboxed function. -/
def exitFunctionWrapper (rax xmm0 : BitVec 64) : ExitArgs where
  registerRetBottom := rax.setWidth 32
  registerRetTop := (rax >>> 32).setWidth 32
  registerFloatRetBottom := xmm0.setWidth 32
  registerFloatRetTop := (xmm0 >>> 32).setWidth 32

/-- The registers as `NaClSysExitSandbox` puts them together. -/
def ExitArgs.registers (args : ExitArgs) : ReturnRegisters where
  registerEax := args.registerRetTop.setWidth 64 <<< 32 ||| args.registerRetBottom.setWidth 64
  registerXmm0 :=
    args.registerFloatRetTop.setWidth 64 <<< 32 ||| args.registerFloatRetBottom.setWidth 64

/-- The state of nested calls, with the return registers of each sandbox's thread. -/
structure ReturnState (S : Type*) where
  calls : CallState S
  registers : S → ReturnRegisters

/-- The registers of the host when the host function of a callback returns. -/
structure HostReturn where
  rax : BitVec 64
  xmm0 : BitVec 64

inductive ReturnAction (S : Type*)
  | invoke (s : S) (functionPtr paramsSize arraysSize : ℕ)
  | exitSandbox (regs : SyscallRegs) (args : ExitArgs)
  | callback (regs : SyscallRegs) (callbackSlotNumber : ℕ)
  | syscall (regs : SyscallRegs) (sysret : ℕ)
  | returnCallback (host : HostReturn)

/-- The action without the values that it carries. -/
def ReturnAction.call {S : Type*} : ReturnAction S → CallAction S
  | .invoke s functionPtr paramsSize arraysSize => .invoke s functionPtr paramsSize arraysSize
  | .exitSandbox regs _ => .syscall regs .exitSandbox
  | .callback regs callbackSlotNumber => .syscall regs (.callback callbackSlotNumber)
  | .syscall regs sysret => .syscall regs (.other sysret)
  | .returnCallback host => .returnCallback host.rax.toNat

variable {S : Type*} [DecidableEq S] (space : S → AddressSpace) (slots : S → CallbackSlots)

/-- `NaClSysExitSandbox` writes the return registers of the current thread; nothing else does. -/
def returnRegisters (st : ReturnState S) : ReturnAction S → S → ReturnRegisters
  | .exitSandbox _ args =>
    match st.calls.current.tls with
    | some natp => Function.update st.registers natp args.registers
    | none => st.registers
  | _ => st.registers

def returnStep (st : ReturnState S) (a : ReturnAction S) : Except CallStop (ReturnState S) := do
  let calls ← callStep space slots st.calls a.call
  return { calls, registers := returnRegisters st a }

/-! ## What the host reads -/

def functionCallReturnRawPrimitiveInt (thread : ReturnRegisters) : BitVec 64 := thread.registerEax

def functionCallReturnFloat (thread : ReturnRegisters) : BitVec 32 := thread.registerXmm0.setWidth 32

def functionCallReturnDouble (thread : ReturnRegisters) : BitVec 64 := thread.registerXmm0

/-- `none` is the fatal error of `NaClUserToSys`. -/
def functionCallReturnPtr (as : AddressSpace) (thread : ReturnRegisters) : Option ℕ :=
  getUnsandboxedAddress as thread.registerEax.toNat

/-- What a sandboxed function returns. -/
inductive ReturnKind
  | integer (type : IntType)
  | pointer
  | float
  | double

/-- The address in the sandbox that a pattern in `rax` stands for. -/
def sandboxAddress (as : AddressSpace) (rax : BitVec 64) : ℕ :=
  if rax = 0 then 0 else as.memStart + rax.toNat % 2 ^ 32

/-- The host reads from the thread what the sandboxed function has left in its registers. -/
def ReturnKind.Delivered (as : AddressSpace) (rax xmm0 : BitVec 64) (thread : ReturnRegisters) :
    ReturnKind → Prop
  | .integer type => (functionCallReturnRawPrimitiveInt thread).setWidth (8 * type.size) =
      rax.setWidth (8 * type.size)
  | .pointer => functionCallReturnPtr as thread = some (sandboxAddress as rax)
  | .float => functionCallReturnFloat thread = xmm0.setWidth 32
  | .double => functionCallReturnDouble thread = xmm0

/-- A pointer has to be null, or its low half an address of the sandbox other than null. -/
def ReturnKind.Fits (as : AddressSpace) (rax : BitVec 64) : ReturnKind → Prop
  | .pointer => rax = 0 ∨ 0 < rax.toNat % 2 ^ 32 ∧ rax.toNat % 2 ^ 32 < 2 ^ as.addrBits
  | _ => True

/-! ## What the caller of a callback receives -/

/-- The builds of `NaClSysCallback`. -/
inductive BuildSubarch
  | x86_32
  | x86_64

/-- What `NaClSysCallback` stores at `floatRetAddr` when the host function has returned. -/
def floatRetStore : BuildSubarch → HostReturn → Option (BitVec 32)
  | .x86_32, host => some (host.rax.setWidth 32)
  | .x86_64, _ => none

/-- The stub of the slot for callbacks that return a float: its variable `ret` starts at 0, and its
address is the `floatRetAddr` of the system call. -/
def callbackFunctionWrapperFloat (subarch : BuildSubarch) (host : HostReturn) : BitVec 32 :=
  (floatRetStore subarch host).getD 0

/-- `CALLBACK_RETURN_PTR`: what a callback that returns a pointer leaves in `rax`. -/
def callbackReturnPtr (as : AddressSpace) (value : ℕ) : Option (BitVec 64) :=
  (getSandboxedAddress as value).map (BitVec.ofNat 64)

/-- What the host function of a callback returns: an integer, a pointer of the host, or a float through
the last slot. -/
inductive CallbackKind
  | integer (type : IntType)
  | pointer (value : ℕ)
  | float

/-- The host function has left a value of this kind in its registers. -/
def CallbackKind.Returned (as : AddressSpace) (host : HostReturn) : CallbackKind → Prop
  | .pointer value => callbackReturnPtr as value = some host.rax
  | _ => True

/-- The sandboxed caller finds in its registers, of which `rax` holds `sysret`, what the host function
has returned. -/
def CallbackKind.Delivered (sysret : ℕ) (host : HostReturn) : CallbackKind → Prop
  | .integer type => BitVec.ofNat (8 * type.size) sysret = host.rax.setWidth (8 * type.size)
  | .pointer _ => BitVec.ofNat 64 sysret = host.rax
  | .float => callbackFunctionWrapperFloat .x86_64 host = host.xmm0.setWidth 32

/-- A `long` must have a zero upper half, and a float be positive zero. -/
def CallbackKind.Fits (host : HostReturn) : CallbackKind → Prop
  | .integer type => type = .long → host.rax.toNat < 2 ^ 32
  | .pointer _ => True
  | .float => host.xmm0.setWidth 32 = 0

variable {space slots}

/-! ## Values -/

theorem append_halves (x : BitVec 64) :
    ((x >>> 32).setWidth 32).setWidth 64 <<< 32 ||| (x.setWidth 32).setWidth 64 = x := by
  apply BitVec.eq_of_getLsbD_eq
  intro i hi
  by_cases hlow : i < 32
  · simp [hi, hlow]
  · have hsub : i - 32 < 32 := by omega
    have hadd : 32 + (i - 32) = i := by omega
    simp [hi, hlow, hsub, hadd]

theorem registers_exitFunctionWrapper (rax xmm0 : BitVec 64) :
    (exitFunctionWrapper rax xmm0).registers = ⟨rax, xmm0⟩ := by
  rw [ExitArgs.registers, exitFunctionWrapper, append_halves, append_halves]

theorem functionCallReturnPtr_iff (as : AddressSpace) (rax xmm0 : BitVec 64) :
    functionCallReturnPtr as ⟨rax, xmm0⟩ = some (sandboxAddress as rax) ↔
      ReturnKind.pointer.Fits as rax := by
  have hlt := as.lt
  have hmask := Nat.and_two_pow_sub_one_eq_mod rax.toNat 32
  have hzero : rax.toNat = 0 ↔ rax = 0 := by
    rw [← BitVec.toNat_inj]
    rfl
  rw [functionCallReturnPtr, getUnsandboxedAddress, sandboxAddress, ReturnKind.Fits]
  by_cases h0 : rax = 0
  · simp [h0]
  · rw [if_neg (fun h => h0 (hzero.1 h)), if_neg h0, or_iff_right h0, hmask, naclUserToSys]
    by_cases hfit : 0 < rax.toNat % 2 ^ 32 ∧ rax.toNat % 2 ^ 32 < 2 ^ as.addrBits
    · rw [if_neg (by omega), uadd_eq (by omega), Nat.add_comm]
      exact iff_of_true rfl hfit
    · rw [if_pos (by omega)]
      exact iff_of_false (by simp) hfit

theorem ReturnKind.delivered_iff (as : AddressSpace) (rax xmm0 : BitVec 64) (kind : ReturnKind) :
    kind.Delivered as rax xmm0 (exitFunctionWrapper rax xmm0).registers ↔ kind.Fits as rax := by
  rw [registers_exitFunctionWrapper]
  cases kind with
  | pointer => exact functionCallReturnPtr_iff as rax xmm0
  | integer type => exact iff_of_true rfl trivial
  | float => exact iff_of_true rfl trivial
  | double => exact iff_of_true rfl trivial

theorem callbackReturnPtr_lt {as : AddressSpace} {value : ℕ} {rax : BitVec 64}
    (h : callbackReturnPtr as value = some rax) : rax.toNat < 2 ^ 32 := by
  have hpow : 2 ^ as.addrBits ≤ 2 ^ 32 := Nat.pow_le_pow_right (by decide) as.addrBits_le
  obtain ⟨u, hu, rfl⟩ := Option.map_eq_some_iff.1 h
  have hlt : u < 2 ^ 32 := by
    unfold getSandboxedAddress naclSysToUser at hu
    split_ifs at hu <;> cases hu <;> omega
  rw [BitVec.toNat_ofNat, Nat.mod_eq_of_lt (by omega)]
  exact hlt

theorem CallbackKind.delivered_iff {as : AddressSpace} {host : HostReturn} {kind : CallbackKind}
    (h : kind.Returned as host) :
    kind.Delivered (host.rax.toNat % 2 ^ 32) host ↔ kind.Fits host := by
  have hlt := host.rax.isLt
  cases kind with
  | float => exact eq_comm
  | pointer value =>
    refine iff_of_true ?_ trivial
    rw [CallbackKind.Delivered, Nat.mod_eq_of_lt (callbackReturnPtr_lt h), BitVec.ofNat_toNat,
      BitVec.setWidth_eq]
  | integer type =>
    rw [CallbackKind.Delivered, CallbackKind.Fits, ← BitVec.toNat_inj, BitVec.toNat_ofNat,
      BitVec.toNat_setWidth]
    cases type with
    | char => simp [IntType.size]
    | short => simp [IntType.size]
    | int => simp [IntType.size]
    | long =>
      simp only [IntType.size, forall_const]
      omega

/-! ## Runs -/

variable {st st' : ReturnState S}

theorem returnStep_calls {a : ReturnAction S} (h : returnStep space slots st a = .ok st') :
    callStep space slots st.calls a.call = .ok st'.calls := by
  unfold returnStep at h
  cases hcalls : callStep space slots st.calls a.call with
  | error e => rw [hcalls] at h; cases h
  | ok calls =>
    rw [hcalls] at h
    cases h
    rfl

def ReturnState.Linked (space : S → AddressSpace) (st : ReturnState S) : Prop :=
  st.calls.Linked space

theorem ReturnState.Linked.step (h : st.Linked space) {a : ReturnAction S}
    (hs : returnStep space slots st a = .ok st') : st'.Linked space :=
  CallState.Linked.step h (returnStep_calls hs)

theorem returnStep_of_callStep {a : ReturnAction S} {calls : CallState S}
    (h : callStep space slots st.calls a.call = .ok calls) :
    returnStep space slots st a = .ok { calls, registers := returnRegisters st a } := by
  rw [returnStep, h]
  rfl

theorem ReturnState.Linked.exists_exit (h : st.Linked space) {s : S} {regs : SyscallRegs} (args : ExitArgs)
    (hrun : st.calls.running = some s) (hrsp : StackPtrOk (space s) regs.rsp) :
    ∃ st', returnStep space slots st (.exitSandbox regs args) = .ok st' ∧
      st'.registers s = args.registers := by
  obtain ⟨saved, prev, before, rest, calls, -, hexit, -⟩ :=
    (CallState.Linked.exitReturns h : ExitReturns space slots st.calls) s regs hrun hrsp
  refine ⟨_, returnStep_of_callStep hexit, ?_⟩
  rw [ReturnState.Linked, CallState.Linked, hrun] at h
  obtain ⟨-, -, -, -, -, -, -, htls, -⟩ := h.running
  simp only [returnRegisters, htls, Function.update_self]

/-- When the host function of the innermost callback returns, its caller goes on with the low half of
the result in `rax`. -/
theorem ReturnState.Linked.exists_callbackReturn (h : st.Linked space) {natp : S} {saved : ThreadContext}
    {before : Snapshot S} {rest : List (Frame S)}
    (hframes : st.calls.frames = .callback natp saved before :: rest) (host : HostReturn) :
    ∃ st' th, returnStep space slots st (.returnCallback host) = .ok st' ∧
      st'.calls.running = some natp ∧ st'.calls.current.threads natp = some th ∧
      th.user.sysret = host.rax.toNat % 2 ^ 32 := by
  rw [ReturnState.Linked, CallState.Linked, hframes] at h
  obtain ⟨hrun, -, -, hready, hsame, th₀, hth₀, -⟩ := h
  have hview := hsame natp
  rw [hth₀] at hview
  obtain ⟨th, hth, -⟩ := Option.map_eq_some_iff.1 hview
  obtain ⟨-, htrusted⟩ := hready natp th hth
  have hreturn : callStep space slots st.calls (ReturnAction.call (.returnCallback host)) =
      .ok (syscallReturn { st.calls with frames := rest } natp { th with user := saved }
        host.rax.toNat) := by
    simp only [ReturnAction.call, callStep, naclSysCallbackReturn, hrun, hframes, hth,
      if_pos htrusted]
  exact ⟨_, _, returnStep_of_callStep hreturn, rfl, setThread_self .., rfl⟩

/-- In every run, with calls and callbacks nested in any way: when a sandboxed function returns, the
host reads its integer, float or double as it was, and a pointer exactly when it is null or its low half
is not; when the host function of a callback returns, its caller receives pointers and integers of up to
32 bits as they were, a `long` exactly when its upper half is zero, and a float exactly when it is
positive zero. -/
theorem returnValues_iff (space : S → AddressSpace) (slots : S → CallbackSlots)
    (st₀ st : ReturnState S) (l : List (ReturnAction S)) (hidle : st₀.calls.Idle space)
    (hrun : l.foldlM (returnStep space slots) st₀ = .ok st) :
    (∀ s regs rax xmm0, st.calls.running = some s → StackPtrOk (space s) regs.rsp →
      ∃ st', returnStep space slots st (.exitSandbox regs (exitFunctionWrapper rax xmm0)) = .ok st' ∧
        ∀ kind : ReturnKind,
          kind.Delivered (space s) rax xmm0 (st'.registers s) ↔ kind.Fits (space s) rax) ∧
    (∀ natp saved before rest host, st.calls.frames = .callback natp saved before :: rest →
      ∃ st' th, returnStep space slots st (.returnCallback host) = .ok st' ∧
        st'.calls.running = some natp ∧ st'.calls.current.threads natp = some th ∧
        ∀ kind : CallbackKind, kind.Returned (space natp) host →
          (kind.Delivered th.user.sysret host ↔ kind.Fits host)) := by
  have hlinked : st.Linked space := Runs.invariant (fun _ _ _ h hs => h.step hs) hidle.linked hrun
  constructor
  · intro s regs rax xmm0 hs hrsp
    obtain ⟨st', hstep, hregisters⟩ :=
      hlinked.exists_exit (exitFunctionWrapper rax xmm0) hs hrsp
    refine ⟨st', hstep, fun kind => ?_⟩
    rw [hregisters]
    exact kind.delivered_iff (space s) rax xmm0
  · intro natp saved before rest host hframes
    obtain ⟨st', th, hstep, hrunning, hth, hsysret⟩ :=
      hlinked.exists_callbackReturn hframes host
    refine ⟨st', th, hstep, hrunning, hth, fun kind hkind => ?_⟩
    rw [hsysret]
    exact CallbackKind.delivered_iff hkind

def idleReturnState : ReturnState Unit := ⟨idleCallState, fun _ => ⟨0, 0⟩⟩

def callbackRun : List (ReturnAction Unit) :=
  [.invoke () 0x100020000 0 0, .callback exampleRegs 3]

def nestedRun : List (ReturnAction Unit) :=
  callbackRun ++
    [.invoke () 0x100020000 0 0, .exitSandbox exampleRegs (exitFunctionWrapper 7 0)]

theorem returnValues_iff_nestedRun :
    ∃ st, nestedRun.foldlM
        (returnStep (fun _ => exampleSpace) fun _ => exampleSlots) idleReturnState = .ok st ∧
      (∀ s regs rax xmm0, st.calls.running = some s → StackPtrOk exampleSpace regs.rsp →
        ∃ st', returnStep (fun _ => exampleSpace) (fun _ => exampleSlots) st
            (.exitSandbox regs (exitFunctionWrapper rax xmm0)) = .ok st' ∧
          ∀ kind : ReturnKind,
            kind.Delivered exampleSpace rax xmm0 (st'.registers s) ↔ kind.Fits exampleSpace rax) ∧
      (∀ natp saved before rest host, st.calls.frames = .callback natp saved before :: rest →
        ∃ st' th, returnStep (fun _ => exampleSpace) (fun _ => exampleSlots) st
            (.returnCallback host) = .ok st' ∧
          st'.calls.running = some natp ∧ st'.calls.current.threads natp = some th ∧
          ∀ kind : CallbackKind, kind.Returned exampleSpace host →
            (kind.Delivered th.user.sysret host ↔ kind.Fits host)) :=
  ⟨_, rfl, returnValues_iff (fun _ => exampleSpace) (fun _ => exampleSlots) idleReturnState _
    nestedRun idleCallState_idle rfl⟩

/-- The host function of a callback returns `1L << 32`, and its caller receives 0. -/
theorem not_returnValues_delivered :
    ¬ ∀ (st₀ st st' : ReturnState Unit) (l : List (ReturnAction Unit)) (host : HostReturn)
        (th : AppThread),
      st₀.calls.Idle (fun _ => exampleSpace) →
      l.foldlM (returnStep (fun _ => exampleSpace) fun _ => exampleSlots) st₀ = .ok st →
      returnStep (fun _ => exampleSpace) (fun _ => exampleSlots) st (.returnCallback host) =
        .ok st' →
      st'.calls.current.threads () = some th →
      ∀ kind : CallbackKind, kind.Returned exampleSpace host →
        kind.Delivered th.user.sysret host := by
  intro h
  have hlong : BitVec.ofNat 64 0 = 0x100000000 :=
    h idleReturnState _ _ callbackRun ⟨0x100000000, 0⟩ _ idleCallState_idle rfl rfl rfl
      (.integer .long) trivial
  exact absurd hlong (by decide)

end SandboxingNaCl
