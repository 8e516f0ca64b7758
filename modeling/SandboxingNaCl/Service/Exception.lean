import SandboxingNaCl.Lib.ByteImage
import SandboxingNaCl.Lib.Runs
import SandboxingNaCl.Service.App

/-!
# Exception handlers of untrusted code

The delivery of a fault to untrusted code on x86-64 Linux: `DispatchToUntrustedHandler` of
`linux/nacl_signal.c` with the frame of `nacl_signal_common.c` and the system calls of
`sys_exception.c`.  The memory is the one of the sandbox, by user address; a store that its pages do
not allow ends the process.
-/

namespace SandboxingNaCl

open MachineInt Patches ByteImage Runs

/-- `NACL_STACK_ALIGN_MASK`, as the number of its bits. -/
def naclStackAlignBits : ℕ := 4

def naclStackArgsSize : ℕ := 0

def naclStackPadBelowAlign : ℕ := 8

def naclStackRedZone : ℕ := 128

def naclX86DirectionFlag : BitVec 32 := 1 <<< 10

/-- `EM_X86_64`, which is `NACL_ELF_E_MACHINE`. -/
def emX8664 : ℕ := 62

/-- The registers of `NaClSignalContext` on x86-64; the segment registers are not used there. -/
structure NaClSignalContext where
  (rax rbx rcx rdx rsi rdi rbp stackPtr r8 r9 r10 r11 r12 r13 r14 r15 progCtr : ℕ)
  flags : BitVec 32

/-! ## The frame -/

/-- `NaClUserRegisterStateX8664`. -/
structure NaClUserRegisterState where
  (rax rcx rdx rbx stackPtr rbp rsi rdi r8 r9 r10 r11 r12 r13 r14 r15 progCtr : ℕ)
  flags : BitVec 32

structure NaClExceptionContext where
  (size portableContextOffset portableContextSize arch regsSize : ℕ)
  reserved : List ℕ
  regs : NaClUserRegisterState

structure NaClExceptionPortableContext where
  (progCtr stackPtr framePtr : ℕ)

structure NaClExceptionFrame where
  returnAddr : ℕ
  context : NaClExceptionContext
  portable : NaClExceptionPortableContext

/-- `sizeof (NaClUserRegisterState)`: 17 registers, the flags and 4 bytes of padding. -/
def sizeofUserRegisterState : ℕ := 144

/-- `sizeof (NaClExceptionContext)`. -/
def sizeofExceptionContext : ℕ := 16 * 4 + sizeofUserRegisterState

/-- `sizeof (NaClExceptionPortableContext)`. -/
def sizeofExceptionPortableContext : ℕ := 12

/-- `offsetof (NaClExceptionFrame, context)`. -/
def offsetofContext : ℕ := 8

/-- `offsetof (NaClExceptionFrame, portable)`. -/
def offsetofPortable : ℕ := offsetofContext + sizeofExceptionContext

/-- `sizeof (NaClExceptionFrame)`, with 4 bytes of padding at its end. -/
def sizeofExceptionFrame : ℕ := offsetofPortable + sizeofExceptionPortableContext + 4

def naclUserRegisterStateFromSignalContext (src : NaClSignalContext) : NaClUserRegisterState where
  rax := src.rax
  rcx := src.rcx
  rdx := src.rdx
  rbx := src.rbx
  stackPtr := src.stackPtr
  rbp := src.rbp
  rsi := src.rsi
  rdi := src.rdi
  r8 := src.r8
  r9 := src.r9
  r10 := src.r10
  r11 := src.r11
  r12 := src.r12
  r13 := src.r13
  r14 := src.r14
  r15 := src.r15
  progCtr := src.progCtr
  flags := src.flags

def naclSignalSetUpExceptionFrame (regs : NaClSignalContext) : NaClExceptionFrame where
  returnAddr := 0
  context :=
    { size := sizeofExceptionContext + sizeofExceptionPortableContext
      portableContextOffset := sizeofExceptionContext
      portableContextSize := sizeofExceptionPortableContext
      arch := emX8664
      regsSize := sizeofUserRegisterState
      reserved := .replicate 11 0
      regs := naclUserRegisterStateFromSignalContext regs }
  portable :=
    { progCtr := regs.progCtr % 2 ^ 32
      stackPtr := regs.stackPtr % 2 ^ 32
      framePtr := regs.rbp % 2 ^ 32 }

/-- The registers as they lie in memory, without the padding behind them. -/
def NaClUserRegisterState.bytes (regs : NaClUserRegisterState) : List UInt8 :=
  ([regs.rax, regs.rcx, regs.rdx, regs.rbx, regs.stackPtr, regs.rbp, regs.rsi, regs.rdi, regs.r8,
    regs.r9, regs.r10, regs.r11, regs.r12, regs.r13, regs.r14, regs.r15, regs.progCtr].map
      (leBytes 8)).flatten ++ leBytes 4 regs.flags.toNat

/-- The frame up to the padding behind its registers. -/
def NaClExceptionFrame.contextBytes (frame : NaClExceptionFrame) : List UInt8 :=
  leBytes 8 frame.returnAddr ++
    ([frame.context.size, frame.context.portableContextOffset, frame.context.portableContextSize,
      frame.context.arch, frame.context.regsSize] ++ frame.context.reserved).flatMap (leBytes 4) ++
    frame.context.regs.bytes

def NaClExceptionFrame.portableBytes (frame : NaClExceptionFrame) : List UInt8 :=
  [frame.portable.progCtr, frame.portable.stackPtr, frame.portable.framePtr].flatMap (leBytes 4)

/-- The memory with the fields of the frame stored; the padding is left as it is. -/
def NaClExceptionFrame.store (frame : NaClExceptionFrame) (addr : ℕ) (mem : ℕ → UInt8) :
    ℕ → UInt8 :=
  write (write mem addr frame.contextBytes) (addr + offsetofPortable) frame.portableBytes

/-! ## The application and the thread -/

/-- The fields of `NaClApp` for exceptions, on x86-64: the sandbox has 4 GiB and begins at a multiple
of them, and the handler is null or an address in the code. -/
structure ExceptionApp where
  space : AddressSpace
  addrBits_eq : space.addrBits = 32
  memStart_dvd : 2 ^ 32 ∣ space.memStart
  enableExceptionHandling : Bool
  bundleSize : ℕ
  dynamicTextEnd : ℕ
  dynamicTextEnd_le : dynamicTextEnd ≤ 2 ^ 32
  exceptionHandler : ℕ
  exceptionHandler_lt : exceptionHandler < 2 ^ 32

/-- The fields of `NaClAppThread` for exceptions. -/
structure ExceptionThread where
  userR15 : ℕ
  exceptionStack : ℕ
  exceptionFlag : Bool

/-- The application and a thread of it, with the memory of the sandbox. -/
structure ExceptionState where
  nap : ExceptionApp
  natp : ExceptionThread
  mem : ℕ → UInt8

def naclIsUserAddr (space : AddressSpace) (sysaddr : ℕ) : Bool :=
  space.memStart ≤ sysaddr ∧ sysaddr < space.memStart + 2 ^ space.addrBits

def naclSignalCheckSandboxInvariants (regs : NaClSignalContext) (nap : ExceptionApp)
    (natp : ExceptionThread) : Bool :=
  !(regs.r15 ≠ natp.userR15 || !naclIsUserAddr nap.space regs.stackPtr ||
    !naclIsUserAddr nap.space regs.rbp)

/-- The subtraction of a constant from a `uint32_t`. -/
def sub32 (a b : ℕ) : ℕ := (a + (2 ^ 32 - b)) % 2 ^ 32

/-- `new_stack_ptr`, from the end of the stack on. -/
def newStackPtr (stackEnd : ℕ) : ℕ :=
  let newStackPtr := sub32 stackEnd (sizeofExceptionFrame - naclStackPadBelowAlign)
  let newStackPtr := alignDown naclStackAlignBits newStackPtr
  let newStackPtr := sub32 newStackPtr naclStackArgsSize
  sub32 newStackPtr naclStackPadBelowAlign

/-- What `DispatchToUntrustedHandler` returns and leaves. -/
structure DispatchResult where
  retval : ℕ
  regs : NaClSignalContext
  state : ExceptionState

/-- `DispatchToUntrustedHandler`, from the end of the stack for the frame on. -/
def pushFrameAndCall (s : ExceptionState) (regs : NaClSignalContext) (stackEnd : ℕ) :
    Except Fault DispatchResult :=
  let newStackPtr := newStackPtr stackEnd
  let frameAddr := naclUserToSysAddrRange s.nap.space newStackPtr sizeofExceptionFrame
  if frameAddr = kNaClBadAddress then
    .ok ⟨0, regs, s⟩
  else
    let contextUserAddr := newStackPtr + offsetofContext
    let frame := naclSignalSetUpExceptionFrame regs
    match naclUserToSys s.nap.space s.nap.exceptionHandler, naclUserToSys s.nap.space newStackPtr with
    | some progCtr, some stackPtr =>
      .ok ⟨1, { regs with
          rdi := contextUserAddr
          progCtr := progCtr
          stackPtr := stackPtr
          flags := regs.flags &&& ~~~naclX86DirectionFlag },
        { s with mem := frame.store (frameAddr - s.nap.space.memStart) s.mem }⟩
    | _, _ => .error .fatal

def dispatchToUntrustedHandler (s : ExceptionState) (regs : NaClSignalContext) :
    Except Fault DispatchResult :=
  if !naclSignalCheckSandboxInvariants regs s.nap s.natp then
    .ok ⟨0, regs, s⟩
  else if s.nap.exceptionHandler = 0 then
    .ok ⟨0, regs, s⟩
  else if s.natp.exceptionFlag then
    .ok ⟨0, regs, s⟩
  else
    pushFrameAndCall { s with natp := { s.natp with exceptionFlag := true } } regs
      (if s.natp.exceptionStack = 0 then sub32 regs.stackPtr naclStackRedZone
        else s.natp.exceptionStack)

/-! ## System calls -/

def naclIsValidJumpTarget (nap : ExceptionApp) (addr : ℕ) : Bool :=
  if addr &&& (nap.bundleSize - 1) ≠ 0 then false else addr < nap.dynamicTextEnd

theorem lt_of_naclIsValidJumpTarget {nap : ExceptionApp} {addr : ℕ}
    (h : naclIsValidJumpTarget nap addr = true) : addr < 2 ^ 32 := by
  unfold naclIsValidJumpTarget at h
  split_ifs at h
  exact (of_decide_eq_true h).trans_le nap.dynamicTextEnd_le

def naclSysExceptionHandler (s : ExceptionState) (handlerAddr oldHandler : ℕ) :
    Except NaClAbiErrno Unit × ExceptionState :=
  if !s.nap.enableExceptionHandling then
    (.error .enosys, s)
  else if hvalid : naclIsValidJumpTarget s.nap handlerAddr = true then
    if oldHandler ≠ 0 ∧ naclUserToSysAddrRange s.nap.space oldHandler 4 = kNaClBadAddress then
      (.error .efault, s)
    else
      let mem :=
        if oldHandler ≠ 0 then write s.mem oldHandler (leBytes 4 s.nap.exceptionHandler) else s.mem
      (.ok (), { s with
        mem := mem
        nap := { s.nap with
          exceptionHandler := handlerAddr
          exceptionHandler_lt := lt_of_naclIsValidJumpTarget hvalid } })
  else
    (.error .efault, s)

def naclSysExceptionStack (s : ExceptionState) (stackAddr stackSize : ℕ) :
    Except NaClAbiErrno Unit × ExceptionState :=
  if !s.nap.enableExceptionHandling then
    (.error .enosys, s)
  else if 2 ^ s.nap.space.addrBits ≤ (stackAddr + stackSize) % 2 ^ 32 then
    (.error .einval, s)
  else
    (.ok (), { s with natp := { s.natp with exceptionStack := (stackAddr + stackSize) % 2 ^ 32 } })

def naclSysExceptionClearFlag (s : ExceptionState) : Except NaClAbiErrno Unit × ExceptionState :=
  if !s.nap.enableExceptionHandling then
    (.error .enosys, s)
  else
    (.ok (), { s with natp := { s.natp with exceptionFlag := false } })

/-- What may happen to the thread. -/
inductive ExceptionEvent
  | untrusted (mem : ℕ → UInt8)
  | sysExceptionHandler (handlerAddr oldHandler : ℕ)
  | sysExceptionStack (stackAddr stackSize : ℕ)
  | sysExceptionClearFlag
  | fault (regs : NaClSignalContext)

/-- One event. -/
def ExceptionState.step (s : ExceptionState) : ExceptionEvent → Except Fault ExceptionState
  | .untrusted mem => .ok { s with mem := mem }
  | .sysExceptionHandler handlerAddr oldHandler =>
    .ok (naclSysExceptionHandler s handlerAddr oldHandler).2
  | .sysExceptionStack stackAddr stackSize => .ok (naclSysExceptionStack s stackAddr stackSize).2
  | .sysExceptionClearFlag => .ok (naclSysExceptionClearFlag s).2
  | .fault regs =>
    match dispatchToUntrustedHandler s regs with
    | .error fault => .error fault
    | .ok r => .ok r.state

/-! ## The place of the frame -/

theorem newStackPtr_lt (stackEnd : ℕ) : newStackPtr stackEnd < 2 ^ 32 := Nat.mod_lt _ (by decide)

theorem newStackPtr_aligned (stackEnd : ℕ) :
    (newStackPtr stackEnd + naclStackPadBelowAlign) % 2 ^ naclStackAlignBits = 0 := by
  simp only [newStackPtr, sub32, alignDown, naclStackAlignBits, naclStackArgsSize,
    naclStackPadBelowAlign]
  omega

/-- The subtractions below the end of a stack, over the integers, where nothing wraps. -/
def framePlace (stackEnd : ℤ) : ℤ :=
  (stackEnd - (sizeofExceptionFrame - naclStackPadBelowAlign)) / 2 ^ naclStackAlignBits *
    2 ^ naclStackAlignBits - naclStackArgsSize - naclStackPadBelowAlign

theorem newStackPtr_eq {stackEnd : ℕ} (hlt : stackEnd < 2 ^ 32) (h : 0 ≤ framePlace stackEnd) :
    (newStackPtr stackEnd : ℤ) = framePlace stackEnd := by
  simp only [framePlace, newStackPtr, sub32, alignDown, naclStackAlignBits, naclStackArgsSize,
    naclStackPadBelowAlign, sizeofExceptionFrame, offsetofPortable, offsetofContext,
    sizeofExceptionContext, sizeofUserRegisterState, sizeofExceptionPortableContext] at h ⊢
  omega

theorem framePlace_add_le (stackEnd : ℤ) :
    framePlace stackEnd + sizeofExceptionFrame ≤ stackEnd := by
  simp only [framePlace, naclStackAlignBits, naclStackArgsSize, naclStackPadBelowAlign,
    sizeofExceptionFrame, offsetofPortable, offsetofContext, sizeofExceptionContext,
    sizeofUserRegisterState, sizeofExceptionPortableContext]
  omega

/-! ## The frame in memory -/

section

variable (frame : NaClExceptionFrame) (addr : ℕ) (mem : ℕ → UInt8)

theorem NaClExceptionFrame.length_contextBytes (h : frame.context.reserved.length = 11) :
    frame.contextBytes.length + 4 = offsetofPortable := by
  simp [contextBytes, NaClUserRegisterState.bytes, List.length_flatMap, h, offsetofPortable,
    offsetofContext, sizeofExceptionContext, sizeofUserRegisterState]

theorem NaClExceptionFrame.length_portableBytes :
    frame.portableBytes.length = sizeofExceptionPortableContext := by
  simp [portableBytes, sizeofExceptionPortableContext]

theorem NaClExceptionFrame.holds_store (h : frame.context.reserved.length = 11) :
    Holds (frame.store addr mem) addr frame.contextBytes ∧
      Holds (frame.store addr mem) (addr + offsetofPortable) frame.portableBytes := by
  have hlen := frame.length_contextBytes h
  refine ⟨(holds_write mem addr _).write (Or.inl ?_), holds_write _ _ _⟩
  dsimp only
  omega

theorem NaClExceptionFrame.store_outside (h : frame.context.reserved.length = 11) {a : ℕ}
    (ha : a < addr ∨ addr + sizeofExceptionFrame ≤ a) : frame.store addr mem a = mem a := by
  have hlen := frame.length_contextBytes h
  have hportable := frame.length_portableBytes
  unfold sizeofExceptionFrame at ha
  rw [store, write_eq_of_out (by omega), write_eq_of_out (by omega)]

end

/-! ## The dispatch -/

/-- The handler is not called: the registers and the memory are as they were. -/
structure DispatchResult.Declined (r : DispatchResult) (s : ExceptionState)
    (regs : NaClSignalContext) : Prop where
  retval_eq : r.retval = 0
  regs_eq : r.regs = regs
  mem_eq : r.state.mem = s.mem

/-- The handler is called, on a frame at the user address. -/
structure DispatchResult.Called (r : DispatchResult) (s : ExceptionState)
    (regs : NaClSignalContext) (addr : ℕ) : Prop where
  retval_eq : r.retval = 1
  context_holds : Holds r.state.mem addr (naclSignalSetUpExceptionFrame regs).contextBytes
  portable_holds :
    Holds r.state.mem (addr + offsetofPortable) (naclSignalSetUpExceptionFrame regs).portableBytes
  mem_outside : ∀ a, a < addr ∨ addr + sizeofExceptionFrame ≤ a → r.state.mem a = s.mem a
  within : s.nap.space.ContainsRange (s.nap.space.memStart + addr, sizeofExceptionFrame)
  below : s.natp.exceptionStack = 0 →
    0 ≤ framePlace (regs.stackPtr - s.nap.space.memStart - naclStackRedZone) →
    s.nap.space.memStart + addr + sizeofExceptionFrame ≤ regs.stackPtr - naclStackRedZone
  stackPtr_eq : r.regs.stackPtr = s.nap.space.memStart + addr
  aligned : (r.regs.stackPtr + naclStackPadBelowAlign) % 2 ^ naclStackAlignBits = 0
  rdi_eq : r.regs.rdi = addr + offsetofContext
  progCtr_mem : s.nap.space.Contains r.regs.progCtr
  r15_eq : r.regs.r15 = regs.r15
  rbp_eq : r.regs.rbp = regs.rbp
  flag_eq : r.state.natp.exceptionFlag = true

section

variable {s : ExceptionState} {regs : NaClSignalContext} {r : DispatchResult}

theorem naclIsUserAddr_iff {space : AddressSpace} {sysaddr : ℕ} :
    naclIsUserAddr space sysaddr = true ↔ space.Contains sysaddr := decide_eq_true_iff

theorem contains_of_checked {nap : ExceptionApp} {natp : ExceptionThread}
    (h : ¬ (!naclSignalCheckSandboxInvariants regs nap natp) = true) :
    nap.space.Contains regs.stackPtr := by
  rw [naclSignalCheckSandboxInvariants, Bool.not_not, Bool.or_eq_true, Bool.or_eq_true, not_or,
    not_or, Bool.not_eq_true', Bool.not_eq_false] at h
  exact naclIsUserAddr_iff.1 h.1.2

theorem frame_below (nap : ExceptionApp) {stackPtr : ℕ} (h : nap.space.Contains stackPtr)
    (hplace : 0 ≤ framePlace (stackPtr - nap.space.memStart - naclStackRedZone)) :
    nap.space.memStart + newStackPtr (sub32 stackPtr naclStackRedZone) + sizeofExceptionFrame ≤
      stackPtr - naclStackRedZone := by
  obtain ⟨hle, hlt⟩ := h
  rw [nap.addrBits_eq] at hlt
  obtain ⟨k, hk⟩ := nap.memStart_dvd
  have hred : naclStackRedZone = 128 := rfl
  have hsize : sizeofExceptionFrame = 232 := rfl
  obtain ⟨stackEnd, hstackEnd⟩ :
    ∃ e : ℤ, e = stackPtr - nap.space.memStart - naclStackRedZone := ⟨_, rfl⟩
  rw [← hstackEnd] at hplace
  have hpad := framePlace_add_le stackEnd
  -- the sandbox begins at a multiple of 4 GiB: the truncation gives the user address
  have hend : (sub32 stackPtr naclStackRedZone : ℤ) = stackEnd := by
    unfold sub32
    omega
  rw [← hend] at hplace hpad
  have hlt32 : sub32 stackPtr naclStackRedZone < 2 ^ 32 := Nat.mod_lt _ (by decide)
  have heq := newStackPtr_eq hlt32 hplace
  omega

theorem naclUserToSys_eq (nap : ExceptionApp) {uaddr : ℕ} (hpos : 0 < uaddr)
    (hlt : uaddr < 2 ^ 32) : naclUserToSys nap.space uaddr = some (nap.space.memStart + uaddr) := by
  have hspace := nap.space.lt
  rw [nap.addrBits_eq] at hspace
  rw [naclUserToSys, nap.addrBits_eq, if_neg (by omega), uadd_eq (by omega), Nat.add_comm]

theorem naclUserToSysAddrRange_frame (nap : ExceptionApp) (stackEnd : ℕ)
    (h : naclUserToSysAddrRange nap.space (newStackPtr stackEnd) sizeofExceptionFrame ≠
      kNaClBadAddress) :
    0 < newStackPtr stackEnd ∧ newStackPtr stackEnd + sizeofExceptionFrame ≤ 2 ^ 32 ∧
      naclUserToSysAddrRange nap.space (newStackPtr stackEnd) sizeofExceptionFrame =
        nap.space.memStart + newStackPtr stackEnd := by
  have hlt := newStackPtr_lt stackEnd
  have hspec := naclUserToSysAddrRange_spec (by omega) (by decide) h
  rwa [nap.addrBits_eq] at hspec

theorem pushFrameAndCall_spec (s : ExceptionState) (regs : NaClSignalContext) (stackEnd : ℕ)
    (hhandler : s.nap.exceptionHandler ≠ 0) :
    pushFrameAndCall s regs stackEnd = .ok ⟨0, regs, s⟩ ∨
      newStackPtr stackEnd + sizeofExceptionFrame ≤ 2 ^ 32 ∧
      pushFrameAndCall s regs stackEnd = .ok ⟨1, { regs with
          rdi := newStackPtr stackEnd + offsetofContext
          progCtr := s.nap.space.memStart + s.nap.exceptionHandler
          stackPtr := s.nap.space.memStart + newStackPtr stackEnd
          flags := regs.flags &&& ~~~naclX86DirectionFlag },
        { s with mem := (naclSignalSetUpExceptionFrame regs).store (newStackPtr stackEnd) s.mem }⟩ := by
  unfold pushFrameAndCall
  dsimp only
  split_ifs with hframe
  · exact Or.inl rfl
  · obtain ⟨hpos, hle, heq⟩ := naclUserToSysAddrRange_frame s.nap stackEnd hframe
    right
    rw [heq, naclUserToSys_eq s.nap (Nat.pos_of_ne_zero hhandler) s.nap.exceptionHandler_lt,
      naclUserToSys_eq s.nap hpos (newStackPtr_lt stackEnd), Nat.add_sub_cancel_left]
    exact ⟨hle, rfl⟩

theorem dispatchToUntrustedHandler_spec (s : ExceptionState) (regs : NaClSignalContext) :
    ∃ r, dispatchToUntrustedHandler s regs = .ok r ∧
      (r.Declined s regs ∨ ∃ addr, r.Called s regs addr) := by
  have hdeclined (s' : ExceptionState) (h : s'.mem = s.mem) :
      (DispatchResult.mk 0 regs s').Declined s regs := ⟨rfl, rfl, h⟩
  unfold dispatchToUntrustedHandler
  by_cases hinv : (!naclSignalCheckSandboxInvariants regs s.nap s.natp) = true
  · rw [if_pos hinv]
    exact ⟨_, rfl, Or.inl (hdeclined s rfl)⟩
  by_cases hhandler : s.nap.exceptionHandler = 0
  · rw [if_neg hinv, if_pos hhandler]
    exact ⟨_, rfl, Or.inl (hdeclined s rfl)⟩
  by_cases hflag : s.natp.exceptionFlag = true
  · rw [if_neg hinv, if_neg hhandler, if_pos hflag]
    exact ⟨_, rfl, Or.inl (hdeclined s rfl)⟩
  rw [if_neg hinv, if_neg hhandler, if_neg hflag]
  generalize hend : (if s.natp.exceptionStack = 0 then sub32 regs.stackPtr naclStackRedZone
    else s.natp.exceptionStack) = stackEnd
  have hspec := pushFrameAndCall_spec
    { s with natp := { s.natp with exceptionFlag := true } } regs stackEnd hhandler
  rcases hspec with hdecline | ⟨hle, hcall⟩
  · exact ⟨_, hdecline, Or.inl (hdeclined _ rfl)⟩
  · have hreserved : (naclSignalSetUpExceptionFrame regs).context.reserved.length = 11 := rfl
    have hholds := (naclSignalSetUpExceptionFrame regs).holds_store (newStackPtr stackEnd) s.mem
      hreserved
    refine ⟨_, hcall, Or.inr ⟨newStackPtr stackEnd, ?_⟩⟩
    exact
      { retval_eq := rfl
        context_holds := hholds.1
        portable_holds := hholds.2
        mem_outside := fun a ha =>
          (naclSignalSetUpExceptionFrame regs).store_outside _ s.mem hreserved ha
        within := by
          intro i hi
          dsimp only at hi ⊢
          rw [s.nap.addrBits_eq]
          omega
        below := fun hstack hplace => by
          rw [if_pos hstack] at hend
          rw [← hend]
          exact frame_below s.nap (contains_of_checked hinv) hplace
        stackPtr_eq := rfl
        aligned := by
          have haligned := newStackPtr_aligned stackEnd
          obtain ⟨k, hk⟩ := s.nap.memStart_dvd
          simp only [naclStackAlignBits, naclStackPadBelowAlign] at haligned ⊢
          omega
        rdi_eq := rfl
        progCtr_mem := by
          have hlt := s.nap.exceptionHandler_lt
          refine ⟨Nat.le_add_right _ _, ?_⟩
          rw [s.nap.addrBits_eq]
          exact Nat.add_lt_add_left hlt _
        r15_eq := rfl
        rbp_eq := rfl
        flag_eq := rfl }

theorem exceptionFlag_of_retval (h : dispatchToUntrustedHandler s regs = .ok r)
    (hret : r.retval = 1) : r.state.natp.exceptionFlag = true := by
  obtain ⟨r', hok, hcases⟩ := dispatchToUntrustedHandler_spec s regs
  rw [hok] at h
  cases h
  rcases hcases with hdeclined | ⟨addr, hcalled⟩
  · exact absurd (hdeclined.retval_eq.symm.trans hret) (by decide)
  · exact hcalled.flag_eq

theorem dispatchToUntrustedHandler_of_flag (h : s.natp.exceptionFlag = true) :
    dispatchToUntrustedHandler s regs = .ok ⟨0, regs, s⟩ := by
  unfold dispatchToUntrustedHandler
  by_cases hinv : (!naclSignalCheckSandboxInvariants regs s.nap s.natp) = true
  · rw [if_pos hinv]
  by_cases hhandler : s.nap.exceptionHandler = 0
  · rw [if_neg hinv, if_pos hhandler]
  rw [if_neg hinv, if_neg hhandler, if_pos h]

theorem exceptionFlag_of_step {s' : ExceptionState} {e : ExceptionEvent}
    (h : s.natp.exceptionFlag = true) (he : e ≠ .sysExceptionClearFlag)
    (hstep : s.step e = .ok s') : s'.natp.exceptionFlag = true := by
  cases e with
  | untrusted mem => cases hstep; exact h
  | sysExceptionHandler handlerAddr oldHandler =>
    cases hstep
    unfold naclSysExceptionHandler
    split_ifs <;> exact h
  | sysExceptionStack stackAddr stackSize =>
    cases hstep
    unfold naclSysExceptionStack
    split_ifs <;> exact h
  | sysExceptionClearFlag => exact absurd rfl he
  | fault regs =>
    simp only [ExceptionState.step, dispatchToUntrustedHandler_of_flag h] at hstep
    cases hstep
    exact h

/-- A dispatch leaves everything as it was, or calls the handler on one frame; and once the handler
has been called, it is not called again until the flag is cleared. -/
theorem exceptionDispatch :
    (∀ s regs, ∃ r, dispatchToUntrustedHandler s regs = .ok r ∧
      (r.Declined s regs ∨ ∃ addr, r.Called s regs addr)) ∧
    ∀ s regs r, dispatchToUntrustedHandler s regs = .ok r → r.retval = 1 →
      ∀ events : List ExceptionEvent, (∀ e ∈ events, e ≠ .sysExceptionClearFlag) →
        ∀ s', events.foldlM ExceptionState.step r.state = .ok s' →
          ∀ regs', ∃ r', dispatchToUntrustedHandler s' regs' = .ok r' ∧ r'.Declined s' regs' := by
  refine ⟨dispatchToUntrustedHandler_spec, fun s regs r hok hret events hevents s' hrun regs' => ?_⟩
  have hflag : s'.natp.exceptionFlag = true := by
    have hguarded : Guarded ExceptionState.step (fun _ e => e ≠ .sysExceptionClearFlag) r.state
      events := .of_forall_mem hevents
    exact @Guarded.invariant _ _ _ _ _ _ _ (fun t => t.natp.exceptionFlag = true) s'
      (fun _ _ _ => exceptionFlag_of_step) (exceptionFlag_of_retval hok hret) hguarded hrun
  exact ⟨_, dispatchToUntrustedHandler_of_flag hflag, rfl, rfl, rfl⟩

/-- An application with a handler at the start of its code, and a thread that has not faulted. -/
def smallExceptionState : ExceptionState where
  nap :=
    { space := ⟨2 ^ 32, 32, AddressSpace.pos_at4GB, AddressSpace.le_at4GB, AddressSpace.lt_at4GB⟩
      addrBits_eq := rfl
      memStart_dvd := dvd_rfl
      enableExceptionHandling := true
      bundleSize := 32
      dynamicTextEnd := 0x40000
      dynamicTextEnd_le := by decide
      exceptionHandler := 0x20000
      exceptionHandler_lt := by decide }
  natp := ⟨2 ^ 32, 0, false⟩
  mem := fun _ => 0

def smallRegs : NaClSignalContext where
  rax := 0
  rbx := 0
  rcx := 0
  rdx := 0
  rsi := 0
  rdi := 0
  rbp := 2 ^ 32 + 0x100000
  stackPtr := 2 ^ 32 + 0x100000
  r8 := 0
  r9 := 0
  r10 := 0
  r11 := 0
  r12 := 0
  r13 := 0
  r14 := 0
  r15 := 2 ^ 32
  progCtr := 2 ^ 32 + 0x20040
  flags := 0

/-- The handler is called for the first fault, and not for the second one on another stack. -/
theorem exceptionDispatch_small :
    ∃ r, dispatchToUntrustedHandler smallExceptionState smallRegs = .ok r ∧ r.retval = 1 ∧
      ∃ r', dispatchToUntrustedHandler (naclSysExceptionStack r.state 0x50000 0x1000).2 smallRegs =
        .ok r' ∧ r'.retval = 0 := by
  obtain ⟨r, hok, hret⟩ : ∃ r, dispatchToUntrustedHandler smallExceptionState smallRegs = .ok r ∧
      r.retval = 1 := exists_ok_of_check (fun r => r.retval = 1) (fun _ => of_decide_eq_true)
    (by decide +kernel)
  obtain ⟨r', hok', hdeclined⟩ := exceptionDispatch.2 smallExceptionState smallRegs r hok hret
    [.sysExceptionStack 0x50000 0x1000] (by simp) _ rfl smallRegs
  exact ⟨r, hok, hret, r', hok', hdeclined.retval_eq⟩

end

end SandboxingNaCl
