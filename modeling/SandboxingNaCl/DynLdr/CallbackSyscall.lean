import SandboxingNaCl.Service.AddressSpace

/-!
# The callback system call

`NaClSysCallback` on x86-64: untrusted code passes the number of a callback slot and a pointer to
its six parameter registers, and the receiver registered in the slot then takes its remaining
parameters from the sandbox stack (`getCallbackParam`).  Every value untrusted code controls is an
argument here, and every range of host memory that is read on its behalf is recorded.
-/

namespace SandboxingNaCl

open MachineInt AddressRange

/-- `callbackSlot` and `callbackSlotState` of a `NaClApp`. -/
structure CallbackSlots where
  callbackSlot : ℕ → ℕ
  callbackSlotState : ℕ → ℕ

def callbackSlotsAvailable : ℕ := 8

/-- The size of the six parameter registers that `NaClSysCallback` reads. -/
def parameterRegistersSize : ℕ := 48

/-! ## Parameters on the stack -/

/-- `getUnsandboxedAddress`; `none` is the fatal error of `NaClUserToSys`. -/
def getUnsandboxedAddress (as : AddressSpace) (uaddr : ℕ) : Option ℕ :=
  if uaddr = 0 then some 0 else naclUserToSys as (uaddr &&& 0xFFFFFFFF)

/-- `getSandboxedAddress`; `none` is the fatal error of `NaClSysToUser`. -/
def getSandboxedAddress (as : AddressSpace) (uaddr : ℕ) : Option ℕ :=
  if uaddr = 0 then some 0 else naclSysToUser as uaddr

/-- The fields of `NaClSandbox_Thread` that say how far the parameters have been read. -/
structure ParamCursor where
  callbackParameterNumber : ℕ
  callbackParamsAlreadyRead : ℕ

/-- `getCallbackParam` for a parameter of `size` bytes, with the sandbox stack pointer in `rsp`.
The address is `none` for a parameter in registers, of which the runtime has copies. -/
def getCallbackParam (as : AddressSpace) (rsp startOffset : ℕ) (threadData : ParamCursor)
    (size : ℕ) : Option (Option ℕ × ParamCursor) :=
  if threadData.callbackParameterNumber < 6 ∧ size ≤ 64 then
    some (none, { threadData with
      callbackParameterNumber := threadData.callbackParameterNumber + 1 })
  else if threadData.callbackParameterNumber < 5 ∧ size ≤ 128 then
    some (none, { threadData with
      callbackParameterNumber := threadData.callbackParameterNumber + 2 })
  else do
    let sp ← getSandboxedAddress as rsp
    let paramPointer ← getUnsandboxedAddress as
      (uadd (uadd sp startOffset) threadData.callbackParamsAlreadyRead)
    return (some paramPointer, { threadData with
      callbackParamsAlreadyRead := uadd threadData.callbackParamsAlreadyRead size })

/-- The ranges the receiver reads for parameters of these sizes, up to a fatal error. -/
def readCallbackParams (as : AddressSpace) (rsp startOffset : ℕ) :
    ParamCursor → List ℕ → List (ℕ × ℕ)
  | _, [] => []
  | threadData, size :: sizes =>
    match getCallbackParam as rsp startOffset threadData size with
    | none => []
    | some (none, threadData) => readCallbackParams as rsp startOffset threadData sizes
    | some (some paramPointer, threadData) =>
      (paramPointer, size) :: readCallbackParams as rsp startOffset threadData sizes

/-! ## The system call -/

/-- A receiver: the sizes of the parameters it takes. -/
structure CallbackReceiver where
  paramSizes : List ℕ

/-- What the system call does. -/
inductive CallbackOutcome
  /-- `NaClLog(LOG_FATAL, ...)`. -/
  | fatal
  /-- It calls `func` with `state`, and these ranges of host memory are read. -/
  | called (func state : ℕ) (reads : List (ℕ × ℕ))

/-- `NaClSysCallback`.  The slot is read for the test and read again for the call, and other threads
may register and unregister slots in between (`atTest`, `atCall`). -/
def naclSysCallback (as : AddressSpace) (atTest atCall : CallbackSlots)
    (callbackSlotNumber parameterRegisters rsp startOffset : ℕ) (receiver : CallbackReceiver) :
    CallbackOutcome :=
  if callbackSlotNumber < callbackSlotsAvailable ∧
      atTest.callbackSlot callbackSlotNumber ≠ 0 then
    let parameterRegistersSys := naclUserToSysAddr as parameterRegisters
    .called (atCall.callbackSlot callbackSlotNumber)
      (atCall.callbackSlotState callbackSlotNumber)
      ((parameterRegistersSys, parameterRegistersSize) ::
        readCallbackParams as rsp startOffset ⟨0, 0⟩ receiver.paramSizes)
  else
    .fatal

/-- The call runs the function registered in the slot and reads only memory of the sandbox, or it
fails without doing either. -/
def CallbackSafe (as : AddressSpace) (slots : CallbackSlots) (callbackSlotNumber : ℕ) :
    CallbackOutcome → Prop
  | .fatal => True
  | .called func state reads =>
    (func ≠ 0 ∧ func = slots.callbackSlot callbackSlotNumber ∧
      state = slots.callbackSlotState callbackSlotNumber) ∧
    ∀ r ∈ reads, as.ContainsRange r

variable {as : AddressSpace} {rsp startOffset : ℕ}

theorem nullOrContains_of_getUnsandboxedAddress {uaddr addr : ℕ}
    (h : getUnsandboxedAddress as uaddr = some addr) : addr = 0 ∨ as.Contains addr := by
  unfold getUnsandboxedAddress at h
  split_ifs at h
  · exact Or.inl (Option.some.inj h).symm
  · exact Or.inr (contains_of_naclUserToSys h)

theorem nullOrContains_of_getCallbackParam {threadData threadData' : ParamCursor} {size addr : ℕ}
    (h : getCallbackParam as rsp startOffset threadData size = some (some addr, threadData')) :
    addr = 0 ∨ as.Contains addr := by
  unfold getCallbackParam at h
  split_ifs at h
  · cases h
  · cases h
  · obtain ⟨sp, -, h⟩ := Option.bind_eq_some_iff.1 h
    obtain ⟨paramPointer, hp, h⟩ := Option.bind_eq_some_iff.1 h
    cases h
    exact nullOrContains_of_getUnsandboxedAddress hp

theorem nullOrContains_of_mem_readCallbackParams {sizes : List ℕ} {threadData : ParamCursor}
    {r : ℕ × ℕ} (h : r ∈ readCallbackParams as rsp startOffset threadData sizes) :
    r.1 = 0 ∨ as.Contains r.1 := by
  induction sizes generalizing threadData with
  | nil => cases h
  | cons size sizes ih =>
    rw [readCallbackParams] at h
    split at h
    · cases h
    · exact ih h
    · next paramPointer threadData' heq =>
      rcases List.mem_cons.1 h with rfl | h
      · exact nullOrContains_of_getCallbackParam heq
      · exact ih h

/-- The address space of a sandbox at 4 GB, and a receiver registered in slot 3. -/
def exampleSpace : AddressSpace :=
  ⟨2 ^ 32, 32, AddressSpace.pos_at4GB, AddressSpace.le_at4GB, AddressSpace.lt_at4GB⟩

def exampleSlots : CallbackSlots :=
  ⟨fun slot => if slot = 3 then 0x401000 else 0, fun _ => 0x402000⟩

end SandboxingNaCl
