import SandboxingNaCl.Lib.Bitmap
import SandboxingNaCl.Ragel.Instruction

/-!
# The x86 validators

`ValidateChunkAMD64` and `ValidateChunkIA32`: the loop over bundles, the actions on each
instruction and the check of direct jumps.  An access outside a bitmap, and a failed `CHECK`, end
the run with `none`.  Positions are offsets in the code block.
-/

namespace SandboxingNaCl

namespace Ragel

/-- `ValidationOptions`, unpacked. -/
structure Options where
  restrictedRegisterInitialValue : OperandName
  callUserCallbackOnEachInstruction : Bool
  processChunkAsAContiguousStream : Bool
  deriving DecidableEq, Repr

/-- The options value `0`. -/
def Options.none : Options := ⟨.noReg, false, false⟩

/-- `NACL_HOST_WORDSIZE`. -/
inductive HostWordsize
  | bits32 | bits64
  deriving DecidableEq, Repr

def HostWordsize.bits : HostWordsize → ℕ
  | .bits32 => 32
  | .bits64 => 64

/-- What a callback can see and write: the code block and its own data. -/
structure Memory (δ : Type) where
  code : List UInt8
  data : δ
  deriving DecidableEq

/-- `ValidationCallbackFunc`, with the begin and the end of the instruction as offsets. -/
abbrev Callback (δ : Type) : Type := ℕ → ℕ → Info → Memory δ → Bool × Memory δ

/-- The variables of `ValidateChunk*` that live through the whole chunk. -/
structure Pass (w : ℕ) (δ : Type) where
  mem : Memory δ
  validTargets : Bitmap w
  jumpDests : Bitmap w
  result : Bool
  deriving DecidableEq

/-- `result &= user_callback (...)`. -/
def Pass.report {w : ℕ} {δ : Type} (p : Pass w δ) (callback : Callback δ) (first last : ℕ)
    (info : Info) : Pass w δ :=
  { p with
    mem := (callback first last info p.mem).2
    result := p.result && (callback first last info p.mem).1 }

/-- The variables of one instruction. -/
structure Locals (w : ℕ) where
  instructionBegin : ℕ
  restrictedRegister : OperandName
  info : Info
  validTargets : Bitmap w
  jumpDests : Bitmap w

section Actions

variable {w : ℕ}

def Locals.flag (l : Locals w) (info : Info) : Locals w := { l with info := l.info ||| info }

/-! ## Direct jumps -/

/-- `MarkJumpTarget`: whether the jump passes the early check. -/
def markJumpTarget (jumpDest : ℕ) (jumpDests : Bitmap w) (size : ℕ) : Option (Bool × Bitmap w) :=
  if jumpDest % kBundleSize = 0 then
    some (true, jumpDests)
  else if size ≤ jumpDest then
    some (false, jumpDests)
  else
    (jumpDests.setBit jumpDest).map fun b => (true, b)

/-- The displacement that ends at `rip`, sign-extended. -/
def Relative.offset (rel : Relative) (w : ℕ) (code : List UInt8) (rip : ℕ) : BitVec w :=
  let byte (k : ℕ) : BitVec 8 := (code.getD (rip - k) 0).toBitVec
  match rel with
  | .rel8 => (byte 1).signExtend w
  | .rel32 => (byte 1 ++ byte 2 ++ byte 3 ++ byte 4).signExtend w

/-- `jump_dest`, in the arithmetic of `size_t`. -/
def Relative.jumpDest (rel : Relative) (w : ℕ) (code : List UInt8) (rip : ℕ) : ℕ :=
  (rel.offset w code rip + BitVec.ofNat w rip).toNat

def Relative.info : Relative → Info
  | .rel8 => relative8Bit
  | .rel32 => relative32Bit

/-- `Rel8Operand` and `Rel32Operand`. -/
def relOperand (rel : Relative) (code : List UInt8) (rip size : ℕ) (l : Locals w) :
    Option (Locals w) := do
  let (ok, jumpDests) ← markJumpTarget (rel.jumpDest w code rip) l.jumpDests size
  let l := { l with jumpDests }
  if ok then
    some (l.flag rel.info)
  else
    some (l.flag (rel.info ||| directJumpOutOfRange))

def rel8Operand (code : List UInt8) (rip size : ℕ) : Locals w → Option (Locals w) :=
  relOperand .rel8 code rip size

def rel32Operand (code : List UInt8) (rip size : ℕ) : Locals w → Option (Locals w) :=
  relOperand .rel32 code rip size

/-- The action on a relative operand, where there is one. -/
def relativeAction (code : List UInt8) (rip size : ℕ) :
    Option Relative → Locals w → Option (Locals w)
  | .none, l => some l
  | .some .rel8, l => rel8Operand code rip size l
  | .some .rel32, l => rel32Operand code rip size l

/-! ## Memory accesses and restricted registers -/

def checkMemoryAccess (base index : OperandName) (l : Locals w) : Option (Locals w) :=
  if base = .rip ∨ base = .r15 ∨ base = .rsp ∨ base = .rbp then
    if index = .noReg ∨ index = .riz then
      some l
    else if index = l.restrictedRegister then do
      let validTargets ← l.validTargets.clearBit l.instructionBegin
      some { l.flag restrictedRegisterUsed with validTargets }
    else
      some (l.flag unrestrictedIndexRegister)
  else
    some (l.flag forbiddenBaseRegister)

def memoryAction : Option (OperandName × OperandName) → Locals w → Option (Locals w)
  | .none, l => some l
  | .some (base, index), l => checkMemoryAccess base index l

/-- `CHECK_OPERAND`. -/
def Operand.check (o : Operand) (name : OperandName) (kind : OperandKind) : Bool :=
  o.name == name && o.kind == kind

/-- `CHECK_OPERAND_R15_MODIFIED`. -/
def Operand.r15Modified (o : Operand) : Bool :=
  o.check .r15 .bit8 || o.check .r15 .restricted || o.check .r15 .unrestricted

/-- `CHECK_OPERAND_BP_MODIFIED` and `CHECK_OPERAND_SP_MODIFIED`. -/
def Operand.modified (o : Operand) (name : OperandName) (rexPrefix : Bool) : Bool :=
  o.check name .bit8 && rexPrefix || o.check name .restricted || o.check name .unrestricted

/-- `CHECK_OPERAND_BP_INVALID_MODIFICATION` and `CHECK_OPERAND_SP_INVALID_MODIFICATION`. -/
def Operand.invalidModification (o : Operand) (name : OperandName) (rexPrefix : Bool) : Bool :=
  o.check name .bit8 && rexPrefix || o.check name .unrestricted

/-- `CHECK_OPERAND_RESTRICTED`. -/
def Operand.restricted (o : Operand) : Bool := o.kind == .restricted

def checkValidityOfRegularInstruction (restrictedRegister : OperandName) : Info :=
  if restrictedRegister = .rbp then
    restrictedRbpUnprocessed
  else if restrictedRegister = .rsp then
    restrictedRspUnprocessed
  else
    0

/-- `if (cond) *instruction_info_collected |= info`. -/
def flagIf (cond : Bool) (info : Info) : Info := if cond then info else 0

def process0Operands (l : Locals w) : Locals w :=
  { l.flag (checkValidityOfRegularInstruction l.restrictedRegister) with
    restrictedRegister := .noReg }

def process1Operand (rexPrefix : Bool) (o : Operand) (l : Locals w) : Locals w :=
  { l.flag (checkValidityOfRegularInstruction l.restrictedRegister |||
      flagIf o.r15Modified r15Modified |||
      flagIf (o.modified .rbp rexPrefix) bpModified |||
      flagIf (o.modified .rsp rexPrefix) spModified) with
    restrictedRegister := .noReg }

def process1OperandZeroExtends (rexPrefix : Bool) (o : Operand) (l : Locals w) : Locals w :=
  { l.flag (checkValidityOfRegularInstruction l.restrictedRegister |||
      flagIf o.r15Modified r15Modified |||
      flagIf (o.invalidModification .rbp rexPrefix) bpModified |||
      flagIf (o.invalidModification .rsp rexPrefix) spModified) with
    restrictedRegister := if o.restricted then o.name else .noReg }

def process2Operands (rexPrefix : Bool) (o₀ o₁ : Operand) (l : Locals w) : Locals w :=
  { l.flag (checkValidityOfRegularInstruction l.restrictedRegister |||
      flagIf (o₀.r15Modified || o₁.r15Modified) r15Modified |||
      flagIf (o₀.modified .rbp rexPrefix || o₁.modified .rbp rexPrefix) bpModified |||
      flagIf (o₀.modified .rsp rexPrefix || o₁.modified .rsp rexPrefix) spModified) with
    restrictedRegister := .noReg }

/-- `Process2OperandsZeroExtends`: of two zero-extended operands the second does not count, and must
be neither `%rsp` nor `%rbp`. -/
def process2OperandsZeroExtends (rexPrefix : Bool) (o₀ o₁ : Operand) (l : Locals w) : Locals w :=
  { l.flag (checkValidityOfRegularInstruction l.restrictedRegister |||
      flagIf (o₀.r15Modified || o₁.r15Modified) r15Modified |||
      flagIf (o₀.invalidModification .rbp rexPrefix || o₁.invalidModification .rbp rexPrefix)
        bpModified |||
      flagIf (o₀.invalidModification .rsp rexPrefix || o₁.invalidModification .rsp rexPrefix)
        spModified |||
      flagIf (o₀.restricted && o₁.check .rsp .restricted) restrictedRspUnprocessed |||
      flagIf (o₀.restricted && o₁.check .rbp .restricted) restrictedRbpUnprocessed) with
    restrictedRegister :=
      if o₀.restricted then o₀.name else if o₁.restricted then o₁.name else .noReg }

/-- The action of `rbp_sandboxing` and of `rsp_sandboxing`. -/
def stackSandboxing (name : OperandName) (error : Info) (l : Locals w) : Option (Locals w) := do
  let validTargets ← l.validTargets.clearBit l.instructionBegin
  some { l.flag (if l.restrictedRegister = name then restrictedRegisterUsed else error) with
    restrictedRegister := .noReg
    validTargets }

def rbpSandboxing : Locals w → Option (Locals w) :=
  stackSandboxing .rbp unrestrictedRbpProcessed

def rspSandboxing : Locals w → Option (Locals w) :=
  stackSandboxing .rsp unrestrictedRspProcessed

/-! ## Superinstructions -/

def expandSuperinstructionBySandboxingBytes (sandboxBytes : ℕ) (l : Locals w) :
    Option (Locals w) := do
  let validTargets ← l.validTargets.clearBits (l.instructionBegin - sandboxBytes + 1) sandboxBytes
  some { l with instructionBegin := l.instructionBegin - sandboxBytes, validTargets }

def rmFromModRM (modRM : UInt8) : UInt8 := modRM &&& 7

def regFromModRM (modRM : UInt8) : UInt8 := (modRM >>> 3) &&& 7

/-- `VerifyNaclCallOrJmpAddToRM` and `VerifyNaclCallOrJmpAddToReg`. -/
def verifyNaclCallOrJmp (addTo : AddTo) (code : List UInt8) (instructionBegin rip : ℕ) : Bool :=
  let modRM (i : ℕ) : UInt8 := code.getD i 0
  let added := match addTo with
    | .rm => rmFromModRM (modRM (instructionBegin - 1))
    | .reg => regFromModRM (modRM (instructionBegin - 1))
  rmFromModRM (modRM (instructionBegin - 5)) == added &&
    rmFromModRM (modRM (instructionBegin - 5)) == rmFromModRM (modRM (rip - 1))

/-- `ProcessNaclCallOrJmpAddToRMNoRex` and its three siblings: the `and` has three bytes, or four
with a REX prefix, and the `add` three. -/
def processNaclCallOrJmp (addTo : AddTo) (andBytes : ℕ) (code : List UInt8) (rip : ℕ)
    (l : Locals w) : Option (Locals w) :=
  if verifyNaclCallOrJmp addTo code l.instructionBegin rip then
    expandSuperinstructionBySandboxingBytes (andBytes + 3) l
  else
    some (l.flag unrecognizedInstruction)

/-- The action on the last byte of an instruction, with the mark of the special ones. -/
def LastAction.run (code : List UInt8) (rip : ℕ) (rexPrefix : Bool) (l : Locals w) :
    LastAction → Option (Locals w)
  | process0Operands => some (Ragel.process0Operands l)
  | process1Operand o => some (Ragel.process1Operand rexPrefix o l)
  | process1OperandZeroExtends o => some (Ragel.process1OperandZeroExtends rexPrefix o l)
  | process2Operands o₀ o₁ => some (Ragel.process2Operands rexPrefix o₀ o₁ l)
  | process2OperandsZeroExtends o₀ o₁ =>
    some (Ragel.process2OperandsZeroExtends rexPrefix o₀ o₁ l)
  | stackModification _ => some ((Ragel.process0Operands l).flag specialInstruction)
  | rbpSandboxing _ => Ragel.rbpSandboxing (l.flag specialInstruction)
  | rspSandboxing _ => Ragel.rspSandboxing (l.flag specialInstruction)
  | sandboxedInstruction sandboxBytes =>
    expandSuperinstructionBySandboxingBytes sandboxBytes (l.flag specialInstruction)
  | naclCallOrJmp addTo andBytes =>
    processNaclCallOrJmp addTo andBytes code rip (l.flag specialInstruction)

/-- The warning of `call_alignment`. -/
def callAlignment (isCall : Bool) (rip : ℕ) (l : Locals w) : Locals w :=
  if isCall ∧ (rip - 1) % kBundleSize ≠ kBundleSize - 1 then l.flag badCallAlignment else l

end Actions

section Validators

variable {w : ℕ} {δ ι : Type}

/-- The call of the callback in `end_of_instruction_cleanup`. -/
def Pass.endOfInstruction (p : Pass w δ) (options : Options) (callback : Callback δ)
    (l : Locals w) (rip : ℕ) (info : Info) : Pass w δ :=
  if ¬ Info.Clean l.info ∨ options.callUserCallbackOnEachInstruction then
    p.report callback l.instructionBegin rip info
  else
    p

/-- The actions of the amd64 machine on an instruction from `first` to `rip`. -/
def amd64Actions (code : List UInt8) (size rip : ℕ) (i : Amd64Insn) (l : Locals w) :
    Option (Locals w) := do
  let l ← memoryAction i.memoryAccess l
  let l ← relativeAction code rip size i.relative l
  let l ← i.action.run code rip i.rexPrefix l
  some (callAlignment i.isCall rip l)

/-- One turn of the loop of the amd64 machine. -/
def amd64Instruction (options : Options) (callback : Callback δ) (size : ℕ) (p : Pass w δ)
    (restricted : OperandName) (first rip : ℕ) (i : Amd64Insn) :
    Option (Pass w δ × OperandName) := do
  let l ← amd64Actions p.mem.code size rip i
    ⟨first, restricted, i.info, p.validTargets, p.jumpDests⟩
  let p := p.endOfInstruction options callback l rip (l.info ||| l.restrictedRegister.report)
  let validTargets ← l.validTargets.setBit rip
  some ({ p with validTargets, jumpDests := l.jumpDests }, l.restrictedRegister)

/-- The actions of the ia32 machine on an instruction from `first` to `rip`. -/
def ia32Actions (code : List UInt8) (size rip : ℕ) (i : Ia32Insn) (l : Locals w) :
    Option (Locals w) := do
  let l ← relativeAction code rip size i.relative l
  let l := if i.special then
    { l.flag specialInstruction with instructionBegin := l.instructionBegin - 3 } else l
  some (callAlignment i.isCall rip l)

/-- One turn of the loop of the ia32 machine; there is no restricted register. -/
def ia32Instruction (options : Options) (callback : Callback δ) (size : ℕ) (p : Pass w δ)
    (restricted : OperandName) (first rip : ℕ) (i : Ia32Insn) :
    Option (Pass w δ × OperandName) := do
  let l ← ia32Actions p.mem.code size rip i
    ⟨first, restricted, i.info, p.validTargets, p.jumpDests⟩
  let validTargets ← l.validTargets.setBit l.instructionBegin
  let p := p.endOfInstruction options callback l rip l.info
  some ({ p with validTargets, jumpDests := l.jumpDests }, restricted)

/-- The check of `ValidateChunkAMD64` on the register a bundle ends with. -/
def amd64EndOfSpan (callback : Callback δ) (endPosition : ℕ) (restricted : OperandName)
    (p : Pass w δ) : Pass w δ :=
  if restricted = .rbp then
    p.report callback endPosition endPosition
      (restrictedRbpUnprocessed ||| OperandName.report .rbp)
  else if restricted = .rsp then
    p.report callback endPosition endPosition
      (restrictedRspUnprocessed ||| OperandName.report .rsp)
  else
    p

/-- Where the two validators differ: the actions on an instruction, the check at the end of a
bundle, and the number of bits of their bitmaps. -/
structure Arch (w : ℕ) (δ ι : Type) where
  instruction : Options → Callback δ → ℕ → Pass w δ → OperandName → ℕ → ℕ → ι →
    Option (Pass w δ × OperandName)
  endOfSpan : Callback δ → ℕ → OperandName → Pass w δ → Pass w δ
  bitmapBits : ℕ → ℕ

/-- `%% write exec` over the bytes up to `endPosition`, then the check at their end.  The first
argument bounds the number of instructions. -/
def processSpan (arch : Arch w δ ι) (machine : Machine ι) (options : Options)
    (callback : Callback δ) (size endPosition : ℕ) :
    ℕ → machine.State → ℕ → OperandName → Pass w δ → Option (Pass w δ)
  | 0, _, _, restricted, p => some (arch.endOfSpan callback endPosition restricted p)
  | n + 1, q, first, restricted, p =>
    if first = endPosition then
      some (arch.endOfSpan callback endPosition restricted p)
    else
      match machine.next q ((p.mem.code.take endPosition).drop first) with
      | .stuck bytes => some (p.report callback first (first + bytes) unrecognizedInstruction)
      | .accepted m => do
          let (p, restricted) ←
            arch.instruction options callback size p restricted first (first + m.size) m.insn
          processSpan arch machine options callback size endPosition n m.state (first + m.size)
            restricted p

/-- The spans of bytes the machine is started on: bundles, or the whole chunk. -/
def Options.spans (options : Options) (size : ℕ) : List (ℕ × ℕ) :=
  if options.processChunkAsAContiguousStream then
    if 0 < size then [(0, size)] else []
  else
    (List.range (size / kBundleSize)).map fun k => (kBundleSize * k, kBundleSize * (k + 1))

/-- The body of the inner loop of `ProcessInvalidJumpTargets`. -/
def processInvalidJumpTarget (callback : Callback δ) (p : Pass w δ) (j : ℕ) :
    Option (Pass w δ) := do
  let isDest ← p.jumpDests.isBitSet j
  let isValid ← p.validTargets.isBitSet j
  some (if isDest && !isValid then p.report callback j j badJumpTarget else p)

/-- The body of the outer loop of `ProcessInvalidJumpTargets`. -/
def processInvalidJumpTargetsWord (callback : Callback δ) (p : Pass w δ) (i : ℕ) :
    Option (Pass w δ) := do
  let jumpDestMask ← p.jumpDests.words[i]?
  let validTargetMask ← p.validTargets.words[i]?
  if jumpDestMask &&& ~~~validTargetMask ≠ 0 then
    (List.range' (i * w) w).foldlM (processInvalidJumpTarget callback) p
  else
    some p

def processInvalidJumpTargets (callback : Callback δ) (size : ℕ) (p : Pass w δ) :
    Option (Pass w δ) :=
  (List.range ((size + w - 1) / w)).foldlM (processInvalidJumpTargetsWord callback) p

/-- The words of a bitmap for so many bits: one variable if they fit, else `BitmapAllocate`. -/
def bitmapWords (w bits : ℕ) : ℕ :=
  if bits ≤ w then 1 else (bits + w - 1) % 2 ^ w / w

/-- The common text of `ValidateChunkAMD64` and `ValidateChunkIA32`.  `enoughMemory` says whether
`BitmapAllocate` succeeds where it is called. -/
def validateChunk (arch : Arch w δ ι) (machine : Machine ι) (enoughMemory : Bool)
    (options : Options) (callback : Callback δ) (mem : Memory δ) : Option (Bool × Memory δ) :=
  let size := mem.code.length
  if size % kBundleSize ≠ 0 then
    .none
  else if ¬ arch.bitmapBits size ≤ w ∧ ¬ enoughMemory then
    some (false, mem)
  else do
    let bitmap := Bitmap.allocate w (bitmapWords w (arch.bitmapBits size))
    let p ← (options.spans size).foldlM (fun p span =>
      processSpan arch machine options callback size span.2 (span.2 - span.1) machine.start span.1
        options.restrictedRegisterInitialValue p) ⟨mem, bitmap, bitmap, true⟩
    let p ← processInvalidJumpTargets callback size p
    some (p.result, p.mem)

def amd64 : Arch w δ Amd64Insn :=
  ⟨amd64Instruction, amd64EndOfSpan, fun size => size + 1⟩

def ia32 : Arch w δ Ia32Insn :=
  ⟨ia32Instruction, fun _ _ _ p => p, fun size => size⟩

def validateChunkAMD64 (host : HostWordsize) :
    Machine Amd64Insn → Bool → Options → Callback δ → Memory δ → Option (Bool × Memory δ) :=
  validateChunk (w := host.bits) amd64

def validateChunkIA32 (host : HostWordsize) :
    Machine Ia32Insn → Bool → Options → Callback δ → Memory δ → Option (Bool × Memory δ) :=
  validateChunk (w := host.bits) ia32

end Validators

end Ragel

end SandboxingNaCl
