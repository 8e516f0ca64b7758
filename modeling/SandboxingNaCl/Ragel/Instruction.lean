import Mathlib.Data.List.Basic

/-!
# What the decoders of the x86 validators report

The Ragel machines of `validator_x86_64.rl` and `validator_x86_32.rl` are generated from tables of
instructions and stay a parameter.  This file names the facts about one instruction that their
actions pass to the checks, and the flags of `validator.h` the checks answer with.
-/

namespace SandboxingNaCl

namespace Ragel

abbrev kBundleSize : ℕ := 32

/-- `validation_callback_info`. -/
abbrev Info : Type := BitVec 32

def restrictedRegisterMask : Info := 0x00001f00
def restrictedRegisterShift : ℕ := 8
def restrictedRegisterUsed : Info := 0x00002000
def validationErrorsMask : Info := 0x05ffc000
def unrecognizedInstruction : Info := 0x00004000
def directJumpOutOfRange : Info := 0x00008000
def cpuidUnsupportedInstruction : Info := 0x00010000
def forbiddenBaseRegister : Info := 0x00020000
def unrestrictedIndexRegister : Info := 0x00040000
def restrictedRbpUnprocessed : Info := 0x00080000
def unrestrictedRbpProcessed : Info := 0x00180000
def restrictedRspUnprocessed : Info := 0x00280000
def unrestrictedRspProcessed : Info := 0x00380000
def r15Modified : Info := 0x00400000
def bpModified : Info := 0x00800000
def spModified : Info := 0x01000000
def badCallAlignment : Info := 0x02000000
def unsupportedInstruction : Info := 0x04000000
def specialInstruction : Info := 0x10000000
def badJumpTarget : Info := 0x40000000
def relative8Bit : Info := 0x00000081
def relative32Bit : Info := 0x00000084

/-- None of the errors that the callback of a validator is told about. -/
def Info.Clean (info : Info) : Prop := info &&& validationErrorsMask = 0

instance (info : Info) : Decidable info.Clean := inferInstanceAs (Decidable (_ = _))

@[simp] theorem Info.clean_or {a b : Info} : Info.Clean (a ||| b) ↔ a.Clean ∧ b.Clean := by
  unfold Info.Clean
  constructor
  · intro h
    constructor <;>
    · ext i hi
      have hi := congrArg (fun x : Info => x.getLsbD i) h
      simp only [BitVec.getLsbD_and, BitVec.getLsbD_or] at hi
      simp_all
  · rintro ⟨ha, hb⟩
    rw [BitVec.and_comm, BitVec.and_or_distrib_left, BitVec.and_comm, ha, BitVec.and_comm, hb]
    rfl

inductive OperandName
  | rax | rcx | rdx | rbx | rsp | rbp | rsi | rdi
  | r8 | r9 | r10 | r11 | r12 | r13 | r14 | r15
  | rm | rip | riz | imm | imm2 | dsRbx | esRdi | dsRsi | portDx | noReg | st | jmpTo
  deriving DecidableEq, Repr

def OperandName.code (name : OperandName) : ℕ := name.ctorIdx

/-- The bits that report the restricted register to the callback. -/
def OperandName.report (name : OperandName) : Info :=
  BitVec.ofNat 32 name.code <<< restrictedRegisterShift &&& restrictedRegisterMask

theorem OperandName.clean_report (name : OperandName) : Info.Clean name.report := by
  cases name <;> decide

inductive OperandKind
  | irrelevant | bit8 | restricted | unrestricted
  deriving DecidableEq, Repr

/-- One byte of `operand_states`: a register an instruction writes, and how much of it. -/
structure Operand where
  name : OperandName
  kind : OperandKind
  deriving DecidableEq, Repr

/-- The encoding of a direct jump's or call's displacement. -/
inductive Relative
  | rel8 | rel32
  deriving DecidableEq, Repr

/-- The instructions of `rbp_modifications` and `rsp_modifications`. -/
inductive StackModification
  | movRspRbp | movRbpRsp | andRsp (mask : UInt8)
  deriving DecidableEq, Repr

/-- The instructions of `rbp_sandboxing` and `rsp_sandboxing`, by their operation. -/
inductive Rebase
  | add | or | lea
  deriving DecidableEq, Repr

/-- Which field of ModR/M holds the destination of the `add` of an indirect jump. -/
inductive AddTo
  | rm | reg
  deriving DecidableEq, Repr

/-- The action of `validator_x86_64.rl` on the last byte of an instruction. -/
inductive LastAction
  | process0Operands
  | process1Operand (o : Operand)
  | process1OperandZeroExtends (o : Operand)
  | process2Operands (o₀ o₁ : Operand)
  | process2OperandsZeroExtends (o₀ o₁ : Operand)
  | stackModification (m : StackModification)
  | rbpSandboxing (op : Rebase)
  | rspSandboxing (op : Rebase)
  | sandboxedInstruction (sandboxBytes : ℕ)
  | naclCallOrJmp (addTo : AddTo) (andBytes : ℕ)
  deriving DecidableEq, Repr

/-- What the amd64 machine collects on an instruction.  `info` are the flags its simple actions
set; `memoryAccess` the base and the index given to `check_memory_access`. -/
structure Amd64Insn where
  info : Info
  rexPrefix : Bool
  memoryAccess : Option (OperandName × OperandName)
  relative : Option Relative
  action : LastAction
  isCall : Bool
  deriving DecidableEq, Repr

/-- What the ia32 machine collects on an instruction; `special` is the end of a naclcall or
nacljmp. -/
structure Ia32Insn where
  info : Info
  relative : Option Relative
  special : Bool
  isCall : Bool
  deriving DecidableEq, Repr

/-- One turn of the loop of `main`: an instruction is accepted, and the machine is in `state` after
its `size` bytes. -/
structure Match (σ ι : Type) where
  size : ℕ
  insn : ι
  state : σ

/-- How a turn ends; `stuck` is `report_fatal_error` so many bytes into the instruction, also at the
end of the bytes with an instruction unfinished. -/
inductive Scan (σ ι : Type)
  | accepted (m : Match σ ι)
  | stuck (bytes : ℕ)

/-- A Ragel machine between instructions: from a state, what it makes of the bytes that follow. -/
structure Machine (ι : Type) where
  State : Type
  start : State
  next : State → List UInt8 → Scan State ι
  size_pos : ∀ {q bytes m}, next q bytes = .accepted m → 0 < m.size
  size_le : ∀ {q bytes m}, next q bytes = .accepted m → m.size ≤ bytes.length

end Ragel

end SandboxingNaCl
