import Mathlib.Tactic.IntervalCases
import SandboxingNaCl.Lib.Patches
import SandboxingNaCl.Service.AddressSpace

/-!
# The registers of a thread

The register definitions of `abi.cc` and `Thread::SetRegisters` of `thread_common.cc`.  The registers
of a thread are the bytes of its context, and the debugger sees some of their bits only: `setRegisters`
changes the others of no register.
-/

namespace SandboxingNaCl

open Patches

inductive RegType
  | general | readOnly | readOnlyZero | armTrustedPtr | armStatus | x8664TrustedPtr
deriving DecidableEq

structure RegDef where
  type : RegType
  bytes : ℕ

/-- `RegsX86_64`, `RegsX86_32`, `RegsArm` and `RegsMips`. -/
def NaClArch.regs : NaClArch → List RegDef
  | .x8664 => .replicate 6 ⟨.general, 8⟩ ++ .replicate 2 ⟨.x8664TrustedPtr, 8⟩ ++
      .replicate 7 ⟨.general, 8⟩ ++ [⟨.readOnly, 8⟩, ⟨.x8664TrustedPtr, 8⟩, ⟨.general, 4⟩] ++
      .replicate 6 ⟨.readOnlyZero, 4⟩
  | .x8632 => .replicate 10 ⟨.general, 4⟩ ++ .replicate 6 ⟨.readOnlyZero, 4⟩
  | .arm => .replicate 9 ⟨.general, 4⟩ ++ [⟨.readOnlyZero, 4⟩] ++ .replicate 3 ⟨.general, 4⟩ ++
      [⟨.armTrustedPtr, 4⟩, ⟨.general, 4⟩, ⟨.general, 4⟩, ⟨.armStatus, 4⟩]
  | .mips => ⟨.readOnly, 4⟩ :: .replicate 25 ⟨.general, 4⟩ ++ .replicate 2 ⟨.readOnly, 4⟩ ++
      .replicate 5 ⟨.general, 4⟩

/-- The registers with the offsets that `Abi::Register` gives them. -/
def placedRegs : ℕ → List RegDef → List (ℕ × RegDef)
  | _, [] => []
  | offs, reg :: regs => (offs, reg) :: placedRegs (offs + reg.bytes) regs

/-- `GetContextSize`. -/
def NaClArch.contextSize (arch : NaClArch) : ℕ := (arch.regs.map RegDef.bytes).sum

/-- The offset of `prog_ctr` in `NaClSignalContext`. -/
def NaClArch.progCtr : NaClArch → ℕ
  | .x8664 => 128
  | .x8632 => 32
  | .arm => 60
  | .mips => 128

/-- A `uint32_t` of some bytes. -/
def word32 (m : ℕ → UInt8) (a : ℕ) : BitVec 32 :=
  (m (a + 3)).toBitVec.setWidth 32 <<< 24 ||| (m (a + 2)).toBitVec.setWidth 32 <<< 16 |||
    (m (a + 1)).toBitVec.setWidth 32 <<< 8 ||| (m a).toBitVec.setWidth 32

/-- The bytes of a `uint32_t`. -/
def bytes32 (v : BitVec 32) : List UInt8 :=
  [⟨v.extractLsb' 0 8⟩, ⟨v.extractLsb' 8 8⟩, ⟨v.extractLsb' 16 8⟩, ⟨v.extractLsb' 24 8⟩]

def isZero (buf : List UInt8) : Bool := buf.all (· = 0)

/-- The first loop of `SetRegisters`. -/
def validRegister (src context : ℕ → UInt8) (reg : ℕ × RegDef) : Bool :=
  match reg.2.type with
  | .general => true
  | .readOnly => read src reg.1 reg.2.bytes = read context reg.1 reg.2.bytes
  | .readOnlyZero => read src reg.1 reg.2.bytes = read context reg.1 reg.2.bytes ∨
      isZero (read src reg.1 reg.2.bytes)
  | .armTrustedPtr => word32 src reg.1 &&& 0x3FFFFFFF = word32 src reg.1
  | .armStatus => word32 src reg.1 &&& 0x0FFFFFFF = 0
  | .x8664TrustedPtr => read src (reg.1 + 4) 4 = read context (reg.1 + 4) 4 ∨
      isZero (read src (reg.1 + 4) 4)

/-- The second loop of `SetRegisters`. -/
def writeRegister (src context : ℕ → UInt8) (reg : ℕ × RegDef) : ℕ → UInt8 :=
  match reg.2.type with
  | .readOnly | .readOnlyZero => context
  | .x8664TrustedPtr => write context reg.1 (read src reg.1 4)
  | .armStatus => write context reg.1
      (bytes32 (word32 src reg.1 &&& 0xF0000000 ||| word32 context reg.1 &&& 0x0FFFFFFF))
  | .general | .armTrustedPtr => write context reg.1 (read src reg.1 reg.2.bytes)

/-- `SetRegisters`; `none` if it returns false. -/
def setRegisters (arch : NaClArch) (src context : ℕ → UInt8) : Option (ℕ → UInt8) :=
  if (placedRegs 0 arch.regs).all (validRegister src context) then
    some ((placedRegs 0 arch.regs).foldl (writeRegister src) context)
  else none

/-! ## What is written -/

/-- The bits of a byte of a register that the debugger may write. -/
def RegDef.mask (reg : RegDef) (i : ℕ) : UInt8 :=
  match reg.type with
  | .readOnly | .readOnlyZero => 0
  | .x8664TrustedPtr => if i < 4 then 0xff else 0
  | .armStatus => if i = 3 then 0xf0 else 0
  | .general | .armTrustedPtr => 0xff

def mergeBits (mask old new : UInt8) : UInt8 := old &&& ~~~mask ||| new &&& mask

/-- The registers after the debugger has written them: each takes the bits that may be written, and
nothing else changes. -/
structure RegistersWritten (arch : NaClArch) (src context context' : ℕ → UInt8) : Prop where
  written : ∀ reg ∈ placedRegs 0 arch.regs, ∀ i < reg.2.bytes,
    context' (reg.1 + i) = mergeBits (reg.2.mask i) (context (reg.1 + i)) (src (reg.1 + i))
  kept : ∀ a, arch.contextSize ≤ a → context' a = context a

/-- What the `CHECK`s of `SetRegisters` say of a register. -/
def RegDef.Checked (reg : RegDef) : Prop :=
  (reg.type = .armStatus → reg.bytes = 4) ∧ (reg.type = .x8664TrustedPtr → reg.bytes = 8)

instance (reg : RegDef) : Decidable reg.Checked := inferInstanceAs (Decidable (_ ∧ _))

theorem checked_regs (arch : NaClArch) : ∀ reg ∈ arch.regs, reg.Checked := by
  cases arch <;> decide

section

variable {src context : ℕ → UInt8} {reg : RegDef} {offs i a : ℕ}

@[simp] theorem mergeBits_zero (old new : UInt8) : mergeBits 0 old new = old := by
  simp [mergeBits]

@[simp] theorem mergeBits_full (old new : UInt8) : mergeBits 0xff old new = new := by
  change old &&& ~~~(-1) ||| new &&& -1 = new
  simp

theorem word32_congr {m m' : ℕ → UInt8} {b : ℕ} (h : ∀ i < 4, m (a + i) = m' (b + i)) :
    word32 m a = word32 m' b := by
  have hfirst := h 0 (by decide)
  rw [Nat.add_zero, Nat.add_zero] at hfirst
  rw [word32, word32, hfirst, h 1 (by decide), h 2 (by decide), h 3 (by decide)]

theorem extractLsb'_word32 (m : ℕ → UInt8) (a : ℕ) (hi : i < 4) :
    (word32 m a).extractLsb' (8 * i) 8 = (m (a + i)).toBitVec := by
  apply BitVec.eq_of_getLsbD_eq
  intro j hj
  interval_cases i <;> interval_cases j <;> simp [word32]

theorem bytes32_status (new old : ℕ → UInt8) (a : ℕ) (hi : i < 4) :
    (bytes32 (word32 new a &&& 0xF0000000 ||| word32 old a &&& 0x0FFFFFFF))[i]? =
      some (mergeBits (if i = 3 then 0xf0 else 0) (old (a + i)) (new (a + i))) := by
  have hnew := extractLsb'_word32 new a hi
  have hold := extractLsb'_word32 old a hi
  have hbyte : (bytes32 (word32 new a &&& 0xF0000000 ||| word32 old a &&& 0x0FFFFFFF))[i]? =
      some ⟨(word32 new a &&& 0xF0000000 ||| word32 old a &&& 0x0FFFFFFF).extractLsb' (8 * i) 8⟩ := by
    interval_cases i <;> rfl
  rw [hbyte, BitVec.extractLsb'_or, BitVec.extractLsb'_and, BitVec.extractLsb'_and, hnew, hold,
    Option.some.injEq]
  have hall (b : BitVec 8) : b &&& 255#8 = b := BitVec.and_allOnes
  apply UInt8.toBitVec_inj.1
  interval_cases i <;> simp [mergeBits, BitVec.or_comm, hall]

theorem write_eq_merge {m : ℕ → UInt8} {block : List UInt8} {n : ℕ} {mask new : ℕ → UInt8}
    (hlength : block.length ≤ n)
    (h : ∀ i < n, (block[i]?).getD (m (offs + i)) = mergeBits (mask i) (m (offs + i)) (new (offs + i))) :
    write m offs block a =
      if offs ≤ a ∧ a < offs + n then mergeBits (mask (a - offs)) (m a) (new a) else m a := by
  unfold write
  split_ifs with hle hin hin
  · have hbyte := h (a - offs) (by omega)
    rwa [Nat.add_sub_cancel' hle] at hbyte
  · rw [List.getElem?_eq_none (by omega), Option.getD_none]
  · exact absurd hin.1 hle
  · rfl

theorem getElem?_read_getD {m new : ℕ → UInt8} {n : ℕ} :
    ((read new offs n)[i]?).getD (m (offs + i)) = if i < n then new (offs + i) else m (offs + i) := by
  by_cases h : i < n
  · rw [getElem?_read h, if_pos h, Option.getD_some]
  · rw [List.getElem?_eq_none (by rw [length_read]; omega), if_neg h, Option.getD_none]

theorem writeRegister_apply (hreg : reg.Checked) : writeRegister src context (offs, reg) a =
    if offs ≤ a ∧ a < offs + reg.bytes then mergeBits (reg.mask (a - offs)) (context a) (src a)
    else context a := by
  obtain ⟨type, bytes⟩ := reg
  obtain ⟨hstatus, htrusted⟩ := hreg
  dsimp only at hstatus htrusted
  cases type with
  | readOnly => simp [writeRegister, RegDef.mask]
  | readOnlyZero => simp [writeRegister, RegDef.mask]
  | general =>
    refine write_eq_merge (Nat.le_of_eq (length_read ..)) fun i hi => ?_
    rw [getElem?_read_getD, if_pos hi]
    exact (mergeBits_full _ _).symm
  | armTrustedPtr =>
    refine write_eq_merge (Nat.le_of_eq (length_read ..)) fun i hi => ?_
    rw [getElem?_read_getD, if_pos hi]
    exact (mergeBits_full _ _).symm
  | x8664TrustedPtr =>
    obtain rfl := htrusted rfl
    refine write_eq_merge (by rw [length_read]; decide) fun i _ => ?_
    rw [getElem?_read_getD]
    change _ = mergeBits (if i < 4 then 0xff else 0) _ _
    split_ifs
    · exact (mergeBits_full _ _).symm
    · exact (mergeBits_zero _ _).symm
  | armStatus =>
    obtain rfl := hstatus rfl
    refine write_eq_merge (Nat.le_refl 4) fun i hi => ?_
    rw [bytes32_status src context offs hi, Option.getD_some]
    rfl

theorem foldl_writeRegister {regs : List RegDef} (hregs : ∀ reg ∈ regs, reg.Checked) :
    (∀ reg ∈ placedRegs offs regs, ∀ i < reg.2.bytes,
      (placedRegs offs regs).foldl (writeRegister src) context (reg.1 + i) =
        mergeBits (reg.2.mask i) (context (reg.1 + i)) (src (reg.1 + i))) ∧
    (∀ a, a < offs ∨ offs + (regs.map RegDef.bytes).sum ≤ a →
      (placedRegs offs regs).foldl (writeRegister src) context a = context a) ∧
    ∀ reg ∈ placedRegs offs regs, offs ≤ reg.1 := by
  induction regs generalizing offs context with
  | nil => exact ⟨fun _ h => absurd h List.not_mem_nil, fun _ _ => rfl,
      fun _ h => absurd h List.not_mem_nil⟩
  | cons reg regs ih =>
    have hreg := hregs reg List.mem_cons_self
    obtain ⟨hwritten, hkept, hle⟩ := @ih (writeRegister src context (offs, reg)) (offs + reg.bytes)
      fun r hr => hregs r (List.mem_cons_of_mem _ hr)
    rw [placedRegs, List.foldl_cons]
    refine ⟨fun r hr i hi => ?_, fun a ha => ?_, fun r hr => ?_⟩
    · rcases List.mem_cons.1 hr with rfl | hr
      · dsimp only at hi
        rw [hkept (offs + i) (Or.inl (by omega)), writeRegister_apply hreg,
          if_pos ⟨Nat.le_add_right _ _, by omega⟩, Nat.add_sub_cancel_left]
      · have := hle r hr
        rw [hwritten r hr i hi, writeRegister_apply hreg, if_neg (by omega)]
    · rw [List.map_cons, List.sum_cons] at ha
      rw [hkept a (by omega), writeRegister_apply hreg, if_neg (by omega)]
    · rcases List.mem_cons.1 hr with rfl | hr
      · exact Nat.le_refl _
      · exact (Nat.le_add_right _ _).trans (hle r hr)

theorem registersWritten_of_setRegisters {arch : NaClArch} {context' : ℕ → UInt8}
    (h : setRegisters arch src context = some context') :
    RegistersWritten arch src context context' := by
  unfold setRegisters at h
  split_ifs at h
  cases h
  obtain ⟨hwritten, hkept, -⟩ := @foldl_writeRegister src context 0 _ (checked_regs arch)
  exact ⟨hwritten, fun a ha => hkept a (Or.inr ((Nat.zero_add _).symm ▸ ha))⟩

end

end SandboxingNaCl
