import Mathlib.Data.Nat.Bitwise

/-!
# Pointer masking

The wrapper types of `nacl_sandbox.h` recover the region of a sandbox from the high half of some
address and put it back on the low half of a pointer (`getMaskedField`); a pointer stored in the
sandbox keeps only its low half (`getSandboxedField`).  Addresses are 64-bit values in `ℕ`.
-/

namespace SandboxingNaCl

/-- The mask of the high half of an address, as the wrappers take it from an address at hand. -/
def sandboxMaskOf (addr : ℕ) : ℕ := addr &&& 0xFFFFFFFF00000000

def getMaskedField (sandboxMask arg : ℕ) : ℕ :=
  let lowBits := arg &&& 0xFFFFFFFF
  if lowBits = 0 then 0 else sandboxMask ||| lowBits

def getSandboxedField (arg : ℕ) : ℕ := arg &&& 0xFFFFFFFF

/-- The address space of a sandbox: 4 GB, aligned to its size, and not at null. -/
structure Region where
  base : ℕ
  dvd : 2 ^ 32 ∣ base
  pos : 0 < base
  le : base + 2 ^ 32 ≤ 2 ^ 64

namespace Region

def Mem (R : Region) (addr : ℕ) : Prop := R.base ≤ addr ∧ addr < R.base + 2 ^ 32

instance (R : Region) (addr : ℕ) : Decidable (R.Mem addr) := inferInstanceAs (Decidable (_ ∧ _))

def NullOrMem (R : Region) (addr : ℕ) : Prop := addr = 0 ∨ R.Mem addr

instance (R : Region) (addr : ℕ) : Decidable (R.NullOrMem addr) :=
  inferInstanceAs (Decidable (_ ∨ _))

end Region

theorem getSandboxedField_eq (arg : ℕ) : getSandboxedField arg = arg % 2 ^ 32 :=
  Nat.and_two_pow_sub_one_eq_mod arg 32

theorem sandboxMaskOf_eq {addr : ℕ} (h : addr < 2 ^ 64) :
    sandboxMaskOf addr = addr / 2 ^ 32 * 2 ^ 32 := by
  have hsplit : addr = addr / 2 ^ 32 * 2 ^ 32 + addr % 2 ^ 32 := by omega
  have hmask : (0xFFFFFFFF00000000 : ℕ) = (2 ^ 32 - 1) * 2 ^ 32 := by decide
  refine Nat.eq_of_testBit_eq fun i => ?_
  rw [sandboxMaskOf, Nat.testBit_and, hmask, Nat.testBit_mul_two_pow, Nat.testBit_mul_two_pow,
    Nat.testBit_two_pow_sub_one, Nat.testBit_div_two_pow]
  by_cases hi : 32 ≤ i
  · by_cases hi' : i - 32 < 32
    · simp [hi, hi', Nat.sub_add_cancel hi]
    · have : addr.testBit i = false :=
        Nat.testBit_lt_two_pow (h.trans_le (Nat.pow_le_pow_right (by decide) (by omega)))
      simp [hi, hi', this, Nat.sub_add_cancel hi]
  · simp [hi]

theorem getMaskedField_eq {mask : ℕ} (h : 2 ^ 32 ∣ mask) (arg : ℕ) :
    getMaskedField mask arg = if arg % 2 ^ 32 = 0 then 0 else mask + arg % 2 ^ 32 := by
  obtain ⟨k, rfl⟩ := h
  have hlow : arg &&& 0xFFFFFFFF = arg % 2 ^ 32 := Nat.and_two_pow_sub_one_eq_mod arg 32
  have hlt : arg % 2 ^ 32 < 2 ^ 32 := Nat.mod_lt _ (Nat.two_pow_pos 32)
  rw [getMaskedField, hlow, Nat.two_pow_add_eq_or_of_lt hlt]

variable {R : Region} {addr : ℕ}

theorem Region.Mem.lt (h : R.Mem addr) : addr < 2 ^ 64 := h.2.trans_le R.le

theorem Region.Mem.ne_zero (h : R.Mem addr) : addr ≠ 0 := (R.pos.trans_le h.1).ne'

theorem Region.Mem.sandboxMaskOf_eq (h : R.Mem addr) : sandboxMaskOf addr = R.base := by
  obtain ⟨k, hk⟩ := R.dvd
  have hlt := h.lt
  obtain ⟨h₁, h₂⟩ := h
  rw [SandboxingNaCl.sandboxMaskOf_eq hlt]
  omega

theorem nullOrMem_getMaskedField (R : Region) (arg : ℕ) :
    R.NullOrMem (getMaskedField R.base arg) := by
  have hlt : arg % 2 ^ 32 < 2 ^ 32 := Nat.mod_lt _ (Nat.two_pow_pos 32)
  rw [getMaskedField_eq R.dvd]
  unfold Region.NullOrMem Region.Mem
  split_ifs <;> omega

/-- A pointer stored in the sandbox and loaded again is the same, unless it is the region's first
address, which comes back as null. -/
theorem getMaskedField_getSandboxedField (h : R.Mem addr) (hne : addr ≠ R.base) :
    getMaskedField R.base (getSandboxedField addr) = addr := by
  obtain ⟨k, hk⟩ := R.dvd
  obtain ⟨h₁, h₂⟩ := h
  rw [getMaskedField_eq R.dvd, getSandboxedField_eq]
  split_ifs <;> omega

end SandboxingNaCl
