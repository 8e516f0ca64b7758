import SandboxingNaCl.Lib.MachineInt
import SandboxingNaCl.Lib.AddressRange

/-!
# User and system addresses

The address space of a sandbox as `NaClApp` records it, and the translations of `sel_ldr-inl.h`
between the addresses untrusted code uses and those of the host.
-/

namespace SandboxingNaCl

open MachineInt AddressRange

/-- `NACL_BUILD_ARCH` with `NACL_BUILD_SUBARCH`. -/
inductive NaClArch
  | x8632 | x8664 | arm | mips
deriving DecidableEq

/-- The width of `uintptr_t`. -/
def NaClArch.ptrBits : NaClArch → ℕ
  | .x8664 => 64
  | .x8632 | .arm | .mips => 32

/-- `mem_start` and `addr_bits` of a `NaClApp`.  The address space does not start at null and ends
below the end of the host's. -/
structure AddressSpace where
  memStart : ℕ
  addrBits : ℕ
  pos : 0 < memStart
  addrBits_le : addrBits ≤ 32
  lt : memStart + 2 ^ addrBits < 2 ^ 64

namespace AddressSpace

theorem pos_at4GB : 0 < 2 ^ 32 := by decide

theorem le_at4GB : 32 ≤ 32 := le_rfl

/-- A sandbox of 4 GB fits at 4 GB. -/
theorem lt_at4GB : 2 ^ 32 + 2 ^ 32 < 2 ^ 64 := by decide

/-- The host address belongs to the sandbox: `NaClIsUserAddr`. -/
def Contains (as : AddressSpace) (sysaddr : ℕ) : Prop :=
  as.memStart ≤ sysaddr ∧ sysaddr < as.memStart + 2 ^ as.addrBits

/-- Every byte of the range of host addresses belongs to the sandbox. -/
def ContainsRange (as : AddressSpace) (r : ℕ × ℕ) : Prop :=
  Within as.memStart (as.memStart + 2 ^ as.addrBits) r

end AddressSpace

def kNaClBadAddress : ℕ := 2 ^ 64 - 1

def naclUserToSysAddr (as : AddressSpace) (uaddr : ℕ) : ℕ :=
  if 0 = uaddr ∨ 2 ^ as.addrBits ≤ uaddr then kNaClBadAddress else uadd uaddr as.memStart

def naclUserToSysAddrRange (as : AddressSpace) (uaddr count : ℕ) : ℕ :=
  if 0 = uaddr then kNaClBadAddress
  else
    let endAddr := uadd uaddr count
    if endAddr < uaddr then kNaClBadAddress
    else if 2 ^ as.addrBits < endAddr then kNaClBadAddress
    else uadd uaddr as.memStart

/-- `NaClUserToSys`; `none` is its fatal error. -/
def naclUserToSys (as : AddressSpace) (uaddr : ℕ) : Option ℕ :=
  if 0 = uaddr ∨ 2 ^ as.addrBits ≤ uaddr then none else some (uadd uaddr as.memStart)

/-- `NaClSysToUser`; `none` is its fatal error. -/
def naclSysToUser (as : AddressSpace) (sysaddr : ℕ) : Option ℕ :=
  if sysaddr < as.memStart ∨ as.memStart + 2 ^ as.addrBits ≤ sysaddr then none
  else some (sysaddr - as.memStart)

variable {as : AddressSpace} {uaddr : ℕ}

theorem naclUserToSysAddr_of_lt (h₀ : 0 < uaddr) (h : uaddr < 2 ^ as.addrBits) :
    naclUserToSysAddr as uaddr = as.memStart + uaddr := by
  have := as.lt
  rw [naclUserToSysAddr, if_neg (by omega), uadd_eq (by omega), Nat.add_comm]

/-- A range of user addresses translated by its start lies in the sandbox exactly when it does not
start at null and ends in the address space. -/
theorem containsRange_naclUserToSysAddr_iff (as : AddressSpace) (uaddr n : ℕ) (hn : 0 < n) :
    as.ContainsRange (naclUserToSysAddr as uaddr, n) ↔
      0 < uaddr ∧ uaddr + n ≤ 2 ^ as.addrBits := by
  have hlt := as.lt
  by_cases h : 0 < uaddr ∧ uaddr < 2 ^ as.addrBits
  · rw [naclUserToSysAddr_of_lt h.1 h.2, AddressSpace.ContainsRange,
      within_iff as.pos (Or.inr (by omega))]
    have := as.pos
    omega
  · have hbad : naclUserToSysAddr as uaddr = kNaClBadAddress := if_pos (by omega)
    rw [hbad]
    refine iff_of_false (fun hin => ?_) (by omega)
    have := (hin 0 hn).2
    simp only [kNaClBadAddress] at this
    omega

theorem contains_of_naclUserToSys {sysaddr : ℕ} (h : naclUserToSys as uaddr = some sysaddr) :
    as.Contains sysaddr := by
  have hlt := as.lt
  unfold naclUserToSys at h
  split_ifs at h with hbad
  rw [uadd_eq (by omega), Option.some.injEq] at h
  unfold AddressSpace.Contains
  omega

theorem eq_of_naclUserToSys {sysaddr : ℕ} (h : naclUserToSys as uaddr = some sysaddr) :
    sysaddr = as.memStart + uaddr := by
  have hlt := as.lt
  unfold naclUserToSys at h
  split_ifs at h with hbad
  rw [uadd_eq (by omega), Option.some.injEq] at h
  omega

theorem addrBits_pow_le (space : AddressSpace) : 2 ^ space.addrBits ≤ 2 ^ 32 :=
  Nat.pow_le_pow_right (by decide) space.addrBits_le

theorem naclUserToSysAddrRange_spec {space : AddressSpace} {uaddr count : ℕ}
    (hlt : uaddr < 2 ^ 64) (hcount : count < 2 ^ 64)
    (h : naclUserToSysAddrRange space uaddr count ≠ kNaClBadAddress) :
    0 < uaddr ∧ uaddr + count ≤ 2 ^ space.addrBits ∧
      naclUserToSysAddrRange space uaddr count = space.memStart + uaddr := by
  have hbits := addrBits_pow_le space
  have hspace := space.lt
  unfold naclUserToSysAddrRange at h ⊢
  dsimp only at h ⊢
  split_ifs at h ⊢ with h₀ hwrap hhi
  · exact absurd rfl h
  · exact absurd rfl h
  · exact absurd rfl h
  · have hsum : uaddr + count < 2 ^ 64 := by
      unfold uadd at hwrap hhi
      omega
    rw [uadd_eq hsum] at hhi
    rw [uadd_eq (by omega)]
    omega

end SandboxingNaCl
