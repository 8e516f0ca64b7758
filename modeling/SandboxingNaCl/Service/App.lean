import SandboxingNaCl.Lib.PagedMemory
import SandboxingNaCl.Service.AddressSpace
import SandboxingNaCl.Vmmap.Search

/-!
# The state of the service runtime

The fields of `NaClApp` that the memory system calls and the dynamic code calls read and write, with
the memory of the sandbox as the host has it.  That memory is indexed by user address: page `p` of it
is the host's page at `mem_start + (p << NACL_PAGESHIFT)`.
-/

namespace SandboxingNaCl

open MachineInt PagedMemory

def naclPageSize : ℕ := 2 ^ naclPageShift

def naclMapPageSize : ℕ := 2 ^ naclMapPageShift

/-- `NACL_TRAMPOLINE_START`, which is also `NACL_SYSCALL_START_ADDR`. -/
def naclTrampolineStart : ℕ := 2 ^ 16

def naclTrampolineEnd : ℕ := naclTrampolineStart + 2 ^ 16

def naclHaltSledSize : ℕ := 32

def naclInstrBlockSize : ℕ := 32

/-- `NaClRoundPage` and, off Windows, `NaClRoundHostAllocPage`. -/
def naclRoundPage (nbytes : ℕ) : ℕ := alignUp naclPageShift nbytes

def naclRoundAllocPage (nbytes : ℕ) : ℕ := alignUp naclMapPageShift nbytes

def naclTruncAllocPage (nbytes : ℕ) : ℕ := alignDown naclMapPageShift nbytes

def naclIsAllocPageMultiple (addrOrSize : ℕ) : Bool := addrOrSize % naclMapPageSize = 0

/-- `NACL_ABI_MAP_SHARED`. -/
def mapShared : BitVec 32 := 1

/-- `NACL_ABI_MAP_FIXED`. -/
def mapFixed : BitVec 32 := 0x10

/-- `NACL_ABI_MAP_ANONYMOUS`. -/
def mapAnonymous : BitVec 32 := 0x20

/-- `NACL_ABI_PROT_MASK`. -/
def protMask : BitVec 32 := 7

/-- `NaClProtMap`: the bits the host knows, which have the same values there. -/
def naclProtMap (abiProt : BitVec 32) : BitVec 32 := abiProt &&& protMask

/-- The errors that system calls return, as the negated value; `other` are those that come from the
host or from a descriptor. -/
inductive NaClAbiErrno
  | enomem | eacces | efault | ebadf | einval | enodev | enosys | eagain
  /-- `NACL_ABI_E_MOVE_ADDRESS_SPACE`. -/
  | moveAddressSpace
  | other (errno : ℕ)

abbrev SysResult := Except NaClAbiErrno ℕ

/-- The ways a system call brings the process down. -/
inductive Fault
  | vmmap (fault : VmmapFault)
  /-- A `CHECK` that is false. -/
  | checkFailed
  /-- `NaClLog(LOG_FATAL, ...)`. -/
  | fatal
  /-- An access past the end of an array, or to memory the process may not access. -/
  | badAccess
deriving DecidableEq

/-- What the host maps at a page. -/
inductive Backing
  | anonymous
  | file (desc : NaClDesc) (offset : ℤ)
  /-- The page of `text_shm` at this offset. -/
  | textShm (offset : ℕ)

structure NaClDynamicRegion where
  start : ℕ
  size : ℕ
  deleteGeneration : ℤ
  isMmap : Bool
deriving DecidableEq

/-- The fields of `NaClApp` about dynamic code.  `shmByte` is the contents of `textShm`, by offset; a
mapping of it that the service runtime writes through is represented by the offset of its first
byte.  `threadGeneration` holds the `dynamic_delete_generation` of each thread. -/
structure DynamicText where
  textShm : Option NaClDesc
  shmByte : ℕ → UInt8
  pageBitmap : List Bool
  regions : List NaClDynamicRegion
  regionsAllocated : ℕ
  mapcacheOffset : ℕ
  mapcacheSize : ℕ
  mapcacheRet : Option ℕ
  deleteGeneration : ℤ
  threadGeneration : List (Option ℤ)

structure NaClApp where
  space : AddressSpace
  memMap : NaClVmmap
  mem : Memory Backing
  staticTextEnd : ℕ
  dynamicTextStart : ℕ
  dynamicTextEnd : ℕ
  rodataStart : ℕ
  dataStart : ℕ
  dataEnd : ℕ
  breakAddr : ℕ
  bundleSize : ℕ
  pnaclMode : Bool
  enableDyncodeSyscalls : Bool
  skipValidator : Bool
  ignoreValidatorResult : Bool
  desc : BitVec 32 → Option NaClDesc
  memIoRegions : List (ℕ × ℕ)
  text : DynamicText

/-- Where the loader has put the dynamic text and the break. -/
structure NaClApp.Layout (nap : NaClApp) : Prop where
  start_le : naclTrampolineEnd ≤ nap.dynamicTextStart
  dvd_start : 2 ^ naclMapPageShift ∣ nap.dynamicTextStart
  end_eq : nap.dynamicTextStart + nap.text.pageBitmap.length * naclMapPageSize = nap.dynamicTextEnd
  end_le : nap.dynamicTextEnd ≤ nap.dataEnd
  dataEnd_le : nap.dataEnd ≤ nap.breakAddr

/-- The byte that untrusted code sees at a user address. -/
def NaClApp.byteAt (nap : NaClApp) (uaddr : ℕ) : UInt8 :=
  match (nap.mem.page (uaddr / naclPageSize)).object with
  | .textShm offset => nap.text.shmByte (offset + uaddr % naclPageSize)
  | _ => nap.mem.byte uaddr

def naclSysCommonAddrRangeContainsExecutablePages (nap : NaClApp) (usraddr : ℕ) : Bool :=
  naclTruncAllocPage usraddr < nap.dynamicTextEnd

def naclSysCommonAddrRangeInAllowedDynamicCodeSpace (nap : NaClApp) (usraddr length : ℕ) : Bool :=
  let usrRegionEnd := uadd usraddr length
  if usrRegionEnd < usraddr then
    false
  else
    let usrRegionEnd := naclRoundAllocPage usrRegionEnd
    if usrRegionEnd < usraddr then
      false
    else
      nap.dynamicTextStart ≤ usraddr ∧ usrRegionEnd ≤ nap.dynamicTextEnd

/-- The test of `NaClVmIoPendingCheck_mu`, whose arguments are truncated to 32 bits: I/O is pending
on part of the range. -/
def naclVmIoPending (nap : NaClApp) (addrFirstUsr addrLastUsr : ℕ) : Bool :=
  nap.memIoRegions.any fun range =>
    range.1 ≤ addrLastUsr % 2 ^ 32 ∧ addrFirstUsr % 2 ^ 32 ≤ range.2

/-- A sandbox of 4 GiB with one page of static text, two pages of dynamic text that hold no code yet
and one page of data. -/
def smallApp : NaClApp where
  space := ⟨2 ^ 32, 32, AddressSpace.pos_at4GB, AddressSpace.le_at4GB, AddressSpace.lt_at4GB⟩
  memMap := ⟨[
    ⟨0x10, 0x10, protRead ||| protExec, mapPrivate, false, none, 0, 0⟩,
    ⟨0x20, 0x20, protRead ||| protExec, mapPrivate, false, none, 0, 0⟩,
    ⟨0x40, 0x10, protRead ||| protWrite, mapPrivate, false, none, 0, 0⟩], startEntries, true⟩
  mem := {
    page p :=
      if 0x10 ≤ p ∧ p < 0x20 then ⟨protRead ||| protExec, .anonymous⟩
      else if 0x20 ≤ p ∧ p < 0x40 then ⟨protNone, .textShm ((p - 0x20) * naclPageSize)⟩
      else if 0x40 ≤ p ∧ p < 0x50 then ⟨protRead ||| protWrite, .anonymous⟩
      else ⟨protNone, .anonymous⟩
    byte := fun _ => 0 }
  staticTextEnd := 0x20000
  dynamicTextStart := 0x20000
  dynamicTextEnd := 0x40000
  rodataStart := 0
  dataStart := 0x40000
  dataEnd := 0x50000
  breakAddr := 0x50000
  bundleSize := 32
  pnaclMode := false
  enableDyncodeSyscalls := true
  skipValidator := false
  ignoreValidatorResult := false
  desc _ := none
  memIoRegions := []
  text := {
    textShm := some ⟨0, 2, by decide⟩
    shmByte := fun _ => 0
    pageBitmap := [false, false]
    regions := []
    regionsAllocated := 0
    mapcacheOffset := 0
    mapcacheSize := 0
    mapcacheRet := none
    deleteGeneration := 0
    threadGeneration := [some 0] }

theorem smallApp_layout : smallApp.Layout :=
  ⟨by decide, by decide, by decide, by decide, by decide⟩

theorem smallApp_wellFormed : smallApp.memMap.WellFormed where
  entries := ⟨⟨by decide, by decide⟩, by decide, by decide⟩
  sorted _ := by decide
  nvalid_le := by decide
  size_pos := by decide

/-! ## Pages -/

theorem exists_mul_naclPageSize {a : ℕ} (h : naclPageSize ∣ a) : ∃ s, a = s * naclPageSize :=
  dvd_iff_exists_eq_mul_left.1 h

theorem dvd_of_naclIsAllocPageMultiple {a : ℕ} (h : naclIsAllocPageMultiple a = true) :
    2 ^ naclMapPageShift ∣ a :=
  Nat.dvd_of_mod_eq_zero (of_decide_eq_true h)

theorem naclPageSize_dvd {a : ℕ} (h : 2 ^ naclMapPageShift ∣ a) : naclPageSize ∣ a :=
  (by decide : naclPageSize ∣ 2 ^ naclMapPageShift).trans h

end SandboxingNaCl
