import SandboxingNaCl.Lib.Patches
import SandboxingNaCl.Lib.Runs
import SandboxingNaCl.Service.App

/-!
# Breakpoints

The memory commands of `target.cc`.  A breakpoint overwrites an instruction, whose bytes are saved in
`breakpoint_map_`; what the debugger reads and writes goes through `IPlatform`.
-/

namespace SandboxingNaCl

open MachineInt Patches Runs

/-- `code_` of `Abi::GetBreakpointDef`. -/
def NaClArch.breakpointCode : NaClArch → List UInt8
  | .x8632 | .x8664 => [0xf4]
  | .arm => [0xf0, 0xde, 0xfe, 0xe7]
  | .mips => [0xd, 0x0, 0x0, 0x0]

/-- `size_` of `Abi::GetBreakpointDef`. -/
def NaClArch.breakpointSize (arch : NaClArch) : ℕ := arch.breakpointCode.length

/-- What `IPlatform::SetMemory` does: it may report a failure after it has written some bytes. -/
inductive SetMemoryResult
  | written
  | failed (bytes : ℕ)

/-- The host's part of a command: which ranges can be read, and what becomes of a write. -/
structure Platform where
  readable : ℕ → ℕ → Bool
  setMemory : SetMemoryResult

/-- The fields of `Target` that the memory commands use, with those of its `NaClApp`.  `memory` is the
memory of the sandbox by user address.  `isOnInstBoundary` is the validator's, and
`isBreakPointAndConstantPoolHead` that of the decoder for ARM. -/
structure Target where
  arch : NaClArch
  space : AddressSpace
  dynamicTextEnd : ℕ
  isOnInstBoundary : ℕ → ℕ → List UInt8 → Bool
  isBreakPointAndConstantPoolHead : List UInt8 → Bool
  memory : ℕ → UInt8
  breakpointMap : List (Patch UInt8)

/-- `ErrDef` of `target.h`. -/
inductive ErrDef
  | badFormat | badArgs | failed
deriving DecidableEq

/-- The packet that answers a command. -/
inductive Reply
  | ok
  | error (err : ErrDef)
  | block (data : List UInt8)
deriving DecidableEq

/-- The packets of the memory commands, with the numbers in them.  `block` is the array that
`Packet::GetBlock` has filled. -/
inductive MemoryCommand
  /-- `Z`. -/
  | insert (breakpointType breakpointAddress : BitVec 64)
  /-- `z`. -/
  | remove (breakpointType breakpointAddress : BitVec 64)
  /-- `m`. -/
  | read (userAddr wlen : BitVec 64)
  /-- `M`. -/
  | write (userAddr wlen : BitVec 64) (block : ℕ → UInt8)

namespace Target

/-- The conversion to `uintptr_t` or `size_t`. -/
def uintptr (t : Target) (n : ℕ) : ℕ := n % 2 ^ t.arch.ptrBits

def getMemory (t : Target) (host : Platform) (virt len : ℕ) : Option (List UInt8) :=
  if host.readable virt len then some (Patches.read t.memory (virt - t.space.memStart) len) else none

/-- `IPlatform::SetMemory`: the memory, and whether it succeeds. -/
def setMemory (t : Target) (host : Platform) (virt : ℕ) (src : List UInt8) : Target × Bool :=
  match host.setMemory with
  | .written => ({ t with memory := Patches.write t.memory (virt - t.space.memStart) src }, true)
  | .failed bytes =>
    ({ t with memory := Patches.write t.memory (virt - t.space.memStart) (src.take bytes) }, false)

/-- A round of the loop of `EraseBreakpointsFromCopyOfMemory`; `none` is a `CHECK` that fails. -/
def eraseBreakpoint (bpSize size userAddress userEnd : ℕ) (data : List UInt8) (bp : Patch UInt8) :
    Option (List UInt8) :=
  let breakpointEnd := (bp.1 + bpSize) % 2 ^ 32
  let overlapStart := max userAddress bp.1
  let overlapEnd := min userEnd breakpointEnd
  if overlapStart < overlapEnd then
    let dest := overlapStart - userAddress
    let src := overlapStart - bp.1
    let copySize := overlapEnd - overlapStart
    if dest + copySize ≤ size ∧ src + copySize ≤ bpSize then
      some (patchCopy data dest bp.2 src copySize)
    else none
  else some data

def eraseBreakpointsFromCopyOfMemory (t : Target) (userAddress : ℕ) (data : List UInt8) (size : ℕ) :
    Option (List UInt8) :=
  let userEnd := (userAddress + size) % 2 ^ 32
  t.breakpointMap.foldlM (eraseBreakpoint t.arch.breakpointSize size userAddress userEnd) data

def isOnValidInstBoundary (t : Target) (host : Platform) (addr : ℕ) : Option Bool :=
  if t.arch = .mips then some true
  else
    let bundleAddr := addr - addr % naclInstrBlockSize
    let codeAddr := naclUserToSysAddrRange t.space bundleAddr naclInstrBlockSize
    if codeAddr = kNaClBadAddress then some false
    else
      match t.getMemory host codeAddr naclInstrBlockSize with
      | none => some false
      | some codeBuf =>
        (t.eraseBreakpointsFromCopyOfMemory bundleAddr codeBuf naclInstrBlockSize).map
          (t.isOnInstBoundary bundleAddr addr)

/-- The first part of `AddBreakpoint`: the address is that of an instruction. -/
def isBreakpointAddress (t : Target) (host : Platform) (userAddress : ℕ) : Option Bool :=
  if t.arch = .arm then
    if userAddress % 4 ≠ 0 then some false
    else
      let bundleAddr := userAddress - userAddress % naclInstrBlockSize
      let sysBundleAddr := naclUserToSysAddrRange t.space bundleAddr 4
      if sysBundleAddr = kNaClBadAddress then some false
      else
        match t.getMemory host sysBundleAddr 4 with
        | none => some false
        | some bundleHead => some (!t.isBreakPointAndConstantPoolHead bundleHead)
  else t.isOnValidInstBoundary host userAddress

/-- `AddBreakpoint` up to the write: the bytes to be saved, or `none` where it returns false. -/
def savedCode (t : Target) (host : Platform) (userAddress : ℕ) : Option (Option (List UInt8)) :=
  (t.isBreakpointAddress host userAddress).map fun valid =>
    if valid = false then none
    else if t.breakpointMap.any (·.1 = userAddress) then none
    else
      let sysaddr := naclUserToSysAddrRange t.space userAddress t.arch.breakpointSize
      if sysaddr = kNaClBadAddress then none
      -- the sum is that of two `uint32_t`
      else if t.dynamicTextEnd < (userAddress + t.arch.breakpointSize) % 2 ^ 32 then none
      else t.getMemory host sysaddr t.arch.breakpointSize

/-- `breakpoint_map_[user_address] = data`. -/
def insertEntry (bp : Patch UInt8) (breakpointMap : List (Patch UInt8)) : List (Patch UInt8) :=
  breakpointMap.orderedInsert (fun p q => p.1 ≤ q.1) bp

def addBreakpoint (t : Target) (host : Platform) (userAddress : ℕ) : Option (Target × Bool) :=
  (t.savedCode host userAddress).map fun saved =>
    match saved with
    | none => (t, false)
    | some data =>
      let sysaddr := naclUserToSysAddrRange t.space userAddress t.arch.breakpointSize
      let (t, succeeded) := t.setMemory host sysaddr t.arch.breakpointCode
      if succeeded then
        ({ t with breakpointMap := insertEntry (userAddress, data) t.breakpointMap }, true)
      else (t, false)

/-- `RemoveBreakpoint`; `none` is the fatal error of `NaClUserToSys`. -/
def removeBreakpoint (t : Target) (host : Platform) (userAddress : ℕ) : Option (Target × Bool) :=
  match t.breakpointMap.find? (·.1 = userAddress) with
  | none => some (t, false)
  | some bp =>
    (naclUserToSys t.space userAddress).map fun sysaddr =>
      let (t, succeeded) := t.setMemory host sysaddr bp.2
      if succeeded then ({ t with breakpointMap := t.breakpointMap.erase bp }, true) else (t, false)

def adjustUserAddr (t : Target) (addr : ℕ) : ℕ :=
  if t.arch = .x8664 ∧ t.space.memStart ≤ addr ∧ addr < t.space.memStart + 2 ^ t.space.addrBits then
    addr - t.space.memStart
  else addr

def replyOf (succeeded : Bool) : Reply := if succeeded then .ok else .error .failed

/-- The case `m` of `ProcessPacket`. -/
def readPacket (t : Target) (host : Platform) (userAddr wlen : BitVec 64) : Option Reply :=
  let addr := t.adjustUserAddr userAddr.toNat
  let sysAddr := naclUserToSysAddrRange t.space (t.uintptr addr) (t.uintptr wlen.toNat)
  if sysAddr = kNaClBadAddress then some (.error .failed)
  else
    let len := wlen.toNat % 2 ^ 32
    match t.getMemory host sysAddr len with
    | none => some (.error .failed)
    | some block => (t.eraseBreakpointsFromCopyOfMemory (addr % 2 ^ 32) block len).map .block

/-- The case `M` of `ProcessPacket`. -/
def writePacket (t : Target) (host : Platform) (userAddr wlen : BitVec 64) (block : ℕ → UInt8) :
    Target × Reply :=
  let addr := t.adjustUserAddr userAddr.toNat
  let sysAddr := naclUserToSysAddrRange t.space (t.uintptr addr) (t.uintptr wlen.toNat)
  if sysAddr = kNaClBadAddress then (t, .error .failed)
  else if addr < t.dynamicTextEnd then (t, .error .failed)
  else
    let len := wlen.toNat % 2 ^ 32
    let (t, succeeded) := t.setMemory host sysAddr ((List.range len).map block)
    (t, replyOf succeeded)

/-- `ProcessPacket`; `none` is the end of the process. -/
def processPacket (t : Target) (host : Platform) : MemoryCommand → Option (Target × Reply)
  | .insert breakpointType breakpointAddress =>
    if breakpointType ≠ 0 then some (t, .error .badFormat)
    else if breakpointAddress.toNat ≠ breakpointAddress.toNat % 2 ^ 32 then
      some (t, .error .failed)
    else (t.addBreakpoint host breakpointAddress.toNat).map fun (t, ok) => (t, replyOf ok)
  | .remove breakpointType breakpointAddress =>
    if breakpointType ≠ 0 then some (t, .error .badFormat)
    else if breakpointAddress.toNat ≠ breakpointAddress.toNat % 2 ^ 32 then
      some (t, .error .failed)
    else (t.removeBreakpoint host breakpointAddress.toNat).map fun (t, ok) => (t, replyOf ok)
  | .read userAddr wlen => (t.readPacket host userAddr wlen).map fun reply => (t, reply)
  | .write userAddr wlen block => some (t.writePacket host userAddr wlen block)

/-- A command with the host's part in it; the answer is left out. -/
def step (t : Target) (a : MemoryCommand × Platform) : Except Unit Target :=
  match t.processPacket a.2 a.1 with
  | some (t', _) => .ok t'
  | none => .error ()

/-! ## The target without breakpoints -/

def withoutBreakpoints (t : Target) : Target :=
  { t with memory := original t.breakpointMap t.memory, breakpointMap := [] }

/-- What a command does to a target that is given no breakpoints. -/
def plainStep (t : Target) (a : MemoryCommand × Platform) : Target :=
  match a.1 with
  | .write userAddr wlen block => (t.writePacket a.2 userAddr wlen block).1
  | _ => t

/-- What the conditions on a command are: a breakpoint that is added ends below `2 ^ 32`, shares no byte
with another, and is not written by a write that then fails; a range that is read and has a breakpoint
in it ends below `2 ^ 32`; the address of a write, cut off to a pointer, is not that of a breakpoint. -/
def Safe (t : Target) (a : MemoryCommand × Platform) : Prop :=
  match a.1 with
  | .insert breakpointType breakpointAddress =>
    breakpointType = 0 → breakpointAddress.toNat < 2 ^ 32 →
      ∀ data, t.savedCode a.2 breakpointAddress.toNat = some (some data) →
      breakpointAddress.toNat + t.arch.breakpointSize < 2 ^ 32 ∧
        (∀ bp ∈ t.breakpointMap, Apart (breakpointAddress.toNat, data) bp) ∧
        ∀ n, a.2.setMemory = .failed n → Patches.write t.memory breakpointAddress.toNat
          (t.arch.breakpointCode.take n) = t.memory
  | .remove _ _ => True
  | .read userAddr wlen =>
    let addr := t.adjustUserAddr userAddr.toNat
    naclUserToSysAddrRange t.space (t.uintptr addr) (t.uintptr wlen.toNat) ≠ kNaClBadAddress →
      addr % 2 ^ 32 + wlen.toNat % 2 ^ 32 < 2 ^ 32 ∨
        ∀ bp ∈ t.breakpointMap, Avoids (addr % 2 ^ 32) (wlen.toNat % 2 ^ 32) bp
  | .write userAddr wlen _ =>
    let addr := t.adjustUserAddr userAddr.toNat
    naclUserToSysAddrRange t.space (t.uintptr addr) (t.uintptr wlen.toNat) ≠ kNaClBadAddress →
      t.dynamicTextEnd ≤ addr →
        ∀ bp ∈ t.breakpointMap, Avoids (t.uintptr addr) (wlen.toNat % 2 ^ 32) bp

/-- The breakpoints lie in the code, apart from each other. -/
structure Inv (t : Target) : Prop where
  size : ∀ bp ∈ t.breakpointMap, bp.2.length = t.arch.breakpointSize
  apart : t.breakpointMap.Pairwise Apart
  pos : ∀ bp ∈ t.breakpointMap, 0 < bp.1
  le : ∀ bp ∈ t.breakpointMap, bp.1 + t.arch.breakpointSize ≤ 2 ^ t.space.addrBits
  lt : ∀ bp ∈ t.breakpointMap, bp.1 + t.arch.breakpointSize < 2 ^ 32

section

variable {t t' : Target} {host : Platform} {userAddress start size len bpSize : ℕ} {bp : Patch UInt8}
  {data : List UInt8}

theorem breakpointSize_pos (arch : NaClArch) : 0 < arch.breakpointSize := by
  cases arch <;> decide

theorem breakpointSize_le (arch : NaClArch) : arch.breakpointSize ≤ 4 := by
  cases arch <;> decide

theorem exists_eraseBreakpoint (hstart : start < 2 ^ 32) (hsize : size < 2 ^ 32)
    (hbp : bp.1 + bpSize < 2 ^ 32) (data : List UInt8) :
    ∃ data', eraseBreakpoint bpSize size start ((start + size) % 2 ^ 32) data bp = some data' := by
  unfold eraseBreakpoint
  dsimp only
  rw [Nat.mod_eq_of_lt hbp]
  split_ifs with hoverlap hcheck
  · exact ⟨_, rfl⟩
  · refine absurd ⟨?_, ?_⟩ hcheck
    · omega
    · omega
  · exact ⟨_, rfl⟩

theorem putBack_of_eraseBreakpoint (hrange : start + len < 2 ^ 32 ∨ Avoids start len bp)
    (hstart : start < 2 ^ 32) (hlen : len < 2 ^ 32) (hbp : bp.1 + bpSize < 2 ^ 32)
    (hsaved : bp.2.length = bpSize) (hdata : data.length = len) :
    ∃ data', eraseBreakpoint bpSize len start ((start + len) % 2 ^ 32) data bp = some data' ∧
      PutBack start len bp data data' := by
  unfold eraseBreakpoint
  dsimp only
  rw [Nat.mod_eq_of_lt hbp]
  by_cases hoverlap : max start bp.1 < min ((start + len) % 2 ^ 32) (bp.1 + bpSize)
  · have hlt : start + len < 2 ^ 32 := by
      refine hrange.resolve_right fun havoids => ?_
      unfold Avoids at havoids
      omega
    rw [Nat.mod_eq_of_lt hlt] at hoverlap ⊢
    have hdest : max start bp.1 - start +
        (min (start + len) (bp.1 + bpSize) - max start bp.1) ≤ data.length := by omega
    have hsrc : max start bp.1 - bp.1 +
        (min (start + len) (bp.1 + bpSize) - max start bp.1) ≤ bp.2.length := by omega
    rw [if_pos hoverlap, if_pos ⟨hdata ▸ hdest, hsaved ▸ hsrc⟩]
    refine ⟨_, rfl, (length_patchCopy hdest hsrc).trans hdata, fun i hi => ?_⟩
    rw [getElem?_patchCopy hdest hsrc]
    refine if_congr ?_ ?_ rfl
    · unfold Covers
      omega
    · congr 1
      omega
  · rw [if_neg hoverlap]
    refine ⟨data, rfl, hdata, fun i hi => ?_⟩
    rw [if_neg]
    unfold Avoids at hrange
    unfold Covers
    omega

theorem Inv.eraseBreakpoints (h : t.Inv) (hstart : start < 2 ^ 32) (hlen : len < 2 ^ 32)
    (hrange : start + len < 2 ^ 32 ∨ ∀ bp ∈ t.breakpointMap, Avoids start len bp) :
    t.eraseBreakpointsFromCopyOfMemory start (Patches.read t.memory start len) len =
      some (Patches.read (original t.breakpointMap t.memory) start len) := by
  unfold eraseBreakpointsFromCopyOfMemory
  refine foldlM_read h.apart fun bp hbp data hdata => ?_
  exact putBack_of_eraseBreakpoint (hrange.imp_right fun havoids => havoids bp hbp) hstart hlen
    (h.lt bp hbp) (h.size bp hbp) hdata

theorem exists_foldlM_eraseBreakpoint {l : List (Patch UInt8)} (hstart : start < 2 ^ 32)
    (hsize : size < 2 ^ 32) (hl : ∀ bp ∈ l, bp.1 + bpSize < 2 ^ 32) (data : List UInt8) :
    ∃ data', l.foldlM (eraseBreakpoint bpSize size start ((start + size) % 2 ^ 32)) data =
      some data' := by
  induction l generalizing data with
  | nil => exact ⟨data, rfl⟩
  | cons bp l ih =>
    obtain ⟨data₁, hok⟩ := exists_eraseBreakpoint hstart hsize (hl bp List.mem_cons_self) data
    rw [List.foldlM_cons, hok]
    exact ih (fun q hq => hl q (List.mem_cons_of_mem bp hq)) data₁

theorem Inv.exists_savedCode (h : t.Inv) (host : Platform) (haddress : userAddress < 2 ^ 32) :
    ∃ saved, t.savedCode host userAddress = some saved := by
  suffices hvalid : ∃ valid, t.isBreakpointAddress host userAddress = some valid by
    obtain ⟨valid, hvalid⟩ := hvalid
    exact ⟨_, by rw [savedCode, hvalid, Option.map_some]⟩
  rw [isBreakpointAddress]
  split_ifs
  · exact ⟨_, rfl⟩
  · dsimp only
    split_ifs
    · exact ⟨_, rfl⟩
    · cases t.getMemory host _ 4 <;> exact ⟨_, rfl⟩
  · rw [isOnValidInstBoundary]
    split_ifs
    · exact ⟨_, rfl⟩
    · dsimp only
      split_ifs
      · exact ⟨_, rfl⟩
      · cases t.getMemory host _ naclInstrBlockSize with
        | none => exact ⟨_, rfl⟩
        | some codeBuf =>
          have hbundle : userAddress - userAddress % naclInstrBlockSize < 2 ^ 32 := by omega
          have hsize : naclInstrBlockSize < 2 ^ 32 := by decide
          obtain ⟨data', hok⟩ := exists_foldlM_eraseBreakpoint hbundle hsize h.lt codeBuf
          exact ⟨_, congrArg (Option.map _) hok⟩

theorem of_savedCode (haddress : userAddress < 2 ^ 32)
    (h : t.savedCode host userAddress = some (some data)) :
    naclUserToSysAddrRange t.space userAddress t.arch.breakpointSize = t.space.memStart + userAddress ∧
      0 < userAddress ∧ userAddress + t.arch.breakpointSize ≤ 2 ^ t.space.addrBits ∧
      (userAddress + t.arch.breakpointSize) % 2 ^ 32 ≤ t.dynamicTextEnd ∧
      data = Patches.read t.memory userAddress t.arch.breakpointSize := by
  obtain ⟨valid, -, h⟩ := Option.map_eq_some_iff.1 h
  dsimp only at h
  split_ifs at h with hvalid hnew hrange htext
  have hsize := breakpointSize_le t.arch
  obtain ⟨hpos, hle, hsys⟩ := naclUserToSysAddrRange_spec (by omega) (by omega) hrange
  refine ⟨hsys, hpos, hle, Nat.not_lt.1 htext, ?_⟩
  rw [getMemory, hsys, Nat.add_sub_cancel_left] at h
  split_ifs at h
  exact (Option.some.inj h).symm

theorem Inv.addBreakpoint (h : t.Inv) (haddress : userAddress < 2 ^ 32)
    (hsafe : ∀ data, t.savedCode host userAddress = some (some data) →
      userAddress + t.arch.breakpointSize < 2 ^ 32 ∧
        (∀ bp ∈ t.breakpointMap, Apart (userAddress, data) bp) ∧
        ∀ n, host.setMemory = .failed n →
          Patches.write t.memory userAddress (t.arch.breakpointCode.take n) = t.memory) :
    ∃ t' ok, t.addBreakpoint host userAddress = some (t', ok) ∧ t'.Inv ∧
      t'.withoutBreakpoints = t.withoutBreakpoints := by
  obtain ⟨saved, hsaved⟩ := h.exists_savedCode host haddress
  rw [Target.addBreakpoint, hsaved, Option.map_some]
  cases saved with
  | none => exact ⟨t, false, rfl, h, rfl⟩
  | some data =>
    obtain ⟨hlt, hapart, hfailed⟩ := hsafe data hsaved
    obtain ⟨hsys, hpos, hle, -, rfl⟩ := of_savedCode haddress hsaved
    simp only [setMemory, hsys, Nat.add_sub_cancel_left]
    cases hset : host.setMemory with
    | failed n =>
      refine ⟨_, _, rfl, ?_, ?_⟩
      · exact ⟨h.size, h.apart, h.pos, h.le, h.lt⟩
      · unfold withoutBreakpoints
        simp only [hfailed n hset]
    | written =>
      have hperm : (insertEntry (userAddress, Patches.read t.memory userAddress
          t.arch.breakpointSize) t.breakpointMap).Perm ((userAddress, Patches.read t.memory
            userAddress t.arch.breakpointSize) :: t.breakpointMap) :=
        List.perm_orderedInsert _ _ _
      have hnew : ((userAddress, Patches.read t.memory userAddress t.arch.breakpointSize) ::
          t.breakpointMap).Pairwise Apart := List.pairwise_cons.2 ⟨hapart, h.apart⟩
      have hmem : ∀ {P : Patch UInt8 → Prop},
          P (userAddress, Patches.read t.memory userAddress t.arch.breakpointSize) →
          (∀ bp ∈ t.breakpointMap, P bp) → ∀ bp ∈ insertEntry (userAddress,
            Patches.read t.memory userAddress t.arch.breakpointSize) t.breakpointMap, P bp :=
        fun hhead htail bp hbp =>
          (List.mem_cons.1 (hperm.mem_iff.1 hbp)).elim (fun heq => heq ▸ hhead) (htail bp)
      refine ⟨_, _, rfl, ⟨hmem (length_read _ _ _) h.size, ?_, hmem hpos h.pos, hmem hle h.le,
        hmem hlt h.lt⟩, ?_⟩
      · exact (hperm.pairwise_iff Apart.symm).2 hnew
      · unfold withoutBreakpoints
        have hcons : original ((userAddress, Patches.read t.memory userAddress
            t.arch.breakpointSize) :: t.breakpointMap) (Patches.write t.memory userAddress
              t.arch.breakpointCode) = original t.breakpointMap t.memory :=
          original_cons rfl hapart
        dsimp only
        rw [original_perm hperm.symm hnew, hcons]

theorem Inv.removeBreakpoint (h : t.Inv) (host : Platform) (userAddress : ℕ) :
    ∃ t' ok, t.removeBreakpoint host userAddress = some (t', ok) ∧ t'.Inv ∧
      t'.withoutBreakpoints = t.withoutBreakpoints := by
  rw [Target.removeBreakpoint]
  cases hfind : t.breakpointMap.find? (·.1 = userAddress) with
  | none => exact ⟨t, false, rfl, h, rfl⟩
  | some bp =>
    have hmem := List.mem_of_find?_eq_some hfind
    obtain rfl : bp.1 = userAddress := by simpa using List.find?_some hfind
    have hle := h.le bp hmem
    have hpos := h.pos bp hmem
    have hsize := breakpointSize_pos t.arch
    have hspace := t.space.lt
    have hsys : naclUserToSys t.space bp.1 = some (t.space.memStart + bp.1) := by
      rw [naclUserToSys, if_neg (by omega), uadd_eq (by omega), Nat.add_comm]
    simp only [hsys, Option.map_some, setMemory, Nat.add_sub_cancel_left]
    cases host.setMemory with
    | failed n =>
      refine ⟨_, _, rfl, ⟨h.size, h.apart, h.pos, h.le, h.lt⟩, ?_⟩
      unfold withoutBreakpoints
      simp only [original_write_saved h.apart hmem]
    | written =>
      have hperm := List.perm_cons_erase hmem
      have hsub : ∀ q ∈ t.breakpointMap.erase bp, q ∈ t.breakpointMap :=
        fun q hq => List.mem_of_mem_erase hq
      refine ⟨_, _, rfl, ⟨fun q hq => h.size q (hsub q hq), h.apart.sublist List.erase_sublist,
        fun q hq => h.pos q (hsub q hq), fun q hq => h.le q (hsub q hq),
        fun q hq => h.lt q (hsub q hq)⟩, ?_⟩
      unfold withoutBreakpoints
      dsimp only
      rw [original_restored ((hperm.pairwise_iff Apart.symm).1 h.apart),
        original_perm hperm h.apart]

theorem range_spec {userAddr : ℕ} {wlen : BitVec 64}
    (h : naclUserToSysAddrRange t.space (t.uintptr userAddr) (t.uintptr wlen.toNat) ≠
      kNaClBadAddress) (haddr : userAddr < 2 ^ 64) :
    naclUserToSysAddrRange t.space (t.uintptr userAddr) (t.uintptr wlen.toNat) =
        t.space.memStart + t.uintptr userAddr ∧
      ∀ m : ℕ → UInt8, Patches.read m (t.uintptr userAddr) (wlen.toNat % 2 ^ 32) =
        Patches.read m (userAddr % 2 ^ 32) (wlen.toNat % 2 ^ 32) := by
  have hle : ∀ n, t.uintptr n ≤ n := fun n => Nat.mod_le _ _
  have hwlen := wlen.isLt
  obtain ⟨hpos, hend, hsys⟩ := naclUserToSysAddrRange_spec ((hle userAddr).trans_lt haddr)
    ((hle wlen.toNat).trans_lt hwlen) h
  have hbits := addrBits_pow_le t.space
  have hcases : t.uintptr userAddr = userAddr % 2 ^ 32 ∨ wlen.toNat % 2 ^ 32 = 0 := by
    unfold uintptr at hend hpos ⊢
    cases harch : t.arch with
    | x8664 =>
      simp only [harch, NaClArch.ptrBits] at hend hpos ⊢
      omega
    | x8632 | arm | mips => exact Or.inl rfl
  refine ⟨hsys, fun m => ?_⟩
  rcases hcases with heq | hzero
  · rw [heq]
  · rw [hzero]
    rfl

theorem adjustUserAddr_lt (t : Target) (userAddr : BitVec 64) :
    t.adjustUserAddr userAddr.toNat < 2 ^ 64 := by
  have hlt := userAddr.isLt
  unfold adjustUserAddr
  split_ifs <;> omega

theorem readPacket_eq {userAddr wlen : BitVec 64}
    (h : naclUserToSysAddrRange t.space (t.uintptr (t.adjustUserAddr userAddr.toNat))
      (t.uintptr wlen.toNat) ≠ kNaClBadAddress) :
    t.readPacket host userAddr wlen =
      if host.readable (t.space.memStart + t.uintptr (t.adjustUserAddr userAddr.toNat))
        (wlen.toNat % 2 ^ 32) then
        (t.eraseBreakpointsFromCopyOfMemory (t.adjustUserAddr userAddr.toNat % 2 ^ 32)
          (Patches.read t.memory (t.adjustUserAddr userAddr.toNat % 2 ^ 32) (wlen.toNat % 2 ^ 32))
          (wlen.toNat % 2 ^ 32)).map .block
      else some (.error .failed) := by
  obtain ⟨hsys, hread⟩ := range_spec h (t.adjustUserAddr_lt userAddr)
  unfold readPacket
  dsimp only
  rw [if_neg h, hsys, getMemory, Nat.add_sub_cancel_left, hread]
  split_ifs <;> rfl

theorem Inv.readPacket (h : t.Inv) {userAddr wlen : BitVec 64}
    (hsafe : t.Safe (.read userAddr wlen, host)) :
    ∃ reply, t.readPacket host userAddr wlen = some reply ∧
      t.withoutBreakpoints.readPacket host userAddr wlen = some reply := by
  by_cases hbad : naclUserToSysAddrRange t.space (t.uintptr (t.adjustUserAddr userAddr.toNat))
      (t.uintptr wlen.toNat) = kNaClBadAddress
  · exact ⟨.error .failed, if_pos hbad, if_pos hbad⟩
  · have hplain : t.withoutBreakpoints.readPacket host userAddr wlen = _ := readPacket_eq hbad
    have herase := h.eraseBreakpoints (Nat.mod_lt _ (by decide)) (Nat.mod_lt _ (by decide))
      (hsafe hbad)
    by_cases hreadable : host.readable (t.space.memStart +
        t.uintptr (t.adjustUserAddr userAddr.toNat)) (wlen.toNat % 2 ^ 32) = true
    · refine ⟨.block _, ?_, hplain.trans (if_pos hreadable)⟩
      rw [readPacket_eq hbad, if_pos hreadable, herase]
      rfl
    · refine ⟨.error .failed, ?_, hplain.trans (if_neg hreadable)⟩
      rw [readPacket_eq hbad, if_neg hreadable]

/-- The bytes that `IPlatform::SetMemory` writes. -/
def bytesWritten (host : Platform) (src : List UInt8) : List UInt8 :=
  match host.setMemory with
  | .written => src
  | .failed bytes => src.take bytes

theorem length_bytesWritten_le (host : Platform) (src : List UInt8) :
    (bytesWritten host src).length ≤ src.length := by
  unfold bytesWritten
  split
  · exact Nat.le_refl _
  · exact List.length_take_le' _ _

theorem setMemory_fst (t : Target) (host : Platform) (virt : ℕ) (src : List UInt8) :
    (t.setMemory host virt src).1 = { t with
      memory := Patches.write t.memory (virt - t.space.memStart) (bytesWritten host src) } := by
  unfold setMemory bytesWritten
  split <;> rfl

theorem writePacket_fst (t : Target) (host : Platform) (userAddr wlen : BitVec 64)
    (block : ℕ → UInt8) :
    (t.writePacket host userAddr wlen block).1 =
      if naclUserToSysAddrRange t.space (t.uintptr (t.adjustUserAddr userAddr.toNat))
          (t.uintptr wlen.toNat) = kNaClBadAddress ∨
        t.adjustUserAddr userAddr.toNat < t.dynamicTextEnd then t
      else { t with
        memory := Patches.write t.memory (t.uintptr (t.adjustUserAddr userAddr.toNat))
          (bytesWritten host ((List.range (wlen.toNat % 2 ^ 32)).map block)) } := by
  unfold writePacket
  dsimp only
  by_cases hbad : naclUserToSysAddrRange t.space (t.uintptr (t.adjustUserAddr userAddr.toNat))
      (t.uintptr wlen.toNat) = kNaClBadAddress
  · rw [if_pos hbad, if_pos (Or.inl hbad)]
  · by_cases htext : t.adjustUserAddr userAddr.toNat < t.dynamicTextEnd
    · rw [if_neg hbad, if_pos htext, if_pos (Or.inr htext)]
    · obtain ⟨hsys, -⟩ := range_spec hbad (t.adjustUserAddr_lt userAddr)
      rw [if_neg hbad, if_neg htext, if_neg (not_or_intro hbad htext)]
      dsimp only
      rw [setMemory_fst, hsys, Nat.add_sub_cancel_left]

theorem Inv.writePacket (h : t.Inv) {userAddr wlen : BitVec 64} {block : ℕ → UInt8}
    (hsafe : t.Safe (.write userAddr wlen block, host)) :
    (t.writePacket host userAddr wlen block).1.Inv ∧
      (t.writePacket host userAddr wlen block).1.withoutBreakpoints =
        (t.withoutBreakpoints.writePacket host userAddr wlen block).1 := by
  have hplain : (t.withoutBreakpoints.writePacket host userAddr wlen block).1 = _ :=
    writePacket_fst t.withoutBreakpoints host userAddr wlen block
  rw [writePacket_fst]
  by_cases hrefused : naclUserToSysAddrRange t.space (t.uintptr (t.adjustUserAddr userAddr.toNat))
      (t.uintptr wlen.toNat) = kNaClBadAddress ∨
        t.adjustUserAddr userAddr.toNat < t.dynamicTextEnd
  · rw [if_pos hrefused]
    exact ⟨h, ((hplain.trans (if_pos hrefused))).symm⟩
  · rw [if_neg hrefused]
    refine ⟨⟨h.size, h.apart, h.pos, h.le, h.lt⟩, ((hplain.trans (if_neg hrefused))).symm ▸ ?_⟩
    obtain ⟨hbad, htext⟩ := not_or.1 hrefused
    have havoids := hsafe hbad (Nat.not_lt.1 htext)
    have hlen := length_bytesWritten_le host ((List.range (wlen.toNat % 2 ^ 32)).map block)
    rw [List.length_map, List.length_range] at hlen
    have hwrite : original t.breakpointMap (Patches.write t.memory
        (t.uintptr (t.adjustUserAddr userAddr.toNat))
        (bytesWritten host ((List.range (wlen.toNat % 2 ^ 32)).map block))) = _ :=
      original_write fun bp hbp => (havoids bp hbp).imp_left fun hle =>
        (Nat.add_le_add_left hlen _).trans hle
    unfold withoutBreakpoints
    dsimp only
    rw [hwrite]
    rfl

/-- Each command that meets its condition does to the target without breakpoints what it would do to a
target that has none. -/
theorem Inv.step (h : t.Inv) {a : MemoryCommand × Platform} (hsafe : t.Safe a) :
    ∃ t', t.step a = .ok t' ∧ t'.Inv ∧ t'.withoutBreakpoints = t.withoutBreakpoints.plainStep a := by
  obtain ⟨command, host⟩ := a
  unfold Target.step
  cases command with
  | insert breakpointType breakpointAddress =>
    unfold processPacket
    dsimp only
    split_ifs with hformat haddress
    · exact ⟨t, rfl, h, rfl⟩
    · exact ⟨t, rfl, h, rfl⟩
    · obtain ⟨t', ok, hok, hinv, hplain⟩ :=
        h.addBreakpoint (by omega) (hsafe (not_not.1 hformat) (by omega))
      rw [hok]
      exact ⟨t', rfl, hinv, hplain⟩
  | remove breakpointType breakpointAddress =>
    unfold processPacket
    dsimp only
    split_ifs with hformat haddress
    · exact ⟨t, rfl, h, rfl⟩
    · exact ⟨t, rfl, h, rfl⟩
    · obtain ⟨t', ok, hok, hinv, hplain⟩ := h.removeBreakpoint host breakpointAddress.toNat
      rw [hok]
      exact ⟨t', rfl, hinv, hplain⟩
  | read userAddr wlen =>
    obtain ⟨reply, hok, -⟩ := h.readPacket hsafe
    unfold processPacket
    dsimp only
    rw [hok]
    exact ⟨t, rfl, h, rfl⟩
  | write userAddr wlen block =>
    obtain ⟨hinv, hplain⟩ := h.writePacket hsafe
    exact ⟨_, rfl, hinv, hplain⟩

theorem withoutBreakpoints_of_nil (h : t.breakpointMap = []) : t.withoutBreakpoints = t := by
  cases t
  cases h
  rfl

/-- After commands that meet the conditions, the memory and what the debugger reads of it are those of
a target that has been given no breakpoints, and so is the target when it has none left. -/
theorem transparent_of_run {run : List (MemoryCommand × Platform)} (h : t.breakpointMap = [])
    (hsafe : Guarded step Safe t run) :
    ∃ t', run.foldlM step t = .ok t' ∧ t'.withoutBreakpoints = run.foldl plainStep t ∧
      (∀ host userAddr wlen, t'.Safe (.read userAddr wlen, host) →
        t'.readPacket host userAddr wlen = (run.foldl plainStep t).readPacket host userAddr wlen) ∧
      (t'.breakpointMap = [] → t' = run.foldl plainStep t) := by
  have hinv : t.Inv := by
    constructor <;> rw [h] <;> simp
  obtain ⟨t', hrun, hinv', hplain⟩ := hsafe.simulates
    (fun s a hs ha => hs.step ha) hinv
  rw [withoutBreakpoints_of_nil h] at hplain
  refine ⟨t', hrun, hplain, fun host userAddr wlen hread => ?_, fun hnone => ?_⟩
  · obtain ⟨reply, hreply, hreply'⟩ := hinv'.readPacket hread
    rw [← hplain, hreply, hreply']
  · rw [← hplain, withoutBreakpoints_of_nil hnone]

end

/-- A sandbox of 4 GB that holds `nop` everywhere, with a code area of 128 KB. -/
def small : Target where
  arch := .x8664
  space := ⟨2 ^ 32, 32, AddressSpace.pos_at4GB, AddressSpace.le_at4GB, AddressSpace.lt_at4GB⟩
  dynamicTextEnd := 2 ^ 17
  isOnInstBoundary _ _ _ := true
  isBreakPointAndConstantPoolHead _ := false
  memory _ := 0x90
  breakpointMap := []

def smallPlatform : Platform := ⟨fun _ _ => true, .written⟩

/-- A breakpoint in the code area. -/
theorem transparent_of_run_small :
    ∃ t', [(MemoryCommand.insert 0 0x10000, smallPlatform)].foldlM step small = .ok t' ∧
      t'.memory 0x10000 = 0xf4 ∧ t'.withoutBreakpoints = small := by
  have hsafe : Guarded step Safe small [(.insert 0 0x10000, smallPlatform)] :=
    ⟨fun _ _ data _ => ⟨by decide, nofun, nofun⟩, fun _ _ => trivial⟩
  obtain ⟨t', hrun, hplain, -⟩ := transparent_of_run rfl hsafe
  refine ⟨t', hrun, ?_, hplain⟩
  obtain rfl := Except.ok.inj ((show _ = Except.ok _ from rfl).symm.trans hrun)
  decide +kernel

/-- At the last byte of the sandbox the sums of 32 bits wrap: the breakpoint is set outside the code,
and a read shows it. -/
theorem not_transparent_lastByte : ¬ ∀ (t : Target) (run : List (MemoryCommand × Platform)) t',
    t.breakpointMap = [] → run.foldlM step t = .ok t' → ∀ host userAddr wlen,
      t'.readPacket host userAddr wlen = (run.foldl plainStep t).readPacket host userAddr wlen := by
  intro htransparent
  have hread := htransparent small [(.insert 0 0xffffffff, smallPlatform)] _ rfl rfl smallPlatform
    0xffffffff 1
  revert hread
  decide +kernel

end Target

end SandboxingNaCl
