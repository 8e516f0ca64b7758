import SandboxingNaCl.Service.App

/-!
# Program headers

The program headers of an image, the checks of `NaClElfImageValidateProgramHeaders` and the layout
that `NaClAppLoadFileAslr` derives from them, for x86-64.
-/

namespace SandboxingNaCl

open MachineInt

/-- The errors of the checks modelled here. -/
inductive NaClErrorCode
  | tooManyProgHdrs | ehdrOverflow | phdrOverflow | addrSpaceTooBig | codeSegmentTooLarge
  | badSegment | dupSegment | segmentBadLoc | segmentOutsideAddrspace | segmentBadParam | badElfText
  | requiredSegMissing | badEntry | dataNotLastSegment | noDataButRodataNotLastSegment
  | rodataOverlapsData | textOverlapsRodata | textOverlapsData | badRodataAlignment
  | unloadable | noMemory | readError | mprotectFail | validationFailed
deriving DecidableEq

/-- `Elf32_Phdr`. -/
structure ElfPhdr where
  pType : BitVec 32
  pOffset : BitVec 32
  pVaddr : BitVec 32
  pPaddr : BitVec 32
  pFilesz : BitVec 32
  pMemsz : BitVec 32
  pFlags : BitVec 32
  pAlign : BitVec 32
deriving DecidableEq

structure Elf64Phdr where
  pType : BitVec 32
  pFlags : BitVec 32
  pOffset : BitVec 64
  pVaddr : BitVec 64
  pPaddr : BitVec 64
  pFilesz : BitVec 64
  pMemsz : BitVec 64
  pAlign : BitVec 64

/-- What the file's headers say, in either class: the entry point and the program headers. -/
inductive ElfFile
  | class32 (entry : BitVec 32) (phdrs : List ElfPhdr)
  | class64 (entry : BitVec 64) (phdrs : List Elf64Phdr)

/-- The parts of `NaClElfImage` that the layout is made from. -/
structure NaClElfImage where
  entry : BitVec 32
  phdrs : List ElfPhdr

def naclMaxProgramHeaders : ℕ := 128

def naclMaxAddrBits : ℕ := 32

/-- The conversion of a 64-bit program header in `NaClElfImageNew`. -/
def convertPhdr (phdr64 : Elf64Phdr) : Except NaClErrorCode ElfPhdr :=
  if phdr64.pOffset > 0xffffffff ∨ phdr64.pVaddr > 0xffffffff ∨ phdr64.pPaddr > 0xffffffff ∨
      phdr64.pFilesz > 0xffffffff ∨ phdr64.pMemsz > 0xffffffff ∨ phdr64.pAlign > 0xffffffff then
    .error .phdrOverflow
  else
    .ok {
      pType := phdr64.pType
      pOffset := phdr64.pOffset.setWidth 32
      pVaddr := phdr64.pVaddr.setWidth 32
      pPaddr := phdr64.pPaddr.setWidth 32
      pFilesz := phdr64.pFilesz.setWidth 32
      pMemsz := phdr64.pMemsz.setWidth 32
      pFlags := phdr64.pFlags
      pAlign := phdr64.pAlign.setWidth 32 }

/-- `NaClElfImageNew`, past the checks of the file header that do not concern the layout. -/
def naclElfImageNew : ElfFile → Except NaClErrorCode NaClElfImage
  | .class32 entry phdrs =>
    if naclMaxProgramHeaders < phdrs.length then .error .tooManyProgHdrs else .ok ⟨entry, phdrs⟩
  | .class64 entry phdrs =>
    if entry > 0xffffffff then
      .error .ehdrOverflow
    else if naclMaxProgramHeaders < phdrs.length then
      .error .tooManyProgHdrs
    else
      match phdrs.mapM convertPhdr with
      | .error error => .error error
      | .ok phdrs => .ok ⟨entry.setWidth 32, phdrs⟩

/-! ## The checks of the program headers -/

inductive NaClPhdrCheckAction
  | none | textCheck | rodata | data | ignore
deriving DecidableEq

structure NaClPhdrChecks where
  pType : BitVec 32
  pFlags : BitVec 32
  action : NaClPhdrCheckAction
  required : Bool
  pVaddr : ℕ
deriving DecidableEq

def ptLoad : BitVec 32 := 1

def pfX : BitVec 32 := 1

def pfW : BitVec 32 := 2

def pfR : BitVec 32 := 4

/-- The row of `nacl_phdr_check_data` for text. -/
def textCheck : NaClPhdrChecks := ⟨ptLoad, pfR ||| pfX, .textCheck, true, naclTrampolineEnd⟩

def rodataCheck : NaClPhdrChecks := ⟨ptLoad, pfR, .rodata, false, 0⟩

def dataCheck : NaClPhdrChecks := ⟨ptLoad, pfR ||| pfW, .data, false, 0⟩

/-- The row for the marker of a stack that is not executable, `PT_GNU_STACK`. -/
def stackCheck : NaClPhdrChecks := ⟨0x6474e551, pfR ||| pfW, .none, false, 0⟩

def naclPhdrCheckData : List NaClPhdrChecks := [
  -- PT_PHDR
  ⟨6, pfR, .ignore, false, 0⟩,
  textCheck,
  rodataCheck,
  dataCheck,
  -- PT_TLS
  ⟨7, pfR, .ignore, false, 0⟩,
  stackCheck,
  -- PT_DYNAMIC
  ⟨2, pfR ||| pfW, .ignore, false, 0⟩,
  ⟨2, pfR, .ignore, false, 0⟩,
  -- PT_INTERP
  ⟨3, pfR, .ignore, false, 0⟩,
  -- PT_NOTE
  ⟨4, pfR, .ignore, false, 0⟩,
  -- PT_GNU_EH_FRAME
  ⟨0x6474e550, pfR, .ignore, false, 0⟩,
  -- PT_GNU_RELRO
  ⟨0x6474e552, pfR, .ignore, false, 0⟩,
  -- PT_NULL
  ⟨0, pfR, .ignore, false, 0⟩]

def ElfPhdr.check (php : ElfPhdr) : Option NaClPhdrChecks :=
  naclPhdrCheckData.find? fun check => php.pType = check.pType ∧ php.pFlags = check.pFlags

/-- `php->p_vaddr + php->p_memsz`, in 32 bits. -/
def ElfPhdr.end32 (php : ElfPhdr) : ℕ := (php.pVaddr + php.pMemsz).toNat

structure NaClElfImageInfo where
  maxVaddr : ℕ
  staticTextEnd : ℕ
  rodataStart : ℕ
  rodataEnd : ℕ
  dataStart : ℕ
  dataEnd : ℕ

/-- What the loop of `NaClElfImageValidateProgramHeaders` has gathered: the rows seen and, for each
header it has passed, whether it is to be loaded. -/
structure PhdrScan where
  info : NaClElfImageInfo
  seen : List NaClPhdrChecks
  loadable : List Bool

/-- The part of the loop for a segment that is to be loaded. -/
def recordSegment (info : NaClElfImageInfo) (action : NaClPhdrCheckAction) (php : ElfPhdr) :
    Except NaClErrorCode NaClElfImageInfo :=
  let info := if info.maxVaddr < php.end32 then { info with maxVaddr := php.end32 } else info
  match action with
  | .none => .ok info
  | .textCheck =>
    if php.pMemsz = 0 then
      .error .badElfText
    else
      .ok { info with
        staticTextEnd := (BitVec.ofNat 32 naclTrampolineEnd + php.pFilesz).toNat }
  | .rodata => .ok { info with rodataStart := php.pVaddr.toNat, rodataEnd := php.end32 }
  | .data => .ok { info with dataStart := php.pVaddr.toNat, dataEnd := php.end32 }
  | .ignore => .ok info

/-- The body of the loop. -/
def validatePhdr (addrBits : ℕ) (scan : PhdrScan) (php : ElfPhdr) :
    Except NaClErrorCode PhdrScan :=
  if php.pMemsz = 0 then
    .ok { scan with loadable := scan.loadable ++ [false] }
  else
    match php.check with
    | none => .error .badSegment
    | some check =>
      if check ∈ scan.seen then
        .error .dupSegment
      else
        let seen := check :: scan.seen
        if check.action = .ignore then
          .ok { scan with seen, loadable := scan.loadable ++ [false] }
        else if check.pVaddr ≠ 0 ∧ check.pVaddr ≠ php.pVaddr.toNat then
          .error .segmentBadLoc
        else if php.pVaddr.toNat < naclTrampolineEnd then
          .error .segmentOutsideAddrspace
        else if 2 ^ addrBits ≤ php.pVaddr.toNat ∨
            2 ^ addrBits - php.pVaddr.toNat < php.pMemsz.toNat then
          .error .segmentOutsideAddrspace
        else if php.pFilesz > php.pMemsz then
          .error .segmentBadParam
        else
          match recordSegment scan.info check.action php with
          | .error error => .error error
          | .ok info => .ok { info, seen, loadable := scan.loadable ++ [true] }

/-- `NaClElfImageValidateProgramHeaders`: what it finds out, and which segments are to be loaded. -/
def naclElfImageValidateProgramHeaders (image : NaClElfImage) (addrBits : ℕ) :
    Except NaClErrorCode (NaClElfImageInfo × List Bool) :=
  match image.phdrs.foldlM (validatePhdr addrBits) ⟨⟨naclTrampolineEnd, 0, 0, 0, 0, 0⟩, [], []⟩ with
  | .error error => .error error
  | .ok scan =>
    if ∃ check ∈ naclPhdrCheckData, check.required ∧ check ∉ scan.seen then
      .error .requiredSegMissing
    else
      .ok (scan.info, scan.loadable)

/-! ## The layout -/

/-- The fields of `NaClApp` that the layout fills in, with the segments to be loaded. -/
structure AppLayout where
  staticTextEnd : ℕ
  rodataStart : ℕ
  rodataEnd : ℕ
  dataStart : ℕ
  dataEnd : ℕ
  breakAddr : ℕ
  loadable : List Bool
deriving DecidableEq

def naclCheckAddressSpaceLayoutSanity (layout : AppLayout) (rodataEnd dataEnd maxVaddr : ℕ) :
    Except NaClErrorCode Unit :=
  if layout.dataStart ≠ 0 ∧ dataEnd ≠ maxVaddr then
    .error .dataNotLastSegment
  else if layout.dataStart = 0 ∧ layout.rodataStart ≠ 0 ∧
      naclRoundAllocPage rodataEnd ≠ maxVaddr then
    .error .noDataButRodataNotLastSegment
  else if layout.rodataStart ≠ 0 ∧ layout.dataStart ≠ 0 ∧
      naclTruncAllocPage layout.dataStart < rodataEnd then
    .error .rodataOverlapsData
  else if layout.rodataStart ≠ 0 ∧
      layout.rodataStart < naclRoundAllocPage layout.staticTextEnd then
    .error .textOverlapsRodata
  else if layout.rodataStart = 0 ∧ layout.dataStart ≠ 0 ∧
      naclTruncAllocPage layout.dataStart < naclRoundAllocPage layout.staticTextEnd then
    .error .textOverlapsData
  else if layout.rodataStart ≠ 0 ∧
      naclRoundAllocPage layout.rodataStart ≠ layout.rodataStart then
    .error .badRodataAlignment
  else
    .ok ()

/-- The `max_vaddr` of `NaClAppLoadFileAslr`: without data it is rounded to a page, which without
read-only data has to have space for the halt sled. -/
def layoutMaxVaddr (info : NaClElfImageInfo) : ℕ :=
  if info.dataStart = 0 then
    if info.rodataStart = 0 ∧ naclRoundAllocPage info.maxVaddr - info.maxVaddr < naclHaltSledSize then
      naclRoundAllocPage (info.maxVaddr + naclMapPageSize)
    else
      naclRoundAllocPage info.maxVaddr
  else
    info.maxVaddr

/-- The layout as `NaClAppLoadFileAslr` fills it in; `rodataEnd` is a local of it. -/
def appLayout (info : NaClElfImageInfo) (loadable : List Bool) : AppLayout where
  staticTextEnd := info.staticTextEnd
  rodataStart := info.rodataStart
  rodataEnd := info.rodataEnd
  dataStart := info.dataStart
  dataEnd := layoutMaxVaddr info
  breakAddr := layoutMaxVaddr info
  loadable := loadable

/-- `NaClAppLoadFileAslr` up to the checks of the layout.  `maxCodeBytes` is
`initial_nexe_max_code_bytes`. -/
def naclAppLoadFileLayout (file : ElfFile) (addrBits maxCodeBytes : ℕ) :
    Except NaClErrorCode AppLayout :=
  if naclMaxAddrBits < addrBits then
    .error .addrSpaceTooBig
  else
    match naclElfImageNew file with
    | .error error => .error error
    | .ok image =>
      match naclElfImageValidateProgramHeaders image addrBits with
      | .error error => .error error
      | .ok (info, loadable) =>
        if maxCodeBytes ≠ 0 ∧ maxCodeBytes < usub info.staticTextEnd naclTrampolineEnd then
          .error .codeSegmentTooLarge
        -- `NaClAddrIsValidEntryPt`
        else if image.entry.toNat % naclInstrBlockSize ≠ 0 ∨
            info.staticTextEnd ≤ image.entry.toNat then
          .error .badEntry
        else
          match naclCheckAddressSpaceLayoutSanity (appLayout info loadable) info.rodataEnd
            info.dataEnd (layoutMaxVaddr info) with
          | .error error => .error error
          | .ok () => .ok (appLayout info loadable)

end SandboxingNaCl
