import SandboxingNaCl.Lib.BiasedImage
import SandboxingNaCl.Lib.KeyedLoop
import SandboxingNaCl.Loader.SymbolTable

/-!
# The dynamic loader of translated modules

`dynloader.c`: `load_elf_file_from_fd` reads the headers of an ELF file, reserves address space for
it and maps its segments, and `apply_relocations` adds the bias where the file says so.  The file is
a list of bytes.  Addresses and sizes have 32 bits, and their sums wrap.
-/

namespace SandboxingNaCl

open BiasedImage ByteImage KeyedLoop

/-! ## Memory -/

/-- A byte of memory that is mapped. -/
structure MappedByte where
  prot : BitVec 32
  value : UInt8

abbrev DynMemory := ℕ → Option MappedByte

/-- Why the loader does not return: `LOG_FATAL` or a failed `CHECK`, or an access to memory that is
not possible. -/
inductive DynStop
  | fatal
  | fault
deriving DecidableEq

/-- `CHECK`, and a condition whose failure is logged as `LOG_FATAL`. -/
def dynCheck (p : Prop) [Decidable p] : Except DynStop Unit := if p then .ok () else .error .fatal

namespace DynMemory

def Allows (mem : DynMemory) (access : BitVec 32) (addr len : ℕ) : Prop :=
  ∀ x ∈ List.range' addr len, ∃ cell ∈ mem x, cell.prot &&& access ≠ 0

instance (mem : DynMemory) (access : BitVec 32) (addr len : ℕ) :
    Decidable (mem.Allows access addr len) := by
  unfold Allows
  infer_instance

def value (mem : DynMemory) (addr : ℕ) : UInt8 := ((mem addr).map MappedByte.value).getD 0

/-- The value of a `uint32_t`. -/
def word (mem : DynMemory) (addr : ℕ) : ℕ := wordAt mem.value 4 addr

/-- Reads a `uint32_t`. -/
def readWord (mem : DynMemory) (addr : ℕ) : Except DynStop ℕ :=
  if addr + 4 ≤ 2 ^ 32 ∧ mem.Allows protRead addr 4 then .ok (mem.word addr) else .error .fault

def store (mem : DynMemory) (addr : ℕ) (bytes : List UInt8) : DynMemory :=
  overwrite mem addr bytes.length fun j cell =>
    cell.map fun c => { c with value := (bytes[j]?).getD c.value }

/-- Writes a `uint32_t`. -/
def writeWord (mem : DynMemory) (addr v : ℕ) : Except DynStop DynMemory :=
  if addr + 4 ≤ 2 ^ 32 ∧ mem.Allows protWrite addr 4 then .ok (mem.store addr (leBytes 4 v))
  else .error .fault

end DynMemory

/-! ## The file -/

/-- The machines that `apply_relocations` knows. -/
inductive DynArch
  | i386
  | arm

/-- `NACL_ELF_E_MACHINE`: `EM_386` or `EM_ARM`. -/
def DynArch.eMachine : DynArch → ℕ
  | .i386 => 3
  | .arm => 40

/-- `R_386_RELATIVE` or `R_ARM_RELATIVE`. -/
def DynArch.relative : DynArch → ℕ
  | .i386 => 8
  | .arm => 23

/-- The fields of `Elf32_Ehdr` that the loader reads. -/
structure Elf32Ehdr where
  eIdent : List UInt8
  eType : ℕ
  eMachine : ℕ
  eVersion : ℕ
  eEntry : ℕ
  ePhoff : ℕ
  eEhsize : ℕ
  ePhentsize : ℕ
  ePhnum : ℕ

def sizeofElf32Ehdr : ℕ := 52

def sizeofElf32Phdr : ℕ := 32

def elf32Ehdr (bytes : List UInt8) : Elf32Ehdr where
  eIdent := bytes.take 16
  eType := fieldAt bytes 16 2
  eMachine := fieldAt bytes 18 2
  eVersion := fieldAt bytes 20 4
  eEntry := fieldAt bytes 24 4
  ePhoff := fieldAt bytes 28 4
  eEhsize := fieldAt bytes 40 2
  ePhentsize := fieldAt bytes 42 2
  ePhnum := fieldAt bytes 44 2

/-- An `Elf32_Phdr` in the bytes that have been read. -/
def elf32Phdr (bytes : List UInt8) (off : ℕ) : ElfPhdr where
  pType := .ofNat 32 (fieldAt bytes off 4)
  pOffset := .ofNat 32 (fieldAt bytes (off + 4) 4)
  pVaddr := .ofNat 32 (fieldAt bytes (off + 8) 4)
  pPaddr := .ofNat 32 (fieldAt bytes (off + 12) 4)
  pFilesz := .ofNat 32 (fieldAt bytes (off + 16) 4)
  pMemsz := .ofNat 32 (fieldAt bytes (off + 20) 4)
  pFlags := .ofNat 32 (fieldAt bytes (off + 24) 4)
  pAlign := .ofNat 32 (fieldAt bytes (off + 28) 4)

/-- `pread` of a file. -/
def preadBytes (file : List UInt8) (count offset : ℕ) : List UInt8 := (file.drop offset).take count

def maxPhnum : ℕ := 20

def ptDynamic : BitVec 32 := 2

def checkElfHeaders (arch : DynArch) (ehdr : Elf32Ehdr) : Except DynStop Unit := do
  dynCheck (ehdr.eIdent.take 4 = [0x7f, 0x45, 0x4c, 0x46])
  dynCheck (ehdr.eIdent[4]? = some 1)
  dynCheck (ehdr.eIdent[5]? = some 1)
  dynCheck (ehdr.eType = 3)
  dynCheck (ehdr.eMachine = arch.eMachine)
  dynCheck (ehdr.eVersion = 1)
  dynCheck (ehdr.eEhsize = sizeofElf32Ehdr)
  dynCheck (ehdr.ePhentsize = sizeofElf32Phdr)

/-! ## The address space -/

/-- The loader is built with its own code in the sandbox, or without one. -/
inductive DynBuild
  | sfi
  | nonSfi

/-- What the loader asks for: one area that `mmap` chooses, or the code and data areas of
`allocate_code_data`. -/
inductive DynReserve
  | mmap (size : ℕ)
  | allocateCodeData (codeSize dataOffset dataSize : ℕ)
deriving DecidableEq

def DynReserve.areas : DynReserve → List (ℕ × ℕ)
  | .mmap size => [(0, size)]
  | .allocateCodeData codeSize dataOffset dataSize => [(0, codeSize), (dataOffset, dataSize)]

/-- What the loader finds around it: the last error, what the calls that reserve memory return,
which mappings the system refuses, and what is at the end of the last page of a file. -/
structure DynEnv where
  arch : DynArch
  build : DynBuild
  errno : ℕ
  reserve : DynReserve → Except { errno : ℕ // errno ≠ 0 } (Fin (2 ^ 32))
  mmapFails : ℕ → ℕ → BitVec 32 → Option ℕ → Bool
  pastEnd : ℕ → UInt8

/-- Reserves address space; `mmap` refuses an empty area with `EINVAL`. -/
def DynEnv.reserveFor (env : DynEnv) (request : DynReserve) :
    Except { errno : ℕ // errno ≠ 0 } (Fin (2 ^ 32)) :=
  if request = .mmap 0 then .error ⟨22, by decide⟩ else env.reserve request

/-- The host's pages, of which those past the end of a file are not mapped. -/
def hostPageSize : ℕ := 4096

/-- What a mapping of the file shows of an offset; `pastEnd` is at the end of its last page. -/
def mappedByte (pastEnd : ℕ → UInt8) (file : List UInt8) (off : ℕ) : Option UInt8 :=
  match file[off]? with
  | some b => some b
  | none =>
    if off < (file.length + (hostPageSize - 1)) / hostPageSize * hostPageSize then
      some (pastEnd off)
    else none

def DynEnv.fileByte (env : DynEnv) : List UInt8 → ℕ → Option UInt8 := mappedByte env.pastEnd

/-- `mmap` with `MAP_FIXED`, of the file from an offset or of zeros. -/
def DynEnv.mmap (env : DynEnv) (file : List UInt8) (mem : DynMemory) (addr len : ℕ)
    (prot : BitVec 32) (offset : Option ℕ) : Except DynStop DynMemory :=
  if len = 0 ∨ 2 ^ 32 < addr + len ∨ env.mmapFails addr len prot offset = true then .error .fatal
  else
    match offset with
    | none => .ok (overwrite mem addr len fun _ _ => some ⟨prot, 0⟩)
    | some off =>
      .ok (overwrite mem addr len fun j _ => (env.fileByte file (off + j)).map (⟨prot, ·⟩))

/-! ## Segments -/

def pageSizeRoundDown (addr : ℕ) : ℕ := addr / naclMapPageSize * naclMapPageSize

def pageSizeRoundUp (addr : ℕ) : ℕ := pageSizeRoundDown ((addr + (naclMapPageSize - 1)) % 2 ^ 32)

def elfFlagsToMmapFlags (pflags : BitVec 32) : BitVec 32 :=
  (if pflags &&& pfX ≠ 0 then protExec else 0) ||| (if pflags &&& pfR ≠ 0 then protRead else 0) |||
    if pflags &&& pfW ≠ 0 then protWrite else 0

namespace ElfPhdr

variable (ph : ElfPhdr)

def segmentStart : ℕ := pageSizeRoundDown ph.pVaddr.toNat

/-- `segment_end`, before it is reduced. -/
def segmentEnd : ℕ := pageSizeRoundUp ((ph.pVaddr.toNat + ph.pMemsz.toNat) % 2 ^ 32)

def bssMapStart : ℕ := pageSizeRoundDown ((ph.pVaddr.toNat + ph.pFilesz.toNat) % 2 ^ 32)

def offsetIntoSegment : ℕ := (ph.bssMapStart + 2 ^ 32 - ph.pVaddr.toNat) % 2 ^ 32

/-- `bytes_to_copy`, as an unsigned number. -/
def bytesToCopy : ℕ := (ph.pFilesz.toNat + 2 ^ 32 - ph.offsetIntoSegment) % 2 ^ 32

def hasBss : Bool := ph.pFilesz.toNat < ph.pMemsz.toNat

def mapEnd : ℕ := if ph.hasBss then ph.bssMapStart else ph.segmentEnd

end ElfPhdr

/-- Maps the last page of the initialised data and the zero-initialised data. -/
def DynEnv.mapBss (env : DynEnv) (file : List UInt8) (loadBias : ℕ) (mem : DynMemory)
    (ph : ElfPhdr) : Except DynStop DynMemory := do
  dynCheck (ph.pFlags &&& pfW ≠ 0)
  let mapAddr := (loadBias + ph.bssMapStart) % 2 ^ 32
  let mem ← env.mmap file mem mapAddr ((ph.segmentEnd + 2 ^ 32 - ph.bssMapStart) % 2 ^ 32)
    (elfFlagsToMmapFlags ph.pFlags) none
  dynCheck (ph.bytesToCopy < 2 ^ 31)
  let bytes := preadBytes file ph.bytesToCopy ((ph.pOffset.toNat + ph.offsetIntoSegment) % 2 ^ 32)
  dynCheck (bytes.length = ph.bytesToCopy ∧ mem.Allows protWrite mapAddr ph.bytesToCopy)
  .ok (mem.store mapAddr bytes)

/-- Maps what is left of a segment from the file. -/
def DynEnv.mapFile (env : DynEnv) (file : List UInt8) (loadBias : ℕ) (mem : DynMemory)
    (ph : ElfPhdr) : Except DynStop DynMemory :=
  if ph.mapEnd ≠ ph.segmentStart then
    env.mmap file mem ((loadBias + ph.segmentStart) % 2 ^ 32)
      ((ph.mapEnd + 2 ^ 32 - ph.segmentStart) % 2 ^ 32) (elfFlagsToMmapFlags ph.pFlags)
      (some (pageSizeRoundDown ph.pOffset.toNat))
  else .ok mem

/-- What the loop over the program headers has come to. -/
structure DynLoop where
  memory : DynMemory
  ptDynamic : ℕ
  prevSegmentEnd : ℕ
  psoRootIsValid : Bool

/-- The loop maps the segment of a `PT_LOAD` header. -/
def DynEnv.loadSegment (env : DynEnv) (file : List UInt8) (entry loadBias : ℕ) (s : DynLoop)
    (ph : ElfPhdr) : Except DynStop DynLoop := do
  dynCheck (s.prevSegmentEnd ≤ ph.segmentStart)
  dynCheck (ph.pFilesz.toNat ≤ ph.pMemsz.toNat)
  let mem ← (if ph.hasBss then env.mapBss file loadBias s.memory ph else .ok s.memory)
  let mem ← env.mapFile file loadBias mem ph
  let rootHere : Bool := ph.pFlags &&& pfX = 0 ∧ ph.pVaddr.toNat ≤ entry ∧
    entry < (ph.pVaddr.toNat + ph.pFilesz.toNat) % 2 ^ 32
  .ok { s with
    memory := mem
    prevSegmentEnd := ph.segmentEnd
    psoRootIsValid := s.psoRootIsValid || rootHere }

/-- One turn of the loop. -/
def DynEnv.loadPhdr (env : DynEnv) (file : List UInt8) (entry loadBias : ℕ) (s : DynLoop)
    (ph : ElfPhdr) : Except DynStop DynLoop :=
  if ph.pType = ptDynamic then
    .ok { s with ptDynamic := (loadBias + ph.pVaddr.toNat) % 2 ^ 32 }
  else if ph.pType = ptLoad then env.loadSegment file entry loadBias s ph
  else .ok s

/-- The code segment, and the first and the last data segment. -/
structure DynSegments where
  codeSegment : Option ElfPhdr
  firstData : Option ElfPhdr
  lastData : Option ElfPhdr

/-- The loop that finds the code and the data segments. -/
def findSegment (s : DynSegments) (ph : ElfPhdr) : Except DynStop DynSegments :=
  if ph.pType ≠ ptLoad then .ok s
  else if ph.pFlags &&& pfX ≠ 0 then do
    dynCheck (s.codeSegment = none)
    .ok { s with codeSegment := some ph }
  else .ok { s with firstData := s.firstData.or (some ph), lastData := some ph }

/-- What is reserved for the segments. -/
def DynBuild.request (build : DynBuild) (s : DynSegments) : Except DynStop DynReserve :=
  match s.codeSegment, s.firstData, s.lastData with
  | some code, some first, some last => do
    dynCheck (code.pVaddr = 0)
    dynCheck (code.pFilesz = code.pMemsz)
    let dataEnd := (last.pVaddr.toNat + last.pMemsz.toNat) % 2 ^ 32
    match build with
    | .nonSfi => .ok (.mmap dataEnd)
    | .sfi =>
      let codeSize := code.pFilesz.toNat
      let dataOffset := first.pVaddr.toNat
      let dataSize := (dataEnd + 2 ^ 32 - dataOffset) % 2 ^ 32
      if codeSize = 0 then do
        dynCheck (dataOffset = 0)
        .ok (.mmap dataSize)
      else .ok (.allocateCodeData codeSize dataOffset (pageSizeRoundUp dataSize))
  | _, _, _ => .error .fatal

/-! ## Relocations -/

def dtRel : ℕ := 17

def dtRelsz : ℕ := 18

/-- `find_dt_entry`, over at most so many entries. -/
def findDtEntry (mem : DynMemory) (dtTag : ℕ) : ℕ → ℕ → Except DynStop (Option ℕ)
  | 0, _ => .error .fault
  | n + 1, dyn => do
    let dTag ← mem.readWord dyn
    if dTag = 0 then .ok none
    else if dTag = dtTag then (mem.readWord (dyn + 4)).map some
    else findDtEntry mem dtTag n (dyn + 8)

def maxDynEntries : ℕ := 2 ^ 29

/-- The offset and the size of the relocations, if there are any. -/
def relTable (mem : DynMemory) (dyn : ℕ) : Except DynStop (Option (ℕ × ℕ)) := do
  let relOffset ← findDtEntry mem dtRel maxDynEntries dyn
  let relSize ← findDtEntry mem dtRelsz maxDynEntries dyn
  match relOffset, relSize with
  | none, none => .ok none
  | some relOffset, some relSize => .ok (some (relOffset, relSize))
  | _, _ => .error .fatal

/-- The addresses of the entries from `rels` up to `rels_end`. -/
def relEntries (rels relsEnd : ℕ) : List ℕ :=
  (List.range ((relsEnd - rels + 7) / 8)).map fun i => rels + 8 * i

/-- Applies the `Elf32_Rel` at an address. -/
def DynArch.applyRelocation (arch : DynArch) (loadBias : ℕ) (mem : DynMemory) (rels : ℕ) :
    Except DynStop DynMemory := do
  let rInfo ← mem.readWord (rels + 4)
  let rOffset ← mem.readWord rels
  dynCheck (rInfo % 256 = arch.relative)
  let addr := (loadBias + rOffset) % 2 ^ 32
  let old ← mem.readWord addr
  mem.writeWord addr ((old + loadBias) % 2 ^ 32)

def DynArch.applyRelocations (arch : DynArch) (mem : DynMemory) (dyn loadBias : ℕ) :
    Except DynStop DynMemory := do
  match ← relTable mem dyn with
  | none => .ok mem
  | some (relOffset, relSize) =>
    let rels := (loadBias + relOffset) % 2 ^ 32
    let relsEnd := (loadBias + relOffset + relSize) % 2 ^ 32
    (relEntries rels relsEnd).foldlM (arch.applyRelocation loadBias) mem

/-! ## The loader -/

/-- A file that has been loaded: its program headers, the areas that were reserved, and the memory
before and after the relocations. -/
structure DynLoaded where
  phdrs : List ElfPhdr
  areas : List (ℕ × ℕ)
  loadBias : ℕ
  ptDynamic : ℕ
  mapped : DynMemory
  memory : DynMemory
  psoRoot : ℕ

/-- `EIO`. -/
def dynEio : ℕ := 5

/-- `load_elf_file_from_fd`, after the program headers have been read.  `mem` is the memory once the
address space is reserved. -/
def DynEnv.loadPhdrs (env : DynEnv) (file : List UInt8) (mem : DynMemory) (entry : ℕ)
    (phdrs : List ElfPhdr) : Except DynStop (ℕ × Option DynLoaded) := do
  let segments ← phdrs.foldlM findSegment ⟨none, none, none⟩
  let request ← env.build.request segments
  match env.reserveFor request with
  | .error errno => .ok (errno.val, none)
  | .ok bias => do
    let loadBias := bias.val
    let s ← phdrs.foldlM (env.loadPhdr file entry loadBias) ⟨mem, 0, 0, false⟩
    dynCheck (s.psoRootIsValid = true)
    let memory ← env.arch.applyRelocations s.memory s.ptDynamic loadBias
    .ok (0, some {
      phdrs
      areas := request.areas
      loadBias
      ptDynamic := s.ptDynamic
      mapped := s.memory
      memory
      psoRoot := (loadBias + entry) % 2 ^ 32 })

def elf32Phdrs (bytes : List UInt8) (ePhnum : ℕ) : List ElfPhdr :=
  (List.range ePhnum).map fun i => elf32Phdr bytes (sizeofElf32Phdr * i)

/-- `load_elf_file_from_fd`: what it returns, and what it has loaded. -/
def DynEnv.loadElfFileFromFd (env : DynEnv) (file : List UInt8) (mem : DynMemory) :
    Except DynStop (ℕ × Option DynLoaded) :=
  let head := preadBytes file sizeofElf32Ehdr 0
  if head.length ≠ sizeofElf32Ehdr then .ok (env.errno, none)
  else do
    let ehdr := elf32Ehdr head
    checkElfHeaders env.arch ehdr
    if maxPhnum < ehdr.ePhnum then .ok (dynEio, none)
    else
      let phdrsSize := sizeofElf32Phdr * ehdr.ePhnum
      let bytes := preadBytes file phdrsSize ehdr.ePhoff
      if bytes.length ≠ phdrsSize then .ok (env.errno, none)
      else env.loadPhdrs file mem ehdr.eEntry (elf32Phdrs bytes ehdr.ePhnum)

end SandboxingNaCl
