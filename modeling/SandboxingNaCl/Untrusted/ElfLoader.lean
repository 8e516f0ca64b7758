import SandboxingNaCl.Untrusted.PnaclDynloader

/-!
# The loader of dynamic executables

`elf_loader.c`: `load_elf_file` maps the code segment, or installs it with `dyncode_create` where it
may not be mapped, then maps the other segments and protects the holes between them.  The last page
of the initialised data is read with `my_pread`, which leaves out the `lseek` when the position of
the last read is the one that it wants.
-/

namespace SandboxingNaCl

open BiasedImage

/-! ## Reads -/

/-- The descriptor of the file: its position, and for each `my_pread` the position that it was asked
for and the one that it has read from. -/
structure ElfFd where
  filePos : ℕ
  reads : List (ℕ × ℕ)

/-- Where a read starts: after an `lseek`, or where the descriptor is. -/
def ElfFd.startOf (fd : ElfFd) (pos lastPos : ℕ) : ℕ := if pos ≠ lastPos then pos else fd.filePos

/-- `my_pread`: the bytes, and the new `*last_pos`.  An `exit` is a fatal stop. -/
def myPread (file : List UInt8) (fd : ElfFd) (bufsz pos lastPos : ℕ) :
    Except DynStop (List UInt8 × ElfFd × ℕ) :=
  let start := fd.startOf pos lastPos
  let bytes := preadBytes file bufsz start
  if bytes.length = bufsz then
    .ok (bytes, ⟨start + bufsz, fd.reads ++ [(pos, start)]⟩, (pos + bufsz) % 2 ^ 32)
  else .error .fatal

/-! ## Mappings -/

/-- `EINVAL`. -/
def elfEinval : ℕ := 22

/-- What the loader finds around it.  Code is below `codeEnd`, and nothing else; the system may
refuse any mapping with an error.  `stale` is what is in the array of program headers past its
end. -/
structure ElfEnv where
  eMachine : ℕ
  codeEnd : ℕ
  pastEnd : ℕ → UInt8
  refuses : ℕ → ℕ → BitVec 32 → Option ℕ → Option ℕ
  protects : ℕ → ℕ → Bool
  allocates : ℕ → Bool
  dyncodeCreate : ℕ → List UInt8 → Bool
  allocateCodeData : ℕ → ℕ → ℕ → ℕ → Except ℕ (Fin (2 ^ 32))
  stale : ElfPhdr

/-- The memory, the descriptor, and `pread_pos`. -/
structure ElfState where
  memory : DynMemory
  fd : ElfFd
  preadPos : ℕ

/-- The system may map code or data at the addresses.  Code is whole pages of a file. -/
def ElfEnv.MayMap (env : ElfEnv) (file : List UInt8) (addr size : ℕ) (prot : BitVec 32)
    (offset : Option ℕ) : Prop :=
  let len := pageSizeRoundUp size
  addr % naclMapPageSize = 0 ∧ len ≠ 0 ∧ addr + len ≤ 2 ^ 32 ∧
    (∀ off ∈ offset, off ≤ file.length) ∧
    if prot &&& protExec ≠ 0 then
      size = len ∧ prot &&& protWrite = 0 ∧ addr + len ≤ env.codeEnd ∧
        ∃ off ∈ offset, off + len ≤ file.length
    else env.codeEnd ≤ addr

instance (env : ElfEnv) (file : List UInt8) (addr size : ℕ) (prot : BitVec 32)
    (offset : Option ℕ) : Decidable (env.MayMap file addr size prot offset) := by
  unfold ElfEnv.MayMap
  infer_instance

/-- What a mapping shows at its place `j`: the file from an offset, or zeros. -/
def ElfEnv.mapsTo (env : ElfEnv) (file : List UInt8) (prot : BitVec 32) (j : ℕ) :
    Option ℕ → Option MappedByte
  | none => some ⟨prot, 0⟩
  | some off => (mappedByte env.pastEnd file (off + j)).map (⟨prot, ·⟩)

/-- `mmap` with `MAP_FIXED`, of whole pages. -/
def ElfEnv.mmap (env : ElfEnv) (file : List UInt8) (mem : DynMemory) (addr size : ℕ)
    (prot : BitVec 32) (offset : Option ℕ) : Except ℕ DynMemory :=
  if ¬ env.MayMap file addr size prot offset then .error elfEinval
  else
    match env.refuses addr size prot offset with
    | some errno => .error errno
    | none =>
      .ok (overwrite mem addr (pageSizeRoundUp size) fun j _ => env.mapsTo file prot j offset)

/-- The part of `my_mmap` that reads code and installs it with `dyncode_create`. -/
def ElfEnv.installCode (env : ElfEnv) (file : List UInt8) (s : ElfState) (address size pos : ℕ)
    (unreservedCodeAddress : Bool) : Except DynStop ElfState := do
  dynCheck (env.allocates size = true)
  let (data, fd, _) ← myPread file s.fd size pos (2 ^ 32 - 1)
  dynCheck (address + size ≤ env.codeEnd ∧ env.dyncodeCreate address data = true)
  dynCheck (unreservedCodeAddress = true →
    (env.allocateCodeData address size 0 0).toOption.map Fin.val = some address)
  .ok { s with
    memory := overwrite s.memory address size fun j _ => (data[j]?).map (⟨protRead ||| protExec, ·⟩)
    fd }

def ElfEnv.myMmap (env : ElfEnv) (file : List UInt8) (s : ElfState) (address size : ℕ)
    (prot : BitVec 32) (offset : Option ℕ) (unreservedCodeAddress : Bool) :
    Except DynStop ElfState :=
  match env.mmap file s.memory address size prot offset with
  | .ok memory => .ok { s with memory }
  | .error errno =>
    if errno = elfEinval ∧ prot &&& protExec ≠ 0 then
      match offset with
      | some pos => env.installCode file s address size pos unreservedCodeAddress
      | none => .error .fatal
    else .error .fatal

/-! ## Segments -/

def protFromPhdr (phdr : ElfPhdr) : BitVec 32 := elfFlagsToMmapFlags phdr.pFlags

def segmentContains (phdr : ElfPhdr) (offset filesz : ℕ) : Bool :=
  phdr.pType = ptLoad ∧ phdr.pOffset.toNat ≤ offset ∧
    offset - phdr.pOffset.toNat < phdr.pFilesz.toNat ∧
    filesz ≤ phdr.pFilesz.toNat - (offset - phdr.pOffset.toNat)

namespace ElfPhdr

variable (ph : ElfPhdr) (loadBias : ℕ)

def addr : ℕ := (ph.pVaddr.toNat + loadBias) % 2 ^ 32

def start : ℕ := pageSizeRoundDown (ph.addr loadBias)

def lastPageEnd : ℕ := pageSizeRoundUp ((ph.addr loadBias + ph.pMemsz.toNat) % 2 ^ 32)

def fileEnd : ℕ := (ph.addr loadBias + ph.pFilesz.toNat) % 2 ^ 32

/-- `map_end`. -/
def fileMapEnd : ℕ :=
  if ph.pFilesz.toNat < ph.pMemsz.toNat then pageSizeRoundDown (ph.fileEnd loadBias)
  else ph.lastPageEnd loadBias

def partialPos : ℕ := pageSizeRoundDown ((ph.pOffset.toNat + ph.pFilesz.toNat) % 2 ^ 32)

end ElfPhdr

/-- The state of the loop over the segments after the first. -/
structure ElfLoop where
  state : ElfState
  lastPageEnd : ℕ

def protectNone (mem : DynMemory) (addr len : ℕ) : DynMemory :=
  overwrite mem addr len fun _ cell => cell.map fun c => { c with prot := 0 }

/-- Protects the hole before a segment; `k` is the number of headers between it and the code. -/
def ElfEnv.protectHole (env : ElfEnv) (s : ElfLoop) (start k : ℕ) : Except DynStop ElfState :=
  if s.lastPageEnd < start ∧ 0 < k then
    if env.codeEnd ≤ s.lastPageEnd ∧ env.protects s.lastPageEnd (start - s.lastPageEnd) = true then
      .ok { s.state with
        memory := protectNone s.state.memory s.lastPageEnd (start - s.lastPageEnd) }
    else .error .fatal
  else .ok s.state

/-- The zero-initialised part of a segment. -/
def ElfEnv.mapZeros (env : ElfEnv) (file : List UInt8) (loadBias : ℕ) (s : ElfState)
    (ph : ElfPhdr) : Except DynStop ElfState := do
  let mapEnd := ph.fileMapEnd loadBias
  dynCheck (ph.pFlags &&& pfW ≠ 0)
  let s ← env.myMmap file s mapEnd (ph.lastPageEnd loadBias - mapEnd) (protFromPhdr ph) none false
  if mapEnd < ph.fileEnd loadBias then do
    let len := ph.fileEnd loadBias - mapEnd
    let (bytes, fd, preadPos) ← myPread file s.fd len ph.partialPos s.preadPos
    dynCheck (s.memory.Allows protWrite mapEnd len)
    .ok ⟨s.memory.store mapEnd bytes, fd, preadPos⟩
  else .ok s

/-- Maps a segment after the first. -/
def ElfEnv.loadRest (env : ElfEnv) (file : List UInt8) (loadBias : ℕ) (s : ElfLoop)
    (phk : ElfPhdr × ℕ) : Except DynStop ElfLoop :=
  let (ph, k) := phk
  if ph.pType ≠ ptLoad then .ok s
  else do
    let start := ph.start loadBias
    let t ← env.protectHole s start k
    let mapEnd := ph.fileMapEnd loadBias
    let t ← (if start < mapEnd then
        env.myMmap file t start (mapEnd - start) (protFromPhdr ph)
          (some (pageSizeRoundDown ph.pOffset.toNat)) false
      else .ok t)
    let t ← (if mapEnd < ph.lastPageEnd loadBias then env.mapZeros file loadBias t ph else .ok t)
    .ok ⟨t, ph.lastPageEnd loadBias⟩

/-! ## The loader -/

/-- `MAX_PHNUM`. -/
def elfMaxPhnum : ℕ := 16

/-- `ET_EXEC` and `ET_DYN`. -/
def etExec : ℕ := 2
def etDyn : ℕ := 3

def ptInterp : BitVec 32 := 3

/-- The checks of the ELF header, and whether the image may be `anywhere`. -/
def ElfEnv.checkHeader (env : ElfEnv) (ehdr : Elf32Ehdr) : Except DynStop Bool := do
  dynCheck (ehdr.eIdent.take 4 = [0x7f, 0x45, 0x4c, 0x46] ∧ ehdr.eVersion = 1 ∧
    ehdr.eEhsize = sizeofElf32Ehdr ∧ ehdr.ePhentsize = sizeofElf32Phdr)
  dynCheck (ehdr.eMachine = env.eMachine)
  dynCheck (1 ≤ ehdr.ePhnum ∧ ehdr.ePhnum ≤ elfMaxPhnum)
  dynCheck (ehdr.eType = etExec ∨ ehdr.eType = etDyn)
  .ok (decide (ehdr.eType = etDyn))

/-- `choose_load_bias`, for the first segment and the headers after it. -/
def ElfEnv.chooseLoadBias (env : ElfEnv) (firstLoad : ElfPhdr) (after : List ElfPhdr)
    (anywhere : Bool) : Except DynStop ℕ :=
  if anywhere = false then .ok 0
  else do
    dynCheck (firstLoad.pFlags &&& pfX ≠ 0)
    let codeBegin := pageSizeRoundDown firstLoad.pVaddr.toNat
    let codeEnd := pageSizeRoundUp ((firstLoad.pVaddr.toNat + firstLoad.pMemsz.toNat) % 2 ^ 32)
    let next := ((after.find? (·.pType = ptLoad)).or after.head?).getD env.stale
    let lastLoad := (after.reverse.find? (·.pType = ptLoad)).getD firstLoad
    let dataBegin := pageSizeRoundDown next.pVaddr.toNat
    let dataEnd := pageSizeRoundUp ((lastLoad.pVaddr.toNat + lastLoad.pMemsz.toNat) % 2 ^ 32)
    match env.allocateCodeData codeBegin ((codeEnd + 2 ^ 32 - codeBegin) % 2 ^ 32)
        ((dataBegin + 2 ^ 32 - codeBegin) % 2 ^ 32) ((dataEnd + 2 ^ 32 - dataBegin) % 2 ^ 32) with
    | .error _ => .error .fatal
    | .ok base => .ok ((base.val + 2 ^ 32 - codeBegin) % 2 ^ 32)

def ElfPhdr.codeAddress (ph : ElfPhdr) (loadBias : ℕ) : ℕ :=
  (loadBias + pageSizeRoundDown ph.pVaddr.toNat) % 2 ^ 32

/-- Maps the segments: the first, which is the code, and those among the headers after it.  `s` is
how the memory and the descriptor are once the address space has been reserved. -/
def ElfEnv.loadSegments (env : ElfEnv) (file : List UInt8) (loadBias : ℕ) (s : ElfState)
    (firstLoad : ElfPhdr) (after : List ElfPhdr) (anywhere : Bool) : Except DynStop ElfState := do
  let s ← env.myMmap file s (firstLoad.codeAddress loadBias) firstLoad.pMemsz.toNat
    (protFromPhdr firstLoad) (some (pageSizeRoundDown firstLoad.pOffset.toNat)) (!anywhere)
  let loop ← after.zipIdx.foldlM (env.loadRest file loadBias)
    ⟨s, firstLoad.lastPageEnd loadBias⟩
  .ok loop.state

/-- A file that has been loaded: its program headers, the memory and the descriptor after it, and
what the caller gets. -/
structure ElfLoaded where
  phdrs : List ElfPhdr
  memory : DynMemory
  fd : ElfFd
  outBase : ℕ
  outPhdr : ℕ
  outInterp : Option ℕ
  entry : ℕ

/-- `load_elf_file` after the program headers have been read.  `outs` says that the caller wants to
know where the headers and the name of the interpreter are. -/
def ElfEnv.loadPhdrs (env : ElfEnv) (file : List UInt8) (s : ElfState) (ehdr : Elf32Ehdr)
    (anywhere : Bool) (phdrs : List ElfPhdr) (outs : Bool) : Except DynStop ElfLoaded :=
  match phdrs.dropWhile (·.pType ≠ ptLoad) with
  | [] => .error .fatal
  | firstLoad :: after => do
    dynCheck (firstLoad.pFlags = pfR ||| pfX)
    dynCheck (firstLoad.pFilesz = firstLoad.pMemsz)
    let loadBias ← env.chooseLoadBias firstLoad after anywhere
    let s ← env.loadSegments file loadBias s firstLoad after anywhere
    let interp := if outs then phdrs.find? (·.pType = ptInterp) else none
    let inLoad := interp.bind fun interp => (firstLoad :: after).find? fun ph =>
      segmentContains ph interp.pOffset.toNat interp.pFilesz.toNat
    dynCheck (interp.isSome → inLoad.isSome)
    let headers := (firstLoad :: after).find? fun ph =>
      segmentContains ph ehdr.ePhoff (ehdr.ePhnum * sizeofElf32Phdr)
    .ok {
      phdrs
      memory := s.memory
      fd := s.fd
      outBase := loadBias
      outPhdr := (headers.map fun ph => (ehdr.ePhoff + 2 ^ 32 - ph.pOffset.toNat +
        ph.pVaddr.toNat + loadBias) % 2 ^ 32).getD 0
      outInterp := inLoad.bind fun _ => interp.map fun ph => (ph.pVaddr.toNat + loadBias) % 2 ^ 32
      entry := (ehdr.eEntry + loadBias) % 2 ^ 32 }

/-- `load_elf_file`, of a file that has just been opened. -/
def ElfEnv.loadElfFile (env : ElfEnv) (file : List UInt8) (mem : DynMemory) (outs : Bool) :
    Except DynStop ElfLoaded := do
  let (head, fd, preadPos) ← myPread file ⟨0, []⟩ sizeofElf32Ehdr 0 0
  let ehdr := elf32Ehdr head
  let anywhere ← env.checkHeader ehdr
  let (bytes, fd, preadPos) ← myPread file fd (sizeofElf32Phdr * ehdr.ePhnum) ehdr.ePhoff preadPos
  env.loadPhdrs file ⟨mem, fd, preadPos⟩ ehdr anywhere (elf32Phdrs bytes ehdr.ePhnum) outs

end SandboxingNaCl
