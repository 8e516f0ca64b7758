import SandboxingNaCl.Service.NaclText
import SandboxingNaCl.Vmmap.ChangeProt

/-!
# The memory system calls

`NaClSysBrk`, `NaClSysMmapIntern`, `NaClSysMunmap` and `NaClSysMprotectInternal` of `sys_memory.c`, as
they are off Windows, with what each asks of the host.  The host's `mprotect` is taken to succeed:
the code treats its failure as fatal.
-/

namespace SandboxingNaCl

open MachineInt PagedMemory

/-- `PROT_READ | PROT_WRITE`. -/
def protReadWrite : BitVec 32 := protRead ||| protWrite

/-! ## The host's mmap -/

/-- Fresh memory at the pages of `[usraddr, usraddr + len)`. -/
def mmapAnonymous (mem : Memory Backing) (usraddr len : ℕ) (prot : BitVec 32) : Memory Backing :=
  mem.mmap naclPageSize (usraddr / naclPageSize) ((usraddr + len + (naclPageSize - 1)) / naclPageSize)
    prot (fun _ => .anonymous) fun _ => 0

/-- The file from `offset` on at the pages of `[usraddr, usraddr + len)`. -/
def mmapFile (mem : Memory Backing) (desc : NaClDesc) (usraddr len : ℕ) (prot : BitVec 32)
    (offset : ℤ) (fileByte : ℤ → UInt8) : Memory Backing :=
  mem.mmap naclPageSize (usraddr / naclPageSize) ((usraddr + len + (naclPageSize - 1)) / naclPageSize)
    prot (fun page => .file desc (offset + ((page * naclPageSize : ℕ) : ℤ) - usraddr))
    fun addr => fileByte (offset + (addr : ℤ) - usraddr)

/-! ## brk -/

/-- The end of `NaClSysBrk` on a larger break: the memory between the breaks is zeroed.  Writing to a
page that cannot be written brings the process down. -/
def zeroNewBreak (nap : NaClApp) (breakAddr newBreak : ℕ) : Except Fault (NaClApp × SysResult) :=
  if newBreak ≤ breakAddr then
    .error .checkFailed
  else if ¬ nap.mem.Permits (fun prot => prot &&& protWrite ≠ 0) (breakAddr / naclPageSize)
      ((newBreak + (naclPageSize - 1)) / naclPageSize) then
    .error .badAccess
  else
    .ok ({ nap with mem := nap.mem.write breakAddr newBreak fun _ => 0, breakAddr := newBreak },
      .ok newBreak)

/-- The part of `NaClSysBrk` that extends the entry at `ix` to the page `lastInternalPage` and makes
the new pages accessible. -/
def extendBreakEntry (nap : NaClApp) (ix : ℕ) (ent : NaClVmmapEntry) (lastInternalPage newBreak : ℕ) :
    Except Fault (NaClApp × SysResult) :=
  let startNewRegion := ushl (uadd ent.pageNum ent.npages) naclPageShift
  match naclUserToSys nap.space startNewRegion with
  | none => .error .fatal
  | some _ =>
    zeroNewBreak { nap with
      memMap := { nap.memMap with
        vmentry := nap.memMap.vmentry.set ix
          { ent with npages := uadd (usub lastInternalPage ent.pageNum) 1 } }
      mem := nap.mem.mprotect (startNewRegion / naclPageSize) (lastInternalPage + 1)
        protReadWrite } nap.breakAddr newBreak

def naclSysBrk (nap : NaClApp) (newBreak : ℕ) : Except Fault (NaClApp × SysResult) :=
  if nap.pnaclMode then
    .ok (nap, .error .enosys)
  else if naclUserToSysAddr nap.space newBreak = kNaClBadAddress then
    .ok (nap, .ok nap.breakAddr)
  else if newBreak < nap.dataEnd then
    .ok (nap, .ok nap.breakAddr)
  else if newBreak ≤ nap.breakAddr then
    .ok ({ nap with breakAddr := newBreak }, .ok newBreak)
  else
    match naclUserToSys nap.space nap.breakAddr with
    | none => .error .fatal
    | some _ =>
      let usrLastDataPage := usub nap.breakAddr 1 / 2 ^ naclPageShift
      let usrNewLastDataPage := usub newBreak 1 / 2 ^ naclPageShift
      let lastInternalPage := usub (naclRoundAllocPage newBreak) 1 / 2 ^ naclPageShift
      match naclVmmapFindPageIter nap.memMap usrLastDataPage with
      | .error fault => .error (.vmmap fault)
      | .ok (memMap, ix) =>
        let nap := { nap with memMap }
        match memMap.vmentry[ix]? with
        | none => .error .fatal
        | some ent =>
          if usrNewLastDataPage < uadd ent.pageNum ent.npages then
            zeroNewBreak nap nap.breakAddr newBreak
          else if memMap.vmentry[ix + 1]?.any (·.pageNum ≤ lastInternalPage) then
            .ok (nap, .ok nap.breakAddr)
          else
            extendBreakEntry nap ix ent lastInternalPage newBreak

/-! ## munmap -/

/-- `MunmapInternal`, on user addresses; `host` is the answer of the host's `mmap`. -/
def munmapInternal (nap : NaClApp) (usraddr length : ℕ) (host : Except NaClAbiErrno Unit) :
    Except Fault (NaClApp × SysResult) :=
  match host with
  | .error errno => .ok (nap, .error errno)
  | .ok () =>
    match naclVmmapRemove nap.memMap (usraddr / 2 ^ naclPageShift) (length / 2 ^ naclPageShift) with
    | .error fault => .error (.vmmap fault)
    | .ok memMap =>
      .ok ({ nap with
        memMap
        mem := mmapAnonymous nap.mem usraddr length protNone }, .ok 0)

def naclSysMunmap (nap : NaClApp) (start length : ℕ) (host : Except NaClAbiErrno Unit) :
    Except Fault (NaClApp × SysResult) :=
  if !naclIsAllocPageMultiple start then
    .ok (nap, .error .einval)
  else
    let length := naclRoundAllocPage length % 2 ^ 32
    if length = 0 then
      .ok (nap, .error .einval)
    else if naclUserToSysAddrRange nap.space start length = kNaClBadAddress then
      .ok (nap, .error .efault)
    else if naclSysCommonAddrRangeContainsExecutablePages nap start then
      .ok (nap, .error .einval)
    else if naclVmIoPending nap start (usub (uadd start length) 1) then
      .error .fatal
    else
      munmapInternal nap start length host

/-! ## mmap -/

/-- What a descriptor's `Fstat` reports: the size, which is an `int64_t`, and whether it is a regular
file or shared memory. -/
structure NaClAbiStat where
  size : ℤ
  mappable : Bool
  size_lt : size < 2 ^ 63

/-- The arguments of `NaClSysMmapIntern`. -/
structure MmapArgs where
  start : ℕ
  length : ℕ
  prot : BitVec 32
  flags : BitVec 32
  d : BitVec 32
  offset : ℤ

/-- What the descriptor, the host and the validator answer during one call: the size of the file;
whether the descriptor is safe to map code from and of type `NACL_DESC_HOST_IO`; the temporary view
for the validator and its verdict; the mapping itself and that of the inaccessible tail; the contents
of the file by offset; and the answers to creating code by copying. -/
structure MmapAnswers where
  fstat : Except NaClAbiErrno NaClAbiStat
  safeForMmap : Bool
  hostIo : Bool
  scratchMap : Except NaClAbiErrno Unit
  validates : Bool
  map : Except NaClAbiErrno Unit
  munmap : Except NaClAbiErrno Unit
  fileByte : ℤ → UInt8
  dyncode : DyncodeAnswers

def kMaxUsableFileSize : ℕ := (2 ^ 64 - 1) / 2

/-- What `NaClSysMmapIntern` has worked out before it takes the lock: the descriptor, whether code is
mapped, the address, `alloc_rounded_length`, the size of the file and of its part from the offset,
and the length to map from it. -/
structure MmapRequest where
  ndp : Option NaClDesc
  mappingCode : Bool
  flags : BitVec 32
  usraddr : ℕ
  allocRoundedLength : ℕ
  fileSize : ℤ
  fileBytes : ℕ
  length : ℕ

/-- The sizes `NaClSysMmapIntern` computes from the descriptor: those of the file, of its part from
the offset and of the host pages that part occupies. -/
def mmapFileBytes (ndp : Option NaClDesc) (offset : ℤ) (fstat : Except NaClAbiErrno NaClAbiStat) :
    Except NaClAbiErrno (ℤ × ℕ × ℕ) :=
  match ndp, fstat with
  | none, _ => .ok (kMaxUsableFileSize, kMaxUsableFileSize, kMaxUsableFileSize)
  | some _, .error errno => .error errno
  | some _, .ok stat =>
    if !stat.mappable then
      .error .enodev
    else if stat.size < offset then
      .error .einval
    else
      let fileBytes := (stat.size - offset).toNat
      let hostRoundedFileBytes :=
        if kMaxUsableFileSize < fileBytes then kMaxUsableFileSize else naclRoundPage fileBytes
      if naclRoundAllocPage hostRoundedFileBytes = 0 ∧ hostRoundedFileBytes ≠ 0 then
        .error .enomem
      else
        .ok (stat.size, fileBytes, hostRoundedFileBytes)

/-- The flags of the call, less the bits `NaClSysMmapIntern` ignores. -/
def mmapFlags (args : MmapArgs) : BitVec 32 :=
  args.flags &&& (mapFixed ||| mapShared ||| mapPrivate ||| mapAnonymous)

/-- The descriptor of the call: none for an anonymous mapping. -/
def mmapDesc (nap : NaClApp) (args : MmapArgs) : Except NaClAbiErrno (Option NaClDesc) :=
  if mmapFlags args &&& mapAnonymous ≠ 0 then
    .ok none
  else
    match nap.desc args.d with
    | none => .error .ebadf
    | some desc => .ok (some desc)

/-- The call maps a file as code, into a place where that is allowed. -/
def mmapWantsCode (nap : NaClApp) (args : MmapArgs) (ndp : Option NaClDesc) : Bool :=
  args.prot &&& protExec ≠ 0 ∧ mmapFlags args &&& mapFixed ≠ 0 ∧ ndp ≠ none ∧
    naclSysCommonAddrRangeInAllowedDynamicCodeSpace nap args.start args.length

/-- The checks of the protection, the address, the offset and the length, in the order of the
source. -/
def mmapCheckPlain (nap : NaClApp) (args : MmapArgs) (mappingCode : Bool) :
    Except NaClAbiErrno Unit :=
  if mappingCode ∧ ¬ nap.enableDyncodeSyscalls then
    .error .einval
  else if mappingCode ∧ args.prot &&& protWrite ≠ 0 then
    .error .einval
  else if ¬ mappingCode ∧ args.prot &&& protExec ≠ 0 then
    .error .einval
  else if !naclIsAllocPageMultiple args.start ∧ mmapFlags args &&& mapFixed ≠ 0 then
    .error .einval
  else if args.offset < 0 then
    .error .einval
  else if !naclIsAllocPageMultiple args.offset.toNat then
    .error .einval
  else if naclRoundAllocPage args.length ≠ args.length ∧ mappingCode then
    .error .einval
  else if naclRoundAllocPage args.length % 2 ^ 32 = 0 then
    .error .einval
  else
    .ok ()

/-- `NaClSysMmapIntern` up to the lock: the checks of the arguments and the rounding. -/
def mmapCheckArgs (nap : NaClApp) (args : MmapArgs) (ans : MmapAnswers) :
    Except Fault (Except NaClAbiErrno MmapRequest) :=
  match mmapDesc nap args with
  | .error errno => .ok (.error errno)
  | .ok ndp =>
    let mappingCode := mmapWantsCode nap args ndp
    let allocRoundedLength := naclRoundAllocPage args.length
    match mmapCheckPlain nap args mappingCode with
    | .error errno => .ok (.error errno)
    | .ok () =>
      if allocRoundedLength ≠ allocRoundedLength % 2 ^ 32 then
        .error .checkFailed
      else
        match mmapFileBytes ndp args.offset ans.fstat with
        | .error errno => .ok (.error errno)
        | .ok (fileSize, fileBytes, hostRoundedFileBytes) =>
          if mappingCode ∧ fileBytes < allocRoundedLength then
            .ok (.error .einval)
          else
            .ok (.ok {
              ndp, mappingCode, allocRoundedLength, fileSize, fileBytes
              flags := mmapFlags args
              -- a start that is not aligned is a hint, and is truncated
              usraddr := naclTruncAllocPage args.start
              length := min allocRoundedLength hostRoundedFileBytes })

/-- The choice of an address when the caller does not fix one: the map, which the search has sorted,
and the page, or 0 when there is no space. -/
def mmapFindSpace (memMap : NaClVmmap) (usraddr allocRoundedLength : ℕ) :
    Except VmmapFault (NaClVmmap × ℕ) :=
  let numPages := allocRoundedLength / 2 ^ naclPageShift
  if usraddr = 0 then
    naclVmmapFindMapSpace memMap numPages
  else
    match naclVmmapFindMapSpaceAboveHint memMap usraddr numPages with
    | .error fault => .error fault
    | .ok (memMap, 0) => naclVmmapFindMapSpace memMap numPages
    | .ok (memMap, usrpage) => .ok (memMap, usrpage)

/-- The checks of `NaClSysMmapIntern` on `[usraddr, endaddr)`, up to the one for pending I/O. -/
def mmapCheckRange (nap : NaClApp) (req : MmapRequest) (usraddr : ℕ) (safeForMmap : Bool) :
    Except NaClAbiErrno Unit :=
  let endaddr := uadd usraddr req.allocRoundedLength
  if 2 ^ nap.space.addrBits ≤ usraddr then
    .error .einval
  else if endaddr < usraddr then
    .error .einval
  else if 2 ^ nap.space.addrBits < endaddr then
    .error .einval
  else if req.mappingCode then
    if safeForMmap then .ok () else .error .einval
  else if naclSysCommonAddrRangeContainsExecutablePages nap usraddr then
    .error .einval
  else
    .ok ()

/-- What `NaClSysMmapIntern` has done when it gives the lock up: it has its result, or it goes on to copy
code in. -/
inductive MmapOutcome
  | done (result : SysResult)
  | copy (usraddr : ℕ) (codeCopy : ℕ → UInt8) (size : ℕ) (ans : DyncodeAnswers)

/-- The result of a successful mapping of code, `(int32_t) usraddr`: from `2 ^ 31` on it is extended to
a value that the end of `NaClSysMmapIntern` takes for an overflow. -/
def mmapCodeResult (nap : NaClApp) (usraddr : ℕ) : Except Fault (NaClApp × SysResult) :=
  if usraddr < 2 ^ 31 then .ok (nap, .ok usraddr) else .error .fatal

/-- The part of `NaClSysMmapIntern` that maps code the validator accepts as it is. -/
def mmapCodeDirect (nap : NaClApp) (req : MmapRequest) (desc : NaClDesc) (usraddr : ℕ) (offset : ℤ)
    (ans : MmapAnswers) : Except Fault (NaClApp × SysResult) :=
  match naclUserToSys nap.space usraddr with
  | none => .error .fatal
  | some sysaddr =>
    match naclDynamicRegionCreate nap.text sysaddr req.length true with
    | (text, false) => .ok ({ nap with text }, .error .einval)
    | (text, true) =>
      match ans.map with
      | .error _ => .error .fatal
      | .ok () =>
        mmapCodeResult { nap with
          text
          mem := mmapFile nap.mem desc usraddr req.length (protRead ||| protExec) offset
            ans.fileByte } usraddr

/-- The branch of `NaClSysMmapIntern` that maps code: directly when the validator accepts the file as
it is, else by copying it in. -/
def mmapCode (nap : NaClApp) (req : MmapRequest) (desc : NaClDesc) (usraddr : ℕ) (offset : ℤ)
    (ans : MmapAnswers) : Except Fault (NaClApp × MmapOutcome) :=
  if !ans.hostIo then
    .ok (nap, .done (.error .einval))
  else
    match ans.scratchMap with
    | .error errno => .ok (nap, .done (.error errno))
    | .ok () =>
      if ans.validates then
        match mmapCodeDirect nap req desc usraddr offset ans with
        | .error fault => .error fault
        | .ok (nap, result) => .ok (nap, .done result)
      else
        .ok (nap, .copy usraddr (fun i => ans.fileByte (offset + i)) req.length ans.dyncode)

/-- The call of the descriptor's `Map`, which refuses protections it does not know. -/
def naclDescMap (prot : BitVec 32) (host : Except NaClAbiErrno Unit) : Except NaClAbiErrno Unit :=
  if prot &&& ~~~protMask ≠ 0 then .error .einval else host

/-- The memory once the part of the request that the descriptor backs is mapped. -/
def mmapBacked (mem : Memory Backing) (req : MmapRequest) (usraddr : ℕ) (prot : BitVec 32)
    (offset : ℤ) (fileByte : ℤ → UInt8) : Memory Backing :=
  match req.ndp with
  | none => mmapAnonymous mem usraddr req.length (naclProtMap prot)
  | some desc => mmapFile mem desc usraddr (min req.length req.fileBytes) (naclProtMap prot) offset
      fileByte

/-- The end of `NaClSysMmapIntern` on data: what the descriptor does not back becomes inaccessible,
and the map records the whole range. -/
def mmapRecord (nap : NaClApp) (req : MmapRequest) (usraddr : ℕ) (prot : BitVec 32) (offset : ℤ)
    (munmap : Except NaClAbiErrno Unit) : Except Fault (NaClApp × SysResult) :=
  match if req.length < req.allocRoundedLength then
      munmapInternal nap (usraddr + req.length) (req.allocRoundedLength - req.length) munmap
    else .ok (nap, .ok 0) with
  | .error fault => .error fault
  | .ok (nap, .error errno) => .ok (nap, .error errno)
  | .ok (nap, .ok _) =>
    match naclVmmapAddWithOverwrite nap.memMap (usraddr / 2 ^ naclPageShift)
      (req.allocRoundedLength / 2 ^ naclPageShift) prot (req.flags ||| mapFixed) req.ndp offset
      req.fileSize with
    | .error fault => .error (.vmmap fault)
    | .ok memMap => .ok ({ nap with memMap }, .ok usraddr)

/-- The branch of `NaClSysMmapIntern` that maps data at `usraddr`, and the end of the function. -/
def mmapData (nap : NaClApp) (req : MmapRequest) (usraddr : ℕ) (prot : BitVec 32) (offset : ℤ)
    (ans : MmapAnswers) : Except Fault (NaClApp × SysResult) :=
  if 0 < req.length then
    match naclDescMap prot ans.map with
    | .error .moveAddressSpace => .error .fatal
    | .error errno => .ok (nap, .error errno)
    | .ok () =>
      mmapRecord { nap with mem := mmapBacked nap.mem req usraddr prot offset ans.fileByte } req
        usraddr prot offset ans.munmap
  else
    mmapRecord nap req usraddr prot offset ans.munmap

/-- `NaClSysMmapIntern` once it has an address, up to where it gives the lock up. -/
def mmapAt (nap : NaClApp) (req : MmapRequest) (usraddr : ℕ) (prot : BitVec 32) (offset : ℤ)
    (ans : MmapAnswers) : Except Fault (NaClApp × MmapOutcome) :=
  match mmapCheckRange nap req usraddr ans.safeForMmap with
  | .error errno => .ok (nap, .done (.error errno))
  | .ok () =>
    if naclVmIoPending nap usraddr (usub (uadd usraddr req.length) 1) then
      .error .fatal
    -- exactly one of the two has to be set
    else if req.flags &&& mapShared = 0 ↔ req.flags &&& mapPrivate = 0 then
      .ok (nap, .done (.error .einval))
    else
      match naclUserToSys nap.space usraddr with
      | none => .error .fatal
      | some _ =>
        match req.mappingCode && 0 < req.length, req.ndp with
        | true, some desc => mmapCode nap req desc usraddr offset ans
        | _, _ =>
          match mmapData nap req usraddr (prot &&& ~~~protExec) offset ans with
          | .error fault => .error fault
          | .ok (nap, result) => .ok (nap, .done result)

/-- `NaClSysMmapIntern` up to where it gives the lock up. -/
def mmapLocked (nap : NaClApp) (args : MmapArgs) (ans : MmapAnswers) :
    Except Fault (NaClApp × MmapOutcome) :=
  match mmapCheckArgs nap args ans with
  | .error fault => .error fault
  | .ok (.error errno) => .ok (nap, .done (.error errno))
  | .ok (.ok req) =>
    if req.flags &&& mapFixed = 0 then
      match mmapFindSpace nap.memMap req.usraddr req.allocRoundedLength with
      | .error fault => .error (.vmmap fault)
      | .ok (memMap, usrpage) =>
        let nap := { nap with memMap }
        if usrpage = 0 then
          .ok (nap, .done (.error .enomem))
        else
          mmapAt nap req (ushl usrpage naclPageShift) args.prot args.offset ans
    else
      mmapAt nap req req.usraddr args.prot args.offset ans

/-- The end of `NaClSysMmapIntern` when it copies code in, without the lock. -/
def mmapCopy (nap : NaClApp) (usraddr : ℕ) (codeCopy : ℕ → UInt8) (size : ℕ)
    (ans : DyncodeAnswers) : Except Fault (NaClApp × SysResult) :=
  match naclTextDyncodeCreate nap usraddr codeCopy size ans with
  | .error fault => .error fault
  | .ok (nap, .error errno) => .ok (nap, .error errno)
  | .ok (nap, .ok _) => mmapCodeResult nap usraddr

def naclSysMmapIntern (nap : NaClApp) (args : MmapArgs) (ans : MmapAnswers) :
    Except Fault (NaClApp × SysResult) :=
  match mmapLocked nap args ans with
  | .error fault => .error fault
  | .ok (nap, .done result) => .ok (nap, result)
  | .ok (nap, .copy usraddr codeCopy size ans) => mmapCopy nap usraddr codeCopy size ans

/-! ## mprotect -/

/-- The pages of an entry that `MprotectInternal` changes: all of anonymous memory, and of a file
those up to its end. -/
def mprotectPages (entry : NaClVmmapEntry) : ℕ :=
  match entry.desc with
  | none => entry.npages
  | some _ =>
    if entry.offset < entry.fileSize then
      min (naclRoundPage (entry.fileSize - entry.offset).toNat)
        (ushl entry.npages naclPageShift) / naclPageSize
    else 0

/-- The loop of `MprotectInternal` over the entries from the first one on; `entry` is the last one
it has visited. -/
def mprotectInternalLoop (space : AddressSpace) (lastPageNum : ℕ) (hostProt : BitVec 32) :
    List NaClVmmapEntry → NaClVmmapEntry → Memory Backing →
      Except Fault (NaClVmmapEntry × Memory Backing)
  | [], entry, mem => .ok (entry, mem)
  | ent :: rest, entry, mem =>
    if ent.pageNum < lastPageNum then
      match naclUserToSys space (ushl ent.pageNum naclPageShift) with
      | none => .error .fatal
      | some _ =>
        mprotectInternalLoop space lastPageNum hostProt rest ent
          (mem.mprotect ent.pageNum (ent.pageNum + mprotectPages ent) hostProt)
    else
      .ok (entry, mem)

/-- `MprotectInternal`, on user addresses. -/
def mprotectInternal (nap : NaClApp) (usraddr length : ℕ) (prot : BitVec 32) :
    Except Fault (NaClApp × SysResult) :=
  let lastPageNum := uadd usraddr length / 2 ^ naclPageShift
  match naclVmmapFindPageIter nap.memMap (usraddr / 2 ^ naclPageShift) with
  | .error fault => .error (.vmmap fault)
  | .ok (memMap, ix) =>
    match memMap.vmentry[ix]? with
    | none => .error .badAccess
    | some entry =>
      if usraddr ≠ ushl entry.pageNum naclPageShift then
        .error .checkFailed
      else
        match mprotectInternalLoop nap.space lastPageNum (naclProtMap prot)
          (memMap.vmentry.drop ix) entry nap.mem with
        | .error fault => .error fault
        | .ok (entry, mem) =>
          if uadd entry.pageNum entry.npages = lastPageNum then
            .ok ({ nap with memMap, mem }, .ok 0)
          else
            .error .checkFailed

def naclSysMprotectInternal (nap : NaClApp) (start length : ℕ) (prot : BitVec 32) :
    Except Fault (NaClApp × SysResult) :=
  if !naclIsAllocPageMultiple start then
    .ok (nap, .error .einval)
  else
    let length := naclRoundAllocPage length
    let sysaddr := naclUserToSysAddrRange nap.space start length
    if sysaddr = kNaClBadAddress then
      .ok (nap, .error .efault)
    else if ~~~protReadWrite &&& prot ≠ 0 then
      .ok (nap, .error .eacces)
    else if naclSysCommonAddrRangeContainsExecutablePages nap start then
      .ok (nap, .error .eacces)
    else
      match naclSysToUser nap.space sysaddr with
      | none => .error .fatal
      | some usraddr =>
        match naclVmmapChangeProt nap.memMap (usraddr / 2 ^ naclPageShift)
          (length / 2 ^ naclPageShift) prot with
        | .error fault => .error (.vmmap fault)
        | .ok (0, memMap) => .ok ({ nap with memMap }, .error .eacces)
        | .ok (_, memMap) =>
          if naclVmIoPending nap start (usub (uadd start length) 1) then
            .error .fatal
          else
            mprotectInternal { nap with memMap } usraddr length prot

end SandboxingNaCl
