import SandboxingNaCl.Service.App

/-!
# Dynamic code

The table of dynamic regions, the writable view of the dynamic text area and the system calls of
`nacl_text.c` that create and delete code.  The host's `mprotect` is taken to succeed: the code
treats its failure as fatal.
-/

namespace SandboxingNaCl

open MachineInt PagedMemory

def kMinDynamicRegionsAllocated : ℕ := 32

def naclHaltOpcode : UInt8 := 0xf4

/-! ## The table of regions -/

/-- The binary search of `NaClDynamicRegionFindClosestLEQ`, down to a range that is scanned.  The
first argument bounds the number of iterations. -/
def binarySearchRegions (regions : List NaClDynamicRegion) (ptr : ℕ) : ℕ → ℕ → ℕ → ℕ × ℕ
  | 0, first, last => (first, last)
  | n + 1, first, last =>
    if first + 16 + 1 < last then
      let mid := first + (last - first) / 2
      if ∃ region ∈ regions[mid]?, region.start ≤ ptr then
        binarySearchRegions regions ptr n mid last
      else
        binarySearchRegions regions ptr n first mid
    else
      (first, last)

/-- The linear scan of `NaClDynamicRegionFindClosestLEQ`, bounded like the search. -/
def scanRegions (regions : List NaClDynamicRegion) (ptr : ℕ) : ℕ → ℕ → ℕ → ℕ
  | 0, first, _ => first
  | n + 1, first, last =>
    if first + 1 < last ∧ ∃ region ∈ regions[first + 1]?, region.start ≤ ptr then
      scanRegions regions ptr n (first + 1) last
    else
      first

/-- `NaClDynamicRegionFindClosestLEQ`: the index of the region found. -/
def naclDynamicRegionFindClosestLEQ (regions : List NaClDynamicRegion) (ptr : ℕ) : Option ℕ :=
  match regions.head?, regions.getLast? with
  | some head, some last =>
    if last.start ≤ ptr then
      some (regions.length - 1)
    else if ptr < head.start then
      none
    else
      let (first, last) := binarySearchRegions regions ptr regions.length 0 regions.length
      some (scanRegions regions ptr regions.length first last)
  | _, _ => none

def naclDynamicRegionFind (regions : List NaClDynamicRegion) (ptr size : ℕ) : Option ℕ :=
  match naclDynamicRegionFindClosestLEQ regions (usub (uadd ptr size) 1) with
  | some ix =>
    match regions[ix]? with
    | some region => if ptr < uadd region.start region.size then some ix else none
    | none => none
  | none => none

/-- The growth of the table at the start of `NaClDynamicRegionCreate`. -/
def growRegions (text : DynamicText) : DynamicText :=
  if text.regionsAllocated = text.regions.length then
    { text with regionsAllocated := max (text.regionsAllocated * 2) kMinDynamicRegionsAllocated }
  else text

/-- The loops at the end of `NaClDynamicRegionCreate`: past the regions that start before the new one,
from the one found on, then the shift that makes room for it. -/
def insertRegion (regions : List NaClDynamicRegion) (found : Option ℕ) (item : NaClDynamicRegion) :
    List NaClDynamicRegion :=
  let first := found.getD 0
  regions.insertIdx (first + ((regions.drop first).takeWhile (·.start < item.start)).length) item

/-- `NaClDynamicRegionCreate`: whether the range was free, and the table after it. -/
def naclDynamicRegionCreate (text : DynamicText) (start size : ℕ) (isMmap : Bool) :
    DynamicText × Bool :=
  let text := growRegions text
  let found := naclDynamicRegionFindClosestLEQ text.regions (usub (uadd start size) 1)
  match found.bind (text.regions[·]?) with
  | some region =>
    if start < uadd region.start region.size then
      (text, false)
    else
      ({ text with regions := insertRegion text.regions found ⟨start, size, -1, isMmap⟩ }, true)
  | none =>
    ({ text with regions := insertRegion text.regions found ⟨start, size, -1, isMmap⟩ }, true)

def naclDynamicRegionDelete (text : DynamicText) (ix : ℕ) : DynamicText :=
  let regions := text.regions.eraseIdx ix
  { text with
    regions
    regionsAllocated :=
      if kMinDynamicRegionsAllocated < text.regionsAllocated ∧
          regions.length < text.regionsAllocated / 4 then
        text.regionsAllocated / 2
      else text.regionsAllocated }

/-- `NaClSetThreadGeneration`, called by the thread `natp`. -/
def naclSetThreadGeneration (text : DynamicText) (natp : ℕ) (generation : ℤ) :
    Except Fault DynamicText :=
  match text.threadGeneration[natp]? with
  | some (some old) =>
    if old = generation then
      .ok text
    else if old ≤ generation then
      .ok { text with threadGeneration := text.threadGeneration.set natp (some generation) }
    else
      .error .checkFailed
  | _ => .error .badAccess

def naclMinimumThreadGeneration (text : DynamicText) : ℤ :=
  text.threadGeneration.reduceOption.foldl min (2 ^ 31 - 1)

/-! ## Writing code -/

/-- The word at offset `i` is the first of a bundle. -/
def atBundleHead (bundleSize i : ℕ) : Bool := i / 4 * 4 % bundleSize = 0

/-- `CopyBundleTails`: every word of `[dest, dest + size)` but the bundle heads. -/
def copyBundleTails (shmByte : ℕ → UInt8) (dest : ℕ) (src : ℕ → UInt8) (size bundleSize : ℕ) :
    ℕ → UInt8 := fun i =>
  if dest ≤ i ∧ i < dest + size ∧ !atBundleHead bundleSize i then src (i - dest) else shmByte i

def copyBundleHeads (shmByte : ℕ → UInt8) (dest : ℕ) (src : ℕ → UInt8) (size bundleSize : ℕ) :
    ℕ → UInt8 := fun i =>
  if dest ≤ i ∧ i < dest + size ∧ atBundleHead bundleSize i then src (i - dest) else shmByte i

def copyCodeSafelyInitial (shmByte : ℕ → UInt8) (dest : ℕ) (src : ℕ → UInt8)
    (size bundleSize : ℕ) : ℕ → UInt8 :=
  copyBundleHeads (copyBundleTails shmByte dest src size bundleSize) dest src size bundleSize

def replaceBundleHeadsWithHalts (shmByte : ℕ → UInt8) (dest size bundleSize : ℕ) : ℕ → UInt8 :=
  copyBundleHeads shmByte dest (fun _ => naclHaltOpcode) size bundleSize

/-! ## The writable view -/

/-- `MakeDynamicCodePagesVisible`, on a range of pages of the bitmap.  An index past the bitmap is an
access past its array, or to a page past the end of the shared memory. -/
def makeDynamicCodePagesVisible (nap : NaClApp) (pageIndexMin pageIndexMax : ℕ) :
    Except Fault NaClApp :=
  let bits := nap.text.pageBitmap
  if bits.length < pageIndexMax then
    .error .badAccess
  else if (bits.drop pageIndexMin).take (pageIndexMax - pageIndexMin) |>.any id then
    .error .checkFailed
  else
    let offset := pageIndexMin * naclMapPageSize
    let limit := pageIndexMax * naclMapPageSize
    match naclUserToSys nap.space (nap.dynamicTextStart + offset) with
    | none => .error .fatal
    | some _ =>
      if nap.text.shmByte offset ≠ 0 then
        .error .checkFailed
      else
        .ok { nap with
          text := { nap.text with
            pageBitmap := bits.mapIdx fun i bit => bit || pageIndexMin ≤ i ∧ i < pageIndexMax
            shmByte := fun i =>
              if offset ≤ i ∧ i < limit then naclHaltOpcode else nap.text.shmByte i }
          mem := nap.mem.mprotect ((nap.dynamicTextStart + offset) / naclPageSize)
            ((nap.dynamicTextStart + limit) / naclPageSize) (protRead ||| protExec) }

/-- The loop of `CachedMapWritableText` over `[current, last)`: each block of pages that are not yet
visible is made so.  The first argument bounds the number of blocks. -/
def makePagesVisibleLoop : ℕ → NaClApp → ℕ → ℕ → Except Fault NaClApp
  | 0, nap, _, _ => .ok nap
  | n + 1, nap, current, last =>
    if current < last then
      let block := ((nap.text.pageBitmap.drop current).take (last - current)).takeWhile (!·)
      let blockEnd := current + block.length
      match if current < blockEnd then makeDynamicCodePagesVisible nap current blockEnd
        else .ok nap with
      | .error fault => .error fault
      | .ok nap => makePagesVisibleLoop n nap (blockEnd + 1) last
    else .ok nap

/-- `NaClDescImcShmMap` of `text_shm`: the sum of offset and length has to fit an `int32_t`, and
then the host answers. -/
def naclDescImcShmMap (offset len : ℕ) (host : Bool) : Bool :=
  naclRoundAllocPage (offset + len) ≤ 2 ^ 31 - 1 && host

/-- The part of `CachedMapWritableText` that gives the cached mapping up. -/
def clearMapcache (nap : NaClApp) : NaClApp :=
  if 0 < nap.text.mapcacheSize then
    { nap with text := { nap.text with mapcacheOffset := 0, mapcacheSize := 0, mapcacheRet := none } }
  else nap

/-- `CachedMapWritableText`: the mapping handed out, or `none` for 0.  `host` says whether the host
can map the view.  Reading the bit of a page past the bitmap is an access past its array. -/
def cachedMapWritableText (nap : NaClApp) (offset size : ℕ) (host : Bool) :
    Except Fault (NaClApp × Option ℕ) :=
  if offset = nap.text.mapcacheOffset ∧ size = nap.text.mapcacheSize then
    .ok (nap, nap.text.mapcacheRet)
  else
    let nap := clearMapcache nap
    if 0 < size then
      if naclDescImcShmMap offset size host then
        let last := (offset + size) % 2 ^ 32 / naclMapPageSize
        if nap.text.pageBitmap.length < last then
          .error .badAccess
        else
          match makePagesVisibleLoop last nap (offset / naclMapPageSize) last with
          | .error fault => .error fault
          | .ok nap =>
            .ok ({ nap with
              text := { nap.text with
                mapcacheOffset := offset, mapcacheSize := size, mapcacheRet := some offset } },
              some offset)
      else
        .ok (nap, none)
    else
      .ok (nap, nap.text.mapcacheRet)

/-- The offset in `text_shm` of the first page of `[dest, dest + size)` and the length of the whole
pages of it, in 32 bits: `shm_map_offset` and `shm_map_size`. -/
def shmMapRange (nap : NaClApp) (dest size : ℕ) : ℕ × ℕ :=
  let shmOffset := (dest + (2 ^ 32 - nap.dynamicTextStart % 2 ^ 32)) % 2 ^ 32
  let shmMapOffset := alignDown naclMapPageShift shmOffset
  let shmMapOffsetEnd :=
    alignDown naclMapPageShift ((shmOffset + size + (naclMapPageSize - 1)) % 2 ^ 32)
  (shmMapOffset, (shmMapOffsetEnd + (2 ^ 32 - shmMapOffset)) % 2 ^ 32)

/-- `NaClTextMapWrapper`: the address through which the code at `dest` can be written. -/
def naclTextMapWrapper (nap : NaClApp) (dest size : ℕ) (host : Bool) :
    Except Fault (NaClApp × Option ℕ) :=
  let shmOffset := (dest + (2 ^ 32 - nap.dynamicTextStart % 2 ^ 32)) % 2 ^ 32
  let (shmMapOffset, shmMapSize) := shmMapRange nap dest size
  match cachedMapWritableText nap shmMapOffset shmMapSize host with
  | .error fault => .error fault
  | .ok (nap, none) => .ok (nap, none)
  | .ok (nap, some ret) => .ok (nap, some (ret + shmOffset % naclMapPageSize))

def naclTextMapClearCacheIfNeeded (nap : NaClApp) (dest size : ℕ) : Except Fault NaClApp :=
  if naclMapPageSize < (shmMapRange nap dest size).2 then
    match cachedMapWritableText nap 0 0 true with
    | .error fault => .error fault
    | .ok (nap, _) => .ok nap
  else .ok nap

/-! ## The system calls -/

/-- What the validator and the host answer while code is created: whether the validator accepts the
code and how it leaves the copy, and whether the host can map the writable view. -/
structure DyncodeAnswers where
  validate : (ℕ → UInt8) → Bool × (ℕ → UInt8)
  shmMap : Bool

/-- `NaClTextDyncodeCreate` once the code is valid. -/
def installDyncode (nap : NaClApp) (dest destAddr : ℕ) (codeCopy : ℕ → UInt8) (size : ℕ)
    (shmMap : Bool) : Except Fault (NaClApp × SysResult) :=
  match naclDynamicRegionCreate nap.text destAddr size false with
  | (text, false) => .ok ({ nap with text }, .error .einval)
  | (text, true) =>
    match naclTextMapWrapper { nap with text } dest size shmMap with
    | .error fault => .error fault
    | .ok (nap, none) => .ok (nap, .error .enomem)
    | .ok (nap, some mappedAddr) =>
      let shmByte := copyCodeSafelyInitial nap.text.shmByte mappedAddr codeCopy size
        nap.bundleSize
      match naclTextMapClearCacheIfNeeded { nap with text := { nap.text with shmByte } }
        dest size with
      | .error fault => .error fault
      | .ok nap => .ok (nap, .ok 0)

def naclTextDyncodeCreate (nap : NaClApp) (dest : ℕ) (codeCopy : ℕ → UInt8) (size : ℕ)
    (ans : DyncodeAnswers) : Except Fault (NaClApp × SysResult) :=
  if nap.text.textShm = none then
    .ok (nap, .error .einval)
  else if dest % nap.bundleSize ≠ 0 ∨ size % nap.bundleSize ≠ 0 then
    .ok (nap, .error .einval)
  else
    let destAddr := naclUserToSysAddrRange nap.space dest size
    if destAddr = kNaClBadAddress then
      .ok (nap, .error .efault)
    else if dest < nap.dynamicTextStart then
      .ok (nap, .error .efault)
    -- the sum is one of 32-bit numbers, the difference one of 64-bit numbers
    else if usub nap.dynamicTextEnd naclHaltSledSize < (dest + size) % 2 ^ 32 then
      .ok (nap, .error .efault)
    else if size = 0 then
      .ok (nap, .ok 0)
    else
      let (valid, codeCopy) :=
        if nap.skipValidator then (true, codeCopy) else ans.validate codeCopy
      if !(valid || nap.ignoreValidatorResult) then
        .ok (nap, .error .einval)
      else
        installDyncode nap dest destAddr codeCopy size ans.shmMap

/-- `NaClSysDyncodeCreate`.  Copying from a page that cannot be read brings the process down. -/
def naclSysDyncodeCreate (nap : NaClApp) (dest src size : ℕ) (ans : DyncodeAnswers) :
    Except Fault (NaClApp × SysResult) :=
  if !nap.enableDyncodeSyscalls then
    .ok (nap, .error .enosys)
  else if naclUserToSysAddrRange nap.space src size = kNaClBadAddress then
    .ok (nap, .error .efault)
  else if ¬ nap.mem.Permits (fun prot => prot &&& protRead ≠ 0) (src / naclPageSize)
      ((src + size + (naclPageSize - 1)) / naclPageSize) ∧ 0 < size then
    .error .badAccess
  else
    naclTextDyncodeCreate nap dest (fun i => nap.byteAt (src + i)) size ans

/-- What the validator and the host answer while code is modified: whether the validator can replace
code, whether it accepts the new code for the old, which bytes it then stores and whether it reports
success, and whether there is memory for the copy and for the writable view. -/
structure ModifyAnswers where
  codeReplacement : Bool
  malloc : Bool
  validate : (ℕ → UInt8) → (ℕ → UInt8) → Bool
  copyCode : (ℕ → UInt8) → (ℕ → UInt8) → (ℕ → Option UInt8) × Bool
  shmMap : Bool

/-- `NaClCopyCode`, which stores to bytes of `[dest, dest + size)`. -/
def naclCopyCode (shmByte : ℕ → UInt8) (dest size : ℕ) (stores : ℕ → Option UInt8) : ℕ → UInt8 :=
  fun i => if dest ≤ i ∧ i < dest + size then (stores (i - dest)).getD (shmByte i) else shmByte i

/-- `NaClSysDyncodeModify` once the new code is valid. -/
def replaceDyncode (nap : NaClApp) (dest size : ℕ) (stores : ℕ → Option UInt8) (copied shmMap : Bool) :
    Except Fault (NaClApp × SysResult) :=
  match naclTextMapWrapper nap dest size shmMap with
  | .error fault => .error fault
  | .ok (nap, none) => .ok (nap, .error .enomem)
  | .ok (nap, some mappedAddr) =>
    let nap := { nap with text := { nap.text with
      shmByte := naclCopyCode nap.text.shmByte mappedAddr size stores } }
    if copied then
      match naclTextMapClearCacheIfNeeded nap dest size with
      | .error fault => .error fault
      | .ok nap => .ok (nap, .ok 0)
    else
      .ok (nap, .error .einval)

/-- `NaClSysDyncodeModify`.  Copying from a page that cannot be read brings the process down. -/
def naclSysDyncodeModify (nap : NaClApp) (dest src size : ℕ) (ans : ModifyAnswers) :
    Except Fault (NaClApp × SysResult) :=
  if !ans.codeReplacement then
    .ok (nap, .error .enosys)
  else if !nap.enableDyncodeSyscalls then
    .ok (nap, .error .enosys)
  else if nap.text.textShm = none then
    .ok (nap, .error .einval)
  else if size = 0 then
    .ok (nap, .ok 0)
  else
    let destAddr := naclUserToSysAddrRange nap.space dest size
    let srcAddr := naclUserToSysAddrRange nap.space src size
    if srcAddr = kNaClBadAddress ∨ destAddr = kNaClBadAddress then
      .ok (nap, .error .efault)
    else
      match (naclDynamicRegionFind nap.text.regions destAddr size).bind (nap.text.regions[·]?) with
      | none => .ok (nap, .error .efault)
      | some region =>
        if destAddr < region.start ∨ uadd region.start region.size < uadd destAddr size ∨
            region.isMmap then
          .ok (nap, .error .efault)
        else
          let offset := dest % nap.bundleSize
          let bundles := (offset + size + (nap.bundleSize - 1)) / nap.bundleSize * nap.bundleSize
          let dest := dest - offset
          if naclInstrBlockSize < bundles ∧ !ans.malloc then
            .ok (nap, .error .enomem)
          else if ¬ nap.mem.Permits (fun prot => prot &&& protRead ≠ 0) (dest / naclPageSize)
                ((dest + bundles + (naclPageSize - 1)) / naclPageSize) ∨
              ¬ nap.mem.Permits (fun prot => prot &&& protRead ≠ 0) (src / naclPageSize)
                ((src + size + (naclPageSize - 1)) / naclPageSize) then
            .error .badAccess
          else if 2 ^ 32 - 1 ≤ bundles then
            .error .checkFailed
          else
            let old := fun i => nap.byteAt (dest + i)
            let codeCopy := fun i =>
              if offset ≤ i ∧ i < offset + size then nap.byteAt (src + (i - offset)) else old i
            if !(ans.validate old codeCopy || nap.ignoreValidatorResult) then
              .ok (nap, .error .einval)
            else
              let (stores, copied) := ans.copyCode old codeCopy
              replaceDyncode nap dest bundles stores copied ans.shmMap

/-- The end of `NaClSysDyncodeDelete`: the region goes once every thread has checked in. -/
def finishDelete (nap : NaClApp) (natp ix : ℕ) (generation : ℤ) :
    Except Fault (NaClApp × SysResult) :=
  match naclSetThreadGeneration nap.text natp nap.text.deleteGeneration with
  | .error fault => .error fault
  | .ok text =>
    if generation ≤ naclMinimumThreadGeneration text then
      .ok ({ nap with text := naclDynamicRegionDelete text ix }, .ok 0)
    else
      .ok ({ nap with text }, .error .eagain)

/-- The part of `NaClSysDyncodeDelete` for the first request to delete the region at `ix`. -/
def requestDelete (nap : NaClApp) (natp dest size ix : ℕ) (region : NaClDynamicRegion)
    (shmMap : Bool) : Except Fault (NaClApp × SysResult) :=
  if nap.text.deleteGeneration = 2 ^ 31 - 1 then
    .ok (nap, .error .efault)
  else
    match naclTextMapWrapper nap dest size shmMap with
    | .error fault => .error fault
    | .ok (nap, none) => .ok (nap, .error .enomem)
    | .ok (nap, some mappedAddr) =>
      let shmByte := replaceBundleHeadsWithHalts nap.text.shmByte mappedAddr size nap.bundleSize
      match naclTextMapClearCacheIfNeeded { nap with text := { nap.text with shmByte } } dest size
        with
      | .error fault => .error fault
      | .ok nap =>
        let generation := nap.text.deleteGeneration + 1
        let regions := nap.text.regions.set ix { region with deleteGeneration := generation }
        finishDelete
          { nap with text := { nap.text with deleteGeneration := generation, regions } }
          natp ix generation

/-- `NaClSysDyncodeDelete`, called by the thread `natp`. -/
def naclSysDyncodeDelete (nap : NaClApp) (natp dest size : ℕ) (shmMap : Bool) :
    Except Fault (NaClApp × SysResult) :=
  if !nap.enableDyncodeSyscalls then
    .ok (nap, .error .enosys)
  else if nap.text.textShm = none then
    .ok (nap, .error .einval)
  else if size = 0 then
    match naclSetThreadGeneration nap.text natp nap.text.deleteGeneration with
    | .error fault => .error fault
    | .ok text => .ok ({ nap with text }, .ok 0)
  else
    let destAddr := naclUserToSysAddrRange nap.space dest size
    if destAddr = kNaClBadAddress then
      .ok (nap, .error .efault)
    else
      let found := naclDynamicRegionFind nap.text.regions destAddr size
      match found, found.bind (nap.text.regions[·]?) with
      | some ix, some region =>
        if region.start ≠ destAddr ∨ region.size ≠ size ∨ region.isMmap then
          .ok (nap, .error .efault)
        else if region.deleteGeneration < 0 then
          requestDelete nap natp dest size ix region shmMap
        else
          finishDelete nap natp ix region.deleteGeneration
      | _, _ => .ok (nap, .error .efault)

/-! ## What changes when code is created or deleted -/

theorem naclTextMapWrapper_eq (nap : NaClApp) (dest size : ℕ) (host : Bool) :
    naclTextMapWrapper nap dest size host =
      (cachedMapWritableText nap (shmMapRange nap dest size).1 (shmMapRange nap dest size).2 host).map
        fun result => (result.1, result.2.map
          (· + (dest + (2 ^ 32 - nap.dynamicTextStart % 2 ^ 32)) % 2 ^ 32 % naclMapPageSize)) := by
  rw [naclTextMapWrapper]
  generalize shmMapRange nap dest size = range
  generalize cachedMapWritableText = cachedMap
  obtain ⟨offset, len⟩ := range
  dsimp only
  cases cachedMap nap offset len host with
  | error fault => rfl
  | ok result =>
    obtain ⟨mid, _ | v⟩ := result
    · rfl
    · rfl

theorem exists_of_naclTextMapWrapper {nap nap' : NaClApp} {dest size : ℕ} {host : Bool}
    {ret : Option ℕ} (h : naclTextMapWrapper nap dest size host = .ok (nap', ret)) :
    ∃ v, cachedMapWritableText nap (shmMapRange nap dest size).1 (shmMapRange nap dest size).2 host =
        .ok (nap', v) ∧
      ret = v.map (· + (dest + (2 ^ 32 - nap.dynamicTextStart % 2 ^ 32)) % 2 ^ 32 % naclMapPageSize) := by
  rw [naclTextMapWrapper_eq] at h
  cases hmap : cachedMapWritableText nap (shmMapRange nap dest size).1 (shmMapRange nap dest size).2
    host with
  | error fault =>
    rw [hmap] at h
    cases h
  | ok result =>
    rw [hmap] at h
    cases h
    exact ⟨result.2, rfl, rfl⟩

/-- Only the dynamic text changes, and the protection of pages the bitmap has a bit for, which become
readable and executable. -/
structure TextStep (nap nap' : NaClApp) : Prop where
  eq : nap' = { nap with text := nap'.text, mem := nap'.mem }
  textShm : nap'.text.textShm = nap.text.textShm
  bitmap : nap'.text.pageBitmap.length = nap.text.pageBitmap.length
  byte : nap'.mem.byte = nap.mem.byte
  page : ∀ p, nap'.mem.page p = nap.mem.page p ∨
    (nap.dynamicTextStart / naclPageSize ≤ p ∧
      p < (nap.dynamicTextStart + nap.text.pageBitmap.length * naclMapPageSize) / naclPageSize ∧
      nap'.mem.page p = { nap.mem.page p with prot := protRead ||| protExec })

section

variable {nap nap' nap'' : NaClApp}

theorem TextStep.of_text {text : DynamicText} (hshm : text.textShm = nap.text.textShm)
    (hbits : text.pageBitmap.length = nap.text.pageBitmap.length) :
    TextStep nap { nap with text } :=
  ⟨rfl, hshm, hbits, rfl, fun _ => Or.inl rfl⟩

theorem TextStep.refl (nap : NaClApp) : TextStep nap nap := .of_text rfl rfl

theorem TextStep.trans (h : TextStep nap nap') (h' : TextStep nap' nap'') : TextStep nap nap'' := by
  obtain ⟨heq, hshm, hbits, hbyte, hpage⟩ := h
  obtain ⟨heq', hshm', hbits', hbyte', hpage'⟩ := h'
  have hstart : nap'.dynamicTextStart = nap.dynamicTextStart := by rw [heq]
  refine ⟨by rw [heq', heq], hshm'.trans hshm, hbits'.trans hbits, hbyte'.trans hbyte, fun p => ?_⟩
  rw [hstart, hbits] at hpage'
  rcases hpage' p with hp' | ⟨hlo, hhi, hp'⟩
  · rw [hp']
    exact hpage p
  · refine Or.inr ⟨hlo, hhi, ?_⟩
    rw [hp']
    rcases hpage p with hp | ⟨-, -, hp⟩ <;> rw [hp]

theorem TextStep.after_text {text : DynamicText} (h : TextStep { nap with text } nap')
    (hshm : text.textShm = nap.text.textShm)
    (hbits : text.pageBitmap.length = nap.text.pageBitmap.length) : TextStep nap nap' :=
  (TextStep.of_text hshm hbits).trans h

theorem textStep_naclDynamicRegionCreate {start size : ℕ} {isMmap b : Bool} {text : DynamicText}
    (h : naclDynamicRegionCreate nap.text start size isMmap = (text, b)) :
    TextStep nap { nap with text } := by
  have hgrow : TextStep nap { nap with text := growRegions nap.text } := by
    unfold growRegions
    split_ifs
    · exact .of_text rfl rfl
    · exact .refl nap
  unfold naclDynamicRegionCreate at h
  simp only at h
  refine hgrow.trans ?_
  split at h
  · split_ifs at h
    · cases h
      exact .refl _
    · cases h
      exact .of_text rfl rfl
  · cases h
    exact .of_text rfl rfl

theorem textStep_makeDynamicCodePagesVisible {first last : ℕ}
    (h : makeDynamicCodePagesVisible nap first last = .ok nap') : TextStep nap nap' := by
  simp only [makeDynamicCodePagesVisible] at h
  split_ifs at h with hlen hset hbyte <;> split at h <;> cases h
  · refine ⟨rfl, rfl, List.length_mapIdx, rfl, fun p => ?_⟩
    simp only [Memory.mprotect]
    split_ifs with hp
    · have hlast : last * naclMapPageSize ≤ nap.text.pageBitmap.length * naclMapPageSize :=
        Nat.mul_le_mul_right _ (not_lt.1 hlen)
      refine Or.inr ⟨?_, ?_, rfl⟩
      · exact (Nat.div_le_div_right (Nat.le_add_right _ _)).trans hp.1
      · exact hp.2.trans_le (Nat.div_le_div_right (Nat.add_le_add_left hlast _))
    · exact Or.inl rfl

theorem textStep_makePagesVisibleLoop (n current last : ℕ)
    (h : makePagesVisibleLoop n nap current last = .ok nap') : TextStep nap nap' := by
  induction n generalizing nap current with
  | zero => cases h; exact .refl _
  | succ n ih =>
    rw [makePagesVisibleLoop] at h
    dsimp only at h
    split_ifs at h with hlt
    · split at h
      · cases h
      · next mid hmid => exact (textStep_makeDynamicCodePagesVisible hmid).trans (ih _ h)
    · exact ih _ h
    · cases h
      exact .refl _

theorem textStep_clearMapcache (nap : NaClApp) : TextStep nap (clearMapcache nap) := by
  unfold clearMapcache
  split_ifs
  · exact .of_text rfl rfl
  · exact .refl nap

theorem textStep_cachedMapWritableText {offset size : ℕ} {host : Bool} {ret : Option ℕ}
    (h : cachedMapWritableText nap offset size host = .ok (nap', ret)) : TextStep nap nap' := by
  unfold cachedMapWritableText at h
  simp only at h
  split_ifs at h
  · cases h
    exact .refl nap
  · split at h
    · cases h
    · next mid hmid =>
      cases h
      have := (textStep_clearMapcache nap).trans (textStep_makePagesVisibleLoop _ _ _ hmid)
      exact this.trans (.of_text rfl rfl)
  · cases h
    exact textStep_clearMapcache nap
  · cases h
    exact textStep_clearMapcache nap

theorem textStep_naclTextMapWrapper {dest size : ℕ} {host : Bool} {ret : Option ℕ}
    (h : naclTextMapWrapper nap dest size host = .ok (nap', ret)) : TextStep nap nap' := by
  obtain ⟨v, hmap, -⟩ := exists_of_naclTextMapWrapper h
  exact textStep_cachedMapWritableText hmap

theorem textStep_naclTextMapClearCacheIfNeeded {dest size : ℕ}
    (h : naclTextMapClearCacheIfNeeded nap dest size = .ok nap') : TextStep nap nap' := by
  unfold naclTextMapClearCacheIfNeeded at h
  split_ifs at h
  · split at h
    · cases h
    · next hmap => cases h; exact textStep_cachedMapWritableText hmap
  · cases h
    exact .refl nap

theorem textStep_installDyncode {dest destAddr size : ℕ} {codeCopy : ℕ → UInt8} {shmMap : Bool}
    {r : SysResult} (h : installDyncode nap dest destAddr codeCopy size shmMap = .ok (nap', r)) :
    TextStep nap nap' := by
  -- As variables: the kernel would evaluate the arithmetic of the two functions at every split.
  obtain ⟨wrapper, hwrapper⟩ : ∃ f, f = naclTextMapWrapper := ⟨_, rfl⟩
  obtain ⟨clearCache, hclearCache⟩ : ∃ f, f = naclTextMapClearCacheIfNeeded := ⟨_, rfl⟩
  unfold installDyncode at h
  rw [← hwrapper, ← hclearCache] at h
  dsimp only at h
  split at h
  · next hcreate => cases h; exact textStep_naclDynamicRegionCreate hcreate
  · next hcreate =>
    refine (textStep_naclDynamicRegionCreate hcreate).trans ?_
    split at h
    · cases h
    · next hmap =>
      cases h
      rw [hwrapper] at hmap
      exact textStep_naclTextMapWrapper hmap
    · next hmap =>
      rw [hwrapper] at hmap
      refine (textStep_naclTextMapWrapper hmap).trans ?_
      split at h
      · cases h
      · next hclear =>
        cases h
        rw [hclearCache] at hclear
        exact (textStep_naclTextMapClearCacheIfNeeded hclear).after_text rfl rfl

theorem textStep_naclTextDyncodeCreate {dest size : ℕ} {codeCopy : ℕ → UInt8}
    {ans : DyncodeAnswers} {r : SysResult}
    (h : naclTextDyncodeCreate nap dest codeCopy size ans = .ok (nap', r)) : TextStep nap nap' := by
  unfold naclTextDyncodeCreate at h
  dsimp only at h
  split_ifs at h <;> first | (cases h; exact .refl nap) | exact textStep_installDyncode h

theorem textStep_naclSetThreadGeneration {natp : ℕ} {generation : ℤ} {text : DynamicText}
    (h : naclSetThreadGeneration nap.text natp generation = .ok text) :
    TextStep nap { nap with text } := by
  unfold naclSetThreadGeneration at h
  split at h
  · split_ifs at h
    · cases h
      exact .refl nap
    · cases h
      exact .of_text rfl rfl
  · cases h

theorem textStep_finishDelete {natp ix : ℕ} {generation : ℤ} {r : SysResult}
    (h : finishDelete nap natp ix generation = .ok (nap', r)) : TextStep nap nap' := by
  unfold finishDelete at h
  split at h
  · cases h
  · next hset =>
    refine (textStep_naclSetThreadGeneration hset).trans ?_
    split_ifs at h
    · cases h
      exact .of_text rfl rfl
    · cases h
      exact .refl _

theorem textStep_requestDelete {natp dest size ix : ℕ} {region : NaClDynamicRegion}
    {shmMap : Bool} {r : SysResult}
    (h : requestDelete nap natp dest size ix region shmMap = .ok (nap', r)) :
    TextStep nap nap' := by
  obtain ⟨wrapper, hwrapper⟩ : ∃ f, f = naclTextMapWrapper := ⟨_, rfl⟩
  obtain ⟨clearCache, hclearCache⟩ : ∃ f, f = naclTextMapClearCacheIfNeeded := ⟨_, rfl⟩
  unfold requestDelete at h
  rw [← hwrapper, ← hclearCache] at h
  dsimp only at h
  split_ifs at h
  · cases h
    exact .refl nap
  · split at h
    · cases h
    · next hmap =>
      cases h
      rw [hwrapper] at hmap
      exact textStep_naclTextMapWrapper hmap
    · next hmap =>
      rw [hwrapper] at hmap
      refine (textStep_naclTextMapWrapper hmap).trans ?_
      split at h
      · cases h
      · next hclear =>
        rw [hclearCache] at hclear
        have hfinish := (textStep_finishDelete h).after_text rfl rfl
        exact ((textStep_naclTextMapClearCacheIfNeeded hclear).after_text rfl rfl).trans hfinish

theorem textStep_naclSysDyncodeDelete {natp dest size : ℕ} {shmMap : Bool} {r : SysResult}
    (h : naclSysDyncodeDelete nap natp dest size shmMap = .ok (nap', r)) : TextStep nap nap' := by
  unfold naclSysDyncodeDelete at h
  dsimp only at h
  split_ifs at h
  · cases h
    exact .refl nap
  · cases h
    exact .refl nap
  · split at h
    · cases h
    · next hset => cases h; exact textStep_naclSetThreadGeneration hset
  · cases h
    exact .refl nap
  · split at h
    · split_ifs at h
      · cases h
        exact .refl nap
      · exact textStep_requestDelete h
      · exact textStep_finishDelete h
    · cases h
      exact .refl nap

end

end SandboxingNaCl
