import SandboxingNaCl.Lib.IntervalMap
import SandboxingNaCl.Lib.MachineInt
import Mathlib.Data.List.DropRight
import Mathlib.Data.List.Sort

/-!
# The memory map

The entries of `NaClVmmap` and the operations of `sel_mem.c` that rewrite them.  The list `vmentry`
is the array up to `nvalid`; `size` is its capacity.  Page numbers and page counts are 64-bit
unsigned, so their sums and differences wrap (`uadd`, `usub`).  Allocation is taken to succeed.
File offsets are exact integers: the sums the code forms are signed, and overflow there is
undefined.
-/

namespace SandboxingNaCl

open MachineInt

def naclPageShift : ℕ := 12

/-- `START_ENTRIES`, the capacity of a new map. -/
def startEntries : ℕ := 5

/-- `NACL_ABI_PROT_NONE`. -/
def protNone : BitVec 32 := 0

/-- `NACL_ABI_PROT_READ`. -/
def protRead : BitVec 32 := 1

/-- `NACL_ABI_PROT_WRITE`. -/
def protWrite : BitVec 32 := 2

/-- `NACL_ABI_PROT_EXEC`. -/
def protExec : BitVec 32 := 4

/-- `NACL_ABI_MAP_PRIVATE`. -/
def mapPrivate : BitVec 32 := 2

/-- A descriptor that can back a mapping.  Its `GetFlags` method returns `oFlags`, and no
descriptor is opened with the fourth access mode. -/
structure NaClDesc where
  id : ℕ
  oFlags : BitVec 32
  accmode_ne : oFlags &&& 3 ≠ 3
deriving DecidableEq

theorem readWrite_ne : (2 : BitVec 32) &&& 3 ≠ 3 := by decide

/-- One region of the map. -/
structure NaClVmmapEntry where
  pageNum : ℕ
  npages : ℕ
  prot : BitVec 32
  flags : BitVec 32
  removed : Bool
  desc : Option NaClDesc
  offset : ℤ
  fileSize : ℤ
deriving DecidableEq

/-- The map: its entries in array order, the capacity of the array and the sorted flag. -/
structure NaClVmmap where
  vmentry : List NaClVmmapEntry
  size : ℕ
  isSorted : Bool
deriving DecidableEq

/-- The ways an operation on the map brings the process down. -/
inductive VmmapFault
  /-- `CHECK(npages > 0)`. -/
  | checkFailed
  /-- `NaClVmmapRemoveMarked` reads `vmentry[0]` after freeing it. -/
  | nullEntry
deriving DecidableEq

def naclVmmapCtor : NaClVmmap := ⟨[], startEntries, true⟩

def naclVmmapEntryMake (pageNum npages : ℕ) (prot flags : BitVec 32) (desc : Option NaClDesc)
    (offset fileSize : ℤ) : NaClVmmapEntry :=
  ⟨pageNum, npages, prot, flags, false, desc, offset, fileSize⟩

/-- The end of `NaClVmmapAdd`: a new entry goes into the array, which doubles when it is full. -/
def naclVmmapPush (self : NaClVmmap) (entry : NaClVmmapEntry) : NaClVmmap where
  vmentry := self.vmentry ++ [entry]
  size := if self.vmentry.length = self.size then 2 * self.size else self.size
  isSorted := false

def naclVmmapAdd (self : NaClVmmap) (pageNum npages : ℕ) (prot flags : BitVec 32)
    (desc : Option NaClDesc) (offset fileSize : ℤ) : NaClVmmap :=
  naclVmmapPush self (naclVmmapEntryMake pageNum npages prot flags desc offset fileSize)

/-! ## Removing marked entries and sorting -/

/-- The second loop of `NaClVmmapRemoveMarked` on `vmentry[i..last]`: a removed entry at the front
is replaced by the one at the end, and the removed entries before that one are dropped.  The first
argument bounds the number of iterations. -/
def moveEndToFront : ℕ → List NaClVmmapEntry → List NaClVmmapEntry
  | 0, l => l
  | _ + 1, [] => []
  | n + 1, ent :: rest =>
    if ent.removed then
      match rest.getLast? with
      | none => [ent]
      | some last => last :: moveEndToFront n (rest.dropLast.rdropWhile (·.removed))
    else
      ent :: moveEndToFront n rest

/-- `NaClVmmapRemoveMarked`.  The first loop frees the removed entries at the end of the array;
when it frees all of them, the test after it reads the null `vmentry[0]`. -/
def naclVmmapRemoveMarked (self : NaClVmmap) : Except VmmapFault NaClVmmap :=
  if self.vmentry.length = 0 then
    .ok self
  else
    match self.vmentry.rdropWhile (·.removed) with
    | [] => .error .nullEntry
    | l => .ok { self with vmentry := moveEndToFront l.length l, isSorted := false }

/-- `NaClVmmapCmpEntries`: the difference of the page numbers, truncated to `int`. -/
def naclVmmapCmpEntries (left right : NaClVmmapEntry) : ℤ :=
  toInt32 (usub left.pageNum right.pageNum)

/-- `qsort` of the entries under `NaClVmmapCmpEntries`. -/
def qsortEntries (l : List NaClVmmapEntry) : List NaClVmmapEntry :=
  l.insertionSort fun left right => naclVmmapCmpEntries left right ≤ 0

def naclVmmapMakeSorted (self : NaClVmmap) : Except VmmapFault NaClVmmap := do
  if self.isSorted then
    return self
  let self ← naclVmmapRemoveMarked self
  return { self with vmentry := qsortEntries self.vmentry, isSorted := true }

/-! ## Adding and removing regions -/

/-- The loop of `NaClVmmapUpdate`: the entries it leaves in the array, and those it adds.  The
branches are, in the source's order: a split with the new mapping in the middle, an overlap with
the end of the entry, one with its start, an entry covered whole, and no overlap. -/
def naclVmmapUpdateLoop (pageNum newRegionEndPage : ℕ) :
    List NaClVmmapEntry → List NaClVmmapEntry × List NaClVmmapEntry
  | [] => ([], [])
  | ent :: rest =>
    let entEndPage := uadd ent.pageNum ent.npages
    let additionalOffset := toInt64 (ushl (usub newRegionEndPage ent.pageNum) naclPageShift)
    if ent.pageNum < pageNum ∧ newRegionEndPage < entEndPage then
      ({ ent with npages := usub pageNum ent.pageNum } :: rest,
        [naclVmmapEntryMake newRegionEndPage (usub entEndPage newRegionEndPage) ent.prot
          ent.flags ent.desc (ent.offset + additionalOffset) ent.fileSize])
    else if ent.pageNum < pageNum ∧ pageNum < entEndPage then
      let (kept, added) := naclVmmapUpdateLoop pageNum newRegionEndPage rest
      ({ ent with npages := usub pageNum ent.pageNum } :: kept, added)
    else if ent.pageNum < newRegionEndPage ∧ newRegionEndPage < entEndPage then
      ({ ent with
          pageNum := newRegionEndPage
          npages := usub entEndPage newRegionEndPage
          offset := ent.offset + additionalOffset } :: rest, [])
    else if pageNum ≤ ent.pageNum ∧ entEndPage ≤ newRegionEndPage then
      let (kept, added) := naclVmmapUpdateLoop pageNum newRegionEndPage rest
      ({ ent with removed := true } :: kept, added)
    else
      let (kept, added) := naclVmmapUpdateLoop pageNum newRegionEndPage rest
      (ent :: kept, added)

def naclVmmapUpdate (self : NaClVmmap) (pageNum npages : ℕ) (prot flags : BitVec 32)
    (remove : Bool) (desc : Option NaClDesc) (offset fileSize : ℤ) :
    Except VmmapFault NaClVmmap := do
  let newRegionEndPage := uadd pageNum npages
  let self ← naclVmmapMakeSorted self
  if npages = 0 then
    throw .checkFailed
  let (kept, added) := naclVmmapUpdateLoop pageNum newRegionEndPage self.vmentry
  let self := added.foldl naclVmmapPush { self with vmentry := kept }
  let self :=
    if remove then self else naclVmmapAdd self pageNum npages prot flags desc offset fileSize
  naclVmmapRemoveMarked self

def naclVmmapAddWithOverwrite (self : NaClVmmap) (pageNum npages : ℕ) (prot flags : BitVec 32)
    (desc : Option NaClDesc) (offset fileSize : ℤ) : Except VmmapFault NaClVmmap :=
  naclVmmapUpdate self pageNum npages prot flags false desc offset fileSize

def naclVmmapRemove (self : NaClVmmap) (pageNum npages : ℕ) : Except VmmapFault NaClVmmap :=
  naclVmmapUpdate self pageNum npages 0 0 true none 0 0

/-! ## Changing protection -/

def naclVmmapEntryMaxProt (entry : NaClVmmapEntry) : BitVec 32 :=
  match entry.desc with
  | some desc =>
    if entry.flags &&& mapPrivate = 0 then
      if desc.oFlags &&& 3 = 0 then protRead
      else if desc.oFlags &&& 3 = 1 then protWrite
      else protRead ||| protWrite
    else protRead ||| protWrite
  | none => protRead ||| protWrite

/-- The loop of `NaClVmmapCheckExistingMapping`. -/
def naclVmmapCheckExistingMappingLoop (regionEndPage : ℕ) (prot : BitVec 32) :
    ℕ → List NaClVmmapEntry → Bool
  | _, [] => false
  | pageNum, ent :: rest =>
    let entEndPage := uadd ent.pageNum ent.npages
    let flags := naclVmmapEntryMaxProt ent
    if ent.pageNum ≤ pageNum ∧ regionEndPage ≤ entEndPage then
      prot &&& ~~~flags = 0
    else if ent.pageNum ≤ pageNum ∧ pageNum < entEndPage then
      if prot &&& ~~~flags ≠ 0 then
        false
      else
        naclVmmapCheckExistingMappingLoop regionEndPage prot entEndPage rest
    else if pageNum < ent.pageNum then
      false
    else
      naclVmmapCheckExistingMappingLoop regionEndPage prot pageNum rest

/-- `NaClVmmapCheckExistingMapping`: the answer, and the map it has sorted. -/
def naclVmmapCheckExistingMapping (self : NaClVmmap) (pageNum npages : ℕ) (prot : BitVec 32) :
    Except VmmapFault (Bool × NaClVmmap) := do
  if self.vmentry.length = 0 then
    return (false, self)
  let self ← naclVmmapMakeSorted self
  return (naclVmmapCheckExistingMappingLoop (uadd pageNum npages) prot pageNum self.vmentry, self)

/-- The loop of `NaClVmmapChangeProt` on the entries present when it starts: the entries it leaves
in the array, and those it adds.  The branches are those of `naclVmmapUpdateLoop`; the region moves
up past each entry that does not contain its end. -/
def naclVmmapChangeProtLoop (newRegionEndPage : ℕ) (prot : BitVec 32) :
    ℕ → ℕ → List NaClVmmapEntry → List NaClVmmapEntry × List NaClVmmapEntry
  | _, _, [] => ([], [])
  | pageNum, npages, ent :: rest =>
    if npages = 0 then
      (ent :: rest, [])
    else
      let entEndPage := uadd ent.pageNum ent.npages
      let additionalOffset := toInt64 (ushl (usub newRegionEndPage ent.pageNum) naclPageShift)
      if ent.pageNum < pageNum ∧ newRegionEndPage < entEndPage then
        ({ ent with npages := usub pageNum ent.pageNum } :: rest,
          [naclVmmapEntryMake newRegionEndPage (usub entEndPage newRegionEndPage) ent.prot
              ent.flags ent.desc (ent.offset + additionalOffset) ent.fileSize,
            naclVmmapEntryMake pageNum npages prot ent.flags ent.desc
              (ent.offset + toInt64 (usub pageNum ent.pageNum)) ent.fileSize])
      else if ent.pageNum < pageNum ∧ pageNum < entEndPage then
        let (kept, added) := naclVmmapChangeProtLoop newRegionEndPage prot entEndPage
          (usub newRegionEndPage entEndPage) rest
        ({ ent with npages := usub pageNum ent.pageNum } :: kept,
          naclVmmapEntryMake pageNum (usub entEndPage pageNum) prot ent.flags ent.desc
            (ent.offset + toInt64 (usub pageNum ent.pageNum)) ent.fileSize :: added)
      else if ent.pageNum < newRegionEndPage ∧ newRegionEndPage < entEndPage then
        ({ ent with
            pageNum := newRegionEndPage
            npages := usub entEndPage newRegionEndPage
            offset := ent.offset + additionalOffset } :: rest,
          [naclVmmapEntryMake pageNum npages prot ent.flags ent.desc ent.offset ent.fileSize])
      else if pageNum ≤ ent.pageNum ∧ entEndPage ≤ newRegionEndPage then
        let (kept, added) := naclVmmapChangeProtLoop newRegionEndPage prot entEndPage
          (usub newRegionEndPage entEndPage) rest
        ({ ent with prot := prot } :: kept, added)
      else
        let (kept, added) := naclVmmapChangeProtLoop newRegionEndPage prot pageNum npages rest
        (ent :: kept, added)

/-- `NaClVmmapChangeProt`: its result, and the map after it. -/
def naclVmmapChangeProt (self : NaClVmmap) (pageNum npages : ℕ) (prot : BitVec 32) :
    Except VmmapFault (ℕ × NaClVmmap) := do
  let newRegionEndPage := uadd pageNum npages
  let (ok, self) ← naclVmmapCheckExistingMapping self pageNum npages prot
  if !ok then
    return (0, self)
  let self ← naclVmmapMakeSorted self
  let (kept, added) := naclVmmapChangeProtLoop newRegionEndPage prot pageNum npages self.vmentry
  return (1, added.foldl naclVmmapPush { self with vmentry := kept })

end SandboxingNaCl
