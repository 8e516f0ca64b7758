import SandboxingNaCl.Lib.Runs
import SandboxingNaCl.Pthread.Common
import SandboxingNaCl.Service.App

/-!
# The allocation of code with its data

`irt_code_data_alloc.c`.  A call of `nacl_irt_code_data_allocate` holds the lock from its beginning
to its end; a step is the part of it up to the next `mmap`, whose answer the step is given.
Addresses and sizes are of 32 bits, and their sums wrap.
-/

namespace SandboxingNaCl

open Runs

def minDataSep : UInt32 := 0x10000000

/-- Where the code of the IRT begins, and where the dynamic code does.  The IRT is linked to end
below 256MB. -/
structure IrtLayout where
  maxCodeAddr : UInt32
  dynamicTextStart : UInt32
  maxCodeAddr_le : maxCodeAddr.toNat ≤ 2 ^ 28

def IrtLayout.startAddr (layout : IrtLayout) (nextAvailableCode hint : UInt32) : UInt32 :=
  let tryCodeAddr := if nextAvailableCode = -1 then layout.dynamicTextStart else nextAvailableCode
  if hint ≠ 0 ∧ tryCodeAddr < hint then hint else tryCodeAddr

/-- The arguments of `nacl_irt_code_data_allocate`. -/
structure CodeDataRequest where
  hint : UInt32
  codeSize : UInt32
  dataOffset : UInt32
  dataSize : UInt32
deriving DecidableEq

/-- A range of code that is reserved, or returned to a caller. -/
inductive CodeDataEvent
  | reserved (codeBegin codeSize : UInt32)
  | allocated (request : CodeDataRequest) (codeBegin : UInt32)
deriving DecidableEq

inductive CodeDataStop
  | blocked
  | fatal

/-- `searching` is the request and the candidate of a call that is in its loop.  The last three
fields only keep record: of the ranges, of the state before the call, and of what it has
returned. -/
structure CodeDataWorld where
  nextAvailableCode : UInt32
  searching : Option (CodeDataRequest × UInt32)
  mappings : List (ℕ × ℕ)
  events : List CodeDataEvent
  atCall : UInt32 × List (ℕ × ℕ)
  returned : Option (Except Errno UInt32)

inductive CodeDataAction
  | reserveCodeAllocation (codeBegin codeSize : UInt32)
  | codeDataAllocate (request : CodeDataRequest)
  /-- What `mmap` answers, and whether a `munmap` succeeds. -/
  | mmap (answer : Except Errno UInt32) (munmaps : Bool)

namespace CodeDataRequest

def Aligned (request : CodeDataRequest) : Prop :=
  request.codeSize.toNat % naclMapPageSize = 0 ∧ request.dataSize.toNat % naclMapPageSize = 0 ∧
    request.dataOffset.toNat % naclMapPageSize = 0 ∧ request.hint.toNat % naclMapPageSize = 0

instance (request : CodeDataRequest) : Decidable request.Aligned := by
  unfold Aligned
  infer_instance

def Valid (request : CodeDataRequest) : Prop :=
  request.codeSize ≠ 0 ∧ request.Aligned ∧
    ¬ (request.dataSize ≠ 0 ∧ request.dataOffset < minDataSep)

instance (request : CodeDataRequest) : Decidable request.Valid := by
  unfold Valid
  infer_instance

end CodeDataRequest

namespace CodeDataWorld

variable (layout : IrtLayout)

def init : CodeDataWorld := ⟨-1, none, [], [], (-1, []), none⟩

def finish (w : CodeDataWorld) (result : Except Errno UInt32) : CodeDataWorld :=
  { w with searching := none, returned := some result }

/-- `irt_reserve_code_allocation`. -/
def reserveCodeAllocation (w : CodeDataWorld) (codeBegin codeSize : UInt32) : CodeDataWorld :=
  let events := w.events ++ [CodeDataEvent.reserved codeBegin codeSize]
  let w := { w with events, returned := none }
  if w.nextAvailableCode = -1 ∨ w.nextAvailableCode < codeBegin + codeSize then
    { w with nextAvailableCode := codeBegin + codeSize }
  else w

/-- The end of `nacl_irt_code_data_allocate`, from the check of the limit on. -/
def conclude (w : CodeDataWorld) (request : CodeDataRequest) (tryCodeAddr : UInt32)
    (ret : Except Errno Unit) : CodeDataWorld :=
  if layout.maxCodeAddr < tryCodeAddr + request.codeSize then w.finish (.error .enomem)
  else
    match ret with
    | .ok () =>
      let events := w.events ++ [CodeDataEvent.allocated request tryCodeAddr]
      { w with nextAvailableCode := tryCodeAddr + request.codeSize, events }.finish
        (.ok tryCodeAddr)
    | .error errno => w.finish (.error errno)

/-- `nacl_irt_code_data_allocate` up to the first `mmap`. -/
def codeDataAllocate (w : CodeDataWorld) (request : CodeDataRequest) : CodeDataWorld :=
  let w := { w with atCall := (w.nextAvailableCode, w.mappings) }
  if request.codeSize = 0 then w.finish (.error .einval)
  else if ¬ request.Aligned then w.finish (.error .einval)
  else if request.dataSize ≠ 0 ∧ request.dataOffset < minDataSep then w.finish (.error .einval)
  else
    let tryCodeAddr := layout.startAddr w.nextAvailableCode request.hint
    if tryCodeAddr + request.codeSize ≤ layout.maxCodeAddr then
      if request.dataSize = 0 then w.conclude layout request tryCodeAddr (.ok ())
      else { w with searching := some (request, tryCodeAddr), returned := none }
    else w.conclude layout request tryCodeAddr (.error .einval)

/-- The loop goes on after `mmap` has answered. -/
def afterMmap (w : CodeDataWorld) (request : CodeDataRequest) (tryCodeAddr : UInt32)
    (munmaps : Bool) : Except Errno UInt32 → Except CodeDataStop CodeDataWorld
  | .error errno => .ok (w.conclude layout request tryCodeAddr (.error errno))
  | .ok dataAddr =>
    let tryDataAddr := tryCodeAddr + request.dataOffset
    let mapped := { w with
      mappings := w.mappings ++ [(dataAddr.toNat, request.dataSize.toNat)] }
    if tryDataAddr < dataAddr then
      .ok (mapped.conclude layout request (tryCodeAddr + (dataAddr - tryDataAddr)) (.ok ()))
    else if dataAddr = tryDataAddr then
      .ok (mapped.conclude layout request tryCodeAddr (.ok ()))
    else if ¬ munmaps then .error .fatal
    else
      let tryCodeAddr := tryCodeAddr + request.codeSize
      if tryCodeAddr + request.codeSize ≤ layout.maxCodeAddr then
        .ok { w with searching := some (request, tryCodeAddr) }
      else .ok (w.conclude layout request tryCodeAddr (.error .einval))

def step (w : CodeDataWorld) : CodeDataAction → Except CodeDataStop CodeDataWorld
  | .reserveCodeAllocation codeBegin codeSize =>
    match w.searching with
    | none => .ok (w.reserveCodeAllocation codeBegin codeSize)
    | some _ => .error .blocked
  | .codeDataAllocate request =>
    match w.searching with
    | none => .ok (w.codeDataAllocate layout request)
    | some _ => .error .blocked
  | .mmap answer munmaps =>
    match w.searching with
    | none => .error .blocked
    | some (request, tryCodeAddr) => w.afterMmap layout request tryCodeAddr munmaps answer

/-- `mmap` returns whole pages. -/
def MmapAnswers : CodeDataAction → Prop
  | .mmap (.ok dataAddr) _ => dataAddr.toNat % naclMapPageSize = 0
  | _ => True

/-- A step does not come to what the code gets wrong: a sum that wraps, or is the mark of a variable
that is not set; a start of the search that is not on a page; data that has been moved so far that
there is no room for the code. -/
def Ready (w : CodeDataWorld) : CodeDataAction → Prop
  | .reserveCodeAllocation codeBegin codeSize =>
    codeBegin.toNat + codeSize.toNat ≠ 2 ^ 32 - 1 ∧
      (codeBegin.toNat + codeSize.toNat < 2 ^ 32 ∨ layout.maxCodeAddr ≤ codeBegin)
  | .codeDataAllocate request =>
    let start := layout.startAddr w.nextAvailableCode request.hint
    request.Valid → start + request.codeSize ≤ layout.maxCodeAddr →
      start.toNat + request.codeSize.toNat < 2 ^ 32 ∧
        (request.dataSize = 0 → start.toNat % naclMapPageSize = 0)
  | .mmap (.ok dataAddr) _ =>
    match w.searching with
    | none => True
    | some (request, tryCodeAddr) =>
      tryCodeAddr + request.dataOffset ≤ dataAddr →
        tryCodeAddr.toNat + request.dataOffset.toNat < 2 ^ 32 ∧
          dataAddr.toNat + request.codeSize.toNat ≤
            layout.maxCodeAddr.toNat + request.dataOffset.toNat
  | .mmap (.error _) _ => True

instance (a : CodeDataAction) : Decidable (MmapAnswers a) := by
  unfold MmapAnswers
  split <;> infer_instance

instance (w : CodeDataWorld) (a : CodeDataAction) : Decidable (w.Ready layout a) := by
  unfold Ready
  split
  · infer_instance
  · infer_instance
  · split <;> infer_instance
  · infer_instance

end CodeDataWorld

namespace CodeDataEvent

def start : CodeDataEvent → ℕ
  | .reserved codeBegin _ | .allocated _ codeBegin => codeBegin.toNat

def stop : CodeDataEvent → ℕ
  | .reserved codeBegin codeSize => codeBegin.toNat + codeSize.toNat
  | .allocated request codeBegin => codeBegin.toNat + request.codeSize.toNat

def isAllocated : CodeDataEvent → Bool
  | .reserved _ _ => false
  | .allocated _ _ => true

def Disjoint (e e' : CodeDataEvent) : Prop := e.stop ≤ e'.start ∨ e'.stop ≤ e.start

/-- The data region of a call that has succeeded. -/
def dataRegion : CodeDataEvent → Option (ℕ × ℕ)
  | .reserved _ _ => none
  | .allocated request codeBegin =>
    if request.dataSize = 0 then none
    else some (codeBegin.toNat + request.dataOffset.toNat, request.dataSize.toNat)

theorem dataRegion_of_zero {request : CodeDataRequest} {codeBegin : UInt32}
    (h : request.dataSize = 0) : (allocated request codeBegin).dataRegion = none := if_pos h

theorem dataRegion_of_ne {request : CodeDataRequest} {codeBegin : UInt32}
    (h : request.dataSize ≠ 0) : (allocated request codeBegin).dataRegion =
      some (codeBegin.toNat + request.dataOffset.toNat, request.dataSize.toNat) := if_neg h

end CodeDataEvent

namespace CodeDataWorld

variable (layout : IrtLayout)

/-- How many candidates are left to the loop. -/
def candidatesLeft (w : CodeDataWorld) : ℕ :=
  match w.searching with
  | none => 0
  | some (request, tryCodeAddr) =>
    (layout.maxCodeAddr.toNat - tryCodeAddr.toNat) / request.codeSize.toNat

/-- What holds in every state that a run reaches. -/
structure Sound (w : CodeDataWorld) : Prop where
  /-- The code of a call has nothing in common with what was reserved or returned before. -/
  disjoint : w.events.Pairwise fun e e' => e'.isAllocated = true → e.Disjoint e'
  aligned : ∀ request codeBegin, .allocated request codeBegin ∈ w.events →
    codeBegin.toNat % naclMapPageSize = 0
  limit : ∀ request codeBegin, .allocated request codeBegin ∈ w.events →
    codeBegin.toNat + request.codeSize.toNat ≤ layout.maxCodeAddr.toNat
  /-- What is mapped are the data regions of the calls that have succeeded, at `data_offset` from
  their code. -/
  mapped : w.mappings = w.events.filterMap CodeDataEvent.dataRegion
  failed : ∀ errno, w.returned = some (.error errno) →
    (w.nextAvailableCode, w.mappings) = w.atCall
  /-- The loop ends: each `mmap` leaves fewer candidates. -/
  terminates : ∀ answer munmaps w', w.step layout (.mmap answer munmaps) = .ok w' →
    w'.candidatesLeft layout < w.candidatesLeft layout

/-! ## What every step keeps -/

/-- The ranges so far end where the next may begin, or are above the limit. -/
structure Inv (w : CodeDataWorld) : Prop where
  bound : ∀ e ∈ w.events, w.nextAvailableCode ≠ -1 ∧ e.stop ≤ w.nextAvailableCode.toNat ∨
    layout.maxCodeAddr.toNat ≤ e.start
  disjoint : w.events.Pairwise fun e e' => e'.isAllocated = true → e.Disjoint e'
  aligned : ∀ request codeBegin, .allocated request codeBegin ∈ w.events →
    codeBegin.toNat % naclMapPageSize = 0
  limit : ∀ request codeBegin, .allocated request codeBegin ∈ w.events →
    codeBegin.toNat + request.codeSize.toNat ≤ layout.maxCodeAddr.toNat
  mapped : w.mappings = w.events.filterMap CodeDataEvent.dataRegion
  failed : ∀ errno, w.returned = some (.error errno) →
    (w.nextAvailableCode, w.mappings) = w.atCall
  search : ∀ request tryCodeAddr, w.searching = some (request, tryCodeAddr) →
    request.Valid ∧ request.dataSize ≠ 0 ∧
      tryCodeAddr.toNat + request.codeSize.toNat ≤ layout.maxCodeAddr.toNat ∧
      (∀ e ∈ w.events, e.stop ≤ tryCodeAddr.toNat ∨ layout.maxCodeAddr.toNat ≤ e.start) ∧
      (w.nextAvailableCode, w.mappings) = w.atCall

section

variable {layout : IrtLayout} {w : CodeDataWorld} {request : CodeDataRequest} {tryCodeAddr : UInt32}

theorem Inv.fail (h : Inv layout w) (hsame : (w.nextAvailableCode, w.mappings) = w.atCall)
    (errno : Errno) : Inv layout (w.finish (.error errno)) :=
  ⟨h.bound, h.disjoint, h.aligned, h.limit, h.mapped, fun _ _ => hsame, nofun⟩

theorem conclude_error (layout : IrtLayout) (w : CodeDataWorld) (request : CodeDataRequest)
    (tryCodeAddr : UInt32) (errno : Errno) :
    ∃ errno', w.conclude layout request tryCodeAddr (.error errno) = w.finish (.error errno') := by
  unfold conclude
  split_ifs
  · exact ⟨_, rfl⟩
  · exact ⟨_, rfl⟩

theorem Inv.succeed (h : Inv layout w) {mappings : List (ℕ × ℕ)}
    (hlimit : tryCodeAddr.toNat + request.codeSize.toNat ≤ layout.maxCodeAddr.toNat)
    (halign : tryCodeAddr.toNat % naclMapPageSize = 0)
    (hbefore : ∀ e ∈ w.events, e.stop ≤ tryCodeAddr.toNat ∨ layout.maxCodeAddr.toNat ≤ e.start)
    (hmapped : mappings =
      w.mappings ++ (CodeDataEvent.allocated request tryCodeAddr).dataRegion.toList) :
    Inv layout ({ w with mappings }.conclude layout request tryCodeAddr (.ok ())) := by
  have hmax := layout.maxCodeAddr_le
  have hsum : (tryCodeAddr + request.codeSize).toNat =
      tryCodeAddr.toNat + request.codeSize.toNat := by
    rw [UInt32.toNat_add]
    omega
  have hnot : ¬ layout.maxCodeAddr < tryCodeAddr + request.codeSize := by
    rw [UInt32.lt_iff_toNat_lt, hsum]
    omega
  have hnew : ∀ e ∈ w.events ++ [CodeDataEvent.allocated request tryCodeAddr],
      e ∈ w.events ∨ e = .allocated request tryCodeAddr := fun e he =>
    (List.mem_append.1 he).imp_right List.mem_singleton.1
  unfold conclude
  rw [if_neg hnot]
  refine ⟨fun e he => ?_, ?_, fun r t he => ?_, fun r t he => ?_, ?_, nofun, nofun⟩
  · change tryCodeAddr + request.codeSize ≠ -1 ∧
      e.stop ≤ (tryCodeAddr + request.codeSize).toNat ∨ _
    rw [hsum]
    have hset : tryCodeAddr + request.codeSize ≠ -1 := fun heq => by
      have htop := congrArg UInt32.toNat heq
      rw [hsum] at htop
      change tryCodeAddr.toNat + request.codeSize.toNat = 4294967295 at htop
      omega
    rcases hnew _ he with he | rfl
    · rcases hbefore e he with hstop | habove
      · exact Or.inl ⟨hset, hstop.trans (Nat.le_add_right _ _)⟩
      · exact Or.inr habove
    · exact Or.inl ⟨hset, le_rfl⟩
  · refine List.pairwise_append.2 ⟨h.disjoint, List.pairwise_singleton _ _, fun e he e' he' _ => ?_⟩
    rw [List.mem_singleton.1 he']
    rcases hbefore e he with hstop | habove
    · exact Or.inl hstop
    · exact Or.inr (hlimit.trans habove)
  · rcases hnew _ he with he | he
    · exact h.aligned r t he
    · cases he
      exact halign
  · rcases hnew _ he with he | he
    · exact h.limit r t he
    · cases he
      exact hlimit
  · change mappings = (w.events ++ [_]).filterMap _
    rw [hmapped, h.mapped, List.filterMap_append]
    cases hregion : (CodeDataEvent.allocated request tryCodeAddr).dataRegion <;>
      simp [hregion]

theorem Inv.reserveCodeAllocation (h : Inv layout w) (hidle : w.searching = none)
    {codeBegin codeSize : UInt32}
    (hready : w.Ready layout (.reserveCodeAllocation codeBegin codeSize)) :
    Inv layout (w.reserveCodeAllocation codeBegin codeSize) := by
  obtain ⟨hmark, hwrap⟩ := hready
  have hlt := codeBegin.toNat_lt
  have hlt' := codeSize.toNat_lt
  have hsum : (codeBegin + codeSize).toNat =
      (codeBegin.toNat + codeSize.toNat) % 2 ^ 32 := UInt32.toNat_add _ _
  have hset : codeBegin + codeSize ≠ -1 := fun heq => by
    have htop := congrArg UInt32.toNat heq
    rw [hsum] at htop
    change (codeBegin.toNat + codeSize.toNat) % 2 ^ 32 = 4294967295 at htop
    omega
  have hnew : ∀ e ∈ w.events ++ [CodeDataEvent.reserved codeBegin codeSize],
      e ∈ w.events ∨ e = .reserved codeBegin codeSize := fun e he =>
    (List.mem_append.1 he).imp_right List.mem_singleton.1
  have hnext : ∀ next : UInt32,
      (∀ e ∈ w.events ++ [CodeDataEvent.reserved codeBegin codeSize],
        next ≠ -1 ∧ e.stop ≤ next.toNat ∨ layout.maxCodeAddr.toNat ≤ e.start) →
      Inv layout { w with
        nextAvailableCode := next
        events := w.events ++ [CodeDataEvent.reserved codeBegin codeSize]
        returned := none } := by
    intro next hbound
    refine ⟨hbound, ?_, fun r t he => ?_, fun r t he => ?_, ?_, nofun, fun r t heq => ?_⟩
    · refine List.pairwise_append.2 ⟨h.disjoint, List.pairwise_singleton _ _, fun e _ e' he' => ?_⟩
      rw [List.mem_singleton.1 he']
      exact nofun
    · exact h.aligned r t ((hnew _ he).resolve_right nofun)
    · exact h.limit r t ((hnew _ he).resolve_right nofun)
    · change w.mappings = (w.events ++ [_]).filterMap _
      rw [h.mapped, List.filterMap_append]
      exact (List.append_nil _).symm
    · exact absurd (hidle.symm.trans heq) nofun
  unfold CodeDataWorld.reserveCodeAllocation
  dsimp only
  split_ifs with hbranch
  · refine hnext _ fun e he => ?_
    rcases hnew e he with he | rfl
    · refine (h.bound e he).imp_left fun ⟨hold, hstop⟩ => ⟨hset, hstop.trans ?_⟩
      exact (UInt32.lt_iff_toNat_lt.1 (hbranch.resolve_left hold)).le
    · rcases hwrap with hexact | habove
      · exact Or.inl ⟨hset, hsum.symm ▸ (Nat.mod_eq_of_lt hexact).ge⟩
      · exact Or.inr habove
  · obtain ⟨hold, hle⟩ := not_or.1 hbranch
    refine hnext _ fun e he => ?_
    rcases hnew e he with he | rfl
    · exact h.bound e he
    · rcases hwrap with hexact | habove
      · refine Or.inl ⟨hold, ?_⟩
        rw [UInt32.lt_iff_toNat_lt, hsum, Nat.mod_eq_of_lt hexact, not_lt] at hle
        exact hle
      · exact Or.inr habove

theorem Inv.startAddr (h : Inv layout w) (hint : UInt32) : ∀ e ∈ w.events,
    e.stop ≤ (layout.startAddr w.nextAvailableCode hint).toNat ∨
      layout.maxCodeAddr.toNat ≤ e.start := by
  intro e he
  refine (h.bound e he).imp_left fun ⟨hset, hstop⟩ => hstop.trans ?_
  unfold IrtLayout.startAddr
  dsimp only
  rw [if_neg hset]
  split_ifs with hhint
  · exact (UInt32.lt_iff_toNat_lt.1 hhint.2).le
  · exact le_rfl

theorem Inv.codeDataAllocate (h : Inv layout w)
    (hready : w.Ready layout (.codeDataAllocate request)) :
    Inv layout (w.codeDataAllocate layout request) := by
  have hstart : Inv layout
      { w with atCall := (w.nextAvailableCode, w.mappings), searching := none } :=
    ⟨h.bound, h.disjoint, h.aligned, h.limit, h.mapped, fun _ _ => rfl, nofun⟩
  have hfail : ∀ errno, Inv layout (CodeDataWorld.finish
      { w with atCall := (w.nextAvailableCode, w.mappings) } (.error errno)) :=
    fun errno => hstart.fail rfl errno
  unfold CodeDataWorld.codeDataAllocate
  dsimp only
  by_cases hsize : request.codeSize = 0
  · rw [if_pos hsize]
    exact hfail _
  rw [if_neg hsize]
  by_cases haligned : request.Aligned
  · rw [if_neg (not_not_intro haligned)]
    by_cases hsep : request.dataSize ≠ 0 ∧ request.dataOffset < minDataSep
    · rw [if_pos hsep]
      exact hfail _
    · rw [if_neg hsep]
      have hvalid : request.Valid := ⟨hsize, haligned, hsep⟩
      have hbefore := h.startAddr request.hint
      by_cases hroom : layout.startAddr w.nextAvailableCode request.hint + request.codeSize ≤
          layout.maxCodeAddr
      · rw [if_pos hroom]
        obtain ⟨hwrap, halign⟩ := hready hvalid hroom
        have hlimit : (layout.startAddr w.nextAvailableCode request.hint).toNat +
            request.codeSize.toNat ≤ layout.maxCodeAddr.toNat := by
          rw [UInt32.le_iff_toNat_le, UInt32.toNat_add, Nat.mod_eq_of_lt hwrap] at hroom
          exact hroom
        by_cases hdata : request.dataSize = 0
        · rw [if_pos hdata]
          refine hstart.succeed hlimit (halign hdata) hbefore ?_
          rw [CodeDataEvent.dataRegion_of_zero hdata]
          exact (List.append_nil _).symm
        · rw [if_neg hdata]
          refine ⟨h.bound, h.disjoint, h.aligned, h.limit, h.mapped, nofun, fun r t heq => ?_⟩
          cases heq
          exact ⟨hvalid, hdata, hlimit, hbefore, rfl⟩
      · rw [if_neg hroom]
        obtain ⟨errno', heq⟩ := conclude_error layout
          { w with atCall := (w.nextAvailableCode, w.mappings) } request
          (layout.startAddr w.nextAvailableCode request.hint) .einval
        rw [heq]
        exact hfail errno'
  · rw [if_pos haligned]
    exact hfail _

theorem Inv.afterMmap (h : Inv layout w) (hsearch : w.searching = some (request, tryCodeAddr))
    {answer : Except Errno UInt32} {munmaps : Bool} {w' : CodeDataWorld}
    (hready : w.Ready layout (.mmap answer munmaps)) (hanswer : MmapAnswers (.mmap answer munmaps))
    (hstep : w.afterMmap layout request tryCodeAddr munmaps answer = .ok w') : Inv layout w' := by
  obtain ⟨hvalid, hdata, hlimit, hbefore, hsame⟩ := h.search _ _ hsearch
  have hmax := layout.maxCodeAddr_le
  cases answer with
  | error errno =>
    cases hstep
    obtain ⟨errno', heq⟩ := conclude_error layout w request tryCodeAddr errno
    rw [heq]
    exact h.fail hsame errno'
  | ok dataAddr =>
    have hmoved : tryCodeAddr + request.dataOffset ≤ dataAddr →
        tryCodeAddr.toNat + request.dataOffset.toNat < 2 ^ 32 ∧
          dataAddr.toNat + request.codeSize.toNat ≤
            layout.maxCodeAddr.toNat + request.dataOffset.toNat := by
      unfold Ready at hready
      rw [hsearch] at hready
      exact hready
    have hpage : dataAddr.toNat % naclMapPageSize = 0 := hanswer
    have hoffset : request.dataOffset.toNat % naclMapPageSize = 0 := hvalid.2.1.2.2.1
    have hsize : naclMapPageSize = 65536 := rfl
    rw [hsize] at hpage hoffset
    unfold CodeDataWorld.afterMmap at hstep
    dsimp only at hstep
    split_ifs at hstep with habove hequal hmunmap hroom
    · cases hstep
      obtain ⟨hexact, hfits⟩ := hmoved (UInt32.le_of_lt habove)
      rw [UInt32.lt_iff_toNat_lt, UInt32.toNat_add, Nat.mod_eq_of_lt hexact] at habove
      have hcode : (tryCodeAddr + (dataAddr - (tryCodeAddr + request.dataOffset))).toNat +
          request.dataOffset.toNat = dataAddr.toNat := by
        have hlt := dataAddr.toNat_lt
        rw [UInt32.toNat_add, UInt32.toNat_sub, UInt32.toNat_add]
        omega
      refine h.succeed (by omega) (by rw [hsize]; omega) (fun e he => ?_) ?_
      · exact (hbefore e he).imp_left fun hstop => by omega
      · rw [CodeDataEvent.dataRegion_of_ne hdata, hcode]
        rfl
    · cases hstep
      obtain ⟨hexact, hfits⟩ := hmoved (hequal ▸ UInt32.le_refl _)
      have hdataAddr : dataAddr.toNat = tryCodeAddr.toNat + request.dataOffset.toNat := by
        rw [hequal, UInt32.toNat_add, Nat.mod_eq_of_lt hexact]
      refine h.succeed (by omega) (by rw [hsize]; omega) hbefore ?_
      rw [CodeDataEvent.dataRegion_of_ne hdata, hdataAddr]
      rfl
    · cases hstep
      refine ⟨h.bound, h.disjoint, h.aligned, h.limit, h.mapped, h.failed, fun r t heq => ?_⟩
      cases heq
      have hnext : (tryCodeAddr + request.codeSize).toNat =
          tryCodeAddr.toNat + request.codeSize.toNat := by
        rw [UInt32.toNat_add]
        omega
      rw [UInt32.le_iff_toNat_le, UInt32.toNat_add, hnext] at hroom
      refine ⟨hvalid, hdata, by omega, fun e he => ?_, hsame⟩
      exact (hbefore e he).imp_left fun hstop => by omega
    · cases hstep
      obtain ⟨errno', heq⟩ := conclude_error layout w request
        (tryCodeAddr + request.codeSize) .einval
      rw [heq]
      exact h.fail hsame errno'

theorem Inv.terminates (h : Inv layout w) {answer : Except Errno UInt32} {munmaps : Bool}
    {w' : CodeDataWorld} (hstep : w.step layout (.mmap answer munmaps) = .ok w') :
    w'.candidatesLeft layout < w.candidatesLeft layout := by
  rw [CodeDataWorld.step] at hstep
  split at hstep
  · cases hstep
  · next request tryCodeAddr hsearch =>
    obtain ⟨hvalid, -, hlimit, -⟩ := h.search _ _ hsearch
    have hmax := layout.maxCodeAddr_le
    have hpos : 0 < request.codeSize.toNat := Nat.pos_of_ne_zero fun heq =>
      hvalid.1 (UInt32.toNat_inj.1 heq)
    have hleft : w.candidatesLeft layout =
        (layout.maxCodeAddr.toNat - tryCodeAddr.toNat) / request.codeSize.toNat := by
      unfold candidatesLeft
      rw [hsearch]
    have hsome : 0 < w.candidatesLeft layout := by
      rw [hleft]
      exact Nat.div_pos (by omega) hpos
    -- A call that returns leaves nothing to the loop.
    have hdone : ∀ (w₀ : CodeDataWorld) t ret, (w₀.conclude layout request t ret).candidatesLeft
        layout < w.candidatesLeft layout := by
      intro w₀ t ret
      have hzero : (w₀.conclude layout request t ret).candidatesLeft layout = 0 := by
        unfold conclude
        split_ifs
        · rfl
        · cases ret <;> rfl
      rw [hzero]
      exact hsome
    cases answer with
    | error errno =>
      cases hstep
      exact hdone _ _ _
    | ok dataAddr =>
      unfold CodeDataWorld.afterMmap at hstep
      dsimp only at hstep
      split_ifs at hstep
      · cases hstep
        exact hdone _ _ _
      · cases hstep
        exact hdone _ _ _
      · cases hstep
        have hnext : (tryCodeAddr + request.codeSize).toNat =
            tryCodeAddr.toNat + request.codeSize.toNat := by
          rw [UInt32.toNat_add]
          omega
        change (layout.maxCodeAddr.toNat - (tryCodeAddr + request.codeSize).toNat) /
          request.codeSize.toNat < _
        have hroom : request.codeSize.toNat ≤
            layout.maxCodeAddr.toNat - tryCodeAddr.toNat := by omega
        rw [hleft, hnext, ← Nat.sub_sub, Nat.div_eq_sub_div hpos hroom]
        exact Nat.lt_succ_self _
      · cases hstep
        exact hdone _ _ _

theorem Inv.sound (h : Inv layout w) : w.Sound layout :=
  ⟨h.disjoint, h.aligned, h.limit, h.mapped, h.failed, fun _ _ _ hstep => h.terminates hstep⟩

theorem Inv.step (h : Inv layout w) {a : CodeDataAction} {w' : CodeDataWorld}
    (hanswers : MmapAnswers a) (hready : w.Ready layout a) (hstep : w.step layout a = .ok w') :
    Inv layout w' := by
  cases a with
  | reserveCodeAllocation codeBegin codeSize =>
    rw [CodeDataWorld.step] at hstep
    split at hstep
    · next hidle =>
      cases hstep
      exact h.reserveCodeAllocation hidle hready
    · cases hstep
  | codeDataAllocate request =>
    rw [CodeDataWorld.step] at hstep
    split at hstep
    · cases hstep
      exact h.codeDataAllocate hready
    · cases hstep
  | mmap answer munmaps =>
    rw [CodeDataWorld.step] at hstep
    split at hstep
    · cases hstep
    · next request tryCodeAddr hsearch => exact h.afterMmap hsearch hready hanswers hstep

end

theorem inv_init (layout : IrtLayout) : Inv layout init :=
  ⟨nofun, List.Pairwise.nil, nofun, nofun, rfl, nofun, nofun⟩

/-- In every run without the sums and moves that the code gets wrong. -/
theorem sound_of_guarded {layout : IrtLayout} {run : List CodeDataAction} {w : CodeDataWorld}
    (hready : Guarded (step layout) (fun w a => MmapAnswers a ∧ w.Ready layout a) init run)
    (hrun : run.foldlM (step layout) init = .ok w) : w.Sound layout :=
  have hinv : Inv layout w :=
    hready.invariant (fun _ _ _ h hok hstep => h.step hok.1 hok.2 hstep) (inv_init layout) hrun
  hinv.sound

def smallIrt : IrtLayout := ⟨0xfa00000, 0x20000, by decide⟩

/-- A call whose data are moved up by a page, and one for code without data. -/
def movedRun : List CodeDataAction :=
  [.reserveCodeAllocation 0x20000 0x10000, .codeDataAllocate ⟨0, 0x20000, 0x10000000, 0x10000⟩,
    .mmap (.ok 0x10020000) true, .mmap (.ok 0x10060000) true, .codeDataAllocate ⟨0, 0x10000, 0, 0⟩]

theorem sound_of_guarded_moved : ∃ w, movedRun.foldlM (step smallIrt) init = .ok w ∧
    w.mappings = [(0x10060000, 0x10000)] ∧ w.nextAvailableCode = 0x90000 ∧ w.Sound smallIrt := by
  obtain ⟨w, hrun, hmapped, hnext⟩ := Runs.exists_ok_of_check
    (P := fun w : CodeDataWorld =>
      w.mappings = [(0x10060000, 0x10000)] ∧ w.nextAvailableCode = 0x90000)
    (fun w => w.mappings = [(0x10060000, 0x10000)] ∧ w.nextAvailableCode = 0x90000)
    (fun _ hcheck => of_decide_eq_true hcheck) (x := movedRun.foldlM (step smallIrt) init)
    (by decide +kernel)
  exact ⟨w, hrun, hmapped, hnext, sound_of_guarded (Guarded.of_check (by decide +kernel)) hrun⟩

def wrappedRun : List CodeDataAction := [.codeDataAllocate ⟨0, 0xffff0000, 0, 0⟩]

/-- The code that is returned ends above the limit. -/
theorem not_sound_wrapped : ¬ ∀ (run : List CodeDataAction) (w : CodeDataWorld),
    (∀ a ∈ run, MmapAnswers a) → run.foldlM (step smallIrt) init = .ok w → w.Sound smallIrt := by
  intro hclaim
  have hsound := hclaim wrappedRun _ (by decide +kernel) rfl
  have hlimit := hsound.limit ⟨0, 0xffff0000, 0, 0⟩ 0x20000 (by decide +kernel)
  revert hlimit
  decide +kernel

end CodeDataWorld

end SandboxingNaCl
