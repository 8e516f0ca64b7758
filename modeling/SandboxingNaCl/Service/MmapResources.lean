import SandboxingNaCl.Lib.Ledger
import SandboxingNaCl.Service.DyncodeAtomic

/-!
# What mmap holds

`NaClSysMmapIntern` takes a reference to the descriptor, the lock `mu` with the hole in the address
space that may open under it, and for code a temporary view of the file.  Here it is with the ledger
of what it takes and gives back on the way to each of its exits.
-/

namespace SandboxingNaCl

open MachineInt PagedMemory LedgerEntry

/-- What `NaClSysMmapIntern` holds for a while: its reference to the descriptor, `mu`, what
`NaClVmHoleOpeningMu` does, and the view at `image_sys_addr`. -/
inductive MmapResource
  | desc | mu | vmHole | imageView
deriving DecidableEq

abbrev MmapLedger := List (LedgerEntry MmapResource)

/-! ## The call with its ledger -/

/-- `mmapCodeDirect`: the view goes once the region is registered. -/
def mmapCodeDirectLedger (nap : NaClApp) (req : MmapRequest) (desc : NaClDesc) (usraddr : ℕ)
    (offset : ℤ) (ans : MmapAnswers) : Except Fault ((NaClApp × SysResult) × MmapLedger) :=
  match naclUserToSys nap.space usraddr with
  | none => .error .fatal
  | some sysaddr =>
    match naclDynamicRegionCreate nap.text sysaddr req.length true with
    -- the view is still there on this exit
    | (text, false) => .ok (({ nap with text }, .error .einval), [])
    | (text, true) =>
      match ans.map with
      | .error _ => .error .fatal
      | .ok () =>
        (mmapCodeResult { nap with
          text
          mem := mmapFile nap.mem desc usraddr req.length (protRead ||| protExec) offset
            ans.fileByte } usraddr).map (·, [.give .imageView])

/-- `mmapCode`: the view is taken for the validator. -/
def mmapCodeLedger (nap : NaClApp) (req : MmapRequest) (desc : NaClDesc) (usraddr : ℕ) (offset : ℤ)
    (ans : MmapAnswers) : Except Fault ((NaClApp × MmapOutcome) × MmapLedger) :=
  if !ans.hostIo then
    .ok ((nap, .done (.error .einval)), [])
  else
    match ans.scratchMap with
    | .error errno => .ok ((nap, .done (.error errno)), [])
    | .ok () =>
      if ans.validates then
        match mmapCodeDirectLedger nap req desc usraddr offset ans with
        | .error fault => .error fault
        | .ok ((nap, result), ledger) => .ok ((nap, .done result), .take .imageView :: ledger)
      else
        .ok ((nap, .copy usraddr (fun i => ans.fileByte (offset + i)) req.length ans.dyncode),
          [.take .imageView])

/-- The part of `mmapAt` that maps the request, once every check has passed. -/
def mmapPlacedLedger (nap : NaClApp) (req : MmapRequest) (usraddr : ℕ) (prot : BitVec 32) (offset : ℤ)
    (ans : MmapAnswers) : Except Fault ((NaClApp × MmapOutcome) × MmapLedger) :=
  match req.mappingCode && 0 < req.length, req.ndp with
  | true, some desc => mmapCodeLedger nap req desc usraddr offset ans
  | _, _ =>
    match mmapData nap req usraddr (prot &&& ~~~protExec) offset ans with
    | .error fault => .error fault
    | .ok (nap, result) => .ok ((nap, .done result), [])

/-- `mmapAt`. -/
def mmapAtLedger (nap : NaClApp) (req : MmapRequest) (usraddr : ℕ) (prot : BitVec 32) (offset : ℤ)
    (ans : MmapAnswers) : Except Fault ((NaClApp × MmapOutcome) × MmapLedger) :=
  match mmapCheckRange nap req usraddr ans.safeForMmap with
  | .error errno => .ok ((nap, .done (.error errno)), [])
  | .ok () =>
    if naclVmIoPending nap usraddr (usub (uadd usraddr req.length) 1) then
      .error .fatal
    else if req.flags &&& mapShared = 0 ↔ req.flags &&& mapPrivate = 0 then
      .ok ((nap, .done (.error .einval)), [])
    else
      match naclUserToSys nap.space usraddr with
      | none => .error .fatal
      | some _ => mmapPlacedLedger nap req usraddr prot offset ans

/-- `mmapLocked` from the lock on. -/
def mmapUnderLockLedger (nap : NaClApp) (req : MmapRequest) (args : MmapArgs) (ans : MmapAnswers) :
    Except Fault ((NaClApp × MmapOutcome) × MmapLedger) :=
  if req.flags &&& mapFixed = 0 then
    match mmapFindSpace nap.memMap req.usraddr req.allocRoundedLength with
    | .error fault => .error (.vmmap fault)
    | .ok (memMap, usrpage) =>
      let nap := { nap with memMap }
      if usrpage = 0 then
        .ok ((nap, .done (.error .enomem)), [])
      else
        mmapAtLedger nap req (ushl usrpage naclPageShift) args.prot args.offset ans
  else
    mmapAtLedger nap req req.usraddr args.prot args.offset ans

/-- `mmapLocked`: the lock and the hole are held from the checks of the arguments on, and are given up
before code is copied in. -/
def mmapLockedLedger (nap : NaClApp) (args : MmapArgs) (ans : MmapAnswers) :
    Except Fault ((NaClApp × MmapOutcome) × MmapLedger) :=
  match mmapCheckArgs nap args ans with
  | .error fault => .error fault
  | .ok (.error errno) => .ok ((nap, .done (.error errno)), [])
  | .ok (.ok req) =>
    (mmapUnderLockLedger nap req args ans).map fun run =>
      (run.1, holding .mu (holding .vmHole run.2))

/-- The call holds a reference to its descriptor, if it has one. -/
def holdingDesc (nap : NaClApp) (args : MmapArgs) (ledger : MmapLedger) : MmapLedger :=
  match mmapDesc nap args with
  | .ok (some _) => holding .desc ledger
  | _ => ledger

/-- `naclSysMmapIntern`: the view goes once the code is copied. -/
def naclSysMmapInternLedger (nap : NaClApp) (args : MmapArgs) (ans : MmapAnswers) :
    Except Fault ((NaClApp × SysResult) × MmapLedger) :=
  match mmapLockedLedger nap args ans with
  | .error fault => .error fault
  | .ok ((nap', .done result), ledger) => .ok ((nap', result), holdingDesc nap args ledger)
  | .ok ((nap', .copy usraddr codeCopy size dyncode), ledger) =>
    (mmapCopy nap' usraddr codeCopy size dyncode).map
      (·, holdingDesc nap args (ledger ++ [.give .imageView]))

/-! ## The ledger aside, this is `naclSysMmapIntern` -/

section

variable {nap nap' : NaClApp} {req : MmapRequest} {desc : NaClDesc} {usraddr : ℕ} {prot : BitVec 32}
  {offset : ℤ} {args : MmapArgs} {ans : MmapAnswers} {memMap : NaClVmmap}

theorem mmapCodeDirectLedger_fst :
    (mmapCodeDirectLedger nap req desc usraddr offset ans).map Prod.fst =
      mmapCodeDirect nap req desc usraddr offset ans := by
  unfold mmapCodeDirectLedger mmapCodeDirect
  cases naclUserToSys nap.space usraddr with
  | none => rfl
  | some sysaddr =>
    dsimp only
    rcases naclDynamicRegionCreate nap.text sysaddr req.length true with ⟨text, _ | _⟩
    · rfl
    · cases ans.map with
      | error errno => rfl
      | ok _ =>
        dsimp only
        unfold mmapCodeResult
        split_ifs
        · rfl
        · rfl

theorem mmapCodeLedger_fst : (mmapCodeLedger nap req desc usraddr offset ans).map Prod.fst =
    mmapCode nap req desc usraddr offset ans := by
  unfold mmapCodeLedger mmapCode
  rw [← mmapCodeDirectLedger_fst]
  generalize mmapCodeDirectLedger nap req desc usraddr offset ans = run
  split_ifs
  · rfl
  · cases ans.scratchMap with
    | error errno => rfl
    | ok _ => cases run with
      | error fault => rfl
      | ok run => rfl
  · cases ans.scratchMap with
    | error errno => rfl
    | ok _ => rfl

theorem mmapPlacedLedger_fst : (mmapPlacedLedger nap req usraddr prot offset ans).map Prod.fst =
    match req.mappingCode && 0 < req.length, req.ndp with
    | true, some desc => mmapCode nap req desc usraddr offset ans
    | _, _ =>
      match mmapData nap req usraddr (prot &&& ~~~protExec) offset ans with
      | .error fault => .error fault
      | .ok (nap, result) => .ok (nap, .done result) := by
  unfold mmapPlacedLedger
  generalize mmapData nap req usraddr (prot &&& ~~~protExec) offset ans = data
  rcases req.mappingCode && 0 < req.length, req.ndp with ⟨_ | _, _ | desc⟩
  · cases data with
    | error fault => rfl
    | ok run => rfl
  · cases data with
    | error fault => rfl
    | ok run => rfl
  · cases data with
    | error fault => rfl
    | ok run => rfl
  · exact mmapCodeLedger_fst

theorem mmapAtLedger_fst : (mmapAtLedger nap req usraddr prot offset ans).map Prod.fst =
    mmapAt nap req usraddr prot offset ans := by
  unfold mmapAtLedger mmapAt
  cases mmapCheckRange nap req usraddr ans.safeForMmap with
  | error errno => rfl
  | ok _ =>
    dsimp only
    split_ifs
    · rfl
    · rfl
    cases naclUserToSys nap.space usraddr with
    | none => rfl
    | some _ =>
      dsimp only
      exact mmapPlacedLedger_fst

theorem mmapUnderLockLedger_fst : (mmapUnderLockLedger nap req args ans).map Prod.fst =
    if req.flags &&& mapFixed = 0 then
      match mmapFindSpace nap.memMap req.usraddr req.allocRoundedLength with
      | .error fault => .error (.vmmap fault)
      | .ok (memMap, usrpage) =>
        if usrpage = 0 then
          .ok ({ nap with memMap }, .done (.error .enomem))
        else
          mmapAt { nap with memMap } req (ushl usrpage naclPageShift) args.prot args.offset ans
    else
      mmapAt nap req req.usraddr args.prot args.offset ans := by
  unfold mmapUnderLockLedger
  split_ifs
  · cases mmapFindSpace nap.memMap req.usraddr req.allocRoundedLength with
    | error fault => rfl
    | ok found =>
      dsimp only
      split_ifs
      · rfl
      · exact mmapAtLedger_fst
  · exact mmapAtLedger_fst

theorem mmapLockedLedger_fst : (mmapLockedLedger nap args ans).map Prod.fst =
    mmapLocked nap args ans := by
  unfold mmapLockedLedger mmapLocked
  cases mmapCheckArgs nap args ans with
  | error fault => rfl
  | ok checked => cases checked with
    | error errno => rfl
    | ok req =>
      refine Eq.trans ?_ mmapUnderLockLedger_fst
      dsimp only
      cases mmapUnderLockLedger nap req args ans with
      | error fault => rfl
      | ok run => rfl

/-- The ledger aside, this is `naclSysMmapIntern`. -/
theorem naclSysMmapInternLedger_fst : (naclSysMmapInternLedger nap args ans).map Prod.fst =
    naclSysMmapIntern nap args ans := by
  unfold naclSysMmapInternLedger naclSysMmapIntern
  rw [← mmapLockedLedger_fst]
  cases mmapLockedLedger nap args ans with
  | error fault => rfl
  | ok run =>
    obtain ⟨⟨mid, outcome⟩, ledger⟩ := run
    cases outcome with
    | done result => rfl
    | copy usraddr codeCopy size dyncode =>
      change Except.map _ (Except.map _ (mmapCopy mid usraddr codeCopy size dyncode)) =
        mmapCopy mid usraddr codeCopy size dyncode
      cases mmapCopy mid usraddr codeCopy size dyncode with
      | error fault => rfl
      | ok run => rfl

/-! ## How far the call gets -/

/-- The call has passed every check and maps `req` at `usraddr`; `memMap` is the map as the search for
an address leaves it. -/
structure MmapPlaces (nap : NaClApp) (args : MmapArgs) (ans : MmapAnswers) (req : MmapRequest)
    (usraddr : ℕ) (memMap : NaClVmmap) : Prop where
  checked : mmapCheckArgs nap args ans = .ok (.ok req)
  place : req.flags &&& mapFixed ≠ 0 ∧ usraddr = req.usraddr ∧ memMap = nap.memMap ∨
    req.flags &&& mapFixed = 0 ∧ ∃ usrpage, usrpage ≠ 0 ∧ usraddr = ushl usrpage naclPageShift ∧
      mmapFindSpace nap.memMap req.usraddr req.allocRoundedLength = .ok (memMap, usrpage)
  range : mmapCheckRange nap req usraddr ans.safeForMmap = .ok ()
  not_pending : naclVmIoPending nap usraddr (usub (uadd usraddr req.length) 1) = false
  shared : ¬ (req.flags &&& mapShared = 0 ↔ req.flags &&& mapPrivate = 0)
  user : naclUserToSys nap.space usraddr ≠ none

theorem mmapAtLedger_eq (hrange : mmapCheckRange nap req usraddr ans.safeForMmap = .ok ())
    (hpending : naclVmIoPending nap usraddr (usub (uadd usraddr req.length) 1) = false)
    (hshared : ¬ (req.flags &&& mapShared = 0 ↔ req.flags &&& mapPrivate = 0))
    (huser : naclUserToSys nap.space usraddr ≠ none) :
    mmapAtLedger nap req usraddr prot offset ans =
      mmapPlacedLedger nap req usraddr prot offset ans := by
  obtain ⟨sysaddr, hsys⟩ := Option.ne_none_iff_exists'.1 huser
  unfold mmapAtLedger
  rw [hrange]
  dsimp only
  rw [hpending, if_neg Bool.false_ne_true, if_neg hshared, hsys]

theorem mmapAtLedger_cases {run : (NaClApp × MmapOutcome) × MmapLedger}
    (hrun : mmapAtLedger nap req usraddr prot offset ans = .ok run) :
    (mmapCheckRange nap req usraddr ans.safeForMmap = .ok () ∧
      naclVmIoPending nap usraddr (usub (uadd usraddr req.length) 1) = false ∧
      ¬ (req.flags &&& mapShared = 0 ↔ req.flags &&& mapPrivate = 0) ∧
      naclUserToSys nap.space usraddr ≠ none) ∨
    ∃ errno, run = ((nap, .done (.error errno)), []) := by
  unfold mmapAtLedger at hrun
  split at hrun
  · cases hrun
    exact Or.inr ⟨_, rfl⟩
  · next hrange =>
    split_ifs at hrun with hpending hshared
    · cases hrun
      exact Or.inr ⟨_, rfl⟩
    · split at hrun
      · cases hrun
      · next hsys =>
        exact Or.inl ⟨hrange, Bool.eq_false_iff.2 hpending, hshared, hsys ▸ Option.some_ne_none _⟩

theorem MmapPlaces.mmapLockedLedger_eq (h : MmapPlaces nap args ans req usraddr memMap) :
    mmapLockedLedger nap args ans =
      (mmapPlacedLedger { nap with memMap } req usraddr args.prot args.offset ans).map fun run =>
        (run.1, holding .mu (holding .vmHole run.2)) := by
  have hat : mmapAtLedger { nap with memMap } req usraddr args.prot args.offset ans =
      mmapPlacedLedger { nap with memMap } req usraddr args.prot args.offset ans :=
    mmapAtLedger_eq h.range h.not_pending h.shared h.user
  unfold mmapLockedLedger mmapUnderLockLedger
  rw [h.checked]
  dsimp only
  rcases h.place with ⟨hfix, rfl, rfl⟩ | ⟨hfix, usrpage, hpage, rfl, hfind⟩
  · rw [if_neg hfix]
    exact congrArg _ hat
  · rw [if_pos hfix, hfind]
    dsimp only
    rw [if_neg hpage, hat]

theorem mmapLockedLedger_cases {outcome : MmapOutcome} {ledger : MmapLedger}
    (h : nap.memMap.WellFormed)
    (hrun : mmapLockedLedger nap args ans = .ok ((nap', outcome), ledger)) :
    (∃ req usraddr memMap, MmapPlaces nap args ans req usraddr memMap ∧
      nap.memMap.Reordered memMap) ∨
    (∃ errno memMap, outcome = .done (.error errno) ∧ nap.memMap.Reordered memMap ∧
      nap' = { nap with memMap } ∧ (ledger = [] ∨ ledger = holding .mu (holding .vmHole []))) := by
  unfold mmapLockedLedger at hrun
  split at hrun
  · cases hrun
  · cases hrun
    exact Or.inr ⟨_, nap.memMap, rfl, .refl h, rfl, Or.inl rfl⟩
  · next req hchecked =>
    cases hunder : mmapUnderLockLedger nap req args ans with
    | error fault =>
      rw [hunder] at hrun
      cases hrun
    | ok run =>
      obtain ⟨⟨mid, out⟩, held⟩ := run
      rw [hunder] at hrun
      cases hrun
      unfold mmapUnderLockLedger at hunder
      split_ifs at hunder with hfix
      · split at hunder
        · cases hunder
        · next memMap usrpage hfind =>
          have hmap := reordered_of_mmapFindSpace h hfind
          dsimp only at hunder
          split_ifs at hunder with hpage
          · cases hunder
            exact Or.inr ⟨_, memMap, rfl, hmap, rfl, Or.inr rfl⟩
          · rcases mmapAtLedger_cases hunder with ⟨hrange, hpending, hshared, huser⟩ | ⟨errno, heq⟩
            · exact Or.inl ⟨req, _, memMap, ⟨hchecked, Or.inr ⟨hfix, usrpage, hpage, rfl, hfind⟩,
                hrange, hpending, hshared, huser⟩, hmap⟩
            · cases heq
              exact Or.inr ⟨errno, memMap, rfl, hmap, rfl, Or.inr rfl⟩
      · rcases mmapAtLedger_cases hunder with ⟨hrange, hpending, hshared, huser⟩ | ⟨errno, heq⟩
        · exact Or.inl ⟨req, _, nap.memMap, ⟨hchecked, Or.inl ⟨hfix, rfl, rfl⟩, hrange, hpending,
            hshared, huser⟩, .refl h⟩
        · cases heq
          exact Or.inr ⟨errno, nap.memMap, rfl, .refl h, rfl, Or.inr rfl⟩

/-! ## The exits that leave something behind -/

/-- The request maps code from a file of the host, and the temporary view of it can be had. -/
structure MmapRequest.ViewsCode (req : MmapRequest) (ans : MmapAnswers) : Prop where
  code : (req.mappingCode && 0 < req.length) = true
  ndp : req.ndp ≠ none
  hostIo : ans.hostIo = true
  scratch : ans.scratchMap = .ok ()

/-- The code is valid as it is, and the place for it is taken. -/
structure MmapOverlaps (nap : NaClApp) (req : MmapRequest) (usraddr : ℕ) (ans : MmapAnswers) :
    Prop where
  views : req.ViewsCode ans
  validates : ans.validates = true
  taken : ∃ sysaddr, naclUserToSys nap.space usraddr = some sysaddr ∧
    naclDynamicRegionFind nap.text.regions sysaddr req.length ≠ none

/-- The code has to be copied into a place that is free, and the writable view for it cannot be had. -/
structure MmapCopyFails (nap : NaClApp) (req : MmapRequest) (usraddr : ℕ) (offset : ℤ)
    (ans : MmapAnswers) : Prop where
  views : req.ViewsCode ans
  validates : ans.validates = false
  admitted : DyncodeAdmitted nap usraddr (fun i => ans.fileByte (offset + i)) req.length ans.dyncode
  free : naclDynamicRegionFind nap.text.regions
    (naclUserToSysAddrRange nap.space usraddr req.length) req.length = none
  view : ¬ WritableViewMaps nap usraddr req.length ans.dyncode.shmMap

/-- The part of the data that the file has is mapped over something else, and the rest cannot be made
inaccessible. -/
structure MmapTailFails (nap : NaClApp) (req : MmapRequest) (usraddr : ℕ) (prot : BitVec 32)
    (offset : ℤ) (ans : MmapAnswers) : Prop where
  data : (req.mappingCode && 0 < req.length) = false ∨ req.ndp = none
  length_pos : 0 < req.length
  length_lt : req.length < req.allocRoundedLength
  map : naclDescMap (prot &&& ~~~protExec) ans.map = .ok ()
  munmap : ∃ errno, ans.munmap = .error errno
  mem : mmapBacked nap.mem req usraddr (prot &&& ~~~protExec) offset ans.fileByte ≠ nap.mem

/-- A negative return leaves the memory map, the table of regions and the host's pages as they were. -/
structure MmapUnchanged (nap nap' : NaClApp) : Prop where
  pageMap : nap'.memMap.pageMap = nap.memMap.pageMap
  regions : nap'.text.regions = nap.text.regions
  mem : nap'.mem = nap.mem

theorem MmapUnchanged.refl (nap : NaClApp) : MmapUnchanged nap nap := ⟨rfl, rfl, rfl⟩

theorem mmapRecord_error {munmap : Except NaClAbiErrno Unit} {errno : NaClAbiErrno}
    (hrun : mmapRecord nap req usraddr prot offset munmap = .ok (nap', .error errno)) :
    nap' = nap ∧ req.length < req.allocRoundedLength ∧ munmap = .error errno := by
  unfold mmapRecord at hrun
  split_ifs at hrun with hlt
  · unfold munmapInternal at hrun
    cases munmap with
    | error e =>
      cases hrun
      exact ⟨rfl, hlt, rfl⟩
    | ok _ =>
      exfalso
      dsimp only at hrun
      split at hrun
      · cases hrun
      · next hremove =>
        split at hremove
        · cases hremove
        · cases hremove
      · split at hrun
        · cases hrun
        · cases hrun
  · exfalso
    dsimp only at hrun
    split at hrun
    · cases hrun
    · cases hrun

theorem mmapData_error {errno : NaClAbiErrno}
    (h : ¬ MmapTailFails nap req usraddr prot offset ans)
    (hdata : (req.mappingCode && 0 < req.length) = false ∨ req.ndp = none)
    (hrun : mmapData nap req usraddr (prot &&& ~~~protExec) offset ans =
      .ok (nap', .error errno)) : MmapUnchanged nap nap' := by
  unfold mmapData at hrun
  split_ifs at hrun with hpos
  · split at hrun
    · cases hrun
    · cases hrun
      exact .refl nap
    · next hmap =>
      obtain ⟨rfl, hlt, hmunmap⟩ := mmapRecord_error hrun
      have hmem := not_not.1 fun hmem => h ⟨hdata, hpos, hlt, hmap, ⟨_, hmunmap⟩, hmem⟩
      exact ⟨rfl, rfl, hmem⟩
  · obtain ⟨rfl, -⟩ := mmapRecord_error hrun
    exact .refl _

theorem mmapCodeDirectLedger_cases {r : SysResult} {ledger : MmapLedger} (hviews : req.ViewsCode ans)
    (hvalid : ans.validates = true) (h : ¬ MmapOverlaps nap req usraddr ans)
    (hrun : mmapCodeDirectLedger nap req desc usraddr offset ans = .ok ((nap', r), ledger)) :
    ledger = [.give .imageView] ∧ ∃ v, r = .ok v := by
  unfold mmapCodeDirectLedger at hrun
  split at hrun
  · cases hrun
  · next sysaddr huser =>
    have hfree : naclDynamicRegionFind nap.text.regions sysaddr req.length = none :=
      not_not.1 fun htaken => h ⟨hviews, hvalid, sysaddr, huser, htaken⟩
    obtain ⟨regions, hcreate, -⟩ :
      ∃ regions, naclDynamicRegionCreate nap.text sysaddr req.length true =
        ({ growRegions nap.text with regions }, true) ∧ _ := naclDynamicRegionCreate_of_untaken hfree
    rw [hcreate] at hrun
    dsimp only at hrun
    split at hrun
    · cases hrun
    · unfold mmapCodeResult at hrun
      split_ifs at hrun
      · cases hrun
        exact ⟨rfl, _, rfl⟩
      · cases hrun

theorem mmapPlacedLedger_done {r : SysResult} {ledger : MmapLedger}
    (hoverlaps : ¬ MmapOverlaps nap req usraddr ans)
    (htail : ¬ MmapTailFails nap req usraddr prot offset ans)
    (hrun : mmapPlacedLedger nap req usraddr prot offset ans = .ok ((nap', .done r), ledger)) :
    (ledger = [] ∨ ledger = holding .imageView []) ∧
      ∀ errno, r = .error errno → MmapUnchanged nap nap' := by
  unfold mmapPlacedLedger at hrun
  split at hrun
  · next desc hcode hndp =>
    unfold mmapCodeLedger at hrun
    split_ifs at hrun with hhost hvalid
    · cases hrun
      exact ⟨Or.inl rfl, fun _ _ => .refl nap⟩
    · split at hrun
      · cases hrun
        exact ⟨Or.inl rfl, fun _ _ => .refl nap⟩
      · next hscratch =>
        split at hrun
        · cases hrun
        · next hdirect =>
          cases hrun
          have hviews : req.ViewsCode ans :=
            ⟨hcode, hndp ▸ Option.some_ne_none _, by simpa using hhost, hscratch⟩
          obtain ⟨rfl, v, rfl⟩ := mmapCodeDirectLedger_cases hviews hvalid hoverlaps hdirect
          exact ⟨Or.inr rfl, nofun⟩
    · split at hrun
      · cases hrun
        exact ⟨Or.inl rfl, fun _ _ => .refl nap⟩
      · cases hrun
  · next hdata =>
    split at hrun
    · cases hrun
    · next hmid =>
      cases hrun
      refine ⟨Or.inl rfl, fun errno herr => ?_⟩
      rw [herr] at hmid
      refine mmapData_error htail ?_ hmid
      by_contra hnot
      rw [not_or, Bool.not_eq_false] at hnot
      obtain ⟨desc, hdesc⟩ := Option.ne_none_iff_exists'.1 hnot.2
      exact hdata desc hnot.1 hdesc

theorem mmapPlacedLedger_copy {addr size : ℕ} {code : ℕ → UInt8} {dyncode : DyncodeAnswers}
    {ledger : MmapLedger}
    (hrun : mmapPlacedLedger nap req usraddr prot offset ans =
      .ok ((nap', .copy addr code size dyncode), ledger)) :
    ledger = [.take .imageView] ∧ nap' = nap ∧ req.ViewsCode ans ∧ ans.validates = false ∧
      addr = usraddr ∧ code = (fun i : ℕ => ans.fileByte (offset + i)) ∧ size = req.length ∧
      dyncode = ans.dyncode := by
  unfold mmapPlacedLedger at hrun
  split at hrun
  · next desc hcode hndp =>
    unfold mmapCodeLedger at hrun
    split_ifs at hrun with hhost hvalid
    · cases hrun
    · split at hrun
      · cases hrun
      · split at hrun
        · cases hrun
        · cases hrun
    · split at hrun
      · cases hrun
      · next hscratch =>
        cases hrun
        exact ⟨rfl, rfl, ⟨hcode, hndp ▸ Option.some_ne_none _, by simpa using hhost, hscratch⟩,
          Bool.eq_false_iff.2 hvalid, rfl, rfl, rfl, rfl⟩
  · split at hrun
    · cases hrun
    · cases hrun

theorem mmapCopy_error {addr size : ℕ} {code : ℕ → UInt8} {dyncode : DyncodeAnswers}
    {errno : NaClAbiErrno}
    (h : ¬ (DyncodeAdmitted nap addr code size dyncode ∧
      naclDynamicRegionFind nap.text.regions (naclUserToSysAddrRange nap.space addr size) size = none ∧
      ¬ WritableViewMaps nap addr size dyncode.shmMap))
    (hrun : mmapCopy nap addr code size dyncode = .ok (nap', .error errno)) :
    MmapUnchanged nap nap' := by
  unfold mmapCopy at hrun
  split at hrun
  · cases hrun
  · next hcreate =>
    cases hrun
    obtain ⟨n, rfl, -⟩ := withAllocated_of_error h hcreate
    exact ⟨rfl, rfl, rfl⟩
  · unfold mmapCodeResult at hrun
    split_ifs at hrun
    cases hrun

/-! ## Every exit -/

theorem settled_holdingDesc {ledger : MmapLedger} (hdesc : about .desc ledger = [])
    (h : ∀ r, Settled r ledger) (r : MmapResource) : Settled r (holdingDesc nap args ledger) := by
  unfold holdingDesc
  split
  · by_cases hr : .desc = r
    · rw [← hr]
      exact settled_holding_self hdesc
    · exact (settled_holding_of_ne hr).2 (h r)
  · exact h r

theorem settled_of_done {ledger : MmapLedger} (h : ledger = [] ∨ ledger = holding .imageView [])
    (r : MmapResource) : Settled r (holdingDesc nap args (holding .mu (holding .vmHole ledger))) := by
  rcases h with rfl | rfl
  · exact settled_holdingDesc rfl (fun r => by cases r <;> decide) r
  · exact settled_holdingDesc rfl (fun r => by cases r <;> decide) r

/-- The call releases what it holds: on every return, its references, its locks and the view of the
file are settled, and a negative one leaves the memory map, the regions and the pages as they were. -/
def MmapReleases (nap : NaClApp) (args : MmapArgs) (ans : MmapAnswers) : Prop :=
  ∀ nap' result ledger, naclSysMmapInternLedger nap args ans = .ok ((nap', result), ledger) →
    (∀ r, Settled r ledger) ∧ ∀ errno, result = .error errno → MmapUnchanged nap nap'

/-- The call gets to one of the exits that leave something behind. -/
def MmapSpoils (nap : NaClApp) (args : MmapArgs) (ans : MmapAnswers) : Prop :=
  ∃ req usraddr memMap, MmapPlaces nap args ans req usraddr memMap ∧
    (MmapOverlaps nap req usraddr ans ∨ MmapCopyFails nap req usraddr args.offset ans ∨
      MmapTailFails nap req usraddr args.prot args.offset ans)

theorem MmapUnchanged.of_memMap (hmap : nap.memMap.Reordered memMap)
    (h : MmapUnchanged { nap with memMap } nap') : MmapUnchanged nap nap' :=
  ⟨h.pageMap.trans hmap.pageMap_eq, h.regions, h.mem⟩

theorem mmapCopy_releases {r : SysResult} {ledger : MmapLedger} {code : ℕ → UInt8}
    (hcode : code = fun i : ℕ => ans.fileByte (offset + i)) (hviews : req.ViewsCode ans)
    (hvalid : ans.validates = false) (h : ¬ MmapCopyFails nap req usraddr offset ans)
    (hrun : (mmapCopy nap usraddr code req.length ans.dyncode).map
      (·, holdingDesc nap args (holding .mu (holding .vmHole [.take .imageView]) ++
        [.give .imageView])) = .ok ((nap', r), ledger)) :
    (∀ r, Settled r ledger) ∧ ∀ errno, r = .error errno → MmapUnchanged nap nap' := by
  cases hcopy : mmapCopy nap usraddr code req.length ans.dyncode with
  | error fault =>
    rw [hcopy] at hrun
    cases hrun
  | ok run =>
    rw [hcopy] at hrun
    cases hrun
    refine ⟨settled_holdingDesc rfl (fun r => by cases r <;> decide), fun errno herr => ?_⟩
    rw [herr] at hcopy
    refine mmapCopy_error (fun hfails => h ?_) hcopy
    rw [hcode] at hfails
    exact ⟨hviews, hvalid, hfails.1, hfails.2.1, hfails.2.2⟩

theorem mmapReleases_of_not_spoils (hwf : nap.memMap.WellFormed) (h : ¬ MmapSpoils nap args ans) :
    MmapReleases nap args ans := by
  intro nap' result ledger hrun
  unfold naclSysMmapInternLedger at hrun
  cases hlocked : mmapLockedLedger nap args ans with
  | error fault =>
    rw [hlocked] at hrun
    cases hrun
  | ok run =>
    obtain ⟨⟨mid, outcome⟩, held⟩ := run
    rw [hlocked] at hrun
    rcases mmapLockedLedger_cases hwf hlocked with ⟨req, usraddr, memMap, hplaces, hmap⟩ |
      ⟨errno, memMap, rfl, hmap, rfl, hheld⟩
    · have hoverlaps : ¬ MmapOverlaps { nap with memMap } req usraddr ans := fun hoverlaps =>
        h ⟨req, usraddr, memMap, hplaces, Or.inl { hoverlaps with }⟩
      have hcopy : ¬ MmapCopyFails { nap with memMap } req usraddr args.offset ans := fun hcopy =>
        h ⟨req, usraddr, memMap, hplaces, Or.inr (Or.inl
          { hcopy with admitted := { hcopy.admitted with } })⟩
      have htail : ¬ MmapTailFails { nap with memMap } req usraddr args.prot args.offset ans :=
        fun htail => h ⟨req, usraddr, memMap, hplaces, Or.inr (Or.inr { htail with })⟩
      rw [hplaces.mmapLockedLedger_eq] at hlocked
      cases hplaced : mmapPlacedLedger { nap with memMap } req usraddr args.prot args.offset ans with
      | error fault =>
        rw [hplaced] at hlocked
        cases hlocked
      | ok run =>
        rw [hplaced] at hlocked
        obtain ⟨⟨mid', outcome'⟩, held'⟩ := run
        cases hlocked
        cases outcome with
        | done r =>
          cases hrun
          obtain ⟨hheld, herror⟩ := mmapPlacedLedger_done hoverlaps htail hplaced
          exact ⟨settled_of_done hheld, fun errno herr => (herror errno herr).of_memMap hmap⟩
        | copy addr code size dyncode =>
          obtain ⟨rfl, rfl, hviews, hvalid, rfl, hcode, rfl, rfl⟩ :=
            mmapPlacedLedger_copy hplaced
          obtain ⟨hsettled, herror⟩ := mmapCopy_releases hcode hviews hvalid hcopy hrun
          exact ⟨hsettled, fun errno herr => (herror errno herr).of_memMap hmap⟩
    · cases hrun
      refine ⟨?_, fun _ _ => .of_memMap hmap (.refl _)⟩
      rcases hheld with rfl | rfl
      · exact settled_holdingDesc rfl settled_nil
      · exact settled_of_done (Or.inl rfl)

theorem MmapPlaces.done {r : SysResult} {ledger : MmapLedger}
    (h : MmapPlaces nap args ans req usraddr memMap)
    (hrun : mmapPlacedLedger { nap with memMap } req usraddr args.prot args.offset ans =
      .ok ((nap', .done r), ledger)) :
    naclSysMmapInternLedger nap args ans =
      .ok ((nap', r), holdingDesc nap args (holding .mu (holding .vmHole ledger))) := by
  unfold naclSysMmapInternLedger
  rw [h.mmapLockedLedger_eq, hrun]
  rfl

theorem about_imageView_holdingDesc (ledger : MmapLedger) :
    about .imageView (holdingDesc nap args (holding .mu (holding .vmHole ledger))) =
      about .imageView ledger := by
  have hlock : about .imageView (holding .mu (holding .vmHole ledger)) = about .imageView ledger := by
    rw [about_holding_of_ne (by decide), about_holding_of_ne (by decide)]
  unfold holdingDesc
  split
  · rw [about_holding_of_ne (by decide), hlock]
  · exact hlock

theorem mmapCodeDirectLedger_of_taken {sysaddr : ℕ}
    (huser : naclUserToSys nap.space usraddr = some sysaddr)
    (htaken : naclDynamicRegionFind nap.text.regions sysaddr req.length ≠ none) :
    mmapCodeDirectLedger nap req desc usraddr offset ans =
      .ok (({ nap with text := growRegions nap.text }, .error .einval), []) := by
  unfold mmapCodeDirectLedger
  rw [huser]
  dsimp only
  rw [naclDynamicRegionCreate_of_taken htaken]

theorem mmapPlacedLedger_of_views (h : req.ViewsCode ans) : ∃ desc,
    mmapPlacedLedger nap req usraddr prot offset ans =
      if ans.validates then
        (mmapCodeDirectLedger nap req desc usraddr offset ans).map fun run =>
          ((run.1.1, .done run.1.2), .take .imageView :: run.2)
      else
        .ok ((nap, .copy usraddr (fun i => ans.fileByte (offset + i)) req.length ans.dyncode),
          [.take .imageView]) := by
  obtain ⟨desc, hdesc⟩ := Option.ne_none_iff_exists'.1 h.ndp
  refine ⟨desc, ?_⟩
  unfold mmapPlacedLedger mmapCodeLedger
  rw [h.code, hdesc]
  dsimp only
  rw [h.hostIo, h.scratch]
  refine (if_neg (by decide)).trans ?_
  dsimp only
  split_ifs
  · cases mmapCodeDirectLedger nap req desc usraddr offset ans with
    | error fault => rfl
    | ok run => rfl
  · rfl

theorem MmapOverlaps.not_releases (h : MmapOverlaps nap req usraddr ans)
    (hplaces : MmapPlaces nap args ans req usraddr memMap) : ¬ MmapReleases nap args ans := by
  intro hreleases
  obtain ⟨sysaddr, huser, htaken⟩ := h.taken
  have hplaced : mmapPlacedLedger { nap with memMap } req usraddr args.prot args.offset ans =
      .ok (({ nap with memMap, text := growRegions nap.text }, .done (.error .einval)),
        [.take .imageView]) := by
    obtain ⟨desc, hplaced⟩ := mmapPlacedLedger_of_views h.views
    have hdirect := @mmapCodeDirectLedger_of_taken { nap with memMap } req desc usraddr args.offset ans
      sysaddr huser htaken
    rw [hplaced, if_pos h.validates, hdirect]
    rfl
  have hsettled := (hreleases _ _ _ (hplaces.done hplaced)).1 .imageView
  unfold Settled at hsettled
  rw [about_imageView_holdingDesc] at hsettled
  revert hsettled
  decide

theorem MmapCopyFails.not_releases (h : MmapCopyFails nap req usraddr args.offset ans)
    (hplaces : MmapPlaces nap args ans req usraddr memMap) : ¬ MmapReleases nap args ans := by
  intro hreleases
  obtain ⟨desc, hplaced⟩ :=
    @mmapPlacedLedger_of_views { nap with memMap } req usraddr args.prot args.offset ans h.views
  rw [h.validates, if_neg Bool.false_ne_true] at hplaced
  have hadmitted : DyncodeAdmitted { nap with memMap } usraddr
      (fun i => ans.fileByte (args.offset + i)) req.length ans.dyncode := { h.admitted with }
  obtain ⟨nap', hinstall, -, hlen⟩ := @installDyncode_of_not_maps { nap with memMap } usraddr req.length
    (dyncodeValidation nap (fun i => ans.fileByte (args.offset + i)) ans.dyncode).2 _ _ h.free h.view
  have hcreate := (naclTextDyncodeCreate_of_admitted hadmitted).trans hinstall
  have hcopy : mmapCopy { nap with memMap } usraddr (fun i => ans.fileByte (args.offset + i)) req.length
      ans.dyncode = .ok (nap', .error .enomem) := by
    unfold mmapCopy
    rw [hcreate]
  have hrun : naclSysMmapInternLedger nap args ans = .ok ((nap', .error .enomem), holdingDesc nap args
      (holding .mu (holding .vmHole [.take .imageView]) ++ [.give .imageView])) := by
    unfold naclSysMmapInternLedger
    rw [hplaces.mmapLockedLedger_eq, hplaced]
    change Except.map _ (mmapCopy { nap with memMap } _ _ _ _) = _
    rw [hcopy]
    rfl
  have hregions := ((hreleases _ _ _ hrun).2 _ rfl).regions
  rw [hregions] at hlen
  exact Nat.succ_ne_self _ hlen.symm

theorem MmapTailFails.not_releases (h : MmapTailFails nap req usraddr args.prot args.offset ans)
    (hplaces : MmapPlaces nap args ans req usraddr memMap) : ¬ MmapReleases nap args ans := by
  intro hreleases
  obtain ⟨errno, hmunmap⟩ := h.munmap
  have hdata : mmapData { nap with memMap } req usraddr (args.prot &&& ~~~protExec) args.offset ans =
      .ok ({ nap with
        memMap
        mem := mmapBacked nap.mem req usraddr (args.prot &&& ~~~protExec) args.offset ans.fileByte },
          .error errno) := by
    unfold mmapData mmapRecord munmapInternal
    rw [if_pos h.length_pos, h.map]
    dsimp only
    rw [if_pos h.length_lt, hmunmap]
  have hplaced : mmapPlacedLedger { nap with memMap } req usraddr args.prot args.offset ans =
      .ok (({ nap with
        memMap
        mem := mmapBacked nap.mem req usraddr (args.prot &&& ~~~protExec) args.offset ans.fileByte },
          .done (.error errno)), []) := by
    unfold mmapPlacedLedger
    rw [hdata]
    rcases h.data with hcode | hnone
    · rw [hcode]
    · rw [hnone]
      cases req.mappingCode && 0 < req.length
      · rfl
      · rfl
  exact h.mem ((hreleases _ _ _ (hplaces.done hplaced)).2 errno rfl).mem

/-- `NaClSysMmapIntern` releases what it holds and leaves nothing behind unless valid code meets a
region, a copy of code has no writable view, or the tail of a file cannot be made inaccessible. -/
theorem mmapReleases_iff (h : nap.memMap.WellFormed) :
    MmapReleases nap args ans ↔ ¬ MmapSpoils nap args ans := by
  constructor
  · rintro hreleases ⟨req, usraddr, memMap, hplaces, hoverlaps | hcopy | htail⟩
    · exact hoverlaps.not_releases hplaces hreleases
    · exact hcopy.not_releases hplaces hreleases
    · exact htail.not_releases hplaces hreleases
  · exact mmapReleases_of_not_spoils h

/-- A sandbox that has mapped a page of code at `0x20000`. -/
def mappedCodeApp : NaClApp :=
  { smallApp with
    desc := fun _ => some ⟨0, 2, readWrite_ne⟩
    text := { smallApp.text with
      regions := [⟨smallApp.space.memStart + 0x20000, 0x10000, -1, true⟩]
      regionsAllocated := kMinDynamicRegionsAllocated } }

def mapCodeArgs : MmapArgs :=
  ⟨0x20000, 0x10000, protRead ||| protExec, mapPrivate ||| mapFixed, 0, 0⟩

/-- The answers of a file of valid code. -/
def mapCodeAnswers : MmapAnswers where
  fstat := .ok ⟨0x10000, true, by decide⟩
  safeForMmap := true
  hostIo := true
  scratchMap := .ok ()
  validates := true
  map := .ok ()
  munmap := .ok ()
  fileByte := fun _ => 0x90
  dyncode := ⟨fun code => (true, code), true⟩

/-- The first time, the place is free. -/
theorem mmapReleases_iff_smallApp :
    MmapReleases { smallApp with desc := mappedCodeApp.desc } mapCodeArgs mapCodeAnswers ↔
      ¬ MmapSpoils { smallApp with desc := mappedCodeApp.desc } mapCodeArgs mapCodeAnswers :=
  mmapReleases_iff smallApp_wellFormed

/-- Valid code that is mapped twice at the same place. -/
theorem not_mmapReleases : ¬ ∀ (nap : NaClApp) args ans, nap.memMap.WellFormed →
    MmapReleases nap args ans := by
  intro h
  obtain ⟨⟨⟨nap', r⟩, ledger⟩, hrun, hview⟩ : ∃ run, naclSysMmapInternLedger mappedCodeApp mapCodeArgs
      mapCodeAnswers = .ok run ∧ ¬ Settled .imageView run.2 :=
    Runs.exists_ok_of_check (fun run => decide (¬ Settled .imageView run.2))
      (fun _ hrun => of_decide_eq_true hrun) (by decide +kernel)
  exact hview ((h mappedCodeApp mapCodeArgs mapCodeAnswers smallApp_wellFormed _ _ _ hrun).1 _)

end

end SandboxingNaCl
