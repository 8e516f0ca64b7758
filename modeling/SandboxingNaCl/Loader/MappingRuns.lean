import SandboxingNaCl.Loader.MemoryProtection
import SandboxingNaCl.Service.ListMappings

/-!
# Listing the mappings after any run

What happens to the map and to the table of dynamic regions between loading an image and listing the
mappings: system calls, segments of a second image, and untrusted code that writes to its memory.
-/

namespace SandboxingNaCl

open MachineInt PagedMemory Runs

/-- What the descriptor and the host answer while a data segment is loaded: to mapping the memory,
whether the file can be read and what it holds, by address, and whether its protection can be
changed. -/
structure DataSegmentAnswers where
  mmap : MmapAnswers
  read : Bool
  fileByte : ℕ → UInt8
  mprotect : Bool

/-- The part of `NaClElfImageLoadDynamically` that makes a data segment read-only. -/
def protectDataSegment (nap : NaClApp) (vaddr mappingSize : ℕ) (host : Bool) :
    Except Fault (NaClApp × Except NaClErrorCode Unit) :=
  if !host then
    .ok (nap, .error .mprotectFail)
  else
    match naclVmmapAddWithOverwrite nap.memMap (vaddr / 2 ^ naclPageShift)
      (mappingSize / 2 ^ naclPageShift) protRead mapPrivate none 0 0 with
    | .error fault => .error (.vmmap fault)
    | .ok memMap =>
      .ok ({ nap with
        memMap
        mem := nap.mem.mprotect (vaddr / naclPageSize) ((vaddr + mappingSize) / naclPageSize)
          protRead }, .ok ())

/-- The part of `NaClElfImageLoadDynamically` that fills a data segment once it is mapped. -/
def fillDataSegment (nap : NaClApp) (php : ElfPhdr) (vaddr filesz mappingSize : ℕ)
    (ans : DataSegmentAnswers) : Except Fault (NaClApp × Except NaClErrorCode Unit) :=
  let nap := { nap with mem := nap.mem.write vaddr (vaddr + filesz) ans.fileByte }
  if !ans.read then
    .ok (nap, .error .readError)
  else if php.pFlags &&& pfW = 0 then
    protectDataSegment nap vaddr mappingSize ans.mprotect
  else
    .ok (nap, .ok ())

/-- The part of `NaClElfImageLoadDynamically` that loads a segment that is not code. -/
def loadDataSegment (nap : NaClApp) (php : ElfPhdr) (ans : DataSegmentAnswers) :
    Except Fault (NaClApp × Except NaClErrorCode Unit) :=
  let vaddr := naclTruncAllocPage php.pVaddr.toNat
  let offset := php.pOffset &&& ~~~BitVec.ofNat 32 (naclMapPageSize - 1)
  let filesz := php.pOffset + php.pFilesz - offset
  let memsz := php.pOffset + php.pMemsz - offset
  if memsz < filesz then
    .ok (nap, .error .unloadable)
  else
    match naclUserToSys nap.space vaddr with
    | none => .error .fatal
    | some _ =>
      let mappingSize := naclRoundAllocPage memsz.toNat
      match naclSysMmapIntern nap ⟨vaddr, mappingSize, protReadWrite,
        mapAnonymous ||| mapPrivate, -1, 0⟩ ans.mmap with
      | .error fault => .error fault
      | .ok (nap, .error _) => .ok (nap, .error .unloadable)
      | .ok (nap, .ok addr) =>
        if addr ≠ vaddr then
          .ok (nap, .error .unloadable)
        else
          fillDataSegment nap php vaddr filesz.toNat mappingSize ans

/-- What can happen; a segment with code is loaded by `SysCall.textDyncodeCreate`. -/
inductive MapAction
  | sys (call : SysCall)
  | dyncodeModify (dest src size : BitVec 32) (ans : ModifyAnswers)
  | loadData (php : ElfPhdr) (ans : DataSegmentAnswers)
  | listMappings (enable : Bool) (realloc : ℕ → Bool) (regions count : BitVec 32)
  /-- Untrusted code runs, and writes to any of its memory. -/
  | untrusted (byte : ℕ → UInt8)

/-- The state afterwards, whatever the result. -/
def MapAction.step (nap : NaClApp) : MapAction → Except Fault NaClApp
  | .sys call => call.step nap
  | .dyncodeModify dest src size ans =>
    (naclSysDyncodeModify nap dest.toNat src.toNat size.toNat ans).map Prod.fst
  | .loadData php ans => (loadDataSegment nap php ans).map Prod.fst
  | .listMappings enable realloc regions count =>
    (naclSysListMappings nap enable realloc regions count).map Prod.fst
  | .untrusted byte => .ok { nap with mem := { nap.mem with byte } }

/-- It creates code up to `2 ^ 32`. -/
def MapAction.CreatesToTop (nap : NaClApp) : MapAction → Prop
  | .sys call => call.CreatesToTop nap
  | _ => False

section

variable {nap nap' : NaClApp} {r : SysResult}

theorem NaClApp.MappingsSound.of_reordered (h : nap.MappingsSound)
    (hmap : nap.memMap.Reordered nap'.memMap)
    (heq : nap' = { nap with memMap := nap'.memMap, mem := nap'.mem }) : nap'.MappingsSound := by
  have hsound : nap'.Sound := by
    obtain ⟨h₁, h₂, h₃, h₄, h₅⟩ := h.sound.text.layout
    refine ⟨?_, hmap.wellFormed⟩
    rw [heq]
    exact ⟨⟨h₁, h₂, h₃, h₄, h₅⟩, h.sound.text.end_lt, h.sound.text.mapcache⟩
  refine h.of_map ?_ hsound (.of_perm _ _ hmap.perm) h.null_le fun _ => le_rfl
  rw [heq]

/-! ## Modifying code -/

/-- The table of regions is not touched. -/
structure TableKept (nap nap' : NaClApp) : Prop where
  step : TextStep nap nap'
  table : SameTable nap.text nap'.text
  mapcache : nap'.text.MapcacheSound

def KeepsTable (nap : NaClApp) (run : Except Fault (NaClApp × SysResult)) : Prop :=
  ∀ nap' r, run = .ok (nap', r) → TableKept nap nap'

theorem KeepsTable.done (h : nap.text.MapcacheSound) (r : SysResult) :
    KeepsTable nap (.ok (nap, r)) := by
  intro nap' r' hrun
  cases hrun
  exact ⟨.refl _, .refl _, h⟩

theorem KeepsTable.error (fault : Fault) : KeepsTable nap (.error fault) := nofun

theorem KeepsTable.ite {c : Prop} [Decidable c] {run run' : Except Fault (NaClApp × SysResult)}
    (h : KeepsTable nap run) (h' : KeepsTable nap run') :
    KeepsTable nap (if c then run else run') := by
  by_cases hc : c
  · rwa [if_pos hc]
  · rwa [if_neg hc]

theorem keepsTable_replaceDyncode {stores : ℕ → Option UInt8} {copied : Bool}
    (h : nap.text.MapcacheSound) (dest size : ℕ) (shmMap : Bool) :
    KeepsTable nap (replaceDyncode nap dest size stores copied shmMap) := by
  intro nap' r hrun
  unfold replaceDyncode at hrun
  split at hrun
  · cases hrun
  · next hmap =>
    cases hrun
    exact ⟨textStep_naclTextMapWrapper hmap, sameTable_naclTextMapWrapper hmap,
      (viewStep_naclTextMapWrapper h hmap).2.1⟩
  · next mid mappedAddr hmap =>
    have hcache := (viewStep_naclTextMapWrapper h hmap).2.1
    have hcopy : TextStep mid { mid with text := { mid.text with
        shmByte := naclCopyCode mid.text.shmByte mappedAddr size stores } } := .of_text rfl rfl
    have hstep := (textStep_naclTextMapWrapper hmap).trans hcopy
    have htable : SameTable nap.text { mid.text with
        shmByte := naclCopyCode mid.text.shmByte mappedAddr size stores } :=
      (sameTable_naclTextMapWrapper hmap).trans ⟨rfl, rfl, rfl, rfl⟩
    dsimp only at hrun
    split_ifs at hrun
    · split at hrun
      · cases hrun
      · next hclear =>
        cases hrun
        exact ⟨hstep.trans (textStep_naclTextMapClearCacheIfNeeded hclear),
          htable.trans (sameTable_naclTextMapClearCacheIfNeeded hclear),
          (viewStep_naclTextMapClearCacheIfNeeded (a := 0) (b := 0) (by exact hcache)
            hclear).2⟩
    · cases hrun
      exact ⟨hstep, htable, hcache⟩

theorem keepsTable_naclSysDyncodeModify (h : nap.text.MapcacheSound) (dest src size : ℕ)
    (ans : ModifyAnswers) : KeepsTable nap (naclSysDyncodeModify nap dest src size ans) := by
  unfold naclSysDyncodeModify
  dsimp only
  refine .ite (.done h _) (.ite (.done h _) (.ite (.done h _) (.ite (.done h _)
    (.ite (.done h _) ?_))))
  split
  · exact .done h _
  · exact .ite (.done h _) (.ite (.done h _) (.ite (.error _) (.ite (.error _)
      (.ite (.done h _) (keepsTable_replaceDyncode h _ _ _)))))

theorem NaClApp.MappingsSound.dyncodeModify {dest src size : ℕ} {ans : ModifyAnswers}
    (h : nap.MappingsSound)
    (hrun : naclSysDyncodeModify nap dest src size ans = .ok (nap', r)) : nap'.MappingsSound := by
  obtain ⟨hstep, htable, hcache⟩ :=
    keepsTable_naclSysDyncodeModify h.sound.text.mapcache dest src size ans nap' r hrun
  refine h.of_text hstep.eq (h.sound.of_textStep hstep hcache) (htable.regionsSound h.regions)
    fun region hregion => Or.inl ⟨region, ?_, rfl, rfl⟩
  rwa [htable.regions] at hregion

/-! ## Loading data -/

theorem NaClApp.MappingsSound.protectDataSegment {vaddr mappingSize : ℕ} {host : Bool}
    {result : Except NaClErrorCode Unit} (h : nap.MappingsSound)
    (hdvd : naclMapPageSize ∣ mappingSize) (hpos : 0 < mappingSize)
    (hvaddr : naclMapPageSize ∣ vaddr) (hbelow : nap.dynamicTextEnd ≤ vaddr)
    (hle : vaddr + mappingSize ≤ 2 ^ nap.space.addrBits)
    (hrun : protectDataSegment nap vaddr mappingSize host = .ok (nap', result)) :
    nap'.MappingsSound := by
  have hps : naclPageSize ∣ naclMapPageSize := by decide
  have hpage : 2 ^ naclPageShift = naclPageSize := rfl
  obtain ⟨s, rfl⟩ := exists_mul_naclPageSize (hps.trans hvaddr)
  obtain ⟨n, rfl⟩ := exists_mul_naclPageSize (hps.trans hdvd)
  have hn : 0 < n := Nat.pos_of_mul_pos_right hpos
  have hmax := maxPage_of_le (hle.trans (addrBits_pow_le nap.space))
  unfold SandboxingNaCl.protectDataSegment at hrun
  rw [hpage, Nat.mul_div_cancel _ (by decide), Nat.mul_div_cancel _ (by decide)] at hrun
  split_ifs at hrun
  · cases hrun
    exact h
  · split at hrun
    · cases hrun
    · next memMap hadd =>
      cases hrun
      have hkeep := keeps_naclVmmapAddWithOverwrite h.sound.wellFormed hn le_rfl
        (AddressSpace.le_pages hle) hmax hadd
      obtain ⟨map, hok, hwf, -⟩ := naclVmmapAddWithOverwrite_spec protRead mapPrivate none 0 0
        h.sound.wellFormed hn hmax
      obtain rfl : map = memMap := Except.ok.inj (hok.symm.trans hadd)
      have hbelow : nap.dynamicTextEnd / naclPageSize ≤ s := by
        refine (Nat.div_le_div_right hbelow).trans ?_
        rw [Nat.mul_div_cancel _ (by decide)]
      obtain ⟨h₁, h₂, h₃, h₄, h₅⟩ := h.sound.text.layout
      exact h.of_map rfl ⟨⟨⟨h₁, h₂, h₃, h₄, h₅⟩, h.sound.text.end_lt, h.sound.text.mapcache⟩, hwf⟩
        hkeep (h.null_le.trans hbelow) fun _ => hbelow

theorem NaClApp.MappingsSound.fillDataSegment {php : ElfPhdr} {ans : DataSegmentAnswers}
    {vaddr filesz mappingSize : ℕ} {result : Except NaClErrorCode Unit} (h : nap.MappingsSound)
    (hdvd : naclMapPageSize ∣ mappingSize) (hpos : 0 < mappingSize)
    (hvaddr : naclMapPageSize ∣ vaddr) (hbelow : nap.dynamicTextEnd ≤ vaddr)
    (hle : vaddr + mappingSize ≤ 2 ^ nap.space.addrBits)
    (hrun : fillDataSegment nap php vaddr filesz mappingSize ans = .ok (nap', result)) :
    nap'.MappingsSound := by
  have hwritten : NaClApp.MappingsSound { nap with
      mem := nap.mem.write vaddr (vaddr + filesz) ans.fileByte } :=
    h.of_reordered (.refl h.sound.wellFormed) rfl
  unfold SandboxingNaCl.fillDataSegment at hrun
  dsimp only at hrun
  split_ifs at hrun
  · cases hrun
    exact hwritten
  · exact hwritten.protectDataSegment hdvd hpos hvaddr hbelow hle hrun
  · cases hrun
    exact hwritten

theorem naclRoundAllocPage_idem {a : ℕ} (h : a < 2 ^ 32) :
    naclRoundAllocPage (naclRoundAllocPage a) = naclRoundAllocPage a := by
  have hround := naclRoundAllocPage_eq (show a ≤ 2 ^ 33 by omega)
  rw [naclRoundAllocPage_eq (show naclRoundAllocPage a ≤ 2 ^ 33 by omega), hround]
  omega

theorem NaClApp.MappingsSound.loadData {php : ElfPhdr} {ans : DataSegmentAnswers}
    {result : Except NaClErrorCode Unit} (h : nap.MappingsSound)
    (hrun : loadDataSegment nap php ans = .ok (nap', result)) : nap'.MappingsSound := by
  unfold loadDataSegment at hrun
  dsimp only at hrun
  split at hrun
  · cases hrun
    exact h
  · split at hrun
    · cases hrun
    · split at hrun
      · cases hrun
      · next hmap =>
        cases hrun
        exact h.mmap hmap
      · next mid addr hmap =>
        have hmid := h.mmap hmap
        obtain ⟨hdvd, hpos, hbelow, hle, -⟩ := placed_of_mmap h.sound.wellFormed
          (by decide : protReadWrite &&& protExec = 0) hmap
        dsimp only at hdvd hpos hle
        rw [naclRoundAllocPage_idem (BitVec.isLt _)] at hdvd hpos hle
        split at hrun
        · cases hrun
          exact hmid
        · next haddr =>
          rw [not_not.1 haddr] at hbelow hle
          exact hmid.fillDataSegment hdvd hpos (dvd_alignDown _ _)
            (hbelow.trans (alignDown_le _ _)) hle hrun

/-! ## Runs -/

theorem NaClApp.MappingsSound.action {action : MapAction} (h : nap.MappingsSound)
    (hguard : ¬ action.CreatesToTop nap) (hstep : action.step nap = .ok nap') :
    nap'.MappingsSound := by
  cases action with
  | sys call => exact h.step hguard hstep
  | dyncodeModify dest src size ans =>
    obtain ⟨⟨mid, r⟩, hrun, rfl⟩ := KeyedLoop.map_eq_ok.1 hstep
    exact h.dyncodeModify hrun
  | loadData php ans =>
    obtain ⟨⟨mid, result⟩, hrun, rfl⟩ := KeyedLoop.map_eq_ok.1 hstep
    exact h.loadData hrun
  | listMappings enable realloc regions count =>
    obtain ⟨⟨mid, r⟩, hrun, rfl⟩ := KeyedLoop.map_eq_ok.1 hstep
    obtain ⟨hmap, heq⟩ := reordered_naclSysListMappings h.sound.wellFormed hrun
    exact h.of_reordered hmap heq
  | untrusted byte =>
    cases hstep
    exact h.of_reordered (.refl h.sound.wellFormed) rfl

/-- After any run of an image whose segments end below `2 ^ 32`, in which no code is created up to
there, a call that succeeds lists the mappings. -/
theorem listMappingsDone_of_run {file : ElfFile} {maxCodeBytes stackSize : ℕ} {layout : AppLayout}
    {useShm enable : Bool} {ans : ProtectAnswers} {nap₀ nap'' : NaClApp} {actions : List MapAction}
    {realloc : ℕ → Bool} {regions count : BitVec 32} {n : ℕ}
    (hlayout : naclAppLoadFileLayout file nap.space.addrBits maxCodeBytes = .ok layout)
    (hends : EndsBelowTop file.segments) (hloaded : nap.Loaded layout useShm)
    (hprotect : naclMemoryProtection nap stackSize ans = .ok nap₀)
    (hguard : Guarded MapAction.step (fun nap action => ¬ action.CreatesToTop nap) nap₀ actions)
    (hrun : actions.foldlM MapAction.step nap₀ = .ok nap')
    (hlist : naclSysListMappings nap' enable realloc regions count = .ok (nap'', .ok n)) :
    ListMappingsDone nap' nap'' regions.toNat count.toNat n := by
  have hsound : nap'.MappingsSound :=
    hguard.invariant (fun _ _ _ h ha hstep => h.action ha hstep)
      (mappingsSound_naclMemoryProtection hlayout hends hloaded hprotect) hrun
  exact hsound.listMappingsDone hlist

/-! ## An image with one page of dynamic text -/

/-- Text at `0x20000`, read-only data at `0x40000` and data at `0x50000`. -/
def loadedApp : NaClApp :=
  { smallApp with
    memMap := naclVmmapCtor
    staticTextEnd := 0x30000
    dynamicTextStart := 0x30000
    dynamicTextEnd := 0x40000
    rodataStart := 0x40000
    dataStart := 0x50000
    dataEnd := 0x51000
    breakAddr := 0x51000
    text := { smallApp.text with pageBitmap := [false] } }

def loadedLayout : AppLayout :=
  ⟨0x21000, 0x40000, 0x41000, 0x50000, 0x51000, 0x51000, [true, true, true]⟩

theorem loadedApp_loaded : loadedApp.Loaded loadedLayout true where
  memMap := rfl
  regions := rfl
  mapcache := rfl
  dynamicText := by decide
  bitmap := by decide
  staticTextEnd := by decide
  rodataStart := rfl
  dataStart := rfl
  dataEnd := rfl
  breakAddr := rfl

theorem naclAppLoadFileLayout_loadedApp :
    naclAppLoadFileLayout (smallImage 0x1000 0x40000 0x1000 0x50000) loadedApp.space.addrBits 0 =
      .ok loadedLayout := by
  decide +kernel

theorem endsBelowTop_loadedApp :
    EndsBelowTop (smallImage 0x1000 0x40000 0x1000 0x50000).segments := by
  have hends : ∀ check ∈ loadChecks, ∀ s ∈ ElfSegment.find check
      (smallImage 0x1000 0x40000 0x1000 0x50000).segments, s.stop ≠ 2 ^ 32 := by decide +kernel
  exact fun check hcheck s hfind => hends check hcheck s hfind

def allowed : ProtectAnswers := ⟨true, true, true, smallFile⟩

def createCode (dest : BitVec 32) : MapAction :=
  .sys (.dyncodeCreate dest 0x50000 32 ⟨fun code => (true, code), true⟩)

/-- Whether the mappings are listed after code is created. -/
def lists (dest count : BitVec 32) (check : NaClApp → Bool) (nap₀ : NaClApp) : Bool :=
  match [createCode dest].foldlM MapAction.step nap₀ with
  | .error _ => false
  | .ok nap' =>
    match naclSysListMappings nap' true (fun _ => true) 0x50000 count with
    | .ok (_, .ok _) => check nap'
    | _ => false

theorem exists_of_lists {dest count : BitVec 32} {check : NaClApp → Bool} {nap₀ : NaClApp}
    (h : lists dest count check nap₀ = true) : ∃ nap' nap'' n,
      [createCode dest].foldlM MapAction.step nap₀ = .ok nap' ∧
        naclSysListMappings nap' true (fun _ => true) 0x50000 count = .ok (nap'', .ok n) ∧
        check nap' = true := by
  unfold lists at h
  split at h
  · cases h
  · next nap' hrun =>
    split at h
    · next hlist => exact ⟨nap', _, _, hrun, hlist, h⟩
    · cases h

/-- The first three of six mappings are written. -/
theorem listMappingsDone_of_run_loadedApp : ∃ nap₀, naclMemoryProtection loadedApp 0x10000 allowed =
    .ok nap₀ ∧ ∃ nap' nap'' n, [createCode 0x30000].foldlM MapAction.step nap₀ = .ok nap' ∧
      naclSysListMappings nap' true (fun _ => true) 0x50000 3 = .ok (nap'', .ok n) ∧
      ListMappingsDone nap' nap'' 0x50000 3 n := by
  obtain ⟨nap₀, hprotect, hlists⟩ : ∃ nap₀, naclMemoryProtection loadedApp 0x10000 allowed =
      .ok nap₀ ∧ lists 0x30000 3 (fun _ => true) nap₀ = true :=
    exists_ok_of_check (lists 0x30000 3 fun _ => true) (fun _ h => h) (by decide +kernel)
  obtain ⟨nap', nap'', n, hrun, hlist, -⟩ := exists_of_lists hlists
  have hguard : Guarded MapAction.step (fun nap action => ¬ action.CreatesToTop nap) nap₀
      [createCode 0x30000] := ⟨fun h => absurd h.2.2.1 (by decide), fun _ _ => trivial⟩
  exact ⟨nap₀, hprotect, nap', nap'', n, hrun, hlist,
    listMappingsDone_of_run naclAppLoadFileLayout_loadedApp endsBelowTop_loadedApp loadedApp_loaded
      hprotect hguard hrun hlist⟩

theorem MappingsListed.apart {infos : List NaClMemMappingInfo} (h : MappingsListed nap infos)
    {ent : NaClVmmapEntry} {region : NaClDynamicRegion} (he : ent ∈ nap.memMap.vmentry)
    (htext : ¬ nap.IsTextEntry ent) (hprot : ent.prot ≠ protRead ||| protExec)
    (hregion : region ∈ nap.text.regions) :
    nap.space.memStart + (ent.pageNum + ent.npages) * naclPageSize ≤ region.start ∨
      region.stop ≤ nap.space.memStart + ent.pageNum * naclPageSize := by
  obtain ⟨info, hinfo, hent⟩ := h.entries ent he htext
  obtain ⟨info', hinfo', hreported⟩ := h.regions region hregion
  have hne : info ≠ info' := fun heq => hprot (by rw [← hent.prot, heq, hreported.prot])
  have hsymm : Std.Symm fun a b : NaClMemMappingInfo =>
      a.stop ≤ b.start.toNat ∨ b.stop ≤ a.start.toNat := ⟨fun _ _ hab => hab.symm⟩
  have hpair : infos.Pairwise fun a b => a.stop ≤ b.start.toNat ∨ b.stop ≤ a.start.toNat :=
    h.separated.pairwise.imp fun hab => Or.inl hab
  have happart := hpair.forall hinfo hinfo' hne
  have hstart := hreported.start
  have hsize := hreported.size
  rw [hent.stop, hent.start] at happart
  unfold NaClMemMappingInfo.stop at happart
  unfold NaClDynamicRegion.stop
  omega

/-- The code is created on top of the stack. -/
def onStack (nap : NaClApp) : Bool :=
  ∃ ent ∈ nap.memMap.vmentry, ¬ nap.IsTextEntry ent ∧ ent.prot ≠ protRead ||| protExec ∧
    ∃ region ∈ nap.text.regions,
      region.start < nap.space.memStart + (ent.pageNum + ent.npages) * naclPageSize ∧
        nap.space.memStart + ent.pageNum * naclPageSize < region.stop

/-- Code created up to `2 ^ 32` stays in the table, though the call fails, and is listed together with
the stack, which it overlaps. -/
theorem not_listMappingsDone_onStack : ∃ nap₀, naclMemoryProtection loadedApp 0x10000 allowed =
    .ok nap₀ ∧ ∃ nap' nap'' n, [createCode 0xffffffe0].foldlM MapAction.step nap₀ = .ok nap' ∧
      naclSysListMappings nap' true (fun _ => true) 0x50000 6 = .ok (nap'', .ok n) ∧
      ¬ ListMappingsDone nap' nap'' 0x50000 6 n := by
  obtain ⟨nap₀, hprotect, hlists⟩ : ∃ nap₀, naclMemoryProtection loadedApp 0x10000 allowed =
      .ok nap₀ ∧ lists 0xffffffe0 6 onStack nap₀ = true :=
    exists_ok_of_check (lists 0xffffffe0 6 onStack) (fun _ h => h) (by decide +kernel)
  obtain ⟨nap', nap'', n, hrun, hlist, hstack⟩ := exists_of_lists hlists
  refine ⟨nap₀, hprotect, nap', nap'', n, hrun, hlist, fun hdone => ?_⟩
  obtain ⟨infos, hlisted, -⟩ := hdone.listed
  obtain ⟨ent, he, htext, hprot, region, hregion, hlo, hhi⟩ := of_decide_eq_true hstack
  have := hlisted.apart he htext hprot hregion
  omega

end

end SandboxingNaCl
