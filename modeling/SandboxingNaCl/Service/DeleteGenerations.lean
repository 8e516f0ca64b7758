import SandboxingNaCl.Service.DynamicRegions
import SandboxingNaCl.Service.SysCalls

/-!
# Deletion requests

The first request to delete a region replaces its bundle heads with halts and gives the region the
next generation.  Making views and creating code change no generation, and code that is created
stays clear of the regions that are waiting for their deletion.
-/

namespace SandboxingNaCl

open MachineInt PagedMemory

/-- The part of `requestDelete` before the calling thread checks in: `none` when the region has been
given its generation. -/
def markDeleted (nap : NaClApp) (dest size ix : ℕ) (region : NaClDynamicRegion) (shmMap : Bool) :
    Except Fault (NaClApp × Option NaClAbiErrno) :=
  if nap.text.deleteGeneration = 2 ^ 31 - 1 then
    .ok (nap, some .efault)
  else
    match naclTextMapWrapper nap dest size shmMap with
    | .error fault => .error fault
    | .ok (nap, none) => .ok (nap, some .enomem)
    | .ok (nap, some mappedAddr) =>
      let shmByte := replaceBundleHeadsWithHalts nap.text.shmByte mappedAddr size nap.bundleSize
      match naclTextMapClearCacheIfNeeded { nap with text := { nap.text with shmByte } } dest size
        with
      | .error fault => .error fault
      | .ok nap =>
        let generation := nap.text.deleteGeneration + 1
        let regions := nap.text.regions.set ix { region with deleteGeneration := generation }
        .ok ({ nap with text := { nap.text with deleteGeneration := generation, regions } }, none)

theorem requestDelete_eq (nap : NaClApp) (natp dest size ix : ℕ) (region : NaClDynamicRegion)
    (shmMap : Bool) : requestDelete nap natp dest size ix region shmMap =
      match markDeleted nap dest size ix region shmMap with
      | .error fault => .error fault
      | .ok (nap, some errno) => .ok (nap, .error errno)
      | .ok (nap, none) => finishDelete nap natp ix nap.text.deleteGeneration := by
  obtain ⟨wrapper, hwrapper⟩ : ∃ f, f = naclTextMapWrapper := ⟨_, rfl⟩
  obtain ⟨clearCache, hclearCache⟩ : ∃ f, f = naclTextMapClearCacheIfNeeded := ⟨_, rfl⟩
  unfold requestDelete markDeleted
  rw [← hwrapper, ← hclearCache]
  dsimp only
  by_cases hmax : nap.text.deleteGeneration = 2 ^ 31 - 1
  · rw [if_pos hmax, if_pos hmax]
  · rw [if_neg hmax, if_neg hmax]
    cases hmap : wrapper nap dest size shmMap with
    | error fault => rfl
    | ok result =>
      obtain ⟨mid, _ | mappedAddr⟩ := result
      · rfl
      · dsimp only
        cases clearCache { mid with text := { mid.text with
          shmByte := replaceBundleHeadsWithHalts mid.text.shmByte mappedAddr size
            mid.bundleSize } } dest size with
        | error fault => rfl
        | ok last => rfl

/-! ## What making a view leaves -/

/-- Neither the table of regions nor a generation changes. -/
structure SameTable (text text' : DynamicText) : Prop where
  regions : text'.regions = text.regions
  regionsAllocated : text'.regionsAllocated = text.regionsAllocated
  deleteGeneration : text'.deleteGeneration = text.deleteGeneration
  threadGeneration : text'.threadGeneration = text.threadGeneration

section View

variable {nap nap' : NaClApp} {text text' text'' : DynamicText}

theorem SameTable.refl (text : DynamicText) : SameTable text text := ⟨rfl, rfl, rfl, rfl⟩

theorem SameTable.trans (h : SameTable text text') (h' : SameTable text' text'') :
    SameTable text text'' :=
  ⟨h'.regions.trans h.regions, h'.regionsAllocated.trans h.regionsAllocated,
    h'.deleteGeneration.trans h.deleteGeneration, h'.threadGeneration.trans h.threadGeneration⟩

theorem SameTable.regionsSound (h : SameTable text text') (hs : text.RegionsSound) :
    text'.RegionsSound := by
  refine ⟨?_, ?_, ?_⟩
  · rw [h.regions]
    exact hs.separated
  · rw [h.regions]
    exact hs.stop_lt
  · rw [h.regions, h.regionsAllocated]
    exact hs.allocated

theorem sameTable_makeDynamicCodePagesVisible {first last : ℕ}
    (hrun : makeDynamicCodePagesVisible nap first last = .ok nap') :
    SameTable nap.text nap'.text := by
  simp only [makeDynamicCodePagesVisible] at hrun
  split_ifs at hrun <;> split at hrun <;> cases hrun
  exact ⟨rfl, rfl, rfl, rfl⟩

theorem sameTable_makePagesVisibleLoop (n current last : ℕ)
    (hrun : makePagesVisibleLoop n nap current last = .ok nap') :
    SameTable nap.text nap'.text := by
  induction n generalizing nap current with
  | zero =>
    cases hrun
    exact .refl _
  | succ n ih =>
    rw [makePagesVisibleLoop] at hrun
    dsimp only at hrun
    split_ifs at hrun with hlt
    · split at hrun
      · cases hrun
      · next hmid => exact (sameTable_makeDynamicCodePagesVisible hmid).trans (ih _ hrun)
    · exact ih _ hrun
    · cases hrun
      exact .refl _

theorem sameTable_clearMapcache (nap : NaClApp) : SameTable nap.text (clearMapcache nap).text := by
  unfold clearMapcache
  split_ifs
  · exact ⟨rfl, rfl, rfl, rfl⟩
  · exact .refl _

theorem sameTable_cachedMapWritableText {offset size : ℕ} {host : Bool} {ret : Option ℕ}
    (hrun : cachedMapWritableText nap offset size host = .ok (nap', ret)) :
    SameTable nap.text nap'.text := by
  have hclear := sameTable_clearMapcache nap
  unfold cachedMapWritableText at hrun
  dsimp only at hrun
  split_ifs at hrun
  · cases hrun
    exact .refl _
  · split at hrun
    · cases hrun
    · next hmid =>
      cases hrun
      exact hclear.trans ((sameTable_makePagesVisibleLoop _ _ _ hmid).trans ⟨rfl, rfl, rfl, rfl⟩)
  · cases hrun
    exact hclear
  · cases hrun
    exact hclear

theorem sameTable_naclTextMapWrapper {dest size : ℕ} {host : Bool} {ret : Option ℕ}
    (hrun : naclTextMapWrapper nap dest size host = .ok (nap', ret)) :
    SameTable nap.text nap'.text := by
  obtain ⟨v, hmap, -⟩ := exists_of_naclTextMapWrapper hrun
  exact sameTable_cachedMapWritableText hmap

theorem sameTable_naclTextMapClearCacheIfNeeded {dest size : ℕ}
    (hrun : naclTextMapClearCacheIfNeeded nap dest size = .ok nap') :
    SameTable nap.text nap'.text := by
  unfold naclTextMapClearCacheIfNeeded at hrun
  split_ifs at hrun
  · split at hrun
    · cases hrun
    · next hmap =>
      cases hrun
      exact sameTable_cachedMapWritableText hmap
  · cases hrun
    exact .refl _

theorem getElem?_of_markDeleted {dest size ix : ℕ} {region : NaClDynamicRegion} {shmMap : Bool}
    (hix : nap.text.regions[ix]? = some region)
    (hrun : markDeleted nap dest size ix region shmMap = .ok (nap', none)) :
    nap'.text.regions[ix]? =
      some { region with deleteGeneration := nap'.text.deleteGeneration } := by
  obtain ⟨wrapper, hwrapper⟩ : ∃ f, f = naclTextMapWrapper := ⟨_, rfl⟩
  obtain ⟨clearCache, hclearCache⟩ : ∃ f, f = naclTextMapClearCacheIfNeeded := ⟨_, rfl⟩
  unfold markDeleted at hrun
  rw [← hwrapper, ← hclearCache] at hrun
  dsimp only at hrun
  split_ifs at hrun
  · cases hrun
  · split at hrun
    · cases hrun
    · cases hrun
    · next mid mappedAddr hmap =>
      rw [hwrapper] at hmap
      split at hrun
      · cases hrun
      · next last hclear =>
        cases hrun
        rw [hclearCache] at hclear
        have hregions : last.text.regions = nap.text.regions :=
          (sameTable_naclTextMapClearCacheIfNeeded hclear).regions.trans
            (sameTable_naclTextMapWrapper hmap).regions
        exact List.getElem?_set_self (hregions ▸ (List.getElem?_eq_some_iff.1 hix).1)

end View

/-! ## The regions and their bytes -/

/-- Every region starts in or behind the dynamic text and ends in the address space. -/
def NaClApp.RegionsPlaced (nap : NaClApp) : Prop :=
  ∀ region ∈ nap.text.regions, nap.space.memStart + nap.dynamicTextStart ≤ region.start ∧
    region.stop ≤ nap.space.memStart + 2 ^ 32

/-- The bundle heads of the region are halts. -/
def NaClApp.HeadsHalted (nap : NaClApp) (region : NaClDynamicRegion) : Prop :=
  ∀ i, region.start ≤ nap.space.memStart + nap.dynamicTextStart + i →
    nap.space.memStart + nap.dynamicTextStart + i < region.stop →
    atBundleHead nap.bundleSize i = true → nap.text.shmByte i = naclHaltOpcode

/-- The table and the dynamic text are as the loader and the calls leave them. -/
structure NaClApp.TableSound (nap : NaClApp) : Prop where
  text : nap.TextSound
  regions : nap.text.RegionsSound
  placed : nap.RegionsPlaced

section Steps

variable {nap nap' : NaClApp} {r : SysResult}

theorem NaClApp.HeadsHalted.of_textStep {region : NaClDynamicRegion} (h : nap.HeadsHalted region)
    (hstep : TextStep nap nap')
    (hbyte : ∀ i, region.start ≤ nap.space.memStart + nap.dynamicTextStart + i →
      nap.space.memStart + nap.dynamicTextStart + i < region.stop →
      nap'.text.shmByte i = nap.text.shmByte i ∨ nap'.text.shmByte i = naclHaltOpcode) :
    nap'.HeadsHalted region := by
  have hspace : nap'.space = nap.space := by rw [hstep.eq]
  have hstart : nap'.dynamicTextStart = nap.dynamicTextStart := by rw [hstep.eq]
  have hsize : nap'.bundleSize = nap.bundleSize := by rw [hstep.eq]
  intro i hlo hhi hhead
  rw [hspace, hstart] at hlo hhi
  rw [hsize] at hhead
  rcases hbyte i hlo hhi with hsame | hhalt
  · rw [hsame]
    exact h i hlo hhi hhead
  · exact hhalt

theorem NaClApp.RegionsPlaced.of_textStep (h : nap.RegionsPlaced) (hstep : TextStep nap nap')
    (hregions : ∀ region ∈ nap'.text.regions, (∃ old ∈ nap.text.regions,
        region.start = old.start ∧ region.size = old.size) ∨
      nap.space.memStart + nap.dynamicTextStart ≤ region.start ∧
        region.stop ≤ nap.space.memStart + 2 ^ 32) : nap'.RegionsPlaced := by
  have hspace : nap'.space = nap.space := by rw [hstep.eq]
  have hstart : nap'.dynamicTextStart = nap.dynamicTextStart := by rw [hstep.eq]
  intro region hmem
  rw [hspace, hstart]
  rcases hregions region hmem with ⟨old, hold, hstart, hsize⟩ | hnew
  · unfold NaClDynamicRegion.stop
    rw [hstart, hsize]
    exact h old hold
  · exact hnew

/-- Creating code adds a region at most, with no generation, keeps the generations, and writes only
halts to the regions there are. -/
structure RegionAdded (nap nap' : NaClApp) : Prop where
  sound : nap'.TableSound
  kept : ∀ region ∈ nap.text.regions, region ∈ nap'.text.regions
  added : ∀ region ∈ nap'.text.regions, region ∈ nap.text.regions ∨ region.deleteGeneration = -1
  deleteGeneration : nap'.text.deleteGeneration = nap.text.deleteGeneration
  threadGeneration : nap'.text.threadGeneration = nap.text.threadGeneration
  halted : ∀ region ∈ nap.text.regions, nap.HeadsHalted region → nap'.HeadsHalted region

theorem RegionAdded.refl (h : nap.TableSound) : RegionAdded nap nap :=
  ⟨h, fun _ hmem => hmem, fun _ hmem => Or.inl hmem, rfl, rfl, fun _ _ hhalt => hhalt⟩

theorem sameTable_installDyncode {dest destAddr size : ℕ} {codeCopy : ℕ → UInt8} {shmMap : Bool}
    (hrun : installDyncode nap dest destAddr codeCopy size shmMap = .ok (nap', r)) :
    SameTable (naclDynamicRegionCreate nap.text destAddr size false).1 nap'.text ∧
      ((naclDynamicRegionCreate nap.text destAddr size false).2 = false →
        nap' = { nap with text := (naclDynamicRegionCreate nap.text destAddr size false).1 }) := by
  obtain ⟨wrapper, hwrapper⟩ : ∃ f, f = naclTextMapWrapper := ⟨_, rfl⟩
  obtain ⟨clearCache, hclearCache⟩ : ∃ f, f = naclTextMapClearCacheIfNeeded := ⟨_, rfl⟩
  unfold installDyncode at hrun
  rw [← hwrapper, ← hclearCache] at hrun
  cases hcreate : naclDynamicRegionCreate nap.text destAddr size false with
  | mk text free =>
    rw [hcreate] at hrun
    cases free with
    | false =>
      cases hrun
      exact ⟨.refl _, fun _ => rfl⟩
    | true =>
      refine ⟨?_, nofun⟩
      dsimp only at hrun
      split at hrun
      · cases hrun
      · next hmap =>
        cases hrun
        rw [hwrapper] at hmap
        exact sameTable_naclTextMapWrapper hmap
      · next mid mappedAddr hmap =>
        rw [hwrapper] at hmap
        have hview := sameTable_naclTextMapWrapper hmap
        split at hrun
        · cases hrun
        · next hclear =>
          cases hrun
          rw [hclearCache] at hclear
          have hlast := sameTable_naclTextMapClearCacheIfNeeded hclear
          exact hview.trans ⟨hlast.regions, hlast.regionsAllocated,
            hlast.deleteGeneration, hlast.threadGeneration⟩

theorem regionAdded_installDyncode {dest size : ℕ} {code : ℕ → UInt8} {shmMap : Bool}
    (h : nap.TableSound) (hlo : nap.dynamicTextStart ≤ dest) (hpos : 0 < size)
    (hhi : dest + size ≤ 2 ^ nap.space.addrBits)
    (hend : (dest + size) % 2 ^ 32 ≤ usub nap.dynamicTextEnd naclHaltSledSize)
    (hrun : installDyncode nap dest (nap.space.memStart + dest) code size shmMap =
      .ok (nap', r)) : RegionAdded nap nap' := by
  have hbits := addrBits_pow_le nap.space
  have hspace := nap.space.lt
  obtain ⟨htable, htaken⟩ := sameTable_installDyncode hrun
  have hstep := textStep_installDyncode hrun
  obtain ⟨hcache, hregions, -, hok, herror⟩ :=
    installDyncode_spec h.text hlo hpos (hhi.trans hbits) hend hrun
  have hwrap : nap.space.memStart + dest + size < 2 ^ 64 := by omega
  obtain ⟨hsound, hfree, hmem⟩ := h.regions.create_spec hpos hwrap false
  have hgen : (naclDynamicRegionCreate nap.text (nap.space.memStart + dest) size false).1 =
      { nap.text with
        regions := (naclDynamicRegionCreate nap.text (nap.space.memStart + dest) size
          false).1.regions
        regionsAllocated := (naclDynamicRegionCreate nap.text (nap.space.memStart + dest) size
          false).1.regionsAllocated } := by
    obtain ⟨result, hresult⟩ : ∃ result, naclDynamicRegionCreate nap.text
      (nap.space.memStart + dest) size false = result := ⟨_, rfl⟩
    obtain ⟨regions, allocated, heq, -⟩ := naclDynamicRegionCreate_spec hresult
    rw [hresult, heq]
  refine ⟨⟨h.text.of_textStep hstep hcache, htable.regionsSound hsound, ?_⟩, ?_, ?_, ?_, ?_, ?_⟩
  · refine h.placed.of_textStep hstep fun region hregion => ?_
    rcases hregions region hregion with hold | rfl
    · exact Or.inl ⟨region, hold, rfl, rfl⟩
    · refine Or.inr ⟨Nat.add_le_add_left hlo _, ?_⟩
      unfold NaClDynamicRegion.stop
      dsimp only
      omega
  · intro region hregion
    rw [htable.regions]
    exact (hmem region).2 (Or.inl hregion)
  · intro region hregion
    exact (hregions region hregion).imp_right fun heq => by rw [heq]
  · rw [htable.deleteGeneration, hgen]
  · rw [htable.threadGeneration, hgen]
  · intro region hregion hhalted
    refine hhalted.of_textStep hstep fun i hstart hstop => ?_
    by_cases hoverlap : (naclDynamicRegionCreate nap.text (nap.space.memStart + dest) size
        false).2 = false
    · rw [htaken hoverlap, hgen]
      exact Or.inl rfl
    · cases hr : r with
      | error errno => exact herror ⟨errno, hr⟩ i
      | ok v =>
        rcases (hok v hr).byte i with hsame | ⟨-, -, hhalt | ⟨hlo', hhi'⟩⟩
        · exact Or.inl hsame
        · exact Or.inr hhalt
        · -- the byte would be in the new range, which is free, and in an old region
          refine absurd (hfree.2 ⟨region, hregion, ?_⟩) hoverlap
          exact ⟨by omega, by omega⟩

theorem regionAdded_naclSysDyncodeCreate {ans : DyncodeAnswers} (h : nap.TableSound)
    (dest src size : BitVec 32)
    (hrun : naclSysDyncodeCreate nap dest.toNat src.toNat size.toNat ans = .ok (nap', r)) :
    RegionAdded nap nap' := by
  unfold naclSysDyncodeCreate at hrun
  split_ifs at hrun
  · cases hrun
    exact .refl h
  · cases hrun
    exact .refl h
  · rcases naclTextDyncodeCreate_cases dest.isLt size.isLt hrun with
      ⟨rfl, -⟩ | ⟨hlo, hhi, hend, ⟨-, rfl⟩ | ⟨hpos, code, hinstall⟩⟩
    · exact .refl h
    · exact .refl h
    · exact regionAdded_installDyncode h hlo hpos hhi hend hinstall

/-- A deletion request leaves the table, or gives the region at `ix` the next generation once its
bundle heads are halts. -/
structure RegionMarked (nap nap' : NaClApp) (ix : ℕ) (region : NaClDynamicRegion)
    (errno : Option NaClAbiErrno) : Prop where
  sound : nap'.TableSound
  threadGeneration : nap'.text.threadGeneration = nap.text.threadGeneration
  halted : ∀ old, nap.HeadsHalted old → nap'.HeadsHalted old
  failed : errno ≠ none → SameTable nap.text nap'.text
  marked : errno = none → nap'.HeadsHalted region ∧
    nap'.text.deleteGeneration = nap.text.deleteGeneration + 1 ∧
    nap'.text.regions = nap.text.regions.set ix
      { region with deleteGeneration := nap.text.deleteGeneration + 1 }

theorem NaClApp.TableSound.of_sameTable (h : nap.TableSound) (hstep : TextStep nap nap')
    (htable : SameTable nap.text nap'.text) (hcache : nap'.text.MapcacheSound) :
    nap'.TableSound := by
  refine ⟨h.text.of_textStep hstep hcache, htable.regionsSound h.regions, ?_⟩
  refine h.placed.of_textStep hstep fun region hregion => Or.inl ⟨region, ?_, rfl, rfl⟩
  rwa [htable.regions] at hregion

theorem DynamicText.RegionsSound.set {text : DynamicText} (h : text.RegionsSound) {ix : ℕ}
    {region : NaClDynamicRegion} (hix : text.regions[ix]? = some region) (generation : ℤ) :
    ({ text with
      regions := text.regions.set ix { region with deleteGeneration := generation } } :
        DynamicText).RegionsSound := by
  have hget : ∀ (j : ℕ) (r : NaClDynamicRegion),
      (text.regions.set ix { region with deleteGeneration := generation })[j]? = some r →
      ∃ old, text.regions[j]? = some old ∧ r.start = old.start ∧ r.stop = old.stop := by
    intro j r hj
    rw [List.getElem?_set] at hj
    split_ifs at hj with hij hlt
    · cases hj
      exact ⟨region, hij ▸ hix, rfl, rfl⟩
    · exact ⟨r, hj, rfl, rfl⟩
  refine ⟨⟨fun r hr => ?_, ?_⟩, fun r hr => ?_, ?_⟩
  · obtain ⟨j, hj⟩ := List.mem_iff_getElem?.1 hr
    obtain ⟨old, hold, hstart, hstop⟩ := hget j r hj
    rw [hstart, hstop]
    exact h.separated.nonempty old (List.mem_of_getElem? hold)
  · rw [List.pairwise_iff_getElem]
    intro i j hi hj hij
    obtain ⟨a, ha, -, hstop⟩ := hget i _ (List.getElem?_eq_getElem hi)
    obtain ⟨b, hb, hstart, -⟩ := hget j _ (List.getElem?_eq_getElem hj)
    rw [hstop, hstart]
    obtain ⟨hi', rfl⟩ := List.getElem?_eq_some_iff.1 ha
    obtain ⟨hj', rfl⟩ := List.getElem?_eq_some_iff.1 hb
    exact List.pairwise_iff_getElem.1 h.separated.pairwise i j hi' hj' hij
  · obtain ⟨j, hj⟩ := List.mem_iff_getElem?.1 hr
    obtain ⟨old, hold, -, hstop⟩ := hget j r hj
    rw [hstop]
    exact h.stop_lt old (List.mem_of_getElem? hold)
  · dsimp only
    rw [List.length_set]
    exact h.allocated

theorem headsHalted_replaceBundleHeadsWithHalts {region : NaClDynamicRegion} {dest size : ℕ}
    (hstart : region.start = nap.space.memStart + dest) (hsize : region.size = size)
    (hlo : nap.dynamicTextStart ≤ dest) :
    ({ nap with text := { nap.text with
      shmByte := replaceBundleHeadsWithHalts nap.text.shmByte (dest - nap.dynamicTextStart) size
        nap.bundleSize } } : NaClApp).HeadsHalted region := by
  intro i hi hi' hhead
  unfold NaClDynamicRegion.stop at hi'
  dsimp only [replaceBundleHeadsWithHalts, copyBundleHeads] at hi hi' hhead ⊢
  rw [if_pos ⟨by omega, by omega, hhead⟩]

theorem regionMarked_markDeleted {dest size ix : ℕ} {region : NaClDynamicRegion} {shmMap : Bool}
    {errno : Option NaClAbiErrno} (h : nap.TableSound)
    (hix : nap.text.regions[ix]? = some region)
    (hstart : region.start = nap.space.memStart + dest) (hsize : region.size = size)
    (hrun : markDeleted nap dest size ix region shmMap = .ok (nap', errno)) :
    RegionMarked nap nap' ix region errno := by
  have hmem := List.mem_of_getElem? hix
  obtain ⟨hlo, hhi⟩ := h.placed region hmem
  have hpos := h.regions.separated.nonempty region hmem
  unfold NaClDynamicRegion.stop at hhi hpos
  have hend : dest + size ≤ 2 ^ 32 := by omega
  obtain ⟨a, n, hn, hrange, hmod, -, -, hoff⟩ :=
    shmMapRange_spec h.text.layout (show nap.dynamicTextStart ≤ dest by omega) (by omega) hend
  obtain ⟨wrapper, hwrapper⟩ : ∃ f, f = naclTextMapWrapper := ⟨_, rfl⟩
  obtain ⟨clearCache, hclearCache⟩ : ∃ f, f = naclTextMapClearCacheIfNeeded := ⟨_, rfl⟩
  unfold markDeleted at hrun
  rw [← hwrapper, ← hclearCache] at hrun
  dsimp only at hrun
  split_ifs at hrun with hmax
  · cases hrun
    exact ⟨h, rfl, fun _ hold => hold, fun _ => .refl _, nofun⟩
  split at hrun
  · cases hrun
  · next hmap =>
    cases hrun
    rw [hwrapper] at hmap
    obtain ⟨hview, hcache, -⟩ := viewStep_naclTextMapWrapper h.text.mapcache hmap
    have hstep := textStep_naclTextMapWrapper hmap
    have htable := sameTable_naclTextMapWrapper hmap
    refine ⟨h.of_sameTable hstep htable hcache, htable.threadGeneration, fun old hold => ?_,
      fun _ => htable, nofun⟩
    exact hold.of_textStep hstep fun i _ _ => (hview.byte i).imp_right fun hi => hi.2.2
  · next mid mappedAddr hmap =>
    rw [hwrapper] at hmap
    obtain ⟨hview, hcache, hret⟩ := viewStep_naclTextMapWrapper h.text.mapcache hmap
    have hstep := textStep_naclTextMapWrapper hmap
    have htable := sameTable_naclTextMapWrapper hmap
    have hmid := h.of_sameTable hstep htable hcache
    have hmapped : mappedAddr = dest - mid.dynamicTextStart := by
      have hview_pos : 0 < (shmMapRange nap dest size).2 := by
        rw [hrange]
        exact Nat.mul_pos (hn (by omega)) (by decide)
      rw [(hret hview_pos mappedAddr rfl).1, hoff, hview.start_eq]
      exact (congrArg (·.1 + _) hrange).trans hmod
    subst hmapped
    split at hrun
    · cases hrun
    · next last hclear =>
      cases hrun
      rw [hclearCache] at hclear
      obtain ⟨hview', hcache'⟩ := @viewStep_naclTextMapClearCacheIfNeeded _ _ _ _ 0 0
        (by exact hcache) hclear
      have hstep' := textStep_naclTextMapClearCacheIfNeeded hclear
      have htable' := sameTable_naclTextMapClearCacheIfNeeded hclear
      -- the view, the halts, the cached view given up, and the generation
      have hhalts : TextStep mid { mid with text := { mid.text with
          shmByte := replaceBundleHeadsWithHalts mid.text.shmByte
            (dest - mid.dynamicTextStart) size mid.bundleSize } } := .of_text rfl rfl
      have hlast := (hmid.of_sameTable hhalts ⟨rfl, rfl, rfl, rfl⟩ hcache).of_sameTable hstep'
        htable' hcache'
      have hregions : last.text.regions = nap.text.regions :=
        htable'.regions.trans htable.regions
      have hgeneration : last.text.deleteGeneration = nap.text.deleteGeneration :=
        htable'.deleteGeneration.trans htable.deleteGeneration
      have hkept : ∀ old, mid.HeadsHalted old ∨ old = region → last.HeadsHalted old := by
        intro old hold
        refine NaClApp.HeadsHalted.of_textStep ?_ hstep' fun i _ _ =>
          (hview'.byte i).imp_right fun hi => hi.2.2
        rcases hold with hold | rfl
        · refine hold.of_textStep hhalts fun i _ _ => ?_
          dsimp only [replaceBundleHeadsWithHalts, copyBundleHeads]
          split_ifs
          · exact Or.inr rfl
          · exact Or.inl rfl
        · have hspace : mid.space = nap.space := by rw [hstep.eq]
          refine headsHalted_replaceBundleHeadsWithHalts (hspace ▸ hstart) hsize ?_
          rw [hview.start_eq]
          omega
      have hmark : TextStep last { last with text := { last.text with
          deleteGeneration := last.text.deleteGeneration + 1
          regions := last.text.regions.set ix
            { region with deleteGeneration := last.text.deleteGeneration + 1 } } } :=
        .of_text rfl rfl
      refine ⟨⟨hlast.text.of_textStep hmark hcache', ?_, ?_⟩, ?_, fun old hold => ?_, nofun,
        fun _ => ⟨?_, ?_, ?_⟩⟩
      · have hset := hlast.regions.set (hregions ▸ hix) (last.text.deleteGeneration + 1)
        exact ⟨hset.separated, hset.stop_lt, hset.allocated⟩
      · refine hlast.placed.of_textStep hmark fun new hnew => Or.inl ?_
        rcases List.mem_or_eq_of_mem_set hnew with hnew | rfl
        · exact ⟨new, hnew, rfl, rfl⟩
        · exact ⟨region, hregions ▸ hmem, rfl, rfl⟩
      · exact htable'.threadGeneration.trans htable.threadGeneration
      · refine (hkept old (Or.inl ?_)).of_textStep hmark fun _ _ _ => Or.inl rfl
        exact hold.of_textStep hstep fun i _ _ => (hview.byte i).imp_right fun hi => hi.2.2
      · exact (hkept region (Or.inr rfl)).of_textStep hmark fun _ _ _ => Or.inl rfl
      · rw [← hgeneration]
      · rw [← hgeneration, ← hregions]

end Steps

end SandboxingNaCl
