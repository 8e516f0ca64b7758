import SandboxingNaCl.Service.DynamicCode
import SandboxingNaCl.Service.DynamicRegions

/-!
# Creating code that is refused

`NaClTextDyncodeCreate` checks the request, registers a region for it and then maps the dynamic text
to write the code.  Only the last of these can fail once the region is there, and nothing removes
the region then: the range stays taken, although it holds no code.
-/

namespace SandboxingNaCl

open MachineInt

section

variable {nap nap' : NaClApp} {dest size : ℕ} {codeCopy : ℕ → UInt8} {ans : DyncodeAnswers}

/-! ## The region -/

theorem binarySearchRegions_lt {regions : List NaClDynamicRegion} {ptr : ℕ} (n : ℕ) {first last : ℕ}
    (h : first < last) : (binarySearchRegions regions ptr n first last).1 <
      (binarySearchRegions regions ptr n first last).2 ∧
      (binarySearchRegions regions ptr n first last).2 ≤ last := by
  induction n generalizing first last with
  | zero => exact ⟨h, le_rfl⟩
  | succ n ih =>
    rw [binarySearchRegions]
    dsimp only
    split_ifs with hlt hmid
    · exact ih (by omega)
    · have hhalf := ih (show first < first + (last - first) / 2 by omega)
      exact ⟨hhalf.1, hhalf.2.trans (by omega)⟩
    · exact ⟨h, le_rfl⟩

theorem scanRegions_lt {regions : List NaClDynamicRegion} {ptr : ℕ} (n : ℕ) {first last : ℕ}
    (h : first < last) : scanRegions regions ptr n first last < last := by
  induction n generalizing first with
  | zero => exact h
  | succ n ih =>
    rw [scanRegions]
    split_ifs with hnext
    · exact ih hnext.1
    · exact h

theorem lt_of_naclDynamicRegionFindClosestLEQ {regions : List NaClDynamicRegion} {ptr ix : ℕ}
    (h : naclDynamicRegionFindClosestLEQ regions ptr = some ix) : ix < regions.length := by
  unfold naclDynamicRegionFindClosestLEQ at h
  split at h
  · next head last hhead hlast =>
    have hpos : 0 < regions.length := by
      cases regions with
      | nil => cases hhead
      | cons _ _ => exact Nat.succ_pos _
    split_ifs at h
    · cases h
      exact Nat.sub_lt hpos one_pos
    · cases h
      obtain ⟨hlt, hle⟩ := @binarySearchRegions_lt regions ptr regions.length 0 regions.length hpos
      exact (scanRegions_lt _ hlt).trans_le hle
  · cases h

theorem length_insertRegion (regions : List NaClDynamicRegion) (ptr : ℕ) (item : NaClDynamicRegion) :
    (insertRegion regions (naclDynamicRegionFindClosestLEQ regions ptr) item).length =
      regions.length + 1 := by
  unfold insertRegion
  dsimp only
  generalize hfirst : (naclDynamicRegionFindClosestLEQ regions ptr).getD 0 = first
  have hle : first ≤ regions.length := by
    cases hfound : naclDynamicRegionFindClosestLEQ regions ptr with
    | none =>
      rw [hfound] at hfirst
      exact hfirst ▸ Nat.zero_le _
    | some ix =>
      have hix := lt_of_naclDynamicRegionFindClosestLEQ hfound
      rw [hfound] at hfirst
      exact hfirst ▸ hix.le
  have hscan : ((regions.drop first).takeWhile (·.start < item.start)).length ≤
      (regions.drop first).length := (List.takeWhile_sublist _).length_le
  rw [List.length_drop] at hscan
  exact List.length_insertIdx_of_le_length (by omega) _

theorem naclDynamicRegionFind_growRegions (text : DynamicText) (start : ℕ) :
    naclDynamicRegionFind (growRegions text).regions start size =
      naclDynamicRegionFind text.regions start size := by
  rw [growRegions_eq]

theorem naclDynamicRegionCreate_of_taken {text : DynamicText} {start : ℕ} {isMmap : Bool}
    (h : naclDynamicRegionFind text.regions start size ≠ none) :
    naclDynamicRegionCreate text start size isMmap = (growRegions text, false) := by
  rw [← naclDynamicRegionFind_growRegions] at h
  unfold naclDynamicRegionFind at h
  unfold naclDynamicRegionCreate
  dsimp only
  split at h
  · next ix hfound =>
    split at h
    · next region hregion =>
      split_ifs at h with hlt
      · rw [hfound, Option.bind_some, hregion]
        exact if_pos hlt
      · exact absurd rfl h
    · exact absurd rfl h
  · exact absurd rfl h

theorem naclDynamicRegionCreate_of_untaken {text : DynamicText} {start : ℕ} {isMmap : Bool}
    (h : naclDynamicRegionFind text.regions start size = none) : ∃ regions,
    naclDynamicRegionCreate text start size isMmap = ({ growRegions text with regions }, true) ∧
      regions.length = text.regions.length + 1 := by
  have hlen : (growRegions text).regions.length = text.regions.length := by rw [growRegions_eq]
  rw [← naclDynamicRegionFind_growRegions] at h
  refine ⟨_, ?_, (length_insertRegion _ (usub (uadd start size) 1) ⟨start, size, -1, isMmap⟩).trans
    (congrArg (· + 1) hlen)⟩
  unfold naclDynamicRegionCreate
  dsimp only
  unfold naclDynamicRegionFind at h
  cases hfound : naclDynamicRegionFindClosestLEQ (growRegions text).regions
    (usub (uadd start size) 1) with
  | none => rfl
  | some ix =>
    rw [hfound] at h
    dsimp only at h
    rw [Option.bind_some]
    cases hregion : (growRegions text).regions[ix]? with
    | none => rfl
    | some region =>
      rw [hregion] at h
      dsimp only at h
      split_ifs at h with hlt
      exact if_neg hlt

/-! ## The writable view -/

/-- `CachedMapWritableText` does not return 0: the view is cached, or the host can give it. -/
def CachedMapMaps (nap : NaClApp) (offset size : ℕ) (host : Bool) : Prop :=
  if offset = nap.text.mapcacheOffset ∧ size = nap.text.mapcacheSize then
    nap.text.mapcacheRet ≠ none
  else if 0 < size then
    naclDescImcShmMap offset size host = true
  else
    nap.text.mapcacheSize = 0 ∧ nap.text.mapcacheRet ≠ none

def WritableViewMaps (nap : NaClApp) (dest size : ℕ) (host : Bool) : Prop :=
  CachedMapMaps nap (shmMapRange nap dest size).1 (shmMapRange nap dest size).2 host

theorem clearMapcache_mapcacheRet : (clearMapcache nap).text.mapcacheRet ≠ none ↔
    nap.text.mapcacheSize = 0 ∧ nap.text.mapcacheRet ≠ none := by
  unfold clearMapcache
  split_ifs with hpos
  · exact iff_of_false (not_not.2 rfl) fun h => hpos.ne' h.1
  · exact (and_iff_right (Nat.eq_zero_of_not_pos hpos)).symm

theorem cachedMapWritableText_of_not {offset : ℕ} {host : Bool}
    (h : ¬ CachedMapMaps nap offset size host) :
    ∃ nap', cachedMapWritableText nap offset size host = .ok (nap', none) ∧
      nap'.text.regions = nap.text.regions := by
  have hclear : (clearMapcache nap).text.regions = nap.text.regions := by
    unfold clearMapcache
    split_ifs
    · rfl
    · rfl
  unfold CachedMapMaps at h
  rw [← clearMapcache_mapcacheRet] at h
  unfold cachedMapWritableText
  dsimp only
  split_ifs at h ⊢
  · exact ⟨nap, by rw [not_not.1 h], rfl⟩
  · exact ⟨_, rfl, hclear⟩
  · exact ⟨_, by rw [not_not.1 h], hclear⟩

theorem not_cachedMapMaps {offset : ℕ} {host : Bool}
    (h : cachedMapWritableText nap offset size host = .ok (nap', none)) :
    ¬ CachedMapMaps nap offset size host := by
  unfold cachedMapWritableText at h
  unfold CachedMapMaps
  rw [← clearMapcache_mapcacheRet]
  dsimp only at h ⊢
  split_ifs at h ⊢
  · exact not_not.2 (congrArg Prod.snd (Except.ok.inj h))
  · split at h
    · cases h
    · cases h
  · assumption
  · exact not_not.2 (congrArg Prod.snd (Except.ok.inj h))

theorem naclTextMapWrapper_of_not {host : Bool} (h : ¬ WritableViewMaps nap dest size host) :
    ∃ nap', naclTextMapWrapper nap dest size host = .ok (nap', none) ∧
      nap'.text.regions = nap.text.regions := by
  obtain ⟨nap', hmap, hregions⟩ := cachedMapWritableText_of_not h
  refine ⟨nap', ?_, hregions⟩
  rw [naclTextMapWrapper_eq, hmap]
  rfl

theorem not_writableViewMaps {host : Bool}
    (h : naclTextMapWrapper nap dest size host = .ok (nap', none)) :
    ¬ WritableViewMaps nap dest size host := by
  obtain ⟨ret, hmap, hret⟩ := exists_of_naclTextMapWrapper h
  rw [Option.map_eq_none_iff.1 hret.symm] at hmap
  exact not_cachedMapMaps hmap

/-! ## The call -/

/-- What `NaClTextDyncodeCreate` makes of the validator: whether the code passes, and the code. -/
def dyncodeValidation (nap : NaClApp) (codeCopy : ℕ → UInt8) (ans : DyncodeAnswers) :
    Bool × (ℕ → UInt8) :=
  if nap.skipValidator then (true, codeCopy) else ans.validate codeCopy

/-- The checks of `NaClTextDyncodeCreate` let the request pass: there is a dynamic text area, the
range is one of whole bundles in it, and the code passes the validator. -/
structure DyncodeAdmitted (nap : NaClApp) (dest : ℕ) (codeCopy : ℕ → UInt8) (size : ℕ)
    (ans : DyncodeAnswers) : Prop where
  textShm : nap.text.textShm ≠ none
  dest_mod : dest % nap.bundleSize = 0
  size_mod : size % nap.bundleSize = 0
  addr : naclUserToSysAddrRange nap.space dest size ≠ kNaClBadAddress
  start_le : nap.dynamicTextStart ≤ dest
  le_end : (dest + size) % 2 ^ 32 ≤ usub nap.dynamicTextEnd naclHaltSledSize
  size_ne : size ≠ 0
  valid : ((dyncodeValidation nap codeCopy ans).1 || nap.ignoreValidatorResult) = true

theorem naclTextDyncodeCreate_of_admitted (h : DyncodeAdmitted nap dest codeCopy size ans) :
    naclTextDyncodeCreate nap dest codeCopy size ans =
      installDyncode nap dest (naclUserToSysAddrRange nap.space dest size)
        (dyncodeValidation nap codeCopy ans).2 size ans.shmMap := by
  unfold naclTextDyncodeCreate
  rw [if_neg h.textShm, if_neg (not_or.2 ⟨not_not.2 h.dest_mod, not_not.2 h.size_mod⟩),
    if_neg h.addr, if_neg (not_lt.2 h.start_le), if_neg (not_lt.2 h.le_end), if_neg h.size_ne]
  refine if_neg ?_
  rw [Bool.not_eq_true']
  exact Bool.eq_false_iff.not_left.2 h.valid

/-- The state with room for `n` regions. -/
def NaClApp.withAllocated (nap : NaClApp) (n : ℕ) : NaClApp :=
  { nap with text := { nap.text with regionsAllocated := n } }

theorem naclTextDyncodeCreate_of_not_admitted (h : ¬ DyncodeAdmitted nap dest codeCopy size ans) :
    ∃ r, ∀ n, naclTextDyncodeCreate (nap.withAllocated n) dest codeCopy size ans =
      .ok (nap.withAllocated n, r) := by
  unfold naclTextDyncodeCreate
  by_cases hshm : nap.text.textShm = none
  · exact ⟨_, fun n => if_pos hshm⟩
  by_cases hmod : dest % nap.bundleSize ≠ 0 ∨ size % nap.bundleSize ≠ 0
  · exact ⟨_, fun n => (if_neg hshm).trans (if_pos hmod)⟩
  by_cases haddr : naclUserToSysAddrRange nap.space dest size = kNaClBadAddress
  · exact ⟨_, fun n => (if_neg hshm).trans <| (if_neg hmod).trans (if_pos haddr)⟩
  by_cases hstart : dest < nap.dynamicTextStart
  · exact ⟨_, fun n => (if_neg hshm).trans <| (if_neg hmod).trans <| (if_neg haddr).trans
      (if_pos hstart)⟩
  by_cases hend : usub nap.dynamicTextEnd naclHaltSledSize < (dest + size) % 2 ^ 32
  · exact ⟨_, fun n => (if_neg hshm).trans <| (if_neg hmod).trans <| (if_neg haddr).trans <|
      (if_neg hstart).trans (if_pos hend)⟩
  by_cases hsize : size = 0
  · exact ⟨_, fun n => (if_neg hshm).trans <| (if_neg hmod).trans <| (if_neg haddr).trans <|
      (if_neg hstart).trans <| (if_neg hend).trans (if_pos hsize)⟩
  -- only the validator is left to refuse the request
  have hvalid : ((dyncodeValidation nap codeCopy ans).1 || nap.ignoreValidatorResult) = false := by
    refine Bool.eq_false_iff.2 fun hvalid => h ?_
    have hboth := not_or.1 hmod
    exact ⟨hshm, not_not.1 hboth.1, not_not.1 hboth.2, haddr, not_lt.1 hstart, not_lt.1 hend, hsize,
      hvalid⟩
  exact ⟨_, fun n => (if_neg hshm).trans <| (if_neg hmod).trans <| (if_neg haddr).trans <|
    (if_neg hstart).trans <| (if_neg hend).trans <| (if_neg hsize).trans <|
    if_pos (congrArg (!·) hvalid : _)⟩

theorem installDyncode_of_taken {destAddr : ℕ} {shmMap : Bool}
    (h : naclDynamicRegionFind nap.text.regions destAddr size ≠ none) :
    installDyncode nap dest destAddr codeCopy size shmMap =
      .ok (nap.withAllocated (growRegions nap.text).regionsAllocated, .error .einval) := by
  unfold installDyncode
  rw [naclDynamicRegionCreate_of_taken h, growRegions_eq]
  rfl

theorem retry_of_taken {n : ℕ}
    (h : naclDynamicRegionFind nap.text.regions (naclUserToSysAddrRange nap.space dest size) size ≠
      none) :
    (naclTextDyncodeCreate (nap.withAllocated n) dest codeCopy size ans).map Prod.snd =
      (naclTextDyncodeCreate nap dest codeCopy size ans).map Prod.snd := by
  by_cases hadmitted : DyncodeAdmitted nap dest codeCopy size ans
  · have hadmitted' : DyncodeAdmitted (nap.withAllocated n) dest codeCopy size ans := { hadmitted with }
    rw [naclTextDyncodeCreate_of_admitted hadmitted, naclTextDyncodeCreate_of_admitted hadmitted',
      installDyncode_of_taken h, installDyncode_of_taken (by exact h)]
    rfl
  · obtain ⟨r, hr⟩ := naclTextDyncodeCreate_of_not_admitted hadmitted
    have hsame := hr nap.text.regionsAllocated
    change naclTextDyncodeCreate nap dest codeCopy size ans = .ok (nap, r) at hsame
    rw [hsame, hr n]
    rfl

theorem installDyncode_of_not_maps {destAddr : ℕ} {shmMap : Bool}
    (hfree : naclDynamicRegionFind nap.text.regions destAddr size = none)
    (hview : ¬ WritableViewMaps nap dest size shmMap) : ∃ nap',
    installDyncode nap dest destAddr codeCopy size shmMap = .ok (nap', .error .enomem) ∧
      nap'.text.regions = (naclDynamicRegionCreate nap.text destAddr size false).1.regions ∧
      nap'.text.regions.length = nap.text.regions.length + 1 := by
  obtain ⟨regions, hcreate, hlen⟩ :
    ∃ regions, naclDynamicRegionCreate nap.text destAddr size false =
      ({ growRegions nap.text with regions }, true) ∧ _ := naclDynamicRegionCreate_of_untaken hfree
  have hview' : ¬ WritableViewMaps { nap with text := { growRegions nap.text with regions } } dest size
      shmMap := by
    rw [growRegions_eq]
    exact hview
  obtain ⟨nap', hmap, hregions⟩ := naclTextMapWrapper_of_not hview'
  refine ⟨nap', ?_, by rw [hregions, hcreate], hregions ▸ hlen⟩
  obtain ⟨wrapper, hwrapper⟩ : ∃ f, f = naclTextMapWrapper := ⟨_, rfl⟩
  obtain ⟨clearCache, hclearCache⟩ : ∃ f, f = naclTextMapClearCacheIfNeeded := ⟨_, rfl⟩
  unfold installDyncode
  rw [← hwrapper] at hmap ⊢
  rw [← hclearCache, hcreate]
  dsimp only
  rw [hmap]

theorem not_error_of_maps {destAddr : ℕ} {shmMap : Bool} {errno : NaClAbiErrno}
    (hfree : naclDynamicRegionFind nap.text.regions destAddr size = none)
    (hview : WritableViewMaps nap dest size shmMap) :
    installDyncode nap dest destAddr codeCopy size shmMap ≠ .ok (nap', .error errno) := by
  intro h
  obtain ⟨regions, hcreate, -⟩ :
    ∃ regions, naclDynamicRegionCreate nap.text destAddr size false =
      ({ growRegions nap.text with regions }, true) ∧ _ := naclDynamicRegionCreate_of_untaken hfree
  have hview' : WritableViewMaps { nap with text := { growRegions nap.text with regions } } dest size
      shmMap := by
    rw [growRegions_eq]
    exact hview
  obtain ⟨wrapper, hwrapper⟩ : ∃ f, f = naclTextMapWrapper := ⟨_, rfl⟩
  obtain ⟨clearCache, hclearCache⟩ : ∃ f, f = naclTextMapClearCacheIfNeeded := ⟨_, rfl⟩
  unfold installDyncode at h
  rw [← hwrapper, ← hclearCache, hcreate] at h
  dsimp only at h
  split at h
  · cases h
  · next hmap =>
    rw [hwrapper] at hmap
    exact not_writableViewMaps hmap hview'
  · split at h
    · cases h
    · cases h

/-- The call is atomic on error: when it returns one, the table of regions, the bytes of the dynamic
text, the page bitmap and the pages it stands for are as before, and every retry is judged as it
would have been. -/
def DyncodeAtomic (nap : NaClApp) (dest : ℕ) (codeCopy : ℕ → UInt8) (size : ℕ)
    (ans : DyncodeAnswers) : Prop :=
  ∀ nap' errno, naclTextDyncodeCreate nap dest codeCopy size ans = .ok (nap', .error errno) →
    nap'.text.regions = nap.text.regions ∧ nap'.text.shmByte = nap.text.shmByte ∧
    nap'.text.pageBitmap = nap.text.pageBitmap ∧ nap'.mem = nap.mem ∧
    ∀ ans', (naclTextDyncodeCreate nap' dest codeCopy size ans').map Prod.snd =
      (naclTextDyncodeCreate nap dest codeCopy size ans').map Prod.snd

/-- Where no region is left behind, a refused request changes nothing but the room of the table, and
that only when the range is taken. -/
theorem withAllocated_of_error {errno : NaClAbiErrno}
    (h : ¬ (DyncodeAdmitted nap dest codeCopy size ans ∧
      naclDynamicRegionFind nap.text.regions (naclUserToSysAddrRange nap.space dest size) size = none ∧
      ¬ WritableViewMaps nap dest size ans.shmMap))
    (hrun : naclTextDyncodeCreate nap dest codeCopy size ans = .ok (nap', .error errno)) :
    ∃ n, nap' = nap.withAllocated n ∧ (n = nap.text.regionsAllocated ∨
      naclDynamicRegionFind nap.text.regions (naclUserToSysAddrRange nap.space dest size) size ≠
        none) := by
  by_cases hadmitted : DyncodeAdmitted nap dest codeCopy size ans
  · rw [naclTextDyncodeCreate_of_admitted hadmitted] at hrun
    by_cases hfree : naclDynamicRegionFind nap.text.regions
        (naclUserToSysAddrRange nap.space dest size) size = none
    · have hview := not_not.1 fun hview => h ⟨hadmitted, hfree, hview⟩
      exact absurd hrun (not_error_of_maps hfree hview)
    · rw [installDyncode_of_taken hfree] at hrun
      cases hrun
      exact ⟨_, rfl, Or.inr hfree⟩
  · obtain ⟨r, hr⟩ := naclTextDyncodeCreate_of_not_admitted hadmitted
    have hsame := hr nap.text.regionsAllocated
    change naclTextDyncodeCreate nap dest codeCopy size ans = .ok (nap, r) at hsame
    rw [hsame] at hrun
    cases hrun
    exact ⟨_, rfl, Or.inl rfl⟩

/-- `NaClTextDyncodeCreate` is atomic unless it has registered a region of a range that was free when
the writable view cannot be had. -/
theorem dyncodeAtomic_iff (nap : NaClApp) (dest : ℕ) (codeCopy : ℕ → UInt8) (size : ℕ)
    (ans : DyncodeAnswers) : DyncodeAtomic nap dest codeCopy size ans ↔
      ¬ (DyncodeAdmitted nap dest codeCopy size ans ∧
        naclDynamicRegionFind nap.text.regions (naclUserToSysAddrRange nap.space dest size) size = none ∧
        ¬ WritableViewMaps nap dest size ans.shmMap) := by
  constructor
  · rintro hatomic ⟨hadmitted, hfree, hview⟩
    obtain ⟨nap', hinstall, -, hlen⟩ := installDyncode_of_not_maps hfree hview
    have hregions := (hatomic nap' _ ((naclTextDyncodeCreate_of_admitted hadmitted).trans hinstall)).1
    rw [hregions] at hlen
    exact Nat.succ_ne_self _ hlen.symm
  · intro h nap' errno hrun
    obtain ⟨n, rfl, rfl | htaken⟩ := withAllocated_of_error h hrun
    · exact ⟨rfl, rfl, rfl, rfl, fun _ => rfl⟩
    · exact ⟨rfl, rfl, rfl, rfl, fun _ => retry_of_taken htaken⟩

/-- A valid bundle of code at the start of the dynamic text, which the host cannot map. -/
theorem not_dyncodeAtomic : ¬ ∀ nap dest codeCopy size ans,
    DyncodeAtomic nap dest codeCopy size ans := by
  intro h
  have hadmitted : DyncodeAdmitted smallApp 0x20000 (fun _ => 0x90) 32
      ⟨fun code => (true, code), false⟩ :=
    ⟨by decide, by decide, by decide, by decide +kernel, by decide, by decide, by decide, by decide⟩
  have hfree : naclDynamicRegionFind smallApp.text.regions
      (naclUserToSysAddrRange smallApp.space 0x20000 32) 32 = none := by decide
  have hview : ¬ WritableViewMaps smallApp 0x20000 32 false := by
    unfold WritableViewMaps CachedMapMaps
    decide
  obtain ⟨nap', hinstall, -, hlen⟩ := installDyncode_of_not_maps hfree hview
  have hregions := (h _ _ _ _ _ _ _ ((naclTextDyncodeCreate_of_admitted hadmitted).trans hinstall)).1
  rw [hregions] at hlen
  exact Nat.succ_ne_self _ hlen.symm

end

end SandboxingNaCl
