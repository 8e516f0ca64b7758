import SandboxingNaCl.Service.SysMemoryEffects

/-!
# Where dynamic code is written

Code is written through a view of `text_shm`, a range of whole pages.  Making a view changes the
bitmap and fills pages with halts inside the view only, and the view handed out lies in `text_shm`.
-/

namespace SandboxingNaCl

open MachineInt PagedMemory

/-- The cached view, if there is one, is one of `text_shm`. -/
def DynamicText.MapcacheSound (text : DynamicText) : Prop :=
  ∀ ret, text.mapcacheRet = some ret → ret = text.mapcacheOffset ∧
    text.mapcacheOffset + text.mapcacheSize ≤ text.pageBitmap.length * naclMapPageSize

/-- What the loader establishes about the dynamic text and the calls keep.  The dynamic text ends where
a segment of the image starts, which is below `2 ^ 32`. -/
structure NaClApp.TextSound (nap : NaClApp) : Prop where
  layout : nap.Layout
  end_lt : nap.dynamicTextEnd < 2 ^ 32
  mapcache : nap.text.MapcacheSound

theorem NaClApp.TextSound.sled_le {nap : NaClApp} (h : nap.TextSound) :
    naclHaltSledSize ≤ nap.dynamicTextEnd ∧
      usub nap.dynamicTextEnd naclHaltSledSize = nap.dynamicTextEnd - naclHaltSledSize := by
  have hstart := h.layout.start_le
  have hend := h.layout.end_eq
  have hlt := h.end_lt
  have hsled : naclHaltSledSize ≤ naclTrampolineEnd := by decide
  have hle : naclHaltSledSize ≤ nap.dynamicTextEnd := by omega
  exact ⟨hle, usub_eq hle (by omega)⟩

theorem smallApp_textSound : smallApp.TextSound :=
  ⟨smallApp_layout, by decide, nofun⟩

/-- The page is in the view `[a, b)` and not yet visible to untrusted code. -/
def NaClApp.Hidden (nap : NaClApp) (a b k : ℕ) : Prop :=
  nap.text.pageBitmap[k]? = some false ∧ a ≤ k * naclMapPageSize ∧ (k + 1) * naclMapPageSize ≤ b

/-- Page bits and the host's pages change only for hidden pages of the view `[a, b)`, and bytes only in
it and to halts. -/
structure ViewStep (nap nap' : NaClApp) (a b : ℕ) : Prop where
  bit : ∀ k, nap'.text.pageBitmap[k]? = nap.text.pageBitmap[k]? ∨ nap.Hidden a b k
  page : ∀ p, nap'.mem.page p = nap.mem.page p ∨ ∃ k, nap.Hidden a b k ∧
    nap.dynamicTextStart / naclPageSize + k * naclPagesPerMap ≤ p ∧
    p < nap.dynamicTextStart / naclPageSize + (k + 1) * naclPagesPerMap
  byte : ∀ i, nap'.text.shmByte i = nap.text.shmByte i ∨
    (a ≤ i ∧ i < b ∧ nap'.text.shmByte i = naclHaltOpcode)
  regions : nap'.text.regions = nap.text.regions
  length : nap'.text.pageBitmap.length = nap.text.pageBitmap.length
  start_eq : nap'.dynamicTextStart = nap.dynamicTextStart

section

variable {nap nap' nap'' : NaClApp} {a b : ℕ}

theorem ViewStep.of_text {text : DynamicText} (a b : ℕ)
    (hbits : text.pageBitmap = nap.text.pageBitmap) (hbyte : text.shmByte = nap.text.shmByte)
    (hregions : text.regions = nap.text.regions) : ViewStep nap { nap with text } a b :=
  ⟨fun k => Or.inl (by rw [hbits]), fun _ => Or.inl rfl, fun i => Or.inl (by rw [hbyte]), hregions,
    by rw [hbits], rfl⟩

theorem ViewStep.refl (nap : NaClApp) (a b : ℕ) : ViewStep nap nap a b := .of_text a b rfl rfl rfl

theorem ViewStep.hidden {c d k : ℕ} (h : ViewStep nap nap' a b) (hk : nap'.Hidden c d k) :
    nap'.text.pageBitmap[k]? = nap.text.pageBitmap[k]? ∧ nap.Hidden c d k ∨ nap.Hidden a b k :=
  (h.bit k).imp_left fun hsame => ⟨hsame, hsame ▸ hk.1, hk.2⟩

theorem ViewStep.trans (h : ViewStep nap nap' a b) (h' : ViewStep nap' nap'' a b) :
    ViewStep nap nap'' a b := by
  have hhidden : ∀ k, nap'.Hidden a b k → nap.Hidden a b k := fun k hk =>
    (h.hidden hk).elim And.right id
  refine ⟨fun k => ?_, fun p => ?_, fun i => ?_, h'.regions.trans h.regions,
    h'.length.trans h.length, h'.start_eq.trans h.start_eq⟩
  · rcases h'.bit k with hk | hk
    · rw [hk]
      exact h.bit k
    · exact Or.inr (hhidden k hk)
  · rcases h'.page p with hp | ⟨k, hk, hlo, hhi⟩
    · rw [hp]
      exact h.page p
    · rw [h.start_eq] at hlo hhi
      exact Or.inr ⟨k, hhidden k hk, hlo, hhi⟩
  · rcases h'.byte i with hi | hi
    · rw [hi]
      exact h.byte i
    · exact Or.inr hi

theorem ViewStep.mono {c d : ℕ} (h : ViewStep nap nap' a b) (hc : c ≤ a) (hd : b ≤ d) :
    ViewStep nap nap' c d := by
  have hhidden : ∀ k, nap.Hidden a b k → nap.Hidden c d k :=
    fun k ⟨hbit, hlo, hhi⟩ => ⟨hbit, hc.trans hlo, hhi.trans hd⟩
  refine ⟨fun k => (h.bit k).imp_right (hhidden k), fun p => (h.page p).imp_right ?_,
    fun i => (h.byte i).imp_right ?_, h.regions, h.length, h.start_eq⟩
  · exact fun ⟨k, hk, hp⟩ => ⟨k, hhidden k hk, hp⟩
  · exact fun ⟨hlo, hhi, hhalt⟩ => ⟨hc.trans hlo, hhi.trans_le hd, hhalt⟩

end

/-! ## Making a view -/

section View

variable {nap nap' : NaClApp} {first last : ℕ}

theorem viewStep_makeDynamicCodePagesVisible
    (hrun : makeDynamicCodePagesVisible nap first last = .ok nap') :
    ViewStep nap nap' (first * naclMapPageSize) (last * naclMapPageSize) := by
  simp only [makeDynamicCodePagesVisible] at hrun
  split_ifs at hrun with hlen hset hbyte <;> split at hrun <;> cases hrun
  have hhidden : ∀ k, first ≤ k → k < last →
      nap.Hidden (first * naclMapPageSize) (last * naclMapPageSize) k := by
    intro k hlo hhi
    refine ⟨?_, Nat.mul_le_mul_right _ hlo, Nat.mul_le_mul_right _ hhi⟩
    have hk : k < nap.text.pageBitmap.length := by omega
    rw [List.getElem?_eq_getElem hk]
    by_contra hne
    refine hset (List.any_eq_true.2 ⟨true, ?_, rfl⟩)
    rw [List.mem_iff_getElem?]
    refine ⟨k - first, ?_⟩
    rw [List.getElem?_take_of_lt (by omega), List.getElem?_drop, Nat.add_sub_cancel' hlo,
      List.getElem?_eq_getElem hk]
    simpa using hne
  refine ⟨fun k => ?_, fun p => ?_, fun i => ?_, rfl, List.length_mapIdx, rfl⟩
  · rw [List.getElem?_mapIdx]
    by_cases hk : first ≤ k ∧ k < last
    · exact Or.inr (hhidden k hk.1 hk.2)
    · refine Or.inl ?_
      simp [hk]
  · simp only [Memory.mprotect]
    split_ifs with hp
    · refine Or.inr ⟨(p - nap.dynamicTextStart / naclPageSize) / naclPagesPerMap,
        hhidden _ ?_ ?_, ?_, ?_⟩ <;>
      unfold naclMapPageSize naclMapPageShift naclPageSize naclPageShift at * <;>
      unfold naclPagesPerMap naclMapPageShift naclPageShift <;> omega
    · exact Or.inl rfl
  · dsimp only
    split_ifs with hi
    · exact Or.inr ⟨hi.1, hi.2, rfl⟩
    · exact Or.inl rfl

theorem mapcacheSound_makeDynamicCodePagesVisible (h : nap.text.MapcacheSound)
    (hrun : makeDynamicCodePagesVisible nap first last = .ok nap') :
    nap'.text.MapcacheSound := by
  have hlen := (viewStep_makeDynamicCodePagesVisible hrun).length
  simp only [makeDynamicCodePagesVisible] at hrun
  split_ifs at hrun <;> split at hrun <;> cases hrun
  intro ret hret
  rw [hlen]
  exact h ret hret

theorem viewStep_makePagesVisibleLoop (n current : ℕ)
    (hrun : makePagesVisibleLoop n nap current last = .ok nap') :
    ViewStep nap nap' (current * naclMapPageSize) (last * naclMapPageSize) := by
  induction n generalizing nap current with
  | zero =>
    cases hrun
    exact .refl _ _ _
  | succ n ih =>
    rw [makePagesVisibleLoop] at hrun
    dsimp only at hrun
    by_cases hlt : current < last
    · rw [if_pos hlt] at hrun
      set block := ((nap.text.pageBitmap.drop current).take (last - current)).takeWhile (!·)
        with hset
      have hblock : current + block.length ≤ last := by
        have hlen := (List.takeWhile_prefix (!·)
          (l := (nap.text.pageBitmap.drop current).take (last - current))).length_le
        rw [← hset] at hlen
        have := hlen.trans (List.length_take_le _ _)
        omega
      split at hrun
      · cases hrun
      · next mid hmid =>
        have hrest := (ih _ hrun).mono (Nat.mul_le_mul_right naclMapPageSize
          (show current ≤ current + block.length + 1 by omega)) le_rfl
        refine ViewStep.trans ?_ hrest
        split_ifs at hmid
        · exact (viewStep_makeDynamicCodePagesVisible hmid).mono le_rfl
            (Nat.mul_le_mul_right _ hblock)
        · cases hmid
          exact .refl _ _ _
    · rw [if_neg hlt] at hrun
      cases hrun
      exact .refl _ _ _

theorem viewStep_clearMapcache (nap : NaClApp) (a b : ℕ) :
    ViewStep nap (clearMapcache nap) a b := by
  unfold clearMapcache
  split_ifs
  · exact .of_text a b rfl rfl rfl
  · exact .refl _ _ _

theorem mapcacheSound_clearMapcache (h : nap.text.MapcacheSound) :
    (clearMapcache nap).text.MapcacheSound := by
  unfold clearMapcache
  split_ifs
  · intro ret hret
    cases hret
  · exact h

theorem viewStep_cachedMapWritableText {offset size : ℕ} {host : Bool} {ret : Option ℕ}
    (h : nap.text.MapcacheSound) (hlt : offset < 2 ^ 32) (hlt' : size < 2 ^ 32)
    (hoff : naclMapPageSize ∣ offset) (hsize : naclMapPageSize ∣ size)
    (hrun : cachedMapWritableText nap offset size host = .ok (nap', ret)) :
    ViewStep nap nap' offset (offset + size) ∧ nap'.text.MapcacheSound ∧
      (0 < size → ∀ v, ret = some v →
        v = offset ∧ offset + size ≤ nap.text.pageBitmap.length * naclMapPageSize) := by
  unfold cachedMapWritableText at hrun
  dsimp only at hrun
  have hclear := viewStep_clearMapcache nap offset (offset + size)
  have hsound := mapcacheSound_clearMapcache h
  split_ifs at hrun with hcached hpos hshm hlen
  · cases hrun
    refine ⟨.refl _ _ _, h, fun _ v hv => ?_⟩
    obtain ⟨rfl, rfl⟩ := hcached
    exact h v hv
  · split at hrun
    · cases hrun
    · next mid hmid =>
      cases hrun
      have hsum : offset + size < 2 ^ 32 := by
        simp only [naclDescImcShmMap, Bool.and_eq_true, decide_eq_true_iff] at hshm
        have hup : offset + size ≤ naclRoundAllocPage (offset + size) :=
          le_alignUp (by unfold naclMapPageShift; omega)
        omega
      obtain ⟨a, rfl⟩ := dvd_iff_exists_eq_mul_left.1 hoff
      obtain ⟨n, rfl⟩ := dvd_iff_exists_eq_mul_left.1 hsize
      have hpage : 0 < naclMapPageSize := by decide
      rw [← Nat.add_mul] at hsum hclear ⊢
      rw [← Nat.add_mul, Nat.mod_eq_of_lt hsum, Nat.mul_div_cancel _ hpage] at hmid hlen
      rw [Nat.mul_div_cancel _ hpage] at hmid
      have hview := viewStep_makePagesVisibleLoop _ _ hmid
      have hbits : mid.text.pageBitmap.length = nap.text.pageBitmap.length :=
        hview.length.trans hclear.length
      have hle : (a + n) * naclMapPageSize ≤ nap.text.pageBitmap.length * naclMapPageSize := by
        refine Nat.mul_le_mul_right _ ?_
        rw [← hclear.length]
        exact not_lt.1 hlen
      refine ⟨(hclear.trans hview).trans (.of_text _ _ rfl rfl rfl),
        fun v hv => ?_, fun _ v hv => ?_⟩
      · cases hv
        refine ⟨rfl, ?_⟩
        dsimp only
        rwa [hbits, ← Nat.add_mul]
      · cases hv
        exact ⟨rfl, hle⟩
  · cases hrun
    exact ⟨hclear, hsound, fun _ v hv => by cases hv⟩
  · cases hrun
    exact ⟨hclear, hsound, fun hpos' => absurd hpos' hpos⟩

theorem shmMapRange_spec {dest size : ℕ} (h : nap.Layout) (hlo : nap.dynamicTextStart ≤ dest)
    (hlt : dest < 2 ^ 32) (hhi : dest + size ≤ 2 ^ 32) : ∃ a n, (0 < size → 0 < n) ∧
      shmMapRange nap dest size = (a * naclMapPageSize, n * naclMapPageSize) ∧
      a * naclMapPageSize + (dest - nap.dynamicTextStart) % naclMapPageSize =
        dest - nap.dynamicTextStart ∧
      dest - nap.dynamicTextStart + size ≤ (a + n) * naclMapPageSize ∧
      (a + n) * naclMapPageSize < dest - nap.dynamicTextStart + size + naclMapPageSize ∧
      (dest + (2 ^ 32 - nap.dynamicTextStart % 2 ^ 32)) % 2 ^ 32 = dest - nap.dynamicTextStart := by
  have hstart := h.start_le
  unfold naclTrampolineEnd naclTrampolineStart at hstart
  have hoff : (dest + (2 ^ 32 - nap.dynamicTextStart % 2 ^ 32)) % 2 ^ 32 =
      dest - nap.dynamicTextStart := by
    omega
  unfold shmMapRange
  dsimp only
  rw [hoff]
  generalize dest - nap.dynamicTextStart = off at *
  refine ⟨off / naclMapPageSize, (off + size + (naclMapPageSize - 1)) / naclMapPageSize -
    off / naclMapPageSize, ?_, ?_, ?_⟩
  · unfold naclMapPageSize naclMapPageShift
    omega
  · unfold alignDown naclMapPageSize naclMapPageShift
    rw [Prod.mk.injEq]
    omega
  · unfold naclMapPageSize naclMapPageShift
    omega

theorem shmMapRange_pages (nap : NaClApp) (dest size : ℕ) : ∃ a n,
    shmMapRange nap dest size = (a * naclMapPageSize, n * naclMapPageSize) ∧
      a * naclMapPageSize < 2 ^ 32 ∧ n * naclMapPageSize < 2 ^ 32 := by
  unfold shmMapRange
  dsimp only
  have hoff : (dest + (2 ^ 32 - nap.dynamicTextStart % 2 ^ 32)) % 2 ^ 32 < 2 ^ 32 :=
    Nat.mod_lt _ (by decide)
  generalize (dest + (2 ^ 32 - nap.dynamicTextStart % 2 ^ 32)) % 2 ^ 32 = off at *
  unfold alignDown
  generalize (off + size + (naclMapPageSize - 1)) % 2 ^ 32 = last
  refine ⟨off / naclMapPageSize, (last / naclMapPageSize * naclMapPageSize +
    (2 ^ 32 - off / naclMapPageSize * naclMapPageSize)) % 2 ^ 32 / naclMapPageSize, ?_, ?_, ?_⟩
  · rw [Prod.mk.injEq]
    unfold naclMapPageSize naclMapPageShift
    omega
  · exact (Nat.div_mul_le_self _ _).trans_lt hoff
  · unfold naclMapPageSize naclMapPageShift
    omega

theorem viewStep_naclTextMapWrapper {dest size : ℕ} {host : Bool} {ret : Option ℕ}
    (h : nap.text.MapcacheSound)
    (hrun : naclTextMapWrapper nap dest size host = .ok (nap', ret)) :
    ViewStep nap nap' (shmMapRange nap dest size).1
        ((shmMapRange nap dest size).1 + (shmMapRange nap dest size).2) ∧
      nap'.text.MapcacheSound ∧ (0 < (shmMapRange nap dest size).2 → ∀ v, ret = some v →
        v = (shmMapRange nap dest size).1 +
          (dest + (2 ^ 32 - nap.dynamicTextStart % 2 ^ 32)) % 2 ^ 32 % naclMapPageSize ∧
        (shmMapRange nap dest size).1 + (shmMapRange nap dest size).2 ≤
          nap.text.pageBitmap.length * naclMapPageSize) := by
  obtain ⟨a, n, hview, ha, hn⟩ := shmMapRange_pages nap dest size
  obtain ⟨r, hmap, rfl⟩ := exists_of_naclTextMapWrapper hrun
  rw [hview] at hmap ⊢
  obtain ⟨hstep, hcache, hret⟩ := viewStep_cachedMapWritableText h ha hn
    (Nat.dvd_mul_left _ _) (Nat.dvd_mul_left _ _) hmap
  refine ⟨hstep, hcache, fun hpos v hv => ?_⟩
  obtain ⟨w, hw, rfl⟩ := Option.map_eq_some_iff.1 hv
  obtain ⟨rfl, hle⟩ := hret hpos w hw
  exact ⟨rfl, hle⟩

theorem viewStep_naclTextMapClearCacheIfNeeded {dest size a b : ℕ} (h : nap.text.MapcacheSound)
    (hrun : naclTextMapClearCacheIfNeeded nap dest size = .ok nap') :
    ViewStep nap nap' a b ∧ nap'.text.MapcacheSound := by
  unfold naclTextMapClearCacheIfNeeded cachedMapWritableText at hrun
  simp only [lt_irrefl, if_false] at hrun
  split_ifs at hrun
  · cases hrun
    exact ⟨.refl _ _ _, h⟩
  · cases hrun
    exact ⟨viewStep_clearMapcache nap _ _, mapcacheSound_clearMapcache h⟩
  · cases hrun
    exact ⟨.refl _ _ _, h⟩

end View

/-! ## Creating code -/

section Create

variable {nap nap' : NaClApp} {dest size : ℕ} {codeCopy : ℕ → UInt8} {r : SysResult}

theorem copyCodeSafelyInitial_of_notMem {shmByte src : ℕ → UInt8} {bundleSize i : ℕ}
    (h : ¬ (dest ≤ i ∧ i < dest + size)) :
    copyCodeSafelyInitial shmByte dest src size bundleSize i = shmByte i := by
  unfold copyCodeSafelyInitial copyBundleHeads copyBundleTails
  rw [if_neg fun hin => h ⟨hin.1, hin.2.1⟩, if_neg fun hin => h ⟨hin.1, hin.2.1⟩]

theorem naclDynamicRegionCreate_spec {text text' : DynamicText} {start : ℕ} {isMmap free : Bool}
    (hrun : naclDynamicRegionCreate text start size isMmap = (text', free)) :
    ∃ regions regionsAllocated, text' = { text with regions, regionsAllocated } ∧
      ∀ region ∈ regions, region ∈ text.regions ∨
        free = true ∧ region = ⟨start, size, -1, isMmap⟩ := by
  have hgrow : (growRegions text).regions = text.regions ∧
      growRegions text = { text with regionsAllocated := (growRegions text).regionsAllocated } := by
    unfold growRegions
    split_ifs <;> exact ⟨rfl, rfl⟩
  have hinsert : ∀ found region,
      region ∈ insertRegion (growRegions text).regions found ⟨start, size, -1, isMmap⟩ →
      region ∈ text.regions ∨ region = ⟨start, size, -1, isMmap⟩ := by
    intro found region hmem
    rw [hgrow.1] at hmem
    exact (List.eq_or_mem_of_mem_insertIdx hmem).symm
  have hadd : ∀ found, (({ growRegions text with
        regions := insertRegion (growRegions text).regions found ⟨start, size, -1, isMmap⟩ } :
          DynamicText), true) = (text', free) →
      ∃ regions regionsAllocated, text' = { text with regions, regionsAllocated } ∧
        ∀ region ∈ regions, region ∈ text.regions ∨
          free = true ∧ region = ⟨start, size, -1, isMmap⟩ := by
    intro found heq
    cases heq
    have hmem := hinsert found
    refine ⟨_, (growRegions text).regionsAllocated, ?_, fun region hregion =>
      (hmem region hregion).imp_right fun heq => ⟨rfl, heq⟩⟩
    rw [hgrow.2]
  unfold naclDynamicRegionCreate at hrun
  dsimp only at hrun
  split at hrun
  · split_ifs at hrun
    · cases hrun
      exact ⟨text.regions, _, hgrow.2, fun region hmem => Or.inl hmem⟩
    · exact hadd _ hrun
  · exact hadd _ hrun

/-- What creating code in `[dest, dest + size)` writes: bits and halts for the pages of the range, all
of which are in `text_shm`, and the code. -/
structure CodeInstalled (nap nap' : NaClApp) (dest size : ℕ) : Prop where
  start_le : nap.dynamicTextStart ≤ dest
  end_le : dest + size + naclHaltSledSize ≤ nap.dynamicTextEnd
  view_le : (shmMapRange nap dest size).1 + (shmMapRange nap dest size).2 ≤
    nap.text.pageBitmap.length * naclMapPageSize
  bit : ∀ k, nap'.text.pageBitmap[k]? = nap.text.pageBitmap[k]? ∨
    ((shmMapRange nap dest size).1 ≤ k * naclMapPageSize ∧
      (k + 1) * naclMapPageSize ≤ (shmMapRange nap dest size).1 + (shmMapRange nap dest size).2)
  byte : ∀ i, nap'.text.shmByte i = nap.text.shmByte i ∨
    ((shmMapRange nap dest size).1 ≤ i ∧
      i < (shmMapRange nap dest size).1 + (shmMapRange nap dest size).2 ∧
      (nap'.text.shmByte i = naclHaltOpcode ∨
        (dest ≤ nap.dynamicTextStart + i ∧ nap.dynamicTextStart + i < dest + size)))
  step : TextStep nap nap'

theorem CodeInstalled.end_le_of_view (h : nap.TextSound) (hlo : nap.dynamicTextStart ≤ dest)
    (hpos : 0 < size) (hhi : dest + size ≤ 2 ^ 32)
    (hend : (dest + size) % 2 ^ 32 ≤ usub nap.dynamicTextEnd naclHaltSledSize)
    (hle : (shmMapRange nap dest size).1 + (shmMapRange nap dest size).2 ≤
      nap.text.pageBitmap.length * naclMapPageSize) :
    dest + size + naclHaltSledSize ≤ nap.dynamicTextEnd := by
  obtain ⟨a, n, hn, hview, hmod, hcover, hlt, hoff⟩ := shmMapRange_spec h.layout hlo (by omega) hhi
  have hend_eq := h.layout.end_eq
  obtain ⟨hsled, husub⟩ := h.sled_le
  rw [hview, ← Nat.add_mul] at hle
  -- the pages of the range are in the dynamic text, so that the sum has not wrapped
  have hsum : dest + size ≤ nap.dynamicTextEnd := by omega
  rw [Nat.mod_eq_of_lt (hsum.trans_lt h.end_lt), husub] at hend
  omega

theorem installDyncode_spec {destAddr : ℕ} {shmMap : Bool} (h : nap.TextSound)
    (hlo : nap.dynamicTextStart ≤ dest) (hpos : 0 < size) (hhi : dest + size ≤ 2 ^ 32)
    (hend : (dest + size) % 2 ^ 32 ≤ usub nap.dynamicTextEnd naclHaltSledSize)
    (hrun : installDyncode nap dest destAddr codeCopy size shmMap = .ok (nap', r)) :
    nap'.text.MapcacheSound ∧
      (∀ region ∈ nap'.text.regions, region ∈ nap.text.regions ∨
        region = ⟨destAddr, size, -1, false⟩) ∧
      (∀ p, nap'.mem.page p = nap.mem.page p ∨ ∃ k, nap.Hidden (shmMapRange nap dest size).1
        ((shmMapRange nap dest size).1 + (shmMapRange nap dest size).2) k ∧
        nap.dynamicTextStart / naclPageSize + k * naclPagesPerMap ≤ p ∧
        p < nap.dynamicTextStart / naclPageSize + (k + 1) * naclPagesPerMap) ∧
      (∀ v, r = .ok v → CodeInstalled nap nap' dest size) ∧
      ((∃ errno, r = .error errno) → ∀ i, nap'.text.shmByte i = nap.text.shmByte i ∨
        nap'.text.shmByte i = naclHaltOpcode) := by
  have hstep := textStep_installDyncode hrun
  obtain ⟨a, n, hn, hrange, hmod, hcover, -, hoff⟩ := shmMapRange_spec h.layout hlo (by omega) hhi
  obtain ⟨wrapper, hwrapper⟩ : ∃ f, f = naclTextMapWrapper := ⟨_, rfl⟩
  obtain ⟨clearCache, hclearCache⟩ : ∃ f, f = naclTextMapClearCacheIfNeeded := ⟨_, rfl⟩
  unfold installDyncode at hrun
  rw [← hwrapper, ← hclearCache] at hrun
  split at hrun
  · next text hcreate =>
    obtain ⟨regions, allocated, rfl, hregions⟩ := naclDynamicRegionCreate_spec hcreate
    cases hrun
    refine ⟨h.mapcache, fun region hmem => ?_, fun p => Or.inl rfl, nofun, fun _ i => Or.inl rfl⟩
    exact (hregions region hmem).imp_right And.right
  · next text hcreate =>
    obtain ⟨regions, allocated, rfl, hregions⟩ := naclDynamicRegionCreate_spec hcreate
    split at hrun
    · cases hrun
    · next mid hmap =>
      cases hrun
      rw [hwrapper] at hmap
      obtain ⟨hview, hcache, -⟩ := viewStep_naclTextMapWrapper (by exact h.mapcache) hmap
      refine ⟨hcache, fun region hmem => ?_, hview.page, nofun, fun _ i => ?_⟩
      · rw [hview.regions] at hmem
        exact (hregions region hmem).imp_right And.right
      · exact (hview.byte i).imp_right fun hi => hi.2.2
    · next mid mappedAddr hmap =>
      rw [hwrapper] at hmap
      obtain ⟨hview, hcache, hret⟩ := viewStep_naclTextMapWrapper (by exact h.mapcache) hmap
      have hview_pos : 0 < (shmMapRange nap dest size).2 := by
        rw [hrange]
        exact Nat.mul_pos (hn hpos) (by decide)
      obtain ⟨hmapped, hle⟩ := hret hview_pos mappedAddr rfl
      obtain rfl : mappedAddr = dest - nap.dynamicTextStart := by
        rw [hmapped]
        dsimp only
        rw [hoff]
        exact (congrArg (·.1 + _) hrange).trans hmod
      dsimp only at hrun
      split at hrun
      · cases hrun
      · next last hclear =>
        cases hrun
        rw [hclearCache] at hclear
        obtain ⟨hclear', hcache'⟩ := viewStep_naclTextMapClearCacheIfNeeded
          (a := (shmMapRange nap dest size).1)
          (b := (shmMapRange nap dest size).1 + (shmMapRange nap dest size).2)
          (by exact hcache) hclear
        refine ⟨hcache', fun region hmem => ?_, fun p => ?_, fun v hv => ?_, nofun⟩
        · rw [hclear'.regions] at hmem
          have hmem : region ∈ mid.text.regions := hmem
          rw [hview.regions] at hmem
          exact (hregions region hmem).imp_right And.right
        · obtain ⟨hnone, -⟩ := @viewStep_naclTextMapClearCacheIfNeeded _ _ _ _ 0 0
            (by exact hcache) hclear
          rcases hnone.page p with hp | ⟨k, ⟨-, -, hk⟩, -⟩
          · rw [hp]
            exact hview.page p
          · exact absurd hk (Nat.not_le.2 (Nat.mul_pos (Nat.succ_pos k) (by decide)))
        · refine ⟨hlo, CodeInstalled.end_le_of_view h hlo hpos hhi hend hle, hle, fun k => ?_,
            fun i => ?_, hstep⟩
          · rcases hclear'.bit k with hk | hk
            · rw [hk]
              exact (hview.bit k).imp_right And.right
            · exact Or.inr hk.2
          · rcases hclear'.byte i with hi | ⟨hlo', hhi', hhalt⟩
            · rw [hi]
              by_cases hin : dest - nap.dynamicTextStart ≤ i ∧
                  i < dest - nap.dynamicTextStart + size
              · refine Or.inr ⟨?_, ?_, Or.inr (by omega)⟩
                · rw [hrange]
                  omega
                · rw [hrange, ← Nat.add_mul]
                  omega
              · have hcopy : copyCodeSafelyInitial mid.text.shmByte
                    (dest - nap.dynamicTextStart) codeCopy size mid.bundleSize i =
                    mid.text.shmByte i := copyCodeSafelyInitial_of_notMem hin
                refine (hview.byte i).imp hcopy.trans ?_
                exact fun ⟨hlo', hhi', hhalt⟩ => ⟨hlo', hhi', Or.inl (hcopy.trans hhalt)⟩
            · exact Or.inr ⟨hlo', hhi', Or.inl hhalt⟩

theorem naclTextDyncodeCreate_cases {ans : DyncodeAnswers} (hdest : dest < 2 ^ 32)
    (hsize : size < 2 ^ 32)
    (hrun : naclTextDyncodeCreate nap dest codeCopy size ans = .ok (nap', r)) :
    (nap' = nap ∧ ∃ errno, r = .error errno) ∨
      nap.dynamicTextStart ≤ dest ∧ dest + size ≤ 2 ^ nap.space.addrBits ∧
      (dest + size) % 2 ^ 32 ≤ usub nap.dynamicTextEnd naclHaltSledSize ∧
      (size = 0 ∧ nap' = nap ∨ 0 < size ∧ ∃ code,
        installDyncode nap dest (nap.space.memStart + dest) code size ans.shmMap =
          .ok (nap', r)) := by
  have hrange := @naclUserToSysAddrRange_spec nap.space dest size
    (hdest.trans (by decide : 2 ^ 32 < 2 ^ 64)) (hsize.trans (by decide : 2 ^ 32 < 2 ^ 64))
  unfold naclTextDyncodeCreate at hrun
  dsimp only at hrun
  generalize (if nap.skipValidator = true then (true, codeCopy) else ans.validate codeCopy) =
    answer at hrun
  split_ifs at hrun with hshm hbundle hbad hlo hend hzero hvalid
  · cases hrun
    exact Or.inl ⟨rfl, _, rfl⟩
  · cases hrun
    exact Or.inl ⟨rfl, _, rfl⟩
  · cases hrun
    exact Or.inl ⟨rfl, _, rfl⟩
  · cases hrun
    exact Or.inl ⟨rfl, _, rfl⟩
  · cases hrun
    exact Or.inl ⟨rfl, _, rfl⟩
  · cases hrun
    have hle := (hrange hbad).2.1
    exact Or.inr ⟨not_lt.1 hlo, hle, not_lt.1 hend, Or.inl ⟨hzero, rfl⟩⟩
  · cases hrun
    exact Or.inl ⟨rfl, _, rfl⟩
  · obtain ⟨-, hle, haddr⟩ := hrange hbad
    rw [haddr] at hrun
    exact Or.inr ⟨not_lt.1 hlo, hle, not_lt.1 hend,
      Or.inr ⟨Nat.pos_of_ne_zero hzero, answer.2, hrun⟩⟩

theorem exists_of_returns {run : Except Fault (NaClApp × SysResult)} {v : ℕ}
    (h : (match run with | .ok (_, .ok w) => decide (w = v) | _ => false) = true) :
    ∃ nap', run = .ok (nap', .ok v) := by
  split at h
  · next nap' w =>
    rw [of_decide_eq_true h]
    exact ⟨nap', rfl⟩
  · cases h

/-- Dynamic code is created inside the dynamic text, in front of its halts, and every page bit and every
byte that changes is in `text_shm`. -/
theorem codeInstalled_of_naclTextDyncodeCreate (h : nap.TextSound) (dest size : BitVec 32)
    (codeCopy : ℕ → UInt8) (ans : DyncodeAnswers) {v : ℕ}
    (hrun : naclTextDyncodeCreate nap dest.toNat codeCopy size.toNat ans = .ok (nap', .ok v)) :
    CodeInstalled nap nap' dest.toNat size.toNat := by
  have hstep := textStep_naclTextDyncodeCreate hrun
  rcases naclTextDyncodeCreate_cases dest.isLt size.isLt hrun with
    ⟨-, errno, hr⟩ | ⟨hlo, hhi, hend, ⟨hzero, rfl⟩ | ⟨hpos, code, hinstall⟩⟩
  · cases hr
  · obtain ⟨a, n, -, hview, hmod, -, hlt, -⟩ := shmMapRange_spec h.layout hlo dest.isLt
      (hhi.trans (addrBits_pow_le _))
    have hend_eq := h.layout.end_eq
    obtain ⟨hsled, husub⟩ := h.sled_le
    rw [hzero, Nat.add_zero, Nat.mod_eq_of_lt dest.isLt, husub] at hend
    refine ⟨hlo, by omega, ?_, fun _ => Or.inl rfl, fun _ => Or.inl rfl, .refl _⟩
    rw [hview, ← Nat.add_mul]
    refine Nat.mul_le_mul_right _ ?_
    unfold naclMapPageSize naclMapPageShift at *
    omega
  · have hhi := hhi.trans (addrBits_pow_le _)
    exact (installDyncode_spec h hlo hpos hhi hend hinstall).2.2.2.1 v rfl

/-- A bundle of code in front of the last halts of the dynamic text. -/
theorem codeInstalled_of_naclTextDyncodeCreate_smallApp : ∃ nap',
    naclTextDyncodeCreate smallApp (0x3ffc0#32).toNat (fun _ => 0x90) (32#32).toNat
      ⟨fun code => (true, code), true⟩ = .ok (nap', .ok 0) ∧
    CodeInstalled smallApp nap' (0x3ffc0#32).toNat (32#32).toNat := by
  obtain ⟨nap', hrun⟩ : ∃ nap', naclTextDyncodeCreate smallApp (0x3ffc0#32).toNat (fun _ => 0x90)
      (32#32).toNat ⟨fun code => (true, code), true⟩ = .ok (nap', .ok 0) :=
    exists_of_returns (by decide +kernel)
  exact ⟨nap', hrun, codeInstalled_of_naclTextDyncodeCreate smallApp_textSound _ _ _ _ hrun⟩

end Create

/-! ## Deleting code -/

section Delete

variable {nap nap' : NaClApp} {r : SysResult}

/-- The regions left were there before, and bytes only become halts. -/
structure CodeDeleted (text text' : DynamicText) : Prop where
  mapcache : text'.MapcacheSound
  regions : ∀ region ∈ text'.regions, ∃ old ∈ text.regions,
    region.start = old.start ∧ region.size = old.size
  byte : ∀ i, text'.shmByte i = text.shmByte i ∨ text'.shmByte i = naclHaltOpcode

theorem CodeDeleted.refl {text : DynamicText} (h : text.MapcacheSound) : CodeDeleted text text :=
  ⟨h, fun region hmem => ⟨region, hmem, rfl, rfl⟩, fun _ => Or.inl rfl⟩

theorem CodeDeleted.trans {text text' text'' : DynamicText} (h : CodeDeleted text text')
    (h' : CodeDeleted text' text'') : CodeDeleted text text'' := by
  refine ⟨h'.mapcache, fun region hmem => ?_, fun i => ?_⟩
  · obtain ⟨mid, hmid, hstart, hsize⟩ := h'.regions region hmem
    obtain ⟨old, hold, hstart', hsize'⟩ := h.regions mid hmid
    exact ⟨old, hold, hstart.trans hstart', hsize.trans hsize'⟩
  · rcases h'.byte i with hi | hi
    · rw [hi]
      exact h.byte i
    · exact Or.inr hi

theorem codeDeleted_naclSetThreadGeneration {natp : ℕ} {generation : ℤ} {text : DynamicText}
    (h : nap.text.MapcacheSound)
    (hset : naclSetThreadGeneration nap.text natp generation = .ok text) :
    CodeDeleted nap.text text := by
  unfold naclSetThreadGeneration at hset
  split at hset
  · split_ifs at hset <;> cases hset
    · exact .refl h
    · exact ⟨h, fun region hmem => ⟨region, hmem, rfl, rfl⟩, fun _ => Or.inl rfl⟩
  · cases hset

theorem codeDeleted_finishDelete {natp ix : ℕ} {generation : ℤ} (h : nap.text.MapcacheSound)
    (hrun : finishDelete nap natp ix generation = .ok (nap', r)) :
    CodeDeleted nap.text nap'.text := by
  unfold finishDelete at hrun
  split at hrun
  · cases hrun
  · next text htext =>
    have hset := codeDeleted_naclSetThreadGeneration h htext
    refine hset.trans ?_
    split_ifs at hrun <;> cases hrun
    · exact ⟨hset.mapcache,
        fun region hmem => ⟨region, List.mem_of_mem_eraseIdx hmem, rfl, rfl⟩, fun _ => Or.inl rfl⟩
    · exact .refl hset.mapcache

theorem ViewStep.codeDeleted {a b : ℕ} (h : ViewStep nap nap' a b)
    (hcache : nap'.text.MapcacheSound) : CodeDeleted nap.text nap'.text := by
  refine ⟨hcache, fun region hmem => ?_, fun i => (h.byte i).imp_right fun hi => hi.2.2⟩
  rw [h.regions] at hmem
  exact ⟨region, hmem, rfl, rfl⟩

theorem codeDeleted_requestDelete {natp dest size ix : ℕ} {region : NaClDynamicRegion}
    {shmMap : Bool} (h : nap.text.MapcacheSound) (hix : nap.text.regions[ix]? = some region)
    (hrun : requestDelete nap natp dest size ix region shmMap = .ok (nap', r)) :
    CodeDeleted nap.text nap'.text := by
  obtain ⟨wrapper, hwrapper⟩ : ∃ f, f = naclTextMapWrapper := ⟨_, rfl⟩
  obtain ⟨clearCache, hclearCache⟩ : ∃ f, f = naclTextMapClearCacheIfNeeded := ⟨_, rfl⟩
  unfold requestDelete at hrun
  rw [← hwrapper, ← hclearCache] at hrun
  dsimp only at hrun
  split_ifs at hrun
  · cases hrun
    exact .refl h
  split at hrun
  · cases hrun
  · next hmap =>
    cases hrun
    rw [hwrapper] at hmap
    obtain ⟨hview, hcache, -⟩ := viewStep_naclTextMapWrapper h hmap
    exact hview.codeDeleted hcache
  · next mid mappedAddr hmap =>
    rw [hwrapper] at hmap
    obtain ⟨hview, hcache, -⟩ := viewStep_naclTextMapWrapper h hmap
    split at hrun
    · cases hrun
    · next last hclear =>
      rw [hclearCache] at hclear
      obtain ⟨hview', hcache'⟩ := @viewStep_naclTextMapClearCacheIfNeeded _ _ _ _ 0 0
        (by exact hcache) hclear
      have hhalts : CodeDeleted mid.text { mid.text with
          shmByte := replaceBundleHeadsWithHalts mid.text.shmByte mappedAddr size
            mid.bundleSize } := by
        refine ⟨hcache, fun region hmem => ⟨region, hmem, rfl, rfl⟩, fun i => ?_⟩
        dsimp only [replaceBundleHeadsWithHalts, copyBundleHeads]
        split_ifs
        · exact Or.inr rfl
        · exact Or.inl rfl
      refine (hview.codeDeleted hcache).trans (hhalts.trans
        ((hview'.codeDeleted hcache').trans ?_))
      refine CodeDeleted.trans ?_ (codeDeleted_finishDelete (by exact hcache') hrun)
      refine ⟨hcache', fun new hmem => ?_, fun _ => Or.inl rfl⟩
      rcases List.mem_or_eq_of_mem_set hmem with hmem | rfl
      · exact ⟨new, hmem, rfl, rfl⟩
      · have hmid : last.text.regions = nap.text.regions := hview'.regions.trans hview.regions
        exact ⟨region, hmid ▸ List.mem_of_getElem? hix, rfl, rfl⟩

theorem codeDeleted_naclSysDyncodeDelete {natp dest size : ℕ} {shmMap : Bool}
    (h : nap.text.MapcacheSound)
    (hrun : naclSysDyncodeDelete nap natp dest size shmMap = .ok (nap', r)) :
    CodeDeleted nap.text nap'.text := by
  unfold naclSysDyncodeDelete at hrun
  dsimp only at hrun
  split_ifs at hrun
  · cases hrun
    exact .refl h
  · cases hrun
    exact .refl h
  · split at hrun
    · cases hrun
    · next hset =>
      cases hrun
      exact codeDeleted_naclSetThreadGeneration h hset
  · cases hrun
    exact .refl h
  · split at hrun
    · next ix region hfind hbind =>
      rw [hfind] at hbind
      split_ifs at hrun
      · cases hrun
        exact .refl h
      · exact codeDeleted_requestDelete h hbind hrun
      · exact codeDeleted_finishDelete h hrun
    · cases hrun
      exact .refl h

end Delete

end SandboxingNaCl
