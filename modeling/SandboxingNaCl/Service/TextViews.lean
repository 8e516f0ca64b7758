import SandboxingNaCl.Service.DeleteGenerations

/-!
# The cached view and the bitmap of pages

The calls of `MakeDynamicCodePagesVisible` that a mapping of writable text makes, and what holds of
the cache, the bitmap and the contents of `text_shm` over a sequence of mappings.
-/

namespace SandboxingNaCl

open MachineInt PagedMemory Runs

/-- The blocks of pages that the loop of `CachedMapWritableText` makes visible. -/
def visibleBlocks (bits : List Bool) : ℕ → ℕ → ℕ → List (ℕ × ℕ)
  | 0, _, _ => []
  | n + 1, current, last =>
    if current < last then
      let block := ((bits.drop current).take (last - current)).takeWhile (!·)
      let blockEnd := current + block.length
      (if current < blockEnd then [(current, blockEnd)] else []) ++
        visibleBlocks bits n (blockEnd + 1) last
    else []

/-- `MakeDynamicCodePagesVisible` on one block after the other. -/
def makeBlocksVisible (nap : NaClApp) (blocks : List (ℕ × ℕ)) : Except Fault NaClApp :=
  blocks.foldlM (fun nap block => makeDynamicCodePagesVisible nap block.1 block.2) nap

def blockPages (blocks : List (ℕ × ℕ)) : List ℕ :=
  blocks.flatMap fun block => List.range' block.1 (block.2 - block.1)

/-- The calls of `MakeDynamicCodePagesVisible` by `CachedMapWritableText`. -/
def cachedMapBlocks (nap : NaClApp) (offset size : ℕ) (host : Bool) : List (ℕ × ℕ) :=
  if offset = nap.text.mapcacheOffset ∧ size = nap.text.mapcacheSize then
    []
  else if 0 < size ∧ naclDescImcShmMap offset size host = true then
    let last := (offset + size) % 2 ^ 32 / naclMapPageSize
    visibleBlocks nap.text.pageBitmap last (offset / naclMapPageSize) last
  else []

/-- The calls of `MakeDynamicCodePagesVisible` by `NaClTextMapWrapper`. -/
def textMapBlocks (nap : NaClApp) (dest size : ℕ) (host : Bool) : List (ℕ × ℕ) :=
  cachedMapBlocks nap (shmMapRange nap dest size).1 (shmMapRange nap dest size).2 host

/-! ## The blocks -/

section Blocks

variable {bits bits' : List Bool} {block : ℕ × ℕ} {k : ℕ}

theorem blockPages_cons (block : ℕ × ℕ) (blocks : List (ℕ × ℕ)) :
    blockPages (block :: blocks) = List.range' block.1 (block.2 - block.1) ++ blockPages blocks :=
  List.flatMap_cons

theorem mem_blockPages {blocks : List (ℕ × ℕ)} :
    k ∈ blockPages blocks ↔ ∃ block ∈ blocks, block.1 ≤ k ∧ k < block.2 := by
  unfold blockPages
  rw [List.mem_flatMap]
  refine exists_congr fun block => and_congr_right fun _ => ?_
  rw [List.mem_range'_1]
  omega

theorem takeWhile_bits {current last : ℕ} {block : List Bool} (hlast : last ≤ bits.length)
    (hlt : current < last)
    (hblock : block = ((bits.drop current).take (last - current)).takeWhile (!·)) :
    current + block.length ≤ last ∧
      (∀ k, current ≤ k → k < current + block.length → bits[k]? = some false) ∧
      (current + block.length < last → bits[current + block.length]? = some true) := by
  obtain ⟨span, hspan⟩ : ∃ span, span = (bits.drop current).take (last - current) := ⟨_, rfl⟩
  have hget : ∀ j, j < last - current → span[j]? = bits[current + j]? := by
    intro j hj
    rw [hspan, List.getElem?_take_of_lt hj, List.getElem?_drop]
  have hlen : span.length = last - current := by
    rw [hspan, List.length_take, List.length_drop]
    omega
  rw [← hspan] at hblock
  have hpre : block <+: span := hblock ▸ List.takeWhile_prefix _
  have hle := hpre.length_le
  refine ⟨by omega, fun k hlo hhi => ?_, fun hend => ?_⟩
  · have hk : k - current < block.length := by omega
    have hmem : block[k - current] ∈ span.takeWhile (!·) := hblock ▸ List.getElem_mem hk
    have hfalse : block[k - current] = false := by
      simpa using List.all_eq_true.1 List.all_takeWhile _ hmem
    have hspanGet := hpre.getElem hk
    have := hget (k - current) (by omega)
    rw [Nat.add_sub_cancel' hlo, List.getElem?_eq_getElem (by omega), ← hspanGet, hfalse] at this
    exact this.symm
  · rw [← hget block.length (by omega)]
    have hdrop := List.head?_dropWhile_not (!·) span
    have hsplit := List.takeWhile_append_dropWhile (p := (!·)) (l := span)
    rw [← hblock] at hsplit
    have hhead : (span.dropWhile (!·)).head? = span[block.length]? := by
      conv_rhs => rw [← hsplit]
      rw [List.getElem?_append_right le_rfl, Nat.sub_self, List.head?_eq_getElem?]
    rw [hhead, List.getElem?_eq_getElem (by omega)] at hdrop
    rw [List.getElem?_eq_getElem (by omega)]
    simpa using hdrop

/-- What the scan of the bitmap finds: the pages of the range that are not visible, each once. -/
structure BlocksSpec (bits : List Bool) (current last : ℕ) (blocks : List (ℕ × ℕ)) : Prop where
  bounds : ∀ block ∈ blocks, current ≤ block.1 ∧ block.1 < block.2 ∧ block.2 ≤ last
  sorted : blocks.Pairwise fun block block' => block.2 ≤ block'.1
  hidden : ∀ k ∈ blockPages blocks, bits[k]? = some false
  covers : ∀ k, current ≤ k → k < last → bits[k]? = some false → k ∈ blockPages blocks

theorem visibleBlocks_spec (n current last : ℕ) (hlast : last ≤ bits.length)
    (hn : last - current ≤ n) :
    BlocksSpec bits current last (visibleBlocks bits n current last) := by
  induction n generalizing current with
  | zero =>
    exact ⟨by simp [visibleBlocks], .nil, by simp [visibleBlocks, blockPages],
      fun k hlo hhi => by omega⟩
  | succ n ih =>
    unfold visibleBlocks
    by_cases hlt : current < last
    · rw [if_pos hlt]
      dsimp only
      obtain ⟨block, hblock⟩ : ∃ block, block =
        ((bits.drop current).take (last - current)).takeWhile (!·) := ⟨_, rfl⟩
      obtain ⟨hle, hfalse, htrue⟩ := takeWhile_bits hlast hlt hblock
      rw [← hblock]
      obtain ⟨hbounds, hsorted, hhidden, hcovers⟩ := ih (current + block.length + 1) (by omega)
      have hskip : bits[current + block.length]? = some false → last ≤ current + block.length := by
        intro h
        by_contra hnot
        rw [htrue (by omega)] at h
        cases h
      split_ifs with hempty
      · refine ⟨?_, ?_, ?_, ?_⟩
        · intro b hb
          rcases List.mem_cons.1 hb with rfl | hb
          · exact ⟨le_rfl, hempty, hle⟩
          · have := hbounds b hb
            omega
        · refine List.pairwise_cons.2 ⟨fun b hb => ?_, hsorted⟩
          have := hbounds b hb
          dsimp only
          omega
        · intro k hk
          rw [List.singleton_append, blockPages_cons, List.mem_append] at hk
          rcases hk with hk | hk
          · rw [List.mem_range'_1] at hk
            exact hfalse k hk.1 (by omega)
          · exact hhidden k hk
        · intro k hlo hhi hk
          rw [List.singleton_append, blockPages_cons, List.mem_append, List.mem_range'_1]
          by_cases hin : k < current + block.length
          · exact Or.inl ⟨hlo, by omega⟩
          · refine Or.inr (hcovers k ?_ hhi hk)
            by_contra hnot
            obtain rfl : k = current + block.length := by omega
            have := hskip hk
            omega
      · rw [List.nil_append]
        refine ⟨fun b hb => ?_, hsorted, hhidden, fun k hlo hhi hk => hcovers k ?_ hhi hk⟩
        · have := hbounds b hb
          omega
        · by_contra hnot
          obtain rfl : k = current + block.length := by omega
          have := hskip hk
          omega
    · rw [if_neg hlt]
      exact ⟨by simp, .nil, by simp [blockPages], fun k hlo hhi => by omega⟩

theorem visibleBlocks_congr (n current last : ℕ)
    (h : ∀ k, current ≤ k → bits[k]? = bits'[k]?) :
    visibleBlocks bits n current last = visibleBlocks bits' n current last := by
  induction n generalizing current with
  | zero => rfl
  | succ n ih =>
    have hdrop : bits.drop current = bits'.drop current := by
      refine List.ext_getElem? fun j => ?_
      rw [List.getElem?_drop, List.getElem?_drop]
      exact h _ (Nat.le_add_right _ _)
    unfold visibleBlocks
    dsimp only
    rw [hdrop, ih _ fun k hk => h k (by omega)]

end Blocks

/-! ## Making the blocks visible -/

section Fill

variable {nap nap' nap'' : NaClApp}

/-- The pages are filled with halts and made visible, and no others. -/
structure PagesFilled (nap nap' : NaClApp) (pages : List ℕ) : Prop where
  bit : ∀ k, nap'.text.pageBitmap[k]? =
    if k ∈ pages then nap.text.pageBitmap[k]?.map fun _ => true else nap.text.pageBitmap[k]?
  byte : ∀ i, nap'.text.shmByte i =
    if i / naclMapPageSize ∈ pages then naclHaltOpcode else nap.text.shmByte i
  frame : nap'.space = nap.space ∧ nap'.dynamicTextStart = nap.dynamicTextStart ∧
    nap'.dynamicTextEnd = nap.dynamicTextEnd ∧ nap'.dataEnd = nap.dataEnd ∧
    nap'.breakAddr = nap.breakAddr

theorem PagesFilled.of_text {text : DynamicText} (hbits : text.pageBitmap = nap.text.pageBitmap)
    (hbyte : text.shmByte = nap.text.shmByte) : PagesFilled nap { nap with text } [] := by
  refine ⟨fun k => ?_, fun i => ?_, rfl, rfl, rfl, rfl, rfl⟩
  · rw [if_neg List.not_mem_nil]
    exact congrArg (·[k]?) hbits
  · rw [if_neg List.not_mem_nil]
    exact congrFun hbyte i

theorem PagesFilled.refl (nap : NaClApp) : PagesFilled nap nap [] := .of_text rfl rfl

theorem PagesFilled.trans {pages pages' : List ℕ} (h : PagesFilled nap nap' pages)
    (h' : PagesFilled nap' nap'' pages') : PagesFilled nap nap'' (pages ++ pages') := by
  obtain ⟨hspace, hstart, hend, hdata, hbreak⟩ := h.frame
  obtain ⟨hspace', hstart', hend', hdata', hbreak'⟩ := h'.frame
  refine ⟨fun k => ?_, fun i => ?_, hspace'.trans hspace, hstart'.trans hstart, hend'.trans hend,
    hdata'.trans hdata, hbreak'.trans hbreak⟩
  · rw [h'.bit k, h.bit k]
    by_cases hk : k ∈ pages <;> by_cases hk' : k ∈ pages' <;> simp [hk, hk']
  · rw [h'.byte i, h.byte i]
    by_cases hi : i / naclMapPageSize ∈ pages <;> by_cases hi' : i / naclMapPageSize ∈ pages' <;>
      simp [hi, hi']

theorem PagesFilled.length {pages : List ℕ} (h : PagesFilled nap nap' pages) :
    nap'.text.pageBitmap.length = nap.text.pageBitmap.length := by
  have hnone : ∀ k : ℕ, nap'.text.pageBitmap[k]? = none ↔ nap.text.pageBitmap[k]? = none := by
    intro k
    rw [h.bit k]
    split_ifs <;> simp
  have h₁ := (hnone nap.text.pageBitmap.length).2 (List.getElem?_eq_none le_rfl)
  have h₂ := (hnone nap'.text.pageBitmap.length).1 (List.getElem?_eq_none le_rfl)
  rw [List.getElem?_eq_none_iff] at h₁ h₂
  exact le_antisymm h₁ h₂

theorem PagesFilled.of_notMem {pages : List ℕ} {k : ℕ} (h : PagesFilled nap nap' pages)
    (hk : k ∉ pages) : nap'.text.pageBitmap[k]? = nap.text.pageBitmap[k]? := by
  rw [h.bit k, if_neg hk]

/-- Pages that are not visible hold no code, and all pages are in the sandbox. -/
structure NaClApp.Unfilled (nap : NaClApp) : Prop where
  layout : nap.Layout
  end_le : nap.dynamicTextEnd ≤ 2 ^ nap.space.addrBits
  zero : ∀ i, nap.text.pageBitmap[i / naclMapPageSize]? = some false → nap.text.shmByte i = 0

theorem PagesFilled.unfilled {pages : List ℕ} (h : PagesFilled nap nap' pages)
    (hnap : nap.Unfilled) : nap'.Unfilled := by
  obtain ⟨hspace, hstart, hend, hdata, hbreak⟩ := h.frame
  refine ⟨⟨?_, ?_, ?_, ?_, ?_⟩, ?_, fun i hi => ?_⟩
  · rw [hstart]
    exact hnap.layout.start_le
  · rw [hstart]
    exact hnap.layout.dvd_start
  · rw [hstart, hend, h.length]
    exact hnap.layout.end_eq
  · rw [hend, hdata]
    exact hnap.layout.end_le
  · rw [hdata, hbreak]
    exact hnap.layout.dataEnd_le
  · rw [hend, hspace]
    exact hnap.end_le
  · rw [h.bit] at hi
    rw [h.byte]
    split_ifs at hi ⊢ with hmem
    · simp at hi
    · exact hnap.zero i hi

theorem exists_makeDynamicCodePagesVisible {first last : ℕ} (h : nap.Unfilled) (hlt : first < last)
    (hbits : ∀ k, first ≤ k → k < last → nap.text.pageBitmap[k]? = some false) :
    ∃ nap', makeDynamicCodePagesVisible nap first last = .ok nap' := by
  have hpage : 0 < naclMapPageSize := by decide
  have hlast : last ≤ nap.text.pageBitmap.length := by
    have hbit := hbits (last - 1) (by omega) (by omega)
    have := (List.getElem?_eq_some_iff.1 hbit).1
    omega
  have hclear : ¬ ((nap.text.pageBitmap.drop first).take (last - first)).any id = true := by
    rw [Bool.not_eq_true, List.any_eq_false]
    intro bit hbit
    obtain ⟨j, hj⟩ := List.mem_iff_getElem?.1 hbit
    have hlt' : j < last - first := by
      have := (List.getElem?_eq_some_iff.1 hj).1
      rw [List.length_take] at this
      omega
    rw [List.getElem?_take_of_lt hlt', List.getElem?_drop, hbits _ (by omega) (by omega)] at hj
    cases hj
    exact Bool.false_ne_true
  have haddr : ∃ addr,
      naclUserToSys nap.space (nap.dynamicTextStart + first * naclMapPageSize) = some addr := by
    have := Nat.mul_lt_mul_of_pos_right (hlt.trans_le hlast) hpage
    have := h.layout.end_eq
    have := h.layout.start_le
    have := h.end_le
    have : 0 < naclTrampolineEnd := by decide
    unfold naclUserToSys
    rw [if_neg (by omega)]
    exact ⟨_, rfl⟩
  have hzero : nap.text.shmByte (first * naclMapPageSize) = 0 := by
    refine h.zero _ ?_
    rw [Nat.mul_div_cancel _ hpage]
    exact hbits first le_rfl hlt
  obtain ⟨addr, haddr⟩ := haddr
  simp only [makeDynamicCodePagesVisible, if_neg (not_lt.2 hlast), if_neg hclear, haddr,
    if_neg (not_not.2 hzero)]
  exact ⟨_, rfl⟩

theorem pagesFilled_makeDynamicCodePagesVisible {first last : ℕ}
    (hrun : makeDynamicCodePagesVisible nap first last = .ok nap') :
    PagesFilled nap nap' (List.range' first (last - first)) := by
  have hmem : ∀ k, k ∈ List.range' first (last - first) ↔ first ≤ k ∧ k < last := by
    intro k
    rw [List.mem_range'_1]
    omega
  simp only [makeDynamicCodePagesVisible] at hrun
  split_ifs at hrun <;> split at hrun <;> cases hrun
  refine ⟨fun k => ?_, fun i => ?_, rfl, rfl, rfl, rfl, rfl⟩
  · simp only [List.getElem?_mapIdx, hmem]
    by_cases hk : first ≤ k ∧ k < last
    · simp [hk]
    · simp [hk]
  · have hpage : first * naclMapPageSize ≤ i ∧ i < last * naclMapPageSize ↔
        first ≤ i / naclMapPageSize ∧ i / naclMapPageSize < last := by
      unfold naclMapPageSize naclMapPageShift
      omega
    simp only [hmem, hpage]

theorem makeBlocksVisible_filled {blocks : List (ℕ × ℕ)} (h : nap.Unfilled)
    (hblocks : ∀ block ∈ blocks, block.1 < block.2)
    (hsorted : blocks.Pairwise fun block block' => block.2 ≤ block'.1)
    (hhidden : ∀ k ∈ blockPages blocks, nap.text.pageBitmap[k]? = some false) :
    ∃ nap', makeBlocksVisible nap blocks = .ok nap' ∧ PagesFilled nap nap' (blockPages blocks) := by
  induction blocks generalizing nap with
  | nil => exact ⟨nap, rfl, .refl nap⟩
  | cons block blocks ih =>
    rw [blockPages_cons] at hhidden ⊢
    obtain ⟨hfirst, hsorted⟩ := List.pairwise_cons.1 hsorted
    obtain ⟨mid, hmid⟩ := exists_makeDynamicCodePagesVisible h
      (hblocks block List.mem_cons_self) fun k hlo hhi => hhidden k (by
        rw [List.mem_append, List.mem_range'_1]
        omega)
    have hfill := pagesFilled_makeDynamicCodePagesVisible hmid
    obtain ⟨last, hlast, hrest⟩ := ih (hfill.unfilled h)
      (fun b hb => hblocks b (List.mem_cons_of_mem _ hb)) hsorted fun k hk => by
        rw [hfill.of_notMem]
        · exact hhidden k (List.mem_append_right _ hk)
        · obtain ⟨b, hb, hlo, -⟩ := mem_blockPages.1 hk
          have := hfirst b hb
          rw [List.mem_range'_1]
          omega
    refine ⟨last, ?_, hfill.trans hrest⟩
    unfold makeBlocksVisible at hlast ⊢
    rw [List.foldlM_cons, hmid]
    exact hlast

theorem makePagesVisibleLoop_eq (n current last : ℕ) (h : nap.Unfilled)
    (hlast : last ≤ nap.text.pageBitmap.length) (hn : last - current ≤ n) :
    makePagesVisibleLoop n nap current last =
      makeBlocksVisible nap (visibleBlocks nap.text.pageBitmap n current last) := by
  induction n generalizing nap current with
  | zero => rfl
  | succ n ih =>
    unfold makePagesVisibleLoop visibleBlocks
    dsimp only
    by_cases hlt : current < last
    · rw [if_pos hlt, if_pos hlt]
      obtain ⟨block, hblock⟩ : ∃ block, block =
        ((nap.text.pageBitmap.drop current).take (last - current)).takeWhile (!·) := ⟨_, rfl⟩
      obtain ⟨hle, hfalse, -⟩ := takeWhile_bits hlast hlt hblock
      rw [← hblock]
      by_cases hempty : current < current + block.length
      · rw [if_pos hempty, if_pos hempty, List.singleton_append]
        obtain ⟨mid, hmid⟩ := exists_makeDynamicCodePagesVisible h hempty hfalse
        have hfill := pagesFilled_makeDynamicCodePagesVisible hmid
        have hcongr : visibleBlocks mid.text.pageBitmap n (current + block.length + 1) last =
            visibleBlocks nap.text.pageBitmap n (current + block.length + 1) last := by
          refine visibleBlocks_congr n _ last fun k hk => hfill.of_notMem ?_
          rw [List.mem_range'_1]
          omega
        unfold makeBlocksVisible
        rw [List.foldlM_cons, hmid]
        exact (ih _ (hfill.unfilled h) (by rw [hfill.length]; exact hlast) (by omega)).trans
          (congrArg _ hcongr)
      · rw [if_neg hempty, if_neg hempty, List.nil_append]
        exact ih _ h hlast (by omega)
    · rw [if_neg hlt, if_neg hlt]
      rfl

end Fill

/-! ## Mappings -/

section Mapping

variable {nap nap' : NaClApp} {dest size : ℕ} {host : Bool}

/-- The state of the cache and of the bitmap between two mappings. -/
structure NaClApp.ViewsSound (nap : NaClApp) : Prop where
  unfilled : nap.Unfilled
  end_lt : nap.dynamicTextEnd < 2 ^ 32
  live : nap.text.mapcacheRet ≠ none ↔ 0 < nap.text.mapcacheSize
  ret : ∀ ret, nap.text.mapcacheRet = some ret → ret = nap.text.mapcacheOffset
  visible : ∀ k, nap.text.mapcacheOffset ≤ k * naclMapPageSize →
    (k + 1) * naclMapPageSize ≤ nap.text.mapcacheOffset + nap.text.mapcacheSize →
    nap.text.pageBitmap[k]? = some true

def InBounds (nap : NaClApp) (dest size : ℕ) : Prop :=
  nap.dynamicTextStart ≤ dest ∧ dest + size ≤ nap.dynamicTextEnd

instance : Decidable (InBounds nap dest size) := inferInstanceAs (Decidable (_ ∧ _))

theorem clearMapcache_spec (h : nap.ViewsSound) :
    PagesFilled nap (clearMapcache nap) [] ∧ (clearMapcache nap).ViewsSound ∧
      (clearMapcache nap).text.mapcacheSize = 0 := by
  have hpage : 0 < naclMapPageSize := by decide
  unfold clearMapcache
  split_ifs with hsize
  · have hfill : PagesFilled nap { nap with text := { nap.text with
        mapcacheOffset := 0, mapcacheSize := 0, mapcacheRet := none } } [] := .of_text rfl rfl
    refine ⟨hfill, ⟨hfill.unfilled h.unfilled, h.end_lt, by simp, nofun, fun k _ hk => ?_⟩, rfl⟩
    exact absurd hk (Nat.not_le.2 (Nat.mul_pos (Nat.succ_pos k) hpage))
  · exact ⟨.refl nap, h, by omega⟩

/-- What a mapping does to the text: the blocks of pages, which are not visible, are made so. -/
structure ViewMapped (nap nap' : NaClApp) (blocks : List (ℕ × ℕ)) : Prop where
  filled : PagesFilled nap nap' (blockPages blocks)
  hidden : ∀ k ∈ blockPages blocks, nap.text.pageBitmap[k]? = some false
  nodup : (blockPages blocks).Nodup
  calls : ∃ mid, makeBlocksVisible (clearMapcache nap) blocks = .ok mid ∧
    nap'.text.pageBitmap = mid.text.pageBitmap ∧ nap'.text.shmByte = mid.text.shmByte

theorem clearMapcache_text (nap : NaClApp) :
    (clearMapcache nap).text.pageBitmap = nap.text.pageBitmap ∧
      (clearMapcache nap).text.shmByte = nap.text.shmByte := by
  unfold clearMapcache
  split_ifs
  · exact ⟨rfl, rfl⟩
  · exact ⟨rfl, rfl⟩

theorem ViewMapped.refl (nap : NaClApp) : ViewMapped nap nap [] :=
  ⟨.refl nap, by simp [blockPages], .nil, _, rfl, (clearMapcache_text nap).1.symm,
    (clearMapcache_text nap).2.symm⟩

theorem ViewMapped.clear (h : nap.ViewsSound) : ViewMapped nap (clearMapcache nap) [] :=
  ⟨(clearMapcache_spec h).1, by simp [blockPages], .nil, _, rfl, rfl, rfl⟩

theorem BlocksSpec.nodup {bits : List Bool} {current last : ℕ} {blocks : List (ℕ × ℕ)}
    (h : BlocksSpec bits current last blocks) : (blockPages blocks).Nodup := by
  refine List.nodup_flatMap.2 ⟨fun block _ => List.nodup_range' _, ?_⟩
  refine h.sorted.imp fun {block block'} hle k hk hk' => ?_
  rw [List.mem_range'_1] at hk hk'
  omega

theorem cachedMapWritableText_hit (h : nap.ViewsSound) {a n : ℕ}
    (hoffset : a * naclMapPageSize = nap.text.mapcacheOffset)
    (hsize : n * naclMapPageSize = nap.text.mapcacheSize) {v : ℕ}
    (hv : nap.text.mapcacheRet = some v) : v = a * naclMapPageSize ∧
      ∀ k, a ≤ k → k < a + n → nap.text.pageBitmap[k]? = some true := by
  refine ⟨?_, fun k hlo hhi => h.visible k ?_ ?_⟩
  · rw [hoffset]
    exact h.ret v hv
  · rw [← hoffset]
    exact Nat.mul_le_mul_right _ hlo
  · rw [← hoffset, ← hsize, ← Nat.add_mul]
    exact Nat.mul_le_mul_right _ hhi

theorem makePagesVisibleLoop_spec (h : nap.ViewsSound) (a n : ℕ)
    (hle : a + n ≤ nap.text.pageBitmap.length) :
    ∃ last, makePagesVisibleLoop (a + n) (clearMapcache nap) a (a + n) = .ok last ∧
      ViewMapped nap last (visibleBlocks nap.text.pageBitmap (a + n) a (a + n)) ∧
      ∀ k, a ≤ k → k < a + n → last.text.pageBitmap[k]? = some true := by
  obtain ⟨hclear, hcleared, -⟩ := clearMapcache_spec h
  have hbits := (clearMapcache_text nap).1
  have hspec := visibleBlocks_spec (a + n) a (a + n) hle (by omega)
  have hlast : a + n ≤ (clearMapcache nap).text.pageBitmap.length := by
    rw [hbits]
    exact hle
  rw [makePagesVisibleLoop_eq _ _ _ hcleared.unfilled hlast (by omega), hbits]
  obtain ⟨blocks, hblocks⟩ : ∃ blocks, blocks =
    visibleBlocks nap.text.pageBitmap (a + n) a (a + n) := ⟨_, rfl⟩
  rw [← hblocks] at hspec ⊢
  obtain ⟨last, hrun, hfill⟩ := makeBlocksVisible_filled hcleared.unfilled
    (fun block hblock => (hspec.bounds block hblock).2.1) hspec.sorted
    fun k hk => by rw [hbits]; exact hspec.hidden k hk
  refine ⟨last, hrun, ⟨hclear.trans hfill, hspec.hidden, hspec.nodup, last, hrun, rfl, rfl⟩,
    fun k hlo hhi => ?_⟩
  rw [hfill.bit, hbits]
  by_cases hk : k ∈ blockPages blocks
  · rw [if_pos hk, hspec.hidden k hk]
    rfl
  · rw [if_neg hk]
    cases hbit : nap.text.pageBitmap[k]? with
    | none =>
      rw [List.getElem?_eq_none_iff] at hbit
      omega
    | some bit =>
      cases bit with
      | false => exact absurd (hspec.covers k hlo hhi hbit) hk
      | true => rfl

theorem cachedMapWritableText_spec (h : nap.ViewsSound) (a n : ℕ) (host : Bool)
    (hle : a + n ≤ nap.text.pageBitmap.length) :
    ∃ nap' ret, cachedMapWritableText nap (a * naclMapPageSize) (n * naclMapPageSize) host =
        .ok (nap', ret) ∧ nap'.ViewsSound ∧
      ViewMapped nap nap'
        (cachedMapBlocks nap (a * naclMapPageSize) (n * naclMapPageSize) host) ∧
      ∀ v, ret = some v → v = a * naclMapPageSize ∧
        ∀ k, a ≤ k → k < a + n → nap'.text.pageBitmap[k]? = some true := by
  have hpage : 0 < naclMapPageSize := by decide
  have hlt : (a + n) * naclMapPageSize < 2 ^ 32 := by
    have := Nat.mul_le_mul_right naclMapPageSize hle
    have := h.unfilled.layout.end_eq
    have := h.end_lt
    omega
  obtain ⟨-, hcleared, huncached⟩ := clearMapcache_spec h
  rw [cachedMapWritableText, cachedMapBlocks]
  by_cases hhit : a * naclMapPageSize = nap.text.mapcacheOffset ∧
      n * naclMapPageSize = nap.text.mapcacheSize
  · rw [if_pos hhit, if_pos hhit]
    exact ⟨nap, _, rfl, h, .refl nap, fun v hv => cachedMapWritableText_hit h hhit.1 hhit.2 hv⟩
  rw [if_neg hhit, if_neg hhit]
  by_cases hpos : 0 < n * naclMapPageSize
  · rw [if_pos hpos]
    by_cases hshm : naclDescImcShmMap (a * naclMapPageSize) (n * naclMapPageSize) host = true
    · have hmap : 0 < n * naclMapPageSize ∧
          naclDescImcShmMap (a * naclMapPageSize) (n * naclMapPageSize) host = true := ⟨hpos, hshm⟩
      have hlast : a + n ≤ (clearMapcache nap).text.pageBitmap.length := by
        rw [(clearMapcache_text nap).1]
        exact hle
      obtain ⟨last, hrun, hmapped, hall⟩ := makePagesVisibleLoop_spec h a n hle
      rw [if_pos hshm, if_pos hmap, ← Nat.add_mul, Nat.mod_eq_of_lt hlt,
        Nat.mul_div_cancel _ hpage, Nat.mul_div_cancel _ hpage, if_neg (not_lt.2 hlast), hrun]
      have hcache : PagesFilled last { last with text := { last.text with
          mapcacheOffset := a * naclMapPageSize, mapcacheSize := n * naclMapPageSize,
          mapcacheRet := some (a * naclMapPageSize) } } [] := .of_text rfl rfl
      have hfill := hmapped.filled.trans hcache
      rw [List.append_nil] at hfill
      refine ⟨_, _, rfl, ⟨hfill.unfilled h.unfilled, ?_, ?_, ?_, ?_⟩,
        ⟨hfill, hmapped.hidden, hmapped.nodup, hmapped.calls⟩, ?_⟩
      · rw [hfill.frame.2.2.1]
        exact h.end_lt
      · simpa using hpos
      · intro v hv
        cases hv
        rfl
      · intro k hlo hhi
        rw [← Nat.add_mul] at hhi
        exact hall k (Nat.le_of_mul_le_mul_right hlo hpage) (Nat.le_of_mul_le_mul_right hhi hpage)
      · intro v hv
        cases hv
        exact ⟨rfl, hall⟩
    · rw [if_neg hshm, if_neg fun hmap => hshm hmap.2]
      exact ⟨_, _, rfl, hcleared, .clear h, nofun⟩
  · rw [if_neg hpos, if_neg fun hmap => hpos hmap.1]
    refine ⟨_, _, rfl, hcleared, .clear h, fun v hv => ?_⟩
    have hlive := hcleared.live.1 fun hnone => by rw [hnone] at hv; cases hv
    omega

/-- A mapping of a range in the dynamic text succeeds or the host refuses it, and the pointer handed
out is to the offset of the range in `text_shm`, on pages that are visible. -/
theorem naclTextMapWrapper_spec (host : Bool) (h : nap.ViewsSound) (hin : InBounds nap dest size) :
    ∃ nap' ret, naclTextMapWrapper nap dest size host = .ok (nap', ret) ∧
      nap'.ViewsSound ∧ ViewMapped nap nap' (textMapBlocks nap dest size host) ∧
      ∀ v, ret = some v → v = dest - nap.dynamicTextStart ∧ ∀ i, v ≤ i → i < v + size →
        nap'.text.pageBitmap[i / naclMapPageSize]? = some true := by
  obtain ⟨hlo, hhi⟩ := hin
  have hpage : 0 < naclMapPageSize := by decide
  have hstart := h.unfilled.layout.start_le
  have hend := h.unfilled.layout.end_eq
  have hlt := h.end_lt
  have htramp : 0 < naclTrampolineEnd := by decide
  have hhi' : dest + size ≤ 2 ^ 32 := by omega
  obtain ⟨a, n, -, hview, hmod, hcover, hcover', hoff⟩ :=
    shmMapRange_spec h.unfilled.layout hlo (by omega) hhi'
  have hle : a + n ≤ nap.text.pageBitmap.length := by
    refine Nat.le_of_lt_succ (Nat.lt_of_mul_lt_mul_right (a := naclMapPageSize) ?_)
    rw [Nat.succ_mul]
    omega
  obtain ⟨nap', ret, hrun, hsound, hmapped, hret⟩ := cachedMapWritableText_spec h a n host hle
  have hblocks : textMapBlocks nap dest size host =
      cachedMapBlocks nap (a * naclMapPageSize) (n * naclMapPageSize) host := by
    unfold textMapBlocks
    rw [hview]
  rw [hblocks]
  rw [naclTextMapWrapper_eq, hview, hoff, hrun]
  refine ⟨nap', _, rfl, hsound, hmapped, fun v hv => ?_⟩
  obtain ⟨w, hw, rfl⟩ := Option.map_eq_some_iff.1 hv
  obtain ⟨rfl, hvisible⟩ := hret w hw
  refine ⟨hmod, fun i hilo hihi => hvisible _ ?_ ?_⟩
  · rw [Nat.le_div_iff_mul_le hpage]
    omega
  · rw [Nat.div_lt_iff_lt_mul hpage]
    omega

theorem naclTextMapClearCacheIfNeeded_spec (h : nap.ViewsSound) (dest size : ℕ) :
    ∃ nap', naclTextMapClearCacheIfNeeded nap dest size = .ok nap' ∧ PagesFilled nap nap' [] ∧
      nap'.ViewsSound := by
  obtain ⟨hclear, hsound, -⟩ := clearMapcache_spec h
  unfold naclTextMapClearCacheIfNeeded cachedMapWritableText
  simp only [lt_irrefl, if_false]
  split_ifs
  · exact ⟨nap, rfl, .refl nap, h⟩
  · exact ⟨_, rfl, hclear, hsound⟩
  · exact ⟨nap, rfl, .refl nap, h⟩

end Mapping

/-! ## Sequences of mappings -/

/-- Code is written to a range through a mapping of it: `stores` gives the bytes of `text_shm` from
those before and the address of the range.  `clears` is false when `NaClSysDyncodeModify` fails after
the mapping. -/
structure TextWrite where
  dest : ℕ
  size : ℕ
  host : Bool
  stores : (ℕ → UInt8) → ℕ → ℕ → UInt8
  clears : Bool
  within : ∀ shmByte mappedAddr i, ¬ (mappedAddr ≤ i ∧ i < mappedAddr + size) →
    stores shmByte mappedAddr i = shmByte i

/-- What the calls do with the dynamic text, and whether the host has made the mapping. -/
def textWrite (nap : NaClApp) (write : TextWrite) : Except Fault (NaClApp × Bool) :=
  (naclTextMapWrapper nap write.dest write.size write.host).bind fun result =>
    match result with
    | (nap, none) => .ok (nap, false)
    | (nap, some mappedAddr) =>
      let nap := { nap with text := { nap.text with
        shmByte := write.stores nap.text.shmByte mappedAddr } }
      if write.clears then
        (naclTextMapClearCacheIfNeeded nap write.dest write.size).map fun nap => (nap, true)
      else
        .ok (nap, true)

theorem copyBundleHeads_of_notMem {shmByte src : ℕ → UInt8} {dest size bundleSize i : ℕ}
    (h : ¬ (dest ≤ i ∧ i < dest + size)) :
    copyBundleHeads shmByte dest src size bundleSize i = shmByte i :=
  if_neg fun hin => h ⟨hin.1, hin.2.1⟩

/-- The write of `NaClTextDyncodeCreate`. -/
def TextWrite.create (dest size : ℕ) (codeCopy : ℕ → UInt8) (bundleSize : ℕ) (host : Bool) :
    TextWrite where
  dest := dest
  size := size
  host := host
  stores shmByte mappedAddr := copyCodeSafelyInitial shmByte mappedAddr codeCopy size bundleSize
  clears := true
  within _ _ _ h := copyCodeSafelyInitial_of_notMem h

/-- The write of `NaClSysDyncodeModify`. -/
def TextWrite.modify (dest size : ℕ) (stores : ℕ → Option UInt8) (copied host : Bool) :
    TextWrite where
  dest := dest
  size := size
  host := host
  stores shmByte mappedAddr := naclCopyCode shmByte mappedAddr size stores
  clears := copied
  within _ _ _ h := if_neg h

/-- The write of `NaClSysDyncodeDelete`. -/
def TextWrite.delete (dest size bundleSize : ℕ) (host : Bool) : TextWrite where
  dest := dest
  size := size
  host := host
  stores shmByte mappedAddr := replaceBundleHeadsWithHalts shmByte mappedAddr size bundleSize
  clears := true
  within _ _ _ h := copyBundleHeads_of_notMem h

section

variable {nap : NaClApp} {dest size : ℕ} {shmMap : Bool}

theorem bundleSize_of_naclTextMapWrapper {mid : NaClApp} {ret : Option ℕ}
    (h : naclTextMapWrapper nap dest size shmMap = .ok (mid, ret)) :
    mid.bundleSize = nap.bundleSize := by
  rw [(textStep_naclTextMapWrapper h).eq]

theorem installDyncode_eq {destAddr : ℕ} {codeCopy : ℕ → UInt8} {text : DynamicText}
    (hcreate : naclDynamicRegionCreate nap.text destAddr size false = (text, true)) :
    (installDyncode nap dest destAddr codeCopy size shmMap).map Prod.fst =
      (textWrite { nap with text } (.create dest size codeCopy nap.bundleSize shmMap)).map
        Prod.fst := by
  have hbundle := @bundleSize_of_naclTextMapWrapper { nap with text } dest size shmMap
  obtain ⟨wrapper, hwrapper⟩ : ∃ f, f = naclTextMapWrapper := ⟨_, rfl⟩
  obtain ⟨clearCache, hclearCache⟩ : ∃ f, f = naclTextMapClearCacheIfNeeded := ⟨_, rfl⟩
  rw [installDyncode, textWrite, hcreate, ← hclearCache, ← hwrapper]
  rw [← hwrapper] at hbundle
  dsimp only [TextWrite.create]
  cases hmap : wrapper { nap with text } dest size shmMap with
  | error fault => rfl
  | ok result =>
    obtain ⟨mid, _ | v⟩ := result
    · rfl
    · have hmid : mid.bundleSize = nap.bundleSize := hbundle hmap
      dsimp only [Except.bind]
      simp only [if_true, ← hmid]
      cases clearCache { mid with text := { mid.text with
          shmByte := copyCodeSafelyInitial mid.text.shmByte v codeCopy size mid.bundleSize } }
        dest size with
      | error fault => rfl
      | ok last => rfl

theorem replaceDyncode_eq (stores : ℕ → Option UInt8) (copied : Bool) :
    (replaceDyncode nap dest size stores copied shmMap).map Prod.fst =
      (textWrite nap (.modify dest size stores copied shmMap)).map Prod.fst := by
  obtain ⟨wrapper, hwrapper⟩ : ∃ f, f = naclTextMapWrapper := ⟨_, rfl⟩
  obtain ⟨clearCache, hclearCache⟩ : ∃ f, f = naclTextMapClearCacheIfNeeded := ⟨_, rfl⟩
  rw [replaceDyncode, textWrite, ← hclearCache, ← hwrapper]
  dsimp only [TextWrite.modify]
  cases wrapper nap dest size shmMap with
  | error fault => rfl
  | ok result =>
    obtain ⟨mid, _ | v⟩ := result
    · rfl
    · dsimp only [Except.bind]
      cases copied with
      | true =>
        simp only [if_true]
        cases clearCache { mid with text := { mid.text with
            shmByte := naclCopyCode mid.text.shmByte v size stores } } dest size with
        | error fault => rfl
        | ok last => rfl
      | false => rfl

theorem markDeleted_eq (ix : ℕ) (region : NaClDynamicRegion)
    (hmax : nap.text.deleteGeneration ≠ 2 ^ 31 - 1) :
    markDeleted nap dest size ix region shmMap =
      (textWrite nap (.delete dest size nap.bundleSize shmMap)).map fun result =>
        if result.2 then
          let text := result.1.text
          let generation := text.deleteGeneration + 1
          ({ result.1 with text := { text with
              deleteGeneration := generation
              regions := text.regions.set ix { region with deleteGeneration := generation } } }, none)
        else (result.1, some .enomem) := by
  have hbundle := @bundleSize_of_naclTextMapWrapper nap dest size shmMap
  obtain ⟨wrapper, hwrapper⟩ : ∃ f, f = naclTextMapWrapper := ⟨_, rfl⟩
  obtain ⟨clearCache, hclearCache⟩ : ∃ f, f = naclTextMapClearCacheIfNeeded := ⟨_, rfl⟩
  rw [markDeleted, textWrite, if_neg hmax, ← hclearCache, ← hwrapper]
  rw [← hwrapper] at hbundle
  dsimp only [TextWrite.delete]
  cases hmap : wrapper nap dest size shmMap with
  | error fault => rfl
  | ok result =>
    obtain ⟨mid, _ | v⟩ := result
    · rfl
    · have hmid : mid.bundleSize = nap.bundleSize := hbundle hmap
      dsimp only [Except.bind]
      simp only [if_true, ← hmid]
      cases clearCache { mid with text := { mid.text with
          shmByte := replaceBundleHeadsWithHalts mid.text.shmByte v size mid.bundleSize } }
        dest size with
      | error fault => rfl
      | ok last => rfl

end

/-- A write keeps the state of the cache and the bitmap sound, and the pages it makes visible are those
of its mapping. -/
theorem textWrite_spec {nap : NaClApp} {write : TextWrite} (h : nap.ViewsSound)
    (hin : InBounds nap write.dest write.size) :
    ∃ nap' mapped, textWrite nap write = .ok (nap', mapped) ∧ nap'.ViewsSound ∧
      (∀ k, nap'.text.pageBitmap[k]? =
        if k ∈ blockPages (textMapBlocks nap write.dest write.size write.host) then
          nap.text.pageBitmap[k]?.map fun _ => true
        else nap.text.pageBitmap[k]?) := by
  obtain ⟨mid, ret, hrun, hsound, ⟨hfill, -, -, -⟩, hret⟩ := naclTextMapWrapper_spec write.host h hin
  cases ret with
  | none =>
    refine ⟨mid, false, ?_, hsound, hfill.bit⟩
    rw [textWrite, hrun]
    rfl
  | some v =>
    obtain ⟨-, hvisible⟩ := hret v rfl
    obtain ⟨text, htext⟩ : ∃ text, text = { mid.text with
      shmByte := write.stores mid.text.shmByte v } := ⟨_, rfl⟩
    have hbits : text.pageBitmap = mid.text.pageBitmap := by rw [htext]
    have hwritten : NaClApp.ViewsSound { mid with text } := by
      obtain ⟨⟨hlayout, hend, hzero⟩, hlt, hlive, hcache, hcovers⟩ := hsound
      subst htext
      refine ⟨⟨⟨hlayout.1, hlayout.2, hlayout.3, hlayout.4, hlayout.5⟩, hend, fun i hi => ?_⟩, hlt,
        hlive, hcache, hcovers⟩
      -- a page that is not visible is not written to
      have hnot : ¬ (v ≤ i ∧ i < v + write.size) := by
        intro hin
        have hbit := hvisible i hin.1 hin.2
        rw [hi] at hbit
        cases hbit
      exact (write.within _ _ _ hnot).trans (hzero i hi)
    rw [textWrite, hrun]
    dsimp only [Except.bind]
    rw [← htext]
    by_cases hclears : write.clears = true
    · obtain ⟨last, hclear, hnone, hlast⟩ :=
        naclTextMapClearCacheIfNeeded_spec hwritten write.dest write.size
      rw [if_pos hclears, hclear]
      refine ⟨last, true, rfl, hlast, fun k => ?_⟩
      rw [hnone.of_notMem List.not_mem_nil]
      exact (congrArg (·[k]?) hbits).trans (hfill.bit k)
    · rw [if_neg hclears]
      exact ⟨_, true, rfl, hwritten, fun k => (congrArg (·[k]?) hbits).trans (hfill.bit k)⟩

/-- The text, with the pages that have been filled with halts, in order. -/
structure TextViews where
  nap : NaClApp
  filled : List ℕ

namespace TextViews

def step (w : TextViews) (write : TextWrite) : Except Fault TextViews :=
  (textWrite w.nap write).map fun result =>
    ⟨result.1, w.filled ++ blockPages (textMapBlocks w.nap write.dest write.size write.host)⟩

/-- The dynamic text as the loader leaves it: no page is visible. -/
structure Initial (w : TextViews) : Prop where
  layout : w.nap.Layout
  end_lt : w.nap.dynamicTextEnd < 2 ^ 32
  end_le : w.nap.dynamicTextEnd ≤ 2 ^ w.nap.space.addrBits
  bits : ∀ bit ∈ w.nap.text.pageBitmap, bit = false
  zero : ∀ i, w.nap.text.shmByte i = 0
  uncached : w.nap.text.mapcacheOffset = 0 ∧ w.nap.text.mapcacheSize = 0 ∧
    w.nap.text.mapcacheRet = none
  filled : w.filled = []

/-- The pages filled so far are the visible ones, each filled once. -/
structure Inv (w : TextViews) : Prop where
  sound : w.nap.ViewsSound
  nodup : w.filled.Nodup
  mem_filled : ∀ k, k ∈ w.filled ↔ w.nap.text.pageBitmap[k]? = some true

theorem Initial.inv {w : TextViews} (h : w.Initial) : w.Inv := by
  obtain ⟨hoffset, hsize, hret⟩ := h.uncached
  refine ⟨⟨⟨h.layout, h.end_le, fun i _ => h.zero i⟩, h.end_lt, ?_, ?_, fun k _ hk => ?_⟩, ?_,
    fun k => ?_⟩
  · simp [hret, hsize]
  · simp [hret]
  · rw [hoffset, hsize] at hk
    exact absurd hk (Nat.not_le.2 (Nat.mul_pos (Nat.succ_pos k) (by decide)))
  · rw [h.filled]
    exact .nil
  · rw [h.filled]
    refine ⟨nofun, fun hbit => ?_⟩
    have := h.bits true (List.mem_of_getElem? hbit)
    cases this

/-- A mapping of a range in the dynamic text, with what is done through it, is possible, and it keeps
the invariant. -/
theorem exists_step {w : TextViews} {write : TextWrite} (h : w.Inv)
    (hin : InBounds w.nap write.dest write.size) : ∃ w', w.step write = .ok w' ∧ w'.Inv := by
  obtain ⟨nap', mapped, hrun, hsound, hbit⟩ := textWrite_spec h.sound hin
  obtain ⟨-, -, -, -, ⟨-, hhidden, hnodup, -⟩, -⟩ := naclTextMapWrapper_spec write.host h.sound hin
  obtain ⟨pages, hpages⟩ : ∃ pages, pages =
    blockPages (textMapBlocks w.nap write.dest write.size write.host) := ⟨_, rfl⟩
  rw [← hpages] at hbit hhidden hnodup
  refine ⟨⟨nap', w.filled ++ pages⟩, ?_, hsound, ?_, fun k => ?_⟩
  · rw [step, hrun, hpages]
    rfl
  · refine List.nodup_append.2 ⟨h.nodup, hnodup, fun k hk k' hk' heq => ?_⟩
    subst heq
    have hset := (h.mem_filled k).1 hk
    rw [hhidden k hk'] at hset
    cases hset
  · rw [List.mem_append, h.mem_filled, hbit]
    by_cases hk : k ∈ pages
    · simp [hk, hhidden k hk]
    · simp [hk]

/-- What holds of the cache, of the bitmap and of the mappings that are made next. -/
structure Kept (w : TextViews) : Prop where
  /-- The two states of the comment in `CachedMapWritableText`. -/
  live : w.nap.text.mapcacheRet ≠ none ↔ 0 < w.nap.text.mapcacheSize
  visible : ∀ k, w.nap.text.mapcacheOffset ≤ k * naclMapPageSize →
    (k + 1) * naclMapPageSize ≤ w.nap.text.mapcacheOffset + w.nap.text.mapcacheSize →
    w.nap.text.pageBitmap[k]? = some true
  filled_once : w.filled.Nodup
  mem_filled : ∀ k, k ∈ w.filled ↔ w.nap.text.pageBitmap[k]? = some true
  /-- Only pages that are not visible are made so, and the pointer handed out is to visible ones. -/
  next : ∀ dest size host, InBounds w.nap dest size →
    ∃ nap' ret, naclTextMapWrapper w.nap dest size host = .ok (nap', ret) ∧
      ViewMapped w.nap nap' (textMapBlocks w.nap dest size host) ∧
      (∀ i, w.nap.text.pageBitmap[i / naclMapPageSize]? = some true →
        nap'.text.shmByte i = w.nap.text.shmByte i) ∧
      ∀ v, ret = some v → v = dest - w.nap.dynamicTextStart ∧ ∀ i, v ≤ i → i < v + size →
        nap'.text.pageBitmap[i / naclMapPageSize]? = some true

theorem Inv.kept {w : TextViews} (h : w.Inv) : w.Kept := by
  refine ⟨h.sound.live, h.sound.visible, h.nodup, h.mem_filled, fun dest size host hin => ?_⟩
  obtain ⟨nap', ret, hrun, -, hmapped, hret⟩ := naclTextMapWrapper_spec host h.sound hin
  refine ⟨nap', ret, hrun, hmapped, fun i hi => ?_, hret⟩
  rw [hmapped.filled.byte, if_neg]
  intro hmem
  rw [hmapped.hidden _ hmem] at hi
  cases hi

/-- Over every sequence of writes to ranges in the dynamic text the cached mapping covers visible pages,
no page is made visible and filled with halts twice or after code has been written to it, and a
mapping is always of the pages of its range. -/
theorem kept_of_writes {w : TextViews} {writes : List TextWrite} (h : w.Initial)
    (hin : Guarded step (fun w write => InBounds w.nap write.dest write.size) w writes) :
    ∃ w', writes.foldlM step w = .ok w' ∧ w'.Kept := by
  obtain ⟨w', hrun, hinv⟩ := hin.exists_run (fun _ _ => exists_step) h.inv
  exact ⟨w', hrun, hinv.kept⟩

/-- A sandbox in which code is created on the first page of the dynamic text. -/
theorem kept_of_writes_smallApp : ∃ w', [TextWrite.create 0x20000 32 (fun _ => 0x90) 32 true].foldlM
    step ⟨smallApp, []⟩ = .ok w' ∧ w'.Kept :=
  kept_of_writes ⟨smallApp_layout, by decide, by decide, by decide, fun _ => rfl,
    ⟨rfl, rfl, rfl⟩, rfl⟩ ⟨by decide, fun _ _ => trivial⟩

end TextViews

end SandboxingNaCl
