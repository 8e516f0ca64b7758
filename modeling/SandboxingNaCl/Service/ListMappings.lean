import SandboxingNaCl.Lib.ByteImage
import SandboxingNaCl.Service.MappingsSound

/-!
# Listing the mappings

`NaClSysListMappings`: the entries of the memory map and the dynamic regions are gathered in an array
that doubles, sorted by their start and copied out as far as the caller has space.  The entry of the
dynamic text is left out.
-/

namespace SandboxingNaCl

open MachineInt PagedMemory ByteImage SortedRanges IntervalMap

structure NaClMemMappingInfo where
  start : BitVec 32
  size : BitVec 32
  prot : BitVec 32
  maxProt : BitVec 32
  vmmapType : BitVec 32

def NaClMemMappingInfo.bytes (info : NaClMemMappingInfo) : List UInt8 :=
  ([info.start, info.size, info.prot, info.maxProt, info.vmmapType].map
    fun word => leBytes 4 word.toNat).flatten

/-- `NaClSysListMappingsState`; `regions` is the array up to `count`. -/
structure NaClSysListMappingsState where
  regions : List NaClMemMappingInfo
  capacity : ℕ
  outOfMemory : Bool

def kStartCapacity : ℕ := 8

/-- `sizeof(struct NaClMemMappingInfo)`. -/
def sizeofMappingInfo : ℕ := 20

/-- `NaClSysListMappingsAdd`; `realloc` says whether there is memory for so many elements. -/
def naclSysListMappingsAdd (realloc : ℕ → Bool) (state : NaClSysListMappingsState)
    (info : NaClMemMappingInfo) : NaClSysListMappingsState :=
  if state.outOfMemory then
    state
  else if state.regions.length = state.capacity then
    let newCapacity := if state.capacity = 0 then kStartCapacity else state.capacity * 2 % 2 ^ 32
    if state.capacity ≠ 0 ∧ (2 ^ 32 - 1) / sizeofMappingInfo < newCapacity then
      { state with outOfMemory := true }
    else if realloc newCapacity then
      { state with regions := state.regions ++ [info], capacity := newCapacity }
    else
      { state with outOfMemory := true }
  else
    { state with regions := state.regions ++ [info] }

/-- What `NaClSysListMappingsVisit` reports of an entry. -/
def NaClVmmapEntry.info (vmep : NaClVmmapEntry) : NaClMemMappingInfo where
  start := BitVec.ofNat 32 (ushl vmep.pageNum naclPageShift)
  size := BitVec.ofNat 32 (ushl vmep.npages naclPageShift)
  prot := vmep.prot
  maxProt := naclVmmapEntryMaxProt vmep
  vmmapType := if vmep.desc ≠ none then 1 else 0

/-- It leaves out what lies where the dynamic text does. -/
def NaClApp.Skips (nap : NaClApp) (info : NaClMemMappingInfo) : Prop :=
  nap.dynamicTextStart = info.start.toNat ∧ nap.dynamicTextEnd = (info.start + info.size).toNat

instance (nap : NaClApp) (info : NaClMemMappingInfo) : Decidable (nap.Skips info) :=
  inferInstanceAs (Decidable (_ ∧ _))

def naclSysListMappingsVisit (nap : NaClApp) (realloc : ℕ → Bool)
    (state : NaClSysListMappingsState) (vmep : NaClVmmapEntry) : NaClSysListMappingsState :=
  if nap.Skips vmep.info then state else naclSysListMappingsAdd realloc state vmep.info

def naclSysListMappingsDyncodeVisit (nap : NaClApp) (realloc : ℕ → Bool)
    (state : NaClSysListMappingsState) (rg : NaClDynamicRegion) :
    Except Fault NaClSysListMappingsState :=
  match naclSysToUser nap.space rg.start with
  | none => .error .fatal
  | some start =>
    .ok (naclSysListMappingsAdd realloc state
      ⟨BitVec.ofNat 32 start, BitVec.ofNat 32 rg.size, protRead ||| protExec,
        protRead ||| protExec, 0⟩)

/-- `NaClSysListMappingsOrder`, as the order `qsort` makes of it. -/
def naclSysListMappingsOrder (am bm : NaClMemMappingInfo) : Prop := am.start ≤ bm.start

instance : DecidableRel naclSysListMappingsOrder :=
  fun _ _ => inferInstanceAs (Decidable (_ ≤ _))

/-- `NaClCopyOutToUser`: whether the range is one of the sandbox.  Copying to a page that cannot be
written brings the process down. -/
def NaClApp.naclCopyOutToUser (nap : NaClApp) (dstUsrAddr : ℕ) (src : List UInt8) :
    Except Fault (Bool × NaClApp) :=
  if naclUserToSysAddrRange nap.space dstUsrAddr src.length = kNaClBadAddress then
    .ok (false, nap)
  else if src ≠ [] ∧ ¬ nap.mem.Permits (fun prot => prot &&& protWrite ≠ 0)
      (dstUsrAddr / naclPageSize) ((dstUsrAddr + src.length + (naclPageSize - 1)) / naclPageSize)
      then
    .error .badAccess
  else
    .ok (true, { nap with
      mem := nap.mem.write dstUsrAddr (dstUsrAddr + src.length) fun i =>
        src.getD (i - dstUsrAddr) 0 })

/-- The entries and the regions that are gathered, with the map that has been sorted. -/
def gatherMappings (nap : NaClApp) (realloc : ℕ → Bool) :
    Except Fault (NaClVmmap × NaClSysListMappingsState) :=
  match naclVmmapMakeSorted nap.memMap with
  | .error fault => .error (.vmmap fault)
  | .ok memMap =>
    let state := memMap.vmentry.foldl (naclSysListMappingsVisit nap realloc) ⟨[], 0, false⟩
    match nap.text.regions.foldlM (naclSysListMappingsDyncodeVisit nap realloc) state with
    | .error fault => .error fault
    | .ok state => .ok (memMap, state)

/-- `NaClSysListMappings`; `enableListMappings` is the field of `nap`. -/
def naclSysListMappings (nap : NaClApp) (enableListMappings : Bool) (realloc : ℕ → Bool)
    (regions count : BitVec 32) : Except Fault (NaClApp × SysResult) :=
  if !enableListMappings then
    .ok (nap, .error .enosys)
  else
    match gatherMappings nap realloc with
    | .error fault => .error fault
    | .ok (memMap, state) =>
      let nap := { nap with memMap }
      if state.outOfMemory then
        .ok (nap, .error .enomem)
      else
        let sorted := state.regions.insertionSort naclSysListMappingsOrder
        let count := if sorted.length < count.toNat then sorted.length else count.toNat
        match nap.naclCopyOutToUser regions.toNat
          ((sorted.take count).map (·.bytes)).flatten with
        | .error fault => .error fault
        | .ok (false, nap) => .ok (nap, .error .efault)
        | .ok (true, nap) => .ok (nap, .ok sorted.length)

/-! ## What is listed -/

def NaClDynamicRegion.info (as : AddressSpace) (rg : NaClDynamicRegion) : NaClMemMappingInfo :=
  ⟨BitVec.ofNat 32 (rg.start - as.memStart), BitVec.ofNat 32 rg.size, protRead ||| protExec,
    protRead ||| protExec, 0⟩

def NaClMemMappingInfo.stop (info : NaClMemMappingInfo) : ℕ := info.start.toNat + info.size.toNat

def NaClApp.Inside (nap : NaClApp) (info : NaClMemMappingInfo) : Prop :=
  nap.dynamicTextStart ≤ info.start.toNat ∧ info.stop ≤ nap.dynamicTextEnd

/-- The reported region does not meet the dynamic text. -/
def NaClApp.Outside (nap : NaClApp) (info : NaClMemMappingInfo) : Prop :=
  nap.dynamicTextStart < nap.dynamicTextEnd →
    info.stop ≤ nap.dynamicTextStart ∨ nap.dynamicTextEnd ≤ info.start.toNat

/-- The report is that of the entry, in exact integers. -/
structure NaClVmmapEntry.Reported (ent : NaClVmmapEntry) (info : NaClMemMappingInfo) : Prop where
  start : info.start.toNat = ent.pageNum * naclPageSize
  size : info.size.toNat = ent.npages * naclPageSize
  prot : info.prot = ent.prot
  maxProt : info.maxProt = naclVmmapEntryMaxProt ent
  vmmapType : info.vmmapType = if ent.desc = none then 0 else 1

/-- The report is that of the dynamic region. -/
structure NaClDynamicRegion.Reported (region : NaClDynamicRegion) (as : AddressSpace)
    (info : NaClMemMappingInfo) : Prop where
  start : as.memStart + info.start.toNat = region.start
  size : info.size.toNat = region.size
  prot : info.prot = protRead ||| protExec
  maxProt : info.maxProt = protRead ||| protExec
  vmmapType : info.vmmapType = 0

/-- The list is sorted, its regions are apart, and they are the entries outside the dynamic text and
the dynamic regions inside it. -/
structure MappingsListed (nap : NaClApp) (infos : List NaClMemMappingInfo) : Prop where
  separated : Separated (·.start.toNat) (·.stop) infos
  outside : ∀ info ∈ infos, ¬ nap.Inside info →
    nap.Outside info ∧ ∃ ent ∈ nap.memMap.vmentry, ent.Reported info
  inside : ∀ info ∈ infos, nap.Inside info →
    ∃ region ∈ nap.text.regions, region.Reported nap.space info
  entries : ∀ ent ∈ nap.memMap.vmentry, ¬ nap.IsTextEntry ent → ∃ info ∈ infos, ent.Reported info
  regions : ∀ region ∈ nap.text.regions, ∃ info ∈ infos, region.Reported nap.space info

section

variable {nap nap' : NaClApp} {realloc : ℕ → Bool} {state state' : NaClSysListMappingsState}
  {infos : List NaClMemMappingInfo} {memMap : NaClVmmap} {info : NaClMemMappingInfo}

/-! ## Gathering -/

theorem naclSysListMappingsAdd_of_outOfMemory (h : state.outOfMemory = true)
    (info : NaClMemMappingInfo) : naclSysListMappingsAdd realloc state info = state := if_pos h

theorem foldl_add_of_outOfMemory (h : state.outOfMemory = true) (infos : List NaClMemMappingInfo) :
    infos.foldl (naclSysListMappingsAdd realloc) state = state := by
  induction infos with
  | nil => rfl
  | cons info infos ih =>
    rw [List.foldl_cons, naclSysListMappingsAdd_of_outOfMemory h]
    exact ih

theorem regions_foldl_add
    (h : (infos.foldl (naclSysListMappingsAdd realloc) state).outOfMemory = false) :
    (infos.foldl (naclSysListMappingsAdd realloc) state).regions = state.regions ++ infos := by
  induction infos generalizing state with
  | nil => exact (List.append_nil _).symm
  | cons info infos ih =>
    rw [List.foldl_cons] at h ⊢
    have hadd : (naclSysListMappingsAdd realloc state info).outOfMemory = false := by
      rw [← Bool.not_eq_true]
      intro htrue
      rw [foldl_add_of_outOfMemory htrue, htrue] at h
      cases h
    have hregions : (naclSysListMappingsAdd realloc state info).regions =
        state.regions ++ [info] := by
      unfold naclSysListMappingsAdd at hadd ⊢
      dsimp only at hadd ⊢
      split_ifs at hadd ⊢ with hstate
      · rw [hstate] at hadd
        cases hadd
      all_goals rfl
    rw [ih h, hregions, List.append_assoc]
    rfl

theorem foldl_visit (l : List NaClVmmapEntry) :
    l.foldl (naclSysListMappingsVisit nap realloc) state =
      ((l.map (·.info)).filter fun info => ¬ nap.Skips info).foldl
        (naclSysListMappingsAdd realloc) state := by
  induction l generalizing state with
  | nil => rfl
  | cons ent l ih =>
    rw [List.foldl_cons, ih, List.map_cons, List.filter_cons]
    unfold naclSysListMappingsVisit
    by_cases hskip : nap.Skips ent.info
    · rw [if_pos hskip, if_neg (by simpa using hskip)]
    · rw [if_neg hskip, if_pos (by simpa using hskip)]
      rfl

theorem foldlM_dyncodeVisit {l : List NaClDynamicRegion}
    (hrun : l.foldlM (naclSysListMappingsDyncodeVisit nap realloc) state = .ok state') :
    state' = (l.map (·.info nap.space)).foldl (naclSysListMappingsAdd realloc) state := by
  induction l generalizing state with
  | nil =>
    cases hrun
    rfl
  | cons region l ih =>
    rw [List.foldlM_cons] at hrun
    unfold naclSysListMappingsDyncodeVisit naclSysToUser at hrun
    split_ifs at hrun with hbad
    · cases hrun
    · exact ih hrun

theorem reordered_gatherMappings (h : nap.memMap.WellFormed)
    (hrun : gatherMappings nap realloc = .ok (memMap, state)) : nap.memMap.Reordered memMap := by
  obtain ⟨sorted, hsort, hreordered, -⟩ := h.makeSorted_reordered
  unfold gatherMappings at hrun
  rw [hsort] at hrun
  dsimp only at hrun
  split at hrun
  · cases hrun
  · cases hrun
    exact hreordered

/-- What has been gathered: the entries in the order of their pages, less that of the dynamic text,
and the dynamic regions. -/
theorem regions_gatherMappings (hrun : gatherMappings nap realloc = .ok (memMap, state))
    (hok : state.outOfMemory = false) : state.regions =
      ((memMap.vmentry.map (·.info)).filter fun info => ¬ nap.Skips info) ++
        nap.text.regions.map (·.info nap.space) := by
  unfold gatherMappings at hrun
  split at hrun
  · cases hrun
  · dsimp only at hrun
    split at hrun
    · cases hrun
    · next hvisit =>
      cases hrun
      have hfold := foldlM_dyncodeVisit hvisit
      rw [foldl_visit, ← List.foldl_append] at hfold
      rw [hfold] at hok ⊢
      exact regions_foldl_add hok

/-! ## The reports are exact -/

theorem NaClApp.MappingsSound.npages_lt (h : nap.MappingsSound) {ent : NaClVmmapEntry}
    (he : ent ∈ nap.memMap.vmentry) :
    ent.pageNum + ent.npages ≤ 2 ^ 20 ∧ 0 < ent.npages ∧ ent.npages < 2 ^ 20 := by
  have hle := h.le_pages ent he
  have hbits := addrBits_pow_le nap.space
  have hpages : nap.space.pages ≤ 2 ^ 20 := by
    refine (Nat.div_le_div_right hbits).trans ?_
    decide
  have hpos := h.sound.wellFormed.entries.tiles.lt ent he
  obtain ⟨null, hnull, hstart, hn⟩ := h.nullEntry
  have hsixteen : naclTrampolineStart / naclPageSize = 16 := by decide
  simp only [vmentryExtent_lo, vmentryExtent_hi] at hpos
  refine ⟨hle.trans hpages, by omega, ?_⟩
  by_cases heq : ent = null
  · rw [heq, hn, hsixteen]
    decide
  · have hsymm : Std.Symm vmentryExtent.Apart := ⟨fun _ _ hab => hab.symm⟩
    have happart := h.sound.wellFormed.entries.tiles.apart.forall he hnull heq
    simp only [Extent.Apart, vmentryExtent_lo, vmentryExtent_hi] at happart
    omega

theorem toNat_pages {n : ℕ} (h : n < 2 ^ 20) :
    (BitVec.ofNat 32 (ushl n naclPageShift)).toNat = n * naclPageSize := by
  have hpage : 2 ^ naclPageShift = 4096 := rfl
  have hps : naclPageSize = 4096 := rfl
  rw [ushl_eq (by rw [hpage]; omega), hpage, hps, BitVec.toNat_ofNat, Nat.mod_eq_of_lt (by omega)]

theorem NaClApp.MappingsSound.reported (h : nap.MappingsSound) {ent : NaClVmmapEntry}
    (he : ent ∈ nap.memMap.vmentry) : ent.Reported ent.info := by
  obtain ⟨hle, hpos, hlt⟩ := h.npages_lt he
  refine ⟨toNat_pages (by omega), toNat_pages hlt, rfl, rfl, ?_⟩
  unfold NaClVmmapEntry.info
  simp only [ne_eq, ite_not]

theorem NaClApp.MappingsSound.skips_iff (h : nap.MappingsSound) {ent : NaClVmmapEntry}
    (he : ent ∈ nap.memMap.vmentry) : nap.Skips ent.info ↔ nap.IsTextEntry ent := by
  obtain ⟨hle, hpos, hlt⟩ := h.npages_lt he
  have hreported := h.reported he
  have hend := h.sound.text.end_lt
  have hstart := h.sound.text.layout.start_le
  have hlen := h.sound.text.layout.end_eq
  have htramp : 0 < naclTrampolineEnd := by decide
  have hps : naclPageSize = 4096 := rfl
  unfold NaClApp.Skips NaClApp.IsTextEntry
  rw [BitVec.toNat_add, hreported.start, hreported.size, ← Nat.add_mul, hps]
  constructor
  · rintro ⟨hlo, hhi⟩
    refine ⟨hlo.symm, ?_⟩
    omega
  · rintro ⟨hlo, hhi⟩
    refine ⟨hlo.symm, ?_⟩
    rw [Nat.mod_eq_of_lt (by omega)]
    exact hhi.symm

theorem NaClApp.MappingsSound.region_reported (h : nap.MappingsSound) {region : NaClDynamicRegion}
    (hregion : region ∈ nap.text.regions) : region.Reported nap.space (region.info nap.space) := by
  obtain ⟨hlo, hhi⟩ := h.inside region hregion
  have hend := h.sound.text.end_lt
  unfold NaClDynamicRegion.stop at hhi
  unfold NaClDynamicRegion.info
  refine ⟨?_, ?_, rfl, rfl, rfl⟩
  · rw [BitVec.toNat_ofNat, Nat.mod_eq_of_lt (by omega)]
    omega
  · rw [BitVec.toNat_ofNat, Nat.mod_eq_of_lt (by omega)]

/-! ## The entries and the regions are apart -/

theorem NaClVmmapEntry.Reported.stop {ent : NaClVmmapEntry} (h : ent.Reported info) :
    info.stop = (ent.pageNum + ent.npages) * naclPageSize := by
  unfold NaClMemMappingInfo.stop
  rw [h.start, h.size, Nat.add_mul]

theorem stop_le_of_apart {ent ent' : NaClVmmapEntry} {info' : NaClMemMappingInfo}
    (h : ent.Reported info) (h' : ent'.Reported info') (happart : vmentryExtent.Apart ent ent') :
    info.stop ≤ info'.start.toNat ∨ info'.stop ≤ info.start.toNat := by
  rw [h.stop, h'.stop, h.start, h'.start]
  exact happart.imp (Nat.mul_le_mul_right _) (Nat.mul_le_mul_right _)

theorem NaClApp.MappingsSound.lt_stop (h : nap.MappingsSound) {ent : NaClVmmapEntry}
    (he : ent ∈ nap.memMap.vmentry) : ent.info.start.toNat < ent.info.stop := by
  obtain ⟨-, hpos, -⟩ := h.npages_lt he
  have hsize := (h.reported he).size
  have hbytes := Nat.mul_pos hpos (by decide : 0 < naclPageSize)
  unfold NaClMemMappingInfo.stop
  omega

theorem NaClApp.MappingsSound.outside (h : nap.MappingsSound) {ent : NaClVmmapEntry}
    (he : ent ∈ nap.memMap.vmentry) (htext : ¬ nap.IsTextEntry ent) :
    nap.Outside ent.info ∧ ¬ nap.Inside ent.info := by
  have hreported := h.reported he
  have hlt := h.lt_stop he
  have hout : nap.Outside ent.info := by
    intro hdyn
    obtain ⟨-, text, hmem, hstart, hend⟩ := h.textEntry hdyn
    have hne : ent ≠ text := fun heq => htext ⟨heq ▸ hstart, heq ▸ hend⟩
    have hsymm : Std.Symm vmentryExtent.Apart := ⟨fun _ _ hab => hab.symm⟩
    have happart := stop_le_of_apart hreported (h.reported hmem)
      (h.sound.wellFormed.entries.tiles.apart.forall he hmem hne)
    rwa [(h.reported hmem).stop, (h.reported hmem).start, hstart, hend] at happart
  refine ⟨hout, fun hin => ?_⟩
  obtain ⟨hlo, hhi⟩ := hin
  have := hout (by omega)
  omega

theorem NaClApp.MappingsSound.inside_info (h : nap.MappingsSound) {region : NaClDynamicRegion}
    (hregion : region ∈ nap.text.regions) :
    nap.Inside (region.info nap.space) ∧ (region.info nap.space).start.toNat <
      (region.info nap.space).stop := by
  obtain ⟨hlo, hhi⟩ := h.inside region hregion
  have hpos := h.regions.separated.nonempty region hregion
  obtain ⟨hstart, hsize, -⟩ := h.region_reported hregion
  unfold NaClDynamicRegion.stop at hhi hpos
  unfold NaClApp.Inside NaClMemMappingInfo.stop
  omega

theorem NaClApp.MappingsSound.pairwise_gathered (h : nap.MappingsSound)
    (hmap : nap.memMap.Reordered memMap) :
    (((memMap.vmentry.map (·.info)).filter fun info => ¬ nap.Skips info) ++
      nap.text.regions.map (·.info nap.space)).Pairwise fun a b =>
        a.stop ≤ b.start.toNat ∨ b.stop ≤ a.start.toNat := by
  have hmem : ∀ ent, ent ∈ memMap.vmentry → ent ∈ nap.memMap.vmentry :=
    fun ent he => hmap.perm.mem_iff.1 he
  refine List.pairwise_append.2 ⟨List.Pairwise.filter _ (List.pairwise_map.2 ?_),
    List.pairwise_map.2 ?_, fun a ha b hb => ?_⟩
  · refine hmap.wellFormed.entries.tiles.apart.imp_of_mem fun {a b} ha hb hab => ?_
    exact stop_le_of_apart (h.reported (hmem a ha)) (h.reported (hmem b hb)) hab
  · refine h.regions.separated.pairwise.imp_of_mem fun {a b} ha hb hab => Or.inl ?_
    have hstart := (h.region_reported ha).start
    have hsize := (h.region_reported ha).size
    have hstart' := (h.region_reported hb).start
    unfold NaClDynamicRegion.stop at hab
    unfold NaClMemMappingInfo.stop
    omega
  · obtain ⟨ha, hskip⟩ := List.mem_filter.1 ha
    obtain ⟨ent, he, rfl⟩ := List.mem_map.1 ha
    obtain ⟨region, hregion, rfl⟩ := List.mem_map.1 hb
    have hne : ¬ nap.IsTextEntry ent := by
      rw [← h.skips_iff (hmem ent he)]
      simpa using hskip
    obtain ⟨⟨hlo, hhi⟩, hlt⟩ := h.inside_info hregion
    have := (h.outside (hmem ent he) hne).1 (by omega)
    omega

theorem NaClApp.MappingsSound.listed (h : nap.MappingsSound) (hmap : nap.memMap.Reordered memMap)
    (hregions : state.regions = ((memMap.vmentry.map (·.info)).filter fun info =>
      ¬ nap.Skips info) ++ nap.text.regions.map (·.info nap.space)) :
    MappingsListed nap (state.regions.insertionSort naclSysListMappingsOrder) := by
  have hperm := List.perm_insertionSort naclSysListMappingsOrder state.regions
  have hmem : ∀ info, info ∈ state.regions.insertionSort naclSysListMappingsOrder ↔
      (∃ ent ∈ nap.memMap.vmentry, ¬ nap.IsTextEntry ent ∧ ent.info = info) ∨
        ∃ region ∈ nap.text.regions, region.info nap.space = info := by
    intro info
    rw [hperm.mem_iff, hregions, List.mem_append, List.mem_filter, List.mem_map, List.mem_map]
    refine or_congr_left ⟨?_, ?_⟩
    · rintro ⟨⟨ent, he, rfl⟩, hskip⟩
      have he := hmap.perm.mem_iff.1 he
      refine ⟨ent, he, ?_, rfl⟩
      rw [← h.skips_iff he]
      simpa using hskip
    · rintro ⟨ent, he, htext, rfl⟩
      refine ⟨⟨ent, hmap.perm.mem_iff.2 he, rfl⟩, ?_⟩
      rw [← h.skips_iff he] at htext
      simpa using htext
  refine ⟨.of_sorted (fun info hinfo => ?_) ?_ ?_, fun info hinfo hnot => ?_,
    fun info hinfo hin => ?_, fun ent he htext => ?_, fun region hregion => ?_⟩
  · rcases (hmem info).1 hinfo with ⟨ent, he, -, rfl⟩ | ⟨region, hregion, rfl⟩
    · exact h.lt_stop he
    · exact (h.inside_info hregion).2
  · have happart := h.pairwise_gathered hmap
    rw [← hregions] at happart
    exact (hperm.pairwise_iff fun hab => hab.symm).2 happart
  · have htotal : Std.Total naclSysListMappingsOrder := ⟨fun _ _ => Nat.le_total _ _⟩
    have htrans : IsTrans NaClMemMappingInfo naclSysListMappingsOrder :=
      ⟨fun _ _ _ => Nat.le_trans⟩
    exact List.pairwise_insertionSort _ _
  · rcases (hmem info).1 hinfo with ⟨ent, he, htext, rfl⟩ | ⟨region, hregion, rfl⟩
    · exact ⟨(h.outside he htext).1, ent, he, h.reported he⟩
    · exact absurd (h.inside_info hregion).1 hnot
  · rcases (hmem info).1 hinfo with ⟨ent, he, htext, rfl⟩ | ⟨region, hregion, rfl⟩
    · exact absurd hin (h.outside he htext).2
    · exact ⟨region, hregion, h.region_reported hregion⟩
  · exact ⟨_, (hmem _).2 (Or.inl ⟨ent, he, htext, rfl⟩), h.reported he⟩
  · exact ⟨_, (hmem _).2 (Or.inr ⟨region, hregion, rfl⟩), h.region_reported hregion⟩

/-! ## The call -/

theorem NaClMemMappingInfo.length_bytes (info : NaClMemMappingInfo) :
    info.bytes.length = sizeofMappingInfo := by
  simp [NaClMemMappingInfo.bytes, sizeofMappingInfo]

theorem length_flatten_bytes (infos : List NaClMemMappingInfo) :
    (infos.map (·.bytes)).flatten.length = sizeofMappingInfo * infos.length := by
  induction infos with
  | nil => rfl
  | cons info infos ih =>
    rw [List.map_cons, List.flatten_cons, List.length_append, ih,
      NaClMemMappingInfo.length_bytes, List.length_cons, Nat.mul_succ, Nat.add_comm]

theorem naclCopyOutToUser_spec {dst : ℕ} {src : List UInt8} (hdst : dst < 2 ^ 64)
    (hlen : src.length < 2 ^ 64) (hrun : nap.naclCopyOutToUser dst src = .ok (true, nap')) :
    nap' = { nap with mem := nap'.mem } ∧ 0 < dst ∧
      dst + src.length ≤ 2 ^ nap.space.addrBits ∧ Holds nap'.mem.byte dst src ∧
      nap'.mem.page = nap.mem.page ∧
      ∀ a, a < dst ∨ dst + src.length ≤ a → nap'.mem.byte a = nap.mem.byte a := by
  unfold NaClApp.naclCopyOutToUser at hrun
  split_ifs at hrun with hbad
  · cases hrun
  · cases hrun
    obtain ⟨hpos, hle, -⟩ := naclUserToSysAddrRange_spec hdst hlen hbad
    refine ⟨rfl, hpos, hle, holds_iff.2 fun i hi => ?_, rfl, fun a ha => if_neg (by omega)⟩
    have hbyte : (nap.mem.write dst (dst + src.length) fun i => src.getD (i - dst) 0).byte
        (dst + i) = src.getD (dst + i - dst) 0 := if_pos (by omega)
    dsimp only
    rw [hbyte, Nat.add_sub_cancel_left, List.getD_eq_getElem?_getD, List.getElem?_eq_getElem hi,
      Option.getD_some]

theorem naclCopyOutToUser_eq {dst : ℕ} {src : List UInt8} {ok : Bool}
    (hrun : nap.naclCopyOutToUser dst src = .ok (ok, nap')) :
    nap' = { nap with mem := nap'.mem } := by
  unfold NaClApp.naclCopyOutToUser at hrun
  split_ifs at hrun <;> cases hrun <;> rfl

theorem reordered_naclSysListMappings {enable : Bool} {regions count : BitVec 32} {r : SysResult}
    (h : nap.memMap.WellFormed)
    (hrun : naclSysListMappings nap enable realloc regions count = .ok (nap', r)) :
    nap.memMap.Reordered nap'.memMap ∧
      nap' = { nap with memMap := nap'.memMap, mem := nap'.mem } := by
  unfold naclSysListMappings at hrun
  dsimp only at hrun
  split_ifs at hrun
  · cases hrun
    exact ⟨.refl h, rfl⟩
  · split at hrun
    · cases hrun
    · next hgather =>
      have hmap := reordered_gatherMappings h hgather
      split_ifs at hrun
      · cases hrun
        exact ⟨hmap, rfl⟩
      all_goals
        split at hrun
        · cases hrun
        all_goals
          next hcopy =>
            cases hrun
            have heq := naclCopyOutToUser_eq hcopy
            rw [heq]
            exact ⟨hmap, rfl⟩

/-- The call has listed `n` mappings and written the lowest `count` of them, or all if there are
fewer, at the address. -/
structure ListMappingsDone (nap nap' : NaClApp) (addr count n : ℕ) : Prop where
  listed : ∃ infos, MappingsListed nap infos ∧ infos.length = n ∧
    Holds nap'.mem.byte addr ((infos.take (min n count)).map (·.bytes)).flatten
  within : 0 < addr ∧ addr + sizeofMappingInfo * min n count ≤ 2 ^ nap.space.addrBits
  byte_eq : ∀ a, a < addr ∨ addr + sizeofMappingInfo * min n count ≤ a →
    nap'.mem.byte a = nap.mem.byte a
  page_eq : nap'.mem.page = nap.mem.page
  map : nap.memMap.Reordered nap'.memMap
  eq : nap' = { nap with memMap := nap'.memMap, mem := nap'.mem }

theorem NaClApp.MappingsSound.listMappingsDone (h : nap.MappingsSound) {enable : Bool}
    {regions count : BitVec 32} {n : ℕ}
    (hrun : naclSysListMappings nap enable realloc regions count = .ok (nap', .ok n)) :
    ListMappingsDone nap nap' regions.toNat count.toNat n := by
  unfold naclSysListMappings at hrun
  split_ifs at hrun
  · cases hrun
  split at hrun
  · cases hrun
  · next memMap state hgather =>
    obtain ⟨sorted, hsorted⟩ :
        ∃ sorted, state.regions.insertionSort naclSysListMappingsOrder = sorted := ⟨_, rfl⟩
    have hmin : (if sorted.length < count.toNat then sorted.length else count.toNat) =
        min sorted.length count.toNat := by
      split_ifs <;> omega
    dsimp only at hrun
    rw [hsorted, hmin] at hrun
    split_ifs at hrun with hmemory
    · cases hrun
    rw [Bool.not_eq_true] at hmemory
    have hmap := reordered_gatherMappings h.sound.wellFormed hgather
    have hlisted := h.listed hmap (regions_gatherMappings hgather hmemory)
    rw [hsorted] at hlisted
    split at hrun
    · cases hrun
    · cases hrun
    · next hcopy =>
      cases hrun
      have hlen := length_flatten_bytes (sorted.take (min sorted.length count.toNat))
      rw [List.length_take, min_eq_left (min_le_left _ _)] at hlen
      have hcount := (min_le_right sorted.length count.toNat).trans_lt count.isLt
      have hsize : sizeofMappingInfo = 20 := rfl
      obtain ⟨heq, hpos, hle, hholds, hpage, hbyte⟩ := naclCopyOutToUser_spec
        (regions.isLt.trans (by decide)) (by rw [hlen, hsize]; omega) hcopy
      rw [hlen] at hle hbyte
      refine ⟨⟨sorted, hlisted, rfl, hholds⟩, ⟨hpos, hle⟩, hbyte, hpage, ?_, ?_⟩
      · rw [heq]
        exact hmap
      · rw [heq]

end

end SandboxingNaCl
