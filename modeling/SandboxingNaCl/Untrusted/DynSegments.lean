import SandboxingNaCl.Untrusted.PnaclDynloader

/-!
# The segments of a loaded module

What the loop over the program headers leaves in memory.  `cell` is what the code maps at an address
of a segment; a segment whose end does not wrap gets it in all of its pages, and the later segments
do not touch them.
-/

namespace SandboxingNaCl

open BiasedImage ByteImage KeyedLoop

namespace ElfPhdr

/-- Rounding the end of the segment up does not wrap. -/
def NoWrap (ph : ElfPhdr) : Prop :=
  ph.pVaddr.toNat + ph.pMemsz.toNat + (naclMapPageSize - 1) < 2 ^ 32

instance (ph : ElfPhdr) : Decidable ph.NoWrap := inferInstanceAs (Decidable (_ < _))

/-- The numbers that the loader computes for a segment, where nothing wraps. -/
structure Bounds (ph : ElfPhdr) : Prop where
  start_le : ph.segmentStart ≤ ph.pVaddr.toNat
  start_add : ph.segmentStart + ph.pVaddr.toNat % naclMapPageSize = ph.pVaddr.toNat
  start_le_bss : ph.segmentStart ≤ ph.bssMapStart
  bss_le : ph.bssMapStart ≤ ph.pVaddr.toNat + ph.pFilesz.toNat
  lt_bss : ph.pVaddr.toNat + ph.pFilesz.toNat < ph.bssMapStart + naclMapPageSize
  le_end : ph.pVaddr.toNat + ph.pMemsz.toNat ≤ ph.segmentEnd
  end_lt : ph.segmentEnd < 2 ^ 32
  end_room : ph.pVaddr.toNat + ph.pMemsz.toNat + (naclMapPageSize - 1) < 2 ^ 32
  bss_lt_end : ph.pFilesz.toNat < ph.pMemsz.toNat → ph.bssMapStart < ph.segmentEnd
  offset_eq : ph.offsetIntoSegment = (ph.bssMapStart + 2 ^ 32 - ph.pVaddr.toNat) % 2 ^ 32
  copy_eq : ph.bytesToCopy = ph.pVaddr.toNat + ph.pFilesz.toNat - ph.bssMapStart

theorem bounds {ph : ElfPhdr} (h : ph.NoWrap) (hle : ph.pFilesz.toNat ≤ ph.pMemsz.toNat) :
    ph.Bounds := by
  have hroom := h
  have hpage : naclMapPageSize = 65536 := rfl
  unfold NoWrap at h
  rw [hpage] at h
  have hbss : ph.bssMapStart = (ph.pVaddr.toNat + ph.pFilesz.toNat) / 65536 * 65536 := by
    unfold bssMapStart pageSizeRoundDown
    rw [hpage, Nat.mod_eq_of_lt (by omega)]
  have hend : ph.segmentEnd =
      (ph.pVaddr.toNat + ph.pMemsz.toNat + 65535) / 65536 * 65536 := by
    unfold segmentEnd pageSizeRoundUp pageSizeRoundDown
    rw [hpage, Nat.mod_eq_of_lt (by omega : ph.pVaddr.toNat + ph.pMemsz.toNat < 2 ^ 32),
      Nat.mod_eq_of_lt (by omega)]
  have hstart : ph.segmentStart = ph.pVaddr.toNat / 65536 * 65536 := rfl
  have hcopy : ph.bytesToCopy = ph.pVaddr.toNat + ph.pFilesz.toNat - ph.bssMapStart := by
    unfold bytesToCopy offsetIntoSegment
    rw [hbss]
    omega
  refine ⟨by omega, ?_, by omega, by omega, ?_, by omega, by omega, hroom,
    fun hlt => by omega, rfl, hcopy⟩
  · rw [hpage]
    omega
  · rw [hpage]
    omega

end ElfPhdr

/-- What the loader puts at `v` when it maps the segment. -/
def DynEnv.cell (env : DynEnv) (file : List UInt8) (ph : ElfPhdr) (v : ℕ) : Option MappedByte :=
  let prot := elfFlagsToMmapFlags ph.pFlags
  if ph.hasBss ∧ ph.bssMapStart ≤ v then
    if v < ph.pVaddr.toNat + ph.pFilesz.toNat then
      (file[(ph.pOffset.toNat + ph.offsetIntoSegment) % 2 ^ 32 + (v - ph.bssMapStart)]?).map
        (⟨prot, ·⟩)
    else some ⟨prot, 0⟩
  else
    (env.fileByte file (pageSizeRoundDown ph.pOffset.toNat + (v - ph.segmentStart))).map (⟨prot, ·⟩)

section

variable {env : DynEnv} {file : List UInt8} {mem mem' : DynMemory} {ph : ElfPhdr}
  {bias addr len v : ℕ} {prot : BitVec 32}

theorem dynCheck_eq_ok {p : Prop} [Decidable p] {u : Unit} : dynCheck p = .ok u ↔ p := by
  unfold dynCheck
  split_ifs with hp
  · exact iff_of_true rfl hp
  · exact iff_of_false nofun hp

theorem eq_of_mmap_zero (h : env.mmap file mem addr len prot none = .ok mem') :
    len ≠ 0 ∧ addr + len ≤ 2 ^ 32 ∧ mem' = overwrite mem addr len fun _ _ => some ⟨prot, 0⟩ := by
  unfold DynEnv.mmap at h
  split_ifs at h with hfails
  cases h
  push Not at hfails
  exact ⟨hfails.1, hfails.2.1, rfl⟩

theorem eq_of_mmap_file {off : ℕ} (h : env.mmap file mem addr len prot (some off) = .ok mem') :
    len ≠ 0 ∧ addr + len ≤ 2 ^ 32 ∧
      mem' = overwrite mem addr len fun j _ => (env.fileByte file (off + j)).map (⟨prot, ·⟩) := by
  unfold DynEnv.mmap at h
  split_ifs at h with hfails
  cases h
  push Not at hfails
  exact ⟨hfails.1, hfails.2.1, rfl⟩

theorem lt_length_of_preadBytes {count offset j : ℕ}
    (h : (preadBytes file count offset).length = count) (hj : j < count) :
    offset + j < file.length := by
  unfold preadBytes at h
  rw [List.length_take, List.length_drop] at h
  omega

theorem getElem?_preadBytes {count offset j : ℕ} (hj : j < count) :
    (preadBytes file count offset)[j]? = file[offset + j]? := by
  unfold preadBytes
  rw [List.getElem?_take_of_lt hj, List.getElem?_drop]

theorem view_mapBss (hbias : bias < 2 ^ 32) (hph : ph.Bounds)
    (hbss : ph.pFilesz.toNat < ph.pMemsz.toNat) (h : env.mapBss file bias mem ph = .ok mem')
    (hv : v < 2 ^ 32) : view (2 ^ 32) mem' bias v =
      if ph.bssMapStart ≤ v ∧ v < ph.segmentEnd then env.cell file ph v
      else view (2 ^ 32) mem bias v := by
  obtain ⟨-, -, h⟩ := bind_eq_ok.1 h
  obtain ⟨zeroed, hmmap, h⟩ := bind_eq_ok.1 h
  obtain ⟨-, -, h⟩ := bind_eq_ok.1 h
  obtain ⟨_, hcheck, h⟩ := bind_eq_ok.1 h
  cases h
  obtain ⟨hread, -⟩ := dynCheck_eq_ok.1 hcheck
  have hlen : (ph.segmentEnd + 2 ^ 32 - ph.bssMapStart) % 2 ^ 32 =
      ph.segmentEnd - ph.bssMapStart := by
    have := hph.bss_lt_end hbss
    have := hph.end_lt
    omega
  rw [hlen] at hmmap
  obtain ⟨-, hroom, rfl⟩ := eq_of_mmap_zero hmmap
  have hlt := hph.bss_lt_end hbss
  have hend := hph.end_lt
  have hcopy := hph.copy_eq
  have hle := hph.bss_le
  have hmem := hph.le_end
  unfold DynMemory.store
  rw [hread, view_overwrite hbias hv (by omega) (by omega) (by omega),
    view_overwrite hbias hv (by omega) (by omega) hroom]
  have hwindow : (ph.bssMapStart ≤ v ∧ v < ph.bssMapStart + (ph.segmentEnd - ph.bssMapStart)) ↔
      ph.bssMapStart ≤ v ∧ v < ph.segmentEnd := by omega
  have hcopied : (ph.bssMapStart ≤ v ∧ v < ph.bssMapStart + ph.bytesToCopy) ↔
      ph.bssMapStart ≤ v ∧ v < ph.pVaddr.toNat + ph.pFilesz.toNat := by omega
  simp only [hwindow, hcopied]
  unfold DynEnv.cell ElfPhdr.hasBss
  by_cases hin : ph.bssMapStart ≤ v ∧ v < ph.segmentEnd
  · have hcell : decide (ph.pFilesz.toNat < ph.pMemsz.toNat) = true ∧ ph.bssMapStart ≤ v :=
      ⟨decide_eq_true hbss, hin.1⟩
    simp only [if_pos hin, if_pos hcell]
    by_cases hfile : v < ph.pVaddr.toNat + ph.pFilesz.toNat
    · have hboth : ph.bssMapStart ≤ v ∧ v < ph.pVaddr.toNat + ph.pFilesz.toNat := ⟨hin.1, hfile⟩
      have hj : v - ph.bssMapStart < ph.bytesToCopy := by omega
      have hin' := lt_length_of_preadBytes hread hj
      simp only [if_pos hboth, if_pos hfile, getElem?_preadBytes hj, List.getElem?_eq_getElem hin',
        Option.map_some, Option.getD_some]
    · have hnot : ¬ (ph.bssMapStart ≤ v ∧ v < ph.pVaddr.toNat + ph.pFilesz.toNat) :=
        fun h => hfile h.2
      simp only [if_neg hnot, if_neg hfile]
  · have hnot : ¬ (ph.bssMapStart ≤ v ∧ v < ph.pVaddr.toNat + ph.pFilesz.toNat) :=
      fun h => hin ⟨h.1, by omega⟩
    simp only [if_neg hin, if_neg hnot]

theorem view_mapFile (hbias : bias < 2 ^ 32) (hph : ph.Bounds)
    (h : env.mapFile file bias mem ph = .ok mem') (hv : v < 2 ^ 32) : view (2 ^ 32) mem' bias v =
      if ph.segmentStart ≤ v ∧ v < ph.mapEnd then env.cell file ph v
      else view (2 ^ 32) mem bias v := by
  have hend := hph.end_lt
  have hstart : ph.segmentStart ≤ ph.mapEnd ∧ ph.mapEnd ≤ ph.segmentEnd := by
    have hle := hph.start_le_bss
    have hlt := hph.bss_lt_end
    have hstart := hph.start_le
    have hmem := hph.le_end
    unfold ElfPhdr.mapEnd ElfPhdr.hasBss
    split_ifs with hbss
    · exact ⟨hle, (hlt (of_decide_eq_true hbss)).le⟩
    · omega
  unfold DynEnv.mapFile at h
  by_cases hne : ph.mapEnd ≠ ph.segmentStart
  · rw [if_pos hne] at h
    have hlen : (ph.mapEnd + 2 ^ 32 - ph.segmentStart) % 2 ^ 32 = ph.mapEnd - ph.segmentStart := by
      omega
    rw [hlen] at h
    obtain ⟨-, hroom, rfl⟩ := eq_of_mmap_file h
    rw [view_overwrite hbias hv (by omega) (by omega) hroom]
    have hwindow : (ph.segmentStart ≤ v ∧
        v < ph.segmentStart + (ph.mapEnd - ph.segmentStart)) ↔
          ph.segmentStart ≤ v ∧ v < ph.mapEnd := by omega
    simp only [hwindow]
    by_cases hin : ph.segmentStart ≤ v ∧ v < ph.mapEnd
    · have hcell : ¬ (ph.hasBss = true ∧ ph.bssMapStart ≤ v) := by
        rintro ⟨hbss, hle⟩
        rw [ElfPhdr.mapEnd, if_pos hbss] at hin
        omega
      unfold DynEnv.cell
      simp only [if_pos hin, if_neg hcell]
    · simp only [if_neg hin]
  · rw [if_neg hne] at h
    cases h
    rw [if_neg (by omega)]

variable {entry : ℕ} {s s' : DynLoop}

/-- The bytes before the zero-initialised data are in the file. -/
def Reads (file : List UInt8) (ph : ElfPhdr) : Prop :=
  ph.hasBss = true → ∀ j < ph.bytesToCopy,
    (ph.pOffset.toNat + ph.offsetIntoSegment) % 2 ^ 32 + j < file.length

theorem reads_of_mapBss (h : env.mapBss file bias mem ph = .ok mem') : Reads file ph := by
  obtain ⟨_, _, h⟩ := bind_eq_ok.1 h
  obtain ⟨zeroed, _, h⟩ := bind_eq_ok.1 h
  obtain ⟨_, _, h⟩ := bind_eq_ok.1 h
  obtain ⟨_, hcheck, _⟩ := bind_eq_ok.1 h
  exact fun _ j hj => lt_length_of_preadBytes (dynCheck_eq_ok.1 hcheck).1 hj

/-- The pages of a segment get what is mapped there, and the others stay. -/
structure Segment (env : DynEnv) (file : List UInt8) (bias : ℕ) (ph : ElfPhdr) (s s' : DynLoop) :
    Prop where
  sorted : s.prevSegmentEnd ≤ ph.segmentStart
  filesz_le : ph.pFilesz.toNat ≤ ph.pMemsz.toNat
  reads : Reads file ph
  end_eq : s'.prevSegmentEnd = ph.segmentEnd
  view_eq : ph.NoWrap → ∀ v < 2 ^ 32, view (2 ^ 32) s'.memory bias v =
    if ph.segmentStart ≤ v ∧ v < ph.segmentEnd then env.cell file ph v
    else view (2 ^ 32) s.memory bias v

theorem segment_of_loadSegment (hbias : bias < 2 ^ 32)
    (h : env.loadSegment file entry bias s ph = .ok s') : Segment env file bias ph s s' := by
  obtain ⟨_, hsorted, h⟩ := bind_eq_ok.1 h
  obtain ⟨_, hfilesz, h⟩ := bind_eq_ok.1 h
  obtain ⟨mem₁, hbssMap, h⟩ := bind_eq_ok.1 h
  obtain ⟨mem₂, hfileMap, h⟩ := bind_eq_ok.1 h
  cases h
  have hle := dynCheck_eq_ok.1 hfilesz
  have hreads : Reads file ph := by
    intro hbss
    rw [if_pos hbss] at hbssMap
    exact reads_of_mapBss hbssMap hbss
  refine ⟨dynCheck_eq_ok.1 hsorted, hle, hreads, rfl, fun hwrap v hv => ?_⟩
  have hph := ElfPhdr.bounds hwrap hle
  rw [view_mapFile hbias hph hfileMap hv]
  by_cases hbss : ph.hasBss = true
  · rw [if_pos hbss] at hbssMap
    rw [view_mapBss hbias hph (of_decide_eq_true hbss) hbssMap hv, ElfPhdr.mapEnd, if_pos hbss]
    have hstart := hph.start_le_bss
    have hend := hph.bss_lt_end (of_decide_eq_true hbss)
    by_cases hv₁ : ph.segmentStart ≤ v ∧ v < ph.bssMapStart
    · rw [if_pos hv₁, if_pos ⟨hv₁.1, by omega⟩]
    · rw [if_neg hv₁]
      by_cases hv₂ : ph.bssMapStart ≤ v ∧ v < ph.segmentEnd
      · rw [if_pos hv₂, if_pos ⟨by omega, hv₂.2⟩]
      · rw [if_neg hv₂, if_neg (by omega)]
  · rw [if_neg hbss] at hbssMap
    cases hbssMap
    rw [ElfPhdr.mapEnd, if_neg hbss]

end

/-! ## The loop -/

def loadHeaders (phdrs : List ElfPhdr) : List ElfPhdr := phdrs.filter (·.pType = ptLoad)

/-- What the loop has done to the memory when it has mapped the segments. -/
structure Mapped (env : DynEnv) (file : List UInt8) (bias : ℕ) (loads : List ElfPhdr)
    (s s' : DynLoop) : Prop where
  le : s.prevSegmentEnd ≤ s'.prevSegmentEnd
  below : ∀ v < s.prevSegmentEnd, v < 2 ^ 32 →
    view (2 ^ 32) s'.memory bias v = view (2 ^ 32) s.memory bias v
  bounds : ∀ ph ∈ loads, ph.Bounds ∧ ph.pFilesz.toNat ≤ ph.pMemsz.toNat ∧ Reads file ph ∧
    s.prevSegmentEnd ≤ ph.segmentStart ∧ ph.segmentEnd ≤ s'.prevSegmentEnd
  cells : ∀ ph ∈ loads, ∀ v, ph.segmentStart ≤ v → v < ph.segmentEnd →
    view (2 ^ 32) s'.memory bias v = env.cell file ph v
  sorted : loads.Pairwise fun ph ph' => ph.segmentEnd ≤ ph'.segmentStart

section

variable {env : DynEnv} {file : List UInt8} {entry bias : ℕ} {l : List ElfPhdr} {ph : ElfPhdr}
  {s s' t : DynLoop}

theorem Mapped.nil (env : DynEnv) (file : List UInt8) (bias : ℕ) (s : DynLoop) :
    Mapped env file bias [] s s :=
  ⟨le_rfl, fun _ _ _ => rfl, nofun, nofun, List.Pairwise.nil⟩

theorem Mapped.congr {t : DynLoop} (h : Mapped env file bias l t s') (hmem : t.memory = s.memory)
    (hprev : t.prevSegmentEnd = s.prevSegmentEnd) : Mapped env file bias l s s' where
  le := hprev ▸ h.le
  below := by
    rw [← hprev, ← hmem]
    exact h.below
  bounds := hprev ▸ h.bounds
  cells := h.cells
  sorted := h.sorted

theorem Mapped.cons (hseg : Segment env file bias ph s t) (hwrap : ph.NoWrap)
    (h : Mapped env file bias l t s') : Mapped env file bias (ph :: l) s s' := by
  have hph := ElfPhdr.bounds hwrap hseg.filesz_le
  have hsorted := hseg.sorted
  have hend := hseg.end_eq
  have hstart := hph.start_le
  have hmem := hph.le_end
  have hlt := hph.end_lt
  have hle := h.le
  refine ⟨by omega, fun v hv hlt => ?_, fun ph' hph' => ?_, fun ph' hph' v hv hv' => ?_, ?_⟩
  · rw [h.below v (by omega) hlt, hseg.view_eq hwrap v hlt, if_neg (by omega)]
  · rcases List.mem_cons.1 hph' with rfl | hmem'
    · exact ⟨hph, hseg.filesz_le, hseg.reads, hsorted, by omega⟩
    · obtain ⟨hbounds, hfilesz, hreads, hprev, hnext⟩ := h.bounds ph' hmem'
      exact ⟨hbounds, hfilesz, hreads, by omega, hnext⟩
  · rcases List.mem_cons.1 hph' with rfl | hmem'
    · rw [h.below v (by omega) (by omega), hseg.view_eq hwrap v (by omega), if_pos ⟨hv, hv'⟩]
    · exact h.cells ph' hmem' v hv hv'
  · refine List.Pairwise.cons (fun ph' hmem' => ?_) h.sorted
    have hprev := (h.bounds ph' hmem').2.2.2.1
    omega

theorem mapped_of_run (hbias : bias < 2 ^ 32)
    (hwrap : ∀ ph ∈ loadHeaders l, ph.NoWrap)
    (h : l.foldlM (env.loadPhdr file entry bias) s = .ok s') :
    Mapped env file bias (loadHeaders l) s s' := by
  induction l generalizing s with
  | nil =>
    cases h
    exact .nil env file bias _
  | cons ph l ih =>
    rw [List.foldlM_cons] at h
    obtain ⟨t, ht, h⟩ := bind_eq_ok.1 h
    unfold DynEnv.loadPhdr at ht
    unfold loadHeaders at hwrap ⊢
    by_cases hdyn : ph.pType = ptDynamic
    · have hload : ¬ ph.pType = ptLoad := by
        rw [hdyn]
        decide
      rw [if_pos hdyn] at ht
      cases ht
      rw [List.filter_cons_of_neg (by simpa using hload)] at hwrap ⊢
      exact (ih hwrap h).congr rfl rfl
    · rw [if_neg hdyn] at ht
      by_cases hload : ph.pType = ptLoad
      · rw [if_pos hload] at ht
        rw [List.filter_cons_of_pos (by simpa using hload)] at hwrap ⊢
        have hrest := ih (fun ph' hph' => hwrap ph' (List.mem_cons_of_mem _ hph')) h
        exact .cons (segment_of_loadSegment hbias ht) (hwrap ph List.mem_cons_self) hrest
      · rw [if_neg hload] at ht
        cases ht
        rw [List.filter_cons_of_neg (by simpa using hload)] at hwrap ⊢
        exact ih hwrap h

end

/-! ## What a segment has to show -/

/-- The byte that a segment has at its place `i`: that of the file, or zero. -/
def ElfPhdr.Shows (ph : ElfPhdr) (file : List UInt8) (i : ℕ) (cell : Option MappedByte) : Prop :=
  ∃ b, cell.map MappedByte.value = some b ∧
    if i < ph.pFilesz.toNat then file[ph.pOffset.toNat + i]? = some b else b = 0

/-- The file has the bytes of the segment; and in the part that is mapped from the file, it reads
the same from the segment's offset as from the offset and the address rounded down to a page. -/
def DynEnv.ReadsTheSame (env : DynEnv) (file : List UInt8) (ph : ElfPhdr) : Prop :=
  ∀ i < ph.pFilesz.toNat, ∃ b, file[ph.pOffset.toNat + i]? = some b ∧
    (ph.pVaddr.toNat + i < ph.mapEnd →
      env.fileByte file
        (pageSizeRoundDown ph.pOffset.toNat + (ph.pVaddr.toNat % naclMapPageSize + i)) = some b)

section

variable {env : DynEnv} {file : List UInt8} {ph : ElfPhdr} {i : ℕ}

theorem mappedByte_eq {pastEnd : ℕ → UInt8} {off : ℕ} {b : UInt8} (h : file[off]? = some b) :
    mappedByte pastEnd file off = some b := by
  unfold mappedByte
  rw [h]

theorem readsTheSame_of_congruent
    (hcongr : ph.pOffset.toNat % naclMapPageSize = ph.pVaddr.toNat % naclMapPageSize)
    (hfile : ph.pOffset.toNat + ph.pFilesz.toNat ≤ file.length) : env.ReadsTheSame file ph := by
  intro i hi
  have hin : ph.pOffset.toNat + i < file.length := by omega
  refine ⟨file[ph.pOffset.toNat + i], List.getElem?_eq_getElem hin, fun _ => mappedByte_eq ?_⟩
  have hpos : pageSizeRoundDown ph.pOffset.toNat + (ph.pVaddr.toNat % naclMapPageSize + i) =
      ph.pOffset.toNat + i := by
    rw [← hcongr, ← Nat.add_assoc]
    congr 1
    exact Nat.div_add_mod' _ _
  rw [hpos, List.getElem?_eq_getElem hin]

theorem offset_eq_of_reads (hph : ph.Bounds) (hreads : Reads file ph) (hfile : file.length < 2 ^ 32)
    (hbss : ph.hasBss = true) (hi : i < ph.pFilesz.toNat)
    (hin : ph.pOffset.toNat + i < file.length) (hle : ph.bssMapStart ≤ ph.pVaddr.toNat + i) :
    (ph.pOffset.toNat + ph.offsetIntoSegment) % 2 ^ 32 + (ph.pVaddr.toNat + i - ph.bssMapStart) =
      ph.pOffset.toNat + i := by
  have hcopy := hph.copy_eq
  have hoffset := hph.offset_eq
  have hread := hreads hbss (ph.pVaddr.toNat + i - ph.bssMapStart) (by omega)
  have hbss_le := hph.bss_le
  have hend := hph.end_lt
  have hlt := hph.bss_lt_end (of_decide_eq_true hbss)
  have hvaddr := ph.pVaddr.isLt
  rw [hoffset] at hread ⊢
  by_cases hcase : ph.pVaddr.toNat ≤ ph.bssMapStart
  · have hsub : (ph.bssMapStart + 2 ^ 32 - ph.pVaddr.toNat) % 2 ^ 32 =
        ph.bssMapStart - ph.pVaddr.toNat := by omega
    rw [hsub] at hread ⊢
    omega
  · have hsub : (ph.bssMapStart + 2 ^ 32 - ph.pVaddr.toNat) % 2 ^ 32 =
        ph.bssMapStart + 2 ^ 32 - ph.pVaddr.toNat := by omega
    rw [hsub] at hread ⊢
    omega

theorem shows_cell_iff (hph : ph.Bounds) (hfilesz : ph.pFilesz.toNat ≤ ph.pMemsz.toNat)
    (hreads : Reads file ph) (hfile : file.length < 2 ^ 32) :
    (∀ i < ph.pMemsz.toNat, ph.Shows file i (env.cell file ph (ph.pVaddr.toNat + i))) ↔
      env.ReadsTheSame file ph := by
  have hstart := hph.start_add
  have hplace (i : ℕ) : ph.pVaddr.toNat + i - ph.segmentStart =
      ph.pVaddr.toNat % naclMapPageSize + i := by omega
  have hbss_le := hph.bss_le
  have hmem := hph.le_end
  -- In the part that is mapped from the file, the cell is a byte of the file.
  have hmapped (i : ℕ) (hi : i < ph.pFilesz.toNat) (hlt : ph.pVaddr.toNat + i < ph.mapEnd) :
      (env.cell file ph (ph.pVaddr.toNat + i)).map MappedByte.value =
        env.fileByte file
          (pageSizeRoundDown ph.pOffset.toNat + (ph.pVaddr.toNat % naclMapPageSize + i)) := by
    have hcell : ¬ (ph.hasBss = true ∧ ph.bssMapStart ≤ ph.pVaddr.toNat + i) := by
      rintro ⟨hbss, hle⟩
      rw [ElfPhdr.mapEnd, if_pos hbss] at hlt
      omega
    unfold DynEnv.cell
    simp only [if_neg hcell, hplace, Option.map_map]
    exact congrFun Option.map_id _
  constructor
  · intro h i hi
    obtain ⟨b, hcell, hb⟩ := h i (by omega)
    rw [if_pos hi] at hb
    refine ⟨b, hb, fun hlt => ?_⟩
    rw [← hmapped i hi hlt]
    exact hcell
  · intro h i hi
    unfold ElfPhdr.Shows
    by_cases hlt : i < ph.pFilesz.toNat
    · obtain ⟨b, hb, hsame⟩ := h i hlt
      refine ⟨b, ?_, by rw [if_pos hlt]; exact hb⟩
      by_cases hmap : ph.pVaddr.toNat + i < ph.mapEnd
      · rw [hmapped i hlt hmap]
        exact hsame hmap
      · have hbss : ph.hasBss = true := by
          by_contra hno
          rw [ElfPhdr.mapEnd, if_neg hno] at hmap
          omega
        have hle : ph.bssMapStart ≤ ph.pVaddr.toNat + i := by
          rw [ElfPhdr.mapEnd, if_pos hbss] at hmap
          omega
        have hin : ph.pOffset.toNat + i < file.length := (List.getElem?_eq_some_iff.1 hb).1
        have hcell : ph.hasBss = true ∧ ph.bssMapStart ≤ ph.pVaddr.toNat + i := ⟨hbss, hle⟩
        have hfileEnd : ph.pVaddr.toNat + i < ph.pVaddr.toNat + ph.pFilesz.toNat := by omega
        unfold DynEnv.cell
        simp only [if_pos hcell, if_pos hfileEnd,
          offset_eq_of_reads hph hreads hfile hbss hlt hin hle, hb, Option.map_some]
    · have hbss : ph.hasBss = true := by
        unfold ElfPhdr.hasBss
        exact decide_eq_true (by omega)
      have hcell : ph.hasBss = true ∧ ph.bssMapStart ≤ ph.pVaddr.toNat + i := ⟨hbss, by omega⟩
      have hfileEnd : ¬ ph.pVaddr.toNat + i < ph.pVaddr.toNat + ph.pFilesz.toNat := by omega
      refine ⟨0, ?_, by rw [if_neg hlt]⟩
      unfold DynEnv.cell
      simp only [if_pos hcell, if_neg hfileEnd, Option.map_some]

end

end SandboxingNaCl
