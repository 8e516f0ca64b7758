import SandboxingNaCl.Lib.Runs
import SandboxingNaCl.Untrusted.DynRelocations

/-!
# Loaded modules

When a module that `load_elf_file_from_fd` accepts is in memory as its file says.  The reserved
areas are computed from the first and the last data segment; the loop accepts the segments in order
only, so that the others are between them.
-/

namespace SandboxingNaCl

open BiasedImage KeyedLoop

/-! ## The first and the last segment -/

def dataHeaders (phdrs : List ElfPhdr) : List ElfPhdr :=
  (loadHeaders phdrs).filter fun ph => ph.pFlags &&& pfX = 0

def codeHeaders (phdrs : List ElfPhdr) : List ElfPhdr :=
  (loadHeaders phdrs).filter fun ph => ph.pFlags &&& pfX ≠ 0

section

variable {l : List ElfPhdr} {s s' : DynSegments} {ph : ElfPhdr}

/-- What the loop finds. -/
structure Finds (l : List ElfPhdr) (s s' : DynSegments) : Prop where
  first : s'.firstData = s.firstData.or (dataHeaders l).head?
  last : s'.lastData = (dataHeaders l).getLast?.or s.lastData
  code : ∀ ph ∈ codeHeaders l, s'.codeSegment = some ph
  codeKept : ∀ ph, s.codeSegment = some ph → s'.codeSegment = some ph

theorem finds_of_run (h : l.foldlM findSegment s = .ok s') : Finds l s s' := by
  induction l generalizing s with
  | nil =>
    cases h
    exact ⟨(Option.or_none).symm, rfl, nofun, fun _ => id⟩
  | cons ph l ih =>
    rw [List.foldlM_cons] at h
    obtain ⟨t, ht, h⟩ := bind_eq_ok.1 h
    have hrest := ih h
    unfold findSegment at ht
    by_cases hload : ph.pType = ptLoad
    · have hloads : loadHeaders (ph :: l) = ph :: loadHeaders l :=
        List.filter_cons_of_pos (by simpa using hload)
      rw [if_neg (not_not.2 hload)] at ht
      by_cases hcode : ph.pFlags &&& pfX ≠ 0
      · rw [if_pos hcode] at ht
        obtain ⟨_, hnone, ht⟩ := bind_eq_ok.1 ht
        cases ht
        have hdatas : dataHeaders (ph :: l) = dataHeaders l := by
          unfold dataHeaders
          rw [hloads, List.filter_cons_of_neg (by simpa using hcode)]
        have hcodes : codeHeaders (ph :: l) = ph :: codeHeaders l := by
          unfold codeHeaders
          rw [hloads, List.filter_cons_of_pos (by simpa using hcode)]
        refine ⟨hdatas ▸ hrest.first, hdatas ▸ hrest.last, fun ph' hph' => ?_, fun ph' hph' => ?_⟩
        · rw [hcodes] at hph'
          rcases List.mem_cons.1 hph' with rfl | hmem
          · exact hrest.codeKept _ rfl
          · exact hrest.code ph' hmem
        · rw [dynCheck_eq_ok.1 hnone] at hph'
          cases hph'
      · rw [if_neg hcode] at ht
        cases ht
        have hdatas : dataHeaders (ph :: l) = ph :: dataHeaders l := by
          unfold dataHeaders
          rw [hloads, List.filter_cons_of_pos (by simpa using hcode)]
        have hcodes : codeHeaders (ph :: l) = codeHeaders l := by
          unfold codeHeaders
          rw [hloads, List.filter_cons_of_neg (by simpa using hcode)]
        refine ⟨?_, ?_, hcodes ▸ hrest.code, hrest.codeKept⟩
        · rw [hrest.first, hdatas, List.head?_cons]
          cases s.firstData <;> rfl
        · rw [hrest.last, hdatas, List.getLast?_cons]
          cases (dataHeaders l).getLast? <;> rfl
    · have hloads : loadHeaders (ph :: l) = loadHeaders l :=
        List.filter_cons_of_neg (by simpa using hload)
      rw [if_pos hload] at ht
      cases ht
      have hdatas : dataHeaders (ph :: l) = dataHeaders l := congrArg (List.filter _) hloads
      have hcodes : codeHeaders (ph :: l) = codeHeaders l := congrArg (List.filter _) hloads
      exact ⟨hdatas ▸ hrest.first, hdatas ▸ hrest.last, hcodes ▸ hrest.code, hrest.codeKept⟩

theorem pairwise_head {α : Type*} {R : α → α → Prop} {xs : List α} {x first : α}
    (h : xs.Pairwise R) (hfirst : xs.head? = some first) (hx : x ∈ xs) :
    x = first ∨ R first x := by
  cases xs with
  | nil => cases hfirst
  | cons y ys =>
    cases hfirst
    rcases List.mem_cons.1 hx with rfl | hx
    · exact Or.inl rfl
    · exact Or.inr (List.rel_of_pairwise_cons h hx)

theorem pairwise_last {α : Type*} {R : α → α → Prop} {xs : List α} {x last : α}
    (h : xs.Pairwise R) (hlast : xs.getLast? = some last) (hx : x ∈ xs) :
    x = last ∨ R x last := by
  obtain ⟨front, rfl⟩ := List.getLast?_eq_some_iff.1 hlast
  rcases List.mem_append.1 hx with hx | hx
  · exact Or.inr ((List.pairwise_append.1 h).2.2 x hx last (List.mem_singleton_self last))
  · exact Or.inl (List.mem_singleton.1 hx)

theorem pairwise_or {α : Type*} {R : α → α → Prop} {xs : List α} {x y : α} (h : xs.Pairwise R)
    (hx : x ∈ xs) (hy : y ∈ xs) (hne : x ≠ y) : R x y ∨ R y x := by
  have heither : xs.Pairwise fun x y => R x y ∨ R y x := h.imp fun hR => Or.inl hR
  have hsymm : Std.Symm fun x y => R x y ∨ R y x := ⟨fun _ _ => Or.symm⟩
  exact heither.forall hx hy hne

end

/-! ## What has been loaded -/

namespace DynLoaded

def address (l : DynLoaded) (ph : ElfPhdr) (i : ℕ) : ℕ :=
  (l.loadBias + (ph.pVaddr.toNat + i)) % 2 ^ 32

/-- The segments have the bytes of the file, and then zeros. -/
def SegmentsRight (l : DynLoaded) (file : List UInt8) : Prop :=
  ∀ ph ∈ loadHeaders l.phdrs, ∀ i < ph.pMemsz.toNat,
    ph.Shows file i (l.mapped (l.address ph i))

/-- The segments are in the areas that have been reserved. -/
def Inside (l : DynLoaded) : Prop :=
  ∀ ph ∈ loadHeaders l.phdrs, ∀ i < ph.pMemsz.toNat,
    ∃ area ∈ l.areas, area.1 ≤ ph.pVaddr.toNat + i ∧ ph.pVaddr.toNat + i < area.1 + area.2

def SegmentsApart (l : DynLoaded) : Prop :=
  (loadHeaders l.phdrs).Pairwise fun ph ph' => ∀ i < ph.pMemsz.toNat, ∀ j < ph'.pMemsz.toNat,
    l.address ph i ≠ l.address ph' j

def entries (l : DynLoaded) (relOffset relSize : ℕ) : List ℕ :=
  (List.range (relSize / 8)).map fun i => relocTarget l.loadBias relOffset + 8 * i

/-- The table has a whole number of entries, does not wrap, and lies apart from what they name. -/
def TableRight (l : DynLoaded) : Prop :=
  match relTable l.mapped l.ptDynamic with
  | .ok (some (relOffset, relSize)) =>
    relSize % 8 = 0 ∧ relocTarget l.loadBias relOffset + relSize < 2 ^ 32 ∧
      TableApart l.loadBias l.mapped (l.entries relOffset relSize)
  | _ => True

/-- The bias has been added once for each entry of the table, all of which are relative. -/
def RelocationsRight (l : DynLoaded) (arch : DynArch) : Prop :=
  match relTable l.mapped l.ptDynamic with
  | .ok none => l.memory = l.mapped
  | .ok (some (relOffset, relSize)) =>
    (∀ r ∈ l.entries relOffset relSize, l.mapped.word (r + 4) % 256 = arch.relative) ∧
      Relocated l.loadBias ((l.entries relOffset relSize).map l.mapped.word) l.mapped l.memory
  | .error _ => False

end DynLoaded

/-! ## The parts -/

section

variable {env : DynEnv} {file : List UInt8} {mem mem' : DynMemory} {phdrs : List ElfPhdr}
  {bias dyn : ℕ} {s s' : DynLoop}

theorem segments_iff {loads : List ElfPhdr} (hfile : file.length < 2 ^ 32)
    (h : Mapped env file bias loads s s') :
    (∀ ph ∈ loads, ∀ i < ph.pMemsz.toNat,
        ph.Shows file i (s'.memory ((bias + (ph.pVaddr.toNat + i)) % 2 ^ 32))) ↔
      ∀ ph ∈ loads, env.ReadsTheSame file ph := by
  apply forall₂_congr
  intro ph hph
  obtain ⟨hbounds, hfilesz, hreads, -, -⟩ := h.bounds ph hph
  rw [← shows_cell_iff hbounds hfilesz hreads hfile]
  apply forall₂_congr
  intro i hi
  have hstart := hbounds.start_le
  have hend := hbounds.le_end
  rw [← h.cells ph hph (ph.pVaddr.toNat + i) (by omega) (by omega)]
  rfl

theorem apart_of_mapped {loads : List ElfPhdr} (hbias : bias < 2 ^ 32)
    (h : Mapped env file bias loads s s') :
    loads.Pairwise fun ph ph' => ∀ i < ph.pMemsz.toNat, ∀ j < ph'.pMemsz.toNat,
      (bias + (ph.pVaddr.toNat + i)) % 2 ^ 32 ≠ (bias + (ph'.pVaddr.toNat + j)) % 2 ^ 32 := by
  refine h.sorted.imp_of_mem fun {ph ph'} hph hph' hsorted i hi j hj heq => ?_
  have hend := (h.bounds ph hph).1.le_end
  have hlt := (h.bounds ph hph).1.end_lt
  have hstart' := (h.bounds ph' hph').1.start_le
  have hend' := (h.bounds ph' hph').1.le_end
  have hlt' := (h.bounds ph' hph').1.end_lt
  have hsame := (add_mod_inj hbias (by omega) (by omega)).1 heq
  omega

theorem relocated_of_applyRelocations {l : DynLoaded} {arch : DynArch}
    (h : arch.applyRelocations l.mapped l.ptDynamic l.loadBias = .ok l.memory)
    (htable : l.TableRight) : l.RelocationsRight arch := by
  obtain ⟨table, hrel, h⟩ := bind_eq_ok.1 h
  unfold DynLoaded.TableRight at htable
  unfold DynLoaded.RelocationsRight
  rw [hrel] at htable ⊢
  cases table with
  | none => exact (Except.ok.inj h).symm
  | some table =>
    obtain ⟨relOffset, relSize⟩ := table
    obtain ⟨hsize, hwrap, hapart⟩ := htable
    have hend : (l.loadBias + relOffset + relSize) % 2 ^ 32 =
        relocTarget l.loadBias relOffset + relSize := by
      unfold relocTarget at hwrap ⊢
      omega
    have hentries : relEntries ((l.loadBias + relOffset) % 2 ^ 32)
        ((l.loadBias + relOffset + relSize) % 2 ^ 32) = l.entries relOffset relSize := by
      have hcount : ((l.loadBias + relOffset + relSize) % 2 ^ 32 -
          (l.loadBias + relOffset) % 2 ^ 32 + 7) / 8 = relSize / 8 := by
        rw [hend]
        unfold relocTarget
        omega
      unfold relEntries DynLoaded.entries
      rw [hcount]
      rfl
    dsimp only at h
    rw [hentries] at h
    obtain ⟨hall, hmem⟩ := eq_of_applyRelocations hapart (List.Subset.refl _)
      (fun _ _ => ⟨rfl, rfl⟩) h
    refine ⟨fun r hr => (hall r hr).1, ?_⟩
    rw [hmem]
    apply relocated_foldl
    intro off hoff i hi
    obtain ⟨r, hr, rfl⟩ := List.mem_map.1 hoff
    exact (hall r hr).2 i hi

theorem request_cases {build : DynBuild} {segments : DynSegments} {request : DynReserve}
    (h : build.request segments = .ok request) :
    ∃ code first last, segments = ⟨some code, some first, some last⟩ ∧ code.pVaddr = 0 ∧
      code.pFilesz = code.pMemsz ∧
      let dataEnd := (last.pVaddr.toNat + last.pMemsz.toNat) % 2 ^ 32
      let dataSize := (dataEnd + 2 ^ 32 - first.pVaddr.toNat) % 2 ^ 32
      (request = .mmap dataEnd ∨
        code.pFilesz.toNat = 0 ∧ first.pVaddr.toNat = 0 ∧ request = .mmap dataSize ∨
        request = .allocateCodeData code.pFilesz.toNat first.pVaddr.toNat
          (pageSizeRoundUp dataSize)) := by
  obtain ⟨codeSegment, firstData, lastData⟩ := segments
  cases codeSegment with
  | none => cases h
  | some code =>
    cases firstData with
    | none => cases h
    | some first =>
      cases lastData with
      | none => cases h
      | some last =>
        obtain ⟨_, hvaddr, h⟩ := bind_eq_ok.1 h
        obtain ⟨_, hfilesz, h⟩ := bind_eq_ok.1 h
        refine ⟨code, first, last, rfl, dynCheck_eq_ok.1 hvaddr, dynCheck_eq_ok.1 hfilesz, ?_⟩
        cases build with
        | nonSfi => exact Or.inl (Except.ok.inj h).symm
        | sfi =>
          dsimp only at h
          by_cases hcode : code.pFilesz.toNat = 0
          · rw [if_pos hcode] at h
            obtain ⟨_, hoffset, h⟩ := bind_eq_ok.1 h
            exact Or.inr (Or.inl
              ⟨hcode, dynCheck_eq_ok.1 hoffset, (Except.ok.inj h).symm⟩)
          · rw [if_neg hcode] at h
            exact Or.inr (Or.inr (Except.ok.inj h).symm)

theorem inside_of_request {build : DynBuild} {segments : DynSegments} {request : DynReserve}
    (h : build.request segments = .ok request) (hne : request ≠ .mmap 0)
    (hfinds : Finds phdrs ⟨none, none, none⟩ segments)
    (hmapped : Mapped env file bias (loadHeaders phdrs) s s') {ph : ElfPhdr}
    (hph : ph ∈ loadHeaders phdrs) {i : ℕ} (hi : i < ph.pMemsz.toNat) :
    ∃ area ∈ request.areas, area.1 ≤ ph.pVaddr.toNat + i ∧
      ph.pVaddr.toNat + i < area.1 + area.2 := by
  obtain ⟨code, first, last, rfl, hvaddr, hfilesz, hrequest⟩ := request_cases h
  have hfirst : (dataHeaders phdrs).head? = some first := hfinds.first.symm
  have hlast : (dataHeaders phdrs).getLast? = some last := by
    have hor := hfinds.last
    rw [Option.or_none] at hor
    exact hor.symm
  have hdata : ∀ ph ∈ dataHeaders phdrs, ph ∈ loadHeaders phdrs := fun _ => List.mem_of_mem_filter
  have hsorted : (dataHeaders phdrs).Pairwise fun ph ph' => ph.segmentEnd ≤ ph'.segmentStart :=
    hmapped.sorted.filter _
  have hfirstMem := List.mem_of_mem_head? hfirst
  have hlastMem := List.mem_of_getLast? hlast
  have hfirstBounds := (hmapped.bounds first (hdata _ hfirstMem)).1
  have hlastBounds := (hmapped.bounds last (hdata _ hlastMem)).1
  have hbounds := (hmapped.bounds ph hph).1
  have hstart := hbounds.start_le
  have hend := hbounds.le_end
  have hfirstEnd := hfirstBounds.le_end
  have hlastStart := hlastBounds.start_le
  have hlastEnd := hlastBounds.le_end
  have hlastLt := hlastBounds.end_lt
  have hdataEnd : (last.pVaddr.toNat + last.pMemsz.toNat) % 2 ^ 32 =
      last.pVaddr.toNat + last.pMemsz.toNat := Nat.mod_eq_of_lt (by omega)
  rw [hdataEnd] at hrequest
  dsimp only at hrequest
  have hfirstLast : first.pVaddr.toNat ≤ last.pVaddr.toNat + last.pMemsz.toNat := by
    rcases pairwise_last hsorted hlast hfirstMem with rfl | hle
    · omega
    · omega
  have hdataSize : (last.pVaddr.toNat + last.pMemsz.toNat + 2 ^ 32 - first.pVaddr.toNat) % 2 ^ 32 =
      last.pVaddr.toNat + last.pMemsz.toNat - first.pVaddr.toNat := by omega
  rw [hdataSize] at hrequest
  by_cases hcode : ph.pFlags &&& pfX ≠ 0
  · have heq : some code = some ph :=
      hfinds.code ph (List.mem_filter.2 ⟨hph, by simpa using hcode⟩)
    cases heq
    have hzero : ph.pVaddr.toNat = 0 := by rw [hvaddr]; rfl
    rw [hfilesz] at hrequest
    rcases hrequest with rfl | ⟨hnone, -, -⟩ | rfl
    · refine ⟨_, List.mem_singleton_self _, by omega, ?_⟩
      have hneLast : ph ≠ last := by
        rintro rfl
        have hflags := (List.mem_filter.1 hlastMem).2
        exact hcode (by simpa using hflags)
      have heither := pairwise_or hmapped.sorted hph (hdata _ hlastMem) hneLast
      have hpos : last.pVaddr.toNat + last.pMemsz.toNat ≠ 0 := fun h0 => hne (by rw [h0])
      omega
    · omega
    · exact ⟨_, List.mem_cons_self, by omega, by omega⟩
  · have hmem : ph ∈ dataHeaders phdrs := List.mem_filter.2 ⟨hph, by simpa using hcode⟩
    have hlow : first.pVaddr.toNat ≤ ph.pVaddr.toNat := by
      rcases pairwise_head hsorted hfirst hmem with rfl | hle
      · omega
      · omega
    have hhigh : ph.pVaddr.toNat + ph.pMemsz.toNat ≤ last.pVaddr.toNat + last.pMemsz.toNat := by
      rcases pairwise_last hsorted hlast hmem with rfl | hle
      · omega
      · omega
    rcases hrequest with rfl | ⟨-, hoffset, rfl⟩ | rfl
    · exact ⟨_, List.mem_singleton_self _, by omega, by omega⟩
    · exact ⟨_, List.mem_singleton_self _, by omega, by omega⟩
    · refine ⟨_, List.mem_cons_of_mem _ (List.mem_singleton_self _), by omega, ?_⟩
      have hround : last.pVaddr.toNat + last.pMemsz.toNat - first.pVaddr.toNat ≤
          pageSizeRoundUp (last.pVaddr.toNat + last.pMemsz.toNat - first.pVaddr.toNat) := by
        have hpage : naclMapPageSize = 65536 := rfl
        have hroom := hlastBounds.end_room
        unfold pageSizeRoundUp pageSizeRoundDown
        rw [hpage] at hroom ⊢
        omega
      omega

end

/-! ## The loader -/

def headBytes (file : List UInt8) : List UInt8 := preadBytes file sizeofElf32Ehdr 0

def phdrBytes (file : List UInt8) : List UInt8 :=
  let ehdr := elf32Ehdr (headBytes file)
  preadBytes file (sizeofElf32Phdr * ehdr.ePhnum) ehdr.ePhoff

def programHeaders (file : List UInt8) : List ElfPhdr :=
  elf32Phdrs (phdrBytes file) (elf32Ehdr (headBytes file)).ePhnum

def HeadersInFile (file : List UInt8) : Prop :=
  (headBytes file).length = sizeofElf32Ehdr ∧
    (phdrBytes file).length = sizeofElf32Phdr * (elf32Ehdr (headBytes file)).ePhnum

instance (file : List UInt8) : Decidable (HeadersInFile file) :=
  inferInstanceAs (Decidable (_ ∧ _))

/-- A file that has been loaded, as far as the loader always gets it right. -/
structure LoadedFrom (env : DynEnv) (file : List UInt8) (l : DynLoaded) : Prop where
  phdrs_eq : l.phdrs = programHeaders file
  segmentsApart : l.SegmentsApart
  inside : l.Inside
  segments_iff : l.SegmentsRight file ↔ ∀ ph ∈ loadHeaders l.phdrs, env.ReadsTheSame file ph
  relocations : l.TableRight → l.RelocationsRight env.arch

section

variable {env : DynEnv} {file : List UInt8} {mem : DynMemory} {entry : ℕ} {phdrs : List ElfPhdr}
  {r : Option DynLoaded}

theorem loaded_of_loadPhdrs (hfile : file.length < 2 ^ 32)
    (hwrap : ∀ ph ∈ loadHeaders phdrs, ph.NoWrap)
    (h : env.loadPhdrs file mem entry phdrs = .ok (0, r)) :
    ∃ l, r = some l ∧ l.phdrs = phdrs ∧ l.SegmentsApart ∧ l.Inside ∧
      (l.SegmentsRight file ↔ ∀ ph ∈ loadHeaders phdrs, env.ReadsTheSame file ph) ∧
      (l.TableRight → l.RelocationsRight env.arch) := by
  obtain ⟨segments, hfind, h⟩ := bind_eq_ok.1 h
  obtain ⟨request, hrequest, h⟩ := bind_eq_ok.1 h
  cases hreserve : env.reserveFor request with
  | error errno =>
    rw [hreserve] at h
    have hzero : errno.val = 0 := congrArg Prod.fst (Except.ok.inj h)
    exact absurd hzero errno.property
  | ok bias =>
    rw [hreserve] at h
    obtain ⟨s, hrun, h⟩ := bind_eq_ok.1 h
    obtain ⟨_, -, h⟩ := bind_eq_ok.1 h
    obtain ⟨memory, hreloc, h⟩ := bind_eq_ok.1 h
    have hmapped := mapped_of_run bias.isLt hwrap hrun
    have hne : request ≠ .mmap 0 := by
      rintro rfl
      rw [DynEnv.reserveFor, if_pos rfl] at hreserve
      cases hreserve
    refine ⟨_, (congrArg Prod.snd (Except.ok.inj h)).symm, rfl, ?_, ?_, ?_, ?_⟩
    · exact apart_of_mapped bias.isLt hmapped
    · exact fun ph hph i hi => inside_of_request hrequest hne (finds_of_run hfind) hmapped hph hi
    · exact segments_iff hfile hmapped
    · exact relocated_of_applyRelocations hreloc

theorem headersInFile_of_accepted (hheaders : env.errno = 0 → HeadersInFile file)
    (h : env.loadElfFileFromFd file mem = .ok (0, r)) : HeadersInFile file := by
  by_cases herrno : env.errno = 0
  · exact hheaders herrno
  · unfold DynEnv.loadElfFileFromFd at h
    dsimp only at h
    by_cases hhead : (preadBytes file sizeofElf32Ehdr 0).length ≠ sizeofElf32Ehdr
    · rw [if_pos hhead] at h
      exact absurd (congrArg Prod.fst (Except.ok.inj h)) herrno
    · rw [if_neg hhead] at h
      obtain ⟨_, -, h⟩ := bind_eq_ok.1 h
      split_ifs at h with hmany hshort
      · cases h
      · exact absurd (congrArg Prod.fst (Except.ok.inj h)) herrno
      · exact ⟨not_not.1 hhead, not_not.1 hshort⟩

/-- A file that is accepted is in memory as it says, if and only if it reads the same at the offsets
that the loader maps. -/
theorem loaded_right (hfile : file.length < 2 ^ 32) (hheaders : env.errno = 0 → HeadersInFile file)
    (hwrap : ∀ ph ∈ loadHeaders (programHeaders file), ph.NoWrap)
    (h : env.loadElfFileFromFd file mem = .ok (0, r)) :
    ∃ l, r = some l ∧ LoadedFrom env file l := by
  have hin := headersInFile_of_accepted hheaders h
  have hhead : ¬ (preadBytes file sizeofElf32Ehdr 0).length ≠ sizeofElf32Ehdr := not_not.2 hin.1
  unfold DynEnv.loadElfFileFromFd at h
  dsimp only at h
  rw [if_neg hhead] at h
  obtain ⟨_, -, h⟩ := bind_eq_ok.1 h
  split_ifs at h with hmany hshort
  · cases h
  · exact absurd hin.2 hshort
  · obtain ⟨l, hr, hphdrs, hapart, hinside, hiff, hreloc⟩ := loaded_of_loadPhdrs hfile hwrap h
    refine ⟨l, hr, hphdrs, hapart, hinside, ?_, hreloc⟩
    rw [hphdrs]
    exact hiff

/-! ## Examples -/

/-- An ELF header with the program headers after it. -/
def sampleHead (entry phnum : ℕ) : List UInt8 :=
  [0x7f, 0x45, 0x4c, 0x46, 1, 1, 1, 0, 0, 0, 0, 0, 0, 0, 0, 0] ++
    [3, 3].flatMap (ByteImage.leBytes 2) ++
    [1, entry, sizeofElf32Ehdr, 0, 0].flatMap (ByteImage.leBytes 4) ++
    [sizeofElf32Ehdr, sizeofElf32Phdr, phnum, 0, 0, 0].flatMap (ByteImage.leBytes 2)

/-- An environment in which nothing fails. -/
def sampleEnv : DynEnv where
  arch := .i386
  build := .sfi
  errno := 0
  reserve _ := .ok 0x30000
  mmapFails _ _ _ _ := false
  pastEnd _ := 0

/-- Data of 184 bytes, the whole file, and 16 zeros.  One relocation is for the word at 180. -/
def sampleFile : List UInt8 :=
  sampleHead 0 3 ++ [1, 0, 0, 0, 0, 0, 5, 0x10000].flatMap (ByteImage.leBytes 4) ++
    [1, 0, 0, 0, 184, 200, 6, 0x10000].flatMap (ByteImage.leBytes 4) ++
    [2, 148, 148, 148, 24, 24, 6, 4].flatMap (ByteImage.leBytes 4) ++
    [17, 172, 18, 8, 0, 0].flatMap (ByteImage.leBytes 4) ++
    [180, 8].flatMap (ByteImage.leBytes 4) ++ ByteImage.leBytes 4 0x1000

theorem loaded_right_sample : ∃ l, sampleEnv.loadElfFileFromFd sampleFile (fun _ => none) =
    .ok (0, some l) ∧ l.memory.word 0x300b4 = 0x31000 ∧ LoadedFrom sampleEnv sampleFile l := by
  obtain ⟨⟨rv, r⟩, hrun, hrv, hword⟩ : ∃ x, sampleEnv.loadElfFileFromFd sampleFile (fun _ => none) =
      .ok x ∧ x.1 = 0 ∧ x.2.map (fun l => l.memory.word 0x300b4) = some 0x31000 := by
    apply Runs.exists_ok_of_check (fun x => decide
      (x.1 = 0 ∧ x.2.map (fun l => l.memory.word 0x300b4) = some 0x31000))
    · exact fun x hx => of_decide_eq_true hx
    · decide +kernel
  obtain rfl : rv = 0 := hrv
  obtain ⟨l, rfl, hl⟩ := loaded_right (by decide +kernel) (fun _ => by decide +kernel)
    (by decide +kernel) hrun
  exact ⟨l, hrun, Option.some.inj hword, hl⟩

/-- Data of 4 bytes at offset 148 of the file, to be at address 0. -/
def misplacedFile : List UInt8 :=
  sampleHead 0 3 ++ [1, 0, 0, 0, 0, 0, 5, 0x10000].flatMap (ByteImage.leBytes 4) ++
    [1, 148, 0, 0, 4, 4, 6, 0x10000].flatMap (ByteImage.leBytes 4) ++
    [2, 148, 8, 8, 4, 4, 6, 4].flatMap (ByteImage.leBytes 4) ++ [1, 2, 3, 4]

/-- The beginning of the file is mapped in its place. -/
theorem not_loaded_misplaced :
    ∃ l, sampleEnv.loadElfFileFromFd misplacedFile (fun _ => none) = .ok (0, some l) ∧
      (l.mapped (l.loadBias + 0)).map MappedByte.value = some 0x7f ∧ misplacedFile[148]? = some 1 ∧
      ¬ l.SegmentsRight misplacedFile := by
  obtain ⟨⟨rv, r⟩, hrun, hrv, hmis⟩ : ∃ x,
      sampleEnv.loadElfFileFromFd misplacedFile (fun _ => none) = .ok x ∧ x.1 = 0 ∧
        ∃ l ∈ x.2, (l.loadBias = 0x30000 ∧
          (l.mapped 0x30000).map MappedByte.value = some 0x7f) ∧
          ∃ ph ∈ loadHeaders l.phdrs, ph.pVaddr = 0 ∧ ph.pOffset = 148 ∧ ph.pFilesz = 4 ∧
            ph.pMemsz = 4 := by
    apply Runs.exists_ok_of_check (fun x => decide (x.1 = 0 ∧
        ∃ l ∈ x.2, (l.loadBias = 0x30000 ∧
          (l.mapped 0x30000).map MappedByte.value = some 0x7f) ∧
          ∃ ph ∈ loadHeaders l.phdrs, ph.pVaddr = 0 ∧ ph.pOffset = 148 ∧ ph.pFilesz = 4 ∧
            ph.pMemsz = 4))
    · exact fun x hx => of_decide_eq_true hx
    · decide +kernel
  obtain ⟨l, hl, ⟨hbias, hbyte⟩, ph, hph, hvaddr, hoffset, hfilesz, hmemsz⟩ := hmis
  obtain rfl : rv = 0 := hrv
  obtain rfl : r = some l := hl
  have hfile : misplacedFile[148]? = some 1 := by decide +kernel
  refine ⟨l, hrun, by rw [hbias]; exact hbyte, hfile, fun hright => ?_⟩
  obtain ⟨b, hb, hshows⟩ := hright ph hph 0 (by rw [hmemsz]; decide)
  rw [if_pos (by rw [hfilesz]; decide), hoffset] at hshows
  have haddr : l.address ph 0 = 0x30000 := by
    unfold DynLoaded.address
    rw [hbias, hvaddr]
    rfl
  rw [haddr, hbyte] at hb
  cases hb
  have hone := hfile.symm.trans hshows
  cases hone

end

end SandboxingNaCl
