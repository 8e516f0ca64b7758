import SandboxingNaCl.Untrusted.ElfSegments
import SandboxingNaCl.Untrusted.LoadedModule

/-!
# Loaded dynamic executables

When a file that `load_elf_file` accepts is in memory as it says.  The code is mapped, or read and
installed; after the latter the first read of a last page may skip the `lseek` that it needs.
-/

namespace SandboxingNaCl

open BiasedImage KeyedLoop

/-! ## What has to be in memory -/

/-- The segments from the first on: the code, and the headers after it. -/
def fromFirstLoad (phdrs : List ElfPhdr) : List ElfPhdr := phdrs.dropWhile (·.pType ≠ ptLoad)

def headersEnd (file : List UInt8) : ℕ :=
  (elf32Ehdr (headBytes file)).ePhoff + sizeofElf32Phdr * (elf32Ehdr (headBytes file)).ePhnum

/-- What is wanted of a loaded file: the bytes of the segments, the holes between the data segments,
the area of the code, and the reads. -/
structure ElfRight (env : ElfEnv) (file : List UInt8) (mem : DynMemory) (firstLoad : ElfPhdr)
    (after : List ElfPhdr) (l : ElfLoaded) : Prop where
  segments : ∀ ph ∈ loadHeaders l.phdrs, ∀ i < ph.pMemsz.toNat,
    ph.Shows file i (l.memory ((l.outBase + ph.pVaddr.toNat + i) % 2 ^ 32))
  holes : ∀ x, (∃ ph ∈ loadHeaders after, ph.lastPageEnd l.outBase ≤ x) →
    (∃ ph ∈ loadHeaders after, x < ph.start l.outBase) →
    (∀ ph ∈ loadHeaders after, ¬ ph.Covers l.outBase x) → Inaccessible (l.memory x)
  codeArea : ∀ x < env.codeEnd, ¬ firstLoad.Covers l.outBase x → l.memory x = mem x
  reads : l.fd.Right

/-! ## When it is -/

/-- The segments are in order and nothing wraps; the first is at the beginning of a page, and the
others are data. -/
structure ElfPlaced (loadBias : ℕ) (firstLoad : ElfPhdr) (after : List ElfPhdr) : Prop where
  fits : ∀ ph ∈ firstLoad :: loadHeaders after, ph.Fits loadBias
  inOrder : InOrder loadBias (firstLoad :: loadHeaders after)
  filesz_le : ∀ ph ∈ loadHeaders after, ph.pFilesz.toNat ≤ ph.pMemsz.toNat
  data : ∀ ph ∈ loadHeaders after, ph.IsData
  aligned : firstLoad.pVaddr.toNat % naclMapPageSize = 0

/-- Where the byte of a data segment comes from in the file. -/
def ElfPhdr.source (ph : ElfPhdr) (loadBias i : ℕ) : ℕ :=
  if ph.addr loadBias + i < ph.fileMapEnd loadBias then
    pageSizeRoundDown ph.pOffset.toNat + (ph.addr loadBias + i - ph.start loadBias)
  else ph.partialPos + (ph.addr loadBias + i - ph.fileMapEnd loadBias)

def ElfPhdr.codeSource (ph : ElfPhdr) (i : ℕ) : ℕ := pageSizeRoundDown ph.pOffset.toNat + i

/-- The file has the bytes of the segment, and the same bytes where the loader takes them from. -/
def ElfEnv.ReadsFrom (env : ElfEnv) (file : List UInt8) (ph : ElfPhdr) (src : ℕ → ℕ) : Prop :=
  ∀ i < ph.pFilesz.toNat, ∃ b, file[ph.pOffset.toNat + i]? = some b ∧
    mappedByte env.pastEnd file (src i) = some b

/-- The code may not be mapped from the file. -/
def ElfEnv.CodeRefused (env : ElfEnv) (file : List UInt8) (mem : DynMemory) (loadBias : ℕ)
    (firstLoad : ElfPhdr) : Prop :=
  (env.mmap file mem (firstLoad.codeAddress loadBias) firstLoad.pMemsz.toNat
    (protFromPhdr firstLoad) (some (pageSizeRoundDown firstLoad.pOffset.toNat))).toOption.isNone

/-- When the code has been read, the first last page to be read is not where the read of the headers
has ended, or the read of the code has ended there, too. -/
def ElfEnv.SeekOk (env : ElfEnv) (file : List UInt8) (mem : DynMemory) (loadBias : ℕ)
    (firstLoad : ElfPhdr) (after : List ElfPhdr) : Prop :=
  env.CodeRefused file mem loadBias firstLoad →
    pageSizeRoundDown firstLoad.pOffset.toNat + firstLoad.pMemsz.toNat = headersEnd file ∨
      ∀ ph ∈ firstPartial loadBias after, ph.partialPos ≠ headersEnd file

section

variable {env : ElfEnv} {file : List UInt8} {ph : ElfPhdr} {loadBias : ℕ}

/-- Where the address and the offset are at the same place of their pages, the bytes come from where
they should. -/
theorem source_of_congruent (hph : ph.Placed loadBias)
    (hcongr : ph.pOffset.toNat % naclMapPageSize = ph.addr loadBias % naclMapPageSize)
    (hfile : ph.pOffset.toNat + ph.pFilesz.toNat < 2 ^ 32)
    (hle : ph.pFilesz.toNat ≤ ph.pMemsz.toNat) {i : ℕ} (hi : i < ph.pFilesz.toNat) :
    ph.source loadBias i = ph.pOffset.toNat + i := by
  have hpage : naclMapPageSize = 65536 := rfl
  have hstart : ph.start loadBias = ph.addr loadBias / 65536 * 65536 := rfl
  have hoff : pageSizeRoundDown ph.pOffset.toNat = ph.pOffset.toNat / 65536 * 65536 := rfl
  have hpart : ph.partialPos = (ph.pOffset.toNat + ph.pFilesz.toNat) / 65536 * 65536 := by
    unfold ElfPhdr.partialPos
    rw [Nat.mod_eq_of_lt hfile]
    rfl
  rw [hpage] at hcongr
  have hend := hph.le_end
  have hfileEnd := hph.file_end
  unfold ElfPhdr.source
  by_cases hmap : ph.addr loadBias + i < ph.fileMapEnd loadBias
  · rw [if_pos hmap]
    omega
  · rw [if_neg hmap]
    have hbss : ph.pFilesz.toNat < ph.pMemsz.toNat := by
      by_contra hno
      have heq := hph.map_eq hno
      omega
    have hmapEnd : ph.fileMapEnd loadBias =
        (ph.addr loadBias + ph.pFilesz.toNat) / 65536 * 65536 := by
      unfold ElfPhdr.fileMapEnd
      rw [if_pos hbss, hfileEnd]
      rfl
    omega

theorem readsFrom_of_source {src : ℕ → ℕ}
    (hsrc : ∀ i < ph.pFilesz.toNat, src i = ph.pOffset.toNat + i)
    (hfile : ph.pOffset.toNat + ph.pFilesz.toNat ≤ file.length) : env.ReadsFrom file ph src := by
  intro i hi
  have hin : ph.pOffset.toNat + i < file.length := by omega
  refine ⟨_, List.getElem?_eq_getElem hin, ?_⟩
  rw [hsrc i hi]
  exact mappedByte_eq (List.getElem?_eq_getElem hin)

theorem map_value (prot : BitVec 32) (o : Option UInt8) :
    (o.map fun b => (⟨prot, b⟩ : MappedByte)).map MappedByte.value = o := by
  rw [Option.map_map]
  exact congrFun Option.map_id o

theorem shows_iff_readsFrom {cell : ℕ → Option MappedByte} {src : ℕ → ℕ}
    (hle : ph.pFilesz.toNat ≤ ph.pMemsz.toNat)
    (hfile : ∀ i < ph.pFilesz.toNat,
      (cell i).map MappedByte.value = mappedByte env.pastEnd file (src i))
    (hzero : ∀ i, ph.pFilesz.toNat ≤ i → i < ph.pMemsz.toNat →
      (cell i).map MappedByte.value = some 0) :
    (∀ i < ph.pMemsz.toNat, ph.Shows file i (cell i)) ↔ env.ReadsFrom file ph src := by
  unfold ElfPhdr.Shows ElfEnv.ReadsFrom
  constructor
  · intro h i hi
    obtain ⟨b, hcell, hb⟩ := h i (by omega)
    rw [if_pos hi] at hb
    exact ⟨b, hb, hfile i hi ▸ hcell⟩
  · intro h i hi
    by_cases hlt : i < ph.pFilesz.toNat
    · obtain ⟨b, hb, hsrc⟩ := h i hlt
      exact ⟨b, (hfile i hlt).trans hsrc, by rw [if_pos hlt]; exact hb⟩
    · exact ⟨0, hzero i (by omega) hi, by rw [if_neg hlt]⟩

theorem shows_cell_iff_readsFrom (hph : ph.Placed loadBias)
    (hle : ph.pFilesz.toNat ≤ ph.pMemsz.toNat) :
    (∀ i < ph.pMemsz.toNat, ph.Shows file i
      (env.cell file loadBias ph ph.partialPos (ph.addr loadBias + i))) ↔
        env.ReadsFrom file ph (ph.source loadBias) := by
  have hfileEnd := hph.file_end
  have hend := hph.le_end
  apply shows_iff_readsFrom hle
  · intro i hi
    unfold ElfEnv.cell ElfPhdr.source
    by_cases hmap : ph.addr loadBias + i < ph.fileMapEnd loadBias
    · simp only [if_pos hmap, map_value]
    · have hin : ph.addr loadBias + i < ph.fileEnd loadBias := by omega
      simp only [if_neg hmap, if_pos hin, map_value]
  · intro i hlow hi
    have hbss : ph.pFilesz.toNat < ph.pMemsz.toNat := by omega
    have hmap_le := hph.map_le_file hbss
    have hmap : ¬ ph.addr loadBias + i < ph.fileMapEnd loadBias := by omega
    have hout : ¬ ph.addr loadBias + i < ph.fileEnd loadBias := by omega
    unfold ElfEnv.cell
    simp only [if_neg hmap, if_neg hout, Option.map_some]

end

/-! ## The code -/

section

variable {env : ElfEnv} {file : List UInt8} {ph : ElfPhdr} {loadBias x : ℕ} {s s' : ElfState}

/-- What mapping or installing the code has done. -/
structure CodeMapped (env : ElfEnv) (file : List UInt8) (loadBias : ℕ) (ph : ElfPhdr)
    (s s' : ElfState) : Prop where
  end_le : ph.codeAddress loadBias + ph.pMemsz.toNat ≤ env.codeEnd
  code : ∀ i < ph.pMemsz.toNat, (s'.memory (ph.codeAddress loadBias + i)).map MappedByte.value =
    mappedByte env.pastEnd file (ph.codeSource i)
  others : ∀ x, ¬ (ph.codeAddress loadBias ≤ x ∧
    x < ph.codeAddress loadBias + ph.pMemsz.toNat) → s'.memory x = s.memory x
  preadPos_eq : s'.preadPos = s.preadPos
  fd_eq : ¬ env.CodeRefused file s.memory loadBias ph ∧ s'.fd = s.fd ∨
    env.CodeRefused file s.memory loadBias ph ∧ ∃ bytes lastPos,
      ReadFrom file s.fd ph.pMemsz.toNat (pageSizeRoundDown ph.pOffset.toNat) (2 ^ 32 - 1) bytes
        s'.fd lastPos

theorem protFromPhdr_code (h : ph.pFlags = pfR ||| pfX) :
    protFromPhdr ph = protRead ||| protExec := by
  unfold protFromPhdr elfFlagsToMmapFlags
  rw [h]
  decide

theorem startOf_code {fd : ElfFd} {pos : ℕ} :
    fd.startOf (pageSizeRoundDown pos) (2 ^ 32 - 1) = pageSizeRoundDown pos := by
  have hmod := ElfPhdr.roundDown_mod pos
  have hne : pageSizeRoundDown pos ≠ 2 ^ 32 - 1 := fun heq => by
    rw [heq] at hmod
    exact absurd hmod (by decide)
  unfold ElfFd.startOf
  rw [if_pos hne]

theorem codeMapped_of_installCode {unreserved : Bool}
    (hrefused : env.CodeRefused file s.memory loadBias ph)
    (h : env.installCode file s (ph.codeAddress loadBias) ph.pMemsz.toNat
      (pageSizeRoundDown ph.pOffset.toNat) unreserved = .ok s') :
    CodeMapped env file loadBias ph s s' := by
  obtain ⟨_, -, h⟩ := bind_eq_ok.1 h
  obtain ⟨⟨data, fd, lastPos⟩, hread, h⟩ := bind_eq_ok.1 h
  obtain ⟨_, hcreate, h⟩ := bind_eq_ok.1 h
  obtain ⟨_, -, h⟩ := bind_eq_ok.1 h
  cases h
  have hfrom := readFrom_of_myPread hread
  have hlen := hfrom.length_eq
  have hbytes := hfrom.bytes_eq
  rw [startOf_code] at hbytes
  refine ⟨(dynCheck_eq_ok.1 hcreate).1, fun i hi => ?_, fun x hx => ?_, rfl,
    Or.inr ⟨hrefused, data, lastPos, hfrom⟩⟩
  · have hin : ph.codeAddress loadBias ≤ ph.codeAddress loadBias + i ∧
        ph.codeAddress loadBias + i < ph.codeAddress loadBias + ph.pMemsz.toNat := by omega
    have hbyte := List.getElem?_eq_getElem (lt_length_of_preadBytes (hbytes ▸ hlen) hi)
    dsimp only
    rw [overwrite_apply, if_pos hin, map_value, Nat.add_sub_cancel_left, hbytes,
      getElem?_preadBytes hi, hbyte]
    exact (mappedByte_eq hbyte).symm
  · dsimp only
    rw [overwrite_apply, if_neg hx]

theorem codeMapped_of_myMmap {unreserved : Bool} (hflags : ph.pFlags = pfR ||| pfX)
    (h : env.myMmap file s (ph.codeAddress loadBias) ph.pMemsz.toNat (protFromPhdr ph)
      (some (pageSizeRoundDown ph.pOffset.toNat)) unreserved = .ok s') :
    CodeMapped env file loadBias ph s s' := by
  unfold ElfEnv.myMmap at h
  cases hmap : env.mmap file s.memory (ph.codeAddress loadBias) ph.pMemsz.toNat (protFromPhdr ph)
      (some (pageSizeRoundDown ph.pOffset.toNat)) with
  | error errno =>
    rw [hmap] at h
    dsimp only at h
    split_ifs at h
    apply codeMapped_of_installCode ?_ h
    unfold ElfEnv.CodeRefused
    rw [hmap]
    rfl
  | ok memory =>
    rw [hmap] at h
    cases h
    have hnot : ¬ env.CodeRefused file s.memory loadBias ph := by
      unfold ElfEnv.CodeRefused
      rw [hmap]
      exact Bool.false_ne_true
    obtain ⟨⟨-, -, -, -, hexec⟩, rfl⟩ := eq_of_elfMmap hmap
    have hprot : protFromPhdr ph &&& protExec ≠ 0 := by
      rw [protFromPhdr_code hflags]
      decide
    rw [if_pos hprot] at hexec
    obtain ⟨hsize, -, hend, -⟩ := hexec
    rw [← hsize] at hend ⊢
    refine ⟨hend, fun i hi => ?_, fun x hx => ?_, rfl, Or.inl ⟨hnot, rfl⟩⟩
    · have hin : ph.codeAddress loadBias ≤ ph.codeAddress loadBias + i ∧
          ph.codeAddress loadBias + i < ph.codeAddress loadBias + ph.pMemsz.toNat := by omega
      dsimp only
      rw [overwrite_apply, if_pos hin, Nat.add_sub_cancel_left]
      exact map_value _ _
    · dsimp only
      rw [overwrite_apply, if_neg hx]

namespace CodeMapped

variable (h : CodeMapped env file loadBias ph s s')

include h

theorem right_iff : s'.fd.Right ↔ s.fd.Right := by
  rcases h.fd_eq with ⟨-, hfd⟩ | ⟨-, bytes, lastPos, hfrom⟩
  · rw [hfd]
  · rw [hfrom.right_iff, and_iff_left startOf_code]

theorem inStep_iff (hstep : s.InStep) : s'.InStep ↔
    (env.CodeRefused file s.memory loadBias ph →
      pageSizeRoundDown ph.pOffset.toNat + ph.pMemsz.toNat = s.preadPos) := by
  unfold ElfState.InStep at hstep ⊢
  rw [h.preadPos_eq]
  rcases h.fd_eq with ⟨hnot, hfd⟩ | ⟨hrefused, bytes, lastPos, hfrom⟩
  · rw [hfd]
    exact iff_of_true hstep fun hrefused => absurd hrefused hnot
  · rw [hfrom.fd_eq, startOf_code]
    exact ⟨fun heq _ => heq, fun heq => heq hrefused⟩

end CodeMapped

end

/-! ## The loader -/

section

variable {env : ElfEnv} {file : List UInt8} {mem : DynMemory} {phdrs after : List ElfPhdr}
  {firstLoad ph : ElfPhdr} {loadBias i : ℕ} {s s' : ElfState} {outs anywhere : Bool}
  {l : ElfLoaded}

theorem loadHeaders_of_fromFirstLoad (h : fromFirstLoad phdrs = firstLoad :: after) :
    loadHeaders phdrs = firstLoad :: loadHeaders after := by
  unfold fromFirstLoad at h
  induction phdrs with
  | nil => cases h
  | cons ph phdrs ih =>
    by_cases hload : ph.pType = ptLoad
    · rw [List.dropWhile_cons_of_neg (by simpa using hload)] at h
      cases h
      exact loadHeaders_cons_of_load hload
    · rw [List.dropWhile_cons_of_pos (by simpa using hload)] at h
      rw [loadHeaders_cons_of_not_load hload]
      exact ih h

theorem address_eq (hfits : ph.Fits loadBias) (hi : i < ph.pMemsz.toNat) :
    (loadBias + ph.pVaddr.toNat + i) % 2 ^ 32 = ph.addr loadBias + i := by
  unfold ElfPhdr.Fits ElfPhdr.addr at *
  omega

theorem codeAddress_eq (haligned : ph.pVaddr.toNat % naclMapPageSize = 0) :
    ph.codeAddress loadBias = ph.addr loadBias := by
  have hround : pageSizeRoundDown ph.pVaddr.toNat = ph.pVaddr.toNat :=
    Nat.div_mul_cancel (Nat.dvd_of_mod_eq_zero haligned)
  unfold ElfPhdr.codeAddress ElfPhdr.addr
  rw [hround, Nat.add_comm]

theorem segments_of_loadPhdrs {ehdr : Elf32Ehdr} (hloads : fromFirstLoad phdrs = firstLoad :: after)
    (hbias : env.chooseLoadBias firstLoad after anywhere = .ok loadBias)
    (h : env.loadPhdrs file s ehdr anywhere phdrs outs = .ok l) :
    firstLoad.pFlags = pfR ||| pfX ∧ firstLoad.pFilesz = firstLoad.pMemsz ∧ l.phdrs = phdrs ∧
      l.outBase = loadBias ∧ ∃ s', env.loadSegments file loadBias s firstLoad after anywhere =
        .ok s' ∧ l.memory = s'.memory ∧ l.fd = s'.fd := by
  unfold fromFirstLoad at hloads
  unfold ElfEnv.loadPhdrs at h
  rw [hloads] at h
  obtain ⟨_, hflags, h⟩ := bind_eq_ok.1 h
  obtain ⟨_, hfilesz, h⟩ := bind_eq_ok.1 h
  obtain ⟨bias, hbias', h⟩ := bind_eq_ok.1 h
  obtain ⟨s', hsegments, h⟩ := bind_eq_ok.1 h
  obtain ⟨_, -, h⟩ := bind_eq_ok.1 h
  cases hbias.symm.trans hbias'
  cases h
  exact ⟨dynCheck_eq_ok.1 hflags, dynCheck_eq_ok.1 hfilesz, rfl, rfl, s', hsegments, rfl, rfl⟩

/-- The memory and the descriptor once the segments are mapped. -/
structure SegmentsMapped (env : ElfEnv) (file : List UInt8) (loadBias : ℕ) (firstLoad : ElfPhdr)
    (after : List ElfPhdr) (s s' : ElfState) : Prop where
  reads : s'.fd.Right ↔ env.CodeRefused file s.memory loadBias firstLoad →
    pageSizeRoundDown firstLoad.pOffset.toNat + firstLoad.pMemsz.toNat = s.preadPos ∨
      ∀ ph ∈ firstPartial loadBias after, ph.partialPos ≠ s.preadPos
  mapped : s'.fd.Right → ∃ t, CodeMapped env file loadBias firstLoad s t ∧
    ∃ e, ElfMapped env file loadBias 0 (loadHeaders after) ⟨t, firstLoad.lastPageEnd loadBias⟩
      ⟨s', e⟩

theorem segmentsMapped_of_loadSegments (hfile : file.length < 2 ^ 32)
    (hplaced : ElfPlaced loadBias firstLoad after) (hflags : firstLoad.pFlags = pfR ||| pfX)
    (hright : s.fd.Right) (hstep : s.InStep)
    (h : env.loadSegments file loadBias s firstLoad after anywhere = .ok s') :
    SegmentsMapped env file loadBias firstLoad after s s' := by
  obtain ⟨t, hcode, h⟩ := bind_eq_ok.1 h
  obtain ⟨loop, hrun, h⟩ := bind_eq_ok.1 h
  cases h
  have hmapped := codeMapped_of_myMmap hflags hcode
  have hall : ∀ ph ∈ loadHeaders after, ph.Placed loadBias := fun ph hph =>
    ElfPhdr.placed (hplaced.fits ph (List.mem_cons_of_mem _ hph)) (hplaced.filesz_le ph hph)
  obtain ⟨hprev, horder⟩ := List.pairwise_cons.1 hplaced.inOrder
  refine ⟨?_, fun hend => ⟨t, hmapped, _, mapped_of_loadRest hall hplaced.data horder hprev hrun
    hend⟩⟩
  rw [right_iff_of_run hfile hplaced.data hrun, hmapped.right_iff, and_iff_right hright,
    hmapped.inStep_iff hstep, hmapped.preadPos_eq]
  tauto

theorem segments_iff_readsFrom {t : ElfState} {e : ℕ} (hplaced : ElfPlaced loadBias firstLoad after)
    (hfilesz : firstLoad.pFilesz = firstLoad.pMemsz)
    (hcode : CodeMapped env file loadBias firstLoad s t)
    (hrest : ElfMapped env file loadBias 0 (loadHeaders after)
      ⟨t, firstLoad.lastPageEnd loadBias⟩ ⟨s', e⟩) :
    (∀ ph ∈ firstLoad :: loadHeaders after, ∀ i < ph.pMemsz.toNat,
        ph.Shows file i (s'.memory ((loadBias + ph.pVaddr.toNat + i) % 2 ^ 32))) ↔
      env.ReadsFrom file firstLoad firstLoad.codeSource ∧
        ∀ ph ∈ loadHeaders after, env.ReadsFrom file ph (ph.source loadBias) := by
  have haddr : firstLoad.codeAddress loadBias = firstLoad.addr loadBias :=
    codeAddress_eq hplaced.aligned
  have hfits := List.forall_mem_cons.1 hplaced.fits
  have hcodePlaced := ElfPhdr.placed hfits.1 (by rw [hfilesz])
  have hcodeEnd := hcodePlaced.le_end
  rw [List.forall_mem_cons]
  refine and_congr ?_ (forall₂_congr fun ph hph => ?_)
  · refine shows_iff_readsFrom (by rw [hfilesz]) ?_ ?_
    · intro i hi
      rw [hfilesz] at hi
      have hbelow : firstLoad.addr loadBias + i < firstLoad.lastPageEnd loadBias := by omega
      rw [address_eq hfits.1 hi, hrest.below _ hbelow, ← haddr]
      exact hcode.code i hi
    · intro i hlow hi
      rw [hfilesz] at hlow
      exact absurd hi (not_lt.2 hlow)
  · have hle := hplaced.filesz_le ph hph
    have hphPlaced := ElfPhdr.placed (hfits.2 ph hph) hle
    rw [← shows_cell_iff_readsFrom hphPlaced hle]
    refine forall₂_congr fun i hi => ?_
    have hstart := hphPlaced.start_le
    have hend := hphPlaced.le_end
    rw [address_eq (hfits.2 ph hph) hi, hrest.cells ph hph _ ⟨by omega, by omega⟩]

theorem loadPhdrs_of_loadElfFile (hfile : file.length < 2 ^ 32)
    (h : env.loadElfFile file mem outs = .ok l) : ∃ s : ElfState, s.memory = mem ∧ s.fd.Right ∧
      s.InStep ∧ s.preadPos = headersEnd file ∧ env.loadPhdrs file s (elf32Ehdr (headBytes file))
        (decide ((elf32Ehdr (headBytes file)).eType = etDyn)) (programHeaders file) outs =
          .ok l := by
  obtain ⟨⟨head, fd, pos⟩, hhead, h⟩ := bind_eq_ok.1 h
  obtain ⟨anywhere, hcheck, h⟩ := bind_eq_ok.1 h
  obtain ⟨⟨bytes, fd', pos'⟩, hheaders, h⟩ := bind_eq_ok.1 h
  have hfrom := readFrom_of_myPread hhead
  have hfrom' := readFrom_of_myPread hheaders
  have hzero : (ElfFd.mk 0 []).startOf 0 0 = 0 := rfl
  have hbytes : head = headBytes file := hfrom.bytes_eq
  have hfd : fd = ⟨sizeofElf32Ehdr, [(0, 0)]⟩ := hfrom.fd_eq
  have hpos : pos = sizeofElf32Ehdr := hfrom.pos_eq
  subst hbytes hfd hpos
  obtain ⟨_, -, hcheck⟩ := bind_eq_ok.1 hcheck
  obtain ⟨_, -, hcheck⟩ := bind_eq_ok.1 hcheck
  obtain ⟨_, hphnum, hcheck⟩ := bind_eq_ok.1 hcheck
  obtain ⟨_, -, hcheck⟩ := bind_eq_ok.1 hcheck
  cases hcheck
  have hsize : sizeofElf32Phdr * (elf32Ehdr (headBytes file)).ePhnum ≠ 0 := by
    have hge := (dynCheck_eq_ok.1 hphnum).1
    unfold sizeofElf32Phdr
    omega
  -- Where the headers are right after the ELF header, the descriptor is there.
  have hstart : (ElfFd.mk sizeofElf32Ehdr [(0, 0)]).startOf (elf32Ehdr (headBytes file)).ePhoff
      sizeofElf32Ehdr = (elf32Ehdr (headBytes file)).ePhoff := by
    unfold ElfFd.startOf
    split_ifs with hne
    · rfl
    · exact (not_not.1 hne).symm
  have hstep := hfrom'.inStep hfile hsize hstart
  have hfdPos : fd'.filePos = headersEnd file := by
    rw [hfrom'.fd_eq, hstart]
    rfl
  have hphdrs : bytes = phdrBytes file := by
    rw [hfrom'.bytes_eq, hstart]
    rfl
  subst hphdrs
  refine ⟨⟨mem, fd', pos'⟩, rfl, ?_, hstep, hstep.symm.trans hfdPos, h⟩
  refine hfrom'.right_iff.2 ⟨?_, hstart⟩
  exact List.forall_mem_singleton.2 rfl

end

/-! ## Examples -/

/-- The header of an ELF file. -/
def elfHead (eType ePhoff ePhnum : ℕ) : List UInt8 :=
  [0x7f, 0x45, 0x4c, 0x46, 1, 1, 1, 0, 0, 0, 0, 0, 0, 0, 0, 0] ++
    [eType, 3].flatMap (ByteImage.leBytes 2) ++
    [1, 0, ePhoff, 0, 0].flatMap (ByteImage.leBytes 4) ++
    [sizeofElf32Ehdr, sizeofElf32Phdr, ePhnum, 0, 0, 0].flatMap (ByteImage.leBytes 2)

local instance neZeroAddresses : NeZero (2 ^ 32) := ⟨by decide⟩

/-- An environment in which code is below 256 MiB and nothing fails. -/
def elfSampleEnv : ElfEnv where
  eMachine := 3
  codeEnd := 0x10000000
  pastEnd _ := 0
  refuses _ _ _ _ := none
  protects _ _ := true
  allocates _ := true
  dyncodeCreate _ _ := true
  allocateCodeData hint _ _ _ := .ok (if hint = 0 then 0x40000 else .ofNat _ hint)
  stale := ⟨0, 0, 0, 0, 0, 0, 0, 0⟩

/-- The first 64 bytes of the file are code; the 4 at its end are data, with as many zeros. -/
def elfSampleFile : List UInt8 :=
  elfHead etDyn 52 2 ++ [1, 0, 0, 0, 64, 64, 5, 0x10000].flatMap (ByteImage.leBytes 4) ++
    [1, 116, 0x10000074, 0, 4, 8, 6, 0x10000].flatMap (ByteImage.leBytes 4) ++ [1, 2, 3, 4]

def elfSampleCode : ElfPhdr := ⟨1, 0, 0, 0, 64, 64, 5, 0x10000⟩
def elfSampleData : ElfPhdr := ⟨1, 116, 0x10000074, 0, 4, 8, 6, 0x10000⟩

def staleFront : List UInt8 := elfHead etExec 65472 2 ++ List.replicate 65420 0

/-- Two headers, 32 bytes of code in a new page, 4 of data, and more. -/
def staleTail : List UInt8 :=
  [1, 0x10000, 0x20000, 0, 32, 32, 5, 0x10000].flatMap (ByteImage.leBytes 4) ++
    [1, 0x10020, 0x10000020, 0, 4, 8, 6, 0x10000].flatMap (ByteImage.leBytes 4) ++
      List.replicate 32 0xf4 ++ [1, 2, 3, 4] ++ List.replicate 32 9

def staleFile : List UInt8 := staleFront ++ staleTail

def staleCode : ElfPhdr := ⟨1, 0x10000, 0x20000, 0, 32, 32, 5, 0x10000⟩
def staleData : ElfPhdr := ⟨1, 0x10020, 0x10000020, 0, 4, 8, 6, 0x10000⟩

/-- The memory with the code, then with zeros for the data, then with what is read. -/
def staleInstalled : DynMemory := overwrite (fun _ => none) 0x20000 32 fun j _ =>
  ((preadBytes staleTail 32 64)[j]?).map (⟨protRead ||| protExec, ·⟩)

def staleZeros : DynMemory :=
  overwrite staleInstalled 0x10000000 0x10000 fun _ _ => some ⟨protFromPhdr staleData, 0⟩

def staleMemory : DynMemory := staleZeros.store 0x10000000 (preadBytes staleTail 36 96)

def staleReads : List (ℕ × ℕ) := [(0, 0), (65472, 65472)]

section

variable {front tail bytes : List UInt8} {fd : ElfFd} {n pos lastPos off start : ℕ}

theorem preadBytes_append (hlen : front.length = start) :
    preadBytes (front ++ tail) n (start + off) = preadBytes tail n off := by
  unfold preadBytes
  rw [← hlen, List.drop_append, List.drop_eq_nil_of_le (Nat.le_add_right _ _), List.nil_append,
    Nat.add_sub_cancel_left]

theorem myPread_of_bytes {file : List UInt8} (hstart : fd.startOf pos lastPos = start)
    (hbytes : preadBytes file n start = bytes) (hlen : bytes.length = n) :
    myPread file fd n pos lastPos =
      .ok (bytes, ⟨start + n, fd.reads ++ [(pos, start)]⟩, (pos + n) % 2 ^ 32) := by
  subst hstart hbytes
  exact if_pos hlen

theorem length_staleFront : staleFront.length = 65472 := by
  unfold staleFront
  rw [List.length_append, List.length_replicate]
  rfl

theorem stale_read (off : ℕ) (hstart : fd.startOf pos lastPos = 65472 + off)
    (hlen : (preadBytes staleTail n off).length = n) :
    myPread staleFile fd n pos lastPos = .ok (preadBytes staleTail n off,
      ⟨65472 + off + n, fd.reads ++ [(pos, 65472 + off)]⟩, (pos + n) % 2 ^ 32) :=
  myPread_of_bytes hstart (preadBytes_append length_staleFront) hlen

theorem stale_head : myPread staleFile ⟨0, []⟩ sizeofElf32Ehdr 0 0 =
    .ok (elfHead etExec 65472 2, ⟨52, [(0, 0)]⟩, 52) :=
  myPread_of_bytes rfl (by decide +kernel) rfl

theorem stale_code : elfSampleEnv.myMmap staleFile ⟨fun _ => none, ⟨65536, staleReads⟩, 65536⟩
    0x20000 32 (protFromPhdr staleCode) (some 65536) true =
      .ok ⟨staleInstalled, ⟨65568, staleReads ++ [(65536, 65536)]⟩, 65536⟩ := by
  have hrefused : elfSampleEnv.mmap staleFile (fun _ => none) 0x20000 32 (protFromPhdr staleCode)
      (some 65536) = .error elfEinval := by
    apply if_pos
    rintro ⟨-, -, -, -, hexec⟩
    rw [if_pos (by decide)] at hexec
    exact absurd hexec.1 (by decide)
  unfold ElfEnv.myMmap
  rw [hrefused]
  refine (if_pos (by decide)).trans ?_
  refine bind_eq_ok.2 ⟨(), rfl, bind_eq_ok.2 ⟨_, stale_read 64 rfl (by decide), ?_⟩⟩
  exact bind_eq_ok.2 ⟨(), dynCheck_eq_ok.2 (by decide), bind_eq_ok.2 ⟨(),
    dynCheck_eq_ok.2 (by decide), rfl⟩⟩

theorem stale_data : elfSampleEnv.mapZeros staleFile 0
    ⟨staleInstalled, ⟨65568, staleReads ++ [(65536, 65536)]⟩, 65536⟩ staleData =
      .ok ⟨staleMemory, ⟨65604, staleReads ++ [(65536, 65536), (65536, 65568)]⟩, 65572⟩ := by
  have hmap : elfSampleEnv.mmap staleFile staleInstalled 0x10000000 0x10000
      (protFromPhdr staleData) none = .ok staleZeros := (if_neg (not_not.2 (by decide))).trans rfl
  have hmapped : elfSampleEnv.myMmap staleFile
      ⟨staleInstalled, ⟨65568, staleReads ++ [(65536, 65536)]⟩, 65536⟩ 0x10000000 0x10000
      (protFromPhdr staleData) none false =
        .ok ⟨staleZeros, ⟨65568, staleReads ++ [(65536, 65536)]⟩, 65536⟩ := by
    unfold ElfEnv.myMmap
    rw [hmap]
  have hread : myPread staleFile ⟨65568, staleReads ++ [(65536, 65536)]⟩ 36 65536 65536 = _ :=
    stale_read 96 rfl (by decide)
  have hcheck : dynCheck (staleZeros.Allows protWrite 0x10000000 36) = .ok () :=
    dynCheck_eq_ok.2 (by decide +kernel)
  refine bind_eq_ok.2 ⟨(), dynCheck_eq_ok.2 (by decide), bind_eq_ok.2 ⟨_, hmapped, ?_⟩⟩
  refine (if_pos (by decide)).trans ?_
  exact bind_eq_ok.2 ⟨_, hread, bind_eq_ok.2 ⟨(), hcheck, rfl⟩⟩

theorem stale_segments : elfSampleEnv.loadSegments staleFile 0
    ⟨fun _ => none, ⟨65536, staleReads⟩, 65536⟩ staleCode [staleData] false =
      .ok ⟨staleMemory, ⟨65604, staleReads ++ [(65536, 65536), (65536, 65568)]⟩, 65572⟩ := by
  have hcode : staleCode.codeAddress 0 = 0x20000 := by decide
  have hoffset : pageSizeRoundDown staleCode.pOffset.toNat = 65536 := by decide
  have hend : staleCode.lastPageEnd 0 = 0x30000 := by decide
  have hrest : elfSampleEnv.loadRest staleFile 0
      ⟨⟨staleInstalled, ⟨65568, staleReads ++ [(65536, 65536)]⟩, 65536⟩, 0x30000⟩ (staleData, 0) =
        .ok ⟨⟨staleMemory, ⟨65604, staleReads ++ [(65536, 65536), (65536, 65568)]⟩, 65572⟩,
          staleData.lastPageEnd 0⟩ := by
    have hload : ¬ staleData.pType ≠ ptLoad := by decide
    unfold ElfEnv.loadRest
    dsimp only
    rw [if_neg hload]
    exact bind_eq_ok.2 ⟨_, if_neg (by decide), bind_eq_ok.2 ⟨_, if_neg (by decide),
      bind_eq_ok.2 ⟨_, (if_pos (by decide)).trans stale_data, rfl⟩⟩⟩
  unfold ElfEnv.loadSegments
  rw [hcode, hoffset, hend]
  exact bind_eq_ok.2 ⟨_, stale_code, bind_eq_ok.2 ⟨_, bind_eq_ok.2 ⟨_, hrest, rfl⟩, rfl⟩⟩

end

end SandboxingNaCl
