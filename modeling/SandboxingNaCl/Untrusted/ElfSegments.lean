import SandboxingNaCl.Untrusted.ElfPositions

/-!
# The segments of a dynamic executable

What the loop leaves in memory.  A segment that is placed where nothing wraps gets what the file has
from its offset, rounded down, in the pages before the last of its data; then comes the page that is
read, and zeros.  The hole before it is protected, and all else stays.
-/

namespace SandboxingNaCl

open BiasedImage KeyedLoop

/-! ## The numbers of a segment -/

namespace ElfPhdr

/-- Rounding the end of the segment up does not wrap. -/
def Fits (ph : ElfPhdr) (loadBias : ℕ) : Prop :=
  ph.addr loadBias + ph.pMemsz.toNat + (naclMapPageSize - 1) < 2 ^ 32

instance (ph : ElfPhdr) (loadBias : ℕ) : Decidable (ph.Fits loadBias) :=
  inferInstanceAs (Decidable (_ < _))

/-- What the loader computes for a segment, where nothing wraps. -/
structure Placed (ph : ElfPhdr) (loadBias : ℕ) : Prop where
  start_le : ph.start loadBias ≤ ph.addr loadBias
  start_le_map : ph.start loadBias ≤ ph.fileMapEnd loadBias
  map_le : ph.fileMapEnd loadBias ≤ ph.lastPageEnd loadBias
  le_end : ph.addr loadBias + ph.pMemsz.toNat ≤ ph.lastPageEnd loadBias
  end_lt : ph.lastPageEnd loadBias < 2 ^ 32
  file_end : ph.fileEnd loadBias = ph.addr loadBias + ph.pFilesz.toNat
  file_le : ph.fileEnd loadBias ≤ ph.lastPageEnd loadBias
  map_le_file : ph.pFilesz.toNat < ph.pMemsz.toNat → ph.fileMapEnd loadBias ≤ ph.fileEnd loadBias
  map_lt : ph.pFilesz.toNat < ph.pMemsz.toNat → ph.fileMapEnd loadBias < ph.lastPageEnd loadBias
  map_eq : ¬ ph.pFilesz.toNat < ph.pMemsz.toNat → ph.fileMapEnd loadBias = ph.lastPageEnd loadBias
  round_file : pageSizeRoundUp (ph.fileMapEnd loadBias - ph.start loadBias) =
    ph.fileMapEnd loadBias - ph.start loadBias
  round_bss : pageSizeRoundUp (ph.lastPageEnd loadBias - ph.fileMapEnd loadBias) =
    ph.lastPageEnd loadBias - ph.fileMapEnd loadBias

theorem roundUp_of_multiple {n : ℕ} (hn : n % 65536 = 0) (hlt : n < 2 ^ 32) :
    pageSizeRoundUp n = n := by
  have hpage : naclMapPageSize = 65536 := rfl
  unfold pageSizeRoundUp pageSizeRoundDown
  rw [hpage]
  omega

theorem roundDown_mod (n : ℕ) : pageSizeRoundDown n % 65536 = 0 := Nat.mul_mod_left _ _

theorem sub_mod_page {m n : ℕ} (hm : m % 65536 = 0) (hn : n % 65536 = 0) :
    (m - n) % 65536 = 0 := by omega

theorem placed {ph : ElfPhdr} {loadBias : ℕ} (h : ph.Fits loadBias)
    (hle : ph.pFilesz.toNat ≤ ph.pMemsz.toNat) : ph.Placed loadBias := by
  have hpage : naclMapPageSize = 65536 := rfl
  unfold Fits at h
  rw [hpage] at h
  have hstart : ph.start loadBias = ph.addr loadBias / 65536 * 65536 := rfl
  have hend : ph.lastPageEnd loadBias =
      (ph.addr loadBias + ph.pMemsz.toNat + 65535) / 65536 * 65536 := by
    unfold lastPageEnd pageSizeRoundUp pageSizeRoundDown
    rw [hpage, Nat.mod_eq_of_lt (by omega : ph.addr loadBias + ph.pMemsz.toNat < 2 ^ 32),
      Nat.mod_eq_of_lt (by omega)]
  have hfile : ph.fileEnd loadBias = ph.addr loadBias + ph.pFilesz.toNat :=
    Nat.mod_eq_of_lt (by omega)
  have hmap : ph.fileMapEnd loadBias = if ph.pFilesz.toNat < ph.pMemsz.toNat then
      (ph.addr loadBias + ph.pFilesz.toNat) / 65536 * 65536 else ph.lastPageEnd loadBias := by
    unfold fileMapEnd
    rw [hfile]
    rfl
  have hmapMod : ph.fileMapEnd loadBias % 65536 = 0 := by
    rw [hmap, hend]
    split_ifs <;> exact Nat.mul_mod_left _ _
  have hstartMod : ph.start loadBias % 65536 = 0 := roundDown_mod _
  have hendMod : ph.lastPageEnd loadBias % 65536 = 0 := roundDown_mod _
  have hmap_le : ph.fileMapEnd loadBias ≤ ph.lastPageEnd loadBias := by
    rw [hmap, hend]
    split_ifs <;> omega
  have hend_lt : ph.lastPageEnd loadBias < 2 ^ 32 := by omega
  refine ⟨by omega, ?_, hmap_le, by omega, hend_lt, hfile, by omega, fun hbss => ?_,
    fun hbss => ?_, fun hbss => ?_, roundUp_of_multiple (sub_mod_page hmapMod hstartMod) (by omega),
    roundUp_of_multiple (sub_mod_page hendMod hmapMod) (by omega)⟩
  · rw [hmap, hend, hstart]
    split_ifs <;> omega
  · rw [hmap, if_pos hbss, hfile]
    omega
  · rw [hmap, if_pos hbss, hend]
    omega
  · rw [hmap, if_neg hbss]

end ElfPhdr

/-- What the loader puts at `x` when it maps the segment and reads the last page from `pos`. -/
def ElfEnv.cell (env : ElfEnv) (file : List UInt8) (loadBias : ℕ) (ph : ElfPhdr) (pos x : ℕ) :
    Option MappedByte :=
  let prot := protFromPhdr ph
  if x < ph.fileMapEnd loadBias then
    (mappedByte env.pastEnd file
      (pageSizeRoundDown ph.pOffset.toNat + (x - ph.start loadBias))).map (⟨prot, ·⟩)
  else if x < ph.fileEnd loadBias then
    (mappedByte env.pastEnd file (pos + (x - ph.fileMapEnd loadBias))).map (⟨prot, ·⟩)
  else some ⟨prot, 0⟩

/-! ## One segment -/

section

variable {env : ElfEnv} {file : List UInt8} {mem mem' : DynMemory} {ph : ElfPhdr} {s s' : ElfState}
  {loadBias addr size k x : ℕ} {prot : BitVec 32} {offset : Option ℕ}

theorem eq_of_elfMmap (h : env.mmap file mem addr size prot offset = .ok mem') :
    env.MayMap file addr size prot offset ∧
      mem' = overwrite mem addr (pageSizeRoundUp size) fun j _ =>
        env.mapsTo file prot j offset := by
  unfold ElfEnv.mmap at h
  split_ifs at h with hmay
  split at h
  · cases h
  · exact ⟨hmay, (Except.ok.inj h).symm⟩

theorem codeEnd_le_of_mayMap (hprot : prot &&& protExec = 0)
    (h : env.MayMap file addr size prot offset) : env.codeEnd ≤ addr := by
  obtain ⟨-, -, -, -, h⟩ := h
  rw [if_neg (not_not.2 hprot)] at h
  exact h

theorem overwrite_apply {α : Type*} {m : ℕ → α} {a len : ℕ} {f : ℕ → α → α} :
    overwrite m a len f x = if a ≤ x ∧ x < a + len then f (x - a) (m x) else m x := rfl

theorem memory_of_mapZeros (hph : ph.Placed loadBias) (hdata : ph.IsData)
    (hbss : ph.pFilesz.toNat < ph.pMemsz.toNat) (h : env.mapZeros file loadBias s ph = .ok s') :
    env.codeEnd ≤ ph.fileMapEnd loadBias ∧ s'.memory x =
      if ph.fileMapEnd loadBias ≤ x ∧ x < ph.lastPageEnd loadBias then
        env.cell file loadBias ph (s.fd.startOf ph.partialPos s.preadPos) x
      else s.memory x := by
  obtain ⟨_, -, h⟩ := bind_eq_ok.1 h
  obtain ⟨zeroed, hzeroed, h⟩ := bind_eq_ok.1 h
  obtain ⟨memory, hmap, rfl⟩ := myMmap_of_data (prot_of_isData hdata) hzeroed
  obtain ⟨hmay, rfl⟩ := eq_of_elfMmap hmap
  refine ⟨codeEnd_le_of_mayMap (prot_of_isData hdata) hmay, ?_⟩
  have hmap_lt := hph.map_lt hbss
  have hfile_le := hph.file_le
  rw [hph.round_bss] at h
  have hwindow : ph.fileMapEnd loadBias + (ph.lastPageEnd loadBias - ph.fileMapEnd loadBias) =
      ph.lastPageEnd loadBias := by omega
  unfold ElfEnv.cell
  by_cases hpart : ph.fileMapEnd loadBias < ph.fileEnd loadBias
  · rw [if_pos hpart] at h
    obtain ⟨⟨bytes, fd, preadPos⟩, hread, h⟩ := bind_eq_ok.1 h
    obtain ⟨_, -, h⟩ := bind_eq_ok.1 h
    cases h
    have hfrom := readFrom_of_myPread hread
    have hlen := hfrom.length_eq
    unfold DynMemory.store
    dsimp only
    rw [overwrite_apply, overwrite_apply, hwindow, hlen]
    by_cases hin : ph.fileMapEnd loadBias ≤ x ∧ x < ph.lastPageEnd loadBias
    · simp only [if_pos hin, if_neg (not_lt.2 hin.1)]
      by_cases hfile : x < ph.fileEnd loadBias
      · have hcopy : ph.fileMapEnd loadBias ≤ x ∧
            x < ph.fileMapEnd loadBias + (ph.fileEnd loadBias - ph.fileMapEnd loadBias) := by omega
        have hj : x - ph.fileMapEnd loadBias < ph.fileEnd loadBias - ph.fileMapEnd loadBias := by
          omega
        have hin' := lt_length_of_preadBytes (hfrom.bytes_eq ▸ hlen) hj
        have hbyte := List.getElem?_eq_getElem hin'
        simp only [if_pos hcopy, if_pos hfile, ElfEnv.mapsTo, hfrom.bytes_eq,
          getElem?_preadBytes hj, hbyte, mappedByte_eq hbyte, Option.map_some, Option.getD_some]
      · have hcopy : ¬ (ph.fileMapEnd loadBias ≤ x ∧
            x < ph.fileMapEnd loadBias + (ph.fileEnd loadBias - ph.fileMapEnd loadBias)) := by omega
        simp only [if_neg hcopy, if_neg hfile, ElfEnv.mapsTo]
    · have hcopy : ¬ (ph.fileMapEnd loadBias ≤ x ∧
          x < ph.fileMapEnd loadBias + (ph.fileEnd loadBias - ph.fileMapEnd loadBias)) := by omega
      simp only [if_neg hin, if_neg hcopy]
  · rw [if_neg hpart] at h
    cases h
    dsimp only
    rw [overwrite_apply, hwindow]
    by_cases hin : ph.fileMapEnd loadBias ≤ x ∧ x < ph.lastPageEnd loadBias
    · have hfile : ¬ x < ph.fileEnd loadBias := by omega
      simp only [if_pos hin, if_neg (not_lt.2 hin.1), if_neg hfile, ElfEnv.mapsTo]
    · simp only [if_neg hin]

/-- The pages of a segment get what is mapped there, the hole before it is protected, and the rest
stays. -/
structure RestMapped (env : ElfEnv) (file : List UInt8) (loadBias : ℕ) (ph : ElfPhdr) (k : ℕ)
    (s s' : ElfLoop) : Prop where
  end_eq : s'.lastPageEnd = ph.lastPageEnd loadBias
  memory_eq : ∀ x, s'.state.memory x =
    if ph.start loadBias ≤ x ∧ x < ph.lastPageEnd loadBias then
      env.cell file loadBias ph (s.state.fd.startOf ph.partialPos s.state.preadPos) x
    else if 0 < k ∧ s.lastPageEnd ≤ x ∧ x < ph.start loadBias then
      (s.state.memory x).map fun c => { c with prot := 0 }
    else s.state.memory x
  code : ∀ x < env.codeEnd, s'.state.memory x = s.state.memory x

theorem memory_of_protectHole {s : ElfLoop} {t : ElfState} {start : ℕ}
    (h : env.protectHole s start k = .ok t) :
    (∀ x, t.memory x = if 0 < k ∧ s.lastPageEnd ≤ x ∧ x < start then
        (s.state.memory x).map fun c => { c with prot := 0 } else s.state.memory x) ∧
      ∀ x < env.codeEnd, t.memory x = s.state.memory x := by
  unfold ElfEnv.protectHole at h
  by_cases hhole : s.lastPageEnd < start ∧ 0 < k
  · rw [if_pos hhole] at h
    split_ifs at h with hok
    cases h
    have hwindow : s.lastPageEnd + (start - s.lastPageEnd) = start := by omega
    have hcell (x : ℕ) : protectNone s.state.memory s.lastPageEnd (start - s.lastPageEnd) x =
        if s.lastPageEnd ≤ x ∧ x < start then
          (s.state.memory x).map fun c => { c with prot := 0 } else s.state.memory x := by
      unfold protectNone
      rw [overwrite_apply, hwindow]
    refine ⟨fun x => ?_, fun x hx => ?_⟩
    · simp only [hcell, hhole.2, true_and]
    · have hout : ¬ (s.lastPageEnd ≤ x ∧ x < start) := fun hin => by
        have hle := hok.1
        omega
      simp only [hcell, if_neg hout]
  · rw [if_neg hhole] at h
    cases h
    refine ⟨fun x => (if_neg ?_).symm, fun x _ => rfl⟩
    omega

theorem restMapped_of_loadRest {s s' : ElfLoop} (hph : ph.Placed loadBias) (hdata : ph.IsData)
    (hload : ph.pType = ptLoad) (h : env.loadRest file loadBias s (ph, k) = .ok s') :
    RestMapped env file loadBias ph k s s' := by
  have hprot := prot_of_isData hdata
  unfold ElfEnv.loadRest at h
  dsimp only at h
  rw [if_neg (not_not.2 hload)] at h
  obtain ⟨hole, hhole, h⟩ := bind_eq_ok.1 h
  obtain ⟨hfd, hpos⟩ := fd_of_protectHole hhole
  obtain ⟨hmem, hcode⟩ := memory_of_protectHole hhole
  obtain ⟨mapped, hmapped, h⟩ := bind_eq_ok.1 h
  obtain ⟨last, hlast, h⟩ := bind_eq_ok.1 h
  cases h
  have hstart_le := hph.start_le_map
  have hmap_le := hph.map_le
  -- The part that is mapped from the file.
  have hfile : mapped.fd = hole.fd ∧ mapped.preadPos = hole.preadPos ∧
      (ph.start loadBias < ph.fileMapEnd loadBias → env.codeEnd ≤ ph.start loadBias) ∧
      ∀ x, mapped.memory x =
        if ph.start loadBias ≤ x ∧ x < ph.fileMapEnd loadBias then
          env.cell file loadBias ph (s.state.fd.startOf ph.partialPos s.state.preadPos) x
        else hole.memory x := by
    by_cases hne : ph.start loadBias < ph.fileMapEnd loadBias
    · rw [if_pos hne] at hmapped
      obtain ⟨memory, hmap, rfl⟩ := myMmap_of_data hprot hmapped
      obtain ⟨hmay, rfl⟩ := eq_of_elfMmap hmap
      refine ⟨rfl, rfl, fun _ => codeEnd_le_of_mayMap hprot hmay, fun x => ?_⟩
      have hwindow : ph.start loadBias + (ph.fileMapEnd loadBias - ph.start loadBias) =
          ph.fileMapEnd loadBias := by omega
      dsimp only
      rw [overwrite_apply, hph.round_file, hwindow]
      by_cases hin : ph.start loadBias ≤ x ∧ x < ph.fileMapEnd loadBias
      · unfold ElfEnv.cell
        simp only [if_pos hin, if_pos hin.2, ElfEnv.mapsTo]
      · simp only [if_neg hin]
    · rw [if_neg hne] at hmapped
      cases hmapped
      exact ⟨rfl, rfl, fun hlt => absurd hlt hne, fun x => (if_neg (by omega)).symm⟩
  obtain ⟨hfd', hpos', hcodeFile, hmemFile⟩ := hfile
  -- The last page of the data, and the zeros.
  have hzeros : (ph.fileMapEnd loadBias < ph.lastPageEnd loadBias →
        env.codeEnd ≤ ph.fileMapEnd loadBias) ∧
      ∀ x, last.memory x = if ph.fileMapEnd loadBias ≤ x ∧ x < ph.lastPageEnd loadBias then
          env.cell file loadBias ph (s.state.fd.startOf ph.partialPos s.state.preadPos) x
        else mapped.memory x := by
    by_cases hlt : ph.fileMapEnd loadBias < ph.lastPageEnd loadBias
    · rw [if_pos hlt] at hlast
      have hbss : ph.pFilesz.toNat < ph.pMemsz.toNat := by
        by_contra hno
        exact hlt.ne (hph.map_eq hno)
      refine ⟨fun _ => (memory_of_mapZeros (x := 0) hph hdata hbss hlast).1, fun x => ?_⟩
      rw [(memory_of_mapZeros hph hdata hbss hlast).2, hfd', hpos', hfd, hpos]
    · rw [if_neg hlt] at hlast
      cases hlast
      exact ⟨fun h => absurd h hlt, fun x => (if_neg (by omega)).symm⟩
  obtain ⟨hcodeZeros, hmemZeros⟩ := hzeros
  refine ⟨rfl, fun x => ?_, fun x hx => ?_⟩
  · rw [hmemZeros, hmemFile, hmem]
    by_cases hin : ph.start loadBias ≤ x ∧ x < ph.lastPageEnd loadBias
    · rw [if_pos hin]
      by_cases hlate : ph.fileMapEnd loadBias ≤ x
      · rw [if_pos ⟨hlate, hin.2⟩]
      · rw [if_neg (by omega), if_pos (by omega)]
    · rw [if_neg hin, if_neg (by omega), if_neg (by omega)]
  · rw [hmemZeros, hmemFile, if_neg (by omega), if_neg (by omega), hcode x hx]

end

/-! ## The loop -/

/-- There is nothing at the address, or nothing that can be accessed. -/
def Inaccessible (cell : Option MappedByte) : Prop := ∀ c ∈ cell, c.prot = 0

def ElfPhdr.Covers (ph : ElfPhdr) (loadBias x : ℕ) : Prop :=
  ph.start loadBias ≤ x ∧ x < ph.lastPageEnd loadBias

/-- What the loop has done to the memory when it has mapped the segments among the headers, of which
the first is the `k`-th after the code. -/
structure ElfMapped (env : ElfEnv) (file : List UInt8) (loadBias k : ℕ) (loads : List ElfPhdr)
    (s s' : ElfLoop) : Prop where
  le : s.lastPageEnd ≤ s'.lastPageEnd
  below : ∀ x < s.lastPageEnd, s'.state.memory x = s.state.memory x
  code : ∀ x < env.codeEnd, s'.state.memory x = s.state.memory x
  ends : ∀ ph ∈ loads, ph.lastPageEnd loadBias ≤ s'.lastPageEnd
  cells : ∀ ph ∈ loads, ∀ x, ph.Covers loadBias x →
    s'.state.memory x = env.cell file loadBias ph ph.partialPos x
  holes : ∀ x, s.lastPageEnd ≤ x → x < s'.lastPageEnd →
    (0 < k ∨ ∃ ph ∈ loads, ph.lastPageEnd loadBias ≤ x) →
    (∀ ph ∈ loads, ¬ ph.Covers loadBias x) → Inaccessible (s'.state.memory x)

def InOrder (loadBias : ℕ) (phdrs : List ElfPhdr) : Prop :=
  phdrs.Pairwise fun ph ph' => ph.lastPageEnd loadBias ≤ ph'.start loadBias

instance (loadBias : ℕ) (phdrs : List ElfPhdr) : Decidable (InOrder loadBias phdrs) :=
  inferInstanceAs (Decidable (List.Pairwise _ _))

section

variable {env : ElfEnv} {file : List UInt8} {loadBias k : ℕ} {ph : ElfPhdr} {l : List ElfPhdr}
  {s s' t : ElfLoop}

theorem ElfMapped.nil : ElfMapped env file loadBias k [] s s :=
  ⟨le_rfl, fun _ _ => rfl, fun _ _ => rfl, nofun, nofun, fun _ hle hlt => absurd hlt (by omega)⟩

theorem ElfMapped.skip (h : ElfMapped env file loadBias (k + 1) l s s') :
    ElfMapped env file loadBias k l s s' :=
  { h with holes := fun x hle hlt _ hout => h.holes x hle hlt (Or.inl k.succ_pos) hout }

theorem cell_congr {pos pos' x : ℕ} (hpart : ph.hasPartial loadBias = false)
    (hx : ph.Covers loadBias x) :
    env.cell file loadBias ph pos x = env.cell file loadBias ph pos' x := by
  unfold ElfEnv.cell
  by_cases hfile : x < ph.fileMapEnd loadBias
  · simp only [if_pos hfile]
  · have hnot : ¬ x < ph.fileEnd loadBias := by
      have hneither := of_decide_eq_false hpart
      have hlt := hx.2
      omega
    simp only [if_neg hfile, if_neg hnot]

theorem ElfMapped.cons (hph : ph.Placed loadBias) (hprev : s.lastPageEnd ≤ ph.start loadBias)
    (horder : ∀ ph' ∈ l, ph.lastPageEnd loadBias ≤ ph'.lastPageEnd loadBias)
    (hseg : RestMapped env file loadBias ph k s t)
    (hright : ph.hasPartial loadBias = true →
      s.state.fd.startOf ph.partialPos s.state.preadPos = ph.partialPos)
    (h : ElfMapped env file loadBias (k + 1) l t s') :
    ElfMapped env file loadBias k (ph :: l) s s' := by
  have hend := hseg.end_eq
  have hpages : ph.start loadBias ≤ ph.lastPageEnd loadBias := hph.start_le_map.trans hph.map_le
  have hle := h.le
  refine ⟨by omega, fun x hx => ?_, fun x hx => ?_, fun ph' hph' => ?_, fun ph' hph' x hx => ?_,
    fun x hlow hlt hwhere hout => ?_⟩
  · rw [h.below x (by omega), hseg.memory_eq, if_neg (by omega), if_neg (by omega)]
  · rw [h.code x hx, hseg.code x hx]
  · rcases List.mem_cons.1 hph' with rfl | hmem
    · omega
    · exact h.ends ph' hmem
  · rcases List.mem_cons.1 hph' with rfl | hmem
    · have hlt := hx.2
      rw [h.below x (by omega), hseg.memory_eq, if_pos ⟨hx.1, hx.2⟩]
      by_cases hpart : ph'.hasPartial loadBias = true
      · rw [hright hpart]
      · exact cell_congr (Bool.eq_false_iff.2 hpart) hx
    · exact h.cells ph' hmem x hx
  · have houtside := hout ph List.mem_cons_self
    by_cases hlate : ph.lastPageEnd loadBias ≤ x
    · exact h.holes x (by omega) hlt (Or.inl k.succ_pos)
        fun ph' hph' => hout ph' (List.mem_cons_of_mem _ hph')
    · have hbefore : x < ph.start loadBias := by
        unfold ElfPhdr.Covers at houtside
        omega
      -- Before the first segment the hole is not protected, and no segment ends there.
      have hk : 0 < k := by
        rcases hwhere with hk | ⟨ph', hph', hle'⟩
        · exact hk
        · rcases List.mem_cons.1 hph' with rfl | hmem
          · exact absurd hle' hlate
          · exact absurd ((horder ph' hmem).trans hle') hlate
      rw [h.below x (by omega), hseg.memory_eq, if_neg (by omega), if_pos ⟨hk, hlow, hbefore⟩]
      intro c hc
      obtain ⟨c', -, rfl⟩ := Option.map_eq_some_iff.1 hc
      rfl

theorem mapped_of_loadRest (hplaced : ∀ ph ∈ loadHeaders l, ph.Placed loadBias)
    (hdata : ∀ ph ∈ loadHeaders l, ph.IsData) (horder : InOrder loadBias (loadHeaders l))
    (hprev : ∀ ph ∈ loadHeaders l, s.lastPageEnd ≤ ph.start loadBias)
    (h : (l.zipIdx k).foldlM (env.loadRest file loadBias) s = .ok s')
    (hright : s'.state.fd.Right) : ElfMapped env file loadBias k (loadHeaders l) s s' := by
  induction l generalizing k s with
  | nil =>
    cases h
    exact .nil
  | cons ph l ih =>
    rw [List.zipIdx_cons, List.foldlM_cons] at h
    obtain ⟨t, ht, h⟩ := bind_eq_ok.1 h
    by_cases hload : ph.pType = ptLoad
    · rw [loadHeaders_cons_of_load hload] at hplaced hdata horder hprev ⊢
      rw [List.forall_mem_cons] at hplaced hdata
      obtain ⟨hafter, horder⟩ := List.pairwise_cons.1 horder
      have hseg := restMapped_of_loadRest hplaced.1 hdata.1 hload ht
      have hrest := ih hplaced.2 hdata.2 horder
        (fun ph' hph' => hseg.end_eq ▸ hafter ph' hph') h
      refine .cons hplaced.1 (hprev ph List.mem_cons_self) (fun ph' hph' => ?_) hseg
        (fun hpart => ?_) hrest
      · have hph' := hplaced.2 ph' hph'
        exact (hafter ph' ‹_›).trans (hph'.start_le_map.trans hph'.map_le)
      · have hmoves := moves_of_loadRest hload hdata.1 ht
        unfold Moves at hmoves
        rw [if_pos hpart] at hmoves
        obtain ⟨bytes, hfrom⟩ := hmoves
        exact (hfrom.right_iff.1 (hright.of_isPrefix (reads_isPrefix hdata.2 h))).2
    · rw [loadHeaders_cons_of_not_load hload] at hplaced hdata horder hprev ⊢
      rw [loadRest_of_not_load hload ht] at h
      exact (ih hplaced hdata horder hprev h).skip

end

end SandboxingNaCl
