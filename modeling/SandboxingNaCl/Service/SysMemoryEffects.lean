import SandboxingNaCl.Service.SysMemory

/-!
# What the memory system calls change

One theorem for each call: the fields it leaves alone, what becomes of the page function of the map,
and how the pages of the sandbox are mapped afterwards.
-/

namespace SandboxingNaCl

open MachineInt PagedMemory IntervalMap

/-! ## Removing and adding regions -/

section

variable {self map : NaClVmmap} {pageNum npages : ℕ}

theorem naclVmmapRemove_ok (h : self.WellFormed) (hpos : 0 < npages)
    (hmax : pageNum + npages ≤ maxPage) (hrun : naclVmmapRemove self pageNum npages = .ok map) :
    map.WellFormed ∧
      map.pageMap = override self.pageMap pageNum (pageNum + npages) fun _ => none := by
  by_cases hkeep : self.vmentry = [] ∨
      vmentryExtent.carve self.vmentry pageNum (pageNum + npages) ≠ []
  · obtain ⟨map', hok, hspec⟩ := naclVmmapRemove_spec h hpos (lt_of_le_maxPage hmax) hkeep
    rw [hrun] at hok
    cases hok
    exact hspec
  · push Not at hkeep
    rw [naclVmmapRemove_error h hpos (lt_of_le_maxPage hmax) hkeep.1 hkeep.2] at hrun
    cases hrun

theorem naclVmmapAddWithOverwrite_ok {prot flags : BitVec 32} {desc : Option NaClDesc}
    {offset fileSize : ℤ} (h : self.WellFormed) (hpos : 0 < npages)
    (hmax : pageNum + npages ≤ maxPage)
    (hrun : naclVmmapAddWithOverwrite self pageNum npages prot flags desc offset fileSize =
      .ok map) :
    map.WellFormed ∧ map.pageMap = override self.pageMap pageNum (pageNum + npages) fun page =>
      some ⟨prot, flags, desc, offset + ((page : ℤ) - pageNum) * 2 ^ naclPageShift, fileSize⟩ := by
  obtain ⟨map', hok, hspec⟩ :=
    naclVmmapAddWithOverwrite_spec prot flags desc offset fileSize h hpos hmax
  rw [hrun] at hok
  cases hok
  exact hspec

end

section

variable {nap nap' : NaClApp} {r : SysResult}

/-! ## munmap -/

theorem mmapAnonymous_prot (mem : Memory Backing) (usraddr len : ℕ) (prot : BitVec 32) (p : ℕ) :
    ((mmapAnonymous mem usraddr len prot).page p).prot =
      if usraddr / naclPageSize ≤ p ∧ p < (usraddr + len + (naclPageSize - 1)) / naclPageSize then
        prot
      else (mem.page p).prot :=
  Memory.mmap_prot _ _ p

theorem mmapFile_prot (mem : Memory Backing) (desc : NaClDesc) (usraddr len : ℕ) (prot : BitVec 32)
    (offset : ℤ) (fileByte : ℤ → UInt8) (p : ℕ) :
    ((mmapFile mem desc usraddr len prot offset fileByte).page p).prot =
      if usraddr / naclPageSize ≤ p ∧ p < (usraddr + len + (naclPageSize - 1)) / naclPageSize then
        prot
      else (mem.page p).prot :=
  Memory.mmap_prot _ _ p

theorem munmapInternal_spec {usraddr length : ℕ} {host : Except NaClAbiErrno Unit}
    (h : nap.memMap.WellFormed) (hstart : naclPageSize ∣ usraddr) (hlen : naclPageSize ∣ length)
    (hpos : 0 < length) (hmax : usraddr + length ≤ 2 ^ 32)
    (hrun : munmapInternal nap usraddr length host = .ok (nap', r)) :
    (nap' = nap ∧ ∃ errno, r = .error errno) ∨
      ∃ memMap : NaClVmmap,
        nap' = { nap with memMap, mem := mmapAnonymous nap.mem usraddr length protNone } ∧
        memMap.WellFormed ∧
        memMap.pageMap = override nap.memMap.pageMap (usraddr / naclPageSize)
          ((usraddr + length) / naclPageSize) fun _ => none := by
  unfold munmapInternal at hrun
  obtain ⟨s, rfl⟩ := hstart
  obtain ⟨n, rfl⟩ := hlen
  have hps : 0 < naclPageSize := by decide
  have hpage : 2 ^ naclPageShift = naclPageSize := rfl
  rw [hpage, Nat.mul_div_cancel_left _ hps, Nat.mul_div_cancel_left _ hps] at hrun
  rw [← Nat.mul_add, Nat.mul_div_cancel_left _ hps, Nat.mul_div_cancel_left _ hps]
  have hn : 0 < n := Nat.pos_of_mul_pos_left hpos
  have hmaxPage : s + n ≤ maxPage := by
    unfold naclPageSize naclPageShift at hmax
    unfold maxPage
    omega
  cases host with
  | error errno =>
    cases hrun
    exact Or.inl ⟨rfl, errno, rfl⟩
  | ok u =>
    dsimp only at hrun
    split at hrun
    · cases hrun
    · next memMap hremove =>
      cases hrun
      exact Or.inr ⟨memMap, rfl, naclVmmapRemove_ok h hn hmaxPage hremove⟩

/-! ## The arguments of mmap -/

theorem lt_naclRoundPage_iff {n k : ℕ} (hn : n < 2 ^ 63) :
    k * naclPageSize < naclRoundPage n ↔ k * naclPageSize < n := by
  have := alignUp_le_iff (Nat.dvd_mul_left naclPageSize k)
    (show n + 2 ^ naclPageShift ≤ 2 ^ 64 by unfold naclPageShift; omega)
  rw [← not_le, ← not_le, not_iff_not]
  exact this

theorem mmapFileBytes_spec {ndp : Option NaClDesc} {offset fileSize : ℤ}
    {fstat : Except NaClAbiErrno NaClAbiStat} {fileBytes hostRounded arl : ℕ}
    (hrun : mmapFileBytes ndp offset fstat = .ok (fileSize, fileBytes, hostRounded))
    (hoff : 0 ≤ offset) (hdvd : naclPageSize ∣ arl) (hlt : arl < 2 ^ 32) :
    naclPageSize ∣ min arl hostRounded ∧
      (∀ k, k * naclPageSize < min arl hostRounded ↔ k * naclPageSize < arl ∧
        (ndp = none ∨ offset + k * naclPageSize < fileSize)) ∧
      (ndp ≠ none → fileSize < 2 ^ 63 ∧ (fileBytes : ℤ) = fileSize - offset ∧
        ∀ k, k * naclPageSize < min (min arl hostRounded) fileBytes ↔
          k * naclPageSize < min arl hostRounded) := by
  have harl : arl ≤ kMaxUsableFileSize := hlt.le.trans (by decide)
  cases ndp with
  | none =>
    cases hrun
    rw [min_eq_left harl]
    exact ⟨hdvd, by simp, by simp⟩
  | some desc =>
    unfold mmapFileBytes at hrun
    cases fstat with
    | error errno => cases hrun
    | ok stat =>
      have hsize := stat.size_lt
      dsimp only at hrun
      split_ifs at hrun with hreg hle hmax <;> cases hrun
      · unfold kMaxUsableFileSize at hmax
        omega
      · have hbytes : (stat.size - offset).toNat < 2 ^ 63 := by omega
        have hround := fun k => lt_naclRoundPage_iff (k := k) hbytes
        refine ⟨?_, fun k => ?_, fun _ => ⟨hsize, by omega, fun k => ?_⟩⟩
        · rcases min_choice arl (naclRoundPage (stat.size - offset).toNat) with h | h
          · rwa [h]
          · rw [h]
            exact dvd_alignUp _ _
        · rw [lt_min_iff, hround]
          have : k * naclPageSize < (stat.size - offset).toNat ↔
              offset + k * naclPageSize < stat.size := by omega
          simp [this]
        · have := hround k
          simp only [lt_min_iff]
          omega

/-- What the checks of the arguments establish. -/
structure MmapRequest.Checked (nap : NaClApp) (args : MmapArgs) (req : MmapRequest) : Prop where
  allocRoundedLength_eq : req.allocRoundedLength = naclRoundAllocPage args.length
  pos : 0 < req.allocRoundedLength
  lt : req.allocRoundedLength < 2 ^ 32
  usraddr_eq : req.usraddr = naclTruncAllocPage args.start
  offset_nonneg : 0 ≤ args.offset
  exec_iff : req.mappingCode = true ↔ args.prot &&& protExec ≠ 0
  code : req.mappingCode = true →
    naclSysCommonAddrRangeInAllowedDynamicCodeSpace nap args.start args.length = true ∧
      req.allocRoundedLength = args.length ∧ req.flags &&& mapFixed ≠ 0 ∧
      naclIsAllocPageMultiple args.start = true ∧ req.length = req.allocRoundedLength ∧
      req.ndp ≠ none
  dvd_length : naclPageSize ∣ req.length
  backed_iff : ∀ k, k * naclPageSize < req.length ↔ k * naclPageSize < req.allocRoundedLength ∧
    (req.ndp = none ∨ args.offset + k * naclPageSize < req.fileSize)
  file : req.ndp ≠ none → req.fileSize < 2 ^ 63 ∧ (req.fileBytes : ℤ) = req.fileSize - args.offset ∧
    ∀ k, k * naclPageSize < min req.length req.fileBytes ↔ k * naclPageSize < req.length

theorem dvd_naclRoundAllocPage (n : ℕ) : naclPageSize ∣ naclRoundAllocPage n :=
  naclPageSize_dvd (dvd_alignUp _ _)

theorem mmapWantsCode_eq_true_iff {args : MmapArgs} {ndp : Option NaClDesc} :
    mmapWantsCode nap args ndp = true ↔ args.prot &&& protExec ≠ 0 ∧
      mmapFlags args &&& mapFixed ≠ 0 ∧ ndp ≠ none ∧
      naclSysCommonAddrRangeInAllowedDynamicCodeSpace nap args.start args.length = true :=
  decide_eq_true_iff

theorem mmapCheckPlain_ok {args : MmapArgs} {mappingCode : Bool}
    (hrun : mmapCheckPlain nap args mappingCode = .ok ()) :
    (mappingCode = false → args.prot &&& protExec = 0) ∧
      (mappingCode = true → naclRoundAllocPage args.length = args.length) ∧
      (mmapFlags args &&& mapFixed ≠ 0 → naclIsAllocPageMultiple args.start = true) ∧
      0 ≤ args.offset ∧ naclRoundAllocPage args.length % 2 ^ 32 ≠ 0 := by
  unfold mmapCheckPlain at hrun
  split_ifs at hrun with h₁ h₂ h₃ h₄ h₅ h₆ h₇ h₈
  refine ⟨fun h => ?_, fun h => ?_, fun h => ?_, not_lt.1 h₅, h₈⟩
  · by_contra hexec
    exact h₃ ⟨by simp [h], hexec⟩
  · by_contra hne
    exact h₇ ⟨hne, h⟩
  · by_contra hmul
    exact h₄ ⟨by simpa using hmul, h⟩

theorem mmapCheckArgs_checked {args : MmapArgs} {ans : MmapAnswers} {req : MmapRequest}
    (hrun : mmapCheckArgs nap args ans = .ok (.ok req)) : req.Checked nap args := by
  unfold mmapCheckArgs at hrun
  dsimp only at hrun
  split at hrun
  · cases hrun
  · next ndp hdesc =>
    split at hrun
    · cases hrun
    · next hplain =>
      obtain ⟨hdata, hcode, hfixed, hoff, hpos⟩ := mmapCheckPlain_ok hplain
      split_ifs at hrun with hlt
      split at hrun
      · cases hrun
      · next fileSize fileBytes hostRounded hbytes =>
        split_ifs at hrun with hshort
        · cases hrun
        · cases hrun
          have hpos : 0 < naclRoundAllocPage args.length := by omega
          have hlt : naclRoundAllocPage args.length < 2 ^ 32 := by omega
          obtain ⟨hdvd, hbacked, hfile⟩ := mmapFileBytes_spec hbytes hoff
            (dvd_naclRoundAllocPage args.length) hlt
          refine ⟨rfl, hpos, hlt, rfl, hoff, ⟨fun h => (mmapWantsCode_eq_true_iff.1 h).1,
            fun h => ?_⟩, fun h => ?_, hdvd, hbacked, hfile⟩
          · by_contra hno
            exact h (hdata (by simpa using hno))
          · obtain ⟨-, hfix, hne, hrange⟩ := mmapWantsCode_eq_true_iff.1 h
            refine ⟨hrange, hcode h, hfix, hfixed hfix, (min_le_left _ _).antisymm ?_, hne⟩
            -- a shorter length would end at a page that the file still backs
            by_contra hlt'
            obtain ⟨q, hq⟩ := hdvd
            rw [Nat.mul_comm] at hq
            obtain ⟨-, hbytes', -⟩ := hfile hne
            have hend := hbacked q
            rw [← hq] at hend
            have hbytes : naclRoundAllocPage args.length ≤ fileBytes :=
              not_lt.1 (not_and.1 hshort h)
            have hin : args.offset + q * naclPageSize < fileSize := by
              have : ((q * naclPageSize : ℕ) : ℤ) < fileBytes := by
                rw [← hq]
                exact_mod_cast (not_le.1 hlt').trans_le hbytes
              push_cast at this
              omega
            exact lt_irrefl _ (hend.2 ⟨not_le.1 hlt', Or.inr hin⟩)

/-! ## What a call on a range of pages changes -/

/-- Only the map, the break and the pages of `[s, t)` change, and no page becomes executable. -/
structure DataStep (nap nap' : NaClApp) (s t : ℕ) : Prop where
  eq : nap' = { nap with
    memMap := nap'.memMap, mem := nap'.mem, breakAddr := nap'.breakAddr }
  wellFormed : nap'.memMap.WellFormed
  outside : ∀ p, p < s ∨ t ≤ p → Memory.SameAt naclPageSize nap.mem nap'.mem p
  noExec : ∀ p, (nap'.mem.page p).prot = (nap.mem.page p).prot ∨
    (nap'.mem.page p).prot &&& protExec = 0

theorem DataStep.of_memMap {memMap : NaClVmmap} (h : memMap.WellFormed) (s t : ℕ) :
    DataStep nap { nap with memMap } s t :=
  ⟨rfl, h, fun p _ => .refl _ p, fun _ => Or.inl rfl⟩

theorem DataStep.refl (h : nap.memMap.WellFormed) (s t : ℕ) : DataStep nap nap s t :=
  .of_memMap h s t

theorem DataStep.trans {nap'' : NaClApp} {s t : ℕ} (h : DataStep nap nap' s t)
    (h' : DataStep nap' nap'' s t) : DataStep nap nap'' s t where
  eq := by rw [h'.eq, h.eq]
  wellFormed := h'.wellFormed
  outside p hp := (h.outside p hp).trans (h'.outside p hp)
  noExec p := by
    rcases h'.noExec p with hp | hp
    · rw [hp]
      exact h.noExec p
    · exact Or.inr hp

theorem DataStep.mono {s t s' t' : ℕ} (h : DataStep nap nap' s t) (hs : s' ≤ s) (ht : t ≤ t') :
    DataStep nap nap' s' t' :=
  ⟨h.eq, h.wellFormed, fun p hp => h.outside p (by omega), h.noExec⟩

theorem lt_pageEnd_iff {s len p : ℕ} :
    p < (s * naclPageSize + len + (naclPageSize - 1)) / naclPageSize ↔
      p < s ∨ (p - s) * naclPageSize < len := by
  unfold naclPageSize naclPageShift
  omega

theorem pageEnd_of_dvd {s n : ℕ} :
    (s * naclPageSize + n * naclPageSize + (naclPageSize - 1)) / naclPageSize = s + n := by
  unfold naclPageSize naclPageShift
  omega

theorem DataStep.mmapAnonymous {s t len : ℕ} {prot : BitVec 32} (h : nap.memMap.WellFormed)
    (hexec : prot &&& protExec = 0)
    (ht : (s * naclPageSize + len + (naclPageSize - 1)) / naclPageSize ≤ t) :
    DataStep nap { nap with mem := mmapAnonymous nap.mem (s * naclPageSize) len prot } s t where
  eq := rfl
  wellFormed := h
  outside p hp := Memory.sameAt_mmap _ _ <| by
    rw [Nat.mul_div_cancel _ (by decide)]
    omega
  noExec p := by
    rw [mmapAnonymous_prot]
    split_ifs
    · exact Or.inr hexec
    · exact Or.inl rfl

theorem DataStep.mmapFile {s t len : ℕ} {prot : BitVec 32} {desc : NaClDesc} {offset : ℤ}
    {fileByte : ℤ → UInt8} (h : nap.memMap.WellFormed) (hexec : prot &&& protExec = 0)
    (ht : (s * naclPageSize + len + (naclPageSize - 1)) / naclPageSize ≤ t) :
    DataStep nap
      { nap with mem := mmapFile nap.mem desc (s * naclPageSize) len prot offset fileByte } s t where
  eq := rfl
  wellFormed := h
  outside p hp := Memory.sameAt_mmap _ _ <| by
    rw [Nat.mul_div_cancel _ (by decide)]
    omega
  noExec p := by
    rw [mmapFile_prot]
    split_ifs
    · exact Or.inr hexec
    · exact Or.inl rfl

theorem dataStep_munmapInternal {s n t : ℕ} {host : Except NaClAbiErrno Unit}
    (h : nap.memMap.WellFormed) (hpos : 0 < n)
    (hmax : s * naclPageSize + n * naclPageSize ≤ 2 ^ 32) (ht : s + n ≤ t)
    (hrun : munmapInternal nap (s * naclPageSize) (n * naclPageSize) host = .ok (nap', r)) :
    DataStep nap nap' s t := by
  rcases munmapInternal_spec h (Nat.dvd_mul_left _ _) (Nat.dvd_mul_left _ _)
    (Nat.mul_pos hpos (by decide)) hmax hrun with ⟨rfl, -⟩ | ⟨memMap, rfl, hwf, -⟩
  · exact .refl h s t
  · refine DataStep.trans (.mmapAnonymous h ?_ ?_) (.of_memMap hwf s t)
    · decide
    · rwa [pageEnd_of_dvd]

theorem naclSysMunmap_spec {start length : ℕ} {host : Except NaClAbiErrno Unit}
    (hlt : start < 2 ^ 64) (hrun : naclSysMunmap nap start length host = .ok (nap', r)) :
    (nap' = nap ∧ ∃ errno, r = .error errno) ∨ ∃ s n, start = s * naclPageSize ∧ 0 < n ∧
      start + n * naclPageSize ≤ 2 ^ nap.space.addrBits ∧
      nap.dynamicTextEnd ≤ naclTruncAllocPage start ∧
      naclVmIoPending nap start (usub (uadd start (n * naclPageSize)) 1) = false ∧
      munmapInternal nap (s * naclPageSize) (n * naclPageSize) host = .ok (nap', r) := by
  unfold naclSysMunmap at hrun
  dsimp only at hrun
  split_ifs at hrun with hmul hzero hbad htext hio
  · cases hrun
    exact Or.inl ⟨rfl, _, rfl⟩
  · cases hrun
    exact Or.inl ⟨rfl, _, rfl⟩
  · cases hrun
    exact Or.inl ⟨rfl, _, rfl⟩
  · cases hrun
    exact Or.inl ⟨rfl, _, rfl⟩
  · refine Or.inr ?_
    rw [Bool.not_eq_true, Bool.not_eq_false'] at hmul
    obtain ⟨s, hs⟩ := exists_mul_naclPageSize
      (naclPageSize_dvd (dvd_of_naclIsAllocPageMultiple hmul))
    obtain ⟨n, hn⟩ : ∃ n, naclRoundAllocPage length % 2 ^ 32 = n * naclPageSize :=
      exists_mul_naclPageSize ((Nat.dvd_mod_iff (by decide)).2 (dvd_naclRoundAllocPage length))
    rw [hn] at hzero hbad hio hrun
    have hpos : 0 < n := Nat.pos_of_ne_zero fun h => hzero (by rw [h, Nat.zero_mul])
    have hcount : n * naclPageSize < 2 ^ 64 := by
      rw [← hn]
      omega
    have hle := (naclUserToSysAddrRange_spec hlt hcount hbad).2.1
    refine ⟨s, n, hs, hpos, hle, ?_, Bool.eq_false_iff.2 hio, by rw [← hs]; exact hrun⟩
    simpa [naclSysCommonAddrRangeContainsExecutablePages] using htext

/-! ## mmap of data -/

theorem naclProtMap_noExec {prot : BitVec 32} (h : prot &&& protExec = 0) :
    naclProtMap prot &&& protExec = 0 := by
  rw [naclProtMap, BitVec.and_assoc, BitVec.and_comm protMask, ← BitVec.and_assoc, h]
  decide

section MmapData

variable {nap₀ : NaClApp} {args : MmapArgs} {req : MmapRequest} {s : ℕ} {prot : BitVec 32}

theorem MmapRequest.Checked.pages (hreq : req.Checked nap₀ args) : ∃ n k,
    req.allocRoundedLength = n * naclPageSize ∧ req.length = k * naclPageSize ∧ k ≤ n ∧ 0 < n ∧
      ∀ i < n, i < k ↔ req.ndp = none ∨ args.offset + (i * naclPageSize : ℕ) < req.fileSize := by
  have hps : 0 < naclPageSize := by decide
  obtain ⟨n, hn⟩ := hreq.allocRoundedLength_eq ▸ dvd_naclRoundAllocPage args.length
  obtain ⟨k, hk⟩ := hreq.dvd_length
  rw [Nat.mul_comm] at hn hk
  have hbacked := hreq.backed_iff
  have hpos := hreq.pos
  rw [hn] at hbacked hpos
  rw [hk] at hbacked
  simp only [Nat.mul_lt_mul_right hps] at hbacked
  refine ⟨n, k, hn, hk, ?_, Nat.pos_of_mul_pos_right hpos, fun i hi => ?_⟩
  · by_contra hlt
    exact lt_irrefl n ((hbacked n).1 (not_le.1 hlt)).1
  · rw [hbacked i]
    push_cast
    simp [hi]

theorem dataStep_mmapBacked (h : nap.memMap.WellFormed) (hreq : req.Checked nap₀ args)
    (hexec : prot &&& protExec = 0) {t : ℕ} (ht : s + req.length / naclPageSize ≤ t) (offset : ℤ)
    (fileByte : ℤ → UInt8) :
    DataStep nap
      { nap with mem := mmapBacked nap.mem req (s * naclPageSize) prot offset fileByte } s t ∧
    ∀ p, ((mmapBacked nap.mem req (s * naclPageSize) prot offset fileByte).page p).prot =
      if s ≤ p ∧ (p - s) * naclPageSize < req.length then naclProtMap prot
      else (nap.mem.page p).prot := by
  have hps : 0 < naclPageSize := by decide
  obtain ⟨k, hk⟩ := hreq.dvd_length
  rw [hk, Nat.mul_div_cancel_left _ hps] at ht
  have hprot := naclProtMap_noExec hexec
  unfold mmapBacked
  cases hndp : req.ndp with
  | none =>
    refine ⟨.mmapAnonymous h hprot ?_, fun p => ?_⟩
    · rwa [hk, Nat.mul_comm naclPageSize k, pageEnd_of_dvd]
    · rw [mmapAnonymous_prot, Nat.mul_div_cancel _ hps]
      refine if_congr ?_ rfl rfl
      rw [lt_pageEnd_iff]
      omega
  | some desc =>
    obtain ⟨-, -, hlen⟩ := hreq.file (by rw [hndp]; simp)
    refine ⟨.mmapFile h hprot ?_, fun p => ?_⟩
    · refine le_trans (Nat.div_le_div_right ?_) (pageEnd_of_dvd.trans_le ht)
      rw [hk, Nat.mul_comm naclPageSize k]
      omega
    · dsimp only
      rw [mmapFile_prot, Nat.mul_div_cancel _ hps]
      refine if_congr ?_ rfl rfl
      rw [lt_pageEnd_iff, hlen]
      omega

theorem maxPage_of_le {s n : ℕ} (h : s * naclPageSize + n * naclPageSize ≤ 2 ^ 32) :
    s + n ≤ maxPage := by
  unfold naclPageSize naclPageShift at h
  unfold maxPage
  omega

/-- What an entry for `req` records of the pages from `s` on. -/
def recordedPage (req : MmapRequest) (s : ℕ) (prot : BitVec 32) (offset : ℤ) (page : ℕ) :
    Option PageInfo :=
  some ⟨prot, req.flags ||| mapFixed, req.ndp, offset + ((page : ℤ) - s) * 2 ^ naclPageShift,
    req.fileSize⟩

theorem mmapRecord_spec {n k : ℕ} {offset : ℤ} {munmap : Except NaClAbiErrno Unit}
    (h : nap.memMap.WellFormed) (hn : req.allocRoundedLength = n * naclPageSize)
    (hk : req.length = k * naclPageSize) (hkn : k ≤ n) (hpos : 0 < n)
    (hmax : s * naclPageSize + n * naclPageSize ≤ 2 ^ 32)
    (hrun : mmapRecord nap req (s * naclPageSize) prot offset munmap = .ok (nap', r)) :
    DataStep nap nap' s (s + n) ∧ ∀ v, r = .ok v →
      v = s * naclPageSize ∧ nap'.breakAddr = nap.breakAddr ∧
      nap'.memMap.pageMap = override nap.memMap.pageMap s (s + n) (recordedPage req s prot offset) ∧
      ∀ p, (nap'.mem.page p).prot =
        if s + k ≤ p ∧ p < s + n then protNone else (nap.mem.page p).prot := by
  have hps : 0 < naclPageSize := by decide
  have hpage : 2 ^ naclPageShift = naclPageSize := rfl
  unfold mmapRecord at hrun
  simp only [hn, hk, hpage, Nat.mul_div_cancel _ hps, Nat.mul_lt_mul_right hps, ← Nat.add_mul,
    ← Nat.sub_mul] at hrun
  -- the tail that the descriptor does not back
  have htail : ∀ mid r', (if k < n then
      munmapInternal nap ((s + k) * naclPageSize) ((n - k) * naclPageSize) munmap
      else .ok (nap, .ok 0)) = .ok (mid, r') → DataStep nap mid s (s + n) ∧ ∀ v, r' = .ok v →
        mid.breakAddr = nap.breakAddr ∧
        mid.memMap.pageMap = override nap.memMap.pageMap (s + k) (s + n) (fun _ => none) ∧
        ∀ p, (mid.mem.page p).prot =
          if s + k ≤ p ∧ p < s + n then protNone else (nap.mem.page p).prot := by
    intro mid r' hmid
    split_ifs at hmid with hlt
    · have hend : (s + k) * naclPageSize + (n - k) * naclPageSize =
          s * naclPageSize + n * naclPageSize := by
        rw [← Nat.add_mul, ← Nat.add_mul]
        congr 1
        omega
      have hle : (s + k) * naclPageSize + (n - k) * naclPageSize ≤ 2 ^ 32 := hend.trans_le hmax
      have hstep := dataStep_munmapInternal h (Nat.sub_pos_of_lt hlt) hle
        (show s + k + (n - k) ≤ s + n by omega) hmid
      refine ⟨hstep.mono (Nat.le_add_right s k) le_rfl, ?_⟩
      rcases munmapInternal_spec h (Nat.dvd_mul_left _ _) (Nat.dvd_mul_left _ _)
        (Nat.mul_pos (Nat.sub_pos_of_lt hlt) hps) hle hmid with
        ⟨-, errno, rfl⟩ | ⟨memMap, rfl, -, hmap⟩
      · intro v hv
        cases hv
      · have hsum : s + k + (n - k) = s + n := by omega
        rw [← Nat.add_mul, Nat.mul_div_cancel _ hps, Nat.mul_div_cancel _ hps, hsum] at hmap
        refine fun v _ => ⟨rfl, hmap, fun p => ?_⟩
        rw [mmapAnonymous_prot, pageEnd_of_dvd, Nat.mul_div_cancel _ hps, hsum]
    · cases hmid
      refine ⟨.refl h _ _, fun v _ => ⟨rfl, ?_, fun p => ?_⟩⟩
      · rw [override_of_le (by omega)]
      · rw [if_neg (by omega)]
  split at hrun
  · cases hrun
  · next hmid =>
    cases hrun
    exact ⟨(htail _ _ hmid).1, fun v hv => by cases hv⟩
  · next mid v' hmid =>
    obtain ⟨hstep, hmidspec⟩ := htail _ _ hmid
    obtain ⟨hbreak, hmap, hprot⟩ := hmidspec v' rfl
    split at hrun
    · cases hrun
    · next memMap hadd =>
      cases hrun
      obtain ⟨hwf, hpageMap⟩ := naclVmmapAddWithOverwrite_ok hstep.wellFormed hpos
        (maxPage_of_le hmax) hadd
      refine ⟨hstep.trans (.of_memMap hwf _ _), fun v hv => ⟨?_, hbreak, ?_, hprot⟩⟩
      · cases hv
        rfl
      · rw [hpageMap, hmap]
        funext page
        simp only [override, recordedPage]
        split_ifs <;> first | rfl | omega

/-- Mapping data leaves the other pages alone.  When it succeeds the map records the request, and
the pages that the descriptor backs, and those alone, have its protection. -/
theorem mmapData_spec {n k : ℕ} {offset : ℤ} {ans : MmapAnswers} (h : nap.memMap.WellFormed)
    (hreq : req.Checked nap₀ args) (hexec : prot &&& protExec = 0)
    (hn : req.allocRoundedLength = n * naclPageSize) (hk : req.length = k * naclPageSize)
    (hkn : k ≤ n) (hpos : 0 < n) (hmax : s * naclPageSize + n * naclPageSize ≤ 2 ^ 32)
    (hrun : mmapData nap req (s * naclPageSize) prot offset ans = .ok (nap', r)) :
    DataStep nap nap' s (s + n) ∧ ∀ v, r = .ok v →
      v = s * naclPageSize ∧ nap'.breakAddr = nap.breakAddr ∧
      nap'.memMap.pageMap = override nap.memMap.pageMap s (s + n) (recordedPage req s prot offset) ∧
      ∀ p, (nap'.mem.page p).prot =
        if s ≤ p ∧ p < s + n then if p < s + k then naclProtMap prot else protNone
        else (nap.mem.page p).prot := by
  have hps : 0 < naclPageSize := by decide
  unfold mmapData at hrun
  split_ifs at hrun with hlen
  · split at hrun
    · cases hrun
    · cases hrun
      exact ⟨.refl h _ _, fun v hv => by cases hv⟩
    · obtain ⟨hstep, hprot⟩ := dataStep_mmapBacked (s := s) (t := s + n) h hreq hexec
        (by rw [hk, Nat.mul_div_cancel _ hps]; omega) offset ans.fileByte
      obtain ⟨hstep', hspec⟩ := mmapRecord_spec hstep.wellFormed hn hk hkn hpos hmax hrun
      refine ⟨hstep.trans hstep', fun v hv => ?_⟩
      obtain ⟨hv, hbreak, hmap, hprot'⟩ := hspec v hv
      refine ⟨hv, hbreak, hmap, fun p => ?_⟩
      simp only [hprot', hprot, hk, Nat.mul_lt_mul_right hps]
      split_ifs <;> first | rfl | omega
  · obtain ⟨hstep, hspec⟩ := mmapRecord_spec h hn hk hkn hpos hmax hrun
    refine ⟨hstep, fun v hv => ?_⟩
    obtain ⟨hv, hbreak, hmap, hprot⟩ := hspec v hv
    have hzero : k = 0 := by
      rw [hk] at hlen
      exact (Nat.eq_zero_of_not_pos hlen |> Nat.mul_eq_zero.1).resolve_right hps.ne'
    refine ⟨hv, hbreak, hmap, fun p => ?_⟩
    rw [hprot, hzero]
    split_ifs <;> first | rfl | omega

/-! ## mmap -/

/-- What holds once the place of a request has been checked. -/
structure MmapRequest.Placed (nap : NaClApp) (req : MmapRequest) (usraddr : ℕ) : Prop where
  pos : 0 < usraddr
  le : usraddr + req.allocRoundedLength ≤ 2 ^ nap.space.addrBits
  not_text : req.mappingCode = false → nap.dynamicTextEnd ≤ naclTruncAllocPage usraddr
  not_pending : naclVmIoPending nap usraddr (usub (uadd usraddr req.length) 1) = false

/-- The address the request gets: the one it asks for with `MAP_FIXED`, else one the search finds. -/
def MmapRequest.At (nap : NaClApp) (req : MmapRequest) (usraddr : ℕ) : Prop :=
  req.flags &&& mapFixed ≠ 0 ∧ usraddr = req.usraddr ∨
    req.flags &&& mapFixed = 0 ∧ ∃ memMap usrpage,
      mmapFindSpace nap.memMap req.usraddr req.allocRoundedLength = .ok (memMap, usrpage) ∧
      usraddr = ushl usrpage naclPageShift

/-- The ways a call of `NaClSysMmapIntern` can go until it gives the lock up. -/
inductive MmapLocked (nap : NaClApp) (args : MmapArgs) (ans : MmapAnswers) (nap' : NaClApp) :
    MmapOutcome → Prop
  | refused {memMap : NaClVmmap} {errno : NaClAbiErrno} (hmap : nap.memMap.Reordered memMap)
      (heq : nap' = { nap with memMap }) : MmapLocked nap args ans nap' (.done (.error errno))
  | data {req : MmapRequest} {memMap : NaClVmmap} {s : ℕ} {r : SysResult}
      (hargs : mmapCheckArgs nap args ans = .ok (.ok req)) (hat : req.At nap (s * naclPageSize))
      (hreq : req.Checked nap args) (hmap : nap.memMap.Reordered memMap)
      (hplace : req.Placed nap (s * naclPageSize)) (hdata : req.mappingCode = false)
      (hrun : mmapData { nap with memMap } req (s * naclPageSize) (args.prot &&& ~~~protExec)
        args.offset ans = .ok (nap', r)) : MmapLocked nap args ans nap' (.done r)
  | direct {req : MmapRequest} {desc : NaClDesc} {r : SysResult} (hreq : req.Checked nap args)
      (hplace : req.Placed nap args.start) (hcode : req.mappingCode = true)
      (hvalid : ans.hostIo = true ∧ ans.validates = true)
      (hrun : mmapCodeDirect nap req desc args.start args.offset ans = .ok (nap', r)) :
      MmapLocked nap args ans nap' (.done r)
  | copy {req : MmapRequest} (hreq : req.Checked nap args) (hplace : req.Placed nap args.start)
      (hcode : req.mappingCode = true) (heq : nap' = nap) :
      MmapLocked nap args ans nap' (.copy args.start
        (fun i => ans.fileByte (args.offset + i)) req.length ans.dyncode)

theorem mmapCheckRange_ok {usraddr : ℕ} {safeForMmap : Bool} (hlt : req.allocRoundedLength < 2 ^ 32)
    (hrun : mmapCheckRange nap req usraddr safeForMmap = .ok ()) :
    usraddr + req.allocRoundedLength ≤ 2 ^ nap.space.addrBits ∧
      (req.mappingCode = false → nap.dynamicTextEnd ≤ naclTruncAllocPage usraddr) := by
  have hbits := addrBits_pow_le nap.space
  unfold mmapCheckRange at hrun
  dsimp only at hrun
  split_ifs at hrun with hlo hwrap hhi hcode hsafe htext
  all_goals rw [uadd_eq (by omega)] at hhi
  · exact ⟨not_lt.1 hhi, fun h => by simp [hcode] at h⟩
  · refine ⟨not_lt.1 hhi, fun _ => ?_⟩
    simpa [naclSysCommonAddrRangeContainsExecutablePages] using htext

theorem mmapAt_spec {memMap : NaClVmmap} {ans : MmapAnswers} {o : MmapOutcome}
    (hmap : nap.memMap.Reordered memMap) (hargs : mmapCheckArgs nap args ans = .ok (.ok req))
    (hat : req.At nap (s * naclPageSize))
    (hcode : req.mappingCode = true → memMap = nap.memMap ∧ s * naclPageSize = args.start)
    (hrun : mmapAt { nap with memMap } req (s * naclPageSize) args.prot args.offset ans =
      .ok (nap', o)) : MmapLocked nap args ans nap' o := by
  have hreq := mmapCheckArgs_checked hargs
  unfold mmapAt at hrun
  split at hrun
  · cases hrun
    exact .refused hmap rfl
  · next hrange =>
    obtain ⟨hle, htext⟩ := mmapCheckRange_ok hreq.lt hrange
    split_ifs at hrun with hio hshared
    · cases hrun
      exact .refused hmap rfl
    · split at hrun
      · cases hrun
      · next huser =>
        have hpos : 0 < s * naclPageSize := by
          unfold naclUserToSys at huser
          split_ifs at huser with hbad
          omega
        have hplace : req.Placed nap (s * naclPageSize) :=
          ⟨hpos, hle, htext, Bool.eq_false_iff.2 hio⟩
        split at hrun
        · next desc hmatch hndp =>
          simp only [Bool.and_eq_true] at hmatch
          obtain ⟨rfl, hstart⟩ := hcode hmatch.1
          rw [hstart] at hplace hrun
          unfold mmapCode at hrun
          split_ifs at hrun with hhost hvalid
          · cases hrun
            exact .refused hmap rfl
          · split at hrun
            · cases hrun
              exact .refused hmap rfl
            · split at hrun
              · cases hrun
              · next hdirect =>
                cases hrun
                exact .direct hreq hplace hmatch.1 ⟨by simpa using hhost, hvalid⟩ hdirect
          · split at hrun
            · cases hrun
              exact .refused hmap rfl
            · cases hrun
              exact .copy hreq hplace hmatch.1 rfl
        · next hmatch =>
          have hdata : req.mappingCode = false := by
            by_contra hne
            rw [Bool.not_eq_false] at hne
            obtain ⟨-, -, -, -, hlen, hndp⟩ := hreq.code hne
            obtain ⟨desc, hdesc⟩ := Option.ne_none_iff_exists'.1 hndp
            refine hmatch desc ?_ hdesc
            rw [hne, hlen]
            simpa using hreq.pos
          split at hrun
          · cases hrun
          · next hmid =>
            cases hrun
            exact .data hargs hat hreq hmap hplace hdata hmid

theorem reordered_of_mmapFindSpace {self memMap : NaClVmmap} {usraddr len page : ℕ}
    (h : self.WellFormed) (hfind : mmapFindSpace self usraddr len = .ok (memMap, page)) :
    self.Reordered memMap := by
  unfold mmapFindSpace at hfind
  dsimp only at hfind
  split_ifs at hfind with h₀
  · exact reordered_of_naclVmmapFindMapSpace h hfind
  · split at hfind
    · cases hfind
    · next hhint =>
      have hhint := reordered_of_naclVmmapFindMapSpaceAboveHint h hhint
      exact hhint.trans (reordered_of_naclVmmapFindMapSpace hhint.wellFormed hfind)
    · next hhint =>
      cases hfind
      exact reordered_of_naclVmmapFindMapSpaceAboveHint h hhint

theorem mmapLocked_spec {ans : MmapAnswers} {o : MmapOutcome} (h : nap.memMap.WellFormed)
    (hrun : mmapLocked nap args ans = .ok (nap', o)) : MmapLocked nap args ans nap' o := by
  unfold mmapLocked at hrun
  split at hrun
  · cases hrun
  · cases hrun
    exact .refused (.refl h) rfl
  · next req hcheck =>
    have hreq := mmapCheckArgs_checked hcheck
    split_ifs at hrun with hfix
    · split at hrun
      · cases hrun
      · next memMap usrpage hfind =>
        have hmap := reordered_of_mmapFindSpace h hfind
        dsimp only at hrun
        split_ifs at hrun with hpage
        · cases hrun
          exact .refused hmap rfl
        · obtain ⟨s, hs⟩ : ∃ s, ushl usrpage naclPageShift = s * naclPageSize :=
            exists_mul_naclPageSize ((Nat.dvd_mod_iff (by decide)).2 (Nat.dvd_mul_left _ _))
          rw [hs] at hrun
          exact mmapAt_spec hmap hcheck (Or.inr ⟨hfix, memMap, usrpage, hfind, hs.symm⟩)
            (fun hcode => absurd hfix (hreq.code hcode).2.2.1) hrun
    · obtain ⟨s, hs⟩ : ∃ s, naclTruncAllocPage args.start = s * naclPageSize :=
        exists_mul_naclPageSize (naclPageSize_dvd (dvd_alignDown _ _))
      rw [hreq.usraddr_eq, hs] at hrun
      have hat : req.At nap (s * naclPageSize) :=
        Or.inl ⟨hfix, (hreq.usraddr_eq.trans hs).symm⟩
      refine mmapAt_spec (.refl h) hcheck hat (fun hcode => ⟨rfl, ?_⟩) hrun
      rw [← hs]
      exact alignDown_eq_self (dvd_of_naclIsAllocPageMultiple (hreq.code hcode).2.2.2.1)

theorem MmapRequest.Checked.code_range (hreq : req.Checked nap args)
    (hplace : req.Placed nap args.start) (hcode : req.mappingCode = true) :
    nap.dynamicTextStart ≤ args.start ∧ args.start + req.length ≤ nap.dynamicTextEnd ∧
      naclPageSize ∣ args.start ∧ naclPageSize ∣ req.length := by
  obtain ⟨hrange, hround, -, hmul, hlen, -⟩ := hreq.code hcode
  have hbits := addrBits_pow_le nap.space
  have hle := hplace.le
  rw [hround] at hle
  unfold naclSysCommonAddrRangeInAllowedDynamicCodeSpace at hrange
  dsimp only at hrange
  rw [uadd_eq (by omega)] at hrange
  split_ifs at hrange with hwrap hend
  · obtain ⟨hlo, hhi⟩ := of_decide_eq_true hrange
    have hup : args.start + args.length ≤ naclRoundAllocPage (args.start + args.length) :=
      le_alignUp (by unfold naclMapPageShift; omega)
    refine ⟨hlo, ?_, naclPageSize_dvd (dvd_of_naclIsAllocPageMultiple hmul), hreq.dvd_length⟩
    rw [hlen, hround]
    exact hup.trans hhi

theorem mmapCodeDirect_spec {usraddr : ℕ} {desc : NaClDesc} {offset : ℤ} {ans : MmapAnswers}
    (hrun : mmapCodeDirect nap req desc usraddr offset ans = .ok (nap', r)) :
    ∃ sysaddr text free, naclUserToSys nap.space usraddr = some sysaddr ∧
      naclDynamicRegionCreate nap.text sysaddr req.length true = (text, free) ∧
      nap' = { nap with
        text
        mem := if free then mmapFile nap.mem desc usraddr req.length (protRead ||| protExec) offset
          ans.fileByte else nap.mem } ∧
      if free then r = .ok usraddr else ∃ errno, r = .error errno := by
  unfold mmapCodeDirect at hrun
  split at hrun
  · cases hrun
  · next sysaddr huser =>
    split at hrun
    · next text hcreate =>
      cases hrun
      exact ⟨sysaddr, text, false, huser, hcreate, rfl, _, rfl⟩
    · next text hcreate =>
      split at hrun
      · cases hrun
      · unfold mmapCodeResult at hrun
        split_ifs at hrun
        cases hrun
        exact ⟨sysaddr, text, true, huser, hcreate, rfl, rfl⟩

end MmapData

end

end SandboxingNaCl
