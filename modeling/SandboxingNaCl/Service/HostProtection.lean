import SandboxingNaCl.Service.Brk
import SandboxingNaCl.Service.Mprotect

/-!
# The protection of the host's pages

The map says which protection a page has and the host says which it really has.  The two agree as
long as no call of `mprotect` starts inside a mapping of a file, whose offset `NaClVmmapChangeProt`
would then record wrongly, and no call of `brk` grows anything but readable and writable anonymous
memory, for it makes the new pages readable and writable whatever the entry says.
-/

namespace SandboxingNaCl

open MachineInt PagedMemory IntervalMap Runs

/-- A call that maps, unmaps or protects memory, with the answers it gets. -/
inductive MemCall
  | brk (newBreak : ℕ)
  | mmap (args : MmapArgs) (ans : MmapAnswers)
  | munmap (start length : BitVec 32) (host : Except NaClAbiErrno Unit)
  | mprotect (start : BitVec 32) (length : ℕ) (prot : BitVec 32)

def MemCall.run (nap : NaClApp) : MemCall → Except Fault (NaClApp × SysResult)
  | .brk newBreak => naclSysBrk nap newBreak
  | .mmap args ans => naclSysMmapIntern nap args ans
  | .munmap start length host => naclSysMunmap nap start.toNat length.toNat host
  | .mprotect start length prot => naclSysMprotectInternal nap start.toNat length prot

/-- The state, and for the mappings that the map records where in its file each page comes from. -/
structure Traced where
  nap : NaClApp
  origin : ℕ → ℤ

/-- Mapping data at `v` puts its pages at consecutive places of the file; the map does not record
mappings of code. -/
def MemCall.origin (origin : ℕ → ℤ) (v : ℕ) : MemCall → ℕ → ℤ
  | .mmap args _ => fun p =>
    if args.prot &&& protExec = 0 ∧ v / naclPageSize ≤ p ∧
        p < v / naclPageSize + naclRoundAllocPage args.length / naclPageSize then
      args.offset + ((p : ℤ) - (v / naclPageSize : ℕ)) * 2 ^ naclPageShift
    else origin p
  | _ => origin

/-- A successful call. -/
def Traced.step (s : Traced) (call : MemCall) : Except Unit Traced :=
  match call.run s.nap with
  | .ok (nap, .ok v) => .ok ⟨nap, call.origin s.origin v⟩
  | _ => .error ()

/-- The host's protection of a page is what the map says: none where it says nothing and past the end
of a file, and otherwise the one it records. -/
def AgreesAt (s : Traced) (p : ℕ) : Prop :=
  (s.nap.mem.page p).prot =
    match s.nap.memMap.pageMap p with
    | none => protNone
    | some info =>
      if info.desc = none ∨ s.origin p < info.fileSize then naclProtMap info.prot else protNone

/-- What the loader establishes and the calls keep: the map records where file pages come from, and
the dynamic text as readable and executable. -/
structure Traced.Sound (s : Traced) : Prop where
  wellFormed : s.nap.memMap.WellFormed
  layout : s.nap.Layout
  origin_eq : ∀ p info, s.nap.memMap.pageMap p = some info → info.desc ≠ none →
    s.origin p = info.fileOffset ∧ 0 ≤ info.fileOffset ∧ info.fileSize < 2 ^ 63
  text : ∀ p, s.nap.dynamicTextStart / naclPageSize ≤ p → p < s.nap.dynamicTextEnd / naclPageSize →
    ∃ info, s.nap.memMap.pageMap p = some info ∧ naclProtMap info.prot = protRead ||| protExec ∧
      (info.desc = none ∨ info.fileOffset < info.fileSize)

/-- The entry that holds the last page of the data is anonymous, readable and writable. -/
def GrowsReadWrite (nap : NaClApp) (newBreak : ℕ) : Prop :=
  ∀ ent ∈ nap.memMap.vmentry, vmentryExtent.Covers ent ((nap.breakAddr - 1) / naclPageSize) →
    nap.breakAddr < newBreak → ent.pageNum + ent.npages ≤ (newBreak - 1) / naclPageSize →
    ent.desc = none ∧ naclProtMap ent.prot = protReadWrite

/-- The call does not start inside a mapping of a file, and does not grow memory of another kind. -/
def MemCall.Guard (s : Traced) : MemCall → Prop
  | .brk newBreak => GrowsReadWrite s.nap newBreak
  | .mprotect start _ _ => ∀ ent ∈ s.nap.memMap.vmentry, ent.desc ≠ none →
      ¬ (ent.pageNum < start.toNat / naclPageSize ∧
        start.toNat / naclPageSize < ent.pageNum + ent.npages)
  | _ => True

/-! ## A call that changes the map on a range of pages -/

section Region

variable {s s' : Traced} {a b : ℕ} {g : ℕ → Option PageInfo}

/-- If a call changes the map and the pages of a range above the code only, and makes them agree
there, then they agree wherever they agreed. -/
theorem Traced.Sound.region (h : s.Sound)
    (heq : s'.nap = { s.nap with
      memMap := s'.nap.memMap, mem := s'.nap.mem, breakAddr := s'.nap.breakAddr })
    (hwf : s'.nap.memMap.WellFormed) (hbreak : s'.nap.dataEnd ≤ s'.nap.breakAddr)
    (htext : s.nap.dynamicTextEnd / naclPageSize ≤ a)
    (hmap : s'.nap.memMap.pageMap = override s.nap.memMap.pageMap a b g)
    (hprot : ∀ p, ¬ (a ≤ p ∧ p < b) → (s'.nap.mem.page p).prot = (s.nap.mem.page p).prot)
    (horigin : ∀ p, ¬ (a ≤ p ∧ p < b) → s'.origin p = s.origin p)
    (hg : ∀ p info, a ≤ p → p < b → g p = some info → info.desc ≠ none →
      s'.origin p = info.fileOffset ∧ 0 ≤ info.fileOffset ∧ info.fileSize < 2 ^ 63)
    (hagree : ∀ p, a ≤ p → p < b → AgreesAt s p → AgreesAt s' p) :
    s'.Sound ∧ ∀ p, AgreesAt s p → AgreesAt s' p := by
  have hstart : s'.nap.dynamicTextStart = s.nap.dynamicTextStart := by rw [heq]
  have hend : s'.nap.dynamicTextEnd = s.nap.dynamicTextEnd := by rw [heq]
  refine ⟨⟨hwf, ?_, fun p info hp hdesc => ?_, fun p hlo hhi => ?_⟩, fun p hp => ?_⟩
  · obtain ⟨h₁, h₂, h₃, h₄, -⟩ := h.layout
    rw [heq] at hbreak ⊢
    exact ⟨h₁, h₂, h₃, h₄, hbreak⟩
  · rw [hmap, override] at hp
    split_ifs at hp with hin
    · exact hg p info hin.1 hin.2 hp hdesc
    · rw [horigin p hin]
      exact h.origin_eq p info hp hdesc
  · rw [hstart] at hlo
    rw [hend] at hhi
    obtain ⟨info, hinfo, hrest⟩ := h.text p hlo hhi
    refine ⟨info, ?_, hrest⟩
    rw [hmap, override, if_neg (by omega), hinfo]
  · by_cases hin : a ≤ p ∧ p < b
    · exact hagree p hin.1 hin.2 hp
    · unfold AgreesAt at hp ⊢
      rw [hprot p hin, hp, hmap, override, if_neg hin, horigin p hin]

/-- If a call leaves the map alone and makes pages of the dynamic text readable and executable, the
pages agree wherever they agreed. -/
theorem Traced.Sound.code (h : s.Sound)
    (heq : s'.nap = { s.nap with text := s'.nap.text, mem := s'.nap.mem })
    (hbits : s'.nap.text.pageBitmap.length = s.nap.text.pageBitmap.length)
    (horigin : s'.origin = s.origin)
    (hprot : ∀ p, (s'.nap.mem.page p).prot = (s.nap.mem.page p).prot ∨
      (s.nap.dynamicTextStart / naclPageSize ≤ p ∧ p < s.nap.dynamicTextEnd / naclPageSize ∧
        (s'.nap.mem.page p).prot = protRead ||| protExec)) :
    s'.Sound ∧ ∀ p, AgreesAt s p → AgreesAt s' p := by
  have hmap : s'.nap.memMap = s.nap.memMap := by rw [heq]
  have hstart : s'.nap.dynamicTextStart = s.nap.dynamicTextStart := by rw [heq]
  have hend : s'.nap.dynamicTextEnd = s.nap.dynamicTextEnd := by rw [heq]
  have hdata : s'.nap.dataEnd = s.nap.dataEnd := by rw [heq]
  have hbreak : s'.nap.breakAddr = s.nap.breakAddr := by rw [heq]
  refine ⟨⟨hmap ▸ h.wellFormed, ?_, ?_, ?_⟩, fun p hp => ?_⟩
  · obtain ⟨h₁, h₂, h₃, h₄, h₅⟩ := h.layout
    refine ⟨?_, ?_, ?_, ?_, ?_⟩
    · rwa [hstart]
    · rwa [hstart]
    · rwa [hstart, hend, hbits]
    · rwa [hend, hdata]
    · rwa [hdata, hbreak]
  · rw [hmap, horigin]
    exact h.origin_eq
  · rw [hmap, hstart, hend]
    exact h.text
  · rcases hprot p with hsame | ⟨hlo, hhi, hexec⟩
    · unfold AgreesAt at hp ⊢
      rw [hsame, hp, hmap, horigin]
    · obtain ⟨info, hinfo, hprot', hfile⟩ := h.text p hlo hhi
      unfold AgreesAt
      rw [hexec, hmap, hinfo, horigin]
      dsimp only
      rw [if_pos, hprot']
      by_cases hdesc : info.desc = none
      · exact Or.inl hdesc
      · rw [(h.origin_eq p info hinfo hdesc).1]
        exact hfile

end Region

/-! ## The calls -/

section Calls

variable {s : Traced} {nap' : NaClApp} {r : SysResult} {v : ℕ}

theorem dynamicTextEnd_div_le {nap : NaClApp} {n : ℕ}
    (h : nap.dynamicTextEnd ≤ naclTruncAllocPage (n * naclPageSize)) :
    nap.dynamicTextEnd / naclPageSize ≤ n := by
  refine (Nat.div_le_div_right (h.trans (alignDown_le _ _))).trans ?_
  rw [Nat.mul_div_cancel _ (by decide)]

theorem Traced.Sound.munmap (h : s.Sound) {start length : ℕ} {host : Except NaClAbiErrno Unit}
    (hlt : start < 2 ^ 64) (hrun : naclSysMunmap s.nap start length host = .ok (nap', .ok v)) :
    Traced.Sound ⟨nap', s.origin⟩ ∧ ∀ p, AgreesAt s p → AgreesAt ⟨nap', s.origin⟩ p := by
  have hbits := addrBits_pow_le s.nap.space
  rcases naclSysMunmap_spec hlt hrun with ⟨-, errno, hr⟩ | ⟨a, n, rfl, hpos, hle, htext, -, hrun⟩
  · cases hr
  rcases munmapInternal_spec h.wellFormed (Nat.dvd_mul_left _ _) (Nat.dvd_mul_left _ _)
    (Nat.mul_pos hpos (by decide)) (hle.trans hbits) hrun with
    ⟨-, errno, hr⟩ | ⟨memMap, rfl, hwf, hmap⟩
  · cases hr
  rw [← Nat.add_mul, Nat.mul_div_cancel _ (by decide), Nat.mul_div_cancel _ (by decide)] at hmap
  have hprot : ∀ p, ((mmapAnonymous s.nap.mem (a * naclPageSize) (n * naclPageSize) protNone).page
      p).prot = if a ≤ p ∧ p < a + n then protNone else (s.nap.mem.page p).prot := by
    intro p
    rw [mmapAnonymous_prot, pageEnd_of_dvd, Nat.mul_div_cancel _ (by decide)]
  refine h.region rfl hwf h.layout.dataEnd_le (dynamicTextEnd_div_le htext) hmap
    (fun p hp => ?_) (fun p _ => rfl) (fun p info _ _ hnone => ?_) (fun p hlo hhi _ => ?_)
  · exact (hprot p).trans (if_neg hp)
  · cases hnone
  · unfold AgreesAt
    dsimp only
    rw [hprot p, if_pos ⟨hlo, hhi⟩, hmap, override, if_pos ⟨hlo, hhi⟩]

/-- What the map says of a page whose protection is changed: what it said, with the new protection,
for a page of a file; an anonymous page stays anonymous. -/
theorem lookup_changedPiece_info {map : NaClVmmap} {a n : ℕ} {prot : BitVec 32} {p : ℕ}
    {info' : PageInfo} (hwf : map.WellFormed)
    (hguard : ∀ ent ∈ map.vmentry, ent.desc ≠ none →
      ¬ (ent.pageNum < a ∧ a < ent.pageNum + ent.npages))
    (hlo : a ≤ p) (hhi : p < a + n)
    (hinfo : vmentryExtent.lookup (map.vmentry.flatMap (changedPiece prot a (a + n))) p =
      some info') :
    info'.prot = prot ∧ ∃ info, map.pageMap p = some info ∧ info'.desc = info.desc ∧
      (info.desc ≠ none → info' = { info with prot := prot }) := by
  rcases hold : map.pageMap p with _ | info
  · rw [lookup_flatMap_changedPiece_none hold] at hinfo
    cases hinfo
  obtain ⟨ent, he, hcov, rfl⟩ := hwf.entries.tiles.lookup_eq_some_iff.1 hold
  rw [lookup_flatMap_changedPiece hwf.entries he hlo hhi hcov, Option.some.injEq] at hinfo
  subst hinfo
  refine ⟨rfl, _, rfl, rfl, fun hdesc => ?_⟩
  have hstart : a ≤ ent.pageNum := by
    by_contra hlt
    exact hguard ent he hdesc ⟨not_le.1 hlt, hlo.trans_lt hcov.2⟩
  rw [max_eq_left hstart, Nat.sub_self, Nat.cast_zero, add_zero]
  rfl

theorem MprotectDone.page_prot {nap : NaClApp} {a n : ℕ} {prot : BitVec 32} {p : ℕ}
    {info' : PageInfo} (h : MprotectDone nap nap' a n prot) (hlo : a ≤ p) (hhi : p < a + n)
    (hfile : ∀ q info, nap'.memMap.pageMap q = some info → a ≤ q → q < a + n → info.desc ≠ none →
      0 ≤ info.fileOffset ∧ info.fileSize < 2 ^ 63)
    (hinfo : nap'.memMap.pageMap p = some info') :
    (nap'.mem.page p).prot = if info'.desc = none ∨ info'.fileOffset < info'.fileSize then
      naclProtMap prot else (nap.mem.page p).prot := by
  obtain ⟨ent, he, hcov, rfl⟩ := h.wellFormed.entries.tiles.lookup_eq_some_iff.1 hinfo
  have htiles := h.wellFormed.entries.tiles
  have hpos := htiles.lt ent he
  have hmax := h.wellFormed.entries.le_maxPage ent he
  have hin := h.split.inside_or_apart ent he
  obtain ⟨hcovLo, hcovHi⟩ := hcov
  simp only [vmentryExtent_lo, vmentryExtent_hi] at hpos hcovLo hcovHi
  have hfirst := htiles.lookup_of_mem he (p := ent.pageNum) ⟨le_rfl, hpos⟩
  have hent := @lt_mprotectPages_iff ent hmax (fun hdesc => by
    have := hfile ent.pageNum _ hfirst (by omega) (by omega) hdesc
    simpa [vmentryExtent] using this) (p - ent.pageNum)
  have hcast : ((p - ent.pageNum : ℕ) : ℤ) = (p : ℤ) - ent.pageNum := by omega
  rw [hcast] at hent
  have hiff : (∃ ent' ∈ nap'.memMap.vmentry, a ≤ ent'.pageNum ∧ ent'.pageNum < a + n ∧
      ent'.pageNum ≤ p ∧ p < ent'.pageNum + mprotectPages ent') ↔
      ((vmentryExtent.val ent p).desc = none ∨
        (vmentryExtent.val ent p).fileOffset < (vmentryExtent.val ent p).fileSize) := by
    constructor
    · rintro ⟨ent', he', -, -, hlo', hhi'⟩
      have hle := mprotectPages_le ent'
      obtain rfl : ent' = ent := htiles.eq_of_covers he' he
        ⟨hlo', hhi'.trans_le (Nat.add_le_add_left hle _)⟩ ⟨hcovLo, hcovHi⟩
      exact (hent.1 (by omega)).2
    · intro hback
      have := hent.2 ⟨by omega, hback⟩
      exact ⟨ent, he, by omega, by omega, hcovLo, by omega⟩
  rw [h.page p]
  by_cases hback : (vmentryExtent.val ent p).desc = none ∨
      (vmentryExtent.val ent p).fileOffset < (vmentryExtent.val ent p).fileSize
  · rw [if_pos (hiff.2 hback), if_pos hback]
  · rw [if_neg (mt hiff.1 hback), if_neg hback]

theorem Traced.Sound.mprotect (h : s.Sound) {start length : ℕ} {prot : BitVec 32}
    (hlt : start < 2 ^ 32)
    (hguard : ∀ ent ∈ s.nap.memMap.vmentry, ent.desc ≠ none →
      ¬ (ent.pageNum < start / naclPageSize ∧ start / naclPageSize < ent.pageNum + ent.npages))
    (hrun : naclSysMprotectInternal s.nap start length prot = .ok (nap', .ok v)) :
    Traced.Sound ⟨nap', s.origin⟩ ∧ ∀ p, AgreesAt s p → AgreesAt ⟨nap', s.origin⟩ p := by
  rcases naclSysMprotectInternal_spec h.wellFormed hlt hrun with
    ⟨-, -, -, -, errno, hr⟩ | ⟨a, n, rfl, -, -, hdone⟩
  · cases hr
  rw [Nat.mul_div_cancel _ (by decide)] at hguard
  have hpiece : ∀ p info', a ≤ p → p < a + n → nap'.memMap.pageMap p = some info' →
      info'.prot = prot ∧ ∃ info, s.nap.memMap.pageMap p = some info ∧ info'.desc = info.desc ∧
        (info.desc ≠ none → info' = { info with prot := prot }) := by
    intro p info' hlo hhi hinfo
    rw [hdone.pageMap, override, if_pos ⟨hlo, hhi⟩] at hinfo
    exact lookup_changedPiece_info h.wellFormed hguard hlo hhi hinfo
  have hfile : ∀ p info', a ≤ p → p < a + n → nap'.memMap.pageMap p = some info' →
      info'.desc ≠ none →
      s.origin p = info'.fileOffset ∧ 0 ≤ info'.fileOffset ∧ info'.fileSize < 2 ^ 63 := by
    intro p info' hlo hhi hinfo hdesc
    obtain ⟨-, info, hold, hdesc', hsame⟩ := hpiece p info' hlo hhi hinfo
    rw [hdesc'] at hdesc
    rw [hsame hdesc]
    exact h.origin_eq p info hold hdesc
  have hstep := hdone.dataStep
  refine h.region hdone.dataStep.eq hdone.wellFormed ?_ (dynamicTextEnd_div_le hdone.not_text)
    hdone.pageMap (fun p hp => by rw [(hstep.outside p (by omega)).page_eq]) (fun p _ => rfl)
    (fun p info hlo hhi hinfo hdesc => hfile p info hlo hhi ?_ hdesc) fun p hlo hhi hp => ?_
  · rw [hdone.eq]
    exact h.layout.dataEnd_le
  · rw [hdone.pageMap, override, if_pos ⟨hlo, hhi⟩, hinfo]
  · obtain ⟨ent, he, hcov⟩ := hdone.split.covers p hlo hhi
    have hinfo := hdone.wellFormed.entries.tiles.lookup_of_mem he hcov
    set info' := vmentryExtent.val ent p
    obtain ⟨hprot', info, hold, hdesc', hsame⟩ := hpiece p info' hlo hhi hinfo
    have hpage := hdone.page_prot hlo hhi
      (fun q info hq hlo hhi hdesc => (hfile q info hlo hhi hq hdesc).2) hinfo
    have hmap : nap'.memMap.pageMap p = some info' := hinfo
    unfold AgreesAt at hp ⊢
    dsimp only
    rw [hpage, hmap]
    dsimp only
    rw [hprot']
    by_cases hdesc : info'.desc = none
    · rw [if_pos (Or.inl hdesc), if_pos (Or.inl hdesc)]
    · rw [(hfile p info' hlo hhi hmap hdesc).1]
      by_cases hback : info'.fileOffset < info'.fileSize
      · rw [if_pos (Or.inr hback), if_pos (Or.inr hback)]
      -- past the end of the file the host's protection stays what it was
      · rw [if_neg (not_or.2 ⟨hdesc, hback⟩), if_neg (not_or.2 ⟨hdesc, hback⟩), hp, hold]
        have hdesc₀ : info.desc ≠ none := hdesc' ▸ hdesc
        have hsame := hsame hdesc₀
        dsimp only
        rw [(h.origin_eq p info hold hdesc₀).1, if_neg]
        rw [hsame] at hback
        exact not_or.2 ⟨hdesc₀, hback⟩

theorem Traced.Sound.brk (h : s.Sound) {newBreak : ℕ} (hguard : GrowsReadWrite s.nap newBreak)
    (hrun : naclSysBrk s.nap newBreak = .ok (nap', r)) :
    Traced.Sound ⟨nap', s.origin⟩ ∧ ∀ p, AgreesAt s p → AgreesAt ⟨nap', s.origin⟩ p := by
  have hstep := brkStep_naclSysBrk h.wellFormed hrun
  have hbreak := hstep.dataEnd_le h.layout.dataEnd_le
  cases hstep with
  | kept hmap hle heq =>
    subst heq
    refine h.region (b := 0) rfl hmap.wellFormed hbreak le_rfl
      (g := fun _ => none) ?_ (fun _ _ => rfl) (fun _ _ => rfl) (fun p _ _ hp => by omega)
      (fun p _ hp => by omega)
    rw [override_of_le (Nat.zero_le _)]
    exact hmap.pageMap_eq
  | bumped hmap hle heq =>
    subst heq
    refine h.region (b := 0) rfl hmap.wellFormed hbreak le_rfl
      (g := fun _ => none) ?_ (fun _ _ => rfl) (fun _ _ => rfl) (fun p _ _ hp => by omega)
      (fun p _ hp => by omega)
    rw [override_of_le (Nat.zero_le _)]
    exact hmap.pageMap_eq
  | @extended memMap ix last ent hmap hord hix hpos hcov hlt hend hge hmax hnext hle heq =>
    obtain ⟨hwf, hpageMap⟩ := memMap.extend_spec hmap.wellFormed hord hix
      (hge.trans (Nat.le_succ last)) hmax hnext
    rw [hmap.pageMap_eq] at hpageMap
    obtain ⟨hdesc, hrw⟩ := hguard ent (hmap.perm.mem_iff.1 (List.mem_of_getElem? hix)) hcov hlt hend
    subst heq
    refine h.region rfl hwf hbreak ?_ hpageMap (fun p hp => ?_) (fun _ _ => rfl)
      (fun p info _ _ hinfo hne => ?_) fun p hlo hhi _ => ?_
    · have hhi := hcov.2
      rw [vmentryExtent_hi] at hhi
      obtain ⟨-, -, -, hdata, hbreak'⟩ := h.layout
      have hend' : s.nap.dynamicTextEnd / naclPageSize ≤ (s.nap.breakAddr - 1) / naclPageSize + 1 := by
        refine (Nat.div_le_div_right (hdata.trans hbreak')).trans ?_
        unfold naclPageSize naclPageShift
        omega
      omega
    · exact (Memory.mprotect_prot p).trans (if_neg hp)
    · cases hinfo
      exact absurd hdesc hne
    · unfold AgreesAt
      dsimp only
      rw [hpageMap, override, if_pos ⟨hlo, hhi⟩]
      have hval : (vmentryExtent.val ent p).desc = none := hdesc
      dsimp only
      rw [if_pos (Or.inl hval)]
      exact ((Memory.mprotect_prot p).trans (if_pos ⟨hlo, hhi⟩)).trans hrw.symm

theorem MemCall.origin_mmap_code {args : MmapArgs} (ans : MmapAnswers) {origin : ℕ → ℤ}
    (hexec : args.prot &&& protExec ≠ 0) : (MemCall.mmap args ans).origin origin v = origin := by
  funext p
  exact if_neg fun h => hexec h.1

theorem MemCall.origin_mmap_data {args : MmapArgs} (ans : MmapAnswers) (origin : ℕ → ℤ) (a : ℕ)
    {n : ℕ} (hexec : args.prot &&& protExec = 0)
    (hn : naclRoundAllocPage args.length = n * naclPageSize) (p : ℕ) : (MemCall.mmap args ans).origin origin (a * naclPageSize) p =
      if a ≤ p ∧ p < a + n then args.offset + ((p : ℤ) - a) * 2 ^ naclPageShift else origin p := by
  have hps : 0 < naclPageSize := by decide
  simp only [MemCall.origin, hexec, hn, Nat.mul_div_cancel _ hps, true_and]

theorem Traced.Sound.mmapData (h : s.Sound) {args : MmapArgs} {ans : MmapAnswers}
    {req : MmapRequest} {memMap : NaClVmmap} {a : ℕ} (hreq : req.Checked s.nap args)
    (hmap : s.nap.memMap.Reordered memMap) (hplace : req.Placed s.nap (a * naclPageSize))
    (hdata : req.mappingCode = false)
    (hrun : mmapData { s.nap with memMap } req (a * naclPageSize) (args.prot &&& ~~~protExec)
      args.offset ans = .ok (nap', .ok v)) :
    Traced.Sound ⟨nap', (MemCall.mmap args ans).origin s.origin v⟩ ∧
      ∀ p, AgreesAt s p → AgreesAt ⟨nap', (MemCall.mmap args ans).origin s.origin v⟩ p := by
  have hbits := addrBits_pow_le s.nap.space
  obtain ⟨n, k, hn, hk, hkn, hpos, hbacked⟩ := hreq.pages
  have hle := hplace.le.trans hbits
  rw [hn] at hle
  have hexec : args.prot &&& protExec = 0 := by
    by_contra hne
    have := hreq.exec_iff.2 hne
    simp [hdata] at this
  have hexec' : args.prot &&& ~~~protExec &&& protExec = 0 := by
    rw [BitVec.and_assoc, BitVec.and_comm (~~~protExec)]
    simp
  obtain ⟨hstep, hspec⟩ := mmapData_spec hmap.wellFormed hreq hexec' hn hk hkn hpos hle hrun
  obtain ⟨rfl, hbreak, hpageMap, hprot⟩ := hspec v rfl
  rw [hreq.allocRoundedLength_eq] at hn
  have horigin := MemCall.origin_mmap_data ans s.origin a hexec hn
  rw [hmap.pageMap_eq] at hpageMap
  refine h.region ?_ hstep.wellFormed ?_ (dynamicTextEnd_div_le (hplace.not_text hdata)) hpageMap
    (fun p hp => (hprot p).trans (if_neg hp)) (fun p hp => (horigin p).trans (if_neg hp))
    (fun p info hlo hhi hinfo hdesc => ?_) fun p hlo hhi _ => ?_
  · dsimp only
    rw [hstep.eq]
  · dsimp only
    rw [hbreak, hstep.eq]
    exact h.layout.dataEnd_le
  · cases hinfo
    have hoff := hreq.offset_nonneg
    refine ⟨(horigin p).trans (if_pos ⟨hlo, hhi⟩), ?_, (hreq.file hdesc).1⟩
    have : (0 : ℤ) ≤ ((p : ℤ) - a) * 2 ^ naclPageShift := by
      unfold naclPageShift
      omega
    exact add_nonneg hoff this
  · have hback := hbacked (p - a) (by omega)
    have hcast : (((p - a) * naclPageSize : ℕ) : ℤ) = ((p : ℤ) - a) * 2 ^ naclPageShift := by
      unfold naclPageSize naclPageShift
      omega
    rw [hcast] at hback
    have hinfo : nap'.memMap.pageMap p =
        recordedPage req a (args.prot &&& ~~~protExec) args.offset p := by
      rw [hpageMap, override, if_pos ⟨hlo, hhi⟩]
    unfold AgreesAt
    dsimp only
    rw [hprot p, if_pos ⟨hlo, hhi⟩, hinfo, recordedPage]
    refine if_congr ?_ rfl rfl
    rw [horigin p, if_pos ⟨hlo, hhi⟩, ← hback]
    omega

theorem Traced.Sound.mmap (h : s.Sound) {args : MmapArgs} {ans : MmapAnswers}
    (hrun : naclSysMmapIntern s.nap args ans = .ok (nap', .ok v)) :
    Traced.Sound ⟨nap', (MemCall.mmap args ans).origin s.origin v⟩ ∧
      ∀ p, AgreesAt s p → AgreesAt ⟨nap', (MemCall.mmap args ans).origin s.origin v⟩ p := by
  unfold naclSysMmapIntern at hrun
  split at hrun
  · cases hrun
  · next hlocked =>
    cases hrun
    cases mmapLocked_spec h.wellFormed hlocked with
    | data _ _ hreq hmap hplace hdata hrun => exact h.mmapData hreq hmap hplace hdata hrun
    | @direct req desc _ hreq hplace hcode _ hrun =>
      obtain ⟨hlo, hhi, hstart, hlen⟩ := hreq.code_range hplace hcode
      obtain ⟨sysaddr, text, free, -, hcreate, rfl, hr⟩ := mmapCodeDirect_spec hrun
      have hbits := (textStep_naclDynamicRegionCreate hcreate).bitmap
      refine h.code rfl hbits (MemCall.origin_mmap_code ans (hreq.exec_iff.1 hcode)) fun p => ?_
      cases free with
      | false => exact Or.inl rfl
      | true =>
        obtain ⟨a, ha⟩ := exists_mul_naclPageSize hstart
        obtain ⟨n, hn⟩ := exists_mul_naclPageSize hlen
        have hps : 0 < naclPageSize := by decide
        have hprot := mmapFile_prot s.nap.mem desc args.start req.length
          (protRead ||| protExec) args.offset ans.fileByte p
        rw [ha, hn, pageEnd_of_dvd, Nat.mul_div_cancel _ hps] at hprot
        simp only [if_true, ha, hn]
        rw [hprot]
        split_ifs with hin
        · refine Or.inr ⟨?_, ?_, rfl⟩
          · refine le_trans (Nat.div_le_div_right hlo) ?_
            rw [ha, Nat.mul_div_cancel _ hps]
            exact hin.1
          · refine lt_of_lt_of_le hin.2 ?_
            rw [Nat.le_div_iff_mul_le hps, Nat.add_mul, ← ha, ← hn]
            exact hhi
        · exact Or.inl rfl
  · next hlocked =>
    cases mmapLocked_spec h.wellFormed hlocked with
    | copy hreq hplace hcode heq =>
      subst heq
      unfold mmapCopy at hrun
      split at hrun
      · cases hrun
      · cases hrun
      · next hcreate =>
        unfold mmapCodeResult at hrun
        split_ifs at hrun
        cases hrun
        have htext := textStep_naclTextDyncodeCreate hcreate
        refine h.code htext.eq htext.bitmap
          (MemCall.origin_mmap_code ans (hreq.exec_iff.1 hcode)) fun p => ?_
        rcases htext.page p with hp | ⟨hlo, hhi, hp⟩
        · exact Or.inl (congrArg Page.prot hp)
        · refine Or.inr ⟨hlo, ?_, congrArg Page.prot hp⟩
          rw [← h.layout.end_eq]
          exact hhi

end Calls

/-! ## Runs -/

theorem Traced.Sound.step {s s' : Traced} {call : MemCall} (h : s.Sound) (hguard : call.Guard s)
    (hstep : s.step call = .ok s') : s'.Sound ∧ ∀ p, AgreesAt s p → AgreesAt s' p := by
  unfold Traced.step at hstep
  split at hstep
  · next hrun =>
    cases hstep
    cases call with
    | brk newBreak => exact h.brk hguard hrun
    | mmap args ans => exact h.mmap hrun
    | munmap start length host =>
      exact h.munmap (start.isLt.trans (by decide)) hrun
    | mprotect start length prot => exact h.mprotect start.isLt hguard hrun
  · cases hstep

/-- The state is sound, and the host and the map agree at `p`. -/
def SoundAt (p : ℕ) (s : Traced) : Prop := s.Sound ∧ AgreesAt s p

/-- In a run of successful calls none of which starts an `mprotect` inside a mapping of a file or
grows other memory than readable and writable, the pages agree that did at its start. -/
theorem agreesAt_of_guarded {s s' : Traced} (h : s.Sound) {calls : List MemCall}
    (hguard : Guarded Traced.step (fun s call => call.Guard s) s calls)
    (hrun : calls.foldlM Traced.step s = .ok s') (p : ℕ) (hp : AgreesAt s p) : AgreesAt s' p := by
  have hinv : SoundAt p s' := by
    refine hguard.invariant (fun t call t' ht hok hstep => ?_) ⟨h, hp⟩ hrun
    obtain ⟨hsound, hagree⟩ := ht.1.step hok hstep
    exact ⟨hsound, hagree p ht.2⟩
  exact hinv.2

def smallTraced : Traced where
  nap := { smallApp with desc := fun _ => some ⟨1, 2, readWrite_ne⟩ }
  origin _ := 0

theorem smallTraced_sound : smallTraced.Sound where
  wellFormed := smallApp_wellFormed
  layout :=
    have h := smallApp_layout
    ⟨h.start_le, h.dvd_start, h.end_eq, h.end_le, h.dataEnd_le⟩
  origin_eq p info hinfo hdesc := by
    obtain ⟨ent, he, -, rfl⟩ := smallApp_wellFormed.entries.tiles.lookup_eq_some_iff.1 hinfo
    have hnone : ∀ ent ∈ smallApp.memMap.vmentry, ent.desc = none := by decide
    exact absurd (hnone ent he) hdesc
  text p hlo hhi := by
    have hmem : (⟨0x20, 0x20, protRead ||| protExec, mapPrivate, false, none, 0, 0⟩ :
        NaClVmmapEntry) ∈ smallApp.memMap.vmentry := by decide
    have hlo : 0x20 ≤ p := hlo
    have hhi : p < 0x40 := hhi
    exact ⟨_, smallApp_wellFormed.entries.tiles.lookup_of_mem hmem ⟨hlo, hhi⟩,
      (by decide : naclProtMap (protRead ||| protExec) = protRead ||| protExec), Or.inl rfl⟩

theorem smallFile_lt : (0x10000 : ℤ) < 2 ^ 63 := by decide

/-- The answers of a file of 64 KiB, when the host maps what it is asked to. -/
def smallFile : MmapAnswers where
  fstat := .ok ⟨0x10000, true, smallFile_lt⟩
  safeForMmap := false
  hostIo := false
  scratchMap := .ok ()
  validates := false
  map := .ok ()
  munmap := .ok ()
  fileByte _ := 0
  dyncode := ⟨fun code => (false, code), false⟩

def mapTwice : MemCall :=
  .mmap ⟨0x100000, 0x20000, protReadWrite, mapFixed ||| mapPrivate, 0, 0⟩ smallFile

theorem agreesAt_of_guarded_smallTraced :
    ∃ s', [mapTwice].foldlM Traced.step smallTraced = .ok s' ∧ AgreesAt s' 0x110 := by
  have hguard : Guarded Traced.step (fun s call => call.Guard s) smallTraced [mapTwice] :=
    ⟨trivial, fun _ _ => trivial⟩
  refine ⟨_, rfl, agreesAt_of_guarded smallTraced_sound hguard rfl 0x110 rfl⟩

/-- The second half, past the end of the file, becomes accessible when it is protected alone. -/
theorem not_agreesAt_mprotect_inside :
    smallTraced.Sound ∧ AgreesAt smallTraced 0x110 ∧
      ∃ s', [mapTwice, .mprotect 0x110000 0x10000 protReadWrite].foldlM Traced.step smallTraced =
          .ok s' ∧ (s'.nap.mem.page 0x110).prot = protReadWrite ∧ ¬ AgreesAt s' 0x110 := by
  refine ⟨smallTraced_sound, rfl, _, rfl, rfl, ?_⟩
  intro h
  exact absurd (h.symm.trans rfl : protNone = protReadWrite) (by decide)

end SandboxingNaCl
