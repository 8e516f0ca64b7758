import SandboxingNaCl.Service.SysCalls
import SandboxingNaCl.Vmmap.GapSearch

/-!
# What brk answers

`NaClSysBrk` moves the break exactly when the new one is a user address at or above the end of the
initial data with no other mapping in between.  The code looks for another mapping up to the end of
the 64 KiB page of the new break; `HeapSound.gap_aligned` is the invariant of the calls under which
that is no further than the break itself.
-/

namespace SandboxingNaCl

open MachineInt PagedMemory IntervalMap Runs

def breakPage (addr : ℕ) : ℕ := (addr - 1) / naclPageSize

/-- The page of the last byte below the break is in the map. -/
def BreakMapped (nap : NaClApp) : Prop :=
  ∃ ent ∈ nap.memMap.vmentry, vmentryExtent.Covers ent (breakPage nap.breakAddr)

/-- The pages from that of the break up to a new one are in its entry or in none. -/
def BreakFree (nap : NaClApp) (newBreak : ℕ) : Prop :=
  ∃ ent ∈ nap.memMap.vmentry, vmentryExtent.Covers ent (breakPage nap.breakAddr) ∧
    ∀ page, breakPage nap.breakAddr ≤ page → page * naclPageSize < newBreak →
      ∀ b ∈ nap.memMap.vmentry, vmentryExtent.Covers b page → b = ent

/-- The pages between the breaks that are in the map already can be written to. -/
def BreakWritable (nap : NaClApp) (newBreak : ℕ) : Prop :=
  nap.breakAddr < newBreak → ∀ page, nap.breakAddr / naclPageSize ≤ page → page * naclPageSize < newBreak →
    (∃ ent ∈ nap.memMap.vmentry, vmentryExtent.Covers ent page) →
      (nap.mem.page page).prot &&& protWrite ≠ 0

def BreakAccepted (nap : NaClApp) (newBreak : ℕ) : Prop :=
  nap.dataEnd ≤ newBreak ∧ newBreak < 2 ^ nap.space.addrBits ∧
    (newBreak ≤ nap.breakAddr ∨ BreakFree nap newBreak)

/-- What a request that is met does. -/
structure BreakMoved (nap : NaClApp) (newBreak : ℕ) (nap' : NaClApp) : Prop where
  eq : nap' = { nap with memMap := nap'.memMap, mem := nap'.mem, breakAddr := newBreak }
  wellFormed : nap'.memMap.WellFormed
  keeps : ∀ page, nap.memMap.pageMap page ≠ none →
    nap'.memMap.pageMap page = nap.memMap.pageMap page
  covers : nap.breakAddr < newBreak → ∀ page, breakPage nap.breakAddr ≤ page →
    page * naclPageSize < newBreak → nap'.memMap.pageMap page ≠ none
  zero : ∀ i, nap.breakAddr ≤ i → i < newBreak → nap'.byteAt i = 0
  byte : ∀ i, ¬ (nap.breakAddr ≤ i ∧ i < newBreak) → nap'.byteAt i = nap.byteAt i

/-- What the loader establishes about the memory above the code and the calls keep: the break is a
user address, `text_shm` is mapped over the code only, and what follows a hole in the map starts at
a multiple of the allocation size. -/
structure NaClApp.HeapSound (nap : NaClApp) : Prop where
  sound : nap.Sound
  break_lt : nap.breakAddr < 2 ^ nap.space.addrBits
  not_textShm : ∀ page, nap.dynamicTextEnd / naclPageSize ≤ page → ∀ offset,
    (nap.mem.page page).object ≠ .textShm offset
  gap_aligned : ∀ page, nap.dataEnd ≤ page * naclPageSize → nap.memMap.pageMap page ≠ none →
    nap.memMap.pageMap (page - 1) = none → naclMapPageSize ∣ page * naclPageSize

section

variable {nap nap' : NaClApp} {newBreak : ℕ} {map : NaClVmmap} {ent : NaClVmmapEntry} {ix : ℕ}

theorem NaClApp.HeapSound.dataEnd_pos (h : nap.HeapSound) : 0 < nap.dataEnd := by
  obtain ⟨hstart, -, hend, hdata, -⟩ := h.sound.text.layout
  have hpos : 0 < naclTrampolineEnd := by decide
  omega

theorem NaClApp.HeapSound.breakAddr_pos (h : nap.HeapSound) : 0 < nap.breakAddr :=
  h.dataEnd_pos.trans_le h.sound.text.layout.dataEnd_le

theorem lt_mul_naclPageSize_iff {addr page : ℕ} (h : 0 < addr) :
    page * naclPageSize < addr ↔ page ≤ breakPage addr := by
  rw [breakPage, Nat.le_div_iff_mul_le (by decide)]
  omega

/-! ## A larger break -/

theorem zeroNewBreak_eq {breakAddr : ℕ} (hlt : breakAddr < newBreak)
    (hwrite : ∀ page, breakAddr / naclPageSize ≤ page → page * naclPageSize < newBreak →
      (nap.mem.page page).prot &&& protWrite ≠ 0) :
    zeroNewBreak nap breakAddr newBreak = .ok ({ nap with
      mem := nap.mem.write breakAddr newBreak fun _ => 0, breakAddr := newBreak },
      .ok newBreak) := by
  have hpermits : nap.mem.Permits (fun prot => prot &&& protWrite ≠ 0) (breakAddr / naclPageSize)
      ((newBreak + (naclPageSize - 1)) / naclPageSize) := by
    intro page hpage
    obtain ⟨hlo, hhi⟩ := List.mem_range'_1.1 hpage
    refine decide_eq_true (hwrite page hlo ?_)
    have hps : naclPageSize = 4096 := rfl
    rw [hps] at hlo hhi ⊢
    omega
  rw [zeroNewBreak, if_neg (by omega), if_neg (not_not_intro hpermits)]

theorem naclSysBrk_eq (h : nap.HeapSound) (hpnacl : nap.pnaclMode = false)
    (hdata : nap.dataEnd ≤ newBreak) (hlt : nap.breakAddr < newBreak)
    (hbits : newBreak < 2 ^ nap.space.addrBits)
    (hfind : naclVmmapFindPageIter nap.memMap (breakPage nap.breakAddr) = .ok (map, ix))
    (hix : map.vmentry[ix]? = some ent) (hmax : ent.pageNum + ent.npages ≤ maxPage) :
    naclSysBrk nap newBreak =
      if breakPage newBreak < ent.pageNum + ent.npages then
        zeroNewBreak { nap with memMap := map } nap.breakAddr newBreak
      else if map.vmentry[ix + 1]?.any
          (·.pageNum ≤ breakPage (naclRoundAllocPage newBreak)) then
        .ok ({ nap with memMap := map }, .ok nap.breakAddr)
      else
        extendBreakEntry { nap with memMap := map } ix ent
          (breakPage (naclRoundAllocPage newBreak)) newBreak := by
  have hpos := h.breakAddr_pos
  have hle := addrBits_pow_le nap.space
  have hround : naclRoundAllocPage newBreak ≤ 2 ^ 32 :=
    (alignUp_le_iff (by decide) (by unfold naclMapPageShift; omega)).2 (by omega)
  have hge : newBreak ≤ naclRoundAllocPage newBreak :=
    le_alignUp (by unfold naclMapPageShift; omega)
  have huser : naclUserToSysAddr nap.space newBreak ≠ kNaClBadAddress := by
    have := nap.space.lt
    rw [naclUserToSysAddr_of_lt (by omega) hbits, kNaClBadAddress]
    omega
  have hbreak : naclUserToSys nap.space nap.breakAddr =
      some (uadd nap.breakAddr nap.space.memStart) :=
    if_neg (by have := h.break_lt; omega)
  have hpage : ∀ addr, 0 < addr → addr ≤ 2 ^ 32 →
      usub addr 1 / 2 ^ naclPageShift = breakPage addr := by
    intro addr hpos hle
    rw [usub_eq hpos (by omega)]
    rfl
  rw [naclSysBrk, if_neg (by rw [hpnacl]; decide), if_neg huser, if_neg (not_lt.2 hdata),
    if_neg (not_le.2 hlt), hbreak]
  dsimp only
  rw [hpage _ hpos (by omega), hpage _ (by omega) (by omega), hpage _ (by omega) hround, hfind]
  dsimp only
  rw [hix]
  dsimp only
  rw [uadd_eq (hmax.trans_lt (by decide))]

/-! ## Free pages -/

theorem breakFree_iff (h : nap.memMap.WellFormed) (he : ent ∈ nap.memMap.vmentry)
    (hcov : vmentryExtent.Covers ent (breakPage nap.breakAddr)) :
    BreakFree nap newBreak ↔ ∀ page, breakPage nap.breakAddr ≤ page →
      page * naclPageSize < newBreak →
        ∀ b ∈ nap.memMap.vmentry, vmentryExtent.Covers b page → b = ent := by
  constructor
  · rintro ⟨ent', he', hcov', hfree⟩
    rwa [h.entries.tiles.eq_of_covers he' he hcov' hcov] at hfree
  · exact fun hfree => ⟨ent, he, hcov, hfree⟩

theorem breakFree_of_inside (h : nap.memMap.WellFormed) (he : ent ∈ nap.memMap.vmentry)
    (hcov : vmentryExtent.Covers ent (breakPage nap.breakAddr)) (hpos : 0 < newBreak)
    (hin : breakPage newBreak < ent.pageNum + ent.npages) : BreakFree nap newBreak := by
  refine (breakFree_iff h he hcov).2 fun page hlo hhi b hb hbcov => ?_
  have hpage := (lt_mul_naclPageSize_iff hpos).1 hhi
  exact h.entries.tiles.eq_of_covers hb he hbcov ⟨hcov.1.trans hlo, hpage.trans_lt hin⟩

theorem NaClVmmap.InOrder.end_le_next {next : NaClVmmapEntry} (hord : map.InOrder)
    (hix : map.vmentry[ix]? = some ent) (hnext : map.vmentry[ix + 1]? = some next) :
    ent.pageNum + ent.npages ≤ next.pageNum := by
  obtain ⟨hlt, rfl⟩ := List.getElem?_eq_some_iff.1 hix
  obtain ⟨hlt', rfl⟩ := List.getElem?_eq_some_iff.1 hnext
  exact List.pairwise_iff_getElem.1 hord ix (ix + 1) hlt hlt' (Nat.lt_succ_self ix)

theorem next_le_of_covers (hwf : map.WellFormed) (hord : map.InOrder)
    (hix : map.vmentry[ix]? = some ent) {b : NaClVmmapEntry} {page : ℕ} (hb : b ∈ map.vmentry)
    (hbcov : vmentryExtent.Covers b page) (hpast : ent.pageNum + ent.npages ≤ page) :
    ∃ next, map.vmentry[ix + 1]? = some next ∧ next.pageNum ≤ page := by
  have he := List.mem_of_getElem? hix
  have hne : b ≠ ent := by
    rintro rfl
    exact absurd hbcov.2 (not_lt.2 hpast)
  have hstart : ent.pageNum ≤ b.pageNum := by
    rcases hwf.entries.tiles.apart.forall hb he hne with hapart | hapart
    · have hpos := hwf.entries.tiles.lt ent he
      have hend := hbcov.2
      simp only [vmentryExtent_lo, vmentryExtent_hi] at hapart hpos hend
      omega
    · exact (Nat.le_add_right _ _).trans hapart
  have hmem := (hord.mem_drop_iff hwf hix).2 ⟨hb, hstart⟩
  obtain ⟨hlt, rfl⟩ := List.getElem?_eq_some_iff.1 hix
  rw [List.drop_eq_getElem_cons hlt] at hmem
  have hmem := (List.mem_cons.1 hmem).resolve_left hne
  cases hnext : map.vmentry[ix + 1]? with
  | none =>
    rw [List.drop_eq_nil_of_le (List.getElem?_eq_none_iff.1 hnext)] at hmem
    cases hmem
  | some next =>
    have hle := ((hord.mem_drop_iff hwf hnext).1 hmem).2
    exact ⟨next, rfl, hle.trans hbcov.1⟩

theorem le_breakPage_naclRoundAllocPage (hpos : 0 < newBreak) (hle : newBreak < 2 ^ 32) {page : ℕ}
    (hpage : naclMapPageSize ∣ page * naclPageSize) :
    page ≤ breakPage (naclRoundAllocPage newBreak) ↔ page ≤ breakPage newBreak := by
  have hge : newBreak ≤ naclRoundAllocPage newBreak :=
    le_alignUp (by unfold naclMapPageShift; omega)
  rw [← lt_mul_naclPageSize_iff (by omega), ← lt_mul_naclPageSize_iff hpos, ← not_le, ← not_le]
  exact not_congr (alignUp_le_iff hpage (by unfold naclMapPageShift; omega))

/-- Up to the end of the 64 KiB page the next entry starts later exactly when the pages up to the new
break are free. -/
theorem breakFree_iff_next (h : nap.HeapSound) (hmap : nap.memMap.Reordered map)
    (hord : map.InOrder) (hix : map.vmentry[ix]? = some ent)
    (hcov : vmentryExtent.Covers ent (breakPage nap.breakAddr)) (hpos : 0 < newBreak)
    (hle : newBreak < 2 ^ 32) (hout : ent.pageNum + ent.npages ≤ breakPage newBreak) :
    BreakFree nap newBreak ↔ ¬ map.vmentry[ix + 1]?.any
      (·.pageNum ≤ breakPage (naclRoundAllocPage newBreak)) := by
  have hwf := hmap.wellFormed
  have hmem : ∀ b, b ∈ map.vmentry ↔ b ∈ nap.memMap.vmentry := fun b => hmap.perm.mem_iff
  have he := (hmem ent).1 (List.mem_of_getElem? hix)
  have hge : newBreak ≤ naclRoundAllocPage newBreak :=
    le_alignUp (by unfold naclMapPageShift; omega)
  have hmono : breakPage newBreak ≤ breakPage (naclRoundAllocPage newBreak) :=
    Nat.div_le_div_right (by omega)
  rw [breakFree_iff h.sound.wellFormed he hcov]
  constructor
  · intro hfree hany
    obtain ⟨next, hnext, hnextLe⟩ := (Option.any_eq_true _ _).1 hany
    have hnextLe := of_decide_eq_true hnextLe
    have hnextMem := List.mem_of_getElem? hnext
    have hafter := hord.end_le_next hix hnext
    have hentPos := hwf.entries.tiles.lt ent ((hmem ent).2 he)
    have hnextPos := hwf.entries.tiles.lt next hnextMem
    simp only [vmentryExtent_lo, vmentryExtent_hi] at hentPos hnextPos
    have hcovHi : breakPage nap.breakAddr < ent.pageNum + ent.npages := hcov.2
    have hnextCov : vmentryExtent.Covers next next.pageNum := ⟨le_rfl, hnextPos⟩
    by_cases hin : next.pageNum ≤ breakPage newBreak
    · -- the next entry starts below the new break
      have heq := hfree next.pageNum (by omega) ((lt_mul_naclPageSize_iff hpos).2 hin) next
        ((hmem next).1 hnextMem) hnextCov
      rw [heq] at hafter
      omega
    · -- it starts after a hole, so at a multiple of the allocation size
      have hhole : nap.memMap.pageMap (next.pageNum - 1) = none := by
        refine Extent.lookup_eq_none_iff.2 fun b hb hbcov => ?_
        obtain ⟨next', hnext', hle'⟩ := next_le_of_covers hwf hord hix ((hmem b).2 hb) hbcov
          (by omega)
        rw [hnext] at hnext'
        cases hnext'
        omega
      have hcovered : nap.memMap.pageMap next.pageNum ≠ none := fun hnone =>
        Extent.lookup_eq_none_iff.1 hnone next ((hmem next).1 hnextMem) hnextCov
      have hdata : nap.dataEnd ≤ next.pageNum * naclPageSize :=
        h.sound.text.layout.dataEnd_le.trans <| not_lt.1 fun hlt => by
          have := (lt_mul_naclPageSize_iff h.breakAddr_pos).1 hlt
          omega
      have hdvd := h.gap_aligned _ hdata hcovered hhole
      exact hin ((le_breakPage_naclRoundAllocPage hpos hle hdvd).1 hnextLe)
  · intro hnone page hlo hhi b hb hbcov
    by_contra hne
    have hpage := (lt_mul_naclPageSize_iff hpos).1 hhi
    have hpast : ent.pageNum + ent.npages ≤ page := by
      by_contra hlt
      exact hne (h.sound.wellFormed.entries.tiles.eq_of_covers hb he hbcov
        ⟨hcov.1.trans hlo, not_le.1 hlt⟩)
    obtain ⟨next, hnext, hle'⟩ := next_le_of_covers hwf hord hix ((hmem b).2 hb) hbcov hpast
    rw [hnext, Option.any_some, decide_eq_true_iff] at hnone
    omega

theorem breakPage_naclRoundAllocPage (hpos : 0 < newBreak) (hle : newBreak ≤ 2 ^ 32) :
    breakPage newBreak ≤ breakPage (naclRoundAllocPage newBreak) ∧
      breakPage (naclRoundAllocPage newBreak) < maxPage := by
  have hge : newBreak ≤ naclRoundAllocPage newBreak :=
    le_alignUp (by unfold naclMapPageShift; omega)
  have hround : naclRoundAllocPage newBreak ≤ 2 ^ 32 :=
    (alignUp_le_iff (by decide) (by unfold naclMapPageShift; omega)).2 hle
  refine ⟨Nat.div_le_div_right (by omega), ?_⟩
  unfold breakPage maxPage naclPageSize naclPageShift
  omega

theorem extendBreakEntry_eq {last : ℕ} (hpos : 0 < ent.pageNum + ent.npages)
    (hge : ent.pageNum + ent.npages ≤ last) (hmax : last < maxPage)
    (huser : (ent.pageNum + ent.npages) * naclPageSize < 2 ^ nap.space.addrBits)
    (hlt : nap.breakAddr < newBreak) (hlast : breakPage newBreak ≤ last)
    (hwrite : ∀ page, nap.breakAddr / naclPageSize ≤ page → page * naclPageSize < newBreak →
      page < ent.pageNum + ent.npages → (nap.mem.page page).prot &&& protWrite ≠ 0) :
    extendBreakEntry nap ix ent last newBreak = .ok ({ nap with
      breakAddr := newBreak
      memMap := nap.memMap.extend ix ent last
      mem := (nap.mem.mprotect (ent.pageNum + ent.npages) (last + 1) protReadWrite).write
        nap.breakAddr newBreak fun _ => 0 }, .ok newBreak) := by
  have hps : 0 < naclPageSize := by decide
  have hpage : 2 ^ naclPageShift = naclPageSize := rfl
  unfold maxPage at hmax
  have hstart : ushl (uadd ent.pageNum ent.npages) naclPageShift =
      (ent.pageNum + ent.npages) * naclPageSize := by
    rw [uadd_eq (by omega)]
    exact ushl_eq (by unfold naclPageShift; omega)
  have hnpages : uadd (usub last ent.pageNum) 1 = last + 1 - ent.pageNum := by
    rw [usub_eq (by omega) (by omega), uadd_eq (by omega)]
    omega
  have hsys : naclUserToSys nap.space ((ent.pageNum + ent.npages) * naclPageSize) =
      some (uadd ((ent.pageNum + ent.npages) * naclPageSize) nap.space.memStart) := by
    have := Nat.mul_pos hpos hps
    exact if_neg (by omega)
  unfold extendBreakEntry
  dsimp only
  rw [hstart, hsys, hnpages, Nat.mul_div_cancel _ hps]
  refine zeroNewBreak_eq hlt fun page hlo hhi => ?_
  have hpage := (lt_mul_naclPageSize_iff (by omega)).1 hhi
  dsimp only
  rw [Memory.mprotect_prot]
  split_ifs with hnew
  · decide
  · exact hwrite page hlo hhi (by omega)

/-! ## The answer -/

theorem BreakMoved.of_zeroed {memMap : NaClVmmap} {mem : Memory Backing} (h : nap.HeapSound)
    (hwf : memMap.WellFormed)
    (hkeeps : ∀ page, nap.memMap.pageMap page ≠ none →
      memMap.pageMap page = nap.memMap.pageMap page)
    (hcovers : ∀ page, breakPage nap.breakAddr ≤ page → page * naclPageSize < newBreak →
      memMap.pageMap page ≠ none)
    (hobject : ∀ page, (mem.page page).object = (nap.mem.page page).object)
    (hbyte : mem.byte = nap.mem.byte) :
    BreakMoved nap newBreak { nap with
      memMap, mem := mem.write nap.breakAddr newBreak fun _ => 0, breakAddr := newBreak } where
  eq := rfl
  wellFormed := hwf
  keeps := hkeeps
  covers _ := hcovers
  zero i hlo hhi := by
    have hpage : nap.dynamicTextEnd / naclPageSize ≤ i / naclPageSize := by
      have hlayout := h.sound.text.layout
      exact Nat.div_le_div_right ((hlayout.end_le.trans hlayout.dataEnd_le).trans hlo)
    have hplain := h.not_textShm _ hpage
    have hzero : (mem.write nap.breakAddr newBreak fun _ => 0).byte i = 0 := if_pos ⟨hlo, hhi⟩
    unfold NaClApp.byteAt
    dsimp only [Memory.write_page]
    rw [hobject, hzero]
    split
    · next hshm => exact absurd hshm (hplain _)
    · rfl
  byte i hout := by
    have hsame : (mem.write nap.breakAddr newBreak fun _ => 0).byte i = nap.mem.byte i :=
      (if_neg hout).trans (congrFun hbyte i)
    unfold NaClApp.byteAt
    dsimp only [Memory.write_page]
    rw [hobject, hsame]

theorem naclSysBrk_blocked (h : nap.HeapSound) (hpnacl : nap.pnaclMode = false)
    (hmapped : BreakMapped nap) (hdata : nap.dataEnd ≤ newBreak) (hlt : nap.breakAddr < newBreak)
    (hbits : newBreak < 2 ^ nap.space.addrBits) (hfree : ¬ BreakFree nap newBreak) :
    ∃ memMap, naclSysBrk nap newBreak = .ok ({ nap with memMap }, .ok nap.breakAddr) ∧
      nap.memMap.Reordered memMap := by
  obtain ⟨map, ix, ent, hfind, hix, hcov⟩ := naclVmmapFindPageIter_found h.sound.wellFormed hmapped
  obtain ⟨hmap, hord, -⟩ := naclVmmapFindPageIter_spec h.sound.wellFormed hfind
  have he := List.mem_of_getElem? hix
  have hpos := h.breakAddr_pos.trans hlt
  have hle := addrBits_pow_le nap.space
  rw [naclSysBrk_eq h hpnacl hdata hlt hbits hfind hix (hmap.wellFormed.entries.le_maxPage ent he)]
  by_cases hin : breakPage newBreak < ent.pageNum + ent.npages
  · exact absurd (breakFree_of_inside h.sound.wellFormed (hmap.perm.mem_iff.1 he) hcov hpos hin)
      hfree
  · rw [if_neg hin, if_pos]
    · exact ⟨map, rfl, hmap⟩
    · by_contra hnone
      exact hfree ((breakFree_iff_next h hmap hord hix hcov hpos (by omega) (not_lt.1 hin)).2 hnone)

/-- A larger break with nothing in the way is met, if the pages up to it that are in the map already
can be written to. -/
theorem naclSysBrk_grows (h : nap.HeapSound) (hpnacl : nap.pnaclMode = false)
    (hdata : nap.dataEnd ≤ newBreak) (hlt : nap.breakAddr < newBreak)
    (hbits : newBreak < 2 ^ nap.space.addrBits) (hfree : BreakFree nap newBreak)
    (hwrite : BreakWritable nap newBreak) :
    ∃ nap', naclSysBrk nap newBreak = .ok (nap', .ok newBreak) ∧ BreakMoved nap newBreak nap' := by
  have hmapped : BreakMapped nap := by
    obtain ⟨ent, he, hcov, -⟩ := hfree
    exact ⟨ent, he, hcov⟩
  obtain ⟨map, ix, ent, hfind, hix, hcov⟩ := naclVmmapFindPageIter_found h.sound.wellFormed hmapped
  obtain ⟨hmap, hord, -⟩ := naclVmmapFindPageIter_spec h.sound.wellFormed hfind
  have he := List.mem_of_getElem? hix
  have he₀ := hmap.perm.mem_iff.1 he
  have hpos := h.breakAddr_pos.trans hlt
  have hle := addrBits_pow_le nap.space
  have hmax := hmap.wellFormed.entries.le_maxPage ent he
  have htiles := hmap.wellFormed.entries.tiles
  have hbreak : breakPage nap.breakAddr ≤ nap.breakAddr / naclPageSize :=
    Nat.div_le_div_right (Nat.sub_le _ _)
  rw [naclSysBrk_eq h hpnacl hdata hlt hbits hfind hix hmax]
  by_cases hin : breakPage newBreak < ent.pageNum + ent.npages
  · -- the new break is in the entry of the old one
    have hcovers : ∀ page, breakPage nap.breakAddr ≤ page → page * naclPageSize < newBreak →
        vmentryExtent.Covers ent page := fun page hlo hhi =>
      ⟨hcov.1.trans hlo, ((lt_mul_naclPageSize_iff hpos).1 hhi).trans_lt hin⟩
    have hzero := @zeroNewBreak_eq { nap with memMap := map } newBreak nap.breakAddr hlt
      fun page hlo hhi =>
        hwrite hlt page hlo hhi ⟨ent, he₀, hcovers page (hbreak.trans hlo) hhi⟩
    rw [if_pos hin, hzero]
    refine ⟨_, rfl, BreakMoved.of_zeroed h hmap.wellFormed (fun page _ => ?_)
      (fun page hlo hhi hnone => ?_) (fun _ => rfl) rfl⟩
    · rw [hmap.pageMap_eq]
    · exact Extent.lookup_eq_none_iff.1 hnone ent he (hcovers page hlo hhi)
  · -- the entry grows
    have hout := not_lt.1 hin
    have hnone := (breakFree_iff_next h hmap hord hix hcov hpos (by omega) hout).1 hfree
    obtain ⟨last, hlast⟩ : ∃ last, last = breakPage (naclRoundAllocPage newBreak) := ⟨_, rfl⟩
    obtain ⟨hmono, hlastMax⟩ := breakPage_naclRoundAllocPage hpos (hbits.trans_le hle).le
    rw [← hlast] at hnone hmono hlastMax
    have hpast := hout.trans hmono
    have hnext : ∀ next ∈ map.vmentry[ix + 1]?, last < next.pageNum := by
      intro next hnext
      rw [Option.mem_def] at hnext
      rw [hnext, Option.any_some, decide_eq_true_iff] at hnone
      exact not_le.1 hnone
    obtain ⟨hwf', hpageMap⟩ := map.extend_spec hmap.wellFormed hord hix
      (hpast.trans (Nat.le_succ last)) hlastMax hnext
    rw [hmap.pageMap_eq] at hpageMap
    have hentPos := htiles.lt ent he
    have hextend := @extendBreakEntry_eq { nap with memMap := map } newBreak ent ix last
      (Nat.zero_lt_of_lt hentPos) hpast hlastMax
      (((lt_mul_naclPageSize_iff hpos).2 hout).trans hbits) hlt hmono fun page hlo hhi hlt' =>
        hwrite hlt page hlo hhi ⟨ent, he₀, hcov.1.trans (hbreak.trans hlo), hlt'⟩
    rw [if_neg hin, ← hlast, if_neg hnone, hextend]
    refine ⟨_, rfl, BreakMoved.of_zeroed h hwf' (fun page hpage => ?_) (fun page hlo hhi => ?_)
      (fun page => ?_) rfl⟩
    · rw [hpageMap, override, if_neg]
      rintro ⟨hlo, hhi⟩
      refine hpage (Extent.lookup_eq_none_iff.2 fun b hb hbcov => ?_)
      obtain ⟨next, hnext', hle'⟩ := next_le_of_covers hmap.wellFormed hord hix
        (hmap.perm.mem_iff.2 hb) hbcov hlo
      have := hnext next hnext'
      omega
    · rw [hpageMap, override]
      have hpage := (lt_mul_naclPageSize_iff hpos).1 hhi
      split_ifs with hnew
      · exact Option.some_ne_none _
      · exact fun hnone => Extent.lookup_eq_none_iff.1 hnone ent he₀
          ⟨hcov.1.trans hlo, by rw [vmentryExtent_hi]; omega⟩
    · simp only [Memory.mprotect]
      split_ifs <;> rfl

/-- What the call answers, and what it leaves. -/
structure BreakCorrect (nap : NaClApp) (newBreak : ℕ) : Prop where
  accepted : BreakAccepted nap newBreak → BreakWritable nap newBreak →
    ∃ nap', naclSysBrk nap newBreak = .ok (nap', .ok newBreak) ∧ BreakMoved nap newBreak nap'
  refused : ¬ BreakAccepted nap newBreak →
    ∃ memMap, naclSysBrk nap newBreak = .ok ({ nap with memMap }, .ok nap.breakAddr) ∧
      nap.memMap.Reordered memMap

theorem breakCorrect_of_heapSound (h : nap.HeapSound) (hpnacl : nap.pnaclMode = false)
    (hmapped : BreakMapped nap) (newBreak : ℕ) : BreakCorrect nap newBreak := by
  have hspace := nap.space.lt
  have hpos := h.dataEnd_pos
  have hdown : nap.dataEnd ≤ newBreak → newBreak < 2 ^ nap.space.addrBits →
      newBreak ≤ nap.breakAddr →
      naclSysBrk nap newBreak = .ok ({ nap with breakAddr := newBreak }, .ok newBreak) := by
    intro hdata hbits hle
    have huser : naclUserToSysAddr nap.space newBreak ≠ kNaClBadAddress := by
      rw [naclUserToSysAddr_of_lt (by omega) hbits, kNaClBadAddress]
      omega
    rw [naclSysBrk, if_neg (by rw [hpnacl]; decide), if_neg huser, if_neg (not_lt.2 hdata),
      if_pos hle]
  constructor
  · rintro ⟨hdata, hbits, hwhere⟩ hwrite
    by_cases hle : newBreak ≤ nap.breakAddr
    · refine ⟨_, hdown hdata hbits hle, rfl, h.sound.wellFormed, fun _ _ => rfl, fun hlt => ?_,
        fun i hlo hhi => ?_, fun _ _ => rfl⟩
      · omega
      · omega
    · exact naclSysBrk_grows h hpnacl hdata (not_le.1 hle) hbits (hwhere.resolve_left hle) hwrite
  · intro hno
    by_cases hdata : nap.dataEnd ≤ newBreak
    · by_cases hbits : newBreak < 2 ^ nap.space.addrBits
      · have hle : ¬ newBreak ≤ nap.breakAddr := fun hle => hno ⟨hdata, hbits, Or.inl hle⟩
        exact naclSysBrk_blocked h hpnacl hmapped hdata (not_le.1 hle) hbits fun hfree =>
          hno ⟨hdata, hbits, Or.inr hfree⟩
      · have huser : naclUserToSysAddr nap.space newBreak = kNaClBadAddress :=
          if_pos (Or.inr (not_lt.1 hbits))
        refine ⟨nap.memMap, ?_, .refl h.sound.wellFormed⟩
        rw [naclSysBrk, if_neg (by rw [hpnacl]; decide), if_pos huser]
    · refine ⟨nap.memMap, ?_, .refl h.sound.wellFormed⟩
      rw [naclSysBrk, if_neg (by rw [hpnacl]; decide), if_pos (not_le.1 hdata), ite_self]

/-! ## What every call does to the heap -/

/-- What a call can do to the break, to what is mapped at a page, and to the holes of the map. -/
structure HeapStep (nap nap' : NaClApp) : Prop where
  eq : nap' = { nap with
    memMap := nap'.memMap, mem := nap'.mem, breakAddr := nap'.breakAddr, text := nap'.text }
  breakAddr : nap'.breakAddr = nap.breakAddr ∨ nap'.breakAddr < 2 ^ nap.space.addrBits
  object : ∀ page offset, (nap'.mem.page page).object = .textShm offset →
    (nap.mem.page page).object = .textShm offset
  gap : ∀ page, nap'.memMap.pageMap page ≠ none → nap'.memMap.pageMap (page - 1) = none →
    naclMapPageSize ∣ page * naclPageSize ∨
      nap.memMap.pageMap page ≠ none ∧ nap.memMap.pageMap (page - 1) = none

theorem HeapStep.refl (nap : NaClApp) : HeapStep nap nap :=
  ⟨rfl, Or.inl rfl, fun _ _ h => h, fun _ h h' => Or.inr ⟨h, h'⟩⟩

theorem HeapStep.trans {nap'' : NaClApp} (h : HeapStep nap nap') (h' : HeapStep nap' nap'') :
    HeapStep nap nap'' := by
  have hspace : nap'.space = nap.space := by rw [h.eq]
  refine ⟨?_, ?_, fun page offset hshm => h.object page offset (h'.object page offset hshm),
    fun page hpage hhole => ?_⟩
  · rw [h'.eq, h.eq]
  · rcases h'.breakAddr with heq | hlt
    · rw [heq]
      exact h.breakAddr
    · exact Or.inr (hspace ▸ hlt)
  · rcases h'.gap page hpage hhole with hdvd | ⟨hpage', hhole'⟩
    · exact Or.inl hdvd
    · exact h.gap page hpage' hhole'

theorem HeapStep.of_pageMap {memMap : NaClVmmap} (hmap : memMap.pageMap = nap.memMap.pageMap) :
    HeapStep nap { nap with memMap } :=
  ⟨rfl, Or.inl rfl, fun _ _ h => h, fun page hpage hhole => Or.inr (by rw [← hmap]; exact ⟨hpage, hhole⟩)⟩

theorem HeapStep.of_erased {memMap : NaClVmmap} {s t : ℕ} (ht : naclMapPageSize ∣ t * naclPageSize)
    (hmap : memMap.pageMap = override nap.memMap.pageMap s t fun _ => none) :
    HeapStep nap { nap with memMap } := by
  refine ⟨rfl, Or.inl rfl, fun _ _ h => h, fun page hpage hhole => ?_⟩
  dsimp only at hpage hhole
  rw [hmap, override] at hpage hhole
  split_ifs at hpage with hin
  · exact absurd rfl hpage
  · by_cases hin' : s ≤ page - 1 ∧ page - 1 < t
    · have heq : page = t := by omega
      exact Or.inl (heq ▸ ht)
    · rw [if_neg hin'] at hhole
      exact Or.inr ⟨hpage, hhole⟩

/-- Recording a region that starts at a multiple of the allocation size, or where the page before it
is in the map. -/
theorem HeapStep.of_recorded {memMap : NaClVmmap} {s t : ℕ} {g : ℕ → Option PageInfo}
    (hs : naclMapPageSize ∣ s * naclPageSize ∨ 0 < s ∧ nap.memMap.pageMap (s - 1) ≠ none)
    (hg : ∀ page, s ≤ page → page < t → g page ≠ none)
    (hmap : memMap.pageMap = override nap.memMap.pageMap s t g) :
    HeapStep nap { nap with memMap } := by
  refine ⟨rfl, Or.inl rfl, fun _ _ h => h, fun page hpage hhole => ?_⟩
  dsimp only at hpage hhole
  rw [hmap, override] at hpage hhole
  split_ifs at hhole with hin'
  · exact absurd hhole (hg _ hin'.1 hin'.2)
  split_ifs at hpage with hin
  · have heq : page = s ∨ page = 0 := by omega
    rcases hs with hdvd | ⟨hpos, hprev⟩
    · rcases heq with rfl | rfl
      · exact Or.inl hdvd
      · exact Or.inl (by simp)
    · rcases heq with rfl | rfl
      · exact absurd hhole hprev
      · omega
  · exact Or.inr ⟨hpage, hhole⟩

theorem HeapStep.of_mem {mem : Memory Backing} (hobject : ∀ page offset,
    (mem.page page).object = .textShm offset → (nap.mem.page page).object = .textShm offset) :
    HeapStep nap { nap with mem } :=
  ⟨rfl, Or.inl rfl, hobject, fun _ hpage hhole => Or.inr ⟨hpage, hhole⟩⟩

theorem HeapStep.of_textStep (h : TextStep nap nap') : HeapStep nap nap' := by
  have hmap : nap'.memMap = nap.memMap := by rw [h.eq]
  have hbreak : nap'.breakAddr = nap.breakAddr := by rw [h.eq]
  refine ⟨?_, Or.inl hbreak, fun page offset hshm => ?_, fun page hpage hhole => ?_⟩
  · rw [hmap, hbreak]
    exact h.eq
  · rcases h.page page with hpage | ⟨-, -, hpage⟩
    · rwa [hpage] at hshm
    · rwa [hpage] at hshm
  · rw [hmap] at hpage hhole
    exact Or.inr ⟨hpage, hhole⟩

/-! ## The memory calls -/

theorem object_mmap {mem : Memory Backing} {a b : ℕ} {prot : BitVec 32} {object : ℕ → Backing}
    {contents : ℕ → UInt8} (hobject : ∀ page offset, object page ≠ .textShm offset) {page offset : ℕ}
    (hshm : ((mem.mmap naclPageSize a b prot object contents).page page).object = .textShm offset) :
    (mem.page page).object = .textShm offset := by
  simp only [Memory.mmap] at hshm
  split_ifs at hshm with hin
  · exact absurd hshm (hobject page offset)
  · exact hshm

theorem heapStep_munmapInternal {r : SysResult} {s n : ℕ} {host : Except NaClAbiErrno Unit}
    (h : nap.memMap.WellFormed) (hpos : 0 < n)
    (hmax : s * naclPageSize + n * naclPageSize ≤ 2 ^ 32)
    (hend : naclMapPageSize ∣ (s + n) * naclPageSize)
    (hrun : munmapInternal nap (s * naclPageSize) (n * naclPageSize) host = .ok (nap', r)) :
    HeapStep nap nap' := by
  rcases munmapInternal_spec h (Nat.dvd_mul_left _ _) (Nat.dvd_mul_left _ _)
    (Nat.mul_pos hpos (by decide)) hmax hrun with ⟨rfl, -⟩ | ⟨memMap, rfl, -, hmap⟩
  · exact .refl _
  · rw [← Nat.add_mul, Nat.mul_div_cancel _ (by decide), Nat.mul_div_cancel _ (by decide)] at hmap
    refine (HeapStep.of_erased hend hmap).trans (@HeapStep.of_mem { nap with memMap } _ ?_)
    exact fun page offset => object_mmap fun _ _ h => by cases h

theorem heapStep_mmapRecord {r : SysResult} {req : MmapRequest} {s n k : ℕ} {prot : BitVec 32}
    {offset : ℤ} {munmap : Except NaClAbiErrno Unit} (h : nap.memMap.WellFormed)
    (hn : req.allocRoundedLength = n * naclPageSize) (hk : req.length = k * naclPageSize)
    (hpos : 0 < n) (hmax : s * naclPageSize + n * naclPageSize ≤ 2 ^ 32)
    (hs : naclMapPageSize ∣ s * naclPageSize) (hround : naclMapPageSize ∣ n * naclPageSize)
    (hrun : mmapRecord nap req (s * naclPageSize) prot offset munmap = .ok (nap', r)) :
    HeapStep nap nap' := by
  have hps : 0 < naclPageSize := by decide
  have hpage : 2 ^ naclPageShift = naclPageSize := rfl
  have hend : naclMapPageSize ∣ (s + n) * naclPageSize := by
    rw [Nat.add_mul]
    exact Nat.dvd_add hs hround
  unfold mmapRecord at hrun
  simp only [hn, hk, hpage, Nat.mul_div_cancel _ hps, Nat.mul_lt_mul_right hps, ← Nat.add_mul,
    ← Nat.sub_mul] at hrun
  have htail : ∀ mid r', (if k < n then
      munmapInternal nap ((s + k) * naclPageSize) ((n - k) * naclPageSize) munmap
      else .ok (nap, .ok 0)) = .ok (mid, r') → HeapStep nap mid ∧ mid.memMap.WellFormed := by
    intro mid r' hmid
    split_ifs at hmid with hlt
    · have hsum : s + k + (n - k) = s + n := by omega
      have hle : (s + k) * naclPageSize + (n - k) * naclPageSize ≤ 2 ^ 32 := by
        rw [← Nat.add_mul, hsum, Nat.add_mul]
        exact hmax
      refine ⟨heapStep_munmapInternal h (Nat.sub_pos_of_lt hlt) hle (hsum ▸ hend) hmid, ?_⟩
      exact (dataStep_munmapInternal h (Nat.sub_pos_of_lt hlt) hle le_rfl hmid).wellFormed
    · cases hmid
      exact ⟨.refl _, h⟩
  split at hrun
  · cases hrun
  · next hmid =>
    cases hrun
    exact (htail _ _ hmid).1
  · next mid v hmid =>
    obtain ⟨hstep, hwf⟩ := htail _ _ hmid
    split at hrun
    · cases hrun
    · next memMap hadd =>
      cases hrun
      obtain ⟨-, hmap⟩ := naclVmmapAddWithOverwrite_ok hwf hpos
        (maxPage_of_le hmax) hadd
      exact hstep.trans (.of_recorded (Or.inl hs) (fun _ _ _ => Option.some_ne_none _) hmap)

theorem heapStep_mmapData {r : SysResult} {req : MmapRequest} {s n k : ℕ} {prot : BitVec 32}
    {offset : ℤ} {ans : MmapAnswers} (h : nap.memMap.WellFormed)
    (hn : req.allocRoundedLength = n * naclPageSize) (hk : req.length = k * naclPageSize)
    (hpos : 0 < n) (hmax : s * naclPageSize + n * naclPageSize ≤ 2 ^ 32)
    (hs : naclMapPageSize ∣ s * naclPageSize) (hround : naclMapPageSize ∣ n * naclPageSize)
    (hrun : mmapData nap req (s * naclPageSize) prot offset ans = .ok (nap', r)) :
    HeapStep nap nap' := by
  unfold mmapData at hrun
  split_ifs at hrun
  · split at hrun
    · cases hrun
    · cases hrun
      exact .refl _
    · have hmem : HeapStep nap { nap with
          mem := mmapBacked nap.mem req (s * naclPageSize) prot offset ans.fileByte } := by
        apply HeapStep.of_mem
        intro page shm
        unfold mmapBacked
        split
        · exact object_mmap fun _ _ h => by cases h
        · exact object_mmap fun _ _ h => by cases h
      exact hmem.trans (heapStep_mmapRecord (by exact h) hn hk hpos hmax hs hround hrun)
  · exact heapStep_mmapRecord h hn hk hpos hmax hs hround hrun

theorem dvd_of_naclVmmapFindMapSpace {self memMap : NaClVmmap} {numPages page : ℕ}
    (h : self.WellFormed) (hpos : 0 < numPages) (hlt : numPages + 15 < 2 ^ 64)
    (hfind : naclVmmapFindMapSpace self numPages = .ok (memMap, page)) : naclPagesPerMap ∣ page := by
  obtain ⟨memMap', page', hfind', -, hbest⟩ := naclVmmapFindMapSpace_finds h hpos hlt
  rw [hfind] at hfind'
  cases hfind'
  by_cases hzero : page = 0
  · rw [hzero]
    exact Nat.dvd_zero _
  · exact (hbest.best hzero).1

theorem dvd_of_naclVmmapFindMapSpaceAboveHint {self memMap : NaClVmmap} {usraddr numPages page : ℕ}
    (h : self.WellFormed) (hpos : 0 < numPages) (hlt : numPages + 15 < 2 ^ 64)
    (husr : naclMapPageSize ∣ usraddr)
    (hfind : naclVmmapFindMapSpaceAboveHint self usraddr numPages = .ok (memMap, page)) :
    naclPagesPerMap ∣ page := by
  obtain ⟨memMap', page', hfind', -, hbest⟩ := naclVmmapFindMapSpaceAboveHint_finds h usraddr hpos hlt
  rw [hfind] at hfind'
  cases hfind'
  by_cases hzero : page = 0
  · rw [hzero]
    exact Nat.dvd_zero _
  · rcases (hbest.best hzero).1.2 with hdvd | heq
    · exact hdvd
    · rw [heq]
      obtain ⟨q, rfl⟩ := husr
      have hsize : naclMapPageSize * q = naclPagesPerMap * q * 2 ^ naclPageShift := by
        rw [Nat.mul_right_comm]
        rfl
      rw [hsize, Nat.mul_div_cancel _ (by decide)]
      exact Nat.dvd_mul_right _ _

theorem dvd_of_mmapFindSpace {self memMap : NaClVmmap} {usraddr len page : ℕ}
    (h : self.WellFormed) (hpos : 0 < len / 2 ^ naclPageShift) (hlt : len < 2 ^ 32)
    (husr : naclMapPageSize ∣ usraddr)
    (hfind : mmapFindSpace self usraddr len = .ok (memMap, page)) : naclPagesPerMap ∣ page := by
  have hlt' : len / 2 ^ naclPageShift + 15 < 2 ^ 64 := by
    have := Nat.div_le_self len (2 ^ naclPageShift)
    omega
  unfold mmapFindSpace at hfind
  dsimp only at hfind
  split_ifs at hfind
  · exact dvd_of_naclVmmapFindMapSpace h hpos hlt' hfind
  · split at hfind
    · cases hfind
    · next hhint =>
      exact dvd_of_naclVmmapFindMapSpace
        (reordered_of_naclVmmapFindMapSpaceAboveHint h hhint).wellFormed hpos hlt' hfind
    · next hhint =>
      cases hfind
      exact dvd_of_naclVmmapFindMapSpaceAboveHint h hpos hlt' husr hhint

theorem heapStep_mmap {r : SysResult} {args : MmapArgs} {ans : MmapAnswers}
    (h : nap.memMap.WellFormed) (hrun : naclSysMmapIntern nap args ans = .ok (nap', r)) :
    HeapStep nap nap' := by
  unfold naclSysMmapIntern at hrun
  split at hrun
  · cases hrun
  · next hlocked =>
    cases hrun
    cases mmapLocked_spec h hlocked with
    | refused hmap heq =>
      subst heq
      exact .of_pageMap hmap.pageMap_eq
    | @data req memMap s r hargs hat hreq hmap hplace hdata hrun =>
      have hbits := addrBits_pow_le nap.space
      obtain ⟨n, k, hn, hk, -, hpos, -⟩ := hreq.pages
      have hle := hplace.le.trans hbits
      have hround : naclMapPageSize ∣ n * naclPageSize := by
        rw [← hn, hreq.allocRoundedLength_eq]
        exact dvd_alignUp _ _
      rw [hn] at hle
      have hs : naclMapPageSize ∣ s * naclPageSize := by
        have hstart : naclMapPageSize ∣ req.usraddr := by
          rw [hreq.usraddr_eq]
          exact dvd_alignDown _ _
        rcases hat with ⟨-, heq⟩ | ⟨-, map', usrpage, hfind, heq⟩
        · exact heq ▸ hstart
        · obtain ⟨q, rfl⟩ := dvd_of_mmapFindSpace h (by
            rw [hn]
            exact hpos.trans_eq (Nat.mul_div_cancel n (Nat.two_pow_pos _)).symm) hreq.lt hstart hfind
          rw [heq, ushl, Nat.mul_right_comm]
          exact (Nat.dvd_mod_iff (by decide)).2 (Nat.dvd_mul_right _ q)
      refine (HeapStep.of_pageMap hmap.pageMap_eq).trans ?_
      exact heapStep_mmapData hmap.wellFormed hn hk hpos hle hs hround hrun
    | direct hreq hplace hcode hvalid hrun =>
      obtain ⟨sysaddr, text, free, -, -, rfl, -⟩ := mmapCodeDirect_spec hrun
      refine ⟨rfl, Or.inl rfl, fun page offset hshm => ?_, fun _ hpage hhole =>
        Or.inr ⟨hpage, hhole⟩⟩
      dsimp only at hshm
      split_ifs at hshm
      · exact object_mmap (fun _ _ h => by cases h) hshm
      · exact hshm
  · next hlocked =>
    cases mmapLocked_spec h hlocked with
    | copy hreq hplace hcode heq =>
      subst heq
      unfold mmapCopy at hrun
      split at hrun
      · cases hrun
      · next hcreate =>
        cases hrun
        exact .of_textStep (textStep_naclTextDyncodeCreate hcreate)
      · next hcreate =>
        unfold mmapCodeResult at hrun
        split_ifs at hrun
        cases hrun
        exact .of_textStep (textStep_naclTextDyncodeCreate hcreate)

theorem heapStep_munmap {r : SysResult} {start length : ℕ} {host : Except NaClAbiErrno Unit}
    (h : nap.memMap.WellFormed) (hlt : start < 2 ^ 64)
    (hrun : naclSysMunmap nap start length host = .ok (nap', r)) : HeapStep nap nap' := by
  unfold naclSysMunmap at hrun
  dsimp only at hrun
  split_ifs at hrun with hmul hzero hbad htext hio
  · cases hrun
    exact .refl _
  · cases hrun
    exact .refl _
  · cases hrun
    exact .refl _
  · cases hrun
    exact .refl _
  · rw [Bool.not_eq_true, Bool.not_eq_false'] at hmul
    have hstart : naclMapPageSize ∣ start := dvd_of_naclIsAllocPageMultiple hmul
    have hround : naclMapPageSize ∣ naclRoundAllocPage length % 2 ^ 32 :=
      (Nat.dvd_mod_iff (by decide)).2 (dvd_alignUp _ _)
    have hsmall : naclRoundAllocPage length % 2 ^ 32 < 2 ^ 32 := Nat.mod_lt _ (by decide)
    obtain ⟨s, rfl⟩ := exists_mul_naclPageSize (naclPageSize_dvd hstart)
    obtain ⟨n, hn⟩ := exists_mul_naclPageSize (naclPageSize_dvd hround)
    rw [hn] at hzero hbad hrun hround hsmall
    have hle := (naclUserToSysAddrRange_spec hlt (hsmall.trans (by decide)) hbad).2.1
    refine heapStep_munmapInternal h (Nat.pos_of_ne_zero fun hn => hzero (by rw [hn, Nat.zero_mul]))
      (hle.trans (addrBits_pow_le nap.space)) ?_ hrun
    rw [Nat.add_mul]
    exact Nat.dvd_add hstart hround

theorem heapStep_mprotect {r : SysResult} {start length : ℕ} {prot : BitVec 32}
    (h : nap.memMap.WellFormed) (hlt : start < 2 ^ 32)
    (hrun : naclSysMprotectInternal nap start length prot = .ok (nap', r)) :
    HeapStep nap nap' := by
  have hmul : naclIsAllocPageMultiple start = false → ∃ errno, r = .error errno := by
    intro hmul
    rw [naclSysMprotectInternal, hmul] at hrun
    cases hrun
    exact ⟨_, rfl⟩
  rcases naclSysMprotectInternal_spec h hlt hrun with
    ⟨memMap, rfl, -, hmap, -⟩ | ⟨s, n, rfl, -, rfl, hdone⟩
  · exact .of_pageMap hmap
  · have hs : naclMapPageSize ∣ s * naclPageSize := by
      refine dvd_of_naclIsAllocPageMultiple ?_
      by_contra hno
      obtain ⟨errno, herror⟩ := hmul (Bool.eq_false_iff.2 hno)
      cases herror
    have hcovered : ∀ page, s ≤ page → page < s + n → nap'.memMap.pageMap page ≠ none := by
      intro page hlo hhi hnone
      obtain ⟨ent, he, hcov⟩ := hdone.split.covers page hlo hhi
      exact Extent.lookup_eq_none_iff.1 hnone ent he hcov
    have hbreak : nap'.breakAddr = nap.breakAddr := by rw [hdone.eq]
    refine ⟨by rw [hdone.eq], Or.inl hbreak, fun page offset hshm => ?_,
      fun page hpage hhole => ?_⟩
    · rw [hdone.page] at hshm
      split_ifs at hshm <;> exact hshm
    · by_cases hin : s ≤ page ∧ page < s + n
      · have hprev : ¬ (s ≤ page - 1 ∧ page - 1 < s + n) := fun hprev =>
          hcovered _ hprev.1 hprev.2 hhole
        have heq : page = s ∨ page = 0 := by omega
        rcases heq with rfl | rfl
        · exact Or.inl hs
        · exact Or.inl (by simp)
      · have hprev : ¬ (s ≤ page - 1 ∧ page - 1 < s + n) := fun hprev =>
          hcovered _ hprev.1 hprev.2 hhole
        rw [hdone.pageMap, override, if_neg hin] at hpage
        rw [hdone.pageMap, override, if_neg hprev] at hhole
        exact Or.inr ⟨hpage, hhole⟩

theorem naclSysBrk_breakAddr {r : SysResult} {newBreak : ℕ}
    (hrun : naclSysBrk nap newBreak = .ok (nap', r)) :
    nap'.breakAddr = nap.breakAddr ∨ nap'.breakAddr < 2 ^ nap.space.addrBits := by
  have hzero : ∀ (nap₁ : NaClApp) (breakAddr : ℕ),
      zeroNewBreak nap₁ breakAddr newBreak = .ok (nap', r) → nap'.breakAddr = newBreak :=
    fun nap₁ breakAddr hrun => by rw [zeroNewBreak_ok hrun]
  have hextend : ∀ (nap₁ : NaClApp) (ix last : ℕ) (ent : NaClVmmapEntry),
      extendBreakEntry nap₁ ix ent last newBreak = .ok (nap', r) → nap'.breakAddr = newBreak := by
    intro nap₁ ix last ent hrun
    unfold extendBreakEntry at hrun
    dsimp only at hrun
    split at hrun
    · cases hrun
    · exact hzero _ _ hrun
  unfold naclSysBrk at hrun
  by_cases hpnacl : nap.pnaclMode = true
  · rw [if_pos hpnacl] at hrun
    cases hrun
    exact Or.inl rfl
  rw [if_neg hpnacl] at hrun
  by_cases hbad : naclUserToSysAddr nap.space newBreak = kNaClBadAddress
  · rw [if_pos hbad] at hrun
    cases hrun
    exact Or.inl rfl
  have hlt : newBreak < 2 ^ nap.space.addrBits := by
    by_contra hge
    exact hbad (if_pos (Or.inr (not_lt.1 hge)))
  suffices h : nap'.breakAddr = nap.breakAddr ∨ nap'.breakAddr = newBreak from
    h.imp_right fun heq => heq.trans_lt hlt
  rw [if_neg hbad] at hrun
  split_ifs at hrun
  · cases hrun
    exact Or.inl rfl
  · cases hrun
    exact Or.inr rfl
  · split at hrun
    · cases hrun
    · dsimp only at hrun
      split at hrun
      · cases hrun
      · split at hrun
        · cases hrun
        · split_ifs at hrun
          · exact Or.inr (hzero _ _ hrun)
          · cases hrun
            exact Or.inl rfl
          · exact Or.inr (hextend _ _ _ _ hrun)

theorem heapStep_brk {r : SysResult} {newBreak : ℕ} (h : nap.memMap.WellFormed)
    (hrun : naclSysBrk nap newBreak = .ok (nap', r)) : HeapStep nap nap' := by
  have hbreak := naclSysBrk_breakAddr hrun
  cases brkStep_naclSysBrk h hrun with
  | kept hmap _ heq =>
    subst heq
    exact ⟨rfl, hbreak, fun _ _ hshm => hshm, (HeapStep.of_pageMap hmap.pageMap_eq).gap⟩
  | bumped hmap _ heq =>
    subst heq
    exact ⟨rfl, hbreak, fun _ _ hshm => hshm, (HeapStep.of_pageMap hmap.pageMap_eq).gap⟩
  | @extended memMap ix last ent hmap hord hix hpos hcov hlt hend hge hmax hnext _ heq =>
    subst heq
    obtain ⟨-, hpageMap⟩ := memMap.extend_spec hmap.wellFormed hord hix
      (hge.trans (Nat.le_succ last)) hmax hnext
    rw [hmap.pageMap_eq] at hpageMap
    have hentPos := hmap.wellFormed.entries.tiles.lt ent (List.mem_of_getElem? hix)
    simp only [vmentryExtent_lo, vmentryExtent_hi] at hentPos
    have hprev : nap.memMap.pageMap (ent.pageNum + ent.npages - 1) ≠ none := fun hnone =>
      Extent.lookup_eq_none_iff.1 hnone ent (hmap.perm.mem_iff.1 (List.mem_of_getElem? hix))
        ⟨by rw [vmentryExtent_lo]; omega, by rw [vmentryExtent_hi]; omega⟩
    refine ⟨rfl, hbreak, fun page offset hshm => ?_, (HeapStep.of_recorded
      (Or.inr ⟨by omega, hprev⟩) (fun _ _ _ => Option.some_ne_none _) hpageMap).gap⟩
    simp only [Memory.write_page, Memory.mprotect] at hshm
    split_ifs at hshm <;> exact hshm

theorem heapStep_of_step {call : SysCall} (h : nap.Sound) (hstep : call.step nap = .ok nap') :
    HeapStep nap nap' := by
  unfold SysCall.step at hstep
  split at hstep
  · cases hstep
  · next hrun =>
    cases hstep
    cases call with
    | mem call =>
      cases call with
      | brk newBreak => exact heapStep_brk h.wellFormed hrun
      | mmap args ans => exact heapStep_mmap h.wellFormed hrun
      | munmap start length host =>
        exact heapStep_munmap h.wellFormed (start.isLt.trans (by decide)) hrun
      | mprotect start length prot => exact heapStep_mprotect h.wellFormed start.isLt hrun
    | dyncodeCreate dest src size ans =>
      have hcreate : naclSysDyncodeCreate nap dest.toNat src.toNat size.toNat ans = _ := hrun
      unfold naclSysDyncodeCreate at hcreate
      split_ifs at hcreate
      · cases hcreate
        exact .refl _
      · cases hcreate
        exact .refl _
      · exact .of_textStep (textStep_naclTextDyncodeCreate hcreate)
    | dyncodeDelete natp dest size shmMap =>
      exact .of_textStep (textStep_naclSysDyncodeDelete hrun)
    | textDyncodeCreate dest codeCopy size ans =>
      exact .of_textStep (textStep_naclTextDyncodeCreate hrun)

theorem NaClApp.HeapSound.step {call : SysCall} (h : nap.HeapSound)
    (hstep : call.step nap = .ok nap') : nap'.HeapSound := by
  have hheap := heapStep_of_step h.sound hstep
  have hspace : nap'.space = nap.space := by rw [hheap.eq]
  have hdata : nap'.dataEnd = nap.dataEnd := by rw [hheap.eq]
  have htext : nap'.dynamicTextEnd = nap.dynamicTextEnd := by rw [hheap.eq]
  refine ⟨h.sound.step hstep, ?_, fun page hpage offset hshm => ?_, fun page hpage hcov hhole => ?_⟩
  · rw [hspace]
    rcases hheap.breakAddr with heq | hlt
    · exact heq ▸ h.break_lt
    · exact hlt
  · rw [htext] at hpage
    exact h.not_textShm page hpage offset (hheap.object page offset hshm)
  · rw [hdata] at hpage
    rcases hheap.gap page hcov hhole with hdvd | ⟨hcov, hhole⟩
    · exact hdvd
    · exact h.gap_aligned page hpage hcov hhole

/-- In every state that runs of calls reach, `NaClSysBrk` moves the break exactly when the new one is
free, and then keeps the map disjoint, covers what it has added and zeroes it. -/
theorem breakCorrect_of_run (h : nap.HeapSound) (calls : List SysCall)
    (hrun : calls.foldlM SysCall.step nap = .ok nap') (hpnacl : nap'.pnaclMode = false)
    (hmapped : BreakMapped nap') (newBreak : ℕ) : BreakCorrect nap' newBreak := by
  have hsound : nap'.HeapSound :=
    Runs.invariant (fun s _ _ (h : s.HeapSound) hstep => h.step hstep) h hrun
  exact breakCorrect_of_heapSound hsound hpnacl hmapped newBreak

end

/-- The entry of `smallApp` that holds its data. -/
def smallHeap : NaClVmmapEntry := ⟨0x40, 0x10, protRead ||| protWrite, mapPrivate, false, none, 0, 0⟩

theorem smallHeap_or : ∀ ent ∈ smallApp.memMap.vmentry,
    ent = smallHeap ∨ ent.pageNum + ent.npages ≤ 0x40 := by decide

theorem smallApp_heapSound : smallApp.HeapSound where
  sound := by
    obtain ⟨h₁, h₂, h₃, h₄, h₅⟩ := smallApp_layout
    exact ⟨⟨⟨h₁, h₂, h₃, h₄, h₅⟩, smallApp_textSound.end_lt, nofun⟩, smallApp_wellFormed⟩
  break_lt := by decide
  not_textShm page hpage offset hshm := by
    have hpage : 0x40 ≤ page := hpage
    simp only [smallApp] at hshm
    split_ifs at hshm with h₁ h₂
    all_goals omega
  gap_aligned page hpage hcov _ := by
    refine absurd (Extent.lookup_eq_none_iff.2 fun ent he hin => ?_) hcov
    have hpage : 0x50000 ≤ page * 4096 := hpage
    have hlt : page < ent.pageNum + ent.npages := hin.2
    rcases smallHeap_or ent he with rfl | hend
    · have hheap : smallHeap.pageNum + smallHeap.npages = 0x50 := rfl
      omega
    · omega

theorem smallApp_breakMapped : BreakMapped smallApp := ⟨smallHeap, by decide, by decide⟩

theorem smallApp_breakAccepted : BreakAccepted smallApp 0x51000 := by
  refine ⟨by decide, by decide, Or.inr ⟨smallHeap, by decide, by decide, fun page hpage _ b hb hcov =>
    ?_⟩⟩
  have hpage : 0x4f ≤ page := hpage
  have hlt : page < b.pageNum + b.npages := hcov.2
  rcases smallHeap_or b hb with rfl | hend
  · rfl
  · omega

theorem smallApp_breakWritable : BreakWritable smallApp 0x51000 := by
  rintro - page hpage - ⟨ent, he, hcov⟩
  have hpage : 0x50 ≤ page := hpage
  have hlt : page < ent.pageNum + ent.npages := hcov.2
  rcases smallHeap_or ent he with rfl | hend
  · have hheap : smallHeap.pageNum + smallHeap.npages = 0x50 := rfl
    omega
  · omega

/-- The break moved up one page, and then asked to move two more. -/
theorem breakCorrect_of_run_smallApp : ∃ nap',
    [SysCall.mem (.brk 0x51000)].foldlM SysCall.step smallApp = .ok nap' ∧
      BreakCorrect nap' 0x53000 := by
  obtain ⟨nap', hbrk, hmoved⟩ := (breakCorrect_of_heapSound smallApp_heapSound rfl
    smallApp_breakMapped 0x51000).accepted smallApp_breakAccepted smallApp_breakWritable
  have hrun : [SysCall.mem (.brk 0x51000)].foldlM SysCall.step smallApp = .ok nap' := by
    rw [List.foldlM_cons, SysCall.step, SysCall.run, MemCall.run, hbrk]
    rfl
  have hbreak : nap'.breakAddr = 0x51000 := by rw [hmoved.eq]
  have hmapped : BreakMapped nap' := by
    have hcov := hmoved.covers (by decide) 0x50 (by decide) (by decide)
    by_contra hno
    refine hcov (Extent.lookup_eq_none_iff.2 fun ent he hin => hno ⟨ent, he, ?_⟩)
    rwa [hbreak]
  refine ⟨nap', hrun, breakCorrect_of_run smallApp_heapSound _ hrun ?_ hmapped _⟩
  rw [hmoved.eq]
  rfl

/-- `smallApp` with a break inside the last page of its data, which is read-only. -/
def readOnlyHeap : NaClApp :=
  { smallApp with
    dataEnd := 0x4f800
    breakAddr := 0x4f800
    mem := smallApp.mem.mprotect 0x4f 0x50 protRead }

/-- In PNaCl mode the call is an error; the pages the loader has left free below the break stay free;
and a page of the heap that cannot be written to brings the process down. -/
theorem not_breakCorrect :
    naclSysBrk { smallApp with pnaclMode := true } 0x50000 =
        .ok ({ smallApp with pnaclMode := true }, .error .enosys) ∧
      (∃ nap', naclSysBrk smallApp 0x51000 = .ok (nap', .ok 0x51000) ∧
        nap'.memMap.pageMap 0 = none) ∧
      naclSysBrk readOnlyHeap 0x4f900 = .error .badAccess :=
  ⟨rfl, ⟨_, rfl, by decide⟩, rfl⟩

end SandboxingNaCl
