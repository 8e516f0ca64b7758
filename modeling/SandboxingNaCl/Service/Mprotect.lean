import SandboxingNaCl.Service.SysMemoryEffects

/-!
# mprotect

What `NaClSysMprotectInternal` does to the pages and when it returns at all.  Once
`NaClVmmapChangeProt` has accepted a region that is not empty, every entry lies inside the region or
apart from it and the entries cover it; this is what the `CHECK`s of `MprotectInternal` rest on.  On
an empty region they fail.
-/

namespace SandboxingNaCl

open MachineInt PagedMemory IntervalMap

/-! ## The map after a change of protection -/

/-- Every entry lies inside `[s, t)` or apart from it, and the entries cover it. -/
structure NaClVmmap.SplitAt (map : NaClVmmap) (s t : ℕ) : Prop where
  inside_or_apart : ∀ ent ∈ map.vmentry,
    (s ≤ ent.pageNum ∧ ent.pageNum + ent.npages ≤ t) ∨
      ent.pageNum + ent.npages ≤ s ∨ t ≤ ent.pageNum
  covers : ∀ page, s ≤ page → page < t → ∃ ent ∈ map.vmentry, vmentryExtent.Covers ent page

section

variable {self map map' : NaClVmmap} {pageNum npages s t : ℕ} {prot : BitVec 32}

theorem NaClVmmap.SplitAt.perm (h : map.SplitAt s t) (hperm : map'.vmentry.Perm map.vmentry) :
    map'.SplitAt s t where
  inside_or_apart ent he := h.inside_or_apart ent (hperm.mem_iff.1 he)
  covers page hlo hhi := by
    obtain ⟨ent, he, hcov⟩ := h.covers page hlo hhi
    exact ⟨ent, hperm.mem_iff.2 he, hcov⟩

theorem splitAt_of_naclVmmapChangeProt (h : self.WellFormed) (hr : pageNum + npages < 2 ^ 64)
    (hpos : 0 < npages)
    (hcheck : naclVmmapCheckExistingMapping self pageNum npages prot = .ok (true, map))
    (hrun : naclVmmapChangeProt self pageNum npages prot = .ok (1, map')) :
    map'.SplitAt pageNum (pageNum + npages) := by
  obtain ⟨map'', hrun', -, hperm⟩ := naclVmmapChangeProt_perm h hr hpos hcheck
  rw [hrun] at hrun'
  cases hrun'
  constructor
  · intro ent he
    rcases List.mem_append.1 (hperm.mem_iff.1 he) with he | he
    · exact Or.inr (Extent.apart_of_mem_carve he)
    · exact Or.inl (flatMap_changedPiece_bounds he)
  · intro page hlo hhi
    obtain ⟨ok, map₀, hcheck', hwf, hsame, hok⟩ :=
      naclVmmapCheckExistingMapping_spec h pageNum npages prot
    rw [hcheck] at hcheck'
    cases hcheck'
    have hloop := (hok rfl).2
    rw [uadd_eq hr] at hloop
    obtain ⟨ent, he, hcov⟩ := covers_of_check hwf.entries pageNum hloop page hlo hhi
    have he := hsame.mem_iff.1 he
    have hlt : max ent.pageNum pageNum < min (ent.pageNum + ent.npages) (pageNum + npages) := by
      obtain ⟨h₁, h₂⟩ := hcov
      rw [vmentryExtent_lo] at h₁
      rw [vmentryExtent_hi] at h₂
      omega
    have hpiece : changedPiece prot pageNum (pageNum + npages) ent = [_] := if_pos hlt
    refine ⟨_, hperm.mem_iff.2 (List.mem_append_right _
      (List.mem_flatMap.2 ⟨ent, he, hpiece ▸ List.mem_singleton_self _⟩)), ?_⟩
    obtain ⟨h₁, h₂⟩ := hcov
    simp only [Extent.Covers, vmentryExtent_lo, vmentryExtent_hi, naclVmmapEntryMake] at h₁ h₂ ⊢
    omega

end

/-! ## The loop over the entries -/

/-- The memory once the pages of each entry in turn have been protected. -/
def protectEntries (hostProt : BitVec 32) (l : List NaClVmmapEntry) (mem : Memory Backing) :
    Memory Backing :=
  l.foldl (fun mem ent => mem.mprotect ent.pageNum (ent.pageNum + mprotectPages ent) hostProt) mem

section Loop

variable {hostProt : BitVec 32}

/-- The entries that the loop visits are those at the front that start before the end of the region,
and it protects the pages of each. -/
theorem mprotectInternalLoop_eq (space : AddressSpace) (last : ℕ) (hostProt : BitVec 32)
    (l : List NaClVmmapEntry) (entry : NaClVmmapEntry) (mem : Memory Backing)
    (huser : ∀ ent ∈ l, ent.pageNum < last →
      0 < ent.pageNum ∧ ent.pageNum * naclPageSize < 2 ^ space.addrBits) :
    mprotectInternalLoop space last hostProt l entry mem =
      .ok ((l.takeWhile (·.pageNum < last)).getLastD entry,
        protectEntries hostProt (l.takeWhile (·.pageNum < last)) mem) := by
  induction l generalizing entry mem with
  | nil => rfl
  | cons ent rest ih =>
    rw [mprotectInternalLoop]
    split_ifs with hlt
    · obtain ⟨hpos, hbits⟩ := huser ent List.mem_cons_self hlt
      have hle := addrBits_pow_le space
      have hshl : ushl ent.pageNum naclPageShift = ent.pageNum * naclPageSize :=
        ushl_eq (by unfold naclPageSize at hbits; omega)
      have hpage : 0 < ent.pageNum * naclPageSize := Nat.mul_pos hpos (by decide)
      have hsys : naclUserToSys space (ushl ent.pageNum naclPageShift) =
          some (uadd (ent.pageNum * naclPageSize) space.memStart) := by
        rw [naclUserToSys, hshl, if_neg (by omega)]
      rw [hsys, List.takeWhile_cons_of_pos (by simpa using hlt)]
      dsimp only
      rw [ih ent _ fun ent' he => huser ent' (List.mem_cons_of_mem _ he), List.getLastD_cons]
      rfl
    · rw [List.takeWhile_cons_of_neg (by simpa using hlt)]
      rfl

theorem protectEntries_page (l : List NaClVmmapEntry) (mem : Memory Backing) (p : ℕ) :
    (protectEntries hostProt l mem).page p =
      if ∃ ent ∈ l, ent.pageNum ≤ p ∧ p < ent.pageNum + mprotectPages ent then
        { mem.page p with prot := hostProt }
      else mem.page p := by
  induction l generalizing mem with
  | nil => simp [protectEntries]
  | cons ent rest ih =>
    rw [protectEntries, List.foldl_cons, ← protectEntries, ih]
    by_cases hent : ent.pageNum ≤ p ∧ p < ent.pageNum + mprotectPages ent
    · simp [Memory.mprotect, hent]
    · simp [Memory.mprotect, hent]

theorem protectEntries_byte (l : List NaClVmmapEntry) (mem : Memory Backing) :
    (protectEntries hostProt l mem).byte = mem.byte := by
  induction l generalizing mem with
  | nil => rfl
  | cons ent rest ih =>
    rw [protectEntries, List.foldl_cons, ← protectEntries, ih]
    rfl

/-- In a list whose members satisfy a test only when those before them do, the first members that
satisfy it are all that do. -/
theorem mem_takeWhile_iff {α : Type*} {test : α → Bool} {l : List α} {a : α}
    (h : l.Pairwise fun a b => test b = true → test a = true) :
    a ∈ l.takeWhile test ↔ a ∈ l ∧ test a = true := by
  induction l with
  | nil => simp
  | cons b l ih =>
    obtain ⟨hb, hl⟩ := List.pairwise_cons.1 h
    rcases htest : test b with _ | _
    · have hnone : ∀ c ∈ l, test c = false := fun c hc =>
        Bool.eq_false_iff.2 fun htrue => by simp [hb c hc htrue] at htest
      rw [List.takeWhile_cons_of_neg (by simp [htest])]
      simp only [List.not_mem_nil, List.mem_cons, false_iff]
      rintro ⟨rfl | hmem, htrue⟩
      · simp [htest] at htrue
      · simp [hnone a hmem] at htrue
    · rw [List.takeWhile_cons_of_pos htest, List.mem_cons, ih hl, List.mem_cons]
      constructor
      · rintro (rfl | ⟨hmem, htrue⟩)
        · exact ⟨Or.inl rfl, htest⟩
        · exact ⟨Or.inr hmem, htrue⟩
      · rintro ⟨rfl | hmem, htrue⟩
        · exact Or.inl rfl
        · exact Or.inr ⟨hmem, htrue⟩

theorem rel_getLastD {α : Type*} {R : α → α → Prop} {l : List α} {a : α} (h : l.Pairwise R)
    (ha : a ∈ l) (d : α) : a = l.getLastD d ∨ R a (l.getLastD d) := by
  rcases List.eq_nil_or_concat l with rfl | ⟨init, b, rfl⟩
  · cases ha
  · rw [List.concat_eq_append] at h ha ⊢
    rw [List.getLastD_concat]
    rcases List.mem_append.1 ha with ha | ha
    · exact Or.inr ((List.pairwise_append.1 h).2.2 a ha b (List.mem_singleton_self b))
    · exact Or.inl (List.mem_singleton.1 ha)

end Loop

/-! ## MprotectInternal -/

section Internal

variable {nap : NaClApp} {s n : ℕ} {prot : BitVec 32}

theorem getLastD_end_eq {map : NaClVmmap} {l : List NaClVmmapEntry} {entry : NaClVmmapEntry}
    (hsplit : map.SplitAt s (s + n)) (hpos : 0 < n)
    (hord : l.Pairwise fun a b => a.pageNum + a.npages ≤ b.pageNum)
    (hmem : ∀ ent, ent ∈ l ↔ ent ∈ map.vmentry ∧ s ≤ ent.pageNum ∧ ent.pageNum < s + n)
    (hentry : entry ∈ l) :
    (l.getLastD entry).pageNum + (l.getLastD entry).npages = s + n := by
  obtain ⟨ent, he, hlo, hhi⟩ := hsplit.covers (s + n - 1) (by omega) (by omega)
  rw [vmentryExtent_lo] at hlo
  rw [vmentryExtent_hi] at hhi
  have hin : s ≤ ent.pageNum ∧ ent.pageNum + ent.npages ≤ s + n := by
    have := hsplit.inside_or_apart ent he
    omega
  have hlast : ent ∈ l := (hmem ent).2 ⟨he, hin.1, by omega⟩
  have hmemLast : l.getLastD entry ∈ l := by
    rcases List.mem_cons.1 (List.getLastD_mem_cons (l := l) (a := entry)) with h | h
    · rw [h]
      exact hentry
    · exact h
  rcases rel_getLastD hord hlast entry with heq | hlt
  · rw [← heq]
    omega
  · have := ((hmem _).1 hmemLast).2.2
    omega

/-- On a region that the entries cover and do not straddle, each entry in it has its pages
protected, and no check fails. -/
theorem mprotectInternal_spec (nap : NaClApp) (h : nap.memMap.WellFormed) (hsplit : nap.memMap.SplitAt s (s + n))
    (hpos : 0 < n) (hs : 0 < s) (hmax : s * naclPageSize + n * naclPageSize ≤ 2 ^ nap.space.addrBits)
    (prot : BitVec 32) :
    ∃ memMap mem', mprotectInternal nap (s * naclPageSize) (n * naclPageSize) prot =
        .ok ({ nap with memMap, mem := mem' }, .ok 0) ∧
      nap.memMap.Reordered memMap ∧ mem'.byte = nap.mem.byte ∧
      ∀ p, mem'.page p =
        if ∃ ent ∈ nap.memMap.vmentry, s ≤ ent.pageNum ∧ ent.pageNum < s + n ∧
            ent.pageNum ≤ p ∧ p < ent.pageNum + mprotectPages ent then
          { nap.mem.page p with prot := naclProtMap prot }
        else nap.mem.page p := by
  have hps : 0 < naclPageSize := by decide
  have hbits := addrBits_pow_le nap.space
  have hpage : 2 ^ naclPageShift = naclPageSize := rfl
  obtain ⟨map, ix, entry, hfind, hix, hlo, hhi⟩ :=
    naclVmmapFindPageIter_found h (hsplit.covers s le_rfl (Nat.lt_add_of_pos_right hpos))
  obtain ⟨hmap, hord, -⟩ := naclVmmapFindPageIter_spec h hfind
  have hsplit' := hsplit.perm hmap.perm
  have hentry := List.mem_of_getElem? hix
  -- the entry that contains the first page of the region starts there
  have hstart : entry.pageNum = s := by
    have := hsplit'.inside_or_apart entry hentry
    omega
  have hpageNum : ∀ page, page ≤ s + n → page * naclPageSize ≤ 2 ^ nap.space.addrBits := by
    intro page hle
    refine le_trans (Nat.mul_le_mul_right naclPageSize hle) ?_
    rwa [Nat.add_mul]
  have hlast : uadd (s * naclPageSize) (n * naclPageSize) / 2 ^ naclPageShift = s + n := by
    rw [uadd_eq (by omega), hpage, ← Nat.add_mul, Nat.mul_div_cancel _ hps]
  have hvisited : ∀ ent, ent ∈ (map.vmentry.drop ix).takeWhile (·.pageNum < s + n) ↔
      ent ∈ map.vmentry ∧ s ≤ ent.pageNum ∧ ent.pageNum < s + n := by
    intro ent
    rw [mem_takeWhile_iff, hord.mem_drop_iff hmap.wellFormed hix, hstart, decide_eq_true_iff,
      and_assoc]
    refine (hord.pageNum_le.sublist (List.drop_sublist ix _)).imp fun {a b} hab hb => ?_
    exact decide_eq_true (hab.trans_lt (of_decide_eq_true hb))
  have hloop := mprotectInternalLoop_eq nap.space (s + n) (naclProtMap prot)
    (map.vmentry.drop ix) entry nap.mem fun ent he hlt => by
      have hge := ((hord.mem_drop_iff hmap.wellFormed hix).1 he).2
      refine ⟨by omega, lt_of_lt_of_le (Nat.mul_lt_mul_of_pos_right hlt hps) ?_⟩
      exact hpageNum _ le_rfl
  have hend := getLastD_end_eq hsplit' hpos
    ((hord.sublist (List.drop_sublist ix _)).sublist (List.takeWhile_sublist _)) hvisited
    ((hvisited entry).2 ⟨hentry, hstart.ge, by omega⟩)
  generalize (map.vmentry.drop ix).takeWhile (·.pageNum < s + n) = visited at *
  have hmaxPage := hmap.wellFormed.entries.le_maxPage
  refine ⟨map, protectEntries (naclProtMap prot) visited nap.mem, ?_, hmap,
    protectEntries_byte visited nap.mem, fun p => ?_⟩
  · unfold mprotectInternal
    dsimp only
    rw [hlast, hpage, Nat.mul_div_cancel _ hps, hfind]
    dsimp only
    rw [hix]
    dsimp only
    have hentryPage : ushl entry.pageNum naclPageShift = s * naclPageSize := by
      rw [hstart]
      exact ushl_eq (by have := hpageNum s (Nat.le_add_right s n); rw [hpage]; omega)
    rw [hentryPage, if_neg (by simp), hloop]
    dsimp only
    rw [if_pos]
    rw [uadd_eq ?_, hend]
    have := hpageNum (s + n) le_rfl
    unfold naclPageSize naclPageShift at this
    omega
  · rw [protectEntries_page]
    refine if_congr ?_ rfl rfl
    simp only [hvisited, hmap.perm.mem_iff, and_assoc]

theorem mprotectInternal_empty (nap : NaClApp) (s : ℕ) (h : nap.memMap.WellFormed)
    (hmax : s * naclPageSize < 2 ^ 64) (prot : BitVec 32) :
    ∃ fault, mprotectInternal nap (s * naclPageSize) 0 prot = .error fault := by
  have hps : 0 < naclPageSize := by decide
  have hpage : 2 ^ naclPageShift = naclPageSize := rfl
  obtain ⟨map, hsort, hmap, -⟩ := h.makeSorted_reordered
  have hfind : naclVmmapFindPageIter nap.memMap s = .ok (map,
      map.vmentry.findIdx fun ent => naclVmmapContainCmpEntries s ent = 0) := by
    rw [naclVmmapFindPageIter, hsort]
    rfl
  have hcontains := (naclVmmapFindPageIter_spec h hfind).2.2
  unfold mprotectInternal
  dsimp only
  rw [hpage, uadd_eq (by omega), Nat.add_zero, Nat.mul_div_cancel _ hps, hfind]
  dsimp only
  split
  · exact ⟨_, rfl⟩
  · next entry hix =>
    split_ifs with hstart
    · exact ⟨_, rfl⟩
    · obtain ⟨hlo, hhi⟩ := hcontains entry hix
      have hlt : entry.pageNum * naclPageSize < 2 ^ 64 :=
        (Nat.mul_le_mul_right naclPageSize hlo).trans_lt hmax
      rw [not_not, ushl_eq (by rwa [hpage]), hpage, Nat.mul_left_inj hps.ne'] at hstart
      obtain ⟨hixlt, rfl⟩ := List.getElem?_eq_some_iff.1 hix
      have hmaxPage := hmap.wellFormed.entries.le_maxPage _ (List.getElem_mem hixlt)
      -- the loop stops at the entry it starts with, which does not end where it starts
      rw [List.drop_eq_getElem_cons hixlt, mprotectInternalLoop, if_neg (by omega)]
      dsimp only
      rw [if_neg]
      · exact ⟨_, rfl⟩
      · rw [uadd_eq (hmaxPage.trans_lt (by decide))]
        omega

end Internal

/-! ## When the call returns -/

section Returns

variable {nap : NaClApp} {start length : ℕ} {prot : BitVec 32}

/-- The request is turned down before the map is looked at. -/
def MprotectRefused (nap : NaClApp) (start length : ℕ) (prot : BitVec 32) : Prop :=
  naclIsAllocPageMultiple start = false ∨
    naclUserToSysAddrRange nap.space start (naclRoundAllocPage length) = kNaClBadAddress ∨
    ~~~protReadWrite &&& prot ≠ 0 ∨ naclSysCommonAddrRangeContainsExecutablePages nap start = true

def MprotectReturns (nap : NaClApp) (start length : ℕ) (prot : BitVec 32) : Prop :=
  ∃ nap' r, naclSysMprotectInternal nap start length prot = .ok (nap', r) ∧
    (r = .ok 0 ∨ ∃ errno, r = .error errno)

theorem naclRoundAllocPage_lt (n : ℕ) : naclRoundAllocPage n < 2 ^ 64 :=
  (alignDown_le _ _).trans_lt (Nat.mod_lt _ (Nat.two_pow_pos 64))

theorem MprotectRefused.returns (h : MprotectRefused nap start length prot) :
    ∃ errno, naclSysMprotectInternal nap start length prot = .ok (nap, .error errno) := by
  unfold naclSysMprotectInternal
  dsimp only
  by_cases hmul : (!naclIsAllocPageMultiple start) = true
  · rw [if_pos hmul]
    exact ⟨_, rfl⟩
  rw [if_neg hmul]
  by_cases hrange : naclUserToSysAddrRange nap.space start (naclRoundAllocPage length) =
      kNaClBadAddress
  · rw [if_pos hrange]
    exact ⟨_, rfl⟩
  rw [if_neg hrange]
  by_cases hprot : ~~~protReadWrite &&& prot ≠ 0
  · rw [if_pos hprot]
    exact ⟨_, rfl⟩
  rw [if_neg hprot]
  by_cases htext : naclSysCommonAddrRangeContainsExecutablePages nap start = true
  · rw [if_pos htext]
    exact ⟨_, rfl⟩
  · rcases h with h | h | h | h
    · simp [h] at hmul
    · exact absurd h hrange
    · exact absurd h hprot
    · exact absurd h htext

theorem naclSysMprotectInternal_eq (hs : start < 2 ^ 32)
    (h : ¬ MprotectRefused nap start length prot) :
    ∃ s n, start = s * naclPageSize ∧ naclRoundAllocPage length = n * naclPageSize ∧ 0 < s ∧
      start + n * naclPageSize ≤ 2 ^ nap.space.addrBits ∧
      nap.dynamicTextEnd ≤ naclTruncAllocPage start ∧ ~~~protReadWrite &&& prot = 0 ∧
      naclSysMprotectInternal nap start length prot =
        if 2 ^ nap.space.addrBits ≤ start then .error .fatal
        else
          match naclVmmapChangeProt nap.memMap s n prot with
          | .error fault => .error (.vmmap fault)
          | .ok (0, memMap) => .ok ({ nap with memMap }, .error .eacces)
          | .ok (_, memMap) =>
            if naclVmIoPending nap start (usub (uadd start (n * naclPageSize)) 1) then
              .error .fatal
            else
              mprotectInternal { nap with memMap } (s * naclPageSize) (n * naclPageSize) prot := by
  have hps : 0 < naclPageSize := by decide
  have hpage : 2 ^ naclPageShift = naclPageSize := rfl
  unfold MprotectRefused at h
  push Not at h
  obtain ⟨hmul, hrange, hprot, htext⟩ := h
  rw [ne_eq, Bool.not_eq_false] at hmul
  obtain ⟨s, rfl⟩ := exists_mul_naclPageSize
    (naclPageSize_dvd (dvd_of_naclIsAllocPageMultiple hmul))
  obtain ⟨n, hn⟩ := exists_mul_naclPageSize (dvd_naclRoundAllocPage length)
  obtain ⟨hpos, hle, hsys⟩ := naclUserToSysAddrRange_spec (by omega)
    (naclRoundAllocPage_lt length) hrange
  have hle' : s * naclPageSize + n * naclPageSize ≤ 2 ^ nap.space.addrBits := by rwa [← hn]
  refine ⟨s, n, rfl, hn, Nat.pos_of_mul_pos_right hpos, hle', ?_, hprot, ?_⟩
  · simpa [naclSysCommonAddrRangeContainsExecutablePages] using htext
  · have huser : naclSysToUser nap.space (nap.space.memStart + s * naclPageSize) =
        if 2 ^ nap.space.addrBits ≤ s * naclPageSize then none else some (s * naclPageSize) := by
      unfold naclSysToUser
      split_ifs <;> first | omega | rfl | simp
    unfold naclSysMprotectInternal
    dsimp only
    rw [if_neg (by simp [hmul]), if_neg hrange, if_neg (by simp [hprot]), if_neg htext, hsys, huser]
    by_cases htop : 2 ^ nap.space.addrBits ≤ s * naclPageSize
    · rw [if_pos htop, if_pos htop]
    · rw [if_neg htop, if_neg htop]
      -- Whether a match is shared with another module decides if `simp` already ends here.
      simp only [hn, hpage, Nat.mul_div_cancel _ hps] <;> rfl

/-- The call returns exactly when it is refused, or when it is about some bytes none of which is in
use for I/O. -/
theorem mprotectReturns_iff (nap : NaClApp) (h : nap.memMap.WellFormed) (start length : ℕ)
    (hs : start < 2 ^ 32) (prot : BitVec 32) :
    MprotectReturns nap start length prot ↔
      MprotectRefused nap start length prot ∨
      (start < 2 ^ nap.space.addrBits ∧ ChangeProtRefused nap.memMap (start / 2 ^ naclPageShift)
        (naclRoundAllocPage length / 2 ^ naclPageShift) prot) ∨
      (naclRoundAllocPage length ≠ 0 ∧
        naclVmIoPending nap start (usub (uadd start (naclRoundAllocPage length)) 1) = false) := by
  by_cases href : MprotectRefused nap start length prot
  · obtain ⟨errno, hrun⟩ := href.returns
    exact iff_of_true ⟨nap, _, hrun, Or.inr ⟨errno, rfl⟩⟩ (Or.inl href)
  have hps : 0 < naclPageSize := by decide
  have hbits := addrBits_pow_le nap.space
  have hpage : 2 ^ naclPageShift = naclPageSize := rfl
  obtain ⟨s, n, rfl, hn, hpos, hle, htext, hprot, hrun⟩ := naclSysMprotectInternal_eq hs href
  unfold MprotectReturns
  rw [hrun, hn, hpage, Nat.mul_div_cancel _ hps, Nat.mul_div_cancel _ hps]
  have hmax := maxPage_of_le (hle.trans hbits)
  have hmax64 : s + n < 2 ^ 64 := hmax.trans_lt (by decide)
  by_cases htop : 2 ^ nap.space.addrBits ≤ s * naclPageSize
  · have hzero : n * naclPageSize = 0 := by omega
    rw [if_pos htop]
    refine iff_of_false ?_ ?_
    · rintro ⟨nap', r, hrun, -⟩
      cases hrun
    · rintro (h' | ⟨h', -⟩ | ⟨h', -⟩)
      · exact href h'
      · omega
      · exact h' hzero
  rw [if_neg htop]
  obtain ⟨ok, map, hcheck, map', hchange, hwf, hmap⟩ := naclVmmapChangeProt_spec h
    hmax64 prot
  rw [hchange]
  cases ok with
  | false =>
    refine iff_of_true ⟨_, _, rfl, Or.inr ⟨_, rfl⟩⟩ (Or.inr (Or.inl ⟨not_le.1 htop, map, hcheck⟩))
  | true =>
    have haccept : ¬ ChangeProtRefused nap.memMap s n prot := by
      rintro ⟨map'', hcheck'⟩
      rw [hcheck] at hcheck'
      cases hcheck'
    simp only [href, haccept, and_false, false_or, if_true]
    by_cases hio : naclVmIoPending nap (s * naclPageSize)
        (usub (uadd (s * naclPageSize) (n * naclPageSize)) 1) = true
    · simp [hio]
    rw [if_neg hio]
    rcases Nat.eq_zero_or_pos n with rfl | hn
    · rw [Nat.zero_mul]
      obtain ⟨fault, hfault⟩ := mprotectInternal_empty { nap with memMap := map' } s hwf (by omega)
        prot
      simp [hfault]
    · obtain ⟨memMap, mem', hok, -⟩ := mprotectInternal_spec { nap with memMap := map' } hwf
        (splitAt_of_naclVmmapChangeProt h hmax64 hn hcheck hchange) hn hpos hle prot
      refine iff_of_true ⟨_, _, hok, Or.inl rfl⟩ ⟨?_, Bool.eq_false_iff.2 hio⟩
      exact (Nat.mul_pos hn hps).ne'

theorem mprotectReturns_iff_smallApp :
    MprotectReturns smallApp 0x40000 0x10000 protRead ↔
      MprotectRefused smallApp 0x40000 0x10000 protRead ∨
      (0x40000 < 2 ^ smallApp.space.addrBits ∧
        ChangeProtRefused smallApp.memMap (0x40000 / 2 ^ naclPageShift)
          (naclRoundAllocPage 0x10000 / 2 ^ naclPageShift) protRead) ∨
      (naclRoundAllocPage 0x10000 ≠ 0 ∧
        naclVmIoPending smallApp 0x40000 (usub (uadd 0x40000 (naclRoundAllocPage 0x10000)) 1) =
          false) :=
  mprotectReturns_iff smallApp smallApp_wellFormed 0x40000 0x10000 (by decide) protRead

/-- Protecting no bytes at the start of the data brings the process down. -/
theorem not_mprotectReturns_smallApp :
    smallApp.memMap.WellFormed ∧ smallApp.memIoRegions = [] ∧
      naclSysMprotectInternal smallApp 0x40000 0 protRead = .error .checkFailed ∧
      ¬ MprotectReturns smallApp 0x40000 0 protRead := by
  have hrun : naclSysMprotectInternal smallApp 0x40000 0 protRead = .error .checkFailed := rfl
  refine ⟨smallApp_wellFormed, rfl, hrun, ?_⟩
  rintro ⟨nap', r, hok, -⟩
  rw [hrun] at hok
  cases hok

end Returns

/-! ## What the call changes -/

section Done

variable {nap nap' : NaClApp} {s n start length : ℕ} {prot : BitVec 32} {r : SysResult}

theorem lt_mprotectPages_iff {ent : NaClVmmapEntry} (hmax : ent.pageNum + ent.npages ≤ maxPage)
    (hfile : ent.desc ≠ none → 0 ≤ ent.offset ∧ ent.fileSize < 2 ^ 63) {i : ℕ} :
    i < mprotectPages ent ↔ i < ent.npages ∧
      (ent.desc = none ∨ ent.offset + i * 2 ^ naclPageShift < ent.fileSize) := by
  have hps : 0 < naclPageSize := by decide
  unfold mprotectPages
  split
  · next hdesc => simp [hdesc]
  · next desc hdesc =>
    obtain ⟨hoff, hsize⟩ := hfile (by simp [hdesc])
    unfold maxPage at hmax
    have hnpages : ushl ent.npages naclPageShift = ent.npages * naclPageSize :=
      ushl_eq (by unfold naclPageShift; omega)
    split_ifs with hlt
    · have hround := @lt_naclRoundPage_iff (ent.fileSize - ent.offset).toNat i (by omega)
      rw [hnpages, ← Nat.succ_le_iff, Nat.le_div_iff_mul_le hps, le_min_iff]
      have hdvd : naclPageSize ∣ naclRoundPage (ent.fileSize - ent.offset).toNat := dvd_alignUp _ _
      obtain ⟨q, hq⟩ := hdvd
      have hsucc : i.succ * naclPageSize ≤ naclRoundPage (ent.fileSize - ent.offset).toNat ↔
          i * naclPageSize < naclRoundPage (ent.fileSize - ent.offset).toNat := by
        rw [hq, Nat.mul_comm naclPageSize q, Nat.mul_lt_mul_right hps,
          Nat.mul_le_mul_right_iff hps, Nat.succ_le_iff]
      rw [hsucc, hround, Nat.mul_le_mul_right_iff hps, Nat.succ_le_iff]
      have hbytes : i * naclPageSize < (ent.fileSize - ent.offset).toNat ↔
          ent.offset + i * 2 ^ naclPageShift < ent.fileSize := by
        unfold naclPageSize naclPageShift
        omega
      rw [hbytes]
      simp [and_comm, hdesc]
    · have hpast : ¬ ent.offset + i * 2 ^ naclPageShift < ent.fileSize := by
        unfold naclPageShift
        omega
      simp [hdesc, hpast]

theorem mprotectPages_le (ent : NaClVmmapEntry) : mprotectPages ent ≤ ent.npages := by
  unfold mprotectPages
  split
  · exact le_rfl
  · split_ifs
    · refine Nat.div_le_of_le_mul ((min_le_right _ _).trans ?_)
      rw [ushl, naclPageSize, Nat.mul_comm]
      exact Nat.mod_le _ _
    · exact Nat.zero_le _

/-- The call has given the pages of `[s, s + n)` the protection `prot`. -/
structure MprotectDone (nap nap' : NaClApp) (s n : ℕ) (prot : BitVec 32) : Prop where
  eq : nap' = { nap with memMap := nap'.memMap, mem := nap'.mem }
  wellFormed : nap'.memMap.WellFormed
  pos : 0 < n
  le : s * naclPageSize + n * naclPageSize ≤ 2 ^ nap.space.addrBits
  not_text : nap.dynamicTextEnd ≤ naclTruncAllocPage (s * naclPageSize)
  prot_eq : ~~~protReadWrite &&& prot = 0
  not_pending : naclVmIoPending nap (s * naclPageSize)
    (usub (uadd (s * naclPageSize) (n * naclPageSize)) 1) = false
  pageMap : nap'.memMap.pageMap = override nap.memMap.pageMap s (s + n)
    (vmentryExtent.lookup (nap.memMap.vmentry.flatMap (changedPiece prot s (s + n))))
  split : nap'.memMap.SplitAt s (s + n)
  byte : nap'.mem.byte = nap.mem.byte
  page : ∀ p, nap'.mem.page p =
    if ∃ ent ∈ nap'.memMap.vmentry, s ≤ ent.pageNum ∧ ent.pageNum < s + n ∧
        ent.pageNum ≤ p ∧ p < ent.pageNum + mprotectPages ent then
      { nap.mem.page p with prot := naclProtMap prot }
    else nap.mem.page p

theorem naclSysMprotectInternal_spec (h : nap.memMap.WellFormed) (hs : start < 2 ^ 32)
    (hrun : naclSysMprotectInternal nap start length prot = .ok (nap', r)) :
    (∃ memMap, nap' = { nap with memMap } ∧ memMap.WellFormed ∧
      memMap.pageMap = nap.memMap.pageMap ∧ ∃ errno, r = .error errno) ∨
    ∃ s n, start = s * naclPageSize ∧ naclRoundAllocPage length = n * naclPageSize ∧ r = .ok 0 ∧
      MprotectDone nap nap' s n prot := by
  by_cases href : MprotectRefused nap start length prot
  · obtain ⟨errno, hrun'⟩ := href.returns
    rw [hrun] at hrun'
    cases hrun'
    exact Or.inl ⟨nap.memMap, rfl, h, rfl, errno, rfl⟩
  have hbits := addrBits_pow_le nap.space
  obtain ⟨s, n, rfl, hn, hpos, hle, htext, hprot, heq⟩ := naclSysMprotectInternal_eq hs href
  have hmax := maxPage_of_le (hle.trans hbits)
  have hmax64 : s + n < 2 ^ 64 := hmax.trans_lt (by decide)
  rw [heq] at hrun
  by_cases htop : 2 ^ nap.space.addrBits ≤ s * naclPageSize
  · rw [if_pos htop] at hrun
    cases hrun
  rw [if_neg htop] at hrun
  obtain ⟨ok, map, hcheck, map', hchange, hwf, hmap⟩ := naclVmmapChangeProt_spec h hmax64 prot
  rw [hchange] at hrun
  cases ok with
  | false =>
    cases hrun
    exact Or.inl ⟨map', rfl, hwf, hmap, _, rfl⟩
  | true =>
    simp only [if_true] at hrun hmap
    by_cases hio : naclVmIoPending nap (s * naclPageSize)
        (usub (uadd (s * naclPageSize) (n * naclPageSize)) 1) = true
    · rw [if_pos hio] at hrun
      cases hrun
    rw [if_neg hio] at hrun
    rcases Nat.eq_zero_or_pos n with rfl | hn'
    · obtain ⟨fault, hfault⟩ := mprotectInternal_empty { nap with memMap := map' } s hwf
        (by omega) prot
      rw [Nat.zero_mul, hfault] at hrun
      cases hrun
    · have hsplit := splitAt_of_naclVmmapChangeProt h hmax64 hn' hcheck hchange
      obtain ⟨memMap, mem', hok, hreord, hbyte, hpage⟩ :=
        mprotectInternal_spec { nap with memMap := map' } hwf hsplit hn' hpos hle prot
      rw [hok] at hrun
      cases hrun
      refine Or.inr ⟨s, n, rfl, hn, rfl, rfl, hreord.wellFormed, hn', hle, htext, hprot,
        Bool.eq_false_iff.2 hio, hreord.pageMap_eq.trans hmap, hsplit.perm hreord.perm, hbyte,
        fun p => ?_⟩
      simp only [hpage, hreord.perm.mem_iff]

theorem MprotectDone.mem_region (h : MprotectDone nap nap' s n prot) {ent : NaClVmmapEntry} {p : ℕ}
    (he : ent ∈ nap'.memMap.vmentry) (hs : s ≤ ent.pageNum) (ht : ent.pageNum < s + n)
    (hlo : ent.pageNum ≤ p) (hhi : p < ent.pageNum + mprotectPages ent) : s ≤ p ∧ p < s + n := by
  have hle := mprotectPages_le ent
  have hpos := h.wellFormed.entries.tiles.lt ent he
  rw [vmentryExtent_lo, vmentryExtent_hi] at hpos
  have := h.split.inside_or_apart ent he
  omega

theorem MprotectDone.dataStep (h : MprotectDone nap nap' s n prot) :
    DataStep nap nap' s (s + n) where
  eq := by rw [h.eq]
  wellFormed := h.wellFormed
  outside p hp := by
    refine ⟨?_, fun a _ => by rw [h.byte]⟩
    rw [h.page p, if_neg]
    rintro ⟨ent, he, hs, ht, hlo, hhi⟩
    have := h.mem_region he hs ht hlo hhi
    omega
  noExec p := by
    rw [h.page p]
    split_ifs
    · refine Or.inr (naclProtMap_noExec ?_)
      have hexec : protExec = protExec &&& ~~~protReadWrite := by decide
      rw [hexec, BitVec.and_comm protExec, ← BitVec.and_assoc, BitVec.and_comm prot, h.prot_eq]
      decide
    · exact Or.inl rfl

end Done

end SandboxingNaCl
