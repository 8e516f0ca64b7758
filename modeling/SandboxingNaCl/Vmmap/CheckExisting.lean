import SandboxingNaCl.Vmmap.ChangeProt
import SandboxingNaCl.Vmmap.Search

/-!
# Checking a range against the map

`NaClVmmapCheckExistingMapping` scans the sorted entries once, moving the start of the range up past
each of them.  Its answer is a property of the pages: every page of the range lies in an entry, and
no entry that holds one of them forbids what is asked for.
-/

namespace SandboxingNaCl

open MachineInt IntervalMap

/-- Every right in `prot` is one of those in `most`. -/
def ProtWithin (prot most : BitVec 32) : Prop :=
  ∀ i, prot.getLsbD i = true → most.getLsbD i = true

theorem protWithin_iff (prot most : BitVec 32) : prot &&& ~~~most = 0 ↔ ProtWithin prot most := by
  constructor
  · intro hzero i hi
    have hbit := congrArg (·.getLsbD i) hzero
    have hlt := BitVec.lt_of_getLsbD hi
    simpa [hi, hlt] using hbit
  · intro hwithin
    apply BitVec.eq_of_getLsbD_eq
    intro i hi
    by_cases hp : prot.getLsbD i = true
    · simp [hp, hwithin i hp]
    · simp [hp]

theorem not_write_of_readOnly {ent : NaClVmmapEntry} {desc : NaClDesc} (hdesc : ent.desc = some desc)
    (hshared : ent.flags &&& mapPrivate = 0) (hread : desc.oFlags &&& 3 = 0) :
    ¬ ProtWithin protWrite (naclVmmapEntryMaxProt ent) := by
  simp only [naclVmmapEntryMaxProt, hdesc, hshared, hread, if_true]
  exact fun h => absurd (h 1 (by decide)) (by decide)

section

variable {l : List NaClVmmapEntry} {newEnd page : ℕ} {prot : BitVec 32} {ent : NaClVmmapEntry}

/-- The page lies in an entry that may be given the protection. -/
def PageAllows (l : List NaClVmmapEntry) (prot : BitVec 32) (page : ℕ) : Prop :=
  ∃ ent ∈ l, vmentryExtent.Covers ent page ∧ ProtWithin prot (naclVmmapEntryMaxProt ent)

theorem pageAllows_cons_of_covers (hord : ∀ b ∈ l, ent.pageNum + ent.npages ≤ b.pageNum)
    (hcov : vmentryExtent.Covers ent page) :
    PageAllows (ent :: l) prot page ↔ ProtWithin prot (naclVmmapEntryMaxProt ent) := by
  constructor
  · rintro ⟨b, hb, hbcov, hprot⟩
    rcases List.mem_cons.1 hb with rfl | hb
    · exact hprot
    · have hstart := hord b hb
      simp only [Extent.Covers, vmentryExtent_lo, vmentryExtent_hi] at hcov hbcov
      omega
  · exact fun hprot => ⟨ent, List.mem_cons_self, hcov, hprot⟩

theorem pageAllows_cons_of_le (h : ent.pageNum + ent.npages ≤ page) :
    PageAllows (ent :: l) prot page ↔ PageAllows l prot page := by
  constructor
  · rintro ⟨b, hb, hbcov, hprot⟩
    rcases List.mem_cons.1 hb with rfl | hb
    · simp only [Extent.Covers, vmentryExtent_lo, vmentryExtent_hi] at hbcov
      omega
    · exact ⟨b, hb, hbcov, hprot⟩
  · rintro ⟨b, hb, hbcov, hprot⟩
    exact ⟨b, List.mem_cons_of_mem _ hb, hbcov, hprot⟩

theorem not_pageAllows_of_lt (h : ∀ b ∈ l, page < b.pageNum) : ¬ PageAllows l prot page := by
  rintro ⟨b, hb, hbcov, -⟩
  exact absurd hbcov.1 (not_le.2 (h b hb))

theorem naclVmmapCheckExistingMappingLoop_iff (hl : WellFormedEntries l)
    (hord : l.Pairwise fun a b => a.pageNum + a.npages ≤ b.pageNum) {pageNum : ℕ}
    (hlt : pageNum < newEnd) :
    naclVmmapCheckExistingMappingLoop newEnd prot pageNum l = true ↔
      ∀ page, pageNum ≤ page → page < newEnd → PageAllows l prot page := by
  induction l generalizing pageNum with
  | nil =>
    refine iff_of_false (by simp [naclVmmapCheckExistingMappingLoop]) fun h => ?_
    exact not_pageAllows_of_lt (by simp) (h pageNum le_rfl hlt)
  | cons ent rest ih =>
    obtain ⟨hpos, hmax, -⟩ := hl.head
    obtain ⟨hhead, hord⟩ := List.pairwise_cons.1 hord
    have hafter : ∀ b ∈ rest, ent.pageNum < b.pageNum := fun b hb => hpos.trans_le (hhead b hb)
    rw [naclVmmapCheckExistingMappingLoop, uadd_eq (hmax.trans_lt (by decide))]
    split_ifs with hin hover hprot hgap
    · -- the range lies inside the entry
      rw [decide_eq_true_iff, protWithin_iff]
      have hcov : ∀ page, pageNum ≤ page → page < newEnd → vmentryExtent.Covers ent page :=
        fun page hs ht => ⟨hin.1.trans hs, ht.trans_le hin.2⟩
      constructor
      · exact fun hprot page hs ht => (pageAllows_cons_of_covers hhead (hcov page hs ht)).2 hprot
      · exact fun hall => (pageAllows_cons_of_covers hhead (hcov pageNum le_rfl hlt)).1
          (hall pageNum le_rfl hlt)
    · -- the entry holds the start of the range and forbids the protection
      refine iff_of_false (by simp) fun hall => hprot ?_
      rw [protWithin_iff]
      exact (pageAllows_cons_of_covers hhead hover).1 (hall pageNum le_rfl hlt)
    · -- the entry holds the start of the range, and the rest of it is left to check
      rw [not_not, protWithin_iff] at hprot
      rw [ih hl.of_cons hord (by omega)]
      constructor
      · intro hrest page hs ht
        rcases lt_or_ge page (ent.pageNum + ent.npages) with hinside | hpast
        · exact (pageAllows_cons_of_covers hhead ⟨hover.1.trans hs, hinside⟩).2 hprot
        · exact (pageAllows_cons_of_le hpast).2 (hrest page hpast ht)
      · intro hall page hs ht
        exact (pageAllows_cons_of_le hs).1 (hall page (hover.2.le.trans hs) ht)
    · -- the start of the range lies in no entry
      refine iff_of_false (by simp) fun hall => ?_
      refine not_pageAllows_of_lt (fun b hb => ?_) (hall pageNum le_rfl hlt)
      rcases List.mem_cons.1 hb with rfl | hb
      · exact hgap
      · exact hgap.trans (hafter b hb)
    · rw [ih hl.of_cons hord hlt]
      refine forall_congr' fun page => forall₂_congr fun hs ht => ?_
      rw [pageAllows_cons_of_le (by omega)]

theorem naclVmmapCheckExistingMappingLoop_empty (hl : WellFormedEntries l)
    (hord : l.Pairwise fun a b => a.pageNum + a.npages ≤ b.pageNum) (pageNum : ℕ) :
    naclVmmapCheckExistingMappingLoop pageNum prot pageNum l = true ↔
      ∃ ent ∈ l, ent.pageNum ≤ pageNum ∧ pageNum ≤ ent.pageNum + ent.npages ∧
        (∀ b ∈ l, b.pageNum + b.npages = pageNum → b = ent) ∧
        ProtWithin prot (naclVmmapEntryMaxProt ent) := by
  induction l with
  | nil => simp [naclVmmapCheckExistingMappingLoop]
  | cons ent rest ih =>
    obtain ⟨hpos, hmax, -⟩ := hl.head
    obtain ⟨hhead, hord⟩ := List.pairwise_cons.1 hord
    have hrest : ∀ b ∈ rest, b.pageNum < b.pageNum + b.npages := hl.of_cons.tiles.lt
    rw [naclVmmapCheckExistingMappingLoop, uadd_eq (hmax.trans_lt (by decide))]
    split_ifs with hin hover hprot hgap
    · rw [decide_eq_true_iff, protWithin_iff]
      constructor
      · refine fun hprot => ⟨ent, List.mem_cons_self, hin.1, hin.2, fun b hb hend => ?_, hprot⟩
        refine (List.mem_cons.1 hb).resolve_right fun hb => ?_
        have hstart := hhead b hb
        have hbpos := hrest b hb
        omega
      · rintro ⟨b, hb, hs, ht, honly, hprot⟩
        rcases List.mem_cons.1 hb with rfl | hb
        · exact hprot
        · have hstart := hhead b hb
          rw [honly ent List.mem_cons_self (by omega)]
          exact hprot
    · exact absurd ⟨hover.1, hover.2.le⟩ hin
    · exact absurd ⟨hover.1, hover.2.le⟩ hin
    · refine iff_of_false (by simp) ?_
      rintro ⟨b, hb, hs, -⟩
      rcases List.mem_cons.1 hb with rfl | hb
      · omega
      · have hstart := hhead b hb
        omega
    · rw [ih hl.of_cons hord]
      constructor
      · rintro ⟨b, hb, hs, ht, honly, hprot⟩
        refine ⟨b, List.mem_cons_of_mem _ hb, hs, ht, fun c hc hend => ?_, hprot⟩
        rcases List.mem_cons.1 hc with rfl | hc
        · omega
        · exact honly c hc hend
      · rintro ⟨b, hb, hs, ht, honly, hprot⟩
        rcases List.mem_cons.1 hb with rfl | hb
        · omega
        · exact ⟨b, hb, hs, ht, fun c hc => honly c (List.mem_cons_of_mem _ hc), hprot⟩

end

/-! ## One call -/

section

variable {self : NaClVmmap} {pageNum npages : ℕ} {prot : BitVec 32}

/-- Every page of the range lies in an entry, and the protection is within the maximum one of every
entry that holds a page of the range. -/
def RangeAllows (l : List NaClVmmapEntry) (pageNum npages : ℕ) (prot : BitVec 32) : Prop :=
  ∀ page, pageNum ≤ page → page < pageNum + npages →
    (∃ ent ∈ l, vmentryExtent.Covers ent page) ∧
      ∀ ent ∈ l, vmentryExtent.Covers ent page → ProtWithin prot (naclVmmapEntryMaxProt ent)

/-- On a range without pages: the entry that ends where the range is, or else the one that contains
that page, may be given the protection. -/
def EmptyRangeAllows (l : List NaClVmmapEntry) (pageNum : ℕ) (prot : BitVec 32) : Prop :=
  ∃ ent ∈ l, ent.pageNum ≤ pageNum ∧ pageNum ≤ ent.pageNum + ent.npages ∧
    (∀ b ∈ l, b.pageNum + b.npages = pageNum → b = ent) ∧
    ProtWithin prot (naclVmmapEntryMaxProt ent)

theorem rangeAllows_iff {l : List NaClVmmapEntry} (hl : vmentryExtent.Tiles l) :
    RangeAllows l pageNum npages prot ↔
      ∀ page, pageNum ≤ page → page < pageNum + npages → PageAllows l prot page := by
  refine forall_congr' fun page => forall₂_congr fun _ _ => ?_
  constructor
  · rintro ⟨⟨ent, he, hcov⟩, hall⟩
    exact ⟨ent, he, hcov, hall ent he hcov⟩
  · rintro ⟨ent, he, hcov, hprot⟩
    refine ⟨⟨ent, he, hcov⟩, fun b hb hbcov => ?_⟩
    rw [hl.eq_of_covers hb he hbcov hcov]
    exact hprot

theorem rangeAllows_perm {l l' : List NaClVmmapEntry} (hl : l.Perm l') :
    RangeAllows l pageNum npages prot ↔ RangeAllows l' pageNum npages prot := by
  simp only [RangeAllows, hl.mem_iff]

theorem emptyRangeAllows_perm {l l' : List NaClVmmapEntry} (hl : l.Perm l') :
    EmptyRangeAllows l pageNum prot ↔ EmptyRangeAllows l' pageNum prot := by
  simp only [EmptyRangeAllows, hl.mem_iff]

/-- The answer of the check, on ranges with pages and on those without. -/
theorem naclVmmapCheckExistingMapping_iff (h : self.WellFormed)
    (hend : pageNum + npages < 2 ^ 64) :
    ∃ ok map, naclVmmapCheckExistingMapping self pageNum npages prot = .ok (ok, map) ∧
      self.Reordered map ∧
      (0 < npages → (ok = true ↔ RangeAllows self.vmentry pageNum npages prot)) ∧
      (npages = 0 → (ok = true ↔ EmptyRangeAllows self.vmentry pageNum prot)) ∧
      ∀ ent ∈ self.vmentry, ∀ desc, ent.desc = some desc → ent.flags &&& mapPrivate = 0 →
        desc.oFlags &&& 3 = 0 → ¬ ProtWithin protWrite (naclVmmapEntryMaxProt ent) := by
  by_cases hnil : self.vmentry = []
  · refine ⟨false, self, by simp [naclVmmapCheckExistingMapping, hnil]; rfl, .refl h,
      fun hpos => ?_, fun _ => ?_, fun ent _ desc => not_write_of_readOnly⟩
    · refine iff_of_false (by simp) fun hall => ?_
      obtain ⟨⟨ent, he, -⟩, -⟩ := hall pageNum le_rfl (Nat.lt_add_of_pos_right hpos)
      rw [hnil] at he
      cases he
    · refine iff_of_false (by simp) ?_
      rintro ⟨ent, he, -⟩
      rw [hnil] at he
      cases he
  · obtain ⟨map, hsort, hmap, hord⟩ := h.makeSorted_reordered
    have hrun : naclVmmapCheckExistingMapping self pageNum npages prot =
        .ok (naclVmmapCheckExistingMappingLoop (pageNum + npages) prot pageNum map.vmentry,
          map) := by
      rw [naclVmmapCheckExistingMapping, if_neg (by rwa [List.length_eq_zero_iff]), hsort,
        uadd_eq hend]
      rfl
    have hwf := hmap.wellFormed.entries
    refine ⟨_, map, hrun, hmap, fun hpos => ?_, fun hzero => ?_,
      fun ent _ desc => not_write_of_readOnly⟩
    · rw [← rangeAllows_perm hmap.perm, rangeAllows_iff hwf.tiles]
      exact naclVmmapCheckExistingMappingLoop_iff hwf hord (Nat.lt_add_of_pos_right hpos)
    · subst hzero
      rw [← emptyRangeAllows_perm hmap.perm]
      exact naclVmmapCheckExistingMappingLoop_empty hwf hord pageNum

theorem naclVmmapCheckExistingMapping_iff_oneFile :
    ∃ ok map, naclVmmapCheckExistingMapping oneFile 17 3 protWrite = .ok (ok, map) ∧
      oneFile.Reordered map ∧
      (0 < 3 → (ok = true ↔ RangeAllows oneFile.vmentry 17 3 protWrite)) ∧
      (3 = 0 → (ok = true ↔ EmptyRangeAllows oneFile.vmentry 17 protWrite)) ∧
      ∀ ent ∈ oneFile.vmentry, ∀ desc, ent.desc = some desc → ent.flags &&& mapPrivate = 0 →
        desc.oFlags &&& 3 = 0 → ¬ ProtWithin protWrite (naclVmmapEntryMaxProt ent) :=
  naclVmmapCheckExistingMapping_iff oneFile_wellFormed (by decide)

/-- A range without pages is refused in a map without entries, though there is no page to forbid. -/
theorem not_naclVmmapCheckExistingMapping_iff :
    naclVmmapCheckExistingMapping naclVmmapCtor 16 0 protRead = .ok (false, naclVmmapCtor) ∧
      RangeAllows naclVmmapCtor.vmentry 16 0 protRead := by
  refine ⟨by decide, fun page hs ht => ?_⟩
  omega

end

end SandboxingNaCl
