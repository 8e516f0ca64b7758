import SandboxingNaCl.Vmmap.WellFormed

/-!
# Searching the map

The entry that contains a page, and the gaps between the entries where a new mapping fits.
-/

namespace SandboxingNaCl

open MachineInt

def naclMapPageShift : ℕ := 16

def naclPagesPerMap : ℕ := 2 ^ (naclMapPageShift - naclPageShift)

def naclVmmapContainCmpEntries (pnum : ℕ) (ent : NaClVmmapEntry) : ℤ :=
  if pnum < ent.pageNum then -1 else if pnum < uadd ent.pageNum ent.npages then 0 else 1

/-- `NaClVmmapFindPageIter`: the sorted map, and the index of the entry `bsearch` finds or `nvalid`
when there is none. -/
def naclVmmapFindPageIter (self : NaClVmmap) (pnum : ℕ) : Except VmmapFault (NaClVmmap × ℕ) := do
  let self ← naclVmmapMakeSorted self
  return (self, self.vmentry.findIdx fun ent => naclVmmapContainCmpEntries pnum ent = 0)

def naclRoundPageNumUpToMapMultiple (npages : ℕ) : ℕ :=
  uadd npages (naclPagesPerMap - 1) / naclPagesPerMap * naclPagesPerMap

def naclTruncPageNumDownToMapMultiple (npages : ℕ) : ℕ := npages / naclPagesPerMap * naclPagesPerMap

/-- The loop of `NaClVmmapFindMapSpace`, over the entries from the last one down. -/
def naclVmmapFindMapSpaceLoop (numPages : ℕ) : List NaClVmmapEntry → ℕ
  | ent :: vmep :: rest =>
    let endPage := naclRoundPageNumUpToMapMultiple (uadd vmep.pageNum vmep.npages)
    let startPage := naclTruncPageNumDownToMapMultiple ent.pageNum
    if startPage ≤ endPage then
      naclVmmapFindMapSpaceLoop numPages (vmep :: rest)
    else if numPages ≤ usub startPage endPage then
      usub startPage numPages
    else
      naclVmmapFindMapSpaceLoop numPages (vmep :: rest)
  | _ => 0

/-- `NaClVmmapFindMapSpace`: the sorted map, and the page found or 0. -/
def naclVmmapFindMapSpace (self : NaClVmmap) (numPages : ℕ) :
    Except VmmapFault (NaClVmmap × ℕ) := do
  if self.vmentry.length = 0 then
    return (self, 0)
  let self ← naclVmmapMakeSorted self
  return (self, naclVmmapFindMapSpaceLoop (naclRoundPageNumUpToMapMultiple numPages)
    self.vmentry.reverse)

/-- The loop of `NaClVmmapFindMapSpaceAboveHint`. -/
def naclVmmapFindMapSpaceAboveHintLoop (usrPage numPages : ℕ) : List NaClVmmapEntry → ℕ
  | vmep :: ent :: rest =>
    let endPage := naclRoundPageNumUpToMapMultiple (uadd vmep.pageNum vmep.npages)
    let startPage := naclTruncPageNumDownToMapMultiple ent.pageNum
    if startPage ≤ endPage then
      naclVmmapFindMapSpaceAboveHintLoop usrPage numPages (ent :: rest)
    else
      let endPage := if endPage ≤ usrPage ∧ usrPage < startPage then usrPage else endPage
      if usrPage ≤ endPage ∧ numPages ≤ usub startPage endPage then
        endPage
      else
        naclVmmapFindMapSpaceAboveHintLoop usrPage numPages (ent :: rest)
  | _ => 0

/-- `NaClVmmapFindMapSpaceAboveHint`: the sorted map, and the page found or 0. -/
def naclVmmapFindMapSpaceAboveHint (self : NaClVmmap) (uaddr numPages : ℕ) :
    Except VmmapFault (NaClVmmap × ℕ) := do
  let self ← naclVmmapMakeSorted self
  return (self, naclVmmapFindMapSpaceAboveHintLoop (uaddr / 2 ^ naclPageShift)
    (naclRoundPageNumUpToMapMultiple numPages) self.vmentry)

/-! ## What the searches leave of the map -/

section

variable {self map : NaClVmmap}

/-- The second map is the first with its entries in another order. -/
structure NaClVmmap.Reordered (old map : NaClVmmap) : Prop where
  wellFormed : map.WellFormed
  perm : map.vmentry.Perm old.vmentry

theorem NaClVmmap.Reordered.refl (h : self.WellFormed) : self.Reordered self :=
  ⟨h, List.Perm.refl _⟩

theorem NaClVmmap.Reordered.trans {map' : NaClVmmap} (h : self.Reordered map)
    (h' : map.Reordered map') : self.Reordered map' :=
  ⟨h'.wellFormed, h'.perm.trans h.perm⟩

theorem NaClVmmap.Reordered.pageMap_eq (h : self.Reordered map) : map.pageMap = self.pageMap :=
  h.wellFormed.entries.tiles.lookup_perm h.perm |>.symm

/-- The entries of a map that has been sorted follow one another. -/
def NaClVmmap.InOrder (map : NaClVmmap) : Prop :=
  map.vmentry.Pairwise fun a b => a.pageNum + a.npages ≤ b.pageNum

theorem NaClVmmap.WellFormed.makeSorted_reordered (h : self.WellFormed) :
    ∃ map, naclVmmapMakeSorted self = .ok map ∧ self.Reordered map ∧ map.InOrder := by
  obtain ⟨l, hok, hl, hord⟩ := h.makeSorted
  refine ⟨_, hok, ⟨⟨h.entries.perm hl.symm, fun _ => ?_, ?_, h.size_pos⟩, hl⟩, hord⟩
  · exact hord.imp fun {a b} hab => (Nat.le_add_right _ _).trans hab
  · exact hl.length_eq.trans_le h.nvalid_le

theorem reordered_of_naclVmmapFindMapSpace (h : self.WellFormed) {numPages page : ℕ}
    (hfind : naclVmmapFindMapSpace self numPages = .ok (map, page)) : self.Reordered map := by
  rw [naclVmmapFindMapSpace] at hfind
  split_ifs at hfind with hnil
  · cases hfind
    exact .refl h
  · obtain ⟨sorted, hsort, hmap, -⟩ := h.makeSorted_reordered
    rw [hsort] at hfind
    cases hfind
    exact hmap

theorem reordered_of_naclVmmapFindMapSpaceAboveHint (h : self.WellFormed)
    {uaddr numPages page : ℕ}
    (hfind : naclVmmapFindMapSpaceAboveHint self uaddr numPages = .ok (map, page)) :
    self.Reordered map := by
  obtain ⟨sorted, hsort, hmap, -⟩ := h.makeSorted_reordered
  rw [naclVmmapFindMapSpaceAboveHint, hsort] at hfind
  cases hfind
  exact hmap

theorem naclVmmapContainCmpEntries_eq_zero_iff {ent : NaClVmmapEntry} (pnum : ℕ)
    (hmax : ent.pageNum + ent.npages ≤ maxPage) :
    naclVmmapContainCmpEntries pnum ent = 0 ↔
      ent.pageNum ≤ pnum ∧ pnum < ent.pageNum + ent.npages := by
  rw [naclVmmapContainCmpEntries, uadd_eq (hmax.trans_lt (by decide))]
  split_ifs <;> simp <;> omega

theorem naclVmmapFindPageIter_spec (h : self.WellFormed) {pnum ix : ℕ}
    (hfind : naclVmmapFindPageIter self pnum = .ok (map, ix)) :
    self.Reordered map ∧ map.InOrder ∧ ∀ ent, map.vmentry[ix]? = some ent →
      ent.pageNum ≤ pnum ∧ pnum < ent.pageNum + ent.npages := by
  obtain ⟨sorted, hsort, hmap, hord⟩ := h.makeSorted_reordered
  rw [naclVmmapFindPageIter, hsort] at hfind
  cases hfind
  refine ⟨hmap, hord, fun ent hent => ?_⟩
  obtain ⟨hlt, rfl⟩ := List.getElem?_eq_some_iff.1 hent
  have hfound := List.findIdx_getElem (w := hlt)
  have hmax := hmap.wellFormed.entries.le_maxPage _ (List.getElem_mem hlt)
  exact (naclVmmapContainCmpEntries_eq_zero_iff pnum hmax).1 (of_decide_eq_true hfound)

theorem naclVmmapFindPageIter_found (h : self.WellFormed) {pnum : ℕ}
    (hcov : ∃ ent ∈ self.vmentry, ent.pageNum ≤ pnum ∧ pnum < ent.pageNum + ent.npages) :
    ∃ map ix ent, naclVmmapFindPageIter self pnum = .ok (map, ix) ∧ map.vmentry[ix]? = some ent ∧
      ent.pageNum ≤ pnum ∧ pnum < ent.pageNum + ent.npages := by
  obtain ⟨map, hsort, hmap, -⟩ := h.makeSorted_reordered
  obtain ⟨ent, he, hcov⟩ := hcov
  have he := hmap.perm.mem_iff.2 he
  have hmax := hmap.wellFormed.entries.le_maxPage ent he
  have hlt : map.vmentry.findIdx (fun ent => naclVmmapContainCmpEntries pnum ent = 0) <
      map.vmentry.length :=
    List.findIdx_lt_length_of_exists
      ⟨ent, he, decide_eq_true ((naclVmmapContainCmpEntries_eq_zero_iff pnum hmax).2 hcov)⟩
  have hfind : naclVmmapFindPageIter self pnum = .ok (map,
      map.vmentry.findIdx fun ent => naclVmmapContainCmpEntries pnum ent = 0) := by
    rw [naclVmmapFindPageIter, hsort]
    rfl
  have hget := List.getElem?_eq_getElem hlt
  exact ⟨map, _, _, hfind, hget, (naclVmmapFindPageIter_spec h hfind).2.2 _ hget⟩

/-! ## Entries in order -/

theorem NaClVmmap.InOrder.pageNum_le (h : map.InOrder) :
    map.vmentry.Pairwise fun a b => a.pageNum ≤ b.pageNum :=
  h.imp fun {_ _} hab => (Nat.le_add_right _ _).trans hab

theorem NaClVmmap.InOrder.mem_drop_iff (h : map.InOrder) (hwf : map.WellFormed) {ix : ℕ}
    {ent ent' : NaClVmmapEntry} (hix : map.vmentry[ix]? = some ent) :
    ent' ∈ map.vmentry.drop ix ↔ ent' ∈ map.vmentry ∧ ent.pageNum ≤ ent'.pageNum := by
  obtain ⟨hlt, rfl⟩ := List.getElem?_eq_some_iff.1 hix
  rw [NaClVmmap.InOrder, ← List.take_append_drop ix map.vmentry, List.pairwise_append,
    List.drop_eq_getElem_cons hlt, List.pairwise_cons] at h
  obtain ⟨-, ⟨hafter, -⟩, hbefore⟩ := h
  constructor
  · intro hmem
    refine ⟨List.mem_of_mem_drop hmem, ?_⟩
    rw [List.drop_eq_getElem_cons hlt] at hmem
    rcases List.mem_cons.1 hmem with rfl | hmem
    · exact le_rfl
    · exact (Nat.le_add_right _ _).trans (hafter ent' hmem)
  · rintro ⟨hmem, hle⟩
    rw [← List.take_append_drop ix map.vmentry] at hmem
    refine (List.mem_append.1 hmem).resolve_left fun htake => ?_
    have hend := hbefore ent' htake _ List.mem_cons_self
    have hpos := hwf.entries.tiles.lt ent' (List.mem_of_mem_take htake)
    rw [vmentryExtent_lo, vmentryExtent_hi] at hpos
    omega

end

end SandboxingNaCl
