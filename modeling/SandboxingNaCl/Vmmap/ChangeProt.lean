import SandboxingNaCl.Vmmap.Update

/-!
# Changing protection

`NaClVmmapChangeProt` splits entries the way `NaClVmmapUpdate` does, and gives the pieces inside the
region the new protection.  A piece cut from the inside of an entry gets its file offset from the
distance in pages, not in bytes (`changedPiece`), so the page function keeps its file offsets only
when the region starts at the first page of an entry.
-/

namespace SandboxingNaCl

open MachineInt IntervalMap

/-! ## The scan -/

/-- The pages of `ent` in `[s, t)` as `NaClVmmapChangeProt` records them. -/
def changedPiece (prot : BitVec 32) (s t : ℕ) (ent : NaClVmmapEntry) : List NaClVmmapEntry :=
  if max ent.pageNum s < min (ent.pageNum + ent.npages) t then
    [naclVmmapEntryMake (max ent.pageNum s) (min (ent.pageNum + ent.npages) t - max ent.pageNum s)
      prot ent.flags ent.desc (ent.offset + (max ent.pageNum s - ent.pageNum : ℕ)) ent.fileSize]
  else []

section Loop

variable {newEnd : ℕ} {prot : BitVec 32} {s s' : ℕ} {ent : NaClVmmapEntry}
  {l : List NaClVmmapEntry}

theorem changedPiece_congr (hs : s ≤ ent.pageNum) (hs' : s' ≤ ent.pageNum) :
    changedPiece prot s newEnd ent = changedPiece prot s' newEnd ent := by
  unfold changedPiece
  rw [max_eq_left hs, max_eq_left hs']

theorem changedPiece_of_le (h : ent.pageNum + ent.npages ≤ s ∨ newEnd ≤ ent.pageNum) :
    changedPiece prot s newEnd ent = [] :=
  if_neg (by omega)

private theorem perm_of_head_of_tail {α : Type*} {k₂ a₂ o₂ m₂ : List α} (k₁ a₁ o₁ m₁ : List α)
    (h₁ : (k₁ ++ a₁).Perm (o₁ ++ m₁)) (h₂ : (k₂ ++ a₂).Perm (o₂ ++ m₂)) :
    ((k₁ ++ k₂) ++ (a₁ ++ a₂)).Perm ((o₁ ++ o₂) ++ (m₁ ++ m₂)) := by
  have swap : ∀ a b c d : List α, ((a ++ b) ++ (c ++ d)).Perm ((a ++ c) ++ (b ++ d)) := by
    intro a b c d
    rw [List.append_assoc, List.append_assoc]
    refine List.Perm.append_left a ?_
    rw [← List.append_assoc, ← List.append_assoc]
    exact List.perm_append_comm.append_right d
  exact (swap _ _ _ _).trans ((h₁.append h₂).trans (swap _ _ _ _))

theorem naclVmmapChangeProtLoop_zero (pageNum : ℕ) (l : List NaClVmmapEntry) :
    naclVmmapChangeProtLoop newEnd prot pageNum 0 l = (l, []) := by
  cases l with
  | nil => rfl
  | cons ent rest => rw [naclVmmapChangeProtLoop, if_pos rfl]

theorem flatMap_changedPiece_eq_nil (h : ∀ ent ∈ l, newEnd ≤ ent.pageNum) :
    l.flatMap (changedPiece prot s newEnd) = [] :=
  List.flatMap_eq_nil_iff.2 fun ent he => changedPiece_of_le (Or.inr (h ent he))

/-- A region that passed the check is gone through entry by entry, each cut into its parts outside
the region and its part inside. -/
theorem naclVmmapChangeProtLoop_perm (l : List NaClVmmapEntry) (hl : WellFormedEntries l)
    (hs : l.Pairwise fun a b => a.pageNum + a.npages ≤ b.pageNum) (pageNum : ℕ)
    (hlt : pageNum < newEnd) (hend : newEnd ≤ maxPage)
    (hcheck : naclVmmapCheckExistingMappingLoop newEnd prot pageNum l = true) :
    ((naclVmmapChangeProtLoop newEnd prot pageNum (newEnd - pageNum) l).1 ++
      (naclVmmapChangeProtLoop newEnd prot pageNum (newEnd - pageNum) l).2).Perm
      (vmentryExtent.carve l pageNum newEnd ++ l.flatMap (changedPiece prot pageNum newEnd)) ∧
    (naclVmmapChangeProtLoop newEnd prot pageNum (newEnd - pageNum) l).1.length = l.length := by
  induction l generalizing pageNum with
  | nil => simp [naclVmmapCheckExistingMappingLoop] at hcheck
  | cons ent rest ih =>
    obtain ⟨hpos, hmax, hrem⟩ := hl.head
    obtain ⟨hord, hs⟩ := List.pairwise_cons.1 hs
    have hcast : ∀ n ≤ maxPage, n < 2 ^ 64 := fun n hn => hn.trans_lt (by decide)
    have hadd : uadd ent.pageNum ent.npages = ent.pageNum + ent.npages :=
      uadd_eq (hcast _ hmax)
    have hlo : ent.pageNum ≤ pageNum := by
      by_contra hgt
      simp [naclVmmapCheckExistingMappingLoop, hgt, not_le.1 hgt] at hcheck
    rw [naclVmmapCheckExistingMappingLoop, hadd] at hcheck
    -- the entries after one that reaches the end of the region are left alone
    have hrest : newEnd ≤ ent.pageNum + ent.npages →
        vmentryExtent.carve rest pageNum newEnd = rest ∧
          rest.flatMap (changedPiece prot pageNum newEnd) = [] := fun hge =>
      ⟨Extent.carve_eq_self hl.of_cons.tiles.lt hlt.le fun b hb =>
        Or.inr (hge.trans (hord b hb)),
        flatMap_changedPiece_eq_nil fun b hb => hge.trans (hord b hb)⟩
    -- the scan goes on after an entry that ends inside the region or with it
    have hnext : pageNum < ent.pageNum + ent.npages → ent.pageNum + ent.npages ≤ newEnd →
        ((naclVmmapChangeProtLoop newEnd prot (ent.pageNum + ent.npages)
            (newEnd - (ent.pageNum + ent.npages)) rest).1 ++
          (naclVmmapChangeProtLoop newEnd prot (ent.pageNum + ent.npages)
            (newEnd - (ent.pageNum + ent.npages)) rest).2).Perm
          (vmentryExtent.carve rest pageNum newEnd ++
            rest.flatMap (changedPiece prot pageNum newEnd)) ∧
        (naclVmmapChangeProtLoop newEnd prot (ent.pageNum + ent.npages)
            (newEnd - (ent.pageNum + ent.npages)) rest).1.length = rest.length := by
      intro h₁ h₂
      rcases h₂.eq_or_lt with h₂ | h₂
      · obtain ⟨hc, hm⟩ := hrest h₂.ge
        rw [hc, hm, h₂, Nat.sub_self, naclVmmapChangeProtLoop_zero]
        exact ⟨List.Perm.refl _, rfl⟩
      · rw [if_neg (by omega), if_pos ⟨hlo, h₁⟩] at hcheck
        split_ifs at hcheck with hprot
        have hcongr : rest.flatMap (changedPiece prot pageNum newEnd) =
            rest.flatMap (changedPiece prot (ent.pageNum + ent.npages) newEnd) :=
          List.flatMap_congr fun b hb =>
            changedPiece_congr (h₁.le.trans (hord b hb)) (hord b hb)
        rw [Extent.carve_congr fun b hb => ⟨h₁.le.trans (hord b hb), hord b hb⟩, hcongr]
        exact ih hl.of_cons hs _ h₂ hcheck
    rw [naclVmmapChangeProtLoop, if_neg (by omega), hadd, Extent.carve_cons,
      List.flatMap_cons]
    have hstart : pageNum < 2 ^ 63 := by unfold maxPage at hend; omega
    have hslip : toInt64 (pageNum - ent.pageNum) = (pageNum - ent.pageNum : ℕ) :=
      toInt64_eq (by omega)
    dsimp only
    split_ifs with hmid hright hleft hall
    · obtain ⟨h₁, h₂⟩ := hmid
      have hout := Extent.outside_of_lt_of_lt (x := vmentryExtent) h₁ h₂ hlt.le
      rw [vmentryExtent_lo, restrict_pageNum, restrict_eq_make hrem] at hout
      have hin : changedPiece prot pageNum newEnd ent = [naclVmmapEntryMake pageNum
          (newEnd - pageNum) prot ent.flags ent.desc (ent.offset + (pageNum - ent.pageNum : ℕ))
          ent.fileSize] := by
        rw [changedPiece, max_eq_right h₁.le, min_eq_right h₂.le, if_pos hlt]
      obtain ⟨hc, hm⟩ := hrest h₂.le
      rw [hc, hm, hout, hin, usub_eq h₁.le (by omega), usub_eq h₂.le (hcast _ hmax),
        additionalOffset_eq (h₁.le.trans hlt.le) hend, hslip]
      refine ⟨?_, rfl⟩
      exact perm_of_head_of_tail [_] [_, _] [_, _] [_] (List.Perm.refl _) (List.Perm.refl _)
    · obtain ⟨h₁, h₂⟩ := hright
      have hle : ent.pageNum + ent.npages ≤ newEnd := not_lt.1 fun h => hmid ⟨h₁, h⟩
      have hout := Extent.outside_of_lt_of_le (x := vmentryExtent) (t := newEnd) h₁ h₂ hle
      rw [vmentryExtent_lo, restrict_pageNum] at hout
      have hin : changedPiece prot pageNum newEnd ent = [naclVmmapEntryMake pageNum
          (ent.pageNum + ent.npages - pageNum) prot ent.flags ent.desc
          (ent.offset + (pageNum - ent.pageNum : ℕ)) ent.fileSize] := by
        rw [changedPiece, max_eq_right h₁.le, min_eq_left hle, if_pos h₂]
      obtain ⟨hperm, hlen⟩ := hnext h₂ hle
      rw [hout, hin, usub_eq h₁.le (by omega), usub_eq h₂.le (hcast _ hmax),
        usub_eq hle (hcast _ hend), hslip]
      exact ⟨perm_of_head_of_tail [_] [_] [_] [_] (List.Perm.refl _) hperm,
        by rw [List.length_cons, hlen, List.length_cons]⟩
    · obtain ⟨h₁, h₂⟩ := hleft
      have heq : ent.pageNum = pageNum := hlo.antisymm (not_lt.1 fun h => hmid ⟨h, h₂⟩)
      have hout := Extent.outside_of_le_of_lt (x := vmentryExtent) (s := pageNum) heq.ge h₁ h₂
      rw [restrict_eq_make hrem] at hout
      have hin : changedPiece prot pageNum newEnd ent = [naclVmmapEntryMake pageNum
          (newEnd - pageNum) prot ent.flags ent.desc ent.offset ent.fileSize] := by
        rw [changedPiece, heq, max_self, min_eq_right (heq ▸ h₂.le), if_pos hlt, Nat.sub_self,
          Nat.cast_zero, add_zero]
      obtain ⟨hc, hm⟩ := hrest h₂.le
      rw [hc, hm, hout, hin, usub_eq h₂.le (hcast _ hmax), additionalOffset_eq h₁.le hend]
      refine ⟨?_, rfl⟩
      exact perm_of_head_of_tail [_] [_] [_] [_]
        (by rw [hrem]; exact List.Perm.refl _) (List.Perm.refl _)
    · obtain ⟨h₁, h₂⟩ := hall
      have heq : ent.pageNum = pageNum := hlo.antisymm h₁
      have hin : changedPiece prot pageNum newEnd ent = [{ ent with prot := prot }] := by
        rw [changedPiece, heq, max_self, min_eq_left (heq ▸ h₂), if_pos (heq ▸ hpos),
          Nat.sub_self, Nat.cast_zero, add_zero, Nat.add_sub_cancel_left, ← heq]
        simp [naclVmmapEntryMake, hrem]
      obtain ⟨hperm, hlen⟩ := hnext (heq ▸ hpos) h₂
      rw [Extent.outside_of_le_of_le (x := vmentryExtent) h₁ h₂, hin,
        usub_eq h₂ (hcast _ hend)]
      exact ⟨perm_of_head_of_tail [_] [] [] [_] (List.Perm.refl _) hperm,
        by rw [List.length_cons, hlen, List.length_cons]⟩
    · have hle : ent.pageNum + ent.npages ≤ pageNum := by omega
      rw [if_neg (by omega), if_neg (by omega), if_neg (by omega)] at hcheck
      obtain ⟨hperm, hlen⟩ := ih hl.of_cons hs pageNum hlt hcheck
      rw [Extent.outside_eq_self (x := vmentryExtent) hpos hlt.le (Or.inl hle),
        changedPiece_of_le (Or.inl hle)]
      exact ⟨perm_of_head_of_tail [_] [] [_] [] (List.Perm.refl _) hperm,
        by rw [List.length_cons, hlen, List.length_cons]⟩

theorem map_pageNum_naclVmmapChangeProtLoop (newEnd : ℕ) (prot : BitVec 32) (pageNum npages : ℕ)
    (l : List NaClVmmapEntry)
    (h : (naclVmmapChangeProtLoop newEnd prot pageNum npages l).2 = []) :
    (naclVmmapChangeProtLoop newEnd prot pageNum npages l).1.map (·.pageNum) =
      l.map (·.pageNum) := by
  induction l generalizing pageNum npages with
  | nil => rfl
  | cons ent rest ih =>
    rw [naclVmmapChangeProtLoop] at h ⊢
    dsimp only at h ⊢
    split_ifs at h ⊢ with h₀
    · rfl
    all_goals rw [List.map_cons, List.map_cons, ih _ _ h]

theorem le_maxPage_of_check (hl : WellFormedEntries l) (pageNum : ℕ)
    (h : naclVmmapCheckExistingMappingLoop newEnd prot pageNum l = true) : newEnd ≤ maxPage := by
  induction l generalizing pageNum with
  | nil => simp [naclVmmapCheckExistingMappingLoop] at h
  | cons ent rest ih =>
    have hmax := hl.head.2.1
    have hadd : uadd ent.pageNum ent.npages = ent.pageNum + ent.npages :=
      uadd_eq (hmax.trans_lt (by decide))
    rw [naclVmmapCheckExistingMappingLoop, hadd] at h
    split_ifs at h with hin hover hprot hgap
    · exact hin.2.trans hmax
    · exact ih hl.of_cons _ h
    · exact ih hl.of_cons _ h

theorem covers_of_check (hl : WellFormedEntries l) (pageNum : ℕ)
    (h : naclVmmapCheckExistingMappingLoop newEnd prot pageNum l = true) :
    ∀ page, pageNum ≤ page → page < newEnd → ∃ ent ∈ l, vmentryExtent.Covers ent page := by
  induction l generalizing pageNum with
  | nil => simp [naclVmmapCheckExistingMappingLoop] at h
  | cons ent rest ih =>
    intro page hlo hhi
    have hadd : uadd ent.pageNum ent.npages = ent.pageNum + ent.npages :=
      uadd_eq (hl.head.2.1.trans_lt (by decide))
    have htail : ∀ pageNum', naclVmmapCheckExistingMappingLoop newEnd prot pageNum' rest = true →
        pageNum' ≤ page → ∃ ent' ∈ ent :: rest, vmentryExtent.Covers ent' page := by
      intro pageNum' h' hlo'
      obtain ⟨ent', he, hcov⟩ := ih hl.of_cons pageNum' h' page hlo' hhi
      exact ⟨ent', List.mem_cons_of_mem _ he, hcov⟩
    rw [naclVmmapCheckExistingMappingLoop, hadd] at h
    split_ifs at h with hin hover hprot hgap
    · exact ⟨ent, List.mem_cons_self, hin.1.trans hlo, hhi.trans_le hin.2⟩
    · rcases lt_or_ge page (ent.pageNum + ent.npages) with hlt | hge
      · exact ⟨ent, List.mem_cons_self, hover.1.trans hlo, hlt⟩
      · exact htail _ h hge
    · exact htail _ h hlo

end Loop

/-! ## The pieces inside the region -/

section Pieces

variable {prot : BitVec 32} {s t : ℕ} {ent b : NaClVmmapEntry} {l : List NaClVmmapEntry}

theorem mem_changedPiece (h : b ∈ changedPiece prot s t ent) :
    b.pageNum = max ent.pageNum s ∧
      b.pageNum + b.npages = min (ent.pageNum + ent.npages) t ∧ b.pageNum < b.pageNum + b.npages ∧
      b.removed = false := by
  unfold changedPiece at h
  split_ifs at h with hlt
  · rw [List.mem_singleton.1 h]
    simp only [naclVmmapEntryMake, true_and, and_true]
    omega
  · cases h

theorem tiles_changedPiece : vmentryExtent.Tiles (changedPiece prot s t ent) := by
  refine ⟨fun b hb => (mem_changedPiece hb).2.2.1, ?_⟩
  unfold changedPiece
  split_ifs
  · exact List.pairwise_singleton _ _
  · exact List.Pairwise.nil

theorem WellFormedEntries.flatMap_changedPiece (h : WellFormedEntries l) (prot : BitVec 32)
    (s t : ℕ) :
    WellFormedEntries (l.flatMap (changedPiece prot s t)) := by
  refine ⟨h.tiles.flatMap _ (fun _ _ => tiles_changedPiece) fun ent _ b hb => ?_,
    fun b hb => ?_, fun b hb => ?_⟩
  · have := mem_changedPiece hb
    simp only [vmentryExtent_lo, vmentryExtent_hi]
    omega
  · obtain ⟨ent, he, hb⟩ := List.mem_flatMap.1 hb
    have := h.le_maxPage ent he
    have := mem_changedPiece hb
    omega
  · obtain ⟨ent, he, hb⟩ := List.mem_flatMap.1 hb
    exact (mem_changedPiece hb).2.2.2

theorem flatMap_changedPiece_bounds (hb : b ∈ l.flatMap (changedPiece prot s t)) :
    s ≤ vmentryExtent.lo b ∧ vmentryExtent.hi b ≤ t := by
  obtain ⟨ent, -, hb⟩ := List.mem_flatMap.1 hb
  have := mem_changedPiece hb
  simp only [vmentryExtent_lo, vmentryExtent_hi]
  omega

/-- The pieces say of a page in the region what the entry that covers it does, with the new
protection and an offset that counts the pages skipped at the start of the entry as bytes. -/
theorem lookup_flatMap_changedPiece (h : WellFormedEntries l) (he : ent ∈ l) {page : ℕ}
    (hs : s ≤ page) (ht : page < t) (hcov : vmentryExtent.Covers ent page) :
    vmentryExtent.lookup (l.flatMap (changedPiece prot s t)) page =
      some ⟨prot, ent.flags, ent.desc, ent.offset + (max ent.pageNum s - ent.pageNum : ℕ) +
        ((page : ℤ) - (max ent.pageNum s : ℕ)) * 2 ^ naclPageShift, ent.fileSize⟩ := by
  obtain ⟨hlo, hhi⟩ := hcov
  rw [vmentryExtent_lo] at hlo
  rw [vmentryExtent_hi] at hhi
  have hlt : max ent.pageNum s < min (ent.pageNum + ent.npages) t := by omega
  have hpiece : changedPiece prot s t ent = [_] := if_pos hlt
  have hmem := List.mem_flatMap.2 ⟨ent, he, hpiece ▸ List.mem_singleton_self _⟩
  refine ((h.flatMap_changedPiece prot s t).tiles.lookup_of_mem hmem ?_).trans rfl
  simp only [Extent.Covers, vmentryExtent_lo, vmentryExtent_hi, naclVmmapEntryMake]
  omega

theorem lookup_flatMap_changedPiece_none {page : ℕ}
    (hcov : vmentryExtent.lookup l page = none) :
    vmentryExtent.lookup (l.flatMap (changedPiece prot s t)) page = none := by
  rw [Extent.lookup_eq_none_iff] at hcov ⊢
  intro b hb hpage
  obtain ⟨ent, he, hb⟩ := List.mem_flatMap.1 hb
  have := mem_changedPiece hb
  refine hcov ent he ?_
  simp only [Extent.Covers, vmentryExtent_lo, vmentryExtent_hi] at hpage ⊢
  omega

end Pieces

/-! ## One call -/

section ChangeProt

variable {self : NaClVmmap} {pageNum npages : ℕ} {prot : BitVec 32}

theorem naclVmmapCheckExistingMapping_spec (h : self.WellFormed) (pageNum npages : ℕ)
    (prot : BitVec 32) :
    ∃ ok map, naclVmmapCheckExistingMapping self pageNum npages prot = .ok (ok, map) ∧
      map.WellFormed ∧ map.vmentry.Perm self.vmentry ∧
      (ok = true → map.isSorted = true ∧
        naclVmmapCheckExistingMappingLoop (uadd pageNum npages) prot pageNum map.vmentry =
          true) := by
  by_cases hnil : self.vmentry.length = 0
  · refine ⟨false, self, ?_, h, List.Perm.refl _, by simp⟩
    rw [naclVmmapCheckExistingMapping, if_pos hnil]
    rfl
  · obtain ⟨l, hsort, hl, hord⟩ := h.makeSorted
    refine ⟨_, { self with vmentry := l, isSorted := true }, ?_,
      ⟨h.entries.perm hl.symm, fun _ => ?_, ?_, h.size_pos⟩, hl, fun hok => ⟨rfl, hok⟩⟩
    · rw [naclVmmapCheckExistingMapping, if_neg hnil, hsort]
      rfl
    · exact hord.imp fun {a b} hab => (Nat.le_add_right _ _).trans hab
    · exact hl.length_eq.trans_le h.nvalid_le

/-- An accepted call on a region that is not empty cuts every entry into its parts outside the
region and its piece inside. -/
theorem naclVmmapChangeProt_perm (h : self.WellFormed) (hr : pageNum + npages < 2 ^ 64)
    (hpos : 0 < npages) {map : NaClVmmap}
    (hcheck : naclVmmapCheckExistingMapping self pageNum npages prot = .ok (true, map)) :
    ∃ map', naclVmmapChangeProt self pageNum npages prot = .ok (1, map') ∧ map'.WellFormed ∧
      map'.vmentry.Perm (vmentryExtent.carve self.vmentry pageNum (pageNum + npages) ++
        self.vmentry.flatMap (changedPiece prot pageNum (pageNum + npages))) := by
  obtain ⟨ok, map₀, hcheck₀, hmap, hperm, hok⟩ :=
    naclVmmapCheckExistingMapping_spec h pageNum npages prot
  rw [hcheck] at hcheck₀
  cases hcheck₀
  obtain ⟨hsorted, hloop⟩ := hok rfl
  rw [uadd_eq hr] at hloop
  have hend := le_maxPage_of_check hmap.entries pageNum hloop
  have hord := hmap.entries.tiles.pairwise_hi_le_lo (hmap.sorted hsorted)
  have hrun : naclVmmapChangeProt self pageNum npages prot =
      .ok (1, (naclVmmapChangeProtLoop (pageNum + npages) prot pageNum npages
        map.vmentry).2.foldl naclVmmapPush { map with
          vmentry := (naclVmmapChangeProtLoop (pageNum + npages) prot pageNum npages
            map.vmentry).1 }) := by
    simp [naclVmmapChangeProt, hcheck, naclVmmapMakeSorted, hsorted, uadd_eq hr, bind,
      Except.bind, pure, Except.pure]
  refine ⟨_, hrun, ?_⟩
  have hst : pageNum ≤ pageNum + npages := Nat.le_add_right _ _
  have hscan := naclVmmapChangeProtLoop_perm map.vmentry hmap.entries hord pageNum
    (Nat.lt_add_of_pos_right hpos) hend hloop
  have hmids := hmap.entries.flatMap_changedPiece prot pageNum (pageNum + npages)
  have htiles := hmap.entries.tiles.carve_append hmids.tiles hst
    fun b hb => flatMap_changedPiece_bounds hb
  rw [Nat.add_sub_cancel_left] at hscan
  obtain ⟨hscan, hlen⟩ := hscan
  have hunmoved := map_pageNum_naclVmmapChangeProtLoop (pageNum + npages) prot
    pageNum npages map.vmentry
  generalize naclVmmapChangeProtLoop (pageNum + npages) prot pageNum npages map.vmentry =
    loop at hscan hlen hunmoved ⊢
  obtain ⟨hv, hsize, hsz⟩ := foldl_naclVmmapPush { map with vmentry := loop.1 } loop.2
    (hlen.trans_le hmap.nvalid_le) hmap.size_pos
  refine ⟨⟨?_, fun hflag => ?_, hsize, hsz⟩, ?_⟩
  · rw [hv]
    exact ((hmap.entries.carve hst).append hmids htiles).perm hscan.symm
  · have hnone := eq_nil_of_isSorted_foldl_naclVmmapPush hflag
    rw [hv, hnone, List.append_nil]
    have hle : (map.vmentry.map (·.pageNum)).Pairwise (· ≤ ·) :=
      List.pairwise_map.2 (hmap.sorted hsorted)
    rw [← hunmoved hnone] at hle
    exact List.pairwise_map.1 hle
  · rw [hv]
    exact hscan.trans ((hperm.flatMap_right _).append (hperm.flatMap_right _))

/-- A refused call changes nothing; an accepted one overrides the page function on the region with
that of the pieces. -/
theorem naclVmmapChangeProt_spec (h : self.WellFormed) (hr : pageNum + npages < 2 ^ 64)
    (prot : BitVec 32) :
    ∃ ok map, naclVmmapCheckExistingMapping self pageNum npages prot = .ok (ok, map) ∧
      ∃ map', naclVmmapChangeProt self pageNum npages prot = .ok (if ok then 1 else 0, map') ∧
        map'.WellFormed ∧
        map'.pageMap = if ok then
            override self.pageMap pageNum (pageNum + npages) (vmentryExtent.lookup
              (self.vmentry.flatMap (changedPiece prot pageNum (pageNum + npages))))
          else self.pageMap := by
  obtain ⟨ok, map, hcheck, hmap, hperm, hok⟩ :=
    naclVmmapCheckExistingMapping_spec h pageNum npages prot
  refine ⟨ok, map, hcheck, ?_⟩
  cases ok with
  | false =>
    refine ⟨map, ?_, hmap, h.entries.tiles.lookup_perm hperm.symm⟩
    rw [naclVmmapChangeProt, hcheck]
    rfl
  | true =>
    obtain ⟨hsorted, -⟩ := hok rfl
    rw [if_pos rfl, if_pos rfl]
    rcases Nat.eq_zero_or_pos npages with rfl | hpos
    · refine ⟨map, ?_, hmap, ?_⟩
      · simp [naclVmmapChangeProt, hcheck, naclVmmapMakeSorted, hsorted, bind, Except.bind, pure,
          Except.pure, naclVmmapChangeProtLoop_zero]
        rw [← hsorted]
      · rw [override_of_le (Nat.add_zero pageNum).le]
        exact h.entries.tiles.lookup_perm hperm.symm
    · obtain ⟨map', hrun, hwf, hscan⟩ := naclVmmapChangeProt_perm h hr hpos hcheck
      have hst : pageNum ≤ pageNum + npages := Nat.le_add_right _ _
      refine ⟨map', hrun, hwf, ?_⟩
      rw [NaClVmmap.pageMap, ← hwf.entries.tiles.lookup_perm hscan]
      exact h.entries.tiles.lookup_carve_append hst fun b hb => flatMap_changedPiece_bounds hb

/-- The call refuses and leaves the page function alone, or it changes the protection of the pages
of the region and nothing else of any page; the entries stay disjoint and non-empty. -/
def ChangeProtCorrect (self : NaClVmmap) (pageNum npages : ℕ) (prot : BitVec 32) : Prop :=
  ∃ result map, naclVmmapChangeProt self pageNum npages prot = .ok (result, map) ∧
    map.WellFormed ∧
    (result = 0 ∧ map.pageMap = self.pageMap ∨
      result = 1 ∧ map.pageMap = fun page =>
        if pageNum ≤ page ∧ page < pageNum + npages then
          (self.pageMap page).map fun info => { info with prot := prot }
        else self.pageMap page)

def ChangeProtRefused (self : NaClVmmap) (pageNum npages : ℕ) (prot : BitVec 32) : Prop :=
  ∃ map, naclVmmapCheckExistingMapping self pageNum npages prot = .ok (false, map)

def InsideEntry (self : NaClVmmap) (page : ℕ) : Prop :=
  ∃ ent ∈ self.vmentry, ent.pageNum < page ∧ page < ent.pageNum + ent.npages

/-- The pieces give the pages of the region what the claimed change gives them, when no entry
contains the start of the region in its inside. -/
theorem lookup_flatMap_changedPiece_of_not_inside (h : self.WellFormed)
    (hin : ¬ InsideEntry self pageNum) {page : ℕ} (hs : pageNum ≤ page)
    (ht : page < pageNum + npages) :
    vmentryExtent.lookup (self.vmentry.flatMap (changedPiece prot pageNum (pageNum + npages)))
      page = (self.pageMap page).map fun info => { info with prot := prot } := by
  rcases hp : self.pageMap page with _ | info
  · exact lookup_flatMap_changedPiece_none hp
  · obtain ⟨ent, he, hcov, rfl⟩ := h.entries.tiles.lookup_eq_some_iff.1 hp
    have hstart : pageNum ≤ ent.pageNum := by
      by_contra hlt
      exact hin ⟨ent, he, not_le.1 hlt, hs.trans_lt hcov.2⟩
    rw [lookup_flatMap_changedPiece h.entries he hs ht hcov, max_eq_left hstart, Nat.sub_self,
      Nat.cast_zero, add_zero]
    rfl

theorem lookup_flatMap_changedPiece_of_inside (h : self.WellFormed) (hpos : 0 < npages)
    (hin : InsideEntry self pageNum) :
    vmentryExtent.lookup (self.vmentry.flatMap (changedPiece prot pageNum (pageNum + npages)))
      pageNum ≠ (self.pageMap pageNum).map fun info => { info with prot := prot } := by
  obtain ⟨ent, he, hlt, hgt⟩ := hin
  have hcov : vmentryExtent.Covers ent pageNum := ⟨hlt.le, hgt⟩
  have hold : self.pageMap pageNum = some (vmentryExtent.val ent pageNum) :=
    h.entries.tiles.lookup_of_mem he hcov
  rw [lookup_flatMap_changedPiece h.entries he le_rfl (Nat.lt_add_of_pos_right hpos) hcov, hold,
    max_eq_right hlt.le, Option.map_some]
  intro heq
  have hoff := congrArg PageInfo.fileOffset (Option.some.inj heq)
  simp only [vmentryExtent, naclPageShift] at hoff
  omega

/-- `NaClVmmapChangeProt` keeps every page's place in the file exactly when it refuses, when the
region is empty, or when the region does not start inside an entry. -/
theorem changeProtCorrect_iff (self : NaClVmmap) (h : self.WellFormed) (pageNum npages : ℕ)
    (prot : BitVec 32) (hr : pageNum + npages < 2 ^ 64) :
    ChangeProtCorrect self pageNum npages prot ↔
      ChangeProtRefused self pageNum npages prot ∨ npages = 0 ∨ ¬ InsideEntry self pageNum := by
  obtain ⟨ok, map, hcheck, map', hrun, hwf, hmap⟩ := naclVmmapChangeProt_spec h hr prot
  cases ok with
  | false =>
    refine iff_of_true ⟨_, map', hrun, hwf, Or.inl ⟨rfl, hmap⟩⟩ (Or.inl ⟨map, hcheck⟩)
  | true =>
    rw [if_pos rfl] at hmap
    constructor
    · rintro ⟨result, map'', hrun', -, hcorrect⟩
      rw [hrun] at hrun'
      cases hrun'
      obtain ⟨hzero, -⟩ | ⟨-, hcorrect⟩ := hcorrect
      · cases hzero
      · by_contra hno
        push Not at hno
        obtain ⟨-, hne, hin⟩ := hno
        have hpos : 0 < npages := Nat.pos_of_ne_zero hne
        have hpage : pageNum ≤ pageNum ∧ pageNum < pageNum + npages := by omega
        have := congrFun (hmap.symm.trans hcorrect) pageNum
        rw [override, if_pos hpage, if_pos hpage] at this
        exact lookup_flatMap_changedPiece_of_inside h hpos hin this
    · intro hcond
      refine ⟨_, map', hrun, hwf, Or.inr ⟨rfl, hmap.trans ?_⟩⟩
      funext page
      unfold override
      split_ifs with hpage
      · obtain ⟨map'', href⟩ | hzero | hin := hcond
        · rw [hcheck] at href
          cases href
        · omega
        · exact lookup_flatMap_changedPiece_of_not_inside h hin hpage.1 hpage.2
      · rfl

def oneFile : NaClVmmap :=
  ⟨[⟨16, 8, 3, 0, false, some ⟨7, 2, readWrite_ne⟩, 0, 32768⟩], 5, true⟩

theorem oneFile_wellFormed : oneFile.WellFormed where
  entries := wellFormedEntries_singleton (by decide) (by decide) rfl
  sorted _ := List.pairwise_singleton _ _
  nvalid_le := by decide
  size_pos := by decide

theorem changeProtCorrect_iff_oneFile :
    ChangeProtCorrect oneFile 16 3 1 ↔
      ChangeProtRefused oneFile 16 3 1 ∨ 3 = 0 ∨ ¬ InsideEntry oneFile 16 :=
  changeProtCorrect_iff oneFile oneFile_wellFormed 16 3 1 (by decide)

/-- The second page alone made read-only: it comes out at file offset 1 instead of 4096. -/
theorem not_changeProtCorrect_oneFile :
    oneFile.WellFormed ∧ ¬ ChangeProtCorrect oneFile 17 1 1 := by
  refine ⟨oneFile_wellFormed, ?_⟩
  rintro ⟨result, map, hrun, -, hcorrect⟩
  have heval : naclVmmapChangeProt oneFile 17 1 1 = .ok (1, ⟨[
      ⟨16, 1, 3, 0, false, some ⟨7, 2, by decide⟩, 0, 32768⟩,
      ⟨18, 6, 3, 0, false, some ⟨7, 2, by decide⟩, 8192, 32768⟩,
      ⟨17, 1, 1, 0, false, some ⟨7, 2, by decide⟩, 1, 32768⟩], 5, false⟩) := rfl
  rw [heval] at hrun
  cases hrun
  obtain ⟨hzero, -⟩ | ⟨-, hcorrect⟩ := hcorrect
  · cases hzero
  · exact absurd (congrFun hcorrect 17) (by decide)

end ChangeProt

end SandboxingNaCl
