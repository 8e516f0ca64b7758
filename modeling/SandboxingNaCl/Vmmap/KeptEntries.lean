import SandboxingNaCl.Vmmap.ChangeProt
import SandboxingNaCl.Vmmap.Search

/-!
# Entries that an operation keeps

An operation on the pages from `s` on keeps the entries in front of them as they are, not only the
page function there: none is split, joined with another or rewritten.
-/

namespace SandboxingNaCl

open MachineInt IntervalMap

/-- The entries that end at the page `s` or in front of it are kept, and if no entry ends behind the
page `t`, none does afterwards. -/
structure NaClVmmap.Keeps (s t : ℕ) (map map' : NaClVmmap) : Prop where
  below : ∀ ent ∈ map.vmentry, ent.pageNum + ent.npages ≤ s → ent ∈ map'.vmentry
  le : (∀ ent ∈ map.vmentry, ent.pageNum + ent.npages ≤ t) →
    ∀ ent ∈ map'.vmentry, ent.pageNum + ent.npages ≤ t

namespace NaClVmmap.Keeps

variable {map map' map'' : NaClVmmap} {s s' t : ℕ}

theorem of_perm (s t : ℕ) (h : map'.vmentry.Perm map.vmentry) : Keeps s t map map' :=
  ⟨fun _ he _ => h.mem_iff.2 he, fun hle ent he => hle ent (h.mem_iff.1 he)⟩

theorem refl (s t : ℕ) (map : NaClVmmap) : Keeps s t map map := .of_perm s t (List.Perm.refl _)

theorem trans (h : Keeps s t map map') (h' : Keeps s t map' map'') : Keeps s t map map'' :=
  ⟨fun ent he hs => h'.below ent (h.below ent he hs) hs, fun hle => h'.le (h.le hle)⟩

theorem mono (h : Keeps s t map map') (hs : s' ≤ s) : Keeps s' t map map' :=
  ⟨fun ent he hle => h.below ent he (hle.trans hs), h.le⟩

theorem of_carve {a b : ℕ} {l : List NaClVmmapEntry} (hwf : map.WellFormed) (hsa : s ≤ a)
    (hab : a ≤ b) (hbt : b ≤ t) (hl : ∀ ent ∈ l, ent.pageNum + ent.npages ≤ b)
    (hperm : map'.vmentry.Perm (vmentryExtent.carve map.vmentry a b ++ l)) :
    Keeps s t map map' := by
  refine ⟨fun ent he hs => ?_, fun hle ent he => ?_⟩
  · refine hperm.mem_iff.2 (List.mem_append_left _ (List.mem_flatMap.2 ⟨ent, he, ?_⟩))
    have hpos := hwf.entries.tiles.lt ent he
    rw [Extent.outside_eq_self hpos hab (Or.inl (hs.trans hsa))]
    exact List.mem_singleton_self ent
  · rcases List.mem_append.1 (hperm.mem_iff.1 he) with he | he
    · obtain ⟨old, hold, he⟩ := List.mem_flatMap.1 he
      exact (Extent.lo_hi_of_mem_outside he).2.1.trans (hle old hold)
    · exact (hl ent he).trans hbt

end NaClVmmap.Keeps

section

variable {self map : NaClVmmap} {pageNum npages s t : ℕ} {prot : BitVec 32}

theorem keeps_naclVmmapAddWithOverwrite {flags : BitVec 32} {desc : Option NaClDesc}
    {offset fileSize : ℤ} (h : self.WellFormed) (hpos : 0 < npages) (hs : s ≤ pageNum)
    (ht : pageNum + npages ≤ t) (hmax : pageNum + npages ≤ maxPage)
    (hrun : naclVmmapAddWithOverwrite self pageNum npages prot flags desc offset fileSize =
      .ok map) : self.Keeps s t map := by
  obtain ⟨map', hok, hperm, -⟩ := naclVmmapUpdate_spec prot flags false desc offset fileSize h hpos
    (lt_of_le_maxPage hmax) nofun
  obtain rfl : map' = map := Except.ok.inj (hok.symm.trans hrun)
  refine .of_carve h hs (Nat.le_add_right _ _) ht (fun ent he => ?_) hperm
  obtain rfl := List.mem_singleton.1 he
  exact le_rfl

theorem keeps_naclVmmapRemove (h : self.WellFormed) (hpos : 0 < npages) (hs : s ≤ pageNum)
    (ht : pageNum + npages ≤ t) (hmax : pageNum + npages ≤ maxPage)
    (hrun : naclVmmapRemove self pageNum npages = .ok map) : self.Keeps s t map := by
  by_cases hkeep : self.vmentry = [] ∨
      vmentryExtent.carve self.vmentry pageNum (pageNum + npages) ≠ []
  · obtain ⟨map', hok, hperm, -⟩ := naclVmmapUpdate_spec 0 0 true none 0 0 h hpos
      (lt_of_le_maxPage hmax) fun _ => hkeep
    obtain rfl : map' = map := Except.ok.inj (hok.symm.trans hrun)
    exact .of_carve h hs (Nat.le_add_right _ _) ht (fun _ he => absurd he List.not_mem_nil) hperm
  · push Not at hkeep
    rw [naclVmmapRemove_error h hpos (lt_of_le_maxPage hmax) hkeep.1 hkeep.2] at hrun
    cases hrun

theorem keeps_naclVmmapChangeProt {r : ℕ} (h : self.WellFormed) (hs : s ≤ pageNum)
    (ht : pageNum + npages ≤ t) (hmax : pageNum + npages ≤ maxPage)
    (hrun : naclVmmapChangeProt self pageNum npages prot = .ok (r, map)) : self.Keeps s t map := by
  have hend := lt_of_le_maxPage hmax
  obtain ⟨ok, checked, hcheck, -, hsame, hok⟩ :=
    naclVmmapCheckExistingMapping_spec h pageNum npages prot
  cases ok with
  | false =>
    have hrefused : naclVmmapChangeProt self pageNum npages prot = .ok (0, checked) := by
      simp [naclVmmapChangeProt, hcheck, bind, Except.bind, pure, Except.pure]
    cases hrefused.symm.trans hrun
    exact .of_perm s t hsame
  | true =>
    rcases Nat.eq_zero_or_pos npages with rfl | hpos
    · -- a region without pages stops the loop at once
      have hloop : naclVmmapChangeProtLoop (uadd pageNum 0) prot pageNum 0 checked.vmentry =
          (checked.vmentry, []) := by
        cases checked.vmentry with
        | nil => rfl
        | cons ent rest => rw [naclVmmapChangeProtLoop, if_pos rfl]
      have hsorted : naclVmmapChangeProt self pageNum 0 prot =
          .ok (1, { checked with isSorted := true }) := by
        simp [naclVmmapChangeProt, hcheck, naclVmmapMakeSorted, (hok rfl).1, hloop, bind,
          Except.bind, pure, Except.pure]
      cases hsorted.symm.trans hrun
      exact .of_perm s t hsame
    · obtain ⟨map', hok, -, hperm⟩ := naclVmmapChangeProt_perm h hend hpos hcheck
      cases hok.symm.trans hrun
      exact .of_carve h hs (Nat.le_add_right _ _) ht
        (fun ent he => (flatMap_changedPiece_bounds he).2) hperm

theorem keeps_set {ix last : ℕ} {ent : NaClVmmapEntry} (hix : self.vmentry[ix]? = some ent)
    (hs : s < ent.pageNum + ent.npages) (hle : ent.pageNum ≤ last + 1) (ht : last + 1 ≤ t) :
    self.Keeps s t { self with
      vmentry := self.vmentry.set ix { ent with npages := last + 1 - ent.pageNum } } := by
  obtain ⟨hlt, rfl⟩ := List.getElem?_eq_some_iff.1 hix
  refine ⟨fun old hold hle => ?_, fun hall new hnew => ?_⟩
  · obtain ⟨j, hj, rfl⟩ := List.mem_iff_getElem.1 hold
    have hne : ix ≠ j := by
      rintro rfl
      omega
    refine List.mem_iff_getElem.2 ⟨j, by rwa [List.length_set], ?_⟩
    exact List.getElem_set_ne hne _
  · rcases List.mem_or_eq_of_mem_set hnew with hold | rfl
    · exact hall new hold
    · dsimp only
      omega

end

end SandboxingNaCl
