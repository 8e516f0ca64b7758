import SandboxingNaCl.Vmmap.WellFormed
import SandboxingNaCl.Lib.Runs

/-!
# Adding and removing regions

`naclVmmapUpdateLoop_perm` says that the scan of `NaClVmmapUpdate` cuts the new region out of every
entry, whatever combination of shapes it meets.  From it, adding a region overrides the page
function on the region and removing one erases it there, over any sequence of calls.
-/

namespace SandboxingNaCl

open MachineInt IntervalMap

theorem lt_of_le_maxPage {n : ℕ} (h : n ≤ maxPage) : n < 2 ^ 64 := h.trans_lt (by decide)

theorem additionalOffset_eq {a b : ℕ} (hab : a ≤ b) (hb : b ≤ maxPage) :
    toInt64 (ushl (usub b a) naclPageShift) = ((b : ℤ) - a) * 2 ^ naclPageShift := by
  unfold maxPage at hb
  have hlt : (b - a) * 2 ^ naclPageShift < 2 ^ 63 := by unfold naclPageShift; omega
  rw [usub_eq hab (by omega), ushl_eq (by omega), toInt64_eq hlt]
  push_cast [Nat.cast_sub hab]
  rfl

theorem foldl_naclVmmapPush (self : NaClVmmap) (added : List NaClVmmapEntry)
    (h : self.vmentry.length ≤ self.size) (hpos : 0 < self.size) :
    (added.foldl naclVmmapPush self).vmentry = self.vmentry ++ added ∧
      (added.foldl naclVmmapPush self).vmentry.length ≤ (added.foldl naclVmmapPush self).size ∧
      0 < (added.foldl naclVmmapPush self).size := by
  induction added generalizing self with
  | nil => simpa using ⟨h, hpos⟩
  | cons ent added ih =>
    have hlen : (naclVmmapPush self ent).vmentry.length ≤ (naclVmmapPush self ent).size := by
      simp only [naclVmmapPush, List.length_append, List.length_singleton]
      split_ifs <;> omega
    have hsize : 0 < (naclVmmapPush self ent).size := by
      simp only [naclVmmapPush]
      split_ifs <;> omega
    obtain ⟨h₁, h₂⟩ := ih _ hlen hsize
    exact ⟨by simpa [naclVmmapPush] using h₁, h₂⟩

theorem eq_nil_of_isSorted_foldl_naclVmmapPush {self : NaClVmmap} {added : List NaClVmmapEntry}
    (h : (added.foldl naclVmmapPush self).isSorted = true) : added = [] := by
  rcases List.eq_nil_or_concat' added with rfl | ⟨init, last, rfl⟩
  · rfl
  · rw [List.foldl_append] at h
    cases h

section Loop

variable {pageNum newEnd : ℕ}

/-- The scan over entries in order cuts `[pageNum, newEnd)` out of all of them.  It may stop at the
first entry that reaches past the region because the entries after that one do not meet it. -/
theorem naclVmmapUpdateLoop_perm (hlt : pageNum < newEnd) (hend : newEnd < 2 ^ 64)
    (l : List NaClVmmapEntry) (hl : WellFormedEntries l)
    (hs : l.Pairwise fun a b => a.pageNum + a.npages ≤ b.pageNum) :
    ((naclVmmapUpdateLoop pageNum newEnd l).1.filter (!·.removed) ++
      (naclVmmapUpdateLoop pageNum newEnd l).2).Perm (vmentryExtent.carve l pageNum newEnd) ∧
    (naclVmmapUpdateLoop pageNum newEnd l).1.length = l.length := by
  induction l with
  | nil => exact ⟨List.Perm.nil, rfl⟩
  | cons ent rest ih =>
    obtain ⟨hpos, hmax, hrem⟩ := hl.head
    obtain ⟨hord, hs⟩ := List.pairwise_cons.1 hs
    obtain ⟨hperm, hlen⟩ := ih hl.of_cons hs
    have hadd : uadd ent.pageNum ent.npages = ent.pageNum + ent.npages :=
      uadd_eq (lt_of_le_maxPage hmax)
    have hstart : pageNum < 2 ^ 64 := hlt.trans hend
    -- after an entry that ends past the region the rest of the list is left as it is
    have hrest : newEnd < ent.pageNum + ent.npages →
        vmentryExtent.carve rest pageNum newEnd = rest := fun hgt =>
      Extent.carve_eq_self hl.of_cons.tiles.lt hlt.le fun b hb =>
        Or.inr (hgt.le.trans (hord b hb))
    rw [naclVmmapUpdateLoop, hadd, Extent.carve_cons]
    split_ifs with hmid hright hleft hall
    · obtain ⟨h₁, h₂⟩ := hmid
      have hout := Extent.outside_of_lt_of_lt (x := vmentryExtent) h₁ h₂ hlt.le
      rw [vmentryExtent_lo, restrict_pageNum, restrict_eq_make hrem] at hout
      rw [hrest h₂, hout, usub_eq h₁.le hstart, usub_eq h₂.le (lt_of_le_maxPage hmax),
        additionalOffset_eq (h₁.le.trans hlt.le) (h₂.le.trans hmax), List.filter_cons_of_pos (by simp [hrem]),
        hl.of_cons.filter_eq_self]
      exact ⟨(@List.perm_append_comm _ rest _).cons _, rfl⟩
    · obtain ⟨h₁, h₂⟩ := hright
      have hout := Extent.outside_of_lt_of_le (x := vmentryExtent) (t := newEnd) h₁ h₂
        (not_lt.1 fun h => hmid ⟨h₁, h⟩)
      rw [vmentryExtent_lo, restrict_pageNum] at hout
      rw [hout, usub_eq h₁.le hstart, List.filter_cons_of_pos (by simp [hrem])]
      exact ⟨hperm.cons _, by rw [List.length_cons, hlen, List.length_cons]⟩
    · obtain ⟨h₁, h₂⟩ := hleft
      have hle : pageNum ≤ ent.pageNum := not_lt.1 fun h => hmid ⟨h, h₂⟩
      have hout := Extent.outside_of_le_of_lt (x := vmentryExtent) hle h₁ h₂
      rw [restrict_eq_make hrem] at hout
      rw [hrest h₂, hout, usub_eq h₂.le (lt_of_le_maxPage hmax),
        additionalOffset_eq h₁.le (h₂.le.trans hmax), List.filter_cons_of_pos (by simp [hrem]), hl.of_cons.filter_eq_self, List.append_nil]
      exact ⟨by rw [hrem]; rfl, rfl⟩
    · obtain ⟨h₁, h₂⟩ := hall
      rw [Extent.outside_of_le_of_le (x := vmentryExtent) h₁ h₂,
        List.filter_cons_of_neg (by simp)]
      exact ⟨hperm, by rw [List.length_cons, hlen, List.length_cons]⟩
    · have hapart : ent.pageNum + ent.npages ≤ pageNum ∨ newEnd ≤ ent.pageNum := by omega
      rw [Extent.outside_eq_self (x := vmentryExtent) hpos hlt.le hapart,
        List.filter_cons_of_pos (by simp [hrem])]
      exact ⟨hperm.cons _, by rw [List.length_cons, hlen, List.length_cons]⟩

end Loop

/-! ## One call -/

section Update

variable {self : NaClVmmap} {pageNum npages : ℕ}

/-- The entry `NaClVmmapUpdate` adds at the end, if any. -/
def updateTail (pageNum npages : ℕ) (prot flags : BitVec 32) (remove : Bool)
    (desc : Option NaClDesc) (offset fileSize : ℤ) : List NaClVmmapEntry :=
  if remove then [] else [naclVmmapEntryMake pageNum npages prot flags desc offset fileSize]

variable (prot flags : BitVec 32) (remove : Bool) (desc : Option NaClDesc) (offset fileSize : ℤ)

theorem naclVmmapUpdate_eq {map : NaClVmmap} (hsort : naclVmmapMakeSorted self = .ok map)
    (hpos : 0 < npages) :
    naclVmmapUpdate self pageNum npages prot flags remove desc offset fileSize =
      let loop := naclVmmapUpdateLoop pageNum (uadd pageNum npages) map.vmentry
      naclVmmapRemoveMarked ((loop.2 ++ updateTail pageNum npages prot flags remove desc offset
        fileSize).foldl naclVmmapPush { map with vmentry := loop.1 }) := by
  simp only [naclVmmapUpdate, hsort, updateTail]
  cases remove <;> simp [bind, Except.bind, hpos.ne', naclVmmapAdd]

/-- The array when `NaClVmmapUpdate` comes to drop the marked entries: the unmarked ones are the old
entries with the region cut out, and the new region unless it is being removed. -/
private theorem naclVmmapUpdate_marked (h : self.WellFormed) (hpos : 0 < npages)
    (hend : pageNum + npages < 2 ^ 64) :
    ∃ map, naclVmmapUpdate self pageNum npages prot flags remove desc offset fileSize =
        naclVmmapRemoveMarked map ∧
      (map.vmentry.filter (!·.removed)).Perm
        (vmentryExtent.carve self.vmentry pageNum (pageNum + npages) ++
          updateTail pageNum npages prot flags remove desc offset fileSize) ∧
      (self.vmentry ≠ [] → map.vmentry ≠ []) ∧
      (self.vmentry = [] → remove = true → map.vmentry = []) ∧
      map.vmentry.length ≤ map.size ∧ 0 < map.size := by
  obtain ⟨l, hsort, hl, hord⟩ := h.makeSorted
  have hwf : WellFormedEntries l := h.entries.perm hl.symm
  have hadd : uadd pageNum npages = pageNum + npages := uadd_eq hend
  obtain ⟨hloop, hlen⟩ :=
    naclVmmapUpdateLoop_perm (Nat.lt_add_of_pos_right hpos) hend l hwf hord
  have hcarve := hl.flatMap_right (vmentryExtent.outside pageNum (pageNum + npages))
  have hadded : (naclVmmapUpdateLoop pageNum (pageNum + npages) l).2.filter (!·.removed) =
      (naclVmmapUpdateLoop pageNum (pageNum + npages) l).2 :=
    List.filter_eq_self.2 fun ent he => by
      have := (hwf.carve (Nat.le_add_right _ _)).not_removed ent
        (hloop.mem_iff.1 (List.mem_append_right _ he))
      simp [this]
  obtain ⟨hv, hsize, hsz⟩ := foldl_naclVmmapPush
    ⟨(naclVmmapUpdateLoop pageNum (pageNum + npages) l).1, self.size, true⟩
    ((naclVmmapUpdateLoop pageNum (pageNum + npages) l).2 ++
      updateTail pageNum npages prot flags remove desc offset fileSize)
    (by rw [hlen, hl.length_eq]; exact h.nvalid_le) h.size_pos
  refine ⟨_, naclVmmapUpdate_eq _ _ _ _ _ _ hsort hpos, ?_⟩
  rw [hadd]
  refine ⟨?_, fun hne hnil => hne ?_, fun hnil hremove => ?_, hsize, hsz⟩
  · have htail : (updateTail pageNum npages prot flags remove desc offset fileSize).filter
        (!·.removed) = updateTail pageNum npages prot flags remove desc offset fileSize := by
      unfold updateTail
      split_ifs <;> rfl
    rw [hv, List.filter_append, List.filter_append, htail, hadded, ← List.append_assoc]
    exact (hloop.trans hcarve).append_right _
  · rw [hv, List.append_eq_nil_iff, ← List.length_eq_zero_iff] at hnil
    rw [← List.length_eq_zero_iff, ← hl.length_eq, ← hlen]
    exact hnil.1
  · rw [hnil, List.perm_nil] at hl
    rw [hv, hl, hremove]
    rfl

/-- The entries after `NaClVmmapUpdate` are those before it with the region cut out, and the new
region unless it is being removed. -/
theorem naclVmmapUpdate_spec (h : self.WellFormed) (hpos : 0 < npages)
    (hend : pageNum + npages < 2 ^ 64)
    (hkeep : remove = true → self.vmentry = [] ∨
      vmentryExtent.carve self.vmentry pageNum (pageNum + npages) ≠ []) :
    ∃ map, naclVmmapUpdate self pageNum npages prot flags remove desc offset fileSize = .ok map ∧
      map.vmentry.Perm (vmentryExtent.carve self.vmentry pageNum (pageNum + npages) ++
        updateTail pageNum npages prot flags remove desc offset fileSize) ∧
      (map.isSorted = true → map.vmentry = []) ∧
      map.vmentry.length ≤ map.size ∧ 0 < map.size := by
  obtain ⟨full, heq, hfilter, -, hempty, hsize, hsz⟩ := naclVmmapUpdate_marked prot flags
    remove desc offset fileSize h hpos hend
  rw [heq]
  by_cases hnil : full.vmentry = []
  · refine ⟨full, naclVmmapRemoveMarked_nil hnil, ?_, fun _ => hnil, hsize, hsz⟩
    rw [hnil] at hfilter ⊢
    exact hfilter
  · have hne : full.vmentry.filter (!·.removed) ≠ [] := by
      intro hno
      rw [hno, List.nil_perm, List.append_eq_nil_iff, updateTail] at hfilter
      obtain ⟨hc, ht⟩ := hfilter
      have hremove : remove = true := by
        by_contra hr
        rw [if_neg hr] at ht
        cases ht
      exact hnil (hempty ((hkeep hremove).resolve_right (not_not_intro hc)) hremove)
    obtain ⟨ent, he⟩ := List.exists_mem_of_ne_nil _ hne
    obtain ⟨he, hlive⟩ := List.mem_filter.1 he
    obtain ⟨l', hok, hl'⟩ := naclVmmapRemoveMarked_spec ⟨ent, he, by simpa using hlive⟩
    refine ⟨_, hok, hl'.trans hfilter, by simp, ?_, hsz⟩
    exact (hl'.length_eq.trans_le (List.length_filter_le _ _)).trans hsize

theorem naclVmmapRemove_error (h : self.WellFormed) (hpos : 0 < npages)
    (hend : pageNum + npages < 2 ^ 64) (hne : self.vmentry ≠ [])
    (hall : vmentryExtent.carve self.vmentry pageNum (pageNum + npages) = []) :
    naclVmmapRemove self pageNum npages = .error .nullEntry := by
  obtain ⟨full, heq, hfilter, hfull, -⟩ := naclVmmapUpdate_marked 0 0 true none 0 0 h hpos
    hend
  rw [naclVmmapRemove, heq]
  refine naclVmmapRemoveMarked_error (hfull hne) fun ent he => ?_
  rw [hall, updateTail, if_pos rfl, List.append_nil, List.perm_nil,
    List.filter_eq_nil_iff] at hfilter
  simpa using hfilter ent he

/-! ## The page function -/

theorem NaClVmmap.WellFormed.of_perm {map : NaClVmmap} {l : List NaClVmmapEntry}
    (hl : WellFormedEntries l) (hperm : map.vmentry.Perm l)
    (hsorted : map.isSorted = true → map.vmentry = []) (hlen : map.vmentry.length ≤ map.size)
    (hsize : 0 < map.size) : map.WellFormed :=
  ⟨hl.perm hperm.symm, fun hs => by rw [hsorted hs]; exact List.Pairwise.nil, hlen, hsize⟩

theorem naclVmmapAddWithOverwrite_spec (h : self.WellFormed) (hpos : 0 < npages)
    (hmax : pageNum + npages ≤ maxPage) :
    ∃ map, naclVmmapAddWithOverwrite self pageNum npages prot flags desc offset fileSize = .ok map ∧
      map.WellFormed ∧ map.pageMap = override self.pageMap pageNum (pageNum + npages)
        fun page => some ⟨prot, flags, desc,
          offset + ((page : ℤ) - pageNum) * 2 ^ naclPageShift, fileSize⟩ := by
  obtain ⟨map, hok, hperm, hsorted, hlen, hsize⟩ := naclVmmapUpdate_spec prot flags false
    desc offset fileSize h hpos (lt_of_le_maxPage hmax) (by simp)
  have hst : pageNum ≤ pageNum + npages := Nat.le_add_right _ _
  let new := naclVmmapEntryMake pageNum npages prot flags desc offset fileSize
  have hnew : WellFormedEntries [new] := wellFormedEntries_singleton hpos hmax rfl
  have hin : ∀ b ∈ [new], pageNum ≤ vmentryExtent.lo b ∧
      vmentryExtent.hi b ≤ pageNum + npages := by
    simp [new, naclVmmapEntryMake]
  have htiles := h.entries.tiles.carve_append hnew.tiles hst hin
  refine ⟨map, hok, .of_perm ((h.entries.carve hst).append hnew htiles) hperm hsorted hlen hsize,
    ?_⟩
  have hmap := htiles.lookup_perm hperm.symm
  rw [NaClVmmap.pageMap, hmap, h.entries.tiles.lookup_carve_append hst hin]
  funext page
  unfold override
  split_ifs with hp
  · exact hnew.tiles.lookup_of_mem (List.mem_singleton_self new) hp
  · rfl

theorem naclVmmapRemove_spec (h : self.WellFormed) (hpos : 0 < npages)
    (hend : pageNum + npages < 2 ^ 64)
    (hkeep : self.vmentry = [] ∨
      vmentryExtent.carve self.vmentry pageNum (pageNum + npages) ≠ []) :
    ∃ map, naclVmmapRemove self pageNum npages = .ok map ∧ map.WellFormed ∧
      map.pageMap = override self.pageMap pageNum (pageNum + npages) fun _ => none := by
  obtain ⟨map, hok, hperm, hsorted, hlen, hsize⟩ := naclVmmapUpdate_spec 0 0 true none 0 0 h hpos
    hend fun _ => hkeep
  have hst : pageNum ≤ pageNum + npages := Nat.le_add_right _ _
  rw [updateTail, if_pos rfl, List.append_nil] at hperm
  refine ⟨map, hok, .of_perm (h.entries.carve hst) hperm hsorted hlen hsize, ?_⟩
  have hmap := (h.entries.tiles.carve hst).lookup_perm hperm.symm
  rw [NaClVmmap.pageMap, hmap, h.entries.tiles.lookup_carve hst]
  rfl

end Update

/-! ## Sequences of calls -/

/-- A call of one of the two operations. -/
inductive VmmapOp
  | addWithOverwrite (pageNum npages : ℕ) (prot flags : BitVec 32) (desc : Option NaClDesc)
      (offset fileSize : ℤ)
  | remove (pageNum npages : ℕ)

namespace VmmapOp

def run (self : NaClVmmap) : VmmapOp → Except VmmapFault NaClVmmap
  | addWithOverwrite pageNum npages prot flags desc offset fileSize =>
    naclVmmapAddWithOverwrite self pageNum npages prot flags desc offset fileSize
  | remove pageNum npages => naclVmmapRemove self pageNum npages

def pageNum : VmmapOp → ℕ
  | addWithOverwrite pageNum .. => pageNum
  | remove pageNum _ => pageNum

def npages : VmmapOp → ℕ
  | addWithOverwrite _ npages .. => npages
  | remove _ npages => npages

/-- What the call leaves on the pages of its region. -/
def info : VmmapOp → ℕ → Option PageInfo
  | addWithOverwrite pageNum _ prot flags desc offset fileSize, page =>
    some ⟨prot, flags, desc, offset + ((page : ℤ) - pageNum) * 2 ^ naclPageShift, fileSize⟩
  | remove _ _, _ => none

/-- The effect of the call on the page function: overwriting or erasure on its region. -/
def apply (f : ℕ → Option PageInfo) (op : VmmapOp) : ℕ → Option PageInfo := fun page =>
  if op.pageNum ≤ page ∧ page < op.pageNum + op.npages then op.info page else f page

/-- The call is one that removes every entry of a map that has some. -/
def RemovesAll (map : NaClVmmap) : VmmapOp → Prop
  | addWithOverwrite .. => False
  | remove pageNum npages => map.vmentry ≠ [] ∧ ∀ ent ∈ map.vmentry,
      pageNum ≤ ent.pageNum ∧ ent.pageNum + ent.npages ≤ pageNum + npages

instance (map : NaClVmmap) : (op : VmmapOp) → Decidable (op.RemovesAll map)
  | addWithOverwrite .. => inferInstanceAs (Decidable False)
  | remove .. => inferInstanceAs (Decidable (_ ∧ _))

/-- The region is one a caller may pass, and the call does not remove every entry at once. -/
structure Admissible (map : NaClVmmap) (op : VmmapOp) : Prop where
  npages_pos : 0 < op.npages
  le_maxPage : op.pageNum + op.npages ≤ maxPage
  not_removesAll : ¬ op.RemovesAll map

theorem run_spec {map : NaClVmmap} (h : map.WellFormed) (op : VmmapOp) (hop : op.Admissible map) :
    ∃ map', op.run map = .ok map' ∧ map'.WellFormed ∧ map'.pageMap = op.apply map.pageMap := by
  cases op with
  | addWithOverwrite pageNum npages prot flags desc offset fileSize =>
    exact naclVmmapAddWithOverwrite_spec _ _ _ _ _ h hop.npages_pos hop.le_maxPage
  | remove pageNum npages =>
    refine naclVmmapRemove_spec h hop.npages_pos (lt_of_le_maxPage hop.le_maxPage) ?_
    rw [or_iff_not_imp_left, Ne, Extent.carve_eq_nil_iff h.entries.tiles.lt]
    exact fun hne hall => hop.not_removesAll ⟨hne, hall⟩

end VmmapOp

/-- Over any sequence of admissible calls, after each of them, the entries are disjoint and
non-empty and the page function is the old one overwritten or erased region by region. -/
theorem vmmap_ops_refine (self : NaClVmmap) (h : self.WellFormed) (ops : List VmmapOp)
    (hops : Runs.Guarded VmmapOp.run (fun map op => op.Admissible map) self ops) :
    ∀ pre, pre <+: ops → ∃ map, pre.foldlM VmmapOp.run self = .ok map ∧ map.WellFormed ∧
      map.pageMap = pre.foldl VmmapOp.apply self.pageMap :=
  fun _ hpre => (hops.of_prefix hpre).simulates (fun _ op hs hop => VmmapOp.run_spec hs op hop) h

/-- A file mapped over eight pages, and a hole cut in its middle. -/
theorem vmmap_ops_refine_split :
    ∃ map, [VmmapOp.addWithOverwrite 16 8 3 2 (some ⟨7, 2, by decide⟩) 65536 (10 ^ 6),
        VmmapOp.remove 18 2].foldlM VmmapOp.run naclVmmapCtor = .ok map ∧ map.WellFormed ∧
      map.pageMap = [VmmapOp.addWithOverwrite 16 8 3 2 (some ⟨7, 2, by decide⟩) 65536 (10 ^ 6),
        VmmapOp.remove 18 2].foldl VmmapOp.apply naclVmmapCtor.pageMap :=
  have hops : Runs.Guarded VmmapOp.run VmmapOp.Admissible naclVmmapCtor
      [VmmapOp.addWithOverwrite 16 8 3 2 (some ⟨7, 2, by decide⟩) 65536 (10 ^ 6),
        VmmapOp.remove 18 2] :=
    .cons ⟨[⟨16, 8, 3, 2, false, some ⟨7, 2, by decide⟩, 65536, 10 ^ 6⟩], 5, false⟩
      ⟨by decide, by decide, id⟩ rfl <|
    .cons ⟨[⟨16, 2, 3, 2, false, some ⟨7, 2, by decide⟩, 65536, 10 ^ 6⟩,
        ⟨20, 4, 3, 2, false, some ⟨7, 2, by decide⟩, 81920, 10 ^ 6⟩], 5, false⟩
      ⟨by decide, by decide, by decide⟩ rfl trivial
  vmmap_ops_refine naclVmmapCtor naclVmmapCtor_wellFormed _ hops _ (List.prefix_refl _)

end SandboxingNaCl
