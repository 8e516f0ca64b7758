import SandboxingNaCl.Vmmap.Model
import Mathlib.Tactic.Ring

/-!
# Well-formed memory maps

`NaClVmmap.pageMap` is what the map is for: the function from page numbers to the protection, the
flags, the descriptor and the position in the file of the page.  `NaClVmmap.WellFormed` is the
invariant of the array behind it, and this file shows that dropping the marked entries and sorting
change neither.
-/

namespace SandboxingNaCl

open MachineInt IntervalMap

/-- What the map records of one page. -/
structure PageInfo where
  prot : BitVec 32
  flags : BitVec 32
  desc : Option NaClDesc
  fileOffset : ℤ
  fileSize : ℤ
deriving DecidableEq

/-- The pages of an entry, and what it says of each. -/
def vmentryExtent : Extent NaClVmmapEntry PageInfo where
  lo ent := ent.pageNum
  hi ent := ent.pageNum + ent.npages
  val ent page :=
    ⟨ent.prot, ent.flags, ent.desc, ent.offset + ((page : ℤ) - ent.pageNum) * 2 ^ naclPageShift,
      ent.fileSize⟩
  restrict ent s t :=
    { ent with
      pageNum := s
      npages := t - s
      offset := ent.offset + ((s : ℤ) - ent.pageNum) * 2 ^ naclPageShift }
  lo_restrict _ _ _ := rfl
  hi_restrict _ s t h := Nat.add_sub_cancel' h
  val_restrict ent s _ page := by
    simp only [PageInfo.mk.injEq, true_and, and_true]
    ring
  restrict_self ent _ := by simp

def NaClVmmap.pageMap (self : NaClVmmap) : ℕ → Option PageInfo := vmentryExtent.lookup self.vmentry

@[simp] theorem vmentryExtent_lo (ent : NaClVmmapEntry) : vmentryExtent.lo ent = ent.pageNum := rfl

@[simp] theorem vmentryExtent_hi (ent : NaClVmmapEntry) :
    vmentryExtent.hi ent = ent.pageNum + ent.npages := rfl

theorem restrict_pageNum (ent : NaClVmmapEntry) (s : ℕ) :
    vmentryExtent.restrict ent ent.pageNum s = { ent with npages := s - ent.pageNum } := by
  simp [vmentryExtent]

theorem restrict_eq_make {ent : NaClVmmapEntry} (h : ent.removed = false) (s t : ℕ) :
    vmentryExtent.restrict ent s t = naclVmmapEntryMake s (t - s) ent.prot ent.flags ent.desc
      (ent.offset + ((s : ℤ) - ent.pageNum) * 2 ^ naclPageShift) ent.fileSize := by
  simp [vmentryExtent, naclVmmapEntryMake, h]

/-- Page numbers stay below this bound, under which `NaClVmmapCmpEntries` orders them.  The callers
pass pages of user addresses, which are below `2 ^ 32 >> NACL_PAGESHIFT`. -/
def maxPage : ℕ := 2 ^ 31

/-- Entries that are non-empty, pairwise disjoint, in range and not marked. -/
structure WellFormedEntries (l : List NaClVmmapEntry) : Prop where
  tiles : vmentryExtent.Tiles l
  le_maxPage : ∀ ent ∈ l, ent.pageNum + ent.npages ≤ maxPage
  not_removed : ∀ ent ∈ l, ent.removed = false

/-- The invariant of the map: the sorted flag tells the truth and the array has room. -/
structure NaClVmmap.WellFormed (map : NaClVmmap) : Prop where
  entries : WellFormedEntries map.vmentry
  sorted : map.isSorted = true → map.vmentry.Pairwise fun a b => a.pageNum ≤ b.pageNum
  nvalid_le : map.vmentry.length ≤ map.size
  size_pos : 0 < map.size

theorem naclVmmapCtor_wellFormed : naclVmmapCtor.WellFormed :=
  ⟨⟨Extent.tiles_nil, by simp [naclVmmapCtor], by simp [naclVmmapCtor]⟩, by simp [naclVmmapCtor],
    by simp [naclVmmapCtor], by decide⟩

section

variable {l l' : List NaClVmmapEntry} {self : NaClVmmap}

theorem WellFormedEntries.perm (h : WellFormedEntries l) (hl : l.Perm l') : WellFormedEntries l' :=
  ⟨h.tiles.perm hl, fun ent he => h.le_maxPage ent (hl.mem_iff.2 he),
    fun ent he => h.not_removed ent (hl.mem_iff.2 he)⟩

theorem WellFormedEntries.of_cons {ent : NaClVmmapEntry} (h : WellFormedEntries (ent :: l)) :
    WellFormedEntries l :=
  ⟨h.tiles.of_cons, fun b hb => h.le_maxPage b (List.mem_cons_of_mem _ hb),
    fun b hb => h.not_removed b (List.mem_cons_of_mem _ hb)⟩

theorem WellFormedEntries.head {ent : NaClVmmapEntry} (h : WellFormedEntries (ent :: l)) :
    ent.pageNum < ent.pageNum + ent.npages ∧ ent.pageNum + ent.npages ≤ maxPage ∧
      ent.removed = false :=
  ⟨h.tiles.lt ent List.mem_cons_self, h.le_maxPage ent List.mem_cons_self,
    h.not_removed ent List.mem_cons_self⟩

theorem WellFormedEntries.append (h : WellFormedEntries l) (h' : WellFormedEntries l')
    (hl : vmentryExtent.Tiles (l ++ l')) : WellFormedEntries (l ++ l') :=
  ⟨hl, fun ent he => (List.mem_append.1 he).elim (h.le_maxPage ent) (h'.le_maxPage ent),
    fun ent he => (List.mem_append.1 he).elim (h.not_removed ent) (h'.not_removed ent)⟩

theorem WellFormedEntries.carve (h : WellFormedEntries l) {s t : ℕ} (hst : s ≤ t) :
    WellFormedEntries (vmentryExtent.carve l s t) := by
  refine ⟨h.tiles.carve hst, fun b hb => ?_, fun b hb => ?_⟩
  · obtain ⟨a, ha, hb⟩ := List.mem_flatMap.1 hb
    exact (Extent.lo_hi_of_mem_outside hb).2.1.trans (h.le_maxPage a ha)
  · obtain ⟨a, ha, hb⟩ := List.mem_flatMap.1 hb
    rcases List.mem_append.1 hb with hb | hb
    all_goals
      obtain ⟨-, rfl⟩ := Extent.mem_piece.1 hb
      exact h.not_removed a ha

theorem wellFormedEntries_singleton {ent : NaClVmmapEntry} (hpos : 0 < ent.npages)
    (hmax : ent.pageNum + ent.npages ≤ maxPage) (hrem : ent.removed = false) :
    WellFormedEntries [ent] :=
  ⟨Extent.tiles_singleton (Nat.lt_add_of_pos_right hpos), by simpa using hmax, by simpa using hrem⟩

theorem WellFormedEntries.pageNum_lt (h : WellFormedEntries l) {ent : NaClVmmapEntry}
    (he : ent ∈ l) : ent.pageNum < 2 ^ 31 :=
  lt_of_lt_of_le (h.tiles.lt ent he) (h.le_maxPage ent he)

theorem WellFormedEntries.filter_eq_self (h : WellFormedEntries l) :
    l.filter (!·.removed) = l :=
  List.filter_eq_self.2 fun ent he => by simp [h.not_removed ent he]

/-! ## Removing marked entries -/

private theorem rdropWhile_last_live (l : List NaClVmmapEntry) :
    ∀ ent ∈ (l.rdropWhile (·.removed)).getLast?, ent.removed = false := by
  intro ent he
  obtain ⟨hne, rfl⟩ := List.mem_getLast?_eq_getLast he
  simpa using List.rdropWhile_last_not (·.removed) l hne

private theorem filter_rdropWhile (l : List NaClVmmapEntry) :
    (l.rdropWhile (·.removed)).filter (!·.removed) = l.filter (!·.removed) := by
  conv_rhs => rw [← List.rdropWhile_append_rtakeWhile (p := (·.removed)) (l := l),
    List.filter_append]
  rw [List.self_eq_append_right, List.filter_eq_nil_iff]
  intro ent he
  simpa using List.mem_rtakeWhile_imp he

theorem moveEndToFront_perm (n : ℕ) (l : List NaClVmmapEntry) (hn : l.length ≤ n)
    (hl : ∀ ent ∈ l.getLast?, ent.removed = false) :
    (moveEndToFront n l).Perm (l.filter (!·.removed)) := by
  induction n generalizing l with
  | zero =>
    obtain rfl := List.length_eq_zero_iff.1 (Nat.le_zero.1 hn)
    exact List.Perm.nil
  | succ n ih =>
    rcases l with _ | ⟨ent, rest⟩
    · exact List.Perm.nil
    · rw [List.length_cons, Nat.succ_le_succ_iff] at hn
      rcases List.eq_nil_or_concat' rest with rfl | ⟨init, last, rfl⟩
      · have hent : ent.removed = false := hl ent rfl
        simpa [moveEndToFront, hent] using ih [] (Nat.zero_le n) (by simp)
      · have hlast : last.removed = false := hl last (by rw [← List.cons_append, List.getLast?_concat]; rfl)
        by_cases hent : ent.removed = true
        · have hlen : (init.rdropWhile (·.removed)).length ≤ n := by
            have := (List.rdropWhile_prefix (p := (·.removed)) (l := init)).length_le
            rw [List.length_append] at hn
            omega
          have := ih _ hlen (rdropWhile_last_live init)
          rw [filter_rdropWhile] at this
          have hmove : moveEndToFront (n + 1) (ent :: (init ++ [last])) =
              last :: moveEndToFront n (init.rdropWhile (·.removed)) := by
            simp [moveEndToFront, hent]
          rw [hmove, List.filter_cons_of_neg (by simpa using hent), List.filter_append,
            List.filter_singleton, hlast]
          exact (this.cons last).trans (List.perm_append_singleton _ _).symm
        · have := ih (init ++ [last]) hn (by simpa using hlast)
          rw [moveEndToFront, if_neg hent, List.filter_cons_of_pos (by simpa using hent)]
          exact this.cons ent

theorem naclVmmapRemoveMarked_nil (h : self.vmentry = []) :
    naclVmmapRemoveMarked self = .ok self := by
  rw [naclVmmapRemoveMarked, if_pos (by rw [h]; rfl)]

theorem naclVmmapRemoveMarked_spec (h : ∃ ent ∈ self.vmentry, ent.removed = false) :
    ∃ l, naclVmmapRemoveMarked self = .ok { self with vmentry := l, isSorted := false } ∧
      l.Perm (self.vmentry.filter (!·.removed)) := by
  obtain ⟨ent, he, hent⟩ := h
  have hlen : ¬ self.vmentry.length = 0 := by
    rw [List.length_eq_zero_iff]
    exact List.ne_nil_of_mem he
  have hne : self.vmentry.rdropWhile (·.removed) ≠ [] := by
    rw [Ne, List.rdropWhile_eq_nil_iff]
    intro hall
    rw [hall ent he] at hent
    cases hent
  rw [naclVmmapRemoveMarked, if_neg hlen]
  split
  · next hnil => exact absurd hnil hne
  · refine ⟨_, rfl, ?_⟩
    have := moveEndToFront_perm _ _ le_rfl (rdropWhile_last_live self.vmentry)
    rwa [filter_rdropWhile] at this

theorem naclVmmapRemoveMarked_error (hne : self.vmentry ≠ [])
    (h : ∀ ent ∈ self.vmentry, ent.removed = true) :
    naclVmmapRemoveMarked self = .error .nullEntry := by
  have hnil : self.vmentry.rdropWhile (·.removed) = [] := List.rdropWhile_eq_nil_iff.2 h
  rw [naclVmmapRemoveMarked, if_neg (by rwa [List.length_eq_zero_iff]), hnil]

theorem WellFormedEntries.naclVmmapRemoveMarked (h : WellFormedEntries self.vmentry) :
    ∃ l b, naclVmmapRemoveMarked self = .ok { self with vmentry := l, isSorted := b } ∧
      l.Perm self.vmentry := by
  rcases hv : self.vmentry with _ | ⟨ent, rest⟩
  · refine ⟨[], self.isSorted, ?_, List.Perm.nil⟩
    rw [naclVmmapRemoveMarked_nil hv, ← hv]
  · have he : ent ∈ self.vmentry := by simp [hv]
    obtain ⟨l, hok, hl⟩ := naclVmmapRemoveMarked_spec ⟨ent, he, h.not_removed ent he⟩
    rw [h.filter_eq_self, hv] at hl
    exact ⟨l, false, hok, hl⟩

/-! ## Sorting -/

theorem qsortEntries_eq (h : WellFormedEntries l) :
    qsortEntries l = l.insertionSort fun left right => left.pageNum ≤ right.pageNum := by
  have := List.map_insertionSort (fun left right => naclVmmapCmpEntries left right ≤ 0)
    (fun left right : NaClVmmapEntry => left.pageNum ≤ right.pageNum) id l fun a ha b hb =>
      toInt32_usub_nonpos_iff (h.pageNum_lt ha) (h.pageNum_lt hb)
  simpa [qsortEntries] using this

theorem perm_qsortEntries (l : List NaClVmmapEntry) : (qsortEntries l).Perm l :=
  List.perm_insertionSort _ l

theorem pairwise_qsortEntries (h : WellFormedEntries l) :
    (qsortEntries l).Pairwise fun a b => a.pageNum ≤ b.pageNum := by
  rw [qsortEntries_eq h]
  have : Std.Total fun a b : NaClVmmapEntry => a.pageNum ≤ b.pageNum :=
    ⟨fun a b => le_total a.pageNum b.pageNum⟩
  have : IsTrans NaClVmmapEntry fun a b => a.pageNum ≤ b.pageNum :=
    ⟨fun _ _ _ hab hbc => hab.trans hbc⟩
  exact List.pairwise_insertionSort _ l

theorem NaClVmmap.WellFormed.makeSorted (h : self.WellFormed) :
    ∃ l, naclVmmapMakeSorted self = .ok { self with vmentry := l, isSorted := true } ∧
      l.Perm self.vmentry ∧ l.Pairwise fun a b => a.pageNum + a.npages ≤ b.pageNum := by
  rcases hs : self.isSorted with _ | _
  · obtain ⟨l, b, hok, hl⟩ := h.entries.naclVmmapRemoveMarked
    have hwf : WellFormedEntries l := h.entries.perm hl.symm
    have hq := perm_qsortEntries l
    refine ⟨qsortEntries l, ?_, hq.trans hl, ?_⟩
    · rw [naclVmmapMakeSorted, hs, hok]
      rfl
    · exact (hwf.perm hq.symm).tiles.pairwise_hi_le_lo (pairwise_qsortEntries hwf)
  · refine ⟨self.vmentry, ?_, List.Perm.refl _, h.entries.tiles.pairwise_hi_le_lo (h.sorted hs)⟩
    rw [naclVmmapMakeSorted, hs, if_pos rfl, ← hs]
    rfl

end

end SandboxingNaCl
