import SandboxingNaCl.Lib.Runs
import SandboxingNaCl.Lib.SortedRanges
import SandboxingNaCl.Service.NaclText

/-!
# The table of dynamic regions

The search of `NaClDynamicRegionFindClosestLEQ` finds the last region that starts at an address or
before it, so the table stays sorted and its regions apart, and it holds what was created and not
deleted.
-/

namespace SandboxingNaCl

open MachineInt SortedRanges

def NaClDynamicRegion.stop (region : NaClDynamicRegion) : ℕ := region.start + region.size

/-- The table is sorted, its regions are apart and it fits its allocation. -/
structure DynamicText.RegionsSound (text : DynamicText) : Prop where
  separated : Separated NaClDynamicRegion.start NaClDynamicRegion.stop text.regions
  stop_lt : ∀ region ∈ text.regions, region.stop < 2 ^ 64
  allocated : text.regions.length ≤ text.regionsAllocated

/-! ## The search -/

section Search

variable {regions : List NaClDynamicRegion} {ptr first last : ℕ}

/-- What the search knows of the range `[first, last)` it is down to. -/
structure SearchRange (regions : List NaClDynamicRegion) (ptr first last : ℕ) : Prop where
  lt : first < last
  le : last ≤ regions.length
  first_le : ∃ region, regions[first]? = some region ∧ region.start ≤ ptr
  lt_last : ∀ j region, regions[j]? = some region → last ≤ j → ptr < region.start

theorem SearchRange.narrow (h : SearchRange regions ptr first last)
    (hs : Separated NaClDynamicRegion.start NaClDynamicRegion.stop regions) {mid : ℕ}
    (hlo : first < mid) (hhi : mid < last) :
    if ∃ region ∈ regions[mid]?, region.start ≤ ptr then SearchRange regions ptr mid last
    else SearchRange regions ptr first mid := by
  have hmid : mid < regions.length := hhi.trans_le h.le
  split_ifs with hle
  · obtain ⟨region, hregion, hle⟩ := hle
    exact ⟨hhi, h.le, ⟨region, hregion, hle⟩, h.lt_last⟩
  · refine ⟨hlo, hmid.le, h.first_le, fun j region hregion hj => ?_⟩
    have hlt : ptr < regions[mid].start :=
      not_le.1 fun hle' => hle ⟨_, List.getElem?_eq_getElem hmid, hle'⟩
    exact hlt.trans_le (hs.start_le hj (List.getElem?_eq_getElem hmid) hregion)

theorem searchRange_binarySearchRegions
    (hs : Separated NaClDynamicRegion.start NaClDynamicRegion.stop regions) (n : ℕ)
    (h : SearchRange regions ptr first last) :
    SearchRange regions ptr (binarySearchRegions regions ptr n first last).1
      (binarySearchRegions regions ptr n first last).2 := by
  induction n generalizing first last with
  | zero => exact h
  | succ n ih =>
    unfold binarySearchRegions
    dsimp only
    split_ifs with hlong hmid
    · have hnarrow := h.narrow hs (show first < first + (last - first) / 2 by omega) (by omega)
      rw [if_pos hmid] at hnarrow
      exact ih hnarrow
    · have hnarrow := h.narrow hs (show first < first + (last - first) / 2 by omega) (by omega)
      rw [if_neg hmid] at hnarrow
      exact ih hnarrow
    · exact h

theorem isLastLE_scanRegions
    (hs : Separated NaClDynamicRegion.start NaClDynamicRegion.stop regions) (n : ℕ)
    (h : SearchRange regions ptr first last) (hn : last ≤ first + n) :
    IsLastLE NaClDynamicRegion.start regions ptr (some (scanRegions regions ptr n first last)) := by
  induction n generalizing first with
  | zero => exact absurd h.lt (not_lt.2 hn)
  | succ n ih =>
    unfold scanRegions
    split_ifs with hnext
    · obtain ⟨hlt, region, hregion, hle⟩ := hnext
      exact ih ⟨hlt, h.le, ⟨region, hregion, hle⟩, h.lt_last⟩ (by omega)
    · refine ⟨h.first_le, fun j region hregion hj => ?_⟩
      -- The next region ends the range that is left, or starts behind `ptr`.
      rcases Nat.lt_or_ge (first + 1) last with hlt | hge
      · have hfirst : first + 1 < regions.length := hlt.trans_le h.le
        have hbehind : ptr < regions[first + 1].start := not_le.1 fun hle =>
          hnext ⟨hlt, _, List.getElem?_eq_getElem hfirst, hle⟩
        exact hbehind.trans_le (hs.start_le hj (List.getElem?_eq_getElem hfirst) hregion)
      · exact h.lt_last j region hregion (hge.trans hj)

theorem isLastLE_naclDynamicRegionFindClosestLEQ
    (hs : Separated NaClDynamicRegion.start NaClDynamicRegion.stop regions) (ptr : ℕ) :
    IsLastLE NaClDynamicRegion.start regions ptr (naclDynamicRegionFindClosestLEQ regions ptr) := by
  unfold naclDynamicRegionFindClosestLEQ
  cases regions with
  | nil => exact fun _ h => absurd h List.not_mem_nil
  | cons head tail =>
    have hlast : (head :: tail).getLast? = (head :: tail)[tail.length]? := by
      rw [List.getLast?_eq_getElem?]
      rfl
    obtain ⟨region, hregion⟩ : ∃ region, (head :: tail)[tail.length]? = some region :=
      ⟨_, List.getElem?_eq_getElem (Nat.lt_succ_self _)⟩
    rw [hlast, hregion]
    dsimp only [List.head?_cons]
    split_ifs with hle hlt
    · refine ⟨⟨region, hregion, hle⟩, fun j b hb hj => ?_⟩
      have := (List.getElem?_eq_some_iff.1 hb).1
      simp only [List.length_cons] at this hj
      omega
    · intro a ha
      obtain ⟨j, hj⟩ := List.mem_iff_getElem?.1 ha
      exact (lt_of_lt_of_le hlt (hs.start_le (Nat.zero_le j) rfl hj))
    · have hrange : SearchRange (head :: tail) ptr 0 (head :: tail).length := by
        refine ⟨Nat.succ_pos _, le_rfl, ⟨head, rfl, not_lt.1 hlt⟩, fun j b hb hj => ?_⟩
        exact absurd (List.getElem?_eq_some_iff.1 hb).1 (not_lt.2 hj)
      have hfound := searchRange_binarySearchRegions hs (head :: tail).length hrange
      exact isLastLE_scanRegions hs _ hfound (hfound.le.trans (Nat.le_add_left _ _))

end Search

/-! ## Finding, creating and deleting regions -/

section Table

variable {text : DynamicText} {start size : ℕ}

theorem DynamicText.RegionsSound.uadd_eq (h : text.RegionsSound) {ix : ℕ}
    {region : NaClDynamicRegion} (hix : text.regions[ix]? = some region) :
    uadd region.start region.size = region.stop :=
  MachineInt.uadd_eq (h.stop_lt region (List.mem_of_getElem? hix))

theorem usub_uadd_one {ptr size : ℕ} (hsize : 0 < size) (hwrap : ptr + size ≤ 2 ^ 64) :
    usub (uadd ptr size) 1 = ptr + size - 1 := by
  unfold usub uadd
  omega

/-- A region that meets `[ptr, ptr + size)`. -/
def NaClDynamicRegion.Overlaps (region : NaClDynamicRegion) (ptr size : ℕ) : Prop :=
  ptr < region.stop ∧ region.start < ptr + size

theorem DynamicText.RegionsSound.find_spec (h : text.RegionsSound) {ptr : ℕ} (hsize : 0 < size)
    (hwrap : ptr + size ≤ 2 ^ 64) :
    (∀ ix, naclDynamicRegionFind text.regions ptr size = some ix →
      ∃ region, text.regions[ix]? = some region ∧ region.Overlaps ptr size) ∧
    ((∃ region ∈ text.regions, region.Overlaps ptr size) →
      naclDynamicRegionFind text.regions ptr size ≠ none) := by
  have hlast := isLastLE_naclDynamicRegionFindClosestLEQ h.separated (ptr + size - 1)
  have hiff := h.separated.exists_overlap_iff (show ptr < ptr + size by omega) hlast
  unfold naclDynamicRegionFind
  rw [usub_uadd_one hsize hwrap]
  constructor
  · intro ix hix
    cases hfound : naclDynamicRegionFindClosestLEQ text.regions (ptr + size - 1) with
    | none => rw [hfound] at hix; cases hix
    | some k =>
      rw [hfound] at hix hlast
      obtain ⟨⟨region, hregion, hle⟩, -⟩ := hlast
      simp only [hregion, h.uadd_eq hregion] at hix
      split_ifs at hix with hlt
      cases hix
      exact ⟨region, hregion, hlt, by omega⟩
  · intro hoverlap
    obtain ⟨k, region, hfound, hregion, hlt⟩ := hiff.1 hoverlap
    simp only [hfound, hregion, h.uadd_eq hregion, if_pos hlt]
    exact Option.some_ne_none k

theorem growRegions_eq (text : DynamicText) :
    growRegions text = { text with regionsAllocated := (growRegions text).regionsAllocated } := by
  unfold growRegions
  split_ifs <;> rfl

theorem growRegions_lt (h : text.regions.length ≤ text.regionsAllocated) :
    text.regions.length < (growRegions text).regionsAllocated := by
  unfold growRegions
  split_ifs with hfull
  · have := le_max_left (text.regionsAllocated * 2) kMinDynamicRegionsAllocated
    have hmin : 32 ≤ max (text.regionsAllocated * 2) kMinDynamicRegionsAllocated :=
      le_max_right _ _
    dsimp only
    omega
  · omega

theorem insertRegion_eq {regions : List NaClDynamicRegion} {item : NaClDynamicRegion}
    {found : Option ℕ} (hitem : item.start < item.stop)
    (hs : Separated NaClDynamicRegion.start NaClDynamicRegion.stop regions)
    (hfound : IsLastLE NaClDynamicRegion.start regions (item.stop - 1) found)
    (hfree : ∀ k region, found = some k → regions[k]? = some region →
      region.stop ≤ item.start) :
    insertRegion regions found item = regions.insertIdx (insertionPoint found) item := by
  have hstop : ∀ l : List NaClDynamicRegion, (∀ region ∈ l.head?, item.start ≤ region.start) →
      l.takeWhile (·.start < item.start) = [] := by
    intro l hl
    cases l with
    | nil => rfl
    | cons region l => simpa using hl region rfl
  unfold insertRegion
  dsimp only
  cases found with
  | none =>
    rw [Option.getD_none, List.drop_zero, hstop]
    · rfl
    · intro region hregion
      have := hfound region (List.mem_of_mem_head? hregion)
      omega
  | some k =>
    obtain ⟨⟨region, hregion, -⟩, hafter⟩ := hfound
    obtain ⟨hk, rfl⟩ := List.getElem?_eq_some_iff.1 hregion
    have hlt : regions[k].start < item.start :=
      (hs.lt_stop hregion).trans_le (hfree k _ rfl hregion)
    rw [Option.getD_some, List.drop_eq_getElem_cons hk, List.takeWhile_cons_of_pos (by simpa),
      hstop]
    · rfl
    · intro next hnext
      rw [List.head?_drop] at hnext
      have := hafter (k + 1) next hnext (Nat.lt_succ_self k)
      omega

theorem DynamicText.RegionsSound.create_of_overlap (h : text.RegionsSound) (hsize : 0 < size)
    (hwrap : start + size < 2 ^ 64) (isMmap : Bool)
    (hoverlap : ∃ region ∈ text.regions, region.Overlaps start size) :
    naclDynamicRegionCreate text start size isMmap = (growRegions text, false) := by
  have hlast := isLastLE_naclDynamicRegionFindClosestLEQ h.separated (start + size - 1)
  obtain ⟨k, region, hfound, hregion, hlt⟩ :=
    (h.separated.exists_overlap_iff (show start < start + size by omega) hlast).1 hoverlap
  have hregions : (growRegions text).regions = text.regions := by rw [growRegions_eq]
  unfold naclDynamicRegionCreate
  dsimp only
  rw [hregions, usub_uadd_one hsize hwrap.le, hfound]
  simp only [Option.bind_some, hregion, h.uadd_eq hregion, if_pos hlt]

theorem DynamicText.RegionsSound.create_of_free (h : text.RegionsSound) (hsize : 0 < size)
    (hwrap : start + size < 2 ^ 64) (isMmap : Bool)
    (hfree : ¬ ∃ region ∈ text.regions, region.Overlaps start size) :
    ∃ k ≤ text.regions.length,
      naclDynamicRegionCreate text start size isMmap = ({ growRegions text with
        regions := text.regions.insertIdx k ⟨start, size, -1, isMmap⟩ }, true) ∧
      Separated NaClDynamicRegion.start NaClDynamicRegion.stop
        (text.regions.insertIdx k ⟨start, size, -1, isMmap⟩) := by
  have hlast := isLastLE_naclDynamicRegionFindClosestLEQ h.separated (start + size - 1)
  have hiff := h.separated.exists_overlap_iff (show start < start + size by omega) hlast
  have hregions : (growRegions text).regions = text.regions := by rw [growRegions_eq]
  obtain ⟨item, hitem⟩ : ∃ item : NaClDynamicRegion, item = ⟨start, size, -1, isMmap⟩ := ⟨_, rfl⟩
  have hstop : item.stop = start + size := by rw [hitem]; rfl
  have hstart : item.start = start := by rw [hitem]
  have hbefore : ∀ k region,
      naclDynamicRegionFindClosestLEQ text.regions (start + size - 1) = some k →
      text.regions[k]? = some region → region.stop ≤ item.start := by
    intro k region hfound hregion
    rw [hstart]
    exact not_lt.1 fun hlt => hfree (hiff.2 ⟨k, region, hfound, hregion, hlt⟩)
  rw [← hitem]
  rw [← hstop] at hlast hbefore
  refine ⟨_, hlast.insertionPoint_le, ?_, h.separated.insertIdx (by omega) hlast hbefore⟩
  rw [← insertRegion_eq (by omega) h.separated hlast hbefore]
  unfold naclDynamicRegionCreate
  dsimp only
  rw [hregions, usub_uadd_one hsize hwrap.le, ← hstop, ← hitem]
  cases hfound : (naclDynamicRegionFindClosestLEQ text.regions (item.stop - 1)).bind
      (text.regions[·]?) with
  | none => rfl
  | some region =>
    obtain ⟨k, hk, hregion⟩ := Option.bind_eq_some_iff.1 hfound
    have hle := hbefore k region hk hregion
    dsimp only
    rw [h.uadd_eq hregion, if_neg (not_lt.2 (hstart ▸ hle))]

/-- `NaClDynamicRegionCreate` fails exactly when the range is taken, and then leaves the regions;
else it adds the range to them. -/
theorem DynamicText.RegionsSound.create_spec (h : text.RegionsSound) (hsize : 0 < size)
    (hwrap : start + size < 2 ^ 64) (isMmap : Bool) :
    (naclDynamicRegionCreate text start size isMmap).1.RegionsSound ∧
    ((naclDynamicRegionCreate text start size isMmap).2 = false ↔
      ∃ region ∈ text.regions, region.Overlaps start size) ∧
    ∀ region, region ∈ (naclDynamicRegionCreate text start size isMmap).1.regions ↔
      region ∈ text.regions ∨ (¬ ∃ region ∈ text.regions, region.Overlaps start size) ∧
        region = ⟨start, size, -1, isMmap⟩ := by
  have hregions : (growRegions text).regions = text.regions := by rw [growRegions_eq]
  have hgrow := growRegions_lt h.allocated
  by_cases hoverlap : ∃ region ∈ text.regions, region.Overlaps start size
  · rw [h.create_of_overlap hsize hwrap isMmap hoverlap]
    refine ⟨⟨?_, ?_, ?_⟩, iff_of_true rfl hoverlap, fun region => ?_⟩
    · rw [hregions]
      exact h.separated
    · rw [hregions]
      exact h.stop_lt
    · rw [hregions]
      exact hgrow.le
    · rw [hregions]
      exact (or_iff_left fun hnone => hnone.1 hoverlap).symm
  · obtain ⟨k, hk, hrun, hseparated⟩ := h.create_of_free hsize hwrap isMmap hoverlap
    rw [hrun]
    refine ⟨⟨hseparated, fun region hregion => ?_, ?_⟩, iff_of_false nofun hoverlap,
      fun region => ?_⟩
    · rcases (List.mem_insertIdx hk).1 hregion with rfl | hregion
      · exact hwrap
      · exact h.stop_lt region hregion
    · rw [List.length_insertIdx_of_le_length hk]
      exact hgrow
    · rw [List.mem_insertIdx hk, or_comm]
      exact or_congr_right (and_iff_right hoverlap).symm

theorem DynamicText.RegionsSound.delete_spec (h : text.RegionsSound) {ix : ℕ}
    {region : NaClDynamicRegion} (hix : text.regions[ix]? = some region) :
    (naclDynamicRegionDelete text ix).RegionsSound ∧
    ∀ r, r ∈ (naclDynamicRegionDelete text ix).regions ↔ r ∈ text.regions ∧ r ≠ region := by
  have hsub : (text.regions.eraseIdx ix).Sublist text.regions := List.eraseIdx_sublist _ _
  obtain ⟨hlt, rfl⟩ := List.getElem?_eq_some_iff.1 hix
  refine ⟨⟨h.separated.sublist hsub, fun r hr => h.stop_lt r (hsub.subset hr), ?_⟩, fun r => ?_⟩
  · have hlen : (text.regions.eraseIdx ix).length = text.regions.length - 1 :=
      List.length_eraseIdx_of_lt hlt
    have hallocated := h.allocated
    unfold naclDynamicRegionDelete
    dsimp only
    split_ifs with hwaste <;> omega
  · show r ∈ text.regions.eraseIdx ix ↔ _
    rw [List.mem_eraseIdx_iff_getElem?]
    constructor
    · rintro ⟨j, hj, hr⟩
      refine ⟨List.mem_of_getElem? hr, fun heq => hj ?_⟩
      obtain ⟨hj', hr⟩ := List.getElem?_eq_some_iff.1 hr
      exact (h.separated.nodup.getElem_inj_iff).1 (hr.trans heq)
    · rintro ⟨hmem, hne⟩
      obtain ⟨j, hj⟩ := List.mem_iff_getElem?.1 hmem
      refine ⟨j, ?_, hj⟩
      rintro rfl
      exact hne (List.getElem?_eq_some_iff.1 hj).2.symm

end Table

/-! ## Sequences of calls -/

/-- A call of `NaClDynamicRegionCreate` or `NaClDynamicRegionDelete`, the latter with what the entry
it is given holds. -/
inductive RegionCall
  | create (start size : ℕ) (isMmap : Bool)
  | delete (ix : ℕ) (region : NaClDynamicRegion)

namespace RegionCall

def run (text : DynamicText) : RegionCall → Except Fault DynamicText
  | create start size isMmap => .ok (naclDynamicRegionCreate text start size isMmap).1
  | delete ix _ => .ok (naclDynamicRegionDelete text ix)

/-- A created range is not empty and does not wrap; a deleted entry is present. -/
def Admissible (text : DynamicText) : RegionCall → Prop
  | create start size _ => 0 < size ∧ start + size < 2 ^ 64
  | delete ix region => text.regions[ix]? = some region

/-- What the call means for the set of regions. -/
def apply (regions : Set NaClDynamicRegion) : RegionCall → Set NaClDynamicRegion
  | create start size isMmap => {region | region ∈ regions ∨
      (¬ ∃ old ∈ regions, old.Overlaps start size) ∧ region = ⟨start, size, -1, isMmap⟩}
  | delete _ region => regions \ {region}

theorem run_spec (text : DynamicText) (call : RegionCall) (h : text.RegionsSound)
    (hcall : call.Admissible text) : ∃ text', call.run text = .ok text' ∧ text'.RegionsSound ∧
      {region | region ∈ text'.regions} = call.apply {region | region ∈ text.regions} := by
  cases call with
  | create start size isMmap =>
    obtain ⟨hsound, -, hmem⟩ := h.create_spec hcall.1 hcall.2 isMmap
    exact ⟨_, rfl, hsound, Set.ext hmem⟩
  | delete ix region =>
    obtain ⟨hsound, hmem⟩ := h.delete_spec hcall
    exact ⟨_, rfl, hsound, Set.ext hmem⟩

end RegionCall

/-- The table after any sequence of calls on an empty one. -/
theorem dynamicRegions_table {text : DynamicText} (hempty : text.regions = [])
    {calls : List RegionCall}
    (hcalls : Runs.Guarded RegionCall.run RegionCall.Admissible text calls) :
    ∃ text', calls.foldlM RegionCall.run text = .ok text' ∧ text'.RegionsSound ∧
      {region | region ∈ text'.regions} = calls.foldl RegionCall.apply ∅ ∧
      (∀ start size isMmap, 0 < size → start + size < 2 ^ 64 →
        ((naclDynamicRegionCreate text' start size isMmap).2 = false ↔
          ∃ region ∈ text'.regions, region.Overlaps start size) ∧
        ((naclDynamicRegionCreate text' start size isMmap).2 = false →
          (naclDynamicRegionCreate text' start size isMmap).1.regions = text'.regions)) ∧
      ∀ ptr size, 0 < size → ptr + size ≤ 2 ^ 64 →
        (naclDynamicRegionFind text'.regions ptr size ≠ none ↔
          ∃ region ∈ text'.regions, region.Overlaps ptr size) ∧
        ∀ ix, naclDynamicRegionFind text'.regions ptr size = some ix →
          ∃ region, text'.regions[ix]? = some region ∧ region.Overlaps ptr size := by
  have hsound : text.RegionsSound := by
    refine ⟨?_, ?_, ?_⟩ <;> rw [hempty]
    · exact .nil
    · exact fun region hregion => absurd hregion List.not_mem_nil
    · exact Nat.zero_le _
  have habs : {region | region ∈ text.regions} = (∅ : Set NaClDynamicRegion) := by
    simp [hempty]
  obtain ⟨text', hrun, h, hset⟩ := hcalls.simulates RegionCall.run_spec hsound
  refine ⟨text', hrun, h, habs ▸ hset, fun start size isMmap hsize hwrap => ?_,
    fun ptr size hsize hwrap => ?_⟩
  · obtain ⟨-, hiff, -⟩ := h.create_spec hsize hwrap isMmap
    refine ⟨hiff, fun hfail => ?_⟩
    rw [h.create_of_overlap hsize hwrap isMmap (hiff.1 hfail), growRegions_eq]
  · obtain ⟨hsome, hnone⟩ := h.find_spec hsize hwrap
    refine ⟨⟨fun hfound => ?_, hnone⟩, hsome⟩
    obtain ⟨ix, hix⟩ := Option.ne_none_iff_exists'.1 hfound
    obtain ⟨region, hregion, hoverlap⟩ := hsome ix hix
    exact ⟨region, List.mem_of_getElem? hregion, hoverlap⟩

/-- Two regions are created, in the wrong order, and the first is deleted. -/
theorem dynamicRegions_table_smallApp : ∃ text',
    [.create 96 32 false, .create 32 64 true, .delete 0 ⟨32, 64, -1, true⟩].foldlM RegionCall.run
      smallApp.text = .ok text' ∧ text'.RegionsSound := by
  have hcalls : Runs.Guarded RegionCall.run RegionCall.Admissible smallApp.text
      [.create 96 32 false, .create 32 64 true, .delete 0 ⟨32, 64, -1, true⟩] :=
    .cons _ ⟨by decide, by decide⟩ rfl <|
    .cons _ ⟨by decide, by decide⟩ rfl (.cons _ rfl rfl trivial)
  obtain ⟨text', hrun, hsound, -⟩ := dynamicRegions_table rfl hcalls
  exact ⟨text', hrun, hsound⟩

end SandboxingNaCl
