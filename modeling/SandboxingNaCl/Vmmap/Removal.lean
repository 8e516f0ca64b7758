import SandboxingNaCl.Vmmap.Update

/-!
# Removing regions, slot by slot

`naclVmmapRemoveMarked` works on the list of the entries.  This file has the array under that list:
slots that hold an entry or are null once it is freed, and the two cursors `i` and `last` that go
over them.  A read of a null slot, or of one past the live entries, is a fault.  The two levels
agree on every map, so removal is total exactly when an entry survives.
-/

namespace SandboxingNaCl

open MachineInt IntervalMap

/-- The ways the array code brings the process down. -/
inductive SlotFault
  | vmmap (fault : VmmapFault)
  | outOfRange
  /-- `NaClLog(LOG_FATAL, "No valid entries in VM map\n")`. -/
  | noValidEntries
  | unfinished
deriving DecidableEq

/-! ## The array -/

/-- `self->vmentry[ix]`. -/
def getSlot (slots : List (Option NaClVmmapEntry)) (ix : ℕ) :
    Except SlotFault (Option NaClVmmapEntry) :=
  match slots[ix]? with
  | some slot => .ok slot
  | none => .error .outOfRange

/-- `*slot`. -/
def readEntry : Option NaClVmmapEntry → Except SlotFault NaClVmmapEntry
  | some ent => .ok ent
  | none => .error (.vmmap .nullEntry)

/-- `*self->vmentry[ix]`. -/
def readSlot (slots : List (Option NaClVmmapEntry)) (ix : ℕ) : Except SlotFault NaClVmmapEntry := do
  readEntry (← getSlot slots ix)

/-- The loop that frees the removed entries at the end of the array. -/
def dropMarkedSlots :
    ℕ → List (Option NaClVmmapEntry) → Except SlotFault (ℕ × List (Option NaClVmmapEntry))
  | 0, slots => .ok (0, slots)
  | last + 1, slots => do
      let ent ← readSlot slots last
      if ent.removed then
        dropMarkedSlots last (slots.set last none)
      else
        return (last, slots)

/-- The inner loop, `while (--last > i && self->vmentry[last]->removed)`. -/
def skipMarkedSlots (i : ℕ) :
    ℕ → List (Option NaClVmmapEntry) → Except SlotFault (ℕ × List (Option NaClVmmapEntry))
  | 0, _ => .error .outOfRange
  | last + 1, slots =>
    if i < last then do
      let ent ← readSlot slots last
      if ent.removed then
        skipMarkedSlots i last (slots.set last none)
      else
        return (last, slots)
    else
      return (last, slots)

/-- The loop that moves entries from the end to the removed slots.  The first argument bounds the
number of iterations. -/
def moveSlots :
    ℕ → ℕ → ℕ → List (Option NaClVmmapEntry) → Except SlotFault (ℕ × List (Option NaClVmmapEntry))
  | 0, i, last, slots => if i < last then .error .unfinished else .ok (last, slots)
  | n + 1, i, last, slots =>
    if i < last then do
      let ent ← readSlot slots i
      if ent.removed then
        let moved ← getSlot slots last
        let (last, slots) ← skipMarkedSlots i last ((slots.set i moved).set last none)
        moveSlots n (i + 1) last slots
      else
        moveSlots n (i + 1) last slots
    else
      return (last, slots)

/-- The tests between the two loops of `NaClVmmapRemoveMarked`. -/
def checkMarkedDropped (nvalid last : ℕ) (slots : List (Option NaClVmmapEntry)) :
    Except SlotFault Unit := do
  if last = 0 then
    if (← readSlot slots 0).removed then
      throw .noValidEntries
  if nvalid ≤ last then
    throw (.vmmap .checkFailed)
  if (← readSlot slots last).removed then
    throw (.vmmap .checkFailed)

/-- `NaClVmmapRemoveMarked`.  The entries it leaves are read back from the first `last + 1` slots. -/
def naclVmmapRemoveMarkedSlots (self : NaClVmmap) : Except SlotFault NaClVmmap := do
  let nvalid := self.vmentry.length
  if nvalid = 0 then
    return self
  let (last, slots) ← dropMarkedSlots nvalid (self.vmentry.map some)
  checkMarkedDropped nvalid last slots
  let (last, slots) ← moveSlots (last + 1) 0 last slots
  let live ← (slots.take (last + 1)).mapM readEntry
  return { self with vmentry := live, isSorted := false }

/-- `NaClVmmapMakeSorted`. -/
def naclVmmapMakeSortedSlots (self : NaClVmmap) : Except SlotFault NaClVmmap := do
  if self.isSorted then
    return self
  let self ← naclVmmapRemoveMarkedSlots self
  return { self with vmentry := qsortEntries self.vmentry, isSorted := true }

/-- `NaClVmmapRemove`, that is `NaClVmmapUpdate` with `remove` set. -/
def naclVmmapRemoveSlots (self : NaClVmmap) (pageNum npages : ℕ) : Except SlotFault NaClVmmap := do
  let newRegionEndPage := uadd pageNum npages
  let self ← naclVmmapMakeSortedSlots self
  if npages = 0 then
    throw (.vmmap .checkFailed)
  let (kept, added) := naclVmmapUpdateLoop pageNum newRegionEndPage self.vmentry
  naclVmmapRemoveMarkedSlots (added.foldl naclVmmapPush { self with vmentry := kept })

/-! ## The array and the list -/

private theorem ok_bind {α β : Type} (a : α) (f : α → Except SlotFault β) :
    (Except.ok a >>= f) = f a := rfl

section

variable {ent : NaClVmmapEntry} {k : ℕ}

/-- The array when its first slots hold the entries `l` and the other `k` are null. -/
def slotsOf (l : List NaClVmmapEntry) (k : ℕ) : List (Option NaClVmmapEntry) :=
  l.map some ++ List.replicate k none

theorem getSlot_slotsOf (done l : List NaClVmmapEntry) :
    getSlot (slotsOf (done ++ ent :: l) k) done.length = .ok (some ent) := by
  simp [getSlot, slotsOf]

theorem readSlot_slotsOf (done l : List NaClVmmapEntry) :
    readSlot (slotsOf (done ++ ent :: l) k) done.length = .ok ent := by
  rw [readSlot, getSlot_slotsOf]
  rfl

theorem set_slotsOf_concat (l : List NaClVmmapEntry) :
    (slotsOf (l ++ [ent]) k).set l.length none = slotsOf l (k + 1) := by
  simp [slotsOf, List.replicate_succ]

theorem set_set_slotsOf (done init : List NaClVmmapEntry) (last : NaClVmmapEntry) :
    ((slotsOf (done ++ ent :: (init ++ [last])) k).set done.length (some last)).set
      (done.length + (init.length + 1)) none = slotsOf (done ++ last :: init) (k + 1) := by
  simp [slotsOf, List.replicate_succ]

theorem dropMarkedSlots_slotsOf (l : List NaClVmmapEntry) (k : ℕ) :
    ∃ k', dropMarkedSlots l.length (slotsOf l k) =
      .ok ((l.rdropWhile (·.removed)).length - 1, slotsOf (l.rdropWhile (·.removed)) k') ∧
      (l.rdropWhile (·.removed)).length + k' = l.length + k := by
  induction l using List.reverseRecOn generalizing k with
  | nil => exact ⟨k, rfl, rfl⟩
  | append_singleton l ent ih =>
    rw [List.length_append, List.length_singleton, dropMarkedSlots, readSlot_slotsOf l [],
      List.rdropWhile_concat, ok_bind]
    split_ifs with hrem
    · obtain ⟨k', hdrop, hlen⟩ := ih (k + 1)
      exact ⟨k', by rw [set_slotsOf_concat, hdrop], by omega⟩
    · exact ⟨k, by simp; rfl, by simp⟩

theorem skipMarkedSlots_slotsOf (done init : List NaClVmmapEntry) (moved : NaClVmmapEntry) (k : ℕ) :
    ∃ k', skipMarkedSlots done.length (done.length + (init.length + 1))
        (slotsOf (done ++ moved :: init) k) =
      .ok (done.length + (init.rdropWhile (·.removed)).length,
        slotsOf (done ++ moved :: init.rdropWhile (·.removed)) k') := by
  induction init using List.reverseRecOn generalizing k with
  | nil =>
    refine ⟨k, ?_⟩
    rw [List.length_nil, ← Nat.add_assoc, skipMarkedSlots, if_neg (lt_irrefl _)]
    rfl
  | append_singleton init ent ih =>
    have hread : readSlot (slotsOf (done ++ moved :: (init ++ [ent])) k)
        (done.length + (init.length + 1)) = .ok ent := by
      simpa using @readSlot_slotsOf ent k (done ++ moved :: init) []
    have hset : (slotsOf (done ++ moved :: (init ++ [ent])) k).set
        (done.length + (init.length + 1)) none = slotsOf (done ++ moved :: init) (k + 1) := by
      simpa using @set_slotsOf_concat ent k (done ++ moved :: init)
    rw [List.length_append, List.length_singleton, ← Nat.add_assoc, skipMarkedSlots,
      if_pos (by omega), hread, ok_bind, hset, List.rdropWhile_concat]
    split_ifs with hrem
    · exact ih (k + 1)
    · exact ⟨k, by simp; rfl⟩

theorem moveSlots_slotsOf (n : ℕ) (done l : List NaClVmmapEntry) (k : ℕ) (hn : l.length ≤ n)
    (hne : done ++ l ≠ []) :
    ∃ k', moveSlots n done.length (done.length + l.length - 1) (slotsOf (done ++ l) k) =
      .ok (done.length + (moveEndToFront n l).length - 1,
        slotsOf (done ++ moveEndToFront n l) k') := by
  induction n generalizing done l k with
  | zero =>
    obtain rfl := List.length_eq_zero_iff.1 (Nat.le_zero.1 hn)
    exact ⟨k, by rw [moveSlots, if_neg (by simp), moveEndToFront]⟩
  | succ n ih =>
    rcases l with _ | ⟨ent, rest⟩
    · exact ⟨k, by rw [moveSlots, if_neg (by simp), moveEndToFront]; rfl⟩
    · rw [List.length_cons, Nat.succ_le_succ_iff] at hn
      rcases List.eq_nil_or_concat' rest with rfl | ⟨init, last, rfl⟩
      · have hone : moveEndToFront (n + 1) [ent] = [ent] := by
          rw [moveEndToFront]
          split_ifs
          · rfl
          · cases n <;> rfl
        exact ⟨k, by rw [moveSlots, if_neg (by simp), hone]; rfl⟩
      · have hlast : done.length + (ent :: (init ++ [last])).length - 1 =
            done.length + (init.length + 1) := by simp
        have hmoved : getSlot (slotsOf (done ++ ent :: (init ++ [last])) k)
            (done.length + (init.length + 1)) = .ok (some last) := by
          simpa using @getSlot_slotsOf last k (done ++ ent :: init) []
        rw [moveSlots, hlast, if_pos (by omega), readSlot_slotsOf, ok_bind, moveEndToFront]
        split_ifs with hrem
        · obtain ⟨k', hskip⟩ := skipMarkedSlots_slotsOf done init last (k + 1)
          have hlen : (init.rdropWhile (·.removed)).length ≤ n := by
            have := (List.rdropWhile_prefix (p := (·.removed)) (l := init)).length_le
            rw [List.length_append] at hn
            omega
          obtain ⟨k'', hmove⟩ := ih (done ++ [last]) (init.rdropWhile (·.removed)) k' hlen (by simp)
          refine ⟨k'', ?_⟩
          rw [hmoved, ok_bind, set_set_slotsOf, hskip, ok_bind]
          simpa [Nat.add_assoc, Nat.add_comm 1] using hmove
        · obtain ⟨k', hmove⟩ := ih (done ++ [ent]) (init ++ [last]) k hn (by simp)
          refine ⟨k', ?_⟩
          simpa [Nat.add_assoc, Nat.add_comm 1] using hmove

theorem checkMarkedDropped_slotsOf {init : List NaClVmmapEntry} {last : NaClVmmapEntry}
    {nvalid : ℕ} (hlive : last.removed = false) (hlt : init.length < nvalid) :
    checkMarkedDropped nvalid init.length (slotsOf (init ++ [last]) k) = .ok () := by
  have hread : readSlot (slotsOf (init ++ [last]) k) init.length = .ok last :=
    readSlot_slotsOf init []
  have hfirst : init.length = 0 → readSlot (slotsOf (init ++ [last]) k) 0 = .ok last := fun h => by
    rw [← h, hread]
  rw [checkMarkedDropped, hread]
  split_ifs with hzero hle hle
  · omega
  · rw [hfirst hzero, ok_bind, ok_bind, hlive]
    rfl
  · omega
  · rw [ok_bind, hlive]
    rfl

theorem take_slotsOf (l : List NaClVmmapEntry) :
    (slotsOf l k).take l.length = l.map some := by
  simp [slotsOf]

theorem mapM_readEntry (l : List NaClVmmapEntry) : (l.map some).mapM readEntry = .ok l := by
  induction l with
  | nil => rfl
  | cons ent l ih =>
    rw [List.map_cons, List.mapM_cons, ih]
    rfl

theorem naclVmmapRemoveMarkedSlots_eq (self : NaClVmmap) :
    naclVmmapRemoveMarkedSlots self = (naclVmmapRemoveMarked self).mapError .vmmap := by
  rw [naclVmmapRemoveMarkedSlots, naclVmmapRemoveMarked]
  dsimp only
  split_ifs with hnil
  · rfl
  · have hslots : self.vmentry.map some = slotsOf self.vmentry 0 := by simp [slotsOf]
    obtain ⟨k, hdrop, hlen⟩ := dropMarkedSlots_slotsOf self.vmentry 0
    rw [hslots, hdrop, ok_bind]
    have hlive := List.rdropWhile_last_not (·.removed) self.vmentry
    rcases List.eq_nil_or_concat' (self.vmentry.rdropWhile (·.removed)) with hl | ⟨init, last, hl⟩
    · rw [hl] at hlen ⊢
      obtain ⟨k, rfl⟩ : ∃ m, k = m + 1 := Nat.exists_eq_succ_of_ne_zero (by simp at hlen; omega)
      rfl
    · simp only [hl] at hlen hlive ⊢
      have hlt : init.length < self.vmentry.length := by
        rw [List.length_append, List.length_singleton] at hlen
        omega
      have hcheck : checkMarkedDropped self.vmentry.length init.length
          (slotsOf (init ++ [last]) k) = .ok () :=
        checkMarkedDropped_slotsOf (by simpa using hlive) hlt
      obtain ⟨k', hmove⟩ := moveSlots_slotsOf (init ++ [last]).length [] (init ++ [last]) k le_rfl
        (by simp)
      have hkept := moveEndToFront_perm _ (init ++ [last]) le_rfl (by simpa using hlive)
      have hpos : 0 < (moveEndToFront (init ++ [last]).length (init ++ [last])).length := by
        rw [hkept.length_eq]
        refine List.length_pos_of_mem (a := last) (List.mem_filter.2 ⟨by simp, by simpa using hlive⟩)
      simp only [List.length_append, List.length_singleton, List.length_nil, Nat.zero_add,
        Nat.add_sub_cancel, List.nil_append] at hmove hpos
      rw [List.length_append, List.length_singleton, Nat.add_sub_cancel, hcheck, ok_bind, hmove,
        ok_bind, Nat.sub_add_cancel hpos, take_slotsOf, mapM_readEntry]
      split
      · next h => simp at h
      · rw [List.length_append, List.length_singleton]
        rfl

/-! ## One call -/

theorem naclVmmapMakeSortedSlots_eq (self : NaClVmmap) :
    naclVmmapMakeSortedSlots self = (naclVmmapMakeSorted self).mapError .vmmap := by
  rw [naclVmmapMakeSortedSlots, naclVmmapMakeSorted, naclVmmapRemoveMarkedSlots_eq]
  split_ifs
  · rfl
  · cases naclVmmapRemoveMarked self <;> rfl

theorem naclVmmapRemoveSlots_eq (self : NaClVmmap) (pageNum npages : ℕ) :
    naclVmmapRemoveSlots self pageNum npages =
      (naclVmmapRemove self pageNum npages).mapError .vmmap := by
  rw [naclVmmapRemoveSlots, naclVmmapRemove, naclVmmapUpdate, naclVmmapMakeSortedSlots_eq]
  cases naclVmmapMakeSorted self with
  | error fault => rfl
  | ok map =>
    by_cases hzero : npages = 0
    · simp only [hzero, if_true]
      rfl
    · simp only [hzero, if_false]
      exact naclVmmapRemoveMarkedSlots_eq _

end

section

variable {self : NaClVmmap} {pageNum npages : ℕ}

/-- The removal comes to its end and leaves exactly the parts of the entries outside the range. -/
def RemovesExactly (self : NaClVmmap) (pageNum npages : ℕ) : Prop :=
  ∃ map, naclVmmapRemoveSlots self pageNum npages = .ok map ∧ map.WellFormed ∧
    map.vmentry.Perm (vmentryExtent.carve self.vmentry pageNum (pageNum + npages))

def SomeSurvives (self : NaClVmmap) (pageNum npages : ℕ) : Prop :=
  ∃ ent ∈ self.vmentry, ent.pageNum < pageNum ∨ pageNum + npages < ent.pageNum + ent.npages

theorem someSurvives_iff (h : self.WellFormed) :
    SomeSurvives self pageNum npages ↔
      vmentryExtent.carve self.vmentry pageNum (pageNum + npages) ≠ [] := by
  rw [Ne, Extent.carve_eq_nil_iff h.entries.tiles.lt, SomeSurvives]
  push Not
  simp only [vmentryExtent_lo, vmentryExtent_hi, or_iff_not_imp_left, not_lt]

theorem naclVmmapRemoveSlots_error (h : self.WellFormed) (hpos : 0 < npages)
    (hend : pageNum + npages < 2 ^ 64) (hne : self.vmentry ≠ [])
    (hall : ¬ SomeSurvives self pageNum npages) :
    naclVmmapRemoveSlots self pageNum npages = .error (.vmmap .nullEntry) := by
  rw [someSurvives_iff h, not_not] at hall
  rw [naclVmmapRemoveSlots_eq, naclVmmapRemove_error h hpos hend hne hall]
  rfl

theorem naclVmmapRemoveSlots_empty (h : self.WellFormed) :
    naclVmmapRemoveSlots self pageNum 0 = .error (.vmmap .checkFailed) := by
  obtain ⟨l, hsort, -⟩ := h.makeSorted
  rw [naclVmmapRemoveSlots, naclVmmapMakeSortedSlots_eq, hsort]
  rfl

/-- Removal does what it should exactly when the range has a page and, unless the map has no
entries at all, leaves something of it. -/
theorem removesExactly_iff (h : self.WellFormed) (hend : pageNum + npages < 2 ^ 64) :
    RemovesExactly self pageNum npages ↔
      0 < npages ∧ (self.vmentry = [] ∨ SomeSurvives self pageNum npages) := by
  constructor
  · rintro ⟨map, hok, -⟩
    have hpos : 0 < npages := by
      by_contra hzero
      obtain rfl : npages = 0 := by omega
      rw [naclVmmapRemoveSlots_empty h] at hok
      cases hok
    refine ⟨hpos, or_iff_not_imp_left.2 fun hne => ?_⟩
    by_contra hall
    rw [naclVmmapRemoveSlots_error h hpos hend hne hall] at hok
    cases hok
  · rintro ⟨hpos, hkeep⟩
    rw [someSurvives_iff h] at hkeep
    obtain ⟨map, hok, hperm, hsorted, hlen, hsize⟩ :=
      naclVmmapUpdate_spec 0 0 true none 0 0 h hpos hend fun _ => hkeep
    rw [updateTail, if_pos rfl, List.append_nil] at hperm
    refine ⟨map, ?_, .of_perm (h.entries.carve (Nat.le_add_right _ _)) hperm hsorted hlen hsize,
      hperm⟩
    rw [naclVmmapRemoveSlots_eq, naclVmmapRemove, hok]
    rfl

end

/-- One entry of sixteen pages, as `NaClVmmapAdd` leaves it in a new map. -/
def oneEntryMap : NaClVmmap :=
  naclVmmapAdd naclVmmapCtor 16 16 (protRead ||| protWrite) mapPrivate none 0 0

theorem oneEntryMap_wellFormed : oneEntryMap.WellFormed := by
  refine ⟨wellFormedEntries_singleton (by decide) (by decide) rfl, ?_, by decide, by decide⟩
  intro hsorted
  cases hsorted

theorem removesExactly_iff_middle : RemovesExactly oneEntryMap 20 4 ↔
    0 < 4 ∧ (oneEntryMap.vmentry = [] ∨ SomeSurvives oneEntryMap 20 4) :=
  removesExactly_iff oneEntryMap_wellFormed (by decide)

/-- Removing the only entry of a map reads the null slot it was in. -/
theorem not_removesExactly : oneEntryMap.WellFormed ∧
    naclVmmapRemoveSlots oneEntryMap 16 16 = .error (.vmmap .nullEntry) ∧
    ¬ RemovesExactly oneEntryMap 16 16 := by
  have herror : naclVmmapRemoveSlots oneEntryMap 16 16 = .error (.vmmap .nullEntry) := by decide
  refine ⟨oneEntryMap_wellFormed, herror, ?_⟩
  rintro ⟨map, hok, -⟩
  rw [herror] at hok
  cases hok

end SandboxingNaCl
