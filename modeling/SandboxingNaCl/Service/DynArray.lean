import Mathlib.Data.List.Count
import SandboxingNaCl.Lib.Bitmap

/-!
# Dynamic arrays

The arrays of pointers of `dyn_array.c` that grow when they are written past their end, with the
bitmap that finds a free index.
-/

namespace SandboxingNaCl

def bitsToAllocWords (nbits : ℕ) : ℕ := (nbits + 31) / 32

/-- `ffs`: the number of the lowest bit that is set, counted from 1. -/
def ffs (x : BitVec 32) : ℕ :=
  match (List.range 32).find? (x.getLsbD ·) with
  | some bit => bit + 1
  | none => 0

/-- `struct DynArray`, of pointers to values of `α`: `ptr_array` has `ptr_array_space` elements. -/
structure DynArray (α : Type*) where
  numEntries : ℕ
  ptrArray : List (Option α)
  available : Bitmap 32
  availIx : ℕ

namespace DynArray

variable {α : Type*}

/-- `DynArrayCtor`; `host` says whether there is memory. -/
def ctor (initialSize : ℕ) (host : Bool) : Option (DynArray α) :=
  let initialSize := if initialSize = 0 then 32 else initialSize
  if (2 ^ 64 - 1) / 8 < initialSize ∨ (2 ^ 64 - 1) / 4 < bitsToAllocWords initialSize then
    none
  else if host then
    some ⟨0, List.replicate initialSize none, .allocate 32 (bitsToAllocWords initialSize), 0⟩
  else none

/-- `DynArrayGet`. -/
def get (dap : DynArray α) (idx : ℕ) : Option α :=
  if idx < dap.numEntries then dap.ptrArray[idx]?.join else none

/-- The loop of `DynArraySet` that doubles the space: `none` where it does not fit a `size_t`.  The
second argument bounds the number of iterations. -/
def desiredSpace (idx : ℕ) : ℕ → ℕ → Option ℕ
  | 0, _ => none
  | n + 1, space =>
    if idx < space then
      some space
    else
      let tmp := 2 * space % 2 ^ 64
      if tmp < space then none else desiredSpace idx n tmp

/-- The part of `DynArraySet` that grows the array. -/
def grow (dap : DynArray α) (space : ℕ) : DynArray α :=
  { dap with
    ptrArray := dap.ptrArray ++ List.replicate (space - dap.ptrArray.length) none
    available := ⟨dap.available.words ++
      List.replicate (bitsToAllocWords space - bitsToAllocWords dap.ptrArray.length) 0⟩ }

/-- `DynArraySet`: `none` where it returns 0.  `host` says whether there is memory to grow the array.
In a well formed array the word of the index is always there. -/
def set (dap : DynArray α) (idx : ℕ) (ptr : Option α) (host : Bool) : Option (DynArray α) :=
  match desiredSpace idx 65 dap.ptrArray.length with
  | none => none
  | some space =>
    if space ≠ dap.ptrArray.length ∧ !host then
      none
    else
      let dap := dap.grow space
      let ix := idx / 32
      (if ptr.isSome then dap.available.setBit idx else dap.available.clearBit idx).map
        fun available =>
          { numEntries := if dap.numEntries ≤ idx then idx + 1 else dap.numEntries
            ptrArray := dap.ptrArray.set idx ptr
            available
            availIx := if ptr.isNone ∧ ix < dap.availIx then ix else dap.availIx }

/-- `DynArrayFirstAvail`: the index, and the array with its new hint. -/
def firstAvail (dap : DynArray α) : ℕ × DynArray α :=
  let words := dap.available.words
  let ix := dap.availIx + (words.drop dap.availIx).findIdx (~~~· ≠ 0)
  match words[ix]? with
  | some word => (ffs (~~~word) - 1 + ix * 32, { dap with availIx := ix })
  | none => (dap.ptrArray.length, dap)

/-! ## The entries -/

/-- The entries that have never been set are null, and every index has its bit. -/
structure WellFormed (dap : DynArray α) : Prop where
  numEntries_le : dap.numEntries ≤ dap.ptrArray.length
  null : ∀ idx, dap.numEntries ≤ idx → dap.ptrArray[idx]?.join = none
  words : dap.available.words.length = bitsToAllocWords dap.ptrArray.length

theorem wellFormed_ctor {initialSize : ℕ} {host : Bool} {dap : DynArray α}
    (h : ctor initialSize host = some dap) :
    dap.WellFormed ∧ ∀ idx : ℕ, dap.ptrArray[idx]?.join = none := by
  simp only [ctor] at h
  split_ifs at h
  all_goals
    cases h
    have hnull : ∀ n idx : ℕ, (List.replicate n (none : Option α))[idx]?.join = none := by
      intro n idx
      rw [List.getElem?_replicate]
      split_ifs <;> rfl
    exact ⟨⟨Nat.zero_le _, fun idx _ => hnull _ idx, by simp [Bitmap.allocate]⟩, hnull _⟩

variable {dap dap' : DynArray α} {idx : ℕ} {ptr : Option α} {host : Bool}

theorem get_eq (h : dap.WellFormed) (idx : ℕ) : dap.get idx = dap.ptrArray[idx]?.join := by
  unfold get
  split_ifs with hlt
  · rfl
  · exact (h.null idx (not_lt.1 hlt)).symm

theorem desiredSpace_spec {n space desired : ℕ} (h : desiredSpace idx n space = some desired) :
    space ≤ desired ∧ idx < desired := by
  induction n generalizing space with
  | zero => cases h
  | succ n ih =>
    simp only [desiredSpace] at h
    split_ifs at h with hlt htmp
    · cases h
      exact ⟨le_rfl, hlt⟩
    · obtain ⟨hle, hidx⟩ := ih h
      exact ⟨(not_lt.1 htmp).trans hle, hidx⟩

theorem getElem?_grow (dap : DynArray α) (space idx : ℕ) :
    (dap.grow space).ptrArray[idx]?.join = dap.ptrArray[idx]?.join := by
  unfold grow
  dsimp only
  rw [List.getElem?_append]
  split_ifs with hlt
  · rfl
  · rw [List.getElem?_replicate, List.getElem?_eq_none (not_lt.1 hlt)]
    split_ifs <;> rfl

theorem length_grow {space : ℕ} (h : dap.ptrArray.length ≤ space) :
    (dap.grow space).ptrArray.length = space := by
  unfold grow
  dsimp only
  rw [List.length_append, List.length_replicate]
  omega

theorem length_words_grow {space : ℕ} (h : dap.WellFormed) (hle : dap.ptrArray.length ≤ space) :
    (dap.grow space).available.words.length = bitsToAllocWords space := by
  have hmono : bitsToAllocWords dap.ptrArray.length ≤ bitsToAllocWords space :=
    Nat.div_le_div_right (Nat.add_le_add_right hle 31)
  unfold grow
  dsimp only
  rw [List.length_append, List.length_replicate, h.words]
  omega

theorem set_spec (h : dap.WellFormed) (hset : dap.set idx ptr host = some dap') :
    dap'.WellFormed ∧ idx < dap'.ptrArray.length ∧
      ∃ space, dap'.ptrArray = (dap.grow space).ptrArray.set idx ptr := by
  unfold set at hset
  split at hset
  · cases hset
  · next space hspace =>
    obtain ⟨hle, hidx⟩ := desiredSpace_spec hspace
    have hgrown := length_grow hle
    have hwords := length_words_grow h hle
    dsimp only at hset
    by_cases hhost : space ≠ dap.ptrArray.length ∧ (!host) = true
    · rw [if_pos hhost] at hset
      cases hset
    rw [if_neg hhost] at hset
    obtain ⟨available, hbit, rfl⟩ := Option.map_eq_some_iff.1 hset
    have hcapacity : available.capacity = (dap.grow space).available.capacity := by
      split_ifs at hbit
      · exact Bitmap.capacity_update hbit
      · exact Bitmap.capacity_update hbit
    have hnum : (dap.grow space).numEntries = dap.numEntries := rfl
    refine ⟨⟨?_, fun i hi => ?_, ?_⟩, ?_, space, rfl⟩
    · have := h.numEntries_le
      dsimp only
      rw [List.length_set, hgrown, hnum]
      split_ifs <;> omega
    · dsimp only at hi ⊢
      rw [hnum] at hi
      have hne : idx ≠ i := by split_ifs at hi <;> omega
      rw [List.getElem?_set_ne hne, getElem?_grow]
      refine h.null i ?_
      split_ifs at hi <;> omega
    · dsimp only
      rw [List.length_set, hgrown, ← hwords]
      unfold Bitmap.capacity at hcapacity
      omega
    · dsimp only
      rw [List.length_set, hgrown]
      exact hidx

theorem WellFormed.exists_set (h : dap.WellFormed) {space : ℕ}
    (hspace : desiredSpace idx 65 dap.ptrArray.length = some space)
    (hhost : space = dap.ptrArray.length ∨ host = true) :
    ∃ dap', dap.set idx ptr host = some dap' ∧ dap'.ptrArray.length = space := by
  obtain ⟨hle, hidx⟩ := desiredSpace_spec hspace
  have hcapacity : idx < (dap.grow space).available.capacity := by
    rw [Bitmap.capacity, length_words_grow h hle, bitsToAllocWords]
    omega
  obtain ⟨available, havailable⟩ : ∃ available,
      (if ptr.isSome then (dap.grow space).available.setBit idx
        else (dap.grow space).available.clearBit idx) = some available := by
    split_ifs
    · exact Bitmap.exists_setBit hcapacity
    · exact Bitmap.exists_clearBit hcapacity
  have hgo : ¬ (space ≠ dap.ptrArray.length ∧ (!host) = true) := by
    rintro ⟨hne, hno⟩
    obtain heq | rfl := hhost
    · exact hne heq
    · cases hno
  unfold set
  rw [hspace]
  dsimp only
  rw [if_neg hgo, havailable]
  exact ⟨_, rfl, (List.length_set ..).trans (length_grow hle)⟩

theorem get_set (h : dap.WellFormed) (hset : dap.set idx ptr host = some dap') (i : ℕ) :
    dap'.get i = if i = idx then ptr else dap.get i := by
  obtain ⟨hdap', hidx, space, hspace⟩ := set_spec h hset
  rw [get_eq hdap', get_eq h]
  by_cases hi : i = idx
  · subst hi
    rw [hspace, List.length_set] at hidx
    rw [if_pos rfl, hspace, List.getElem?_set_self hidx]
    rfl
  · rw [if_neg hi, hspace, List.getElem?_set_ne (Ne.symm hi), getElem?_grow]

/-! ## Counting entries -/

section Count

variable [DecidableEq α] {a : α}

def slots (dap : DynArray α) (a : α) : ℕ := dap.ptrArray.count (some a)

theorem count_set_add (l : List (Option α)) (i : ℕ) (x : Option α) (a : α) :
    (l.set i x).count (some a) + (if l[i]?.join = some a then 1 else 0) =
      l.count (some a) + if x = some a ∧ i < l.length then 1 else 0 := by
  induction l generalizing i with
  | nil => simp
  | cons y l ih =>
    cases i with
    | zero =>
      simp only [List.set_cons_zero, List.count_cons, List.getElem?_cons_zero, Option.join_some,
        List.length_cons, Nat.zero_lt_succ, and_true, beq_iff_eq]
      omega
    | succ i =>
      have := ih i
      simp only [List.set_cons_succ, List.count_cons, List.getElem?_cons_succ, List.length_cons,
        Nat.add_lt_add_iff_right]
      omega

theorem slots_pos (h : dap.get idx = some a) : 0 < dap.slots a := by
  unfold get at h
  split_ifs at h
  refine List.count_pos_iff.2 (List.mem_of_getElem? (i := idx) ?_)
  exact Option.join_eq_some_iff.1 h

theorem firstAvail_spec (h : dap.WellFormed) :
    dap.firstAvail.2.WellFormed ∧ ∀ a, dap.firstAvail.2.slots a = dap.slots a := by
  unfold firstAvail
  dsimp only
  split
  · exact ⟨⟨h.numEntries_le, h.null, h.words⟩, fun _ => rfl⟩
  · exact ⟨h, fun _ => rfl⟩

theorem slots_eq_zero (h : ∀ idx : ℕ, dap.ptrArray[idx]?.join = none) (a : α) : dap.slots a = 0 := by
  refine List.count_eq_zero_of_not_mem fun hmem => ?_
  obtain ⟨idx, hidx⟩ := List.mem_iff_getElem?.1 hmem
  have := h idx
  rw [hidx] at this
  cases this

theorem slots_set (h : dap.WellFormed) (hset : dap.set idx ptr host = some dap') (a : α) :
    dap'.slots a + (if dap.get idx = some a then 1 else 0) =
      dap.slots a + if ptr = some a then 1 else 0 := by
  obtain ⟨hdap', hidx, space, hspace⟩ := set_spec h hset
  rw [hspace, List.length_set] at hidx
  have hcount := count_set_add (dap.grow space).ptrArray idx ptr a
  rw [getElem?_grow, ← get_eq h] at hcount
  have hgrown : (dap.grow space).ptrArray.count (some a) = dap.ptrArray.count (some a) := by
    unfold grow
    simp [List.count_append, List.count_replicate]
  unfold slots
  rw [hspace, ← hgrown]
  simpa [hidx] using hcount

end Count

end DynArray

end SandboxingNaCl
