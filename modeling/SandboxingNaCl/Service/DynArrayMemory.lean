import SandboxingNaCl.Lib.HeapBlock
import SandboxingNaCl.Lib.Runs
import SandboxingNaCl.Service.DynArray

/-!
# The memory of dynamic arrays

`dyn_array.c` with its two blocks on the heap and the arithmetic of `size_t`, for 32 and for 64
bits.  `DynArraySet` doubles the number of elements until the index fits and checks that this does
not wrap, but not that the bytes do not.
-/

namespace SandboxingNaCl

open HeapBlock Function

/-- The widths of the types. -/
inductive Abi
  | ilp32
  | lp64

namespace Abi

/-- The bits of a `size_t`. -/
def sizeBits : Abi → ℕ
  | .ilp32 => 32
  | .lp64 => 64

/-- `sizeof *dap->ptr_array`. -/
def pointerBytes : Abi → ℕ
  | .ilp32 => 4
  | .lp64 => 8

/-- The value in a `size_t`. -/
def sizeT (abi : Abi) (n : ℕ) : ℕ := n % 2 ^ abi.sizeBits

/-- How many elements there are in `n * size` bytes. -/
def elements (abi : Abi) (n size : ℕ) : ℕ := abi.sizeT (n * size) / size

/-- `BitsToAllocWords`. -/
def allocWords (abi : Abi) (nbits : ℕ) : ℕ := abi.sizeT (nbits + 31) / 32

end Abi

/-- `struct DynArray`, with its blocks. -/
structure DynArrayMemory (α : Type*) where
  numEntries : ℕ
  ptrArray : Option (List (Option α))
  ptrArraySpace : ℕ
  available : Option (List (BitVec 32))
  availIx : ℕ

/-- The answers to the calls of `realloc` in a `DynArraySet`. -/
structure GrowAnswers (α : Type*) where
  ptrArray : Answer (Option α)
  available : Answer (BitVec 32)

/-- The loop of `DynArraySet` that doubles the space: `none` where it does not fit a `size_t`.  The
argument in front of the space bounds the number of iterations. -/
def Abi.desiredSpace (abi : Abi) (idx : ℕ) : ℕ → ℕ → Option ℕ
  | 0, _ => none
  | n + 1, space =>
    if idx < space then some space
    else
      let tmp := abi.sizeT (2 * space)
      if tmp < space then none else abi.desiredSpace idx n tmp

/-- The first loop of `DynArrayFirstAvail`, with the number of words left. -/
def scanAvailable (available : Option (List (BitVec 32))) :
    ℕ → ℕ → Except Fault (Option (ℕ × BitVec 32))
  | _, 0 => .ok none
  | ix, n + 1 =>
    match HeapBlock.read available ix with
    | .error fault => .error fault
    | .ok word =>
      if ~~~word ≠ 0 then .ok (some (ix, word)) else scanAvailable available (ix + 1) n

namespace DynArrayMemory

variable {α : Type*}

/-- `DynArrayCtor`; `memory` says whether there is memory for both blocks. -/
def ctor (α : Type*) (abi : Abi) (initialSize : ℕ) (memory : Bool) : Option (DynArrayMemory α) :=
  let initialSize := if initialSize = 0 then 32 else initialSize
  if (2 ^ abi.sizeBits - 1) / abi.pointerBytes < initialSize ∨
      (2 ^ abi.sizeBits - 1) / 4 < abi.allocWords initialSize then
    none
  else if memory then
    some {
      numEntries := 0
      ptrArray := some (List.replicate initialSize none)
      ptrArraySpace := initialSize
      available := some (List.replicate (abi.allocWords initialSize) 0)
      availIx := 0 }
  else none

/-- `DynArrayGet`. -/
def get (dap : DynArrayMemory α) (idx : ℕ) : Except Fault (Option α) :=
  if idx < dap.numEntries then HeapBlock.read dap.ptrArray idx else .ok none

/-- The part of `DynArraySet` that grows the array, and whether it goes on. -/
def grow (abi : Abi) (dap : DynArrayMemory α) (desired : ℕ) (ans : GrowAnswers α) :
    Except Fault (DynArrayMemory α × Bool) :=
  match reallocFill dap.ptrArray (abi.elements desired abi.pointerBytes) dap.ptrArraySpace
      (abi.elements (desired - dap.ptrArraySpace) abi.pointerBytes) none ans.ptrArray with
  | .error fault => .error fault
  | .ok (ptrArray, false) => .ok ({ dap with ptrArray }, false)
  | .ok (ptrArray, true) =>
    let dap := { dap with ptrArray }
    let old := abi.allocWords dap.ptrArraySpace
    let new := abi.allocWords desired
    match reallocFill dap.available (abi.elements new 4) old
        (abi.elements (abi.sizeT (new + (2 ^ abi.sizeBits - old))) 4) 0 ans.available with
    | .error fault => .error fault
    | .ok (available, false) => .ok ({ dap with available }, false)
    | .ok (available, true) => .ok ({ dap with available, ptrArraySpace := desired }, true)

/-- The rest of `DynArraySet`. -/
def store (dap : DynArrayMemory α) (idx : ℕ) (ptr : Option α) : Except Fault (DynArrayMemory α) :=
  match write dap.ptrArray idx ptr with
  | .error fault => .error fault
  | .ok block =>
    match dap.available with
    | none => .error .freed
    | some words =>
      let ix := idx / 32
      match if ptr.isSome then Bitmap.setBit ⟨words⟩ idx else Bitmap.clearBit ⟨words⟩ idx with
      | none => .error .outOfBounds
      | some available =>
        .ok { dap with
          numEntries := if dap.numEntries ≤ idx then idx + 1 else dap.numEntries
          ptrArray := some block
          available := some available.words
          availIx := if ptr.isNone ∧ ix < dap.availIx then ix else dap.availIx }

/-- `DynArraySet`, with its result. -/
def set (abi : Abi) (dap : DynArrayMemory α) (idx : ℕ) (ptr : Option α) (ans : GrowAnswers α) :
    Except Fault (DynArrayMemory α × Bool) :=
  match abi.desiredSpace idx (abi.sizeBits + 1) dap.ptrArraySpace with
  | none => .ok (dap, false)
  | some desired =>
    match if desired ≠ dap.ptrArraySpace then dap.grow abi desired ans else .ok (dap, true) with
    | .error fault => .error fault
    | .ok (dap, false) => .ok (dap, false)
    | .ok (dap, true) => (dap.store idx ptr).map fun dap => (dap, true)

/-- `DynArrayFirstAvail`: the index, and the array with its new hint. -/
def firstAvail (abi : Abi) (dap : DynArrayMemory α) : Except Fault (ℕ × DynArrayMemory α) :=
  let lastIx := abi.allocWords dap.ptrArraySpace
  match scanAvailable dap.available dap.availIx (lastIx - dap.availIx) with
  | .error fault => .error fault
  | .ok none => .ok (dap.ptrArraySpace, dap)
  | .ok (some (ix, word)) =>
    .ok (abi.sizeT (ffs (~~~word) - 1 + abi.sizeT (ix * 32)), { dap with availIx := ix })

end DynArrayMemory

/-! ## Sizes -/

/-- The bytes of the least doubling of the initial space that has the index fit a `size_t`, or the
doubling does not. -/
def Abi.Fits (abi : Abi) (initial idx : ℕ) : Prop :=
  ∀ k, (∀ j < k, 2 ^ j * initial ≤ idx) → idx < 2 ^ k * initial →
    2 ^ k * initial < 2 ^ abi.sizeBits → 2 ^ k * initial * abi.pointerBytes < 2 ^ abi.sizeBits

namespace Abi

variable {abi : Abi} {idx n space desired : ℕ}

theorem sizeT_eq (h : n < 2 ^ abi.sizeBits) : abi.sizeT n = n := Nat.mod_eq_of_lt h

theorem elements_pointerBytes (h : n * abi.pointerBytes < 2 ^ abi.sizeBits) :
    abi.elements n abi.pointerBytes = n := by
  rw [elements, sizeT_eq h]
  cases abi with
  | ilp32 => exact Nat.mul_div_cancel n (by decide)
  | lp64 => exact Nat.mul_div_cancel n (by decide)

theorem four_mul_lt (h : n * abi.pointerBytes < 2 ^ abi.sizeBits) : 4 * n < 2 ^ abi.sizeBits := by
  cases abi with
  | ilp32 =>
    simp only [pointerBytes, sizeBits] at h ⊢
    omega
  | lp64 =>
    simp only [pointerBytes, sizeBits] at h ⊢
    omega

theorem le_two_pow_sizeBits (abi : Abi) : 2 ^ 32 ≤ 2 ^ abi.sizeBits := by
  cases abi <;> decide

theorem allocWords_eq (h : n * abi.pointerBytes < 2 ^ abi.sizeBits) :
    abi.allocWords n = bitsToAllocWords n := by
  have hfour := four_mul_lt h
  have hbits := abi.le_two_pow_sizeBits
  rw [allocWords, sizeT_eq (by omega), bitsToAllocWords]

theorem elements_le_of_not_lt (h : ¬ n * abi.pointerBytes < 2 ^ abi.sizeBits)
    (hn : n < 2 ^ abi.sizeBits) (hidx : n ≤ 2 * idx) : abi.elements n abi.pointerBytes ≤ idx := by
  cases abi with
  | ilp32 =>
    simp only [pointerBytes, sizeBits, elements, sizeT] at *
    omega
  | lp64 =>
    simp only [pointerBytes, sizeBits, elements, sizeT] at *
    omega

theorem desiredSpace_spec (hpos : 0 < space) (hlt : space < 2 ^ abi.sizeBits)
    (hfuel : 2 ^ abi.sizeBits < 2 ^ n * space) :
    ∃ k, (∀ j < k, 2 ^ j * space ≤ idx) ∧
      ((idx < 2 ^ k * space ∧ 2 ^ k * space < 2 ^ abi.sizeBits ∧
          abi.desiredSpace idx n space = some (2 ^ k * space)) ∨
        (2 ^ abi.sizeBits ≤ 2 ^ k * space ∧ abi.desiredSpace idx n space = none)) := by
  induction n generalizing space with
  | zero => omega
  | succ n ih =>
    rw [desiredSpace]
    by_cases hidx : idx < space
    · refine ⟨0, by simp, Or.inl ?_⟩
      rw [Nat.pow_zero, Nat.one_mul, if_pos hidx]
      exact ⟨hidx, hlt, rfl⟩
    · rw [if_neg hidx]
      have hfirst {k : ℕ} (h : ∀ j < k, 2 ^ j * (2 * space) ≤ idx) :
          ∀ j < k + 1, 2 ^ j * space ≤ idx := by
        intro j hj
        cases j with
        | zero => simpa using hidx
        | succ j =>
          rw [Nat.pow_succ, Nat.mul_assoc]
          exact h j (by omega)
      by_cases hwrap : 2 * space < 2 ^ abi.sizeBits
      · obtain ⟨k, hk, hresult⟩ := @ih (2 * space) (by omega) hwrap (by
          rwa [Nat.pow_succ, Nat.mul_assoc] at hfuel)
        refine ⟨k + 1, hfirst hk, ?_⟩
        dsimp only
        rw [sizeT_eq hwrap, if_neg (by omega), Nat.pow_succ, Nat.mul_assoc]
        exact hresult
      · refine ⟨1, hfirst (by simp), Or.inr ⟨by omega, ?_⟩⟩
        have htmp : abi.sizeT (2 * space) = 2 * space - 2 ^ abi.sizeBits := by
          rw [sizeT, Nat.mod_eq_sub_mod (by omega), Nat.mod_eq_of_lt (by omega)]
        dsimp only
        rw [htmp, if_pos (by omega)]

end Abi

namespace DynArrayMemory

variable {α : Type*} {abi : Abi} {initial : ℕ} {dap dap' : DynArrayMemory α} {stored : ℕ → Option α}
  {idx desired : ℕ} {ptr : Option α} {ans : GrowAnswers α}

/-- The array holds the pointers that have been stored; its bitmap and hint say which are null. -/
structure Holds (abi : Abi) (initial : ℕ) (dap : DynArrayMemory α) (stored : ℕ → Option α) :
    Prop where
  doubled : ∃ k, dap.ptrArraySpace = 2 ^ k * initial
  space_pos : 0 < dap.ptrArraySpace
  fits : dap.ptrArraySpace * abi.pointerBytes < 2 ^ abi.sizeBits
  numEntries_le : dap.numEntries ≤ dap.ptrArraySpace
  entries : ∃ block, dap.ptrArray = some block ∧ dap.ptrArraySpace ≤ block.length ∧
    ∀ i < dap.ptrArraySpace, block[i]? = some (stored i)
  null : ∀ i, dap.numEntries ≤ i → stored i = none
  bits : ∃ words, dap.available = some words ∧
    words.length = bitsToAllocWords dap.ptrArraySpace ∧
    ∀ i, (⟨words⟩ : Bitmap 32).test i = (stored i).isSome
  hint : ∀ i < 32 * dap.availIx, stored i ≠ none

theorem holds_ctor {initialSize : ℕ} {memory : Bool}
    (h : ctor α abi initialSize memory = some dap) :
    dap.Holds abi (if initialSize = 0 then 32 else initialSize) fun _ => none := by
  unfold ctor at h
  generalize hinitial : (if initialSize = 0 then 32 else initialSize) = initial at h ⊢
  have hpos : 0 < initial := by split_ifs at hinitial <;> omega
  dsimp only at h
  split_ifs at h with hsize hmemory
  cases h
  have hfits : initial * abi.pointerBytes < 2 ^ abi.sizeBits := by
    have hle : initial ≤ (2 ^ abi.sizeBits - 1) / abi.pointerBytes := by omega
    have hbytes : 0 < abi.pointerBytes := by cases abi <;> decide
    have hmul := (Nat.le_div_iff_mul_le hbytes).1 hle
    have hbits := abi.le_two_pow_sizeBits
    omega
  refine ⟨⟨0, by simp⟩, hpos, hfits, Nat.zero_le _, ⟨_, rfl, by simp, fun i hi => ?_⟩,
    fun _ _ => rfl, ⟨_, rfl, ?_, fun i => ?_⟩, fun i hi => absurd hi (Nat.not_lt_zero i)⟩
  · rw [List.getElem?_replicate, if_pos hi]
  · rw [List.length_replicate, Abi.allocWords_eq hfits]
  · exact Bitmap.test_allocate

theorem Holds.grow (h : dap.Holds abi initial stored) (hlt : dap.ptrArraySpace < desired)
    (hdoubled : ∃ k, desired = 2 ^ k * initial)
    (hfits : desired * abi.pointerBytes < 2 ^ abi.sizeBits) (ans : GrowAnswers α) :
    ∃ dap' ok, dap.grow abi desired ans = .ok (dap', ok) ∧ dap'.Holds abi initial stored ∧
      dap'.ptrArraySpace = if ok then desired else dap.ptrArraySpace := by
  obtain ⟨block, hblock, hspace, hentries⟩ := h.entries
  obtain ⟨words, hwords, hlength, hbits⟩ := h.bits
  have hle : (desired - dap.ptrArraySpace) * abi.pointerBytes ≤ desired * abi.pointerBytes :=
    Nat.mul_le_mul_right _ (Nat.sub_le _ _)
  have hfour := Abi.four_mul_lt hfits
  have hpow := abi.le_two_pow_sizeBits
  unfold DynArrayMemory.grow
  rw [hblock, Abi.elements_pointerBytes hfits,
    Abi.elements_pointerBytes (Nat.lt_of_le_of_lt hle hfits)]
  obtain hfail | ⟨new, hnew, hnew_length, hnew_old, hnew_null⟩ :=
    @reallocFill_spec _ block desired dap.ptrArraySpace none ans.ptrArray hspace
      (Nat.le_of_lt hlt) (Nat.zero_lt_of_lt hlt)
  · rw [hfail]
    exact ⟨_, false, rfl, ⟨h.doubled, h.space_pos, h.fits, h.numEntries_le,
      ⟨block, rfl, hspace, hentries⟩, h.null, h.bits, h.hint⟩, rfl⟩
  · rw [hnew]
    have hnew_entries (i : ℕ) (hi : i < desired) : new[i]? = some (stored i) := by
      rcases Nat.lt_or_ge i dap.ptrArraySpace with hold | hge
      · rw [hnew_old i hold, hentries i hold]
      · rw [hnew_null i hge hi, h.null i (h.numEntries_le.trans hge)]
    have hmono : bitsToAllocWords dap.ptrArraySpace ≤ bitsToAllocWords desired := by
      unfold bitsToAllocWords
      omega
    have hpos : 0 < bitsToAllocWords desired := by
      unfold bitsToAllocWords
      omega
    have hlarge : 4 * bitsToAllocWords desired < 2 ^ abi.sizeBits := by
      unfold bitsToAllocWords
      omega
    have hcount : abi.elements (abi.sizeT (bitsToAllocWords desired +
        (2 ^ abi.sizeBits - bitsToAllocWords dap.ptrArraySpace))) 4 =
        bitsToAllocWords desired - bitsToAllocWords dap.ptrArraySpace := by
      have hsub : abi.sizeT (bitsToAllocWords desired +
          (2 ^ abi.sizeBits - bitsToAllocWords dap.ptrArraySpace)) =
          bitsToAllocWords desired - bitsToAllocWords dap.ptrArraySpace := by
        rw [Abi.sizeT, Nat.mod_eq_sub_mod (by omega), Nat.mod_eq_of_lt (by omega)]
        omega
      rw [hsub, Abi.elements, Abi.sizeT_eq (by omega), Nat.mul_div_cancel _ (by decide)]
    have hnwords : abi.elements (bitsToAllocWords desired) 4 = bitsToAllocWords desired := by
      rw [Abi.elements, Abi.sizeT_eq (by omega), Nat.mul_div_cancel _ (by decide)]
    dsimp only
    rw [hwords, Abi.allocWords_eq hfits, Abi.allocWords_eq h.fits, hnwords, hcount]
    obtain hfail | ⟨avail, havail, havail_length, havail_old, havail_zero⟩ :=
      @reallocFill_spec _ words (bitsToAllocWords desired) (bitsToAllocWords dap.ptrArraySpace) 0
        ans.available (Nat.le_of_eq hlength.symm) hmono hpos
    · rw [hfail]
      exact ⟨_, false, rfl, ⟨h.doubled, h.space_pos, h.fits, h.numEntries_le,
        ⟨new, rfl, by dsimp only; omega, fun i hi => hnew_entries i (hi.trans hlt)⟩, h.null,
        ⟨words, rfl, hlength, hbits⟩, h.hint⟩, rfl⟩
    · rw [havail]
      refine ⟨_, true, rfl, ⟨hdoubled, Nat.zero_lt_of_lt hlt, hfits,
        h.numEntries_le.trans (Nat.le_of_lt hlt), ⟨new, rfl, Nat.le_of_eq hnew_length.symm,
          hnew_entries⟩, h.null, ⟨avail, rfl, havail_length, fun i => ?_⟩, h.hint⟩, rfl⟩
      rw [← hbits]
      unfold Bitmap.test
      dsimp only
      rcases Nat.lt_or_ge (i / 32) words.length with hold | hge
      · rw [havail_old _ (by omega)]
      · rw [List.getElem?_eq_none hge]
        rcases Nat.lt_or_ge (i / 32) avail.length with hin | hout
        · rw [havail_zero _ (by omega) (by omega)]
          rfl
        · rw [List.getElem?_eq_none hout]

theorem Holds.store (h : dap.Holds abi initial stored) (hidx : idx < dap.ptrArraySpace)
    (ptr : Option α) :
    ∃ dap', dap.store idx ptr = .ok dap' ∧
      dap'.Holds abi initial (update stored idx ptr) ∧
      dap'.ptrArraySpace = dap.ptrArraySpace := by
  obtain ⟨block, hblock, hspace, hentries⟩ := h.entries
  obtain ⟨words, hwords, hlength, hbits⟩ := h.bits
  have hcapacity : idx < Bitmap.capacity ⟨words⟩ := by
    rw [Bitmap.capacity, hlength, bitsToAllocWords]
    omega
  obtain ⟨available, havailable, htest, hcap⟩ : ∃ available : Bitmap 32,
      (if ptr.isSome then Bitmap.setBit ⟨words⟩ idx else Bitmap.clearBit ⟨words⟩ idx) =
        some available ∧
      (∀ i, available.test i = (update stored idx ptr i).isSome) ∧
      available.words.length = words.length := by
    cases ptr with
    | some a =>
      obtain ⟨available, havailable⟩ := Bitmap.exists_setBit hcapacity
      refine ⟨available, havailable, fun i => ?_, Bitmap.length_update havailable⟩
      rw [Bitmap.test_setBit (by decide) havailable, hbits]
      by_cases hi : i = idx
      · subst hi
        simp
      · simp [hi]
    | none =>
      obtain ⟨available, havailable⟩ := Bitmap.exists_clearBit hcapacity
      refine ⟨available, havailable, fun i => ?_, Bitmap.length_update havailable⟩
      rw [Bitmap.test_clearBit (by decide) havailable, hbits]
      by_cases hi : i = idx
      · subst hi
        simp
      · simp [hi]
  have hwrite : write (some block) idx ptr = .ok (block.set idx ptr) := if_pos (by omega)
  unfold DynArrayMemory.store
  rw [hblock, hwrite]
  dsimp only
  rw [hwords]
  dsimp only
  rw [havailable]
  refine ⟨_, rfl, ⟨h.doubled, h.space_pos, h.fits, ?_, ⟨block.set idx ptr, rfl, ?_, fun i hi => ?_⟩,
    fun i hi => ?_, ⟨available.words, rfl, hcap.trans hlength, htest⟩, fun i hi => ?_⟩, rfl⟩
  · have hle := h.numEntries_le
    dsimp only
    split_ifs <;> omega
  · rw [List.length_set]
    exact hspace
  · by_cases heq : i = idx
    · subst heq
      rw [List.getElem?_set_self (by omega), update_self]
    · rw [List.getElem?_set_ne (Ne.symm heq), hentries i hi, update_of_ne heq]
  · dsimp only at hi
    rw [update_of_ne (by split_ifs at hi <;> omega)]
    exact h.null i (by split_ifs at hi <;> omega)
  · -- The words in front of the hint are full, and a null pointer lowers it.
    dsimp only at hi
    cases ptr with
    | some a =>
      by_cases heq : i = idx
      · rw [heq, update_self]
        exact Option.some_ne_none a
      · rw [update_of_ne heq]
        exact h.hint i (by simpa using hi)
    | none =>
      simp only [Option.isNone_none, true_and] at hi
      rw [update_of_ne (by split_ifs at hi <;> omega)]
      exact h.hint i (by split_ifs at hi <;> omega)

theorem Holds.space_lt (h : dap.Holds abi initial stored) :
    dap.ptrArraySpace < 2 ^ abi.sizeBits := by
  have hfour := Abi.four_mul_lt h.fits
  omega

theorem Holds.desiredSpace (h : dap.Holds abi initial stored) (idx : ℕ) :
    ∃ k, (∀ j < k, 2 ^ j * dap.ptrArraySpace ≤ idx) ∧
      ((idx < 2 ^ k * dap.ptrArraySpace ∧ 2 ^ k * dap.ptrArraySpace < 2 ^ abi.sizeBits ∧
          abi.desiredSpace idx (abi.sizeBits + 1) dap.ptrArraySpace =
            some (2 ^ k * dap.ptrArraySpace)) ∨
        (2 ^ abi.sizeBits ≤ 2 ^ k * dap.ptrArraySpace ∧
          abi.desiredSpace idx (abi.sizeBits + 1) dap.ptrArraySpace = none)) := by
  refine Abi.desiredSpace_spec h.space_pos h.space_lt ?_
  have hpos := h.space_pos
  have hpow := abi.le_two_pow_sizeBits
  calc 2 ^ abi.sizeBits
    _ < 2 ^ (abi.sizeBits + 1) := Nat.pow_lt_pow_right (by decide) (Nat.lt_succ_self _)
    _ ≤ 2 ^ (abi.sizeBits + 1) * dap.ptrArraySpace := Nat.le_mul_of_pos_right _ hpos

theorem le_of_doublings {i k space : ℕ} (hspace : space = 2 ^ i * initial)
    (h : ∀ j < k, 2 ^ j * space ≤ idx) (hk : 0 < k) : ∀ j < k + i, 2 ^ j * initial ≤ idx := by
  intro j hj
  have hlast := h (k - 1) (by omega)
  rw [hspace, ← Nat.mul_assoc, ← Nat.pow_add] at hlast
  exact (Nat.mul_le_mul_right _ (Nat.pow_le_pow_right (by decide) (by omega))).trans hlast

theorem Holds.set (h : dap.Holds abi initial stored) (hfits : abi.Fits initial idx) (ptr : Option α)
    (ans : GrowAnswers α) :
    ∃ dap' ok, dap.set abi idx ptr ans = .ok (dap', ok) ∧
      dap'.Holds abi initial (if ok then update stored idx ptr else stored) ∧
      if ok then abi.desiredSpace idx (abi.sizeBits + 1) dap.ptrArraySpace = some dap'.ptrArraySpace
      else dap'.ptrArraySpace = dap.ptrArraySpace ∧
        abi.desiredSpace idx (abi.sizeBits + 1) dap.ptrArraySpace ≠ some dap.ptrArraySpace := by
  obtain ⟨k, hk, ⟨hidx, hlt, hdesired⟩ | ⟨-, hdesired⟩⟩ := h.desiredSpace idx
  · obtain ⟨i, hi⟩ := h.doubled
    have hdoubled : 2 ^ k * dap.ptrArraySpace = 2 ^ (k + i) * initial := by
      rw [hi, ← Nat.mul_assoc, ← Nat.pow_add]
    unfold DynArrayMemory.set
    rw [hdesired]
    dsimp only
    by_cases hgrow : 2 ^ k * dap.ptrArraySpace ≠ dap.ptrArraySpace
    · have hpos : 0 < k := by
        by_contra hzero
        obtain rfl : k = 0 := by omega
        exact hgrow (by rw [Nat.pow_zero, Nat.one_mul])
      have hbytes : 2 ^ k * dap.ptrArraySpace * abi.pointerBytes < 2 ^ abi.sizeBits := by
        rw [hdoubled] at hidx hlt ⊢
        exact hfits (k + i) (le_of_doublings hi hk hpos) hidx hlt
      have hspace : dap.ptrArraySpace < 2 ^ k * dap.ptrArraySpace :=
        Nat.lt_of_le_of_ne (Nat.le_mul_of_pos_left _ (Nat.two_pow_pos k)) (Ne.symm hgrow)
      obtain ⟨dap', ok, hok, hdap', hnew⟩ := h.grow hspace ⟨k + i, hdoubled⟩ hbytes ans
      rw [if_pos hgrow, hok]
      cases ok with
      | false => exact ⟨dap', false, rfl, hdap', hnew, fun heq => hgrow (Option.some.inj heq)⟩
      | true =>
        obtain ⟨dap'', hstore, hdap'', hspace''⟩ := hdap'.store (by rw [hnew]; exact hidx) ptr
        exact ⟨dap'', true, by simp [hstore, Except.map], hdap'',
          congrArg some (hspace''.trans hnew).symm⟩
    · rw [if_neg hgrow]
      rw [not_not] at hgrow
      obtain ⟨dap', hstore, hdap', hspace⟩ := h.store (by rw [← hgrow]; exact hidx) ptr
      exact ⟨dap', true, by simp [hstore, Except.map], hdap',
        congrArg some (hgrow.trans hspace.symm)⟩
  · unfold DynArrayMemory.set
    rw [hdesired]
    exact ⟨dap, false, rfl, h, rfl, fun heq => nomatch heq⟩

theorem Holds.grow_of_memory (h : dap.Holds abi initial stored) (desired : ℕ)
    (hmemory : ans.ptrArray.memory = true) (havailable : ans.available.memory = true) :
    (∃ fault, dap.grow abi desired ans = .error fault) ∨
      ∃ dap' block, dap.grow abi desired ans = .ok (dap', true) ∧ dap'.ptrArray = some block ∧
        block.length = abi.elements desired abi.pointerBytes := by
  obtain ⟨block, hblock, -, -⟩ := h.entries
  obtain ⟨words, hwords, -, -⟩ := h.bits
  unfold DynArrayMemory.grow
  rw [hblock, reallocFill, if_pos hmemory]
  cases hfill : fill (resized block (abi.elements desired abi.pointerBytes) ans.ptrArray.content)
      dap.ptrArraySpace (abi.elements (desired - dap.ptrArraySpace) abi.pointerBytes) none with
  | error fault => exact Or.inl ⟨fault, rfl⟩
  | ok new =>
    simp only [Except.map, hwords, reallocFill, if_pos havailable]
    generalize fill (resized words _ ans.available.content) _ _ (0 : BitVec 32) = result
    cases result with
    | error fault => exact Or.inl ⟨fault, rfl⟩
    | ok avail => exact Or.inr ⟨_, new, rfl, rfl, (length_fill hfill).trans (length_resized ..)⟩

theorem desiredSpace_lp64 (idx n space : ℕ) :
    Abi.desiredSpace .lp64 idx n space = DynArray.desiredSpace idx n space := by
  induction n generalizing space with
  | zero => rfl
  | succ n ih =>
    rw [Abi.desiredSpace, DynArray.desiredSpace]
    dsimp only
    rw [ih]
    rfl

/-- For sizes that fit, the array without its memory does the same. -/
theorem Holds.set_dynArray (h : dap.Holds .lp64 initial stored) (hfits : Abi.Fits .lp64 initial idx)
    (ptr : Option α) (ans : GrowAnswers α) {arr : DynArray α} (harr : arr.WellFormed)
    (hget : ∀ i, arr.get i = stored i) (hspace : arr.ptrArray.length = dap.ptrArraySpace) :
    ∃ dap' ok, dap.set .lp64 idx ptr ans = .ok (dap', ok) ∧
      if ok then ∃ arr', arr.set idx ptr true = some arr' ∧ arr'.WellFormed ∧
        arr'.ptrArray.length = dap'.ptrArraySpace ∧
        ∀ i, arr'.get i = update stored idx ptr i
      else arr.set idx ptr false = none := by
  obtain ⟨dap', ok, hset, -, hresult⟩ := h.set hfits ptr ans
  refine ⟨dap', ok, hset, ?_⟩
  rw [desiredSpace_lp64, ← hspace] at hresult
  change if ok then DynArray.desiredSpace idx 65 arr.ptrArray.length = _
    else _ ∧ DynArray.desiredSpace idx 65 arr.ptrArray.length ≠ _ at hresult
  cases ok with
  | true =>
    obtain ⟨arr', harr_set, hlength⟩ := harr.exists_set hresult (Or.inr rfl)
    refine ⟨arr', harr_set, (DynArray.set_spec harr harr_set).1, hlength, fun i => ?_⟩
    rw [DynArray.get_set harr harr_set, update_apply, hget]
  | false =>
    obtain ⟨-, hne⟩ := hresult
    change arr.set idx ptr false = none
    unfold DynArray.set
    cases hdesired : DynArray.desiredSpace idx 65 arr.ptrArray.length with
    | none => rfl
    | some space =>
      refine if_pos ⟨fun heq => hne ?_, rfl⟩
      rw [hdesired, heq]

/-- Where the bytes do not fit and there is memory for what is left of them, the pointer is stored
behind the block, if not something else before. -/
theorem Holds.set_error (h : dap.Holds abi initial stored) (hfits : ¬ abi.Fits initial idx)
    (ptr : Option α) (hmemory : ans.ptrArray.memory = true)
    (havailable : ans.available.memory = true) :
    ∃ fault, dap.set abi idx ptr ans = .error fault := by
  unfold Abi.Fits at hfits
  push Not at hfits
  obtain ⟨m, hm, hidx, hlt, hbytes⟩ := hfits
  obtain ⟨i, hi⟩ := h.doubled
  have hspace := h.fits
  -- The space is a smaller doubling.
  have him : i < m := by
    by_contra hge
    have hle : 2 ^ m * initial ≤ 2 ^ i * initial :=
      Nat.mul_le_mul_right _ (Nat.pow_le_pow_right (by decide) (by omega))
    have hmul := Nat.mul_le_mul_right abi.pointerBytes hle
    rw [← hi] at hmul
    omega
  obtain ⟨n, rfl⟩ : ∃ n, m = n + 1 + i := ⟨m - i - 1, by omega⟩
  have hdoubled (j : ℕ) : 2 ^ (j + i) * initial = 2 ^ j * dap.ptrArraySpace := by
    rw [hi, ← Nat.mul_assoc, ← Nat.pow_add]
  rw [hdoubled] at hidx hlt hbytes
  have hlast : 2 ^ n * dap.ptrArraySpace ≤ idx := by
    rw [← hdoubled]
    exact hm (n + i) (by omega)
  have hmono {j k : ℕ} (hjk : j ≤ k) : 2 ^ j * dap.ptrArraySpace ≤ 2 ^ k * dap.ptrArraySpace :=
    Nat.mul_le_mul_right _ (Nat.pow_le_pow_right (by decide) hjk)
  -- The loop comes to the same doubling.
  have hdesired : abi.desiredSpace idx (abi.sizeBits + 1) dap.ptrArraySpace =
      some (2 ^ (n + 1) * dap.ptrArraySpace) := by
    obtain ⟨k, hk, hresult⟩ := h.desiredSpace idx
    rcases Nat.lt_trichotomy k (n + 1) with hlt' | rfl | hgt
    · have hle := @hmono k n (by omega)
      have hle' := @hmono k (n + 1) (by omega)
      omega
    · obtain ⟨-, -, hdesired⟩ | ⟨hge, -⟩ := hresult
      · exact hdesired
      · omega
    · have hle := hk (n + 1) hgt
      omega
  have hgrow : 2 ^ (n + 1) * dap.ptrArraySpace ≠ dap.ptrArraySpace := by
    have hle := @hmono 0 n (Nat.zero_le n)
    omega
  have hshort : abi.elements (2 ^ (n + 1) * dap.ptrArraySpace) abi.pointerBytes ≤ idx := by
    refine Abi.elements_le_of_not_lt (by omega) hlt ?_
    rw [Nat.pow_succ, Nat.mul_right_comm]
    omega
  unfold DynArrayMemory.set
  rw [hdesired]
  dsimp only
  rw [if_pos hgrow]
  obtain ⟨fault, hfault⟩ | ⟨dap', block, hok, hblock, hlength⟩ :=
    h.grow_of_memory (2 ^ (n + 1) * dap.ptrArraySpace) hmemory havailable
  · rw [hfault]
    exact ⟨fault, rfl⟩
  · have hwrite : write (some block) idx ptr = .error .outOfBounds := if_neg (by omega)
    rw [hok]
    dsimp only
    rw [DynArrayMemory.store, hblock, hwrite]
    exact ⟨.outOfBounds, rfl⟩

/-! ## The first null pointer -/

theorem getLsbD_of_not_eq_zero {word : BitVec 32} (h : ~~~word = 0) {i : ℕ} (hi : i < 32) :
    word.getLsbD i = true := by
  have hbit := congrArg (BitVec.getLsbD · i) h
  rw [BitVec.getLsbD_not, decide_eq_true hi, Bool.true_and] at hbit
  have hzero : (0 : BitVec 32).getLsbD i = false := BitVec.getLsbD_zero
  rw [hzero] at hbit
  simpa using hbit

theorem ffs_spec {word : BitVec 32} (h : ~~~word ≠ 0) : ∃ bit < 32, ffs (~~~word) = bit + 1 ∧
    word.getLsbD bit = false ∧ ∀ i < bit, word.getLsbD i = true := by
  unfold ffs
  cases hfind : (List.range 32).find? ((~~~word).getLsbD ·) with
  | none =>
    refine absurd (BitVec.eq_of_getLsbD_eq fun i hi => ?_) h
    have hbit := List.find?_eq_none.1 hfind i (List.mem_range.2 hi)
    have hzero : (0 : BitVec 32).getLsbD i = false := BitVec.getLsbD_zero
    rw [hzero]
    simpa using hbit
  | some bit =>
    obtain ⟨hbit, hmem, hfirst⟩ := List.find?_range_eq_some.1 hfind
    have hlt := List.mem_range.1 hmem
    refine ⟨bit, hlt, rfl, ?_, fun i hi => ?_⟩
    · rw [BitVec.getLsbD_not, decide_eq_true hlt, Bool.true_and] at hbit
      simpa using hbit
    · have hone := hfirst i hi
      rw [BitVec.getLsbD_not, decide_eq_true (hi.trans hlt), Bool.true_and] at hone
      simpa using hone

theorem scanAvailable_spec (words : List (BitVec 32)) (ix n : ℕ) (hn : ix + n ≤ words.length) :
    (scanAvailable (some words) ix n = .ok none ∧
        ∀ j, ix ≤ j → j < ix + n → ∃ word, words[j]? = some word ∧ ~~~word = 0) ∨
      ∃ j word, scanAvailable (some words) ix n = .ok (some (j, word)) ∧ ix ≤ j ∧ j < ix + n ∧
        words[j]? = some word ∧ ~~~word ≠ 0 ∧
        ∀ i, ix ≤ i → i < j → ∃ word, words[i]? = some word ∧ ~~~word = 0 := by
  induction n generalizing ix with
  | zero => exact Or.inl ⟨rfl, fun j hle hlt => by omega⟩
  | succ n ih =>
    have hget : words[ix]? = some words[ix] := List.getElem?_eq_getElem (by omega)
    have hread : HeapBlock.read (some words) ix = .ok words[ix] := by
      rw [HeapBlock.read, hget]
    rw [scanAvailable, hread]
    dsimp only
    by_cases hfull : ~~~words[ix] = 0
    · rw [if_neg (not_not.2 hfull)]
      have hhead {j : ℕ} (hle : ix ≤ j)
          (h : ix + 1 ≤ j → ∃ word, words[j]? = some word ∧ ~~~word = 0) :
          ∃ word, words[j]? = some word ∧ ~~~word = 0 := by
        obtain rfl | hlt := Nat.eq_or_lt_of_le hle
        · exact ⟨_, hget, hfull⟩
        · exact h hlt
      obtain ⟨hnone, hall⟩ | ⟨j, word, hfound, hle, hlt, hword, hnot, hall⟩ :=
        ih (ix + 1) (by omega)
      · exact Or.inl ⟨hnone, fun j hle hlt => hhead hle fun hle' => hall j hle' (by omega)⟩
      · exact Or.inr ⟨j, word, hfound, by omega, by omega, hword, hnot,
          fun i hle hlt => hhead hle fun hle' => hall i hle' hlt⟩
    · rw [if_pos hfull]
      exact Or.inr ⟨ix, words[ix], rfl, le_rfl, by omega, hget, hfull, fun i hle hlt => by omega⟩

theorem ne_none_of_full {words : List (BitVec 32)} {word : BitVec 32} {i : ℕ}
    (hbits : ∀ i, (⟨words⟩ : Bitmap 32).test i = (stored i).isSome)
    (hword : words[i / 32]? = some word) (hfull : ~~~word = 0) : stored i ≠ none := by
  have htest := hbits i
  rw [Bitmap.test, hword] at htest
  have hbit := getLsbD_of_not_eq_zero hfull (Nat.mod_lt i (by decide))
  change word.getLsbD (i % 32) = _ at htest
  rw [hbit] at htest
  exact Option.isSome_iff_ne_none.1 htest.symm

theorem Holds.firstAvail (h : dap.Holds abi initial stored) :
    ∃ n dap', dap.firstAvail abi = .ok (n, dap') ∧ stored n = none ∧ (∀ m < n, stored m ≠ none) ∧
      dap'.Holds abi initial stored := by
  obtain ⟨words, hwords, hlength, hbits⟩ := h.bits
  have hpow := abi.le_two_pow_sizeBits
  have hfour := Abi.four_mul_lt h.fits
  have hspace : dap.ptrArraySpace ≤ 32 * words.length ∧
      32 * words.length < dap.ptrArraySpace + 32 := by
    rw [hlength, bitsToAllocWords]
    omega
  unfold DynArrayMemory.firstAvail
  rw [hwords, Abi.allocWords_eq h.fits, ← hlength]
  dsimp only
  by_cases hix : words.length < dap.availIx
  · -- Every word is full.
    have hzero : words.length - dap.availIx = 0 := by omega
    rw [hzero]
    exact ⟨dap.ptrArraySpace, dap, rfl, h.null _ h.numEntries_le,
      fun m hm => h.hint m (by omega), h⟩
  · have hadd : dap.availIx + (words.length - dap.availIx) = words.length := by omega
    have hscan := scanAvailable_spec words dap.availIx (words.length - dap.availIx) (by omega)
    rw [hadd] at hscan
    have hbelow {ix m : ℕ} (hm : m < 32 * ix) (hall : ∀ i, dap.availIx ≤ i → i < ix →
        ∃ word, words[i]? = some word ∧ ~~~word = 0) : stored m ≠ none := by
      rcases Nat.lt_or_ge m (32 * dap.availIx) with hlt | hge
      · exact h.hint m hlt
      · obtain ⟨word, hword, hfull⟩ := hall (m / 32) (by omega) (by omega)
        exact ne_none_of_full hbits hword hfull
    obtain ⟨hnone, hall⟩ | ⟨ix, word, hfound, hle, hlt, hword, hnot, hall⟩ := hscan
    · rw [hnone]
      exact ⟨dap.ptrArraySpace, dap, rfl, h.null _ h.numEntries_le,
        fun m hm => hbelow (by omega) hall, h⟩
    · rw [hfound]
      obtain ⟨bit, hbit, hffs, hclear, hset⟩ := ffs_spec hnot
      have hindex : abi.sizeT (ffs (~~~word) - 1 + abi.sizeT (ix * 32)) = 32 * ix + bit := by
        rw [hffs, Abi.sizeT_eq (n := ix * 32) (by omega), Abi.sizeT_eq (by omega)]
        omega
      have htest (i : ℕ) (hi : i < 32) : word.getLsbD i = (stored (32 * ix + i)).isSome := by
        have hdiv : (32 * ix + i) / 32 = ix := by omega
        have hmod : (32 * ix + i) % 32 = i := by omega
        rw [← hbits, Bitmap.test, hdiv, hmod, hword]
        rfl
      refine ⟨32 * ix + bit, { dap with available := some words, availIx := ix },
        by dsimp only; rw [hindex], ?_, fun m hm => ?_, ⟨h.doubled, h.space_pos, h.fits,
          h.numEntries_le, h.entries, h.null, ⟨words, rfl, hlength, hbits⟩,
          fun i hi => hbelow hi hall⟩⟩
      · rw [htest bit hbit] at hclear
        simpa using hclear
      · rcases Nat.lt_or_ge m (32 * ix) with hfront | hback
        · exact hbelow hfront hall
        · have hone := hset (m - 32 * ix) (by omega)
          rw [htest _ (by omega), Nat.add_sub_cancel' hback] at hone
          exact Option.isSome_iff_ne_none.1 hone

theorem Holds.get (h : dap.Holds abi initial stored) (idx : ℕ) :
    dap.get idx = .ok (stored idx) := by
  obtain ⟨block, hblock, -, hentries⟩ := h.entries
  unfold DynArrayMemory.get
  by_cases hidx : idx < dap.numEntries
  · rw [if_pos hidx, hblock, HeapBlock.read, hentries idx (hidx.trans_le h.numEntries_le)]
  · rw [if_neg hidx, h.null idx (by omega)]

end DynArrayMemory

/-! ## Runs -/

/-- The calls on an array. -/
inductive ArrayCall (abi : Abi) (α : Type*)
  | set (idx : BitVec abi.sizeBits) (ptr : Option α)
  | firstAvail

/-- An array, and the pointers that have been stored in it. -/
structure ArrayRun (α : Type*) where
  dap : DynArrayMemory α
  stored : ℕ → Option α

namespace ArrayRun

variable {α : Type*} {abi : Abi}

/-- A call, with the answers of the host to it; a `DynArraySet` that returns 0 stores nothing. -/
def step (r : ArrayRun α) : ArrayCall abi α × GrowAnswers α → Except Fault (ArrayRun α)
  | (.set idx ptr, ans) => (r.dap.set abi idx.toNat ptr ans).map fun (dap, ok) =>
    ⟨dap, if ok then Function.update r.stored idx.toNat ptr else r.stored⟩
  | (.firstAvail, _) => (r.dap.firstAvail abi).map fun (_, dap) => ⟨dap, r.stored⟩

/-- `DynArrayGet` gives what has been stored last, and `DynArrayFirstAvail` the first index whose
pointer is null. -/
def Observed (abi : Abi) : Except Fault (ArrayRun α) → Prop
  | .error _ => False
  | .ok r => (∀ idx, r.dap.get idx = .ok (r.stored idx)) ∧
      ∃ n dap, r.dap.firstAvail abi = .ok (n, dap) ∧ r.stored n = none ∧ ∀ m < n, r.stored m ≠ none

def CallFits (initial : ℕ) : ArrayCall abi α → Prop
  | .set idx _ => abi.Fits initial idx.toNat
  | .firstAvail => True

variable {r : ArrayRun α} {initial : ℕ}

theorem observed_of_holds (h : r.dap.Holds abi initial r.stored) : Observed abi (.ok r) := by
  obtain ⟨n, dap, hfirst, hnone, hall, -⟩ := h.firstAvail
  exact ⟨h.get, n, dap, hfirst, hnone, hall⟩

theorem holds_step {call : ArrayCall abi α} (h : r.dap.Holds abi initial r.stored)
    (hfits : CallFits initial call) (ans : GrowAnswers α) :
    ∃ r', r.step (call, ans) = .ok r' ∧ r'.dap.Holds abi initial r'.stored := by
  cases call with
  | set idx ptr =>
    obtain ⟨dap, ok, hset, hdap, -⟩ := h.set hfits ptr ans
    exact ⟨⟨dap, _⟩, by rw [step, hset]; rfl, hdap⟩
  | firstAvail =>
    obtain ⟨n, dap, hfirst, -, -, hdap⟩ := h.firstAvail
    exact ⟨⟨dap, r.stored⟩, by rw [step, hfirst]; rfl, hdap⟩

def enough : GrowAnswers α := ⟨⟨true, fun _ => none⟩, ⟨true, fun _ => 0⟩⟩

theorem step_enough_error {call : ArrayCall abi α} (h : r.dap.Holds abi initial r.stored)
    (hfits : ¬ CallFits initial call) : ∃ fault, r.step (call, enough) = .error fault := by
  cases call with
  | set idx ptr =>
    obtain ⟨fault, hset⟩ := @DynArrayMemory.Holds.set_error _ _ _ _ _ _ enough h hfits ptr rfl rfl
    exact ⟨fault, by rw [step, hset]; rfl⟩
  | firstAvail => exact absurd trivial hfits

/-- From an array that holds what has been stored, the calls are right whatever the host answers
exactly when the sizes fit for all of them. -/
theorem observed_iff (h : r.dap.Holds abi initial r.stored) (calls : List (ArrayCall abi α)) :
    (∀ run : List (ArrayCall abi α × GrowAnswers α), run.map Prod.fst = calls →
        ∀ run', run' <+: run → Observed abi (run'.foldlM step r)) ↔
      ∀ call ∈ calls, CallFits initial call := by
  induction calls generalizing r with
  | nil =>
    refine iff_of_true (fun run hrun run' hpre => ?_) (by simp)
    obtain rfl := List.map_eq_nil_iff.1 hrun
    obtain rfl := List.prefix_nil.1 hpre
    exact observed_of_holds h
  | cons call calls ih =>
    rw [List.forall_mem_cons]
    constructor
    · intro hobserved
      have hcall : CallFits initial call := by
        by_contra hnot
        obtain ⟨fault, hfault⟩ := step_enough_error h hnot
        have hmap : (calls.map fun c => (c, (enough : GrowAnswers α))).map Prod.fst = calls := by
          rw [List.map_map]
          exact List.map_id calls
        have hfirst := hobserved ((call, enough) :: calls.map fun c => (c, enough))
          (congrArg _ hmap) [(call, enough)] (by simp)
        rw [List.foldlM_cons, hfault] at hfirst
        exact hfirst
      obtain ⟨r', hr', hholds⟩ := holds_step h hcall enough
      refine ⟨hcall, (ih hholds).1 fun run hrun run' hpre => ?_⟩
      have hrest := hobserved ((call, enough) :: run) (by simp [hrun]) ((call, enough) :: run')
        ((List.prefix_cons_inj _).2 hpre)
      rw [List.foldlM_cons, hr'] at hrest
      exact hrest
    · rintro ⟨hcall, hcalls⟩ run hrun run' hpre
      cases run' with
      | nil => exact observed_of_holds h
      | cons first run' =>
        obtain ⟨rest, rfl⟩ := hpre
        obtain ⟨hfirst, hrest⟩ := List.cons.inj hrun
        obtain ⟨r', hr', hholds⟩ := holds_step h hcall first.2
        rw [← hfirst] at hr'
        rw [List.foldlM_cons, hr']
        exact (ih hholds).2 hcalls _ hrest run' (List.prefix_append _ _)

/-- After `DynArrayCtor`, any calls are right whatever the host answers exactly when for each index
that is set the bytes of the least doubling of the initial size that has it fit a `size_t`, or that
doubling does not. -/
theorem observed_ctor_iff (initialSize : ℕ) (memory : Bool) {dap : DynArrayMemory α}
    (hctor : DynArrayMemory.ctor α abi initialSize memory = some dap)
    (calls : List (ArrayCall abi α)) :
    (∀ run : List (ArrayCall abi α × GrowAnswers α), run.map Prod.fst = calls →
        ∀ run', run' <+: run → Observed abi (run'.foldlM step ⟨dap, fun _ => none⟩)) ↔
      ∀ idx ptr, ArrayCall.set idx ptr ∈ calls →
        abi.Fits (if initialSize = 0 then 32 else initialSize) idx.toNat := by
  have hholds := DynArrayMemory.holds_ctor hctor
  rw [@observed_iff α abi ⟨dap, fun _ => none⟩ _ hholds calls]
  constructor
  · intro hfits idx ptr hmem
    exact hfits _ hmem
  · intro hfits call hmem
    cases call with
    | set idx ptr => exact hfits idx ptr hmem
    | firstAvail => trivial

/-- An array of two grows to eight. -/
theorem observed_five : ∃ dap, DynArrayMemory.ctor ℕ .lp64 2 true = some dap ∧
    ∀ run : List (ArrayCall .lp64 ℕ × GrowAnswers ℕ), run.map Prod.fst = [.set 5 (some 1)] →
      ∀ run', run' <+: run → Observed .lp64 (run'.foldlM step ⟨dap, fun _ => none⟩) := by
  refine ⟨_, rfl, (observed_ctor_iff 2 true rfl _).2 fun idx ptr hmem k hk _ _ => ?_⟩
  obtain ⟨rfl, -⟩ := ArrayCall.set.inj (List.mem_singleton.1 hmem)
  have hle : k < 3 := by
    by_contra hge
    exact absurd (hk 2 (by omega)) (by decide)
  obtain rfl | rfl | rfl : k = 0 ∨ k = 1 ∨ k = 2 := by omega
  all_goals decide

/-- A pointer is stored at `2 ^ 29` with 32 bits: the `2 ^ 30` elements have no bytes. -/
theorem not_observed_no_bytes : ∃ dap, DynArrayMemory.ctor ℕ .ilp32 2 true = some dap ∧
    ¬ Observed .ilp32 ([((.set 0x20000000 (some 1), enough) : ArrayCall .ilp32 ℕ × _)].foldlM step
      ⟨dap, fun _ => none⟩) := by
  refine ⟨_, rfl, fun hobserved => ?_⟩
  have hholds := @DynArrayMemory.holds_ctor ℕ .ilp32 _ 2 true rfl
  have hnot : ¬ @CallFits ℕ .ilp32 2 (.set 0x20000000 (some 1)) := by
    intro hfits
    have hbytes := hfits 29 (by decide) (by decide) (by decide)
    revert hbytes
    decide
  obtain ⟨fault, hfault⟩ := @step_enough_error _ _ ⟨_, _⟩ _ _ hholds hnot
  rw [List.foldlM_cons, hfault] at hobserved
  exact hobserved

end ArrayRun

end SandboxingNaCl
