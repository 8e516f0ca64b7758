import SandboxingNaCl.Lib.MachineInt
import SandboxingNaCl.Lib.AddressRange
import SandboxingNaCl.DynLdr.Masking

/-!
# The range of array and string copies

`sandbox_copyAndVerifyArray` and `sandbox_copyAndVerifyString` check that a copy does not run past
the end of the region before they make it.  The check multiplies the element count by the size of the
trait `std::remove_pointer<T>`, which is 1, while the copy uses the size of the element; a null
pointer passes the check; and `strlen` has read the string before it.  This file records the bytes
each helper reads and says exactly when they lie in the region.
-/

namespace SandboxingNaCl

open MachineInt

/-- A wrapped pointer: a member of an object in the sandbox with any content, or a host copy of a
pointer that was masked when it was made. -/
inductive PointerWrapper (R : Region)
  | sandboxed (addr field : ℕ) (mem : R.Mem addr)
  | unverified (field : ℕ) (nullOrMem : R.NullOrMem field)

variable {R : Region}

/-- `getMasked` of the two wrappers. -/
def PointerWrapper.getMasked : PointerWrapper R → ℕ
  | sandboxed addr field _ => getMaskedField (sandboxMaskOf addr) field
  | unverified field _ => field

theorem PointerWrapper.nullOrMem_getMasked (w : PointerWrapper R) : R.NullOrMem w.getMasked := by
  cases w with
  | sandboxed addr field mem =>
    rw [getMasked, mem.sandboxMaskOf_eq]
    exact nullOrMem_getMaskedField R field
  | unverified field h => exact h

/-- What a copy helper does: the byte ranges it reads, as start and length, and whether it returns
the copy and not the default. -/
structure CopyRun where
  reads : List (ℕ × ℕ)
  copied : Bool

/-- Whenever the copy is returned, every byte read lies in the region. -/
def CopyRun.Inside (R : Region) (run : CopyRun) : Prop :=
  run.copied = true → ∀ r ∈ run.reads, ∀ i < r.2, R.Mem (r.1 + i)

/-- The bytes of `n` cells from `ptr` on. -/
def bytesAt (mem : ℕ → ℕ) (ptr n : ℕ) : List ℕ := (List.range n).map fun i => mem (ptr + i)

/-- `sizeof(std::remove_pointer<T>)`, the size of an empty class. -/
def sizeofRemovePointer : ℕ := 1

/-- The overflow check of both helpers: the end of the range is in another region. -/
def copyRefused (ptr elementCount : ℕ) : Prop :=
  sandboxMaskOf (uadd ptr (sizeofRemovePointer * elementCount)) ≠ sandboxMaskOf ptr

instance (ptr elementCount : ℕ) : Decidable (copyRefused ptr elementCount) :=
  inferInstanceAs (Decidable (_ ≠ _))

/-- `new` throws for an array of this many bytes or more. -/
def newLimit : ℕ := 2 ^ 63

/-- `sandbox_copyAndVerifyArray`.  The copy is not returned when `new` throws. -/
def copyAndVerifyArrayRun (mem : ℕ → ℕ) (ptr elemSize elementCount : ℕ)
    (verify : List ℕ → Bool) : CopyRun :=
  if copyRefused ptr elementCount ∨ newLimit ≤ elemSize * elementCount then
    ⟨[], false⟩
  else
    ⟨[(ptr, elemSize * elementCount)], verify (bytesAt mem ptr (elemSize * elementCount))⟩

/-- A string in memory, with the length `strlen` finds. -/
structure CString (mem : ℕ → ℕ) (ptr : ℕ) where
  len : ℕ
  nul : mem (ptr + len) = 0
  ne : ∀ i < len, mem (ptr + i) ≠ 0

/-- `sandbox_copyAndVerifyString`.  The count is an `unsigned int`, and the last character of the
copy is set to zero. -/
def copyAndVerifyStringRun (mem : ℕ → ℕ) (ptr : ℕ) (str : CString mem ptr)
    (verify : List ℕ → Bool) : CopyRun :=
  let elementCount := (str.len + 1) % 2 ^ 32
  if copyRefused ptr elementCount then
    ⟨[(ptr, str.len + 1)], false⟩
  else
    ⟨[(ptr, str.len + 1), (ptr, elementCount)],
      verify ((bytesAt mem ptr elementCount).dropLast ++ [0])⟩

/-! ## When the bytes read lie in the region -/

theorem forall_mem_iff {ptr n : ℕ} (h : R.NullOrMem ptr) :
    (∀ i < n, R.Mem (ptr + i)) ↔ n = 0 ∨ ptr ≠ 0 ∧ ptr + n ≤ R.base + 2 ^ 32 :=
  AddressRange.within_iff R.pos h

/-- The copy of an array stays in the region exactly when it is refused, empty or too large to
allocate, when the verifier rejects it, or when the pointer is not null and all its bytes fit. -/
theorem copyAndVerifyArrayRun_inside_iff (w : PointerWrapper R) (mem : ℕ → ℕ)
    (elemSize elementCount : ℕ) (verify : List ℕ → Bool) :
    (copyAndVerifyArrayRun mem w.getMasked elemSize elementCount verify).Inside R ↔
      copyRefused w.getMasked elementCount ∨ newLimit ≤ elemSize * elementCount ∨
      verify (bytesAt mem w.getMasked (elemSize * elementCount)) = false ∨
      elemSize * elementCount = 0 ∨
      w.getMasked ≠ 0 ∧ w.getMasked + elemSize * elementCount ≤ R.base + 2 ^ 32 := by
  rw [copyAndVerifyArrayRun, ← or_assoc]
  split_ifs with h
  · exact iff_of_true (fun hc => by cases hc) (Or.inl h)
  · rw [or_iff_right h, CopyRun.Inside, ← forall_mem_iff w.nullOrMem_getMasked,
      or_iff_not_imp_left, Bool.not_eq_false]
    simp

/-- The copy of a string stays in the region exactly when it is refused, when the verifier rejects
it, or when the pointer is not null and the string ends in the region. -/
theorem copyAndVerifyStringRun_inside_iff (w : PointerWrapper R) (mem : ℕ → ℕ)
    (str : CString mem w.getMasked) (verify : List ℕ → Bool) :
    (copyAndVerifyStringRun mem w.getMasked str verify).Inside R ↔
      copyRefused w.getMasked ((str.len + 1) % 2 ^ 32) ∨
      verify ((bytesAt mem w.getMasked ((str.len + 1) % 2 ^ 32)).dropLast ++ [0]) = false ∨
      w.getMasked ≠ 0 ∧ w.getMasked + str.len + 1 ≤ R.base + 2 ^ 32 := by
  have hmod : (str.len + 1) % 2 ^ 32 ≤ str.len + 1 := Nat.mod_le _ _
  have hstr := forall_mem_iff (n := str.len + 1) w.nullOrMem_getMasked
  rw [or_iff_right (Nat.succ_ne_zero _), ← Nat.add_assoc] at hstr
  rw [copyAndVerifyStringRun]
  split_ifs with h
  · exact iff_of_true (fun hc => by cases hc) (Or.inl h)
  · rw [or_iff_right h, CopyRun.Inside, ← hstr, or_iff_not_imp_left, Bool.not_eq_false]
    simp only [List.forall_mem_cons, List.not_mem_nil, false_implies, implies_true, and_true]
    exact forall_congr' fun _ => ⟨fun h => h.1, fun h => ⟨h, fun i hi => h i (hi.trans_le hmod)⟩⟩

end SandboxingNaCl
