import SandboxingNaCl.Lib.Fetch
import SandboxingNaCl.Lib.MachineInt
import SandboxingNaCl.DynLdr.Masking

/-!
# Verified copies

The `sandbox_copyAndVerify` family of `sandbox_unverified_data` as programs that read sandbox memory
cell by cell while sandbox threads write it.  A cell holds one scalar: a field of a struct, an
element of an array, a character of a string.  The scalar and the struct members give the verifier
one read of the memory and return another; the rest verify the copy they return.
-/

namespace SandboxingNaCl

open MachineInt Fetch

abbrev SandboxRead := Fetch ℕ ℕ

/-! ## The members -/

/-- `sandbox_copyAndVerify` of a scalar. -/
def copyAndVerifyScalar (field : ℕ) (verify : ℕ → Bool) (defaultValue : ℕ) : SandboxRead ℕ := do
  if verify (← fetch field) then
    fetch field
  else
    return defaultValue

/-- A verifier of a struct.  It gets a reference to the struct and reads its fields as it likes. -/
structure StructVerifier (fields : List ℕ) where
  prog : SandboxRead Bool
  readsIn : prog.ReadsIn { addr | addr ∈ fields }

/-- `sandbox_copyAndVerify` of a struct. -/
def copyAndVerifyStruct (fields : List ℕ) (verify : StructVerifier fields)
    (defaultValue : List ℕ) : SandboxRead (List ℕ) := do
  if ← verify.prog then
    fetchList fields
  else
    return defaultValue

/-- `sandbox_copyAndVerify` of an array member.  The result is the content of `copy` after it: the
array, or zeros when the call fails. -/
def copyAndVerifyArrayMember (elems : List ℕ) (sizeOfCopy sizeOfArray : ℕ)
    (verify : List ℕ → Bool) : SandboxRead (List ℕ) := do
  if sizeOfArray ≤ sizeOfCopy then
    let copy ← fetchList elems
    if verify copy then
      return copy
  return List.replicate elems.length 0

/-- `getMasked` of a pointer member. -/
def fetchMasked (field : ℕ) : SandboxRead ℕ := do
  return getMaskedField (sandboxMaskOf field) (← fetch field)

/-- `sandbox_copyAndVerify` of a pointer to a scalar or a class whose fields are at `offsets`. -/
def copyAndVerifyPointer (field : ℕ) (offsets : List ℕ) (verify : List ℕ → Bool)
    (defaultValue : List ℕ) : SandboxRead (List ℕ) := do
  let maskedFieldPtr ← fetchMasked field
  if maskedFieldPtr = 0 then
    return defaultValue
  let maskedField ← fetchList (offsets.map (maskedFieldPtr + ·))
  return if verify maskedField then maskedField else defaultValue

/-- `sandbox_copyAndVerifyUnsandboxedPointer`. -/
def copyAndVerifyUnsandboxedPointer (field : ℕ) (verify : ℕ → Bool) (defaultValue : ℕ) :
    SandboxRead ℕ := do
  let fieldCopy ← fetch field
  return if verify fieldCopy then fieldCopy else defaultValue

/-- The addresses of `count` elements of size `elemSize` from `ptr` on. -/
def elementAddrs (ptr elemSize count : ℕ) : List ℕ :=
  (List.range count).map fun i => ptr + i * elemSize

/-- `sandbox_copyAndVerifyArray`. -/
def copyAndVerifyArray (field elemSize elementCount : ℕ) (verify : List ℕ → Bool)
    (defaultValue : List ℕ) : SandboxRead (List ℕ) := do
  let maskedFieldPtr ← fetchMasked field
  if sandboxMaskOf (uadd maskedFieldPtr elementCount) ≠ sandboxMaskOf maskedFieldPtr then
    return defaultValue
  let copy ← fetchList (elementAddrs maskedFieldPtr elemSize elementCount)
  return if verify copy then copy else defaultValue

/-- `strlen`, when it ends within `fuel` characters. -/
def fetchStrlen : ℕ → ℕ → SandboxRead (Option ℕ)
  | 0, _ => return none
  | fuel + 1, addr => do
      if (← fetch addr) = 0 then
        return some 0
      else
        return (← fetchStrlen fuel (addr + 1)).map (· + 1)

/-- `sandbox_copyAndVerifyString`, when its `strlen` ends within `fuel` characters. -/
def copyAndVerifyString (fuel field : ℕ) (verify : List ℕ → Bool) (defaultValue : List ℕ) :
    SandboxRead (Option (List ℕ)) := do
  let maskedFieldPtr ← fetchMasked field
  match ← fetchStrlen fuel maskedFieldPtr with
  | none => return none
  | some len =>
    let elementCount := (len + 1) % 2 ^ 32
    if sandboxMaskOf (uadd maskedFieldPtr elementCount) ≠ sandboxMaskOf maskedFieldPtr then
      return some defaultValue
    let copy ← fetchList (elementAddrs maskedFieldPtr 1 elementCount)
    let copy := copy.dropLast ++ [0]
    return some (if verify copy then copy else defaultValue)

/-! ## The family -/

/-- A call of a member of the family.  A scalar counts as a list of one cell. -/
inductive CopyAndVerify
  | scalar (field : ℕ) (verify : ℕ → Bool) (defaultValue : ℕ)
  | struct (fields : List ℕ) (verify : StructVerifier fields) (defaultValue : List ℕ)
  | arrayMember (elems : List ℕ) (sizeOfCopy sizeOfArray : ℕ) (verify : List ℕ → Bool)
  | pointer (field : ℕ) (offsets : List ℕ) (verify : List ℕ → Bool) (defaultValue : List ℕ)
  | unsandboxedPointer (field : ℕ) (verify : ℕ → Bool) (defaultValue : ℕ)
  | array (field elemSize elementCount : ℕ) (verify : List ℕ → Bool) (defaultValue : List ℕ)
  | string (fuel field : ℕ) (verify : List ℕ → Bool) (defaultValue : List ℕ)

/-- The memory in which the fields of a struct hold the values of a copy. -/
def structMemory (fields copy : List ℕ) (addr : ℕ) : ℕ := ((fields.zip copy).lookup addr).getD 0

namespace CopyAndVerify

/-- What the call runs; `none` is a string whose end has not been found. -/
def prog : CopyAndVerify → SandboxRead (Option (List ℕ))
  | scalar field verify defaultValue => do
      return some [← copyAndVerifyScalar field verify defaultValue]
  | struct fields verify defaultValue => do
      return some (← copyAndVerifyStruct fields verify defaultValue)
  | arrayMember elems sizeOfCopy sizeOfArray verify => do
      return some (← copyAndVerifyArrayMember elems sizeOfCopy sizeOfArray verify)
  | pointer field offsets verify defaultValue => do
      return some (← copyAndVerifyPointer field offsets verify defaultValue)
  | unsandboxedPointer field verify defaultValue => do
      return some [← copyAndVerifyUnsandboxedPointer field verify defaultValue]
  | array field elemSize elementCount verify defaultValue => do
      return some (← copyAndVerifyArray field elemSize elementCount verify defaultValue)
  | string fuel field verify defaultValue => copyAndVerifyString fuel field verify defaultValue

/-- The default of the call; a failed array member is cleared. -/
def default : CopyAndVerify → List ℕ
  | scalar _ _ defaultValue => [defaultValue]
  | struct _ _ defaultValue => defaultValue
  | arrayMember elems _ _ _ => List.replicate elems.length 0
  | pointer _ _ _ defaultValue => defaultValue
  | unsandboxedPointer _ _ defaultValue => [defaultValue]
  | array _ _ _ _ defaultValue => defaultValue
  | string _ _ _ defaultValue => defaultValue

/-- The verifier of the call returns true on the value. -/
def Accepts : CopyAndVerify → List ℕ → Prop
  | scalar _ verify _, value => ∃ v, value = [v] ∧ verify v = true
  | struct fields verify _, value => verify.prog.run (structMemory fields value) = true
  | arrayMember _ _ _ verify, value => verify value = true
  | pointer _ _ verify _, value => verify value = true
  | unsandboxedPointer _ verify _, value => ∃ v, value = [v] ∧ verify v = true
  | array _ _ _ verify _, value => verify value = true
  | string _ _ verify _, value => verify value = true

def Verified (call : CopyAndVerify) (value : List ℕ) : Prop :=
  value = call.default ∨ call.Accepts value

/-- Under every interleaving the call returns a verified value or its default. -/
def Sound (call : CopyAndVerify) : Prop :=
  ∀ m writes value, call.prog.runWith m writes = some value → call.Verified value

/-- The call returns the copy it verifies, or no two reads of the memory can disagree: the verifier
accepts nothing, or everything but the default. -/
def SingleFetch : CopyAndVerify → Prop
  | scalar _ verify defaultValue =>
    (∀ v, verify v = false) ∨ ∀ v, v = defaultValue ∨ verify v = true
  | struct fields verify defaultValue =>
    ¬ verify.prog.Returns true ∨ ∀ copy : List ℕ, copy.length = fields.length →
      copy = defaultValue ∨ verify.prog.run (structMemory fields copy) = true
  | _ => True

/-- The cells that the call reads twice. -/
def refetched : CopyAndVerify → Set ℕ
  | scalar field _ _ => {addr | addr = field}
  | struct fields _ _ => {addr | addr ∈ fields}
  | _ => ∅

/-! ## Soundness -/

variable {call : CopyAndVerify}

theorem sound_iff_ensures :
    call.Sound ↔ call.prog.Ensures fun r => ∀ value, r = some value → call.Verified value := by
  constructor
  · exact fun h => (ensures_iff_forall_runWith _ (fun _ => 0) _).2 (h _)
  · exact fun h m => (ensures_iff_forall_runWith _ m _).1 h

theorem verified_ite {copy : List ℕ} {c : Bool} (h : c = true → call.Accepts copy) :
    call.Verified (if c then copy else call.default) := by
  split_ifs with hc
  · exact Or.inr (h hc)
  · exact Or.inl rfl

theorem sound_arrayMember (elems : List ℕ) (sizeOfCopy sizeOfArray : ℕ)
    (verify : List ℕ → Bool) : (arrayMember elems sizeOfCopy sizeOfArray verify).Sound := by
  rw [sound_iff_ensures]
  simp only [prog, copyAndVerifyArrayMember, ensures_bind, ensures_pure, ensures_ite,
    ensures_fetchList, Option.some.injEq, forall_eq']
  exact ⟨fun _ copy _ => ⟨fun h => Or.inr h, fun _ => Or.inl rfl⟩, fun _ => Or.inl rfl⟩

theorem sound_pointer (field : ℕ) (offsets : List ℕ) (verify : List ℕ → Bool)
    (defaultValue : List ℕ) : (pointer field offsets verify defaultValue).Sound := by
  rw [sound_iff_ensures]
  simp only [prog, copyAndVerifyPointer, fetchMasked, ensures_bind, ensures_pure, ensures_ite,
    ensures_fetch, ensures_fetchList, Option.some.injEq, forall_eq']
  exact fun v => ⟨fun _ => Or.inl rfl, fun _ copy _ => verified_ite fun h => h⟩

theorem sound_unsandboxedPointer (field : ℕ) (verify : ℕ → Bool) (defaultValue : ℕ) :
    (unsandboxedPointer field verify defaultValue).Sound := by
  rw [sound_iff_ensures]
  simp only [prog, copyAndVerifyUnsandboxedPointer, ensures_bind, ensures_pure, ensures_fetch,
    Option.some.injEq, forall_eq']
  intro v
  split_ifs with h
  · exact Or.inr ⟨v, rfl, h⟩
  · exact Or.inl rfl

theorem sound_array (field elemSize elementCount : ℕ) (verify : List ℕ → Bool)
    (defaultValue : List ℕ) :
    (array field elemSize elementCount verify defaultValue).Sound := by
  rw [sound_iff_ensures]
  simp only [prog, copyAndVerifyArray, fetchMasked, ensures_bind, ensures_pure, ensures_ite,
    ensures_fetch, ensures_fetchList, Option.some.injEq, forall_eq']
  exact fun v => ⟨fun _ => Or.inl rfl, fun _ copy _ => verified_ite fun h => h⟩

theorem sound_string (fuel field : ℕ) (verify : List ℕ → Bool) (defaultValue : List ℕ) :
    (string fuel field verify defaultValue).Sound := by
  rw [sound_iff_ensures]
  simp only [prog, copyAndVerifyString, fetchMasked, ensures_bind, ensures_pure, ensures_fetch]
  refine fun v => ensures_of_forall fun len => ?_
  cases len with
  | none => simp
  | some len =>
    simp only [ensures_bind, ensures_pure, ensures_ite, ensures_fetchList, Option.some.injEq,
      forall_eq']
    exact ⟨fun _ => Or.inl rfl, fun _ copy _ => verified_ite fun h => h⟩

theorem sound_scalar_iff (field : ℕ) (verify : ℕ → Bool) (defaultValue : ℕ) :
    (scalar field verify defaultValue).Sound ↔
      (scalar field verify defaultValue).SingleFetch := by
  rw [sound_iff_ensures]
  simp only [prog, copyAndVerifyScalar, ensures_bind, ensures_pure, ensures_ite, ensures_fetch,
    Option.some.injEq, forall_eq', Verified, default, Accepts, SingleFetch, List.cons.injEq,
    and_true, true_or, implies_true, exists_eq_left']
  constructor
  · intro h
    rw [or_iff_not_imp_left]
    intro hno v
    push Not at hno
    obtain ⟨v', hv'⟩ := hno
    exact h v' (by simpa using hv') v
  · rintro (h | h) v hv v'
    · rw [h v] at hv
      cases hv
    · exact h v'

theorem sound_struct_iff (fields : List ℕ) (verify : StructVerifier fields)
    (defaultValue : List ℕ) :
    (struct fields verify defaultValue).Sound ↔
      (struct fields verify defaultValue).SingleFetch := by
  rw [sound_iff_ensures]
  simp only [prog, copyAndVerifyStruct, ensures_bind, ensures_pure, ensures_ite,
    ensures_fetchList, Option.some.injEq, forall_eq', Verified, default, Accepts, SingleFetch,
    true_or, implies_true, and_true]
  constructor
  · intro h
    rw [or_iff_not_imp_left, not_not]
    exact fun hret => h true hret rfl
  · rintro (h | h) b hb rfl copy hcopy
    · exact absurd hb h
    · exact h copy hcopy

theorem sound_iff_singleFetch (call : CopyAndVerify) : call.Sound ↔ call.SingleFetch := by
  cases call with
  | scalar field verify defaultValue => exact sound_scalar_iff field verify defaultValue
  | struct fields verify defaultValue => exact sound_struct_iff fields verify defaultValue
  | arrayMember => exact iff_of_true (sound_arrayMember _ _ _ _) trivial
  | pointer => exact iff_of_true (sound_pointer _ _ _ _) trivial
  | unsandboxedPointer => exact iff_of_true (sound_unsandboxedPointer _ _ _) trivial
  | array => exact iff_of_true (sound_array _ _ _ _ _) trivial
  | string => exact iff_of_true (sound_string _ _ _ _) trivial

/-! ## Runs without interference -/

/-- No write after the first read of the run falls on a cell that the call reads twice. -/
def Undisturbed (call : CopyAndVerify) (writes : ℕ → List (ℕ × ℕ)) : Prop :=
  ∀ n, ∀ w ∈ writes (n + 1), w.1 ∉ call.refetched

theorem structMemory_map (fields : List ℕ) (m : ℕ → ℕ) {addr : ℕ} (h : addr ∈ fields) :
    structMemory fields (fields.map m) addr = m addr := by
  unfold structMemory
  induction fields with
  | nil => cases h
  | cons field fields ih =>
    rw [List.map_cons, List.zip_cons_cons, List.lookup_cons]
    by_cases heq : addr = field
    · simp [heq]
    · have : (addr == field) = false := by simpa using heq
      rw [this]
      exact ih ((List.mem_cons.1 h).resolve_left heq)

theorem verified_of_undisturbed (call : CopyAndVerify) (m : ℕ → ℕ) (writes : ℕ → List (ℕ × ℕ))
    (h : call.Undisturbed writes) (value : List ℕ)
    (hv : call.prog.runWith m writes = some value) : call.Verified value := by
  cases call with
  | scalar field verify defaultValue =>
    have hfetch : (fetch field : SandboxRead ℕ).ReadsIn {addr | addr = field} :=
      readsIn_fetch rfl
    have hin : (scalar field verify defaultValue).prog.ReadsIn {addr | addr = field} :=
      (hfetch.bind fun _ => hfetch.ite (readsIn_pure _)).bind fun _ => readsIn_pure _
    rw [hin.runWith_eq_run h] at hv
    rw [prog, copyAndVerifyScalar, run_bind, run_bind, run_fetch, run_ite, run_fetch, run_pure,
      run_pure, Option.some.injEq] at hv
    subst hv
    split_ifs with hacc
    · exact Or.inr ⟨_, rfl, hacc⟩
    · exact Or.inl rfl
  | struct fields verify defaultValue =>
    have hin : (struct fields verify defaultValue).prog.ReadsIn {addr | addr ∈ fields} :=
      (verify.readsIn.bind fun _ => (readsIn_fetchList fun _ ha => ha).ite
        (readsIn_pure _)).bind fun _ => readsIn_pure _
    rw [hin.runWith_eq_run h] at hv
    simp only [prog, copyAndVerifyStruct, run_bind, run_ite, run_fetchList, run_pure,
      Option.some.injEq] at hv
    subst hv
    refine verified_ite fun hacc => ?_
    refine (verify.readsIn.run_congr fun addr ha => ?_).trans hacc
    exact structMemory_map fields _ ha
  | arrayMember => exact sound_arrayMember _ _ _ _ _ _ _ hv
  | pointer => exact sound_pointer _ _ _ _ _ _ _ hv
  | unsandboxedPointer => exact sound_unsandboxedPointer _ _ _ _ _ _ hv
  | array => exact sound_array _ _ _ _ _ _ _ _ hv
  | string => exact sound_string _ _ _ _ _ _ _ hv

end CopyAndVerify

/-- The family is sound under every interleaving exactly for the calls that return the copy they
verify and for the verifiers no second read can fool; and any call is sound in every run in which
no sandbox thread writes the cells it reads twice after the first read. -/
theorem copyAndVerify_sound_iff (call : CopyAndVerify) :
    (call.Sound ↔ call.SingleFetch) ∧
      ∀ (m : ℕ → ℕ) (writes : ℕ → List (ℕ × ℕ)), call.Undisturbed writes →
        ∀ value, call.prog.runWith m writes = some value → call.Verified value :=
  ⟨call.sound_iff_singleFetch, call.verified_of_undisturbed⟩

/-- An index checked to be below ten is overwritten with 4096 before it is returned. -/
theorem not_sound_scalar_index : ¬ (CopyAndVerify.scalar 64 (fun v => v < 10) 0).Sound := by
  intro h
  have := h (fun _ => 5) (fun n => if n = 1 then [(64, 4096)] else []) [4096] rfl
  rcases this with heq | ⟨v, heq, hv⟩
  · exact absurd heq (by decide)
  · cases heq
    exact absurd hv (by decide)

end SandboxingNaCl
