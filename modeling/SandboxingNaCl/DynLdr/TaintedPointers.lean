import SandboxingNaCl.DynLdr.Masking
import SandboxingNaCl.Lib.MachineInt
import Mathlib.Data.List.FinRange

/-!
# Tainted pointers

A pointer from the sandbox reaches the host inside a wrapper: `sandbox_unverified_data<T>` for an object
in the memory of the sandbox, `unverified_data<T>` for a value on the host.  Every operation of the
wrappers that yields an address masks it with the high half of an address it has at hand: that of
the wrapper object itself, or that of the pointer it holds.  A chain of operations is a list here,
and each operation comes with the content of the memory it reads.
-/

namespace SandboxingNaCl

open MachineInt

/-- The types that the wrappers distinguish; the fields of a struct have offsets. -/
inductive CType
  | scalar (size : ℕ)
  | functionPointer
  | pointer (pointee : CType)
  | array (elem : CType) (count : ℕ)
  | struct (size : ℕ) {n : ℕ} (offset : Fin n → ℕ) (field : Fin n → CType)

def CType.size : CType → ℕ
  | scalar size => size
  | functionPointer => 8
  | pointer _ => 8
  | array elem count => elem.size * count
  | struct size _ _ => size

/-- `addr + x` for a pointer to elements of `size` bytes and an `int`. -/
def pointerAdd (addr : ℕ) (x : ℤ) (size : ℕ) : ℕ := ((addr + x * size) % 2 ^ 64).toNat

/-- Where a `sandbox_unverified_data` object is: where a masked address says, or copied to the host. -/
inductive Place
  | sandbox
  | host

/-- What the host holds of the sandbox. -/
inductive Wrapped
  | value
  /-- A `sandbox_unverified_data<T>` object at `loc`. -/
  | data (place : Place) (type : CType) (loc : ℕ)
  /-- An `unverified_data<T*>`. -/
  | unverifiedPointer (pointee : CType) (field : ℕ)
  /-- An `unverified_data<T[n]>` at `loc` on the host. -/
  | unverifiedArray (elem : CType) (loc : ℕ)
  /-- An `unverified_data` of a struct. -/
  | unverifiedStruct {n : ℕ} (field : Fin n → Wrapped)

/-- An address that an operation dereferences or returns. -/
inductive Exposed
  /-- `arg` masked with the high half of `anchor`. -/
  | masked (anchor arg : ℕ)
  | held (addr : ℕ)
  | inObject (addr : ℕ)
deriving DecidableEq

def Exposed.addr : Exposed → ℕ
  | masked anchor arg => getMaskedField (sandboxMaskOf anchor) arg
  | held addr => addr
  | inObject addr => addr

/-- The safe operations; `host` is where the object they make is. -/
inductive WrapperOp
  | getMasked
  | deref
  | index (x : ℤ)
  | add (x : ℤ)
  | addressOf
  | member (i : ℕ)
  | copy (host : UInt64)
  | assign (host : UInt64)
  | decay

/-! ## The operations -/

/-- The content of a pointer field, as `sandbox_unverified_data` reads it; null faults. -/
def readField (mem : ℕ → UInt64) (loc : ℕ) : Option ℕ :=
  if loc = 0 then none else some (mem loc).toNat

def exposeMember (place : Place) (addr : ℕ) : List Exposed :=
  match place with
  | .sandbox => [.inObject addr]
  | .host => []

/-- A reference to the `sandbox_unverified_data<T>` at the address. -/
def referenceTo (type : CType) (e : Exposed) : Wrapped × List Exposed :=
  (.data .sandbox type e.addr, [e])

/-- An `unverified_data<T*>` that holds the address. -/
def pointerTo (pointee : CType) (e : Exposed) : Wrapped × List Exposed :=
  (.unverifiedPointer pointee e.addr, [e])

/-- `assignValue(fieldName, arg.fieldName.getMasked())` for the fields of a struct: pointers are masked,
arrays are copied bytewise, function pointers are not assigned. -/
def assignMasked (mem : ℕ → UInt64) (place : Place) : CType → ℕ → ℕ → Wrapped × List Exposed
  | .scalar _, _, _ => (.value, [])
  | .functionPointer, _, _ => (.value, [])
  | .pointer pointee, loc, _ => pointerTo pointee (.masked loc (mem loc).toNat)
  | .array elem _, loc, host => (.unverifiedArray elem host, [.masked loc loc])
  | .struct _ offset field, loc, host =>
    let members := fun i =>
      assignMasked mem place (field i) (uadd loc (offset i)) (uadd host (offset i))
    (.unverifiedStruct fun i => (members i).1,
      (List.finRange _).flatMap fun i =>
        exposeMember place (uadd loc (offset i)) ++ (members i).2)

/-- `sandbox_unverified_data<T*>`. -/
def sandboxPointerOp (mem : ℕ → UInt64) (place : Place) (pointee : CType) (loc : ℕ) :
    WrapperOp → Option (Wrapped × List Exposed)
  | .getMasked => do
      let field ← readField mem loc
      return (.data place (.pointer pointee) loc, [.masked loc field])
  | .deref => do
      let field ← readField mem loc
      return referenceTo pointee (.masked loc field)
  | .index x => do
      let field ← readField mem loc
      return referenceTo pointee (.masked loc (pointerAdd field x pointee.size))
  | .add x => do
      let field ← readField mem loc
      return pointerTo pointee (.masked loc (pointerAdd field x pointee.size))
  | .assign _ => do
      let field ← readField mem loc
      return pointerTo pointee (.masked loc field)
  | _ => none

/-- `sandbox_unverified_data` of a function pointer. -/
def sandboxFunctionPointerOp (mem : ℕ → UInt64) (place : Place) (loc : ℕ) :
    WrapperOp → Option (Wrapped × List Exposed)
  | .getMasked => do
      let field ← readField mem loc
      return (.data place .functionPointer loc, [.masked loc field])
  | _ => none

/-- `sandbox_unverified_data<T[n]>`. -/
def sandboxArrayOp (place : Place) (elem : CType) (count loc : ℕ) :
    WrapperOp → Option (Wrapped × List Exposed)
  | .getMasked => some (.data place (.array elem count) loc, [.masked loc loc])
  | .index x => some (referenceTo elem (.masked loc (pointerAdd loc x elem.size)))
  | _ => none

/-- `sandbox_unverified_data` of a struct. -/
def sandboxStructOp (mem : ℕ → UInt64) (place : Place) (size : ℕ) {n : ℕ} (offset : Fin n → ℕ)
    (field : Fin n → CType) (loc : ℕ) : WrapperOp → Option (Wrapped × List Exposed)
  | .member i =>
    if h : i < n then
      let addr := uadd loc (offset ⟨i, h⟩)
      some (.data place (field ⟨i, h⟩) addr, exposeMember place addr)
    else none
  | .assign host =>
    if loc = 0 then none
    else some (assignMasked mem place (.struct size offset field) loc host.toNat)
  | _ => none

/-- What every `sandbox_unverified_data` has: `operator&`, and the copy constructor. -/
def sandboxDataOp (mem : ℕ → UInt64) (place : Place) (type : CType) (loc : ℕ) (op : WrapperOp) :
    Option (Wrapped × List Exposed) :=
  match op with
  | .addressOf => some (pointerTo type (.masked loc loc))
  | .copy host => if loc = 0 then none else some (.data .host type host.toNat, [])
  | op =>
    match type with
    | .scalar _ => none
    | .functionPointer => sandboxFunctionPointerOp mem place loc op
    | .pointer pointee => sandboxPointerOp mem place pointee loc op
    | .array elem count => sandboxArrayOp place elem count loc op
    | .struct size offset field => sandboxStructOp mem place size offset field loc op

/-- `unverified_data<T*>`: `getMasked` returns the field, and arithmetic masks with the field's own high
half. -/
def unverifiedPointerOp (pointee : CType) (field : ℕ) : WrapperOp → Option (Wrapped × List Exposed)
  | .getMasked => some (pointerTo pointee (.held field))
  | .assign _ => some (pointerTo pointee (.held field))
  | .deref => some (referenceTo pointee (.held field))
  | .decay => some (referenceTo pointee (.held field))
  | .index x => some (referenceTo pointee (.masked field (pointerAdd field x pointee.size)))
  | .add x => some (pointerTo pointee (.masked field (pointerAdd field x pointee.size)))
  | _ => none

/-- `unverified_data<T[n]>`: masks with the high half of the array's own address. -/
def unverifiedArrayOp (elem : CType) (loc : ℕ) : WrapperOp → Option (Wrapped × List Exposed)
  | .getMasked => some (.unverifiedArray elem loc, [.masked loc loc])
  | .index x => some (referenceTo elem (.masked loc (pointerAdd loc x elem.size)))
  | .decay => some (.data .host elem loc, [.inObject loc])
  | _ => none

/-- `unverified_data` of a struct. -/
def unverifiedStructOp {n : ℕ} (field : Fin n → Wrapped) :
    WrapperOp → Option (Wrapped × List Exposed)
  | .member i => if h : i < n then some (field ⟨i, h⟩, []) else none
  | _ => none

/-- One operation; `none` when the wrapper has no such operation or the read of its field faults. -/
def wrapperStep (mem : ℕ → UInt64) (op : WrapperOp) : Wrapped → Option (Wrapped × List Exposed)
  | .value => none
  | .data place type loc => sandboxDataOp mem place type loc op
  | .unverifiedPointer pointee field => unverifiedPointerOp pointee field op
  | .unverifiedArray elem loc => unverifiedArrayOp elem loc op
  | .unverifiedStruct field => unverifiedStructOp field op

/-- The addresses that a chain of operations exposes. -/
def wrapperChain : Wrapped → List ((ℕ → UInt64) × WrapperOp) → List Exposed
  | _, [] => []
  | w, (mem, op) :: l =>
    match wrapperStep mem op w with
    | none => []
    | some (w', exposed) => exposed ++ wrapperChain w' l

/-- A pointer obtained from the sandbox of region `R`; `raw` is what untrusted code passed. -/
inductive TaintedSource (R : Region)
  /-- `sandbox_convertToUnverified` of a pointer. -/
  | pointer (pointee : CType) (raw : UInt64)
  /-- The object through which a struct is returned, which the conversion then assigns. -/
  | classObject (type : CType) (raw : UInt64)
  /-- `sandbox_convertToUnverified` of an array, which copies it to `host`. -/
  | array (elem : CType) (raw host : UInt64)
  | field (type : CType) (loc : ℕ) (mem : R.Mem loc)

/-- `sandbox_convertToUnverified`; `getSandboxMemoryBase` is the base of the region. -/
def TaintedSource.convert {R : Region} : TaintedSource R → Wrapped × List Exposed
  | pointer pointee raw => pointerTo pointee (.held (getMaskedField R.base raw.toNat))
  | classObject type raw => referenceTo type (.held (getMaskedField R.base raw.toNat))
  | array elem raw host =>
    (.unverifiedArray elem host.toNat, [.held (getMaskedField R.base raw.toNat)])
  | field type loc _ => (.data .sandbox type loc, [])

/-- The addresses exposed by a pointer's conversion and the chain of operations after it. -/
def TaintedSource.exposed {R : Region} (source : TaintedSource R)
    (chain : List ((ℕ → UInt64) × WrapperOp)) : List Exposed :=
  source.convert.2 ++ wrapperChain source.convert.1 chain

/-! ## Confinement -/

/-- The mask comes from an address in the sandbox, or there is nothing to mask; a member lies in the
sandbox. -/
def Exposed.Anchored (R : Region) : Exposed → Prop
  | masked anchor arg => R.Mem anchor ∨ arg % 2 ^ 32 = 0
  | held _ => True
  | inObject addr => R.NullOrMem addr

/-- What is known of an exposed address without a condition on the chain. -/
def Exposed.Sound (R : Region) : Exposed → Prop
  | masked anchor _ => anchor < 2 ^ 64
  | held addr => R.NullOrMem addr
  | inObject _ => True

/-- The references and the pointers that a wrapper holds are null or lie in the sandbox. -/
def Wrapped.Confined (R : Region) : Wrapped → Prop
  | value => True
  | data place _ loc => loc < 2 ^ 64 ∧ (place = .sandbox → R.NullOrMem loc)
  | unverifiedPointer _ field => R.NullOrMem field
  | unverifiedArray _ loc => loc < 2 ^ 64
  | unverifiedStruct field => ∀ i, (field i).Confined R

variable {R : Region} {mem : ℕ → UInt64} {place : Place}

theorem Region.NullOrMem.lt {addr : ℕ} (h : R.NullOrMem addr) : addr < 2 ^ 64 :=
  h.elim (fun h => h ▸ Nat.two_pow_pos 64) Region.Mem.lt

theorem uadd_lt (a b : ℕ) : uadd a b < 2 ^ 64 := Nat.mod_lt _ (Nat.two_pow_pos 64)

theorem nullOrMem_getMaskedField_iff {anchor : ℕ} (h : anchor < 2 ^ 64) (arg : ℕ) :
    R.NullOrMem (getMaskedField (sandboxMaskOf anchor) arg) ↔ R.Mem anchor ∨ arg % 2 ^ 32 = 0 := by
  have hlt : arg % 2 ^ 32 < 2 ^ 32 := Nat.mod_lt _ (Nat.two_pow_pos 32)
  obtain ⟨k, hk⟩ := R.dvd
  have hpos := R.pos
  rw [getMaskedField_eq (sandboxMaskOf_eq h ▸ Nat.dvd_mul_left ..), sandboxMaskOf_eq h]
  unfold Region.NullOrMem Region.Mem
  split_ifs <;> omega

theorem Exposed.Sound.nullOrMem_iff {e : Exposed} (h : e.Sound R) :
    R.NullOrMem e.addr ↔ e.Anchored R := by
  cases e with
  | masked anchor arg => exact nullOrMem_getMaskedField_iff h arg
  | held addr => exact iff_of_true h trivial
  | inObject addr => exact Iff.rfl

/-- What an operation promises: its addresses are sound, and if they are all null or in the region, so
is all that the new wrapper holds. -/
def StepConfined (R : Region) (r : Wrapped × List Exposed) : Prop :=
  (∀ e ∈ r.2, e.Sound R) ∧ ((∀ e ∈ r.2, R.NullOrMem e.addr) → r.1.Confined R)

theorem stepConfined_singleton {w : Wrapped} {e : Exposed} (he : e.Sound R) (hw : w.Confined R) :
    StepConfined R (w, [e]) :=
  ⟨fun _ h => List.mem_singleton.1 h ▸ he, fun _ => hw⟩

theorem stepConfined_referenceTo {type : CType} {e : Exposed} (h : e.Sound R) :
    StepConfined R (referenceTo type e) :=
  ⟨fun _ he => List.mem_singleton.1 he ▸ h, fun hall =>
    have he := hall e List.mem_cons_self
    ⟨he.lt, fun _ => he⟩⟩

theorem stepConfined_pointerTo {pointee : CType} {e : Exposed} (h : e.Sound R) :
    StepConfined R (pointerTo pointee e) :=
  ⟨fun _ he => List.mem_singleton.1 he ▸ h, fun hall => hall e List.mem_cons_self⟩

theorem sound_exposeMember {addr : ℕ} {e : Exposed} (h : e ∈ exposeMember place addr) :
    e.Sound R := by
  cases place with
  | sandbox => rw [List.mem_singleton.1 h]; trivial
  | host => cases h

theorem stepConfined_assignMasked (type : CType) {loc host : ℕ} (hloc : loc < 2 ^ 64)
    (hhost : host < 2 ^ 64) : StepConfined R (assignMasked mem place type loc host) := by
  induction type generalizing loc host with
  | scalar size => exact ⟨by rintro _ ⟨⟩, fun _ => trivial⟩
  | functionPointer => exact ⟨by rintro _ ⟨⟩, fun _ => trivial⟩
  | pointer pointee => exact stepConfined_pointerTo hloc
  | array elem count => exact stepConfined_singleton hloc hhost
  | struct size offset field ih =>
    have ih := fun i => ih i (uadd_lt loc (offset i)) (uadd_lt host (offset i))
    refine ⟨fun e he => ?_, fun hall i => (ih i).2 fun e he => hall e ?_⟩
    · obtain ⟨i, -, he⟩ := List.mem_flatMap.1 he
      rcases List.mem_append.1 he with he | he
      · exact sound_exposeMember he
      · exact (ih i).1 e he
    · exact List.mem_flatMap.2 ⟨i, List.mem_finRange i, List.mem_append_right _ he⟩

variable {r : Wrapped × List Exposed} {op : WrapperOp} {loc : ℕ}

theorem stepConfined_sandboxPointerOp {pointee : CType} (hloc : loc < 2 ^ 64)
    (hplace : place = .sandbox → R.NullOrMem loc)
    (h : sandboxPointerOp mem place pointee loc op = some r) : StepConfined R r := by
  unfold sandboxPointerOp at h
  split at h
  case h_6 => cases h
  all_goals
    obtain ⟨field, -, h⟩ := Option.bind_eq_some_iff.1 h
    cases h
  · exact stepConfined_singleton hloc ⟨hloc, hplace⟩
  · exact stepConfined_referenceTo hloc
  · exact stepConfined_referenceTo hloc
  · exact stepConfined_pointerTo hloc
  · exact stepConfined_pointerTo hloc

theorem stepConfined_sandboxFunctionPointerOp (hloc : loc < 2 ^ 64)
    (hplace : place = .sandbox → R.NullOrMem loc)
    (h : sandboxFunctionPointerOp mem place loc op = some r) : StepConfined R r := by
  unfold sandboxFunctionPointerOp at h
  split at h
  · obtain ⟨field, -, h⟩ := Option.bind_eq_some_iff.1 h
    cases h
    exact stepConfined_singleton hloc ⟨hloc, hplace⟩
  · cases h

theorem stepConfined_sandboxArrayOp {elem : CType} {count : ℕ} (hloc : loc < 2 ^ 64)
    (hplace : place = .sandbox → R.NullOrMem loc)
    (h : sandboxArrayOp place elem count loc op = some r) : StepConfined R r := by
  unfold sandboxArrayOp at h
  split at h <;> cases h
  · exact stepConfined_singleton hloc ⟨hloc, hplace⟩
  · exact stepConfined_referenceTo hloc

theorem stepConfined_sandboxStructOp {size n : ℕ} {offset : Fin n → ℕ} {field : Fin n → CType}
    (hloc : loc < 2 ^ 64) (h : sandboxStructOp mem place size offset field loc op = some r) :
    StepConfined R r := by
  unfold sandboxStructOp at h
  split at h
  · split_ifs at h with hi
    cases h
    refine ⟨fun e he => sound_exposeMember he, fun hall => ⟨uadd_lt .., ?_⟩⟩
    rintro rfl
    exact hall _ List.mem_cons_self
  · split_ifs at h
    cases h
    exact stepConfined_assignMasked _ hloc (UInt64.toNat_lt _)
  · cases h

theorem stepConfined_sandboxDataOp {type : CType} (hloc : loc < 2 ^ 64)
    (hplace : place = .sandbox → R.NullOrMem loc)
    (h : sandboxDataOp mem place type loc op = some r) : StepConfined R r := by
  unfold sandboxDataOp at h
  split at h
  · cases h
    exact stepConfined_pointerTo hloc
  · split_ifs at h
    cases h
    exact ⟨by rintro _ ⟨⟩, fun _ => ⟨UInt64.toNat_lt _, nofun⟩⟩
  · cases type with
    | scalar size => cases h
    | functionPointer => exact stepConfined_sandboxFunctionPointerOp hloc hplace h
    | pointer pointee => exact stepConfined_sandboxPointerOp hloc hplace h
    | array elem count => exact stepConfined_sandboxArrayOp hloc hplace h
    | struct size offset field => exact stepConfined_sandboxStructOp hloc h

theorem stepConfined_unverifiedPointerOp {pointee : CType} {field : ℕ} (hfield : R.NullOrMem field)
    (h : unverifiedPointerOp pointee field op = some r) : StepConfined R r := by
  have hmasked : ∀ arg, (Exposed.masked field arg).Sound R := fun _ => hfield.lt
  unfold unverifiedPointerOp at h
  split at h <;> cases h
  · exact stepConfined_pointerTo hfield
  · exact stepConfined_pointerTo hfield
  · exact stepConfined_referenceTo hfield
  · exact stepConfined_referenceTo hfield
  · exact stepConfined_referenceTo (hmasked _)
  · exact stepConfined_pointerTo (hmasked _)

theorem stepConfined_unverifiedArrayOp {elem : CType} (hloc : loc < 2 ^ 64)
    (h : unverifiedArrayOp elem loc op = some r) : StepConfined R r := by
  unfold unverifiedArrayOp at h
  split at h <;> cases h
  · exact stepConfined_singleton hloc hloc
  · exact stepConfined_referenceTo hloc
  · exact stepConfined_singleton trivial ⟨hloc, nofun⟩

theorem stepConfined_wrapperStep {w : Wrapped} (hw : w.Confined R)
    (h : wrapperStep mem op w = some r) : StepConfined R r := by
  cases w with
  | value => cases h
  | data place type loc => exact stepConfined_sandboxDataOp hw.1 hw.2 h
  | unverifiedPointer pointee field => exact stepConfined_unverifiedPointerOp hw h
  | unverifiedArray elem loc => exact stepConfined_unverifiedArrayOp hw h
  | unverifiedStruct field =>
    replace h : unverifiedStructOp field op = some r := h
    unfold unverifiedStructOp at h
    split at h
    · split_ifs at h
      cases h
      exact ⟨by rintro _ ⟨⟩, fun _ => hw _⟩
    · cases h

/-- A chain of operations on a confined wrapper exposes only null and addresses of the region exactly
when every mask is anchored in the region. -/
theorem wrapperChain_nullOrMem_iff {w : Wrapped} (hw : w.Confined R)
    (chain : List ((ℕ → UInt64) × WrapperOp)) :
    (∀ e ∈ wrapperChain w chain, R.NullOrMem e.addr) ↔
      ∀ e ∈ wrapperChain w chain, e.Anchored R := by
  induction chain generalizing w with
  | nil => simp [wrapperChain]
  | cons step chain ih =>
    obtain ⟨mem, op⟩ := step
    rw [wrapperChain]
    split
    · simp
    · next w' exposed h =>
      obtain ⟨hsound, hnext⟩ := stepConfined_wrapperStep hw h
      have hhead : (∀ e ∈ exposed, R.NullOrMem e.addr) ↔ ∀ e ∈ exposed, e.Anchored R :=
        forall₂_congr fun e he => (hsound e he).nullOrMem_iff
      rw [List.forall_mem_append, List.forall_mem_append, ← hhead]
      exact and_congr_right fun hall => ih (hnext hall)

theorem TaintedSource.convert_confined (source : TaintedSource R) :
    (∀ e ∈ source.convert.2, R.NullOrMem e.addr ∧ e.Anchored R) ∧ source.convert.1.Confined R := by
  have hmasked := nullOrMem_getMaskedField R
  cases source with
  | pointer pointee raw =>
    exact ⟨fun e he => List.mem_singleton.1 he ▸ ⟨hmasked _, trivial⟩, hmasked _⟩
  | classObject type raw =>
    exact ⟨fun e he => List.mem_singleton.1 he ▸ ⟨hmasked _, trivial⟩,
      (hmasked _).lt, fun _ => hmasked _⟩
  | array elem raw host =>
    exact ⟨fun e he => List.mem_singleton.1 he ▸ ⟨hmasked _, trivial⟩, UInt64.toNat_lt _⟩
  | field type loc hloc => exact ⟨by rintro _ ⟨⟩, hloc.lt, fun _ => Or.inr hloc⟩

/-- A pointer field of the sandbox after `field = getSandboxedField(arg.field)`. -/
def storePointer (mem : ℕ → UInt64) (loc arg : ℕ) : ℕ → UInt64 :=
  Function.update mem loc (UInt64.ofNat (getSandboxedField arg))

/-- `sandbox_unverified_data<T*>::getMasked`. -/
def loadPointer (mem : ℕ → UInt64) (loc : ℕ) : ℕ :=
  getMaskedField (sandboxMaskOf loc) (mem loc).toNat

def regionAt4GB : Region := ⟨2 ^ 32, by decide, by decide, by decide⟩

end SandboxingNaCl
