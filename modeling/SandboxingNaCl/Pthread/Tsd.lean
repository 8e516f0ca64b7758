import Mathlib.Algebra.Ring.Nat
import SandboxingNaCl.Lib.Runs
import SandboxingNaCl.Pthread.Common

/-!
# Thread-specific data

`nc_tsd.c`.  A slot is allocated while its generation is odd.  A step makes one access to the slots, which
the threads share, and what the thread does with its own array before the next.  The number of slots is
`PTHREAD_KEYS_MAX`: 512, and 32 in the copy of the IRT.
-/

namespace SandboxingNaCl

open Runs Function

def pthreadDestructorIterations : ℕ := 4

def keyAllocated (generation : BitVec 32) : Bool := generation &&& 1 = 1

/-- What a thread does inside `pthread_key_create` or `pthread_key_delete`. -/
inductive TsdOp (slots : ℕ) (δ : Type)
  | idle
  /-- `pthread_key_create` reads the generation of the slot. -/
  | createRead (dtor : Option δ) (slot : Fin slots)
  | createCas (dtor : Option δ) (slot : Fin slots) (generation : BitVec 32)
  /-- The slot is allocated, its destructor is not stored. -/
  | createStore (dtor : Option δ) (slot : Fin slots) (generation : BitVec 32)
  | deleteRead (slot : Fin slots)
  | deleteCas (slot : Fin slots) (generation : BitVec 32)
  | deleteStore (slot : Fin slots)

def TsdOp.isIdle {slots : ℕ} {δ : Type} : TsdOp slots δ → Bool
  | .idle => true
  | _ => false

/-- The slot whose generation the thread has changed and whose destructor it has yet to store. -/
def TsdOp.storing {slots : ℕ} {δ : Type} : TsdOp slots δ → Option (Fin slots)
  | .createStore _ slot _ | .deleteStore slot => some slot
  | _ => none

/-- What a call of `pthread_key_create` made in a slot. -/
structure KeyRecord (δ : Type) where
  generation : BitVec 32
  dtor : Option δ
deriving DecidableEq

/-- `struct tsd_key`, a slot.  The last three fields only keep record: the keys made in the slot, the
generations of those whose creation has returned, and of those that are deleted. -/
structure TsdKey (δ : Type) where
  dtor : Option δ
  generation : BitVec 32
  made : List (KeyRecord δ)
  created : List (BitVec 32)
  deleted : List (BitVec 32)

/-- What `__nc_tsd_exit` does next with a slot. -/
inductive ExitPhase (δ : Type)
  | readDtor
  /-- `live` is the live key of the slot when its destructor was read. -/
  | readGeneration (dtor : Option δ) (live : Option (KeyRecord δ))
  | inDtor

def ExitPhase.isInDtor {δ : Type} : ExitPhase δ → Bool
  | .inDtor => true
  | _ => false

/-- Where a thread is in the loops of `__nc_tsd_exit`. -/
structure ExitFrame (slots : ℕ) (δ : Type) where
  round : ℕ
  slot : Fin slots
  didAny : Bool
  phase : ExitPhase δ

inductive TsdLife (slots : ℕ) (δ : Type)
  | running
  | exiting (frame : ExitFrame slots δ)
  | exited

def TsdLife.callable {slots : ℕ} {δ : Type} : TsdLife slots δ → Bool
  | .running => true
  | .exiting frame => frame.phase.isInDtor
  | .exited => false

/-- An element of `tsd->values`. -/
structure TsdEntry (ν : Type) where
  value : Option ν
  generation : BitVec 32

structure TsdThread (slots : ℕ) (δ ν : Type) where
  op : TsdOp slots δ
  life : TsdLife slots δ
  tsd : Option (Fin slots → TsdEntry ν)

/-- A visit of `__nc_tsd_exit` to a slot: the generation found there, the key that was live from the first
access of the visit to the last, the value last set for the key of that generation, and the call made. -/
structure TsdVisit (slots : ℕ) (δ ν : Type) where
  slot : Fin slots
  generation : BitVec 32
  live : Option (KeyRecord δ)
  value : Option ν
  called : Option (δ × ν)
deriving DecidableEq

/-- What a call returns. -/
inductive TsdReturn (slots : ℕ) (ν : Type)
  | created (slot : Fin slots)
  | status (result : Except Errno Unit)
  | value (value : Option ν)

/-- The slots and the threads.  `lastSet` and `visits` only keep record: the value that a thread last set for
the key of a generation, and the visits of its `__nc_tsd_exit`. -/
structure TsdWorld (slots : ℕ) (θ δ ν : Type) where
  tsdKeys : Fin slots → TsdKey δ
  thread : θ → TsdThread slots δ ν
  lastSet : θ → Fin slots → BitVec 32 → Option ν
  visits : θ → List (TsdVisit slots δ ν)
  returned : Option (θ × TsdReturn slots ν)

/-- What happens next. -/
inductive TsdAction (θ δ ν : Type)
  | pthreadKeyCreate (t : θ) (dtor : Option δ)
  | pthreadKeyDelete (t : θ) (key : ℕ)
  /-- `calloc` says whether the array can be allocated. -/
  | pthreadSetspecific (t : θ) (key : ℕ) (value : Option ν) (calloc : Bool)
  | pthreadGetspecific (t : θ) (key : ℕ)
  | ncTsdExit (t : θ)
  | dtorReturns (t : θ)
  | next (t : θ)

namespace TsdThread

variable {slots : ℕ} {δ ν : Type}

/-- What the thread has at the slot; a fresh array is zeroed. -/
def entry (th : TsdThread slots δ ν) (slot : Fin slots) : TsdEntry ν :=
  match th.tsd with
  | some values => values slot
  | none => ⟨none, 0⟩

def store (th : TsdThread slots δ ν) (slot : Fin slots) (entry : TsdEntry ν) : TsdThread slots δ ν :=
  { th with tsd := some (Function.update th.entry slot entry) }

/-- The thread may call the library: it runs, or is inside a destructor. -/
def callable (th : TsdThread slots δ ν) : Bool := th.op.isIdle && th.life.callable

/-- The loops go on to the next slot, the next round or the end. -/
def advance (th : TsdThread slots δ ν) (frame : ExitFrame slots δ) (didAny : Bool) :
    TsdThread slots δ ν :=
  if h : frame.slot + 1 < slots then
    { th with life := .exiting ⟨frame.round, ⟨frame.slot + 1, h⟩, didAny, .readDtor⟩ }
  else if didAny ∧ frame.round + 1 < pthreadDestructorIterations then
    { th with life := .exiting ⟨frame.round + 1, ⟨0, frame.slot.pos⟩, false, .readDtor⟩ }
  else { th with life := .exited, tsd := none }

end TsdThread

namespace TsdKey

variable {δ : Type}

/-- The key is made, not deleted, and its creation has returned. -/
def Live (key : TsdKey δ) (record : KeyRecord δ) : Prop :=
  record ∈ key.made ∧ record.generation ∈ key.created ∧ record.generation ∉ key.deleted

def live (key : TsdKey δ) : Option (KeyRecord δ) :=
  key.made.find? fun record => record.generation ∈ key.created ∧ record.generation ∉ key.deleted

/-- The exchange of `pthread_key_create`. -/
def create (key : TsdKey δ) (generation : BitVec 32) (dtor : Option δ) : TsdKey δ :=
  { key with generation := generation + 1, made := ⟨generation + 1, dtor⟩ :: key.made }

/-- The exchange of `pthread_key_delete`. -/
def delete (key : TsdKey δ) (generation : BitVec 32) : TsdKey δ :=
  { key with generation := generation + 1, deleted := generation :: key.deleted }

end TsdKey

namespace TsdWorld

variable {slots : ℕ} {θ δ ν : Type} [DecidableEq θ]

/-- The start of the program. -/
def init : TsdWorld slots θ δ ν where
  tsdKeys _ := ⟨none, 0, [], [], []⟩
  thread _ := ⟨.idle, .running, none⟩
  lastSet _ _ _ := none
  visits _ := []
  returned := none

def setThread (w : TsdWorld slots θ δ ν) (t : θ) (th : TsdThread slots δ ν) : TsdWorld slots θ δ ν :=
  { w with thread := Function.update w.thread t th, returned := none }

def setKey (w : TsdWorld slots θ δ ν) (slot : Fin slots) (key : TsdKey δ) : TsdWorld slots θ δ ν :=
  { w with tsdKeys := Function.update w.tsdKeys slot key }

/-- The thread sets a value for the key of the generation. -/
def record (w : TsdWorld slots θ δ ν) (t : θ) (slot : Fin slots) (generation : BitVec 32)
    (value : Option ν) : TsdWorld slots θ δ ν :=
  { w with lastSet := Function.update w.lastSet t (Function.update (w.lastSet t) slot
      (Function.update (w.lastSet t slot) generation value)) }

def goto (w : TsdWorld slots θ δ ν) (t : θ) (op : TsdOp slots δ) : TsdWorld slots θ δ ν :=
  w.setThread t { w.thread t with op }

def finish (w : TsdWorld slots θ δ ν) (t : θ) (result : TsdReturn slots ν) : TsdWorld slots θ δ ν :=
  { w.goto t .idle with returned := some (t, result) }

/-- The loop of `pthread_key_create` comes to the slot, or has passed the last one. -/
def createFrom (w : TsdWorld slots θ δ ν) (t : θ) (dtor : Option δ) (slot : ℕ) : TsdWorld slots θ δ ν :=
  if h : slot < slots then w.goto t (.createRead dtor ⟨slot, h⟩)
  else w.finish t (.status (.error .eagain))

/-- `pthread_setspecific` for a key in range. -/
def setspecific (w : TsdWorld slots θ δ ν) (t : θ) (slot : Fin slots) (value : Option ν) (calloc : Bool) :
    TsdWorld slots θ δ ν :=
  let generation := (w.tsdKeys slot).generation
  if ¬ keyAllocated generation then w.finish t (.status (.error .einval))
  else if (w.thread t).tsd.isNone ∧ value.isNone then
    (w.record t slot generation value).finish t (.status (.ok ()))
  else if (w.thread t).tsd.isNone ∧ ¬ calloc then w.finish t (.status (.error .enomem))
  else
    { (w.record t slot generation value).setThread t ((w.thread t).store slot ⟨value, generation⟩) with
      returned := some (t, .status (.ok ())) }

/-- `pthread_getspecific`. -/
def getspecific (w : TsdWorld slots θ δ ν) (t : θ) (key : ℕ) : Option ν :=
  if h : key < slots then
    let entry := (w.thread t).entry ⟨key, h⟩
    if (w.thread t).tsd.isNone ∨ entry.generation ≠ (w.tsdKeys ⟨key, h⟩).generation then none
    else entry.value
  else none

/-- The value whose destructor `__nc_tsd_exit` calls at the slot. -/
def exitCall (w : TsdWorld slots θ δ ν) (t : θ) (slot : Fin slots) (dtor : Option δ) : Option (δ × ν) :=
  let generation := (w.tsdKeys slot).generation
  let entry := (w.thread t).entry slot
  match dtor, entry.value with
  | some dtor, some value =>
    if keyAllocated generation ∧ entry.generation = generation then some (dtor, value) else none
  | _, _ => none

/-- `__nc_tsd_exit` reads the generation of the slot, and calls the destructor or not. -/
def visit (w : TsdWorld slots θ δ ν) (t : θ) (frame : ExitFrame slots δ) (dtor : Option δ)
    (live : Option (KeyRecord δ)) : TsdWorld slots θ δ ν :=
  let key := w.tsdKeys frame.slot
  let called := w.exitCall t frame.slot dtor
  let live := live.filter fun record => record.generation ∉ key.deleted
  let value := w.lastSet t frame.slot key.generation
  let visited : TsdWorld slots θ δ ν := { w with
    visits := Function.update w.visits t
      (w.visits t ++ [⟨frame.slot, key.generation, live, value, called⟩]) }
  if called.isSome then
    -- the value is cleared before the call
    (visited.record t frame.slot key.generation none).setThread t
      { (w.thread t).store frame.slot ⟨none, ((w.thread t).entry frame.slot).generation⟩ with
        life := .exiting { frame with phase := .inDtor } }
  else visited.setThread t ((w.thread t).advance frame frame.didAny)

/-- The next access of a creation or a deletion. -/
def nextOp (w : TsdWorld slots θ δ ν) (t : θ) : TsdOp slots δ → Except Blocked (TsdWorld slots θ δ ν)
  | .idle => .error .blocked
  | .createRead dtor slot =>
    let generation := (w.tsdKeys slot).generation
    -- a key is not reusable after the last even generation
    if ¬ keyAllocated generation ∧ generation ≠ BitVec.allOnes 32 - 1 then
      .ok (w.goto t (.createCas dtor slot generation))
    else .ok (w.createFrom t dtor (slot + 1))
  | .createCas dtor slot generation =>
    let key := w.tsdKeys slot
    if key.generation = generation then
      .ok ((w.setKey slot (key.create generation dtor)).goto t
        (.createStore dtor slot (generation + 1)))
    else .ok (w.createFrom t dtor (slot + 1))
  | .createStore dtor slot generation =>
    let key := w.tsdKeys slot
    .ok ((w.setKey slot { key with dtor, created := generation :: key.created }).finish t
      (.created slot))
  | .deleteRead slot =>
    let generation := (w.tsdKeys slot).generation
    if keyAllocated generation then .ok (w.goto t (.deleteCas slot generation))
    else .ok (w.finish t (.status (.error .einval)))
  | .deleteCas slot generation =>
    let key := w.tsdKeys slot
    if key.generation = generation then
      .ok ((w.setKey slot (key.delete generation)).goto t (.deleteStore slot))
    else .ok (w.finish t (.status (.error .einval)))
  | .deleteStore slot =>
    .ok ((w.setKey slot { w.tsdKeys slot with dtor := none }).finish t (.status (.ok ())))

/-- The next access of `__nc_tsd_exit`. -/
def nextExit (w : TsdWorld slots θ δ ν) (t : θ) :
    TsdLife slots δ → Except Blocked (TsdWorld slots θ δ ν)
  | .exiting frame =>
    match frame.phase with
    | .readDtor =>
      let key := w.tsdKeys frame.slot
      let phase := .readGeneration key.dtor key.live
      .ok (w.setThread t { w.thread t with life := .exiting { frame with phase } })
    | .readGeneration dtor live => .ok (w.visit t frame dtor live)
    | .inDtor => .error .blocked
  | _ => .error .blocked

/-- One step. -/
def step (w : TsdWorld slots θ δ ν) :
    TsdAction θ δ ν → Except Blocked (TsdWorld slots θ δ ν)
  | .pthreadKeyCreate t dtor =>
    if (w.thread t).callable then .ok (w.createFrom t dtor 0) else .error .blocked
  | .pthreadKeyDelete t key =>
    if (w.thread t).callable then
      if h : key < slots then .ok (w.goto t (.deleteRead ⟨key, h⟩))
      else .ok (w.finish t (.status (.error .einval)))
    else .error .blocked
  | .pthreadSetspecific t key value calloc =>
    if (w.thread t).callable then
      if h : key < slots then .ok (w.setspecific t ⟨key, h⟩ value calloc)
      else .ok (w.finish t (.status (.error .einval)))
    else .error .blocked
  | .pthreadGetspecific t key =>
    if (w.thread t).callable then .ok (w.finish t (.value (w.getspecific t key)))
    else .error .blocked
  | .ncTsdExit t =>
    match (w.thread t).op, (w.thread t).life with
    | .idle, .running =>
      if h : (w.thread t).tsd.isSome ∧ 0 < slots then
        .ok (w.setThread t { w.thread t with life := .exiting ⟨0, ⟨0, h.2⟩, false, .readDtor⟩ })
      else .ok (w.setThread t { w.thread t with life := .exited, tsd := none })
    | _, _ => .error .blocked
  | .dtorReturns t =>
    match (w.thread t).op, (w.thread t).life with
    | .idle, .exiting frame =>
      if frame.phase.isInDtor then .ok (w.setThread t ((w.thread t).advance frame true))
      else .error .blocked
    | _, _ => .error .blocked
  | .next t =>
    if (w.thread t).op.isIdle then w.nextExit t (w.thread t).life
    else w.nextOp t (w.thread t).op

/-- A slot does not change its generation while a thread has yet to store the destructor that goes with the
last change. -/
def Safe (w : TsdWorld slots θ δ ν) : TsdAction θ δ ν → Prop
  | .next t =>
    match (w.thread t).op with
    | .createCas _ slot generation | .deleteCas slot generation =>
      (w.tsdKeys slot).generation = generation → ∀ u, (w.thread u).op.storing ≠ some slot
    | _ => True
  | _ => True

instance [Fintype θ] (w : TsdWorld slots θ δ ν) (a : TsdAction θ δ ν) : Decidable (w.Safe a) := by
  unfold Safe
  split
  · split <;> infer_instance
  · infer_instance

end TsdWorld

/-! ## The slots -/

section

variable {generation : BitVec 32}

theorem keyAllocated_iff : keyAllocated generation = true ↔ generation.toNat % 2 = 1 := by
  have hand : (generation &&& 1).toNat = generation.toNat % 2 := by
    rw [BitVec.toNat_and]
    exact Nat.and_one_is_mod _
  unfold keyAllocated
  rw [decide_eq_true_iff, ← BitVec.toNat_inj, hand]
  rfl

theorem toNat_generation_add_one (h : generation.toNat + 1 < 2 ^ 32) :
    (generation + 1).toNat = generation.toNat + 1 := by
  bv_omega

end

namespace TsdKey

variable {slots : ℕ} {θ δ : Type} {key : TsdKey δ} {slot : Fin slots} {op : θ → TsdOp slots δ}
  {record : KeyRecord δ} {generation : BitVec 32} {dtor : Option δ} {t : θ} {p q : TsdOp slots δ}

/-- What is on record of a slot agrees with its generation. -/
structure Recorded (key : TsdKey δ) : Prop where
  unique : (key.made.map KeyRecord.generation).Nodup
  allocated : ∀ r ∈ key.made, keyAllocated r.generation = true
  le : ∀ r ∈ key.made, r.generation.toNat ≤ key.generation.toNat
  deletedOf : ∀ r ∈ key.made, r.generation ≠ key.generation → r.generation ∈ key.deleted
  deletedLt : ∀ g ∈ key.deleted, g.toNat < key.generation.toNat
  createdLe : ∀ g ∈ key.created, g.toNat ≤ key.generation.toNat
  lt : key.generation.toNat + 1 < 2 ^ 32

theorem Recorded.le_add_one (h : key.Recorded) (hcas : key.generation = generation) :
    key.generation.toNat ≤ (generation + 1).toNat := by
  have hlt := h.lt
  rw [hcas] at hlt ⊢
  rw [toNat_generation_add_one hlt]
  exact Nat.le_succ _

theorem Recorded.not_deleted_iff (h : key.Recorded) (hmade : record ∈ key.made) :
    record.generation ∉ key.deleted ↔ record.generation = key.generation := by
  constructor
  · intro hdeleted
    by_contra hne
    exact hdeleted (h.deletedOf record hmade hne)
  · intro heq hdeleted
    have hlt := h.deletedLt _ hdeleted
    rw [heq] at hlt
    exact lt_irrefl _ hlt

theorem Recorded.create (h : key.Recorded) (hcas : key.generation = generation)
    (hfree : ¬ keyAllocated generation = true) (hlast : generation ≠ BitVec.allOnes 32 - 1) :
    (key.create generation dtor).Recorded := by
  have hlt := h.lt
  rw [hcas] at hlt
  have hadd := toNat_generation_add_one hlt
  have hmax : generation.toNat ≠ 2 ^ 32 - 2 := fun heq => hlast (BitVec.eq_of_toNat_eq heq)
  rw [keyAllocated_iff] at hfree
  have hallocated : keyAllocated (generation + 1) = true := by
    rw [keyAllocated_iff]
    omega
  have hle : ∀ r ∈ key.made, r.generation.toNat ≤ generation.toNat := by
    intro r hr
    rw [← hcas]
    exact h.le r hr
  have hne : ∀ r ∈ key.made, r.generation ≠ generation := by
    intro r hr heq
    have hodd := h.allocated r hr
    rw [heq, keyAllocated_iff] at hodd
    exact hfree hodd
  refine ⟨List.nodup_cons.2 ⟨?_, h.unique⟩, ?_, ?_, ?_, fun g hg => ?_, fun g hg => ?_, ?_⟩
  · intro hmem
    obtain ⟨r, hr, heq⟩ := List.mem_map.1 hmem
    have hr' := hle r hr
    rw [show r.generation = generation + 1 from heq] at hr'
    omega
  · exact List.forall_mem_cons.2 ⟨hallocated, h.allocated⟩
  · refine List.forall_mem_cons.2 ⟨le_rfl, fun r hr => ?_⟩
    exact (hle r hr).trans (hadd ▸ Nat.le_succ _)
  · refine List.forall_mem_cons.2 ⟨fun hne => absurd rfl hne, fun r hr _ => ?_⟩
    exact h.deletedOf r hr (hcas ▸ hne r hr)
  · have hg' := h.deletedLt g hg
    rw [hcas] at hg'
    exact hg'.trans (hadd ▸ Nat.lt_succ_self _)
  · have hg' := h.createdLe g hg
    rw [hcas] at hg'
    exact hg'.trans (hadd ▸ Nat.le_succ _)
  · change (generation + 1).toNat + 1 < 2 ^ 32
    omega

theorem Recorded.delete (h : key.Recorded) (hcas : key.generation = generation)
    (hallocated : keyAllocated generation = true) : (key.delete generation).Recorded := by
  have hlt := h.lt
  rw [hcas] at hlt
  have hadd := toNat_generation_add_one hlt
  rw [keyAllocated_iff] at hallocated
  refine ⟨h.unique, h.allocated, fun r hr => ?_, fun r hr _ => ?_, ?_, fun g hg => ?_, ?_⟩
  · have hr' := h.le r hr
    rw [hcas] at hr'
    exact hr'.trans (hadd ▸ Nat.le_succ _)
  · by_cases heq : r.generation = generation
    · exact heq ▸ List.mem_cons_self
    · exact List.mem_cons_of_mem _ (h.deletedOf r hr (hcas ▸ heq))
  · refine List.forall_mem_cons.2 ⟨hadd ▸ Nat.lt_succ_self _, fun g hg => ?_⟩
    have hg' := h.deletedLt g hg
    rw [hcas] at hg'
    exact hg'.trans (hadd ▸ Nat.lt_succ_self _)
  · have hg' := h.createdLe g hg
    rw [hcas] at hg'
    exact hg'.trans (hadd ▸ Nat.le_succ _)
  · change (generation + 1).toNat + 1 < 2 ^ 32
    omega

/-- What every safe step keeps of a slot, given what the threads do. -/
structure Inv (key : TsdKey δ) (slot : Fin slots) (op : θ → TsdOp slots δ) : Prop where
  recorded : key.Recorded
  creating : ∀ t d g, op t = .createStore d slot g → key.generation = g ∧ keyAllocated g = true ∧
    g ∉ key.created ∧ ⟨g, d⟩ ∈ key.made ∧ key.dtor = none
  oneCreator : ∀ t u d d' g g', op t = .createStore d slot g → op u = .createStore d' slot g' → t = u
  deleting : ∀ t, op t = .deleteStore slot → ¬ keyAllocated key.generation = true
  /-- The destructor of an allocated slot is that of its key, or is about to be stored. -/
  dtorAllocated : keyAllocated key.generation = true → (∃ t d g, op t = .createStore d slot g) ∨
    ∃ r ∈ key.made, r.generation = key.generation ∧ r.dtor = key.dtor
  dtorFree : ¬ keyAllocated key.generation = true → (∃ t, op t = .deleteStore slot) ∨ key.dtor = none

theorem inv_empty : (⟨none, 0, [], [], []⟩ : TsdKey δ).Inv slot fun _ : θ => .idle := by
  have hlt : (0 : BitVec 32).toNat + 1 < 2 ^ 32 := by decide
  have hfree : ¬ keyAllocated 0 = true := by decide
  exact ⟨⟨List.nodup_nil, nofun, nofun, nofun, nofun, nofun, hlt⟩, fun _ _ _ => nofun,
    fun _ _ _ _ _ _ => nofun, fun _ => nofun, fun hallocated => absurd hallocated hfree,
    fun _ => .inr rfl⟩

theorem Inv.of_update [DecidableEq θ] (h : key.Inv slot op) (hq : op t = q)
    (hleave : q.storing ≠ some slot) (hcome : p.storing ≠ some slot) :
    key.Inv slot (update op t p) := by
  have hiff : ∀ u x, x.storing = some slot → (update op t p u = x ↔ op u = x) := by
    intro u x hx
    rw [update_apply]
    split_ifs with hut
    · subst hut
      rw [hq]
      refine iff_of_false ?_ ?_
      · rintro rfl
        exact hcome hx
      · rintro rfl
        exact hleave hx
    · rfl
  refine ⟨h.recorded, fun u d g hu => ?_, fun u v d d' g g' hu hv => ?_, fun u hu => ?_,
    fun hallocated => ?_, fun hfree => ?_⟩
  · exact h.creating u d g ((hiff u _ rfl).1 hu)
  · exact h.oneCreator u v d d' g g' ((hiff u _ rfl).1 hu) ((hiff v _ rfl).1 hv)
  · exact h.deleting u ((hiff u _ rfl).1 hu)
  · rcases h.dtorAllocated hallocated with ⟨u, d, g, hu⟩ | hmade
    · exact .inl ⟨u, d, g, (hiff u _ rfl).2 hu⟩
    · exact .inr hmade
  · rcases h.dtorFree hfree with ⟨u, hu⟩ | hnone
    · exact .inl ⟨u, (hiff u _ rfl).2 hu⟩
    · exact .inr hnone

section

variable [DecidableEq θ]

theorem Inv.create (h : key.Inv slot op) (hcas : key.generation = generation)
    (hfree : ¬ keyAllocated generation = true) (hlast : generation ≠ BitVec.allOnes 32 - 1)
    (hsafe : ∀ u, op u ≠ .deleteStore slot) : (key.create generation dtor).Inv slot
      (update op t (.createStore dtor slot (generation + 1))) := by
  have hrecorded : (key.create generation dtor).Recorded := h.recorded.create hcas hfree hlast
  have hallocated := hrecorded.allocated _ List.mem_cons_self
  have hnone : key.dtor = none := by
    rcases h.dtorFree (hcas ▸ hfree) with ⟨u, hu⟩ | hnone
    · exact absurd hu (hsafe u)
    · exact hnone
  have honly : ∀ u d g, update op t (.createStore dtor slot (generation + 1)) u =
      .createStore d slot g → u = t := by
    intro u d g hu
    by_contra hut
    rw [update_of_ne hut] at hu
    exact hfree (hcas ▸ (h.creating u d g hu).1 ▸ (h.creating u d g hu).2.1)
  refine ⟨hrecorded, fun u d g hu => ?_, fun u v d d' g g' hu hv => ?_, fun u hu => ?_,
    fun _ => .inl ⟨t, dtor, generation + 1, update_self _ _ _⟩,
    fun hfree' => absurd hallocated hfree'⟩
  · obtain rfl := honly u d g hu
    rw [update_self] at hu
    cases hu
    refine ⟨rfl, hallocated, fun hmem => ?_, List.mem_cons_self, hnone⟩
    have hle := h.recorded.createdLe _ hmem
    have hlt := h.recorded.lt
    rw [hcas] at hle hlt
    rw [toNat_generation_add_one hlt] at hle
    omega
  · exact (honly u d g hu).trans (honly v d' g' hv).symm
  · rw [update_apply] at hu
    split_ifs at hu
    exact absurd hu (hsafe u)

theorem Inv.createStore (h : key.Inv slot op) (hop : op t = .createStore dtor slot generation) :
    Inv { key with dtor, created := generation :: key.created } slot
      (update op t .idle) := by
  obtain ⟨hgeneration, hallocated, hcreated, hmade, -⟩ := h.creating t dtor generation hop
  have hnone : ∀ u d g, update op t .idle u ≠ .createStore d slot g := by
    intro u d g hu
    rw [update_apply] at hu
    split_ifs at hu with hut
    exact hut (h.oneCreator u t d dtor g generation hu hop)
  refine ⟨⟨h.recorded.unique, h.recorded.allocated, h.recorded.le, h.recorded.deletedOf,
      h.recorded.deletedLt, ?_, h.recorded.lt⟩,
    fun u d g hu => absurd hu (hnone u d g), fun u v d d' g g' hu _ => absurd hu (hnone u d g),
    fun u hu => ?_, fun _ => .inr ⟨_, hmade, hgeneration.symm, rfl⟩, fun hfree => ?_⟩
  · exact List.forall_mem_cons.2 ⟨hgeneration ▸ le_rfl, h.recorded.createdLe⟩
  · rw [update_apply] at hu
    split_ifs at hu
    exact h.deleting u hu
  · exact absurd (hgeneration ▸ hallocated) hfree

theorem Inv.delete (h : key.Inv slot op) (hcas : key.generation = generation)
    (hallocated : keyAllocated generation = true)
    (hsafe : ∀ u d, op u ≠ .createStore d slot generation) :
    (key.delete generation).Inv slot (update op t (.deleteStore slot)) := by
  have hlt := h.recorded.lt
  rw [hcas] at hlt
  have hfree : ¬ keyAllocated (generation + 1) = true := by
    rw [keyAllocated_iff] at hallocated ⊢
    rw [toNat_generation_add_one hlt]
    omega
  have hnone : ∀ u d g, update op t (.deleteStore slot) u ≠ .createStore d slot g := by
    intro u d g hu
    rw [update_apply] at hu
    split_ifs at hu
    have hg := (h.creating u d g hu).1
    rw [← hg, hcas] at hu
    exact hsafe u d hu
  exact ⟨h.recorded.delete hcas hallocated, fun u d g hu => absurd hu (hnone u d g),
    fun u v d d' g g' hu _ => absurd hu (hnone u d g), fun _ _ => hfree,
    fun hallocated' => absurd hallocated' hfree, fun _ => .inl ⟨t, update_self _ _ _⟩⟩

theorem Inv.deleteStore (h : key.Inv slot op) (hop : op t = .deleteStore slot) :
    Inv { key with dtor := none } slot (update op t .idle) := by
  have hfree := h.deleting t hop
  have hnone : ∀ u d g, update op t .idle u ≠ .createStore d slot g := by
    intro u d g hu
    rw [update_apply] at hu
    split_ifs at hu
    exact hfree ((h.creating u d g hu).1 ▸ (h.creating u d g hu).2.1)
  obtain ⟨h₁, h₂, h₃, h₄, h₅, h₆, h₇⟩ := h.recorded
  exact ⟨⟨h₁, h₂, h₃, h₄, h₅, h₆, h₇⟩, fun u d g hu => absurd hu (hnone u d g),
    fun u v d d' g g' hu _ => absurd hu (hnone u d g), fun _ _ => hfree,
    fun hallocated => absurd hallocated hfree, fun _ => .inr rfl⟩

end

theorem Inv.dtor_of_live (h : key.Inv slot op) (hlive : key.Live record) : key.dtor = record.dtor := by
  obtain ⟨hmade, hcreated, hdeleted⟩ := hlive
  have hgeneration := (h.recorded.not_deleted_iff hmade).1 hdeleted
  have hallocated := h.recorded.allocated record hmade
  rw [hgeneration] at hallocated hcreated
  rcases h.dtorAllocated hallocated with ⟨t, d, g, hop⟩ | ⟨r, hr, hr', hdtor⟩
  · obtain ⟨hg, -, hnot, -⟩ := h.creating t d g hop
    exact absurd (hg ▸ hcreated) hnot
  · rw [← hdtor, List.inj_on_of_nodup_map h.recorded.unique hr hmade (hr'.trans hgeneration.symm)]

theorem Inv.made_of_dtor (h : key.Inv slot op) (hallocated : keyAllocated key.generation = true)
    {d : δ} (hdtor : key.dtor = some d) :
    ∃ r ∈ key.made, r.generation = key.generation ∧ r.dtor = some d := by
  rcases h.dtorAllocated hallocated with ⟨t, d', g, hop⟩ | ⟨r, hr, hgeneration, hr'⟩
  · rw [(h.creating t d' g hop).2.2.2.2] at hdtor
    cases hdtor
  · exact ⟨r, hr, hgeneration, hr'.trans hdtor⟩

theorem Inv.live_eq_some_iff (h : key.Inv slot op) : key.live = some record ↔ key.Live record := by
  unfold live
  constructor
  · intro hfind
    have hlive := List.find?_some hfind
    rw [decide_eq_true_iff] at hlive
    exact ⟨List.mem_of_find?_eq_some hfind, hlive⟩
  · rintro ⟨hmade, hcreated, hdeleted⟩
    cases hfind : key.made.find? fun r => r.generation ∈ key.created ∧ r.generation ∉ key.deleted with
    | none =>
      have hnone := List.find?_eq_none.1 hfind record hmade
      rw [decide_eq_true_iff] at hnone
      exact absurd ⟨hcreated, hdeleted⟩ hnone
    | some r =>
      have hr := List.find?_some hfind
      rw [decide_eq_true_iff] at hr
      have hmade' := List.mem_of_find?_eq_some hfind
      have heq := ((h.recorded.not_deleted_iff hmade').1 hr.2).trans
        ((h.recorded.not_deleted_iff hmade).1 hdeleted).symm
      rw [List.inj_on_of_nodup_map h.recorded.unique hmade' hmade heq]

end TsdKey

/-! ## The threads -/

/-- Keys are made in the slots, and their generations grow. -/
def KeysGrow {slots : ℕ} {δ : Type} (keys keys' : Fin slots → TsdKey δ) : Prop :=
  ∀ s, (keys s).generation.toNat ≤ (keys' s).generation.toNat ∧ (keys s).made ⊆ (keys' s).made

theorem KeysGrow.refl {slots : ℕ} {δ : Type} (keys : Fin slots → TsdKey δ) : KeysGrow keys keys :=
  fun _ => ⟨le_rfl, List.Subset.refl _⟩

/-- A visit calls the destructor of the key whose value it finds, and it does so for a live key. -/
structure TsdVisit.Correct {slots : ℕ} {δ ν : Type} (v : TsdVisit slots δ ν)
    (keys : Fin slots → TsdKey δ) : Prop where
  called : ∀ d x, v.called = some (d, x) → v.value = some x ∧
    ∃ r ∈ (keys v.slot).made, r.generation = v.generation ∧ r.dtor = some d
  live : ∀ r, v.live = some r → r ∈ (keys v.slot).made ∧ r.generation = v.generation ∧
    v.called = match r.dtor, v.value with
      | some d, some x => some (d, x)
      | _, _ => none

/-- What `__nc_tsd_exit` knows after it has read the destructor. -/
def ExitPhase.Sound {δ ν : Type} (phase : ExitPhase δ) (key : TsdKey δ) (entry : TsdEntry ν) : Prop :=
  match phase with
  | .readGeneration dtor live =>
    (entry.generation = key.generation → keyAllocated key.generation = true → ∀ d, dtor = some d →
      ∃ r ∈ key.made, r.generation = key.generation ∧ r.dtor = some d) ∧
    ∀ r, live = some r → r ∈ key.made ∧ r.dtor = dtor
  | _ => True

section

variable {slots : ℕ} {δ ν : Type} {keys keys' : Fin slots → TsdKey δ} {th : TsdThread slots δ ν}
  {lastSet : Fin slots → BitVec 32 → Option ν} {visits : List (TsdVisit slots δ ν)}
  {frame : ExitFrame slots δ} {slot : Fin slots} {value : Option ν}

/-- The loops of `__nc_tsd_exit` have made these visits. -/
structure ExitFrame.Sound (frame : ExitFrame slots δ) (visits : List (TsdVisit slots δ ν)) : Prop where
  count : visits.length = frame.round * slots + frame.slot + frame.phase.isInDtor.toNat
  round_lt : frame.round < pthreadDestructorIterations
  noCall : frame.didAny = false → frame.phase.isInDtor = false →
    ∀ v ∈ visits.drop (frame.round * slots), v.called = none

/-- The thread had no values, or its visits end with the last round or with one in which no destructor is
called. -/
def Finished (visits : List (TsdVisit slots δ ν)) (lastSet : Fin slots → BitVec 32 → Option ν) : Prop :=
  (visits = [] ∧ ∀ s g, lastSet s g = none) ∨
    ∃ last < pthreadDestructorIterations, visits.length = (last + 1) * slots ∧
      (last + 1 = pthreadDestructorIterations ∨ ∀ v ∈ visits.drop (last * slots), v.called = none)

/-- The thread's array holds what it last set. -/
structure TsdThread.Values (th : TsdThread slots δ ν) (keys : Fin slots → TsdKey δ)
    (lastSet : Fin slots → BitVec 32 → Option ν) : Prop where
  le : ∀ s, (th.entry s).generation.toNat ≤ (keys s).generation.toNat
  eq : ∀ s g, keyAllocated g = true → (keys s).generation.toNat ≤ g.toNat →
    lastSet s g = if (th.entry s).generation = g then (th.entry s).value else none
  unset : th.tsd = none → ∀ s g, lastSet s g = none

def TsdLife.Sound (life : TsdLife slots δ) (keys : Fin slots → TsdKey δ) (entry : Fin slots → TsdEntry ν)
    (lastSet : Fin slots → BitVec 32 → Option ν) (visits : List (TsdVisit slots δ ν)) : Prop :=
  match life with
  | .running => visits = []
  | .exiting frame => frame.Sound visits ∧ frame.phase.Sound (keys frame.slot) (entry frame.slot)
  | .exited => Finished visits lastSet

/-- What every safe step keeps of a thread. -/
structure TsdThread.Inv (th : TsdThread slots δ ν) (keys : Fin slots → TsdKey δ)
    (lastSet : Fin slots → BitVec 32 → Option ν) (visits : List (TsdVisit slots δ ν)) : Prop where
  values : th.life ≠ .exited → th.Values keys lastSet
  slots : ∀ i v, visits[i]? = some v → v.slot.val = i % slots
  correct : ∀ v ∈ visits, v.Correct keys
  life : th.life.Sound keys th.entry lastSet visits

theorem TsdVisit.Correct.mono {v : TsdVisit slots δ ν} (h : v.Correct keys) (hgrow : KeysGrow keys keys') :
    v.Correct keys' := by
  refine ⟨fun d x hcalled => ?_, fun r hlive => ?_⟩
  · obtain ⟨hvalue, r, hr, hr'⟩ := h.called d x hcalled
    exact ⟨hvalue, r, (hgrow v.slot).2 hr, hr'⟩
  · obtain ⟨hr, hr'⟩ := h.live r hlive
    exact ⟨(hgrow v.slot).2 hr, hr'⟩

theorem ExitPhase.Sound.mono {phase : ExitPhase δ} {entry : TsdEntry ν} (h : phase.Sound (keys slot) entry)
    (hle : entry.generation.toNat ≤ (keys slot).generation.toNat) (hgrow : KeysGrow keys keys') :
    phase.Sound (keys' slot) entry := by
  obtain ⟨hgeneration, hmade⟩ := hgrow slot
  cases phase with
  | readGeneration dtor live =>
    refine ⟨fun heq hallocated d hd => ?_, fun r hr => ?_⟩
    · -- the entry's generation lies between the two
      have hsame : (keys slot).generation = (keys' slot).generation := by
        rw [heq] at hle
        exact BitVec.eq_of_toNat_eq (le_antisymm hgeneration hle)
      rw [← hsame] at heq hallocated ⊢
      obtain ⟨r, hr, hr'⟩ := h.1 heq hallocated d hd
      exact ⟨r, hmade hr, hr'⟩
    · obtain ⟨hr, hr'⟩ := h.2 r hr
      exact ⟨hmade hr, hr'⟩
  | _ => trivial

theorem TsdThread.Values.mono (h : th.Values keys lastSet) (hgrow : KeysGrow keys keys') :
    th.Values keys' lastSet :=
  ⟨fun s => (h.le s).trans (hgrow s).1, fun s g hg hle => h.eq s g hg ((hgrow s).1.trans hle), h.unset⟩

theorem TsdThread.Inv.mono (h : th.Inv keys lastSet visits) (hgrow : KeysGrow keys keys')
    (op : TsdOp slots δ) : TsdThread.Inv { th with op } keys' lastSet visits := by
  refine ⟨fun hlife => ?_, h.slots, fun v hv => (h.correct v hv).mono hgrow, ?_⟩
  · obtain ⟨hle, heq, hunset⟩ := (h.values hlife).mono hgrow
    exact ⟨hle, heq, hunset⟩
  · have hsound := h.life
    change th.life.Sound keys' th.entry lastSet visits
    cases hlife : th.life with
    | exiting frame =>
      rw [hlife] at hsound
      have hle := (h.values (by rw [hlife]; nofun)).le frame.slot
      exact ⟨hsound.1, hsound.2.mono hle hgrow⟩
    | _ =>
      rw [hlife] at hsound
      exact hsound

theorem TsdThread.Values.store (h : th.Values keys lastSet) (slot : Fin slots) (value : Option ν) :
    (th.store slot ⟨value, (keys slot).generation⟩).Values keys
      (update lastSet slot
        (update (lastSet slot) (keys slot).generation value)) := by
  refine ⟨fun s => ?_, fun s g hg hle => ?_, nofun⟩
  · change (update th.entry slot _ s).generation.toNat ≤ _
    rw [update_apply]
    split_ifs with hs
    · rw [hs]
    · exact h.le s
  · change update lastSet slot _ s g = if (update th.entry slot _ s).generation = g
      then (update th.entry slot _ s).value else none
    by_cases hs : s = slot
    · subst hs
      rw [update_self, update_self, update_apply]
      by_cases hgeneration : g = (keys s).generation
      · rw [if_pos hgeneration, if_pos hgeneration.symm]
      · have hold : (th.entry s).generation ≠ g := by
          rintro rfl
          exact hgeneration (BitVec.eq_of_toNat_eq (le_antisymm (h.le s) hle))
        rw [if_neg hgeneration, if_neg (Ne.symm hgeneration), h.eq s g hg hle, if_neg hold]
    · rw [update_of_ne hs, update_of_ne hs]
      exact h.eq s g hg hle

theorem TsdThread.Values.advance (h : th.Values keys lastSet) {didAny : Bool}
    (hslots : ∀ i v, visits[i]? = some v → v.slot.val = i % slots) (hcorrect : ∀ v ∈ visits, v.Correct keys)
    (hcount : visits.length = frame.round * slots + frame.slot + 1)
    (hround : frame.round < pthreadDestructorIterations)
    (hcall : didAny = false → ∀ v ∈ visits.drop (frame.round * slots), v.called = none) :
    (th.advance frame didAny).Inv keys lastSet visits := by
  obtain ⟨hle, heq, hunset⟩ := h
  unfold TsdThread.advance
  split_ifs with hnext hagain
  · exact ⟨fun _ => ⟨hle, heq, hunset⟩, hslots, hcorrect, ⟨hcount, hround, fun hany _ => hcall hany⟩, trivial⟩
  · have hlast : visits.length = (frame.round + 1) * slots := by
      have hslot := frame.slot.isLt
      rw [Nat.succ_mul]
      omega
    refine ⟨fun _ => ⟨hle, heq, hunset⟩, hslots, hcorrect, ⟨hlast, hagain.2, fun _ _ v hv => ?_⟩, trivial⟩
    rw [List.drop_of_length_le hlast.le] at hv
    cases hv
  · have hlast : visits.length = (frame.round + 1) * slots := by
      have hslot := frame.slot.isLt
      rw [Nat.succ_mul]
      omega
    refine ⟨fun hlife => absurd rfl hlife, hslots, hcorrect, .inr ⟨frame.round, hround, hlast, ?_⟩⟩
    cases didAny with
    | false => exact .inr (hcall rfl)
    | true =>
      rw [and_iff_right rfl] at hagain
      exact .inl (by omega)

theorem TsdThread.advance_op {didAny : Bool} : (th.advance frame didAny).op = th.op := by
  unfold TsdThread.advance
  split_ifs <;> rfl

theorem ExitFrame.Sound.slots_append (h : frame.Sound visits) (hphase : frame.phase.isInDtor = false)
    (hslots : ∀ i v, visits[i]? = some v → v.slot.val = i % slots) {v : TsdVisit slots δ ν}
    (hv : v.slot = frame.slot) : ∀ i u, (visits ++ [v])[i]? = some u → u.slot.val = i % slots := by
  intro i u hu
  have hcount := h.count
  rw [hphase] at hcount
  rcases Nat.lt_trichotomy i visits.length with hi | hi | hi
  · rw [List.getElem?_append_left hi] at hu
    exact hslots i u hu
  · subst hi
    rw [List.getElem?_concat_length] at hu
    cases hu
    rw [hv, hcount, Bool.toNat_false, Nat.add_zero, Nat.mul_add_mod_of_lt frame.slot.isLt]
  · rw [List.getElem?_eq_none (by rw [List.length_append]; exact hi)] at hu
    cases hu

end

/-- What the thread has read before an exchange. -/
def TsdOp.Sound {slots : ℕ} {δ : Type} : TsdOp slots δ → Prop
  | .createCas _ _ generation => ¬ keyAllocated generation = true ∧ generation ≠ BitVec.allOnes 32 - 1
  | .deleteCas _ generation => keyAllocated generation = true
  | _ => True

namespace TsdWorld

/-! ## The runs -/

section

variable {slots : ℕ} {θ δ ν : Type} {w w' : TsdWorld slots θ δ ν} {t : θ} {slot : Fin slots}
  {op q : TsdOp slots δ} {dtor : Option δ} {generation : BitVec 32}

/-- What every safe step keeps. -/
structure Inv (w : TsdWorld slots θ δ ν) : Prop where
  keys : ∀ s, (w.tsdKeys s).Inv s fun t => (w.thread t).op
  ops : ∀ t, (w.thread t).op.Sound
  threads : ∀ t, (w.thread t).Inv w.tsdKeys (w.lastSet t) (w.visits t)

theorem ops_update [DecidableEq θ] (thread : θ → TsdThread slots δ ν) (t : θ) (th : TsdThread slots δ ν) :
    (fun u => (update thread t th u).op) = update (fun u => (thread u).op) t th.op := by
  funext u
  rw [update_apply, update_apply]
  split_ifs
  · rfl
  · rfl

variable [DecidableEq θ]

theorem Inv.of_thread (h : w.Inv) {th : TsdThread slots δ ν}
    (hthread : w'.thread = update w.thread t th) (hkeys : w'.tsdKeys = w.tsdKeys)
    (hlastSet : ∀ u ≠ t, w'.lastSet u = w.lastSet u) (hvisits : ∀ u ≠ t, w'.visits u = w.visits u)
    (hleave : (w.thread t).op.storing = none) (hcome : th.op.storing = none) (hop : th.op.Sound)
    (hth : th.Inv w.tsdKeys (w'.lastSet t) (w'.visits t)) : w'.Inv := by
  refine ⟨fun s => ?_, fun u => ?_, fun u => ?_⟩
  · rw [hthread, hkeys, ops_update]
    exact (h.keys s).of_update rfl (by rw [hleave]; nofun) (by rw [hcome]; nofun)
  · rw [hthread, update_apply]
    split_ifs
    · exact hop
    · exact h.ops u
  · rw [hthread, hkeys, update_apply]
    split_ifs with hut
    · exact hut ▸ hth
    · rw [hlastSet u hut, hvisits u hut]
      exact h.threads u

theorem Inv.goto (h : w.Inv) (hleave : (w.thread t).op.storing = none) (hcome : op.storing = none)
    (hop : op.Sound) : (w.goto t op).Inv :=
  h.of_thread rfl rfl (fun _ _ => rfl) (fun _ _ => rfl) hleave hcome hop
    ((h.threads t).mono (.refl _) op)

theorem Inv.finish (h : w.Inv) (hleave : (w.thread t).op.storing = none) {result : TsdReturn slots ν} :
    (w.finish t result).Inv :=
  h.of_thread rfl rfl (fun _ _ => rfl) (fun _ _ => rfl) hleave rfl trivial
    ((h.threads t).mono (.refl _) .idle)

theorem Inv.createFrom (h : w.Inv) (hleave : (w.thread t).op.storing = none) {slot : ℕ} :
    (w.createFrom t dtor slot).Inv := by
  unfold TsdWorld.createFrom
  split_ifs
  · exact h.goto hleave rfl trivial
  · exact h.finish hleave

theorem Inv.of_key (h : w.Inv) {key : TsdKey δ} (hop : (w.thread t).op = q)
    (hthread : w'.thread = update w.thread t { w.thread t with op })
    (hkeys : w'.tsdKeys = update w.tsdKeys slot key) (hlastSet : w'.lastSet = w.lastSet)
    (hvisits : w'.visits = w.visits)
    (hkey : key.Inv slot (update (fun u => (w.thread u).op) t op))
    (hgeneration : (w.tsdKeys slot).generation.toNat ≤ key.generation.toNat)
    (hmade : (w.tsdKeys slot).made ⊆ key.made)
    (hleave : ∀ s ≠ slot, q.storing ≠ some s) (hcome : ∀ s ≠ slot, op.storing ≠ some s)
    (hsound : op.Sound) : w'.Inv := by
  have hgrow : KeysGrow w.tsdKeys w'.tsdKeys := by
    intro s
    rw [hkeys, update_apply]
    split_ifs with hs
    · exact hs ▸ ⟨hgeneration, hmade⟩
    · exact ⟨le_rfl, List.Subset.refl _⟩
  refine ⟨fun s => ?_, fun u => ?_, fun u => ?_⟩
  · rw [hthread, hkeys, ops_update, update_apply]
    split_ifs with hs
    · exact hs ▸ hkey
    · exact (h.keys s).of_update hop (hleave s hs) (hcome s hs)
  · rw [hthread, update_apply]
    split_ifs
    · exact hsound
    · exact h.ops u
  · rw [hthread, hlastSet, hvisits, update_apply]
    split_ifs with hut
    · exact hut ▸ (h.threads t).mono hgrow op
    · exact (h.threads u).mono hgrow (w.thread u).op

theorem Inv.nextOp (h : w.Inv) (hop : (w.thread t).op = q) (hsafe : w.Safe (.next t))
    (hstep : w.nextOp t q = .ok w') : w'.Inv := by
  have hsound := h.ops t
  unfold Safe at hsafe
  dsimp only at hsafe
  rw [hop] at hsound hsafe
  have hne : ∀ {s slot : Fin slots}, s ≠ slot → some slot ≠ some s := fun hs heq =>
    hs (Option.some.inj heq).symm
  cases q with
  | idle => cases hstep
  | createRead dtor slot =>
    unfold TsdWorld.nextOp at hstep
    dsimp only at hstep
    split_ifs at hstep with hfree
    · cases hstep
      exact h.goto (by rw [hop]; rfl) rfl hfree
    · cases hstep
      exact h.createFrom (by rw [hop]; rfl)
  | createCas dtor slot generation =>
    unfold TsdWorld.nextOp at hstep
    dsimp only at hstep
    split_ifs at hstep with hcas
    · cases hstep
      exact h.of_key hop rfl rfl rfl rfl ((h.keys slot).create hcas hsound.1 hsound.2
          fun u hu => hsafe hcas u (by rw [hu]; rfl))
        ((h.keys slot).recorded.le_add_one hcas) (List.subset_cons_self _ _) (fun _ _ => nofun)
        (fun s hs => hne hs) trivial
    · cases hstep
      exact h.createFrom (by rw [hop]; rfl)
  | createStore dtor slot generation =>
    cases hstep
    exact h.of_key hop rfl rfl rfl rfl ((h.keys slot).createStore hop) le_rfl (List.Subset.refl _)
      (fun s hs => hne hs) (fun _ _ => nofun) trivial
  | deleteRead slot =>
    unfold TsdWorld.nextOp at hstep
    dsimp only at hstep
    split_ifs at hstep with hallocated
    · cases hstep
      exact h.goto (by rw [hop]; rfl) rfl hallocated
    · cases hstep
      exact h.finish (by rw [hop]; rfl)
  | deleteCas slot generation =>
    unfold TsdWorld.nextOp at hstep
    dsimp only at hstep
    split_ifs at hstep with hcas
    · cases hstep
      exact h.of_key hop rfl rfl rfl rfl ((h.keys slot).delete hcas hsound
          fun u d hu => hsafe hcas u (by rw [hu]; rfl))
        ((h.keys slot).recorded.le_add_one hcas) (List.Subset.refl _) (fun _ _ => nofun)
        (fun s hs => hne hs) trivial
    · cases hstep
      exact h.finish (by rw [hop]; rfl)
  | deleteStore slot =>
    cases hstep
    exact h.of_key hop rfl rfl rfl rfl ((h.keys slot).deleteStore hop) le_rfl (List.Subset.refl _)
      (fun s hs => hne hs) (fun _ _ => nofun) trivial

omit [DecidableEq θ] in
theorem Inv.values (h : w.Inv) (hlife : (w.thread t).life ≠ .exited) :
    (w.thread t).Values w.tsdKeys (w.lastSet t) := (h.threads t).values hlife

theorem storing_of_isIdle (h : op.isIdle = true) : op.storing = none := by
  cases op with
  | idle => rfl
  | _ => cases h

theorem storing_of_callable {th : TsdThread slots δ ν} (h : th.callable = true) : th.op.storing = none :=
  storing_of_isIdle (Bool.and_eq_true_iff.1 h).1

theorem life_of_callable {life : TsdLife slots δ} (hcallable : life.callable = true)
    {keys : Fin slots → TsdKey δ} {entry entry' : Fin slots → TsdEntry ν}
    {lastSet lastSet' : Fin slots → BitVec 32 → Option ν} {visits : List (TsdVisit slots δ ν)}
    (h : life.Sound keys entry lastSet visits) : life.Sound keys entry' lastSet' visits := by
  cases life with
  | running => exact h
  | exiting frame =>
    obtain ⟨round, slot, didAny, phase⟩ := frame
    refine ⟨h.1, ?_⟩
    cases phase with
    | inDtor => trivial
    | _ => cases hcallable
  | exited => cases hcallable

theorem ne_exited_of_callable {life : TsdLife slots δ} (hcallable : life.callable = true) :
    life ≠ .exited := by
  rintro rfl
  cases hcallable

theorem record_lastSet_self {value : Option ν} : (w.record t slot generation value).lastSet t =
    update (w.lastSet t) slot (update (w.lastSet t slot) generation value) :=
  update_self _ _ _

theorem record_lastSet_of_ne {value : Option ν} {u : θ} (hu : u ≠ t) :
    (w.record t slot generation value).lastSet u = w.lastSet u := update_of_ne hu _ _

theorem Inv.setspecific (h : w.Inv) (hcallable : (w.thread t).callable = true) {value : Option ν}
    {calloc : Bool} : (w.setspecific t slot value calloc).Inv := by
  obtain ⟨hidle, hlife⟩ := Bool.and_eq_true_iff.1 hcallable
  have hleave := storing_of_isIdle hidle
  have hvalues := h.values (ne_exited_of_callable hlife)
  have hthread := h.threads t
  unfold TsdWorld.setspecific
  dsimp only
  split_ifs with hallocated hnull hnomem
  · -- nothing is set yet, so that the record stays as it is
    have hnone : value = w.lastSet t slot (w.tsdKeys slot).generation := by
      rw [hvalues.unset (Option.isNone_iff_eq_none.1 hnull.1)]
      exact Option.isNone_iff_eq_none.1 hnull.2
    have hsame : (w.record t slot (w.tsdKeys slot).generation value).lastSet t = w.lastSet t := by
      rw [record_lastSet_self, update_eq_self_iff, update_eq_self_iff]
      exact hnone
    refine h.of_thread rfl rfl (fun u hu => record_lastSet_of_ne hu) (fun _ _ => rfl) hleave rfl trivial ?_
    change TsdThread.Inv _ _ ((w.record t slot (w.tsdKeys slot).generation value).lastSet t) (w.visits t)
    rw [hsame]
    exact hthread.mono (.refl _) .idle
  · exact h.finish hleave
  · refine h.of_thread rfl rfl (fun u hu => record_lastSet_of_ne hu) (fun _ _ => rfl) hleave hleave
      (h.ops t) ⟨fun _ => ?_, hthread.slots, hthread.correct, life_of_callable hlife hthread.life⟩
    change TsdThread.Values _ _ ((w.record t slot (w.tsdKeys slot).generation value).lastSet t)
    rw [record_lastSet_self]
    exact hvalues.store slot value
  · exact h.finish hleave

omit [DecidableEq θ] in
theorem exitCall_eq_some_iff {d : δ} {x : ν} : w.exitCall t slot dtor = some (d, x) ↔
    dtor = some d ∧ ((w.thread t).entry slot).value = some x ∧
      keyAllocated (w.tsdKeys slot).generation = true ∧
        ((w.thread t).entry slot).generation = (w.tsdKeys slot).generation := by
  unfold exitCall
  dsimp only
  cases dtor with
  | none => exact iff_of_false nofun fun h => by cases h.1
  | some d' =>
    cases ((w.thread t).entry slot).value with
    | none => exact iff_of_false nofun fun h => by cases h.2.1
    | some x' =>
      dsimp only
      split_ifs with hcall
      · rw [Option.some_inj, Prod.mk.injEq, Option.some_inj, Option.some_inj]
        exact ⟨fun h => ⟨h.1, h.2, hcall⟩, fun h => ⟨h.1, h.2.1⟩⟩
      · exact iff_of_false nofun fun h => hcall h.2.2

omit [DecidableEq θ] in
theorem lastSet_eq (h : (w.thread t).Values w.tsdKeys (w.lastSet t))
    (hallocated : keyAllocated (w.tsdKeys slot).generation = true) :
    w.lastSet t slot (w.tsdKeys slot).generation =
      if ((w.thread t).entry slot).generation = (w.tsdKeys slot).generation then
        ((w.thread t).entry slot).value
      else none :=
  h.eq slot _ hallocated le_rfl

omit [DecidableEq θ] in
theorem Inv.visit_correct (h : w.Inv) (hvalues : (w.thread t).Values w.tsdKeys (w.lastSet t))
    {live : Option (KeyRecord δ)}
    (hphase : (ExitPhase.readGeneration dtor live).Sound (w.tsdKeys slot) ((w.thread t).entry slot)) :
    TsdVisit.Correct ⟨slot, (w.tsdKeys slot).generation,
      live.filter fun record => record.generation ∉ (w.tsdKeys slot).deleted,
      w.lastSet t slot (w.tsdKeys slot).generation, w.exitCall t slot dtor⟩ w.tsdKeys := by
  obtain ⟨hdtor, hlive⟩ := hphase
  refine ⟨fun d x hcalled => ?_, fun r hr => ?_⟩
  · obtain ⟨hd, hx, hallocated, hgeneration⟩ := exitCall_eq_some_iff.1 hcalled
    refine ⟨?_, hdtor hgeneration hallocated d hd⟩
    change w.lastSet t slot (w.tsdKeys slot).generation = some x
    rw [lastSet_eq hvalues hallocated, if_pos hgeneration, hx]
  · obtain ⟨hr', hdeleted⟩ := Option.filter_eq_some_iff.1 hr
    rw [decide_eq_true_iff] at hdeleted
    obtain ⟨hmade, hrdtor⟩ := hlive r hr'
    have hgeneration := ((h.keys slot).recorded.not_deleted_iff hmade).1 hdeleted
    have hallocated := (h.keys slot).recorded.allocated r hmade
    rw [hgeneration] at hallocated
    refine ⟨hmade, hgeneration, ?_⟩
    change w.exitCall t slot dtor = match r.dtor, w.lastSet t slot (w.tsdKeys slot).generation with
      | some d, some x => some (d, x)
      | _, _ => none
    rw [lastSet_eq hvalues hallocated, hrdtor]
    unfold exitCall
    dsimp only
    cases dtor with
    | none => rfl
    | some d =>
      by_cases hentry : ((w.thread t).entry slot).generation = (w.tsdKeys slot).generation
      · rw [if_pos hentry]
        cases ((w.thread t).entry slot).value with
        | none => rfl
        | some x => exact if_pos ⟨hallocated, hentry⟩
      · rw [if_neg hentry]
        cases ((w.thread t).entry slot).value with
        | none => rfl
        | some x => exact if_neg fun hcall => hentry hcall.2

theorem Inv.visit (h : w.Inv) (hidle : (w.thread t).op.isIdle = true) {frame : ExitFrame slots δ}
    (hlife : (w.thread t).life = .exiting frame) {live : Option (KeyRecord δ)}
    (hphase : frame.phase = .readGeneration dtor live) : (w.visit t frame dtor live).Inv := by
  have hleave := storing_of_isIdle hidle
  have hvalues := h.values (t := t) (by rw [hlife]; nofun)
  have hthread := h.threads t
  have hsound := hthread.life
  rw [hlife] at hsound
  obtain ⟨hframe, hread⟩ := hsound
  rw [hphase] at hread
  have hrunning : frame.phase.isInDtor = false := by
    rw [hphase]
    rfl
  have hcount := hframe.count
  rw [hrunning, Bool.toNat_false, Nat.add_zero] at hcount
  have hvisit := h.visit_correct hvalues hread
  unfold TsdWorld.visit
  dsimp only
  revert hvisit
  generalize hv : (⟨frame.slot, (w.tsdKeys frame.slot).generation,
    live.filter fun record => record.generation ∉ (w.tsdKeys frame.slot).deleted,
    w.lastSet t frame.slot (w.tsdKeys frame.slot).generation,
    w.exitCall t frame.slot dtor⟩ : TsdVisit slots δ ν) = v
  intro hvisit
  have hslot : v.slot = frame.slot := by rw [← hv]
  have hvcalled : v.called = w.exitCall t frame.slot dtor := by rw [← hv]
  have hslots := hframe.slots_append hrunning hthread.slots hslot
  have hcorrect : ∀ u ∈ w.visits t ++ [v], u.Correct w.tsdKeys := by
    intro u hu
    rcases List.mem_append.1 hu with hu | hu
    · exact hthread.correct u hu
    · rw [List.mem_singleton.1 hu]
      exact hvisit
  have hlength : (w.visits t ++ [v]).length = frame.round * slots + frame.slot + 1 := by
    rw [List.length_append, hcount]
    rfl
  cases hcalled : w.exitCall t frame.slot dtor with
  | some call =>
    obtain ⟨-, -, -, hentry⟩ := exitCall_eq_some_iff.1 hcalled
    rw [if_pos Option.isSome_some]
    refine h.of_thread rfl rfl (fun u hu => record_lastSet_of_ne hu)
      (fun u hu => update_of_ne hu _ _) hleave hleave (h.ops t) ?_
    rw [hentry]
    change TsdThread.Inv _ _ (update w.lastSet t _ t) (update w.visits t _ t)
    rw [update_self, update_self]
    obtain ⟨hle, heq, -⟩ := hvalues.store frame.slot none
    exact ⟨fun _ => ⟨hle, heq, nofun⟩, hslots, hcorrect, ⟨hlength, hframe.round_lt, nofun⟩, trivial⟩
  | none =>
    rw [Option.isSome_none, if_neg Bool.false_ne_true]
    have hcall : frame.didAny = false →
        ∀ u ∈ (w.visits t ++ [v]).drop (frame.round * slots), u.called = none := by
      intro hany u hu
      rw [List.drop_append_of_le_length (by omega)] at hu
      rcases List.mem_append.1 hu with hu | hu
      · exact hframe.noCall hany hrunning u hu
      · rw [List.mem_singleton.1 hu, hvcalled, hcalled]
    have hadvance := hvalues.advance hslots hcorrect hlength hframe.round_lt hcall
    have hop : ((w.thread t).advance frame frame.didAny).op = (w.thread t).op :=
      TsdThread.advance_op
    refine h.of_thread rfl rfl (fun _ _ => rfl) (fun u hu => update_of_ne hu _ _) hleave
      (hop ▸ hleave) (hop ▸ h.ops t) ?_
    change TsdThread.Inv _ _ _ (update w.visits t _ t)
    rw [update_self]
    exact hadvance

theorem Inv.nextExit (h : w.Inv) (hidle : (w.thread t).op.isIdle = true) {life : TsdLife slots δ}
    (hlife : (w.thread t).life = life) (hstep : w.nextExit t life = .ok w') : w'.Inv := by
  cases life with
  | exiting frame =>
    have hthread := h.threads t
    have hsound := hthread.life
    rw [hlife] at hsound
    obtain ⟨hframe, -⟩ := hsound
    unfold TsdWorld.nextExit at hstep
    dsimp only at hstep
    cases hphase : frame.phase with
    | readDtor =>
      rw [hphase] at hstep
      cases hstep
      have hkey := h.keys frame.slot
      obtain ⟨hcount, hround, hcall⟩ := hframe
      rw [hphase] at hcount hcall
      have hleave := storing_of_isIdle hidle
      obtain ⟨hle, heq, hunset⟩ := h.values (t := t) (by rw [hlife]; nofun)
      refine h.of_thread rfl rfl (fun _ _ => rfl) (fun _ _ => rfl) hleave hleave (h.ops t)
        ⟨fun _ => ⟨hle, heq, hunset⟩, hthread.slots, hthread.correct, ⟨hcount, hround, hcall⟩,
          fun _ hallocated d hd => hkey.made_of_dtor hallocated hd, fun r hr => ?_⟩
      have hlive := hkey.live_eq_some_iff.1 hr
      exact ⟨hlive.1, (hkey.dtor_of_live hlive).symm⟩
    | readGeneration dtor live =>
      rw [hphase] at hstep
      cases hstep
      exact h.visit hidle hlife hphase
    | inDtor =>
      rw [hphase] at hstep
      cases hstep
  | _ => cases hstep

theorem Inv.ncTsdExit (h : w.Inv) (hstep : w.step (.ncTsdExit t) = .ok w') : w'.Inv := by
  unfold TsdWorld.step at hstep
  dsimp only at hstep
  split at hstep
  · next hop hlife =>
    have hthread := h.threads t
    have hvisits := hthread.life
    rw [hlife] at hvisits
    have hvisits' : w.visits t = [] := hvisits
    have hleave : (w.thread t).op.storing = none := by
      rw [hop]
      rfl
    obtain ⟨hle, heq, hunset⟩ := h.values (t := t) (by rw [hlife]; nofun)
    split_ifs at hstep with hsome
    · cases hstep
      have hframe : (⟨0, ⟨0, hsome.2⟩, false, .readDtor⟩ : ExitFrame slots δ).Sound (w.visits t) := by
        rw [hvisits']
        refine ⟨(Nat.zero_mul _).symm, Nat.succ_pos _, fun _ _ v hv => ?_⟩
        rw [List.drop_nil] at hv
        cases hv
      exact h.of_thread rfl rfl (fun _ _ => rfl) (fun _ _ => rfl) hleave hleave (h.ops t)
        ⟨fun _ => ⟨hle, heq, hunset⟩, hthread.slots, hthread.correct, hframe, trivial⟩
    · cases hstep
      refine h.of_thread rfl rfl (fun _ _ => rfl) (fun _ _ => rfl) hleave hleave (h.ops t)
        ⟨fun hne => absurd rfl hne, hthread.slots, hthread.correct, .inl ⟨hvisits', fun s g => ?_⟩⟩
      refine hunset ?_ s g
      by_contra hne
      exact hsome ⟨Option.isSome_iff_ne_none.2 hne, s.pos⟩
  · cases hstep

theorem Inv.dtorReturns (h : w.Inv) (hstep : w.step (.dtorReturns t) = .ok w') : w'.Inv := by
  unfold TsdWorld.step at hstep
  dsimp only at hstep
  split at hstep
  · next frame hop hlife =>
    split_ifs at hstep with hphase
    cases hstep
    have hthread := h.threads t
    have hsound := hthread.life
    rw [hlife] at hsound
    obtain ⟨⟨hcount, hround, -⟩, -⟩ := hsound
    rw [hphase] at hcount
    have hvalues := h.values (t := t) (by rw [hlife]; nofun)
    have hidle : ((w.thread t).advance frame true).op = .idle := TsdThread.advance_op.trans hop
    exact h.of_thread rfl rfl (fun _ _ => rfl) (fun _ _ => rfl) (by rw [hop]; rfl) (by rw [hidle]; rfl)
      (by rw [hidle]; trivial) (hvalues.advance hthread.slots hthread.correct hcount hround nofun)
  · cases hstep

theorem Inv.step (h : w.Inv) {a : TsdAction θ δ ν} (hsafe : w.Safe a) (hstep : w.step a = .ok w') :
    w'.Inv := by
  cases a with
  | pthreadKeyCreate t dtor =>
    rw [TsdWorld.step] at hstep
    split_ifs at hstep with hcallable
    cases hstep
    exact h.createFrom (storing_of_callable hcallable)
  | pthreadKeyDelete t key =>
    rw [TsdWorld.step] at hstep
    split_ifs at hstep with hcallable hkey
    · cases hstep
      exact h.goto (storing_of_callable hcallable) rfl trivial
    · cases hstep
      exact h.finish (storing_of_callable hcallable)
  | pthreadSetspecific t key value calloc =>
    rw [TsdWorld.step] at hstep
    split_ifs at hstep with hcallable hkey
    · cases hstep
      exact h.setspecific hcallable
    · cases hstep
      exact h.finish (storing_of_callable hcallable)
  | pthreadGetspecific t key =>
    rw [TsdWorld.step] at hstep
    split_ifs at hstep with hcallable
    cases hstep
    exact h.finish (storing_of_callable hcallable)
  | ncTsdExit t => exact h.ncTsdExit hstep
  | dtorReturns t => exact h.dtorReturns hstep
  | next t =>
    rw [TsdWorld.step] at hstep
    split_ifs at hstep with hidle
    · exact h.nextExit hidle rfl hstep
    · exact h.nextOp rfl hsafe hstep

omit [DecidableEq θ] in
theorem inv_init : (init : TsdWorld slots θ δ ν).Inv := by
  refine ⟨fun s => TsdKey.inv_empty, fun _ => trivial,
    fun t => ⟨fun _ => ⟨fun _ => le_rfl, fun s g hg _ => ?_, fun _ _ _ => rfl⟩, ?_, ?_, rfl⟩⟩
  · change none = if _ then none else none
    rw [ite_self]
  · intro i v hv
    cases hv
  · intro v hv
    cases hv

/-- What holds in a state that a run has reached. -/
structure Sound (w : TsdWorld slots θ δ ν) : Prop where
  getspecific : ∀ t s r, (w.thread t).life ≠ .exited → (w.tsdKeys s).Live r →
    w.getspecific t s = w.lastSet t s r.generation
  oneLive : ∀ s, (w.tsdKeys s).made.Pairwise fun j r =>
    ¬ ((w.tsdKeys s).Live j ∧ (w.tsdKeys s).Live r)
  live : ∀ s r, (w.tsdKeys s).live = some r ↔ (w.tsdKeys s).Live r
  visits : ∀ t, (w.visits t).length ≤ pthreadDestructorIterations * slots
  visitSlots : ∀ t i v, (w.visits t)[i]? = some v → v.slot.val = i % slots
  visitCorrect : ∀ t, ∀ v ∈ w.visits t, v.Correct w.tsdKeys
  finished : ∀ t, (w.thread t).life = .exited → Finished (w.visits t) (w.lastSet t)

omit [DecidableEq θ] in
theorem Inv.getspecific_eq (h : w.Inv) (hlife : (w.thread t).life ≠ .exited) {r : KeyRecord δ}
    (hlive : (w.tsdKeys slot).Live r) : w.getspecific t slot = w.lastSet t slot r.generation := by
  have hrecorded := (h.keys slot).recorded
  have hgeneration := (hrecorded.not_deleted_iff hlive.1).1 hlive.2.2
  have hallocated := hrecorded.allocated r hlive.1
  have hvalues := h.values hlife
  rw [hgeneration] at hallocated ⊢
  rw [lastSet_eq hvalues hallocated]
  unfold getspecific
  rw [dif_pos slot.isLt]
  change (if (w.thread t).tsd.isNone = true ∨
    ((w.thread t).entry slot).generation ≠ (w.tsdKeys slot).generation then none
      else ((w.thread t).entry slot).value) = _
  by_cases hentry : ((w.thread t).entry slot).generation = (w.tsdKeys slot).generation
  · rw [if_pos hentry]
    split_ifs with hnone
    · have hunset := hvalues.unset (Option.isNone_iff_eq_none.1 (hnone.resolve_right (not_not.2 hentry)))
      have hset := lastSet_eq hvalues hallocated
      rw [hunset, if_pos hentry] at hset
      exact hset
    · rfl
  · rw [if_neg hentry, if_pos (.inr hentry)]

omit [DecidableEq θ] in
theorem Inv.sound (h : w.Inv) : w.Sound := by
  refine ⟨fun t s r hlife hlive => h.getspecific_eq hlife hlive, fun s => ?_, fun s r => (h.keys s).live_eq_some_iff, fun t => ?_,
    fun t => (h.threads t).slots, fun t => (h.threads t).correct, fun t hlife => ?_⟩
  · have hrecorded := (h.keys s).recorded
    have hunique := hrecorded.unique
    rw [List.Nodup, List.pairwise_map] at hunique
    refine hunique.imp_of_mem fun {j r} hj hr hne hlive => hne ?_
    have hj' := (hrecorded.not_deleted_iff hj).1 hlive.1.2.2
    exact hj'.trans ((hrecorded.not_deleted_iff hr).1 hlive.2.2.2).symm
  · have hsound := (h.threads t).life
    cases hlife : (w.thread t).life with
    | running =>
      rw [hlife] at hsound
      have hnil : w.visits t = [] := hsound
      rw [hnil]
      exact Nat.zero_le _
    | exiting frame =>
      rw [hlife] at hsound
      obtain ⟨hcount, hround, -⟩ := hsound.1
      have hslot := frame.slot.isLt
      have hbool := Bool.toNat_le frame.phase.isInDtor
      have hmul := Nat.mul_le_mul_right slots hround
      rw [Nat.succ_mul] at hmul
      omega
    | exited =>
      rw [hlife] at hsound
      rcases hsound with ⟨hnil, -⟩ | ⟨last, hlast, hcount, -⟩
      · rw [hnil]
        exact Nat.zero_le _
      · rw [hcount]
        exact Nat.mul_le_mul_right slots hlast
  · have hsound := (h.threads t).life
    rwa [hlife] at hsound

/-- Whatever the order of the threads' accesses, values, slots and destructors are those of the live keys,
as long as no creation takes a slot that a deletion has not done with. -/
theorem tsdSound_of_run {run : List (TsdAction θ δ ν)} (hsafe : Guarded step Safe (init : TsdWorld slots θ δ ν) run)
    (hrun : run.foldlM step init = .ok w) : w.Sound :=
  (hsafe.invariant (fun _ _ _ h hsafe hstep => Inv.step h hsafe hstep) inv_init hrun).sound

end

local instance neZeroThreads : NeZero 2 := ⟨by decide⟩

/-- A key is made and set; the thread exits, and its value is handed to the destructor. -/
def exitRun : List (TsdAction (Fin 2) ℕ ℕ) :=
  [.pthreadKeyCreate 0 (some 7), .next 0, .next 0, .next 0, .pthreadSetspecific 0 0 (some 5) true,
    .ncTsdExit 0, .next 0, .next 0]

theorem tsdSound_of_run_exit : ∃ w : TsdWorld 512 (Fin 2) ℕ ℕ, exitRun.foldlM step init = .ok w ∧
    (w.visits 0).map TsdVisit.called = [some (7, 5)] ∧ w.Sound := by
  obtain ⟨w, hrun, hvisits⟩ := Runs.exists_ok_of_check
    (P := fun w : TsdWorld 512 (Fin 2) ℕ ℕ => (w.visits 0).map TsdVisit.called = [some (7, 5)])
    (fun w => (w.visits 0).map TsdVisit.called = [some (7, 5)])
    (fun _ hcheck => of_decide_eq_true hcheck) (x := exitRun.foldlM step init)
    (by decide +kernel)
  exact ⟨w, hrun, hvisits, tsdSound_of_run (Guarded.of_check (by decide +kernel)) hrun⟩

/-- Between the two steps of its deletion a key's slot is taken for a new key, which thus loses its
destructor. -/
def reuseRun : List (TsdAction (Fin 2) ℕ ℕ) :=
  [.pthreadKeyCreate 0 (some 7), .next 0, .next 0, .next 0, .pthreadKeyDelete 1 0, .next 1, .next 1,
    .pthreadKeyCreate 0 (some 8), .next 0, .next 0, .next 0, .next 1,
    .pthreadSetspecific 0 0 (some 5) true, .ncTsdExit 0, .next 0, .next 0]

theorem not_tsdSound : ¬ ∀ (run : List (TsdAction (Fin 2) ℕ ℕ)) (w : TsdWorld 512 (Fin 2) ℕ ℕ),
    run.foldlM step init = .ok w → w.Sound := by
  intro hclaim
  obtain ⟨w, hrun, hvisits⟩ := Runs.exists_ok_of_check
    (P := fun w : TsdWorld 512 (Fin 2) ℕ ℕ =>
      w.visits 0 = [⟨0, 3, some ⟨3, some 8⟩, some 5, none⟩])
    (fun w => w.visits 0 = [⟨0, 3, some ⟨3, some 8⟩, some 5, none⟩])
    (fun _ hcheck => of_decide_eq_true hcheck) (x := reuseRun.foldlM step init)
    (by decide +kernel)
  have hcorrect := (hclaim reuseRun w hrun).visitCorrect 0 _ (hvisits ▸ List.mem_cons_self)
  obtain ⟨-, -, hcalled⟩ := hcorrect.live _ rfl
  cases hcalled

end TsdWorld

end SandboxingNaCl
