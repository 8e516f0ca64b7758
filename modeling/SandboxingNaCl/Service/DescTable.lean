import SandboxingNaCl.Lib.RefCount
import SandboxingNaCl.Lib.Runs
import SandboxingNaCl.Service.App
import SandboxingNaCl.Service.DynArray

/-!
# The descriptor table

The calls of `sel_ldr.c` and `sys_fdio.c` that share descriptors between the table and the threads.
A step is one region that a lock protects: `desc_mu` is held over several of them, and another
thread can take or drop references meanwhile.
-/

namespace SandboxingNaCl

open Runs Function

def naclMaxFd : ℤ := 4096

/-- Who has called `NaClAppGetDescMu`. -/
inductive GetCaller
  | getDesc
  | dup
  | dup2 (newfd : BitVec 32)
  | close
deriving DecidableEq

/-- Who has called `NaClAppSetDescMu`: with a reference that the table takes over, with `NULL`, or
`NaClSysClose`, which holds a reference of its own. -/
inductive SetCaller
  | give (ndp : ℕ)
  | clear
  | close (ndp : ℕ)
deriving DecidableEq

/-- The argument `ndp` of `NaClAppSetDescMu`. -/
def SetCaller.ndp : SetCaller → Option ℕ
  | .give ndp => some ndp
  | .clear => none
  | .close _ => none

/-- The reference that the caller holds. -/
def SetCaller.owned : SetCaller → Option ℕ
  | .give ndp => some ndp
  | .clear => none
  | .close ndp => some ndp

/-- Where a thread is in a call. -/
inductive DescPoint
  | running
  /-- In `NaClAppGetDescMu`, which has found a descriptor, before `NaClDescRef`. -/
  | found (d : ℕ) (ndp : ℕ) (caller : GetCaller)
  /-- In `NaClSysDup`, before `NaClAppSetDescAvail`. -/
  | dup (ndp : ℕ)
  /-- In `NaClSysDup2`, before `NaClAppSetDesc`. -/
  | dup2 (ndp : ℕ) (newfd : BitVec 32)
  /-- In `NaClAppSetDescMu`, before `NaClDescSafeUnref`. -/
  | replacing (d : ℕ) (result : ℕ) (caller : SetCaller)
  /-- In `NaClAppSetDescMu`, before `DynArraySet`. -/
  | storing (d : ℕ) (caller : SetCaller)
  /-- In `NaClSysClose`, before the last `NaClDescUnref`. -/
  | closing (ndp : ℕ)
deriving DecidableEq

/-- The thread has `desc_mu`. -/
def DescPoint.Inside : DescPoint → Prop
  | .found _ _ _ | .replacing _ _ _ | .storing _ _ => True
  | _ => False

/-- Why a step is not possible. -/
inductive DescRefusal
  | blocked
  /-- `NaClLog(LOG_FATAL, ...)` for want of memory or of numbers. -/
  | exhausted
  | refs (fault : RefCount.Fault)

/-- The table, the descriptors, and the references that threads hold.  `returned` is the call that the
last step has ended. -/
structure DescWorld where
  descTbl : DynArray ℕ
  descMu : Option ℕ
  descs : RefCount.Objects ℕ
  held : List (ℕ × ℕ)
  point : ℕ → DescPoint
  returned : Option (ℕ × SysResult)

/-- What a thread does next. -/
inductive DescAction
  | make (natp ndp : ℕ)
  | getDesc (natp : ℕ) (d : BitVec 32)
  /-- `NaClDescUnref` on a reference that the thread holds. -/
  | unref (natp ndp : ℕ)
  | setDesc (natp : ℕ) (d : BitVec 32) (ndp : Option ℕ)
  | setDescAvail (natp ndp : ℕ)
  | dup (natp : ℕ) (oldfd : BitVec 32)
  | dup2 (natp : ℕ) (oldfd newfd : BitVec 32)
  | close (natp : ℕ) (d : BitVec 32)
  /-- The next step of the call under way.  `host` says whether there is memory. -/
  | advance (natp : ℕ) (host : Bool)

/-- The conversion of a descriptor number to the `size_t` index of the array. -/
def descIndex (d : BitVec 32) : ℕ := (d.signExtend 64).toNat

def liftRefs {α : Type*} : Except RefCount.Fault α → Except DescRefusal α
  | .ok a => .ok a
  | .error .overflow => .error .exhausted
  | .error fault => .error (.refs fault)

namespace DescWorld

def goto (w : DescWorld) (natp : ℕ) (point : DescPoint) : DescWorld :=
  { w with point := Function.update w.point natp point, returned := none }

def finish (w : DescWorld) (natp : ℕ) (r : SysResult) : DescWorld :=
  { w with point := Function.update w.point natp .running, returned := some (natp, r) }

/-- `NaClAppGetDescMu` up to its call of `NaClDescRef`, once `desc_mu` has been taken; it is given back
when there is no descriptor, and the call ends (`NaClAppGetDesc` then returns `NULL`). -/
def naclAppGetDescMu (w : DescWorld) (natp : ℕ) (d : ℕ) (caller : GetCaller) :
    Except DescRefusal DescWorld :=
  if w.descMu ≠ none then
    .error .blocked
  else
    match w.descTbl.get d with
    | none => .ok (w.finish natp (.error .ebadf))
    | some ndp => .ok ({ w with descMu := some natp }.goto natp (.found d ndp caller))

/-- `NaClAppSetDescMu` up to its call of `NaClDescSafeUnref`, with `desc_mu` held. -/
def naclAppSetDescMu (w : DescWorld) (natp : ℕ) (d : ℕ) (caller : SetCaller) : DescWorld :=
  match w.descTbl.get d with
  | some result => w.goto natp (.replacing d result caller)
  | none => w.goto natp (.storing d caller)

def naclAppSetDesc (w : DescWorld) (natp : ℕ) (d : ℕ) (caller : SetCaller) :
    Except DescRefusal DescWorld :=
  if w.descMu ≠ none then
    .error .blocked
  else
    .ok ({ w with descMu := some natp }.naclAppSetDescMu natp d caller)

def naclAppSetDescAvail (w : DescWorld) (natp : ℕ) (ndp : ℕ) : Except DescRefusal DescWorld :=
  if w.descMu ≠ none then
    .error .blocked
  else
    let (pos, descTbl) := w.descTbl.firstAvail
    if 2 ^ 31 - 1 < pos then
      .error .exhausted
    else
      .ok ({ w with descTbl, descMu := some natp }.naclAppSetDescMu natp pos (.give ndp))

/-- `NaClDescRef` in `NaClAppGetDescMu`, and what the caller does before it gives `desc_mu` back. -/
def refFound (w : DescWorld) (natp d ndp : ℕ) (caller : GetCaller) : Except DescRefusal DescWorld :=
  (liftRefs (RefCount.ref (2 ^ 64) w.descs ndp)).map fun descs =>
    let w := { w with descs, held := (natp, ndp) :: w.held }
    match caller with
    | .getDesc => { w with descMu := none }.finish natp (.ok 0)
    | .dup => { w with descMu := none }.goto natp (.dup ndp)
    | .dup2 newfd => { w with descMu := none }.goto natp (.dup2 ndp newfd)
    | .close => w.naclAppSetDescMu natp d (.close ndp)

/-- `NaClDescUnref` on a reference that the thread holds. -/
def dropHeld (w : DescWorld) (natp ndp : ℕ) : Except DescRefusal DescWorld :=
  (liftRefs (RefCount.unref w.descs ndp)).map fun descs =>
    { w with descs, held := w.held.erase (natp, ndp) }.finish natp (.ok 0)

/-- `DynArraySet` in `NaClAppSetDescMu`, and what the caller does after it has given `desc_mu` back. -/
def store (w : DescWorld) (natp d : ℕ) (caller : SetCaller) (host : Bool) :
    Except DescRefusal DescWorld :=
  match w.descTbl.set d caller.ndp host with
  | none => .error .exhausted
  | some descTbl =>
    match caller with
    | .give ndp =>
      .ok ({ w with descTbl, descMu := none, held := w.held.erase (natp, ndp) }.finish natp
        (.ok d))
    | .clear => .ok ({ w with descTbl, descMu := none }.finish natp (.ok d))
    | .close ndp => .ok ({ w with descTbl, descMu := none }.goto natp (.closing ndp))

/-- The next step of a call. -/
def advance (w : DescWorld) (natp : ℕ) (host : Bool) : Except DescRefusal DescWorld :=
  match w.point natp with
  | .running => .error .blocked
  | .found d ndp caller => w.refFound natp d ndp caller
  | .dup ndp => w.naclAppSetDescAvail natp ndp
  | .dup2 ndp newfd => w.naclAppSetDesc natp (descIndex newfd) (.give ndp)
  | .replacing d result caller =>
    (liftRefs (RefCount.unref w.descs result)).map fun descs =>
      { w with descs }.goto natp (.storing d caller)
  | .storing d caller => w.store natp d caller host
  | .closing ndp => w.dropHeld natp ndp

/-- A thread that is in no call makes one.  The references it gives away are its own. -/
def call (w : DescWorld) : DescAction → Except DescRefusal DescWorld
  | .make natp ndp =>
    if ndp ∈ w.descs.created then
      .error .blocked
    else
      .ok ({ w with descs := RefCount.create w.descs ndp, held := (natp, ndp) :: w.held }.finish
        natp (.ok 0))
  | .getDesc natp d => w.naclAppGetDescMu natp (descIndex d) .getDesc
  | .unref natp ndp =>
    if (natp, ndp) ∈ w.held then w.dropHeld natp ndp else .error .blocked
  | .setDesc natp d none => w.naclAppSetDesc natp (descIndex d) .clear
  | .setDesc natp d (some ndp) =>
    if (natp, ndp) ∈ w.held then w.naclAppSetDesc natp (descIndex d) (.give ndp)
    else .error .blocked
  | .setDescAvail natp ndp =>
    if (natp, ndp) ∈ w.held then w.naclAppSetDescAvail natp ndp else .error .blocked
  -- `NaClSysDup`
  | .dup natp oldfd => w.naclAppGetDescMu natp (descIndex oldfd) .dup
  -- `NaClSysDup2`
  | .dup2 natp oldfd newfd =>
    if newfd.toInt < 0 then
      .ok (w.finish natp (.error .einval))
    else if naclMaxFd ≤ newfd.toInt then
      .ok (w.finish natp (.error .einval))
    else
      w.naclAppGetDescMu natp (descIndex oldfd) (.dup2 newfd)
  -- `NaClSysClose`
  | .close natp d => w.naclAppGetDescMu natp (descIndex d) .close
  | .advance _ _ => .error .blocked

def thread : DescAction → ℕ
  | .make natp _ | .getDesc natp _ | .unref natp _ | .setDesc natp _ _ | .setDescAvail natp _
  | .dup natp _ | .dup2 natp _ _ | .close natp _ | .advance natp _ => natp

def step (w : DescWorld) : DescAction → Except DescRefusal DescWorld
  | .advance natp host => w.advance natp host
  | a => if w.point (thread a) = .running then w.call a else .error .blocked

/-- An empty table, and no descriptors. -/
structure Initial (w : DescWorld) : Prop where
  descTbl : ∃ initialSize, DynArray.ctor initialSize true = some w.descTbl
  descMu : w.descMu = none
  descs : w.descs = ⟨[], fun _ => none, []⟩
  held : w.held = []
  point : ∀ natp, w.point natp = .running

/-! ## Owners -/

/-- The index that `NaClAppSetDescMu` is about to write to: it has dropped the reference of the slot. -/
def storing (w : DescWorld) : Option ℕ :=
  w.descMu.bind fun natp =>
    match w.point natp with
    | .storing d _ => some d
    | _ => none

/-- The number of slots of the table that hold a descriptor, without the one that is about to be
written to. -/
def slots (w : DescWorld) (ndp : ℕ) : ℕ :=
  w.descTbl.slots ndp - if w.storing.bind w.descTbl.get = some ndp then 1 else 0

def outstanding (w : DescWorld) (ndp : ℕ) : ℕ := w.held.countP (·.2 = ndp)

/-- What a thread relies on at a point of a call. -/
def PointSound (w : DescWorld) (natp : ℕ) : DescPoint → Prop
  | .running => True
  | .found d ndp _ => w.descTbl.get d = some ndp
  | .dup ndp => (natp, ndp) ∈ w.held
  | .dup2 ndp _ => (natp, ndp) ∈ w.held
  | .replacing d result caller =>
    w.descTbl.get d = some result ∧ ∀ ndp ∈ caller.owned, (natp, ndp) ∈ w.held
  | .storing _ caller => ∀ ndp ∈ caller.owned, (natp, ndp) ∈ w.held
  | .closing ndp => (natp, ndp) ∈ w.held

/-- The count of a descriptor is the number of slots that hold it and of references that threads hold. -/
structure Inv (w : DescWorld) : Prop where
  table : w.descTbl.WellFormed
  refs : RefCount.Sound w.descs fun ndp => w.slots ndp + w.outstanding ndp
  mutex : ∀ natp, (w.point natp).Inside ↔ w.descMu = some natp
  points : ∀ natp, w.PointSound natp (w.point natp)

section

variable {w w' : DescWorld} {natp natp' d ndp : ℕ} {point : DescPoint}

theorem slots_of_storing_none (h : w.storing = none) (ndp : ℕ) :
    w.slots ndp = w.descTbl.slots ndp := by
  unfold slots
  rw [h]
  simp

theorem slots_of_storing (h : w.storing = some d) (ndp : ℕ) :
    w.slots ndp + (if w.descTbl.get d = some ndp then 1 else 0) = w.descTbl.slots ndp := by
  unfold slots
  rw [h, Option.bind_some]
  by_cases hd : w.descTbl.get d = some ndp
  · have := DynArray.slots_pos hd
    rw [if_pos hd]
    omega
  · rw [if_neg hd]
    omega

theorem storing_of_point (hmu : w.descMu = some natp) :
    w.storing = match w.point natp with
      | .storing d _ => some d
      | _ => none := by
  unfold storing
  rw [hmu]
  rfl

theorem storing_of_unlocked (hmu : w.descMu = none) : w.storing = none := by
  unfold storing
  rw [hmu]
  rfl

theorem storing_goto (hmu : w.descMu = some natp) (point : DescPoint) :
    (w.goto natp point).storing = match point with
      | .storing d _ => some d
      | _ => none := by
  have hgoto : (w.goto natp point).descMu = some natp := hmu
  rw [storing_of_point hgoto]
  simp only [goto, update_self]

theorem slots_finish {w₁ : DescWorld} (hmu₁ : w₁.descMu = w.descMu) (hpoint : w₁.point = w.point)
    (htbl : w₁.descTbl = w.descTbl) (hmu : w.descMu ≠ some natp) (r : SysResult) (ndp : ℕ) :
    (w₁.finish natp r).slots ndp = w.slots ndp := by
  have hstoring : (w₁.finish natp r).storing = w.storing := by
    unfold storing finish
    rw [hmu₁, hpoint]
    cases hholder : w.descMu with
    | none => rfl
    | some t =>
      have ht : t ≠ natp := fun ht => hmu (ht ▸ hholder)
      simp only [Option.bind_some, update_of_ne ht]
  unfold slots
  rw [hstoring, show (w₁.finish natp r).descTbl = w.descTbl from htbl]

theorem PointSound.frame (h : w.PointSound natp point)
    (htbl : point.Inside → w'.descTbl = w.descTbl)
    (hheld : ∀ ndp, (natp, ndp) ∈ w.held → (natp, ndp) ∈ w'.held) : w'.PointSound natp point := by
  cases point with
  | running => trivial
  | found d ndp caller =>
    unfold PointSound
    rw [htbl trivial]
    exact h
  | dup ndp => exact hheld _ h
  | dup2 ndp newfd => exact hheld _ h
  | replacing d result caller =>
    refine ⟨?_, fun ndp hndp => hheld _ (h.2 ndp hndp)⟩
    rw [htbl trivial]
    exact h.1
  | storing d caller => exact fun ndp hndp => hheld _ (h ndp hndp)
  | closing ndp => exact hheld _ h

theorem outstanding_cons (held : List (ℕ × ℕ)) (natp ndp a : ℕ) :
    ((natp, ndp) :: held).countP (·.2 = a) = held.countP (·.2 = a) + if ndp = a then 1 else 0 := by
  rw [List.countP_cons]
  simp

theorem outstanding_erase {held : List (ℕ × ℕ)} (h : (natp, ndp) ∈ held) (a : ℕ) :
    (held.erase (natp, ndp)).countP (·.2 = a) + (if ndp = a then 1 else 0) =
      held.countP (·.2 = a) := by
  rw [(List.perm_cons_erase h).countP_eq, outstanding_cons]

theorem outstanding_pos (h : (natp, ndp) ∈ w.held) : 0 < w.outstanding ndp :=
  List.countP_pos_iff.2 ⟨_, h, by simp⟩

theorem Inv.of_step {natp : ℕ} (h : w.Inv) (point : DescPoint)
    (hpoint : w'.point = update w.point natp point)
    (htable : w'.descTbl.WellFormed)
    (hrefs : RefCount.Sound w'.descs fun ndp => w'.slots ndp + w'.outstanding ndp)
    (hmu : point.Inside ↔ w'.descMu = some natp)
    (hother : ∀ t, t ≠ natp → (w'.descMu = some t ↔ w.descMu = some t))
    (htbl : ∀ t, t ≠ natp → w.descMu = some t → w'.descTbl = w.descTbl)
    (hheld : ∀ t ndp, t ≠ natp → (t, ndp) ∈ w.held → (t, ndp) ∈ w'.held)
    (hsound : w'.PointSound natp point) : w'.Inv := by
  refine ⟨htable, hrefs, fun t => ?_, fun t => ?_⟩
  · rw [hpoint]
    by_cases ht : t = natp
    · subst ht
      rw [update_self]
      exact hmu
    · rw [update_of_ne ht, hother t ht]
      exact h.mutex t
  · rw [hpoint]
    by_cases ht : t = natp
    · subst ht
      rw [update_self]
      exact hsound
    · rw [update_of_ne ht]
      exact (h.points t).frame (fun hin => htbl t ht ((h.mutex t).1 hin)) (fun ndp => hheld t ndp ht)

end

/-! ## Steps -/

/-- A step that has touched no descriptor that is gone keeps the invariant, and a call that returns an
error has changed nothing. -/
def Good (w : DescWorld) : Except DescRefusal DescWorld → Prop
  | .error (.refs _) => False
  | .error _ => True
  | .ok w' => w'.Inv ∧ ∀ natp errno, w'.returned = some (natp, .error errno) →
      w.point natp = .running ∧ w'.descTbl = w.descTbl ∧ w'.descs = w.descs ∧ w'.held = w.held

section

variable {w : DescWorld} {natp d ndp : ℕ}

theorem refs_of_unlocked (h : w.Inv) (hmu : w.descMu = none) :
    RefCount.Sound w.descs fun a => w.descTbl.slots a + w.outstanding a :=
  h.refs.congr fun a => by rw [slots_of_storing_none (storing_of_unlocked hmu)]

theorem good_naclAppGetDescMu (h : w.Inv) (hpoint : w.point natp = .running) (d : ℕ)
    (caller : GetCaller) : w.Good (w.naclAppGetDescMu natp d caller) := by
  unfold naclAppGetDescMu
  by_cases hmu : w.descMu = none
  swap
  · rw [if_pos hmu]
    trivial
  rw [if_neg (not_not.2 hmu)]
  have hrefs := refs_of_unlocked h hmu
  cases hget : w.descTbl.get d with
  | none =>
    refine ⟨h.of_step _ rfl h.table ?_ ?_ ?_ ?_ ?_ trivial, fun t errno ht => ?_⟩
    · exact hrefs.congr fun a => by
        rw [slots_of_storing_none]
        · rfl
        · exact storing_of_unlocked hmu
    · simp [DescPoint.Inside, finish, hmu]
    · exact fun t ht => Iff.rfl
    · exact fun t ht hmu' => rfl
    · exact fun t a ht hmem => hmem
    · simp only [finish, Option.some.injEq, Prod.mk.injEq] at ht
      obtain ⟨rfl, -⟩ := ht
      exact ⟨hpoint, rfl, rfl, rfl⟩
  | some ndp =>
    refine ⟨h.of_step _ rfl h.table ?_ ?_ ?_ ?_ ?_ hget, fun t errno ht => ?_⟩
    · exact hrefs.congr fun a => by
        rw [slots_of_storing_none (storing_goto rfl _)]
        rfl
    · simp [DescPoint.Inside, goto]
    · intro t ht
      simp [goto, hmu, ht.symm]
    · intro t ht hmu'
      rfl
    · exact fun t a ht hmem => hmem
    · simp [goto] at ht

theorem inv_naclAppSetDescMu {w₁ : DescWorld} {caller : SetCaller} (h : w.Inv)
    (hmu : w.descMu = none ∨ w.descMu = some natp) (hpoint : w₁.point = w.point)
    (hmu₁ : w₁.descMu = some natp) (htable : w₁.descTbl.WellFormed)
    (hrefs : RefCount.Sound w₁.descs fun a => w₁.descTbl.slots a + w₁.outstanding a)
    (hheld : ∀ t a, t ≠ natp → (t, a) ∈ w.held → (t, a) ∈ w₁.held)
    (howned : ∀ a ∈ caller.owned, (natp, a) ∈ w₁.held) :
    (w₁.naclAppSetDescMu natp d caller).Inv ∧
      (w₁.naclAppSetDescMu natp d caller).returned = none := by
  have hnot : ∀ t, t ≠ natp → w.descMu ≠ some t := by
    intro t ht
    rcases hmu with hmu | hmu <;> simp [hmu, ht.symm]
  unfold naclAppSetDescMu
  cases hget : w₁.descTbl.get d with
  | none =>
    have hstoring : (w₁.goto natp (.storing d caller)).storing = some d := storing_goto hmu₁ _
    have hslots : ∀ a, (w₁.goto natp (.storing d caller)).slots a = w₁.descTbl.slots a := by
      intro a
      have hadd := slots_of_storing hstoring a
      rwa [if_neg] at hadd
      simp [goto, hget]
    refine ⟨h.of_step (.storing d caller) (by rw [← hpoint]; rfl) htable ?_ ?_ ?_ ?_ hheld
      howned, rfl⟩
    · exact hrefs.congr fun a => by
        rw [hslots]
        rfl
    · simp [DescPoint.Inside, goto, hmu₁]
    · intro t ht
      simp [goto, hmu₁, ht.symm, hnot t ht]
    · intro t ht hmu'
      exact absurd hmu' (hnot t ht)
  | some result =>
    refine ⟨h.of_step (.replacing d result caller) (by rw [← hpoint]; rfl) htable ?_ ?_ ?_
      ?_ hheld ⟨hget, howned⟩, rfl⟩
    · exact hrefs.congr fun a => by
        rw [slots_of_storing_none (storing_goto hmu₁ _)]
        rfl
    · simp [DescPoint.Inside, goto, hmu₁]
    · intro t ht
      simp [goto, hmu₁, ht.symm, hnot t ht]
    · intro t ht hmu'
      exact absurd hmu' (hnot t ht)

theorem good_of_inv {w' : DescWorld} (h : w'.Inv) (hreturned : w'.returned = none) :
    w.Good (.ok w') :=
  ⟨h, fun t errno ht => by rw [hreturned] at ht; cases ht⟩

theorem good_naclAppSetDesc {caller : SetCaller} (h : w.Inv)
    (howned : ∀ a ∈ caller.owned, (natp, a) ∈ w.held) (d : ℕ) :
    w.Good (w.naclAppSetDesc natp d caller) := by
  unfold naclAppSetDesc
  by_cases hmu : w.descMu = none
  · have hrefs := refs_of_unlocked h hmu
    rw [if_neg (not_not.2 hmu)]
    obtain ⟨hinv, hreturned⟩ := @inv_naclAppSetDescMu w natp d { w with descMu := some natp } caller
      h (Or.inl hmu) rfl rfl h.table hrefs (fun _ _ _ hmem => hmem) howned
    exact good_of_inv hinv hreturned
  · rw [if_pos hmu]
    trivial

theorem good_naclAppSetDescAvail (h : w.Inv) (howned : (natp, ndp) ∈ w.held) :
    w.Good (w.naclAppSetDescAvail natp ndp) := by
  unfold naclAppSetDescAvail
  by_cases hmu : w.descMu = none
  · rw [if_neg (not_not.2 hmu)]
    obtain ⟨hfirst, hslots⟩ := DynArray.firstAvail_spec h.table
    obtain ⟨result, hresult⟩ : ∃ r, r = w.descTbl.firstAvail := ⟨_, rfl⟩
    rw [← hresult] at hfirst hslots ⊢
    obtain ⟨pos, descTbl⟩ := result
    dsimp only at hfirst hslots ⊢
    have hrefs : RefCount.Sound w.descs fun a => descTbl.slots a + w.outstanding a :=
      (refs_of_unlocked h hmu).congr fun a => by rw [hslots a]
    by_cases hpos : 2 ^ 31 - 1 < pos
    · rw [if_pos hpos]
      trivial
    · rw [if_neg hpos]
      obtain ⟨hinv, hreturned⟩ := @inv_naclAppSetDescMu w natp pos
        { w with descTbl, descMu := some natp } (.give ndp) h (Or.inl hmu) rfl rfl hfirst hrefs
        (fun _ _ _ hmem => hmem) (fun a ha => by cases ha; exact howned)
      exact good_of_inv hinv hreturned
  · rw [if_pos hmu]
    trivial

theorem good_refFound {caller : GetCaller} (h : w.Inv)
    (hpoint : w.point natp = .found d ndp caller) : w.Good (w.refFound natp d ndp caller) := by
  have hmu : w.descMu = some natp := (h.mutex natp).1 (by rw [hpoint]; trivial)
  have hget : w.descTbl.get d = some ndp := by
    have := h.points natp
    rwa [hpoint] at this
  have hstoring : w.storing = none := by
    rw [storing_of_point hmu, hpoint]
  have hslots := DynArray.slots_pos hget
  have hrefs : RefCount.Sound w.descs fun a => w.descTbl.slots a + w.outstanding a :=
    h.refs.congr fun a => by rw [slots_of_storing_none hstoring]
  have hnot : ∀ t, t ≠ natp → w.descMu ≠ some t := fun t ht => by simp [hmu, ht.symm]
  obtain ⟨held, hheld⟩ : ∃ held, held = (natp, ndp) :: w.held := ⟨_, rfl⟩
  have howners : (fun a => w.descTbl.slots a + held.countP (·.2 = a)) =
      update (fun a => w.descTbl.slots a + w.outstanding a) ndp
        (w.descTbl.slots ndp + w.outstanding ndp + 1) := by
    funext a
    rw [hheld, outstanding_cons]
    by_cases ha : a = ndp
    · subst ha
      rw [update_self, if_pos rfl]
      unfold outstanding
      omega
    · rw [update_of_ne ha, if_neg (Ne.symm ha)]
      rfl
  have hmem : ∀ t a, t ≠ natp → (t, a) ∈ w.held → (t, a) ∈ held := fun t a _ hin =>
    hheld ▸ List.mem_cons_of_mem _ hin
  have hown : (natp, ndp) ∈ held := hheld ▸ List.mem_cons_self
  unfold refFound
  rw [← hheld]
  rcases hrefs.ref (2 ^ 64) (by omega) howners with hover | ⟨descs, hok, -, hdescs⟩
  · rw [hover]
    trivial
  rw [hok]
  -- `desc_mu` is given back and the thread goes on at `point`
  have hleave : ∀ (w' : DescWorld) (point : DescPoint), w'.point = update w.point natp point →
      w'.descTbl = w.descTbl → w'.descMu = none → w'.descs = descs → w'.held = held →
      ¬ point.Inside → w'.PointSound natp point → w'.Inv := by
    intro w' point hpt htbl hmu' hdescs' hheld' hin hsound
    refine h.of_step _ hpt (htbl ▸ h.table) ?_ ?_ ?_ ?_ ?_ hsound
    · rw [hdescs']
      exact hdescs.congr fun a => by
        rw [slots_of_storing_none (storing_of_unlocked hmu'), htbl, outstanding, hheld']
    · simp [hin, hmu']
    · intro t ht
      simp [hmu', hnot t ht]
    · exact fun t ht hmu'' => absurd hmu'' (hnot t ht)
    · rw [hheld']
      exact hmem
  cases caller with
  | getDesc =>
    refine ⟨hleave _ .running rfl rfl rfl rfl rfl id trivial, fun t errno ht => ?_⟩
    simp [finish] at ht
  | dup => exact good_of_inv (hleave _ (.dup ndp) rfl rfl rfl rfl rfl id hown) rfl
  | dup2 newfd => exact good_of_inv (hleave _ (.dup2 ndp newfd) rfl rfl rfl rfl rfl id hown) rfl
  | close =>
    obtain ⟨hinv, hreturned⟩ := @inv_naclAppSetDescMu w natp d { w with descs, held } (.close ndp) h
      (Or.inr hmu) rfl hmu h.table hdescs hmem (fun a ha => by cases ha; exact hown)
    exact good_of_inv hinv hreturned

theorem good_dropHeld (h : w.Inv) (howned : (natp, ndp) ∈ w.held)
    (hout : ¬ (w.point natp).Inside) : w.Good (w.dropHeld natp ndp) := by
  have hmu : w.descMu ≠ some natp := fun hmu => hout ((h.mutex natp).2 hmu)
  obtain ⟨held, hheld⟩ : ∃ held, held = w.held.erase (natp, ndp) := ⟨_, rfl⟩
  have herase := outstanding_erase howned
  rw [← hheld] at herase
  have hpos := outstanding_pos howned
  have howners : (fun a => w.slots a + held.countP (·.2 = a)) =
      update (fun a => w.slots a + w.outstanding a) ndp
        (w.slots ndp + w.outstanding ndp - 1) := by
    funext a
    have := herase a
    by_cases ha : a = ndp
    · subst ha
      rw [if_pos rfl] at this
      rw [update_self]
      unfold outstanding
      omega
    · rw [if_neg (Ne.symm ha)] at this
      rw [update_of_ne ha]
      unfold outstanding
      omega
  obtain ⟨descs, hok, -, hdescs⟩ := h.refs.unref (by omega) howners
  unfold dropHeld
  rw [hok, ← hheld]
  refine ⟨h.of_step .running rfl h.table ?_ ?_ (fun t _ => Iff.rfl) (fun t _ _ => rfl) ?_
    trivial, fun t errno ht => ?_⟩
  · refine hdescs.congr fun a => ?_
    rw [@slots_finish w natp { w with descs, held } rfl rfl rfl hmu]
    rfl
  · simpa [DescPoint.Inside, finish] using hmu
  · intro t a ht hmem
    change (t, a) ∈ held
    rw [hheld]
    exact (List.mem_erase_of_ne (by simp [ht])).2 hmem
  · simp [finish] at ht

theorem good_replacing {result : ℕ} {caller : SetCaller} (h : w.Inv)
    (hpoint : w.point natp = .replacing d result caller) :
    w.Good ((liftRefs (RefCount.unref w.descs result)).map fun descs =>
      { w with descs }.goto natp (.storing d caller)) := by
  have hmu : w.descMu = some natp := (h.mutex natp).1 (by rw [hpoint]; trivial)
  obtain ⟨hget, howned⟩ : w.descTbl.get d = some result ∧
      ∀ a ∈ caller.owned, (natp, a) ∈ w.held := by
    have := h.points natp
    rwa [hpoint] at this
  have hstoring : w.storing = none := by
    rw [storing_of_point hmu, hpoint]
  have hpos := DynArray.slots_pos hget
  have hslots := slots_of_storing_none hstoring
  have hnot : ∀ t, t ≠ natp → w.descMu ≠ some t := fun t ht => by simp [hmu, ht.symm]
  obtain ⟨after, hafter⟩ : ∃ after : RefCount.Objects ℕ → DescWorld,
    after = fun descs => { w with descs }.goto natp (.storing d caller) := ⟨_, rfl⟩
  have hslots' : ∀ descs a, (after descs).slots a + (if result = a then 1 else 0) =
      w.slots a := by
    intro descs a
    have hstoring' : (after descs).storing = some d := by
      rw [hafter]
      exact storing_goto hmu _
    have hadd := slots_of_storing hstoring' a
    have htbl : (after descs).descTbl = w.descTbl := by rw [hafter]; rfl
    simp only [htbl, hget, Option.some_inj] at hadd
    rw [hslots, ← hadd]
  have howners : ∀ descs, (fun a => (after descs).slots a + w.outstanding a) =
      update (fun a => w.slots a + w.outstanding a) result
        (w.slots result + w.outstanding result - 1) := by
    intro descs
    funext a
    have := hslots' descs a
    by_cases ha : a = result
    · subst ha
      rw [if_pos rfl] at this
      rw [update_self]
      omega
    · rw [if_neg (Ne.symm ha)] at this
      rw [update_of_ne ha]
      omega
  obtain ⟨descs, hok, -, hdescs⟩ := h.refs.unref (by rw [hslots]; omega) (howners w.descs)
  rw [hok]
  refine good_of_inv (h.of_step (.storing d caller) rfl h.table ?_ ?_ ?_ ?_
    (fun _ _ _ hmem => hmem) howned) rfl
  · refine hdescs.congr fun a => ?_
    have h₁ := congrFun (howners descs) a
    have h₂ := congrFun (howners w.descs) a
    rw [h₂, ← h₁, hafter]
    rfl
  · simp [DescPoint.Inside, goto, hmu]
  · intro t ht
    exact Iff.rfl
  · exact fun t ht hmu' => absurd hmu' (hnot t ht)

theorem good_store {caller : SetCaller} (h : w.Inv) (hpoint : w.point natp = .storing d caller)
    (host : Bool) : w.Good (w.store natp d caller host) := by
  have hmu : w.descMu = some natp := (h.mutex natp).1 (by rw [hpoint]; trivial)
  have howned : ∀ a ∈ caller.owned, (natp, a) ∈ w.held := by
    have := h.points natp
    rwa [hpoint] at this
  have hstoring : w.storing = some d := by
    rw [storing_of_point hmu, hpoint]
  have hnot : ∀ t, t ≠ natp → w.descMu ≠ some t := fun t ht => by simp [hmu, ht.symm]
  unfold store
  cases hset : w.descTbl.set d caller.ndp host with
  | none => trivial
  | some descTbl =>
    have htable := (DynArray.set_spec h.table hset).1
    have hslots : ∀ a, descTbl.slots a = w.slots a + if caller.ndp = some a then 1 else 0 := by
      intro a
      have hadd := slots_of_storing hstoring a
      have := DynArray.slots_set h.table hset a
      omega
    -- `desc_mu` is given back, and a reference that was given away is now the table's
    have hleave : ∀ (w' : DescWorld) (point : DescPoint),
        w'.point = update w.point natp point → w'.descTbl = descTbl → w'.descMu = none →
        w'.descs = w.descs → (∀ a, w'.outstanding a +
          (if caller.ndp = some a then 1 else 0) = w.outstanding a) →
        (∀ t a, t ≠ natp → (t, a) ∈ w.held → (t, a) ∈ w'.held) → ¬ point.Inside →
        w'.PointSound natp point → w'.Inv := by
      intro w' point hpt htbl hmu' hdescs' hout hmem hin hsound
      refine h.of_step _ hpt (htbl ▸ htable) ?_ ?_ ?_ ?_ hmem hsound
      · rw [hdescs']
        refine h.refs.congr fun a => ?_
        rw [slots_of_storing_none (storing_of_unlocked hmu'), htbl, hslots]
        have := hout a
        omega
      · simp [hin, hmu']
      · intro t ht
        simp [hmu', hnot t ht]
      · exact fun t ht hmu'' => absurd hmu'' (hnot t ht)
    cases caller with
    | give ndp =>
      refine ⟨hleave _ .running rfl rfl rfl rfl (fun a => ?_) (fun t a ht hmem => ?_) id trivial,
        fun t errno ht => by simp [finish] at ht⟩
      · have := outstanding_erase (howned ndp rfl) a
        simpa [SetCaller.ndp, finish, outstanding] using this
      · exact (List.mem_erase_of_ne (by simp [ht])).2 hmem
    | clear =>
      refine ⟨hleave _ .running rfl rfl rfl rfl (fun a => ?_) (fun _ _ _ hmem => hmem) id trivial,
        fun t errno ht => by simp [finish] at ht⟩
      simp [SetCaller.ndp, finish, outstanding]
    | close ndp =>
      refine good_of_inv (hleave _ (.closing ndp) rfl rfl rfl rfl (fun a => ?_)
        (fun _ _ _ hmem => hmem) id (howned ndp rfl)) rfl
      simp [SetCaller.ndp, goto, outstanding]

theorem good_make (h : w.Inv) (hpoint : w.point natp = .running) (hnew : ndp ∉ w.descs.created) :
    w.Good (.ok ({ w with
      descs := RefCount.create w.descs ndp, held := (natp, ndp) :: w.held }.finish natp (.ok 0))) := by
  have hzero : w.slots ndp + w.outstanding ndp = 0 := by
    rw [← h.refs.count_eq_none]
    by_contra hcount
    exact hnew (h.refs.created ndp hcount)
  have howners : (fun a => w.slots a + ((natp, ndp) :: w.held).countP (·.2 = a)) =
      update (fun a => w.slots a + w.outstanding a) ndp 1 := by
    funext a
    rw [outstanding_cons]
    by_cases ha : a = ndp
    · subst ha
      rw [update_self, if_pos rfl]
      unfold outstanding at hzero
      omega
    · rw [update_of_ne ha, if_neg (Ne.symm ha)]
      rfl
  have hmu : w.descMu ≠ some natp := by
    rw [Ne, ← h.mutex, hpoint]
    exact id
  refine ⟨h.of_step .running rfl h.table ?_ ?_ (fun t _ => Iff.rfl) (fun t _ _ => rfl)
    (fun _ _ _ hmem => List.mem_cons_of_mem _ hmem) trivial, fun t errno ht => ?_⟩
  · refine (h.refs.create hnew howners).congr fun a => ?_
    rw [slots_finish _ _ _ hmu]
    · rfl
    · rfl
    · rfl
    · rfl
  · simpa [DescPoint.Inside, finish] using hmu
  · simp [finish] at ht

theorem good_einval (h : w.Inv) (hpoint : w.point natp = .running) (errno : NaClAbiErrno) :
    w.Good (.ok (w.finish natp (.error errno))) := by
  have hmu : w.descMu ≠ some natp := by
    rw [Ne, ← h.mutex, hpoint]
    exact id
  have hsame : update w.point natp .running = w.point := by
    rw [← hpoint, update_eq_self]
  have hinv : (w.finish natp (.error errno)).Inv := by
    unfold finish
    rw [hsame]
    exact ⟨h.table, h.refs, h.mutex, h.points⟩
  refine ⟨hinv, fun t errno' ht => ?_⟩
  simp only [finish, Option.some.injEq, Prod.mk.injEq] at ht
  obtain ⟨rfl, -⟩ := ht
  exact ⟨hpoint, rfl, rfl, rfl⟩

theorem good_advance (h : w.Inv) (natp : ℕ) (host : Bool) : w.Good (w.advance natp host) := by
  have hsound := h.points natp
  unfold advance
  cases hpoint : w.point natp with
  | running => trivial
  | found d ndp caller => exact good_refFound h hpoint
  | dup ndp =>
    rw [hpoint] at hsound
    exact good_naclAppSetDescAvail h hsound
  | dup2 ndp newfd =>
    rw [hpoint] at hsound
    exact good_naclAppSetDesc h (fun a ha => by cases ha; exact hsound) _
  | replacing d result caller => exact good_replacing h hpoint
  | storing d caller => exact good_store h hpoint host
  | closing ndp =>
    rw [hpoint] at hsound
    exact good_dropHeld h hsound (by rw [hpoint]; exact id)

theorem good_ite {c : Prop} [Decidable c] {r : Except DescRefusal DescWorld} (h : c → w.Good r) :
    w.Good (if c then r else .error .blocked) := by
  by_cases hc : c
  · rw [if_pos hc]
    exact h hc
  · rw [if_neg hc]
    trivial

theorem good_call (h : w.Inv) {a : DescAction} (hpoint : w.point (thread a) = .running) :
    w.Good (w.call a) := by
  have hout : ¬ (w.point (thread a)).Inside := by rw [hpoint]; exact id
  cases a with
  | make natp ndp =>
    rw [call]
    by_cases hnew : ndp ∈ w.descs.created
    · rw [if_pos hnew]
      trivial
    · rw [if_neg hnew]
      exact good_make h hpoint hnew
  | getDesc natp d => exact good_naclAppGetDescMu h hpoint _ _
  | unref natp ndp =>
    rw [call]
    exact good_ite fun hheld => good_dropHeld h hheld hout
  | setDesc natp d ndp =>
    cases ndp with
    | none => exact good_naclAppSetDesc h (fun a ha => by cases ha) _
    | some ndp =>
      rw [call]
      exact good_ite fun hheld => good_naclAppSetDesc h (fun a ha => by cases ha; exact hheld) _
  | setDescAvail natp ndp =>
    rw [call]
    exact good_ite fun hheld => good_naclAppSetDescAvail h hheld
  | dup natp oldfd => exact good_naclAppGetDescMu h hpoint _ _
  | dup2 natp oldfd newfd =>
    rw [call]
    split_ifs
    · exact good_einval h hpoint _
    · exact good_einval h hpoint _
    · exact good_naclAppGetDescMu h hpoint _ _
  | close natp d => exact good_naclAppGetDescMu h hpoint _ _
  | advance natp host => trivial

theorem good_step (h : w.Inv) (a : DescAction) : w.Good (w.step a) := by
  cases a with
  | advance natp host => exact good_advance h natp host
  | _ => exact good_ite (good_call h)

theorem Initial.inv (h : w.Initial) : w.Inv := by
  obtain ⟨initialSize, hctor⟩ := h.descTbl
  obtain ⟨htable, hslots⟩ := DynArray.wellFormed_ctor hctor
  refine ⟨htable, ?_, fun natp => ?_, fun natp => ?_⟩
  · have howners : ∀ a, w.slots a + w.outstanding a = 0 := by
      intro a
      rw [slots_of_storing_none (storing_of_unlocked h.descMu), DynArray.slots_eq_zero hslots,
        outstanding, h.held]
      rfl
    rw [h.descs]
    exact ⟨fun a => (howners a).symm, nofun, fun a ha => absurd rfl ha, fun a => by simp, .nil⟩
  · rw [h.point, h.descMu]
    exact ⟨False.elim, nofun⟩
  · rw [h.point]
    trivial

theorem Inv.run {w' : DescWorld} {l : List DescAction} (h : w.Inv)
    (hrun : l.foldlM step w = .ok w') : w'.Inv := by
  refine Runs.invariant (fun w a w' hw hstep => ?_) h hrun
  have hgood := good_step hw a
  rw [hstep] at hgood
  exact hgood.1

/-- After any steps of any threads the count of a descriptor is the number of slots that hold it and
of references that threads hold, and it has been destroyed, once, exactly when both are zero.  No
step touches a descriptor that is gone, and a call that returns an error changes nothing. -/
theorem refCounts_of_run {w' : DescWorld} {l : List DescAction} (h : w.Initial)
    (hrun : l.foldlM step w = .ok w') :
    (∀ ndp, (w'.descs.count ndp).getD 0 = w'.slots ndp + w'.outstanding ndp) ∧
      (∀ ndp, ndp ∈ w'.descs.destroyed ↔
        ndp ∈ w'.descs.created ∧ w'.slots ndp = 0 ∧ w'.outstanding ndp = 0) ∧
      w'.descs.destroyed.Nodup ∧
      (w'.descMu = none → ∀ ndp, w'.slots ndp = w'.descTbl.slots ndp) ∧
      (∀ a fault, w'.step a ≠ .error (.refs fault)) ∧
      ∀ a w'' natp errno, w'.step a = .ok w'' → w''.returned = some (natp, .error errno) →
        w'.point natp = .running ∧ w''.descTbl = w'.descTbl ∧ w''.descs = w'.descs ∧
          w''.held = w'.held := by
  have hinv := h.inv.run hrun
  refine ⟨hinv.refs.counted, fun ndp => ?_, hinv.refs.nodup, fun hmu ndp => ?_, fun a fault hstep => ?_,
    fun a w'' natp errno hstep hreturned => ?_⟩
  · rw [hinv.refs.mem_destroyed, Nat.add_eq_zero_iff]
  · exact slots_of_storing_none (storing_of_unlocked hmu) ndp
  · have hgood := good_step hinv a
    rw [hstep] at hgood
    exact hgood
  · have hgood := good_step hinv a
    rw [hstep] at hgood
    exact hgood.2 natp errno hreturned

end

/-- A table of two entries. -/
def small : DescWorld where
  descTbl := ⟨0, [none, none], .allocate 32 1, 0⟩
  descMu := none
  descs := ⟨[], fun _ => none, []⟩
  held := []
  point _ := .running
  returned := none

/-- One thread makes a descriptor, another duplicates it to its own number, and closes it while the
first looks it up. -/
theorem refCounts_of_run_small : ∃ w', [DescAction.make 0 7, .setDescAvail 0 7, .advance 0 true,
      .dup2 1 0 0, .advance 1 true, .advance 1 true, .advance 1 true, .advance 1 true,
      .close 1 0, .advance 1 true, .advance 1 true, .advance 1 true, .getDesc 0 0,
      .advance 1 true].foldlM step small = .ok w' ∧
    (∀ ndp, (w'.descs.count ndp).getD 0 = w'.slots ndp + w'.outstanding ndp) ∧
      w'.descs.destroyed.Nodup := by
  obtain ⟨w', hrun, -⟩ := Runs.exists_ok_of_check (P := fun _ => True) (fun _ => true)
    (fun _ _ => trivial) (x := [DescAction.make 0 7, .setDescAvail 0 7, .advance 0 true,
      .dup2 1 0 0, .advance 1 true, .advance 1 true, .advance 1 true, .advance 1 true,
      .close 1 0, .advance 1 true, .advance 1 true, .advance 1 true, .getDesc 0 0,
      .advance 1 true].foldlM step small) (by decide +kernel)
  have h := refCounts_of_run ⟨⟨2, rfl⟩, rfl, rfl, rfl, fun _ => rfl⟩ hrun
  exact ⟨w', hrun, h.1, h.2.2.1⟩

end DescWorld

end SandboxingNaCl
