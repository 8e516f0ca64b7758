import SandboxingNaCl.Lib.Runs
import SandboxingNaCl.Pthread.Common

/-!
# Mutexes

The mutexes of `nc_mutex.c`.  A step is one access to the mutex, or one call of the futex interface;
`futex_wait_abs` compares and falls asleep at once, `futex_wake` picks any sleeper, and a thread that it
has woken does not time out.  Only the owner touches `recursion_counter`.
-/

namespace SandboxingNaCl

open Function

/-- `PTHREAD_MUTEX_FAST_NP`, `PTHREAD_MUTEX_RECURSIVE_NP` and `PTHREAD_MUTEX_ERRORCHECK_NP`. -/
inductive MutexType
  | fast | recursive | errorcheck
deriving DecidableEq

/-- The arguments of `mutex_lock`; `abstime` is the field `tv_nsec`. -/
structure LockCall where
  tryOnly : Bool
  abstime : Option ℤ
deriving DecidableEq

def pthreadMutexLock : LockCall := ⟨false, none⟩

def pthreadMutexTrylock : LockCall := ⟨true, none⟩

def pthreadMutexTimedlock (nsec : ℤ) : LockCall := ⟨false, some nsec⟩

/-- What `mutex_lock_nonrecursive` returns when its first attempt fails and it does not wait. -/
def LockCall.refusal (call : LockCall) : Option Errno :=
  if call.tryOnly then some .ebusy
  else match call.abstime with
    | some nsec => if nsec < 0 ∨ 1000000000 ≤ nsec then some .einval else none
    | none => none

/-- What a thread does next.  `woken` says that the thread has been asleep in this call. -/
inductive MutexPoint
  | idle
  /-- `mutex_lock` compares `owner_thread_id`. -/
  | checkOwner (call : LockCall)
  /-- `mutex_lock` increments `recursion_counter`. -/
  | addRecursion
  /-- The first compare-and-swap, of `UNLOCKED` with `LOCKED_WITHOUT_WAITERS`. -/
  | claim (call : LockCall)
  /-- The compare-and-swap of `LOCKED_WITHOUT_WAITERS` with `LOCKED_WITH_WAITERS`. -/
  | mark (call : LockCall) (woken : Bool)
  | futexWait (call : LockCall) (woken : Bool)
  | asleep (call : LockCall)
  /-- The compare-and-swap of `UNLOCKED` with `LOCKED_WITH_WAITERS`. -/
  | reclaim (call : LockCall) (woken : Bool)
  /-- `mutex_lock` sets `owner_thread_id`. -/
  | setOwner
  /-- `pthread_mutex_unlock` decrements `recursion_counter`. -/
  | subRecursion
  /-- `pthread_mutex_unlock` compares `owner_thread_id`. -/
  | unlockCheck
  | clearOwner
  /-- `mutex_state` is decremented. -/
  | release
  /-- `mutex_state = UNLOCKED`. -/
  | storeUnlocked
  | futexWake
deriving DecidableEq

namespace MutexPoint

def isAsleep : MutexPoint → Bool
  | .asleep _ => true
  | _ => false

/-- `pthread_mutex_unlock` has found the state `LOCKED_WITH_WAITERS`, and is going to wake a sleeper. -/
def releasing : MutexPoint → Bool
  | .storeUnlocked | .futexWake => true
  | _ => false

/-- The thread has been woken, and the next state it sets is `LOCKED_WITH_WAITERS`. -/
def onItsWay : MutexPoint → Bool
  | .mark _ true | .reclaim _ true => true
  | _ => false

def needsMutex : MutexPoint → Bool
  | .addRecursion | .setOwner | .subRecursion | .clearOwner | .release => true
  | _ => false

/-- In `pthread_mutex_unlock`. -/
def inUnlock : MutexPoint → Bool
  | .subRecursion | .unlockCheck | .clearOwner | .release | .storeUnlocked | .futexWake => true
  | _ => false

/-- In `mutex_lock` with the arguments. -/
def inLock (call : LockCall) : MutexPoint → Bool
  | .checkOwner c | .claim c | .mark c _ | .futexWait c _ | .asleep c | .reclaim c _ => c = call
  | .addRecursion | .setOwner => true
  | _ => false

def attends (p : MutexPoint) : Bool := p.releasing || p.onItsWay

end MutexPoint

/-- `pthread_mutex_t` and the threads that use it.  A thread holds the mutex from the compare-and-swap
that has claimed it to the decrement in `pthread_mutex_unlock`; `returned` is the call that the last
step has ended. -/
structure MutexWorld (θ : Type) where
  mutexState : ℤ
  mutexType : MutexType
  ownerThreadId : Option θ
  recursionCounter : BitVec 32
  point : θ → MutexPoint
  holds : θ → Bool
  returned : Option (θ × Except Errno Unit)

/-- What happens next. -/
inductive MutexAction (θ : Type)
  | lock (t : θ) (call : LockCall)
  | unlock (t : θ)
  /-- The thread goes on, if it is not at `futex_wake`. -/
  | next (t : θ)
  /-- `futex_wake` wakes a sleeper, if there is one. -/
  | wake (t : θ) (woken : Option θ)
  /-- `futex_wait_abs` returns without a `futex_wake`, at the timeout or before. -/
  | interrupt (t : θ) (timedOut : Bool)

def MutexAction.thread {θ : Type} : MutexAction θ → θ
  | .lock t _ | .unlock t | .next t | .wake t _ | .interrupt t _ => t

namespace MutexWorld

variable {θ : Type} [DecidableEq θ]

/-- `pthread_mutex_init`. -/
def init (mutexType : MutexType) : MutexWorld θ where
  mutexState := 0
  mutexType := mutexType
  ownerThreadId := none
  recursionCounter := 0
  point _ := .idle
  holds _ := false
  returned := none

def goto (w : MutexWorld θ) (t : θ) (point : MutexPoint) : MutexWorld θ :=
  { w with point := Function.update w.point t point, returned := none }

@[simp]
theorem goto_point_self (w : MutexWorld θ) (t : θ) (p : MutexPoint) : (w.goto t p).point t = p :=
  update_self _ _ _

def finish (w : MutexWorld θ) (t : θ) (result : Except Errno Unit) : MutexWorld θ :=
  { w with point := Function.update w.point t .idle, returned := some (t, result) }

/-- `mutex_lock_nonrecursive` has claimed the mutex, and returns 0. -/
def claimed (w : MutexWorld θ) (t : θ) (state : ℤ) : MutexWorld θ :=
  let w := { w with mutexState := state, holds := Function.update w.holds t true }
  match w.mutexType with
  | .fast => w.finish t (.ok ())
  | .recursive | .errorcheck => w.goto t .setOwner

/-- The loop of `mutex_lock_nonrecursive` goes around. -/
def loop (w : MutexWorld θ) (t : θ) (call : LockCall) (woken : Bool) (oldState : ℤ) : MutexWorld θ :=
  if oldState = 2 then w.goto t (.futexWait call woken) else w.goto t (.mark call woken)

/-- The next step of a thread. -/
def next (w : MutexWorld θ) (t : θ) : Except Blocked (MutexWorld θ) :=
  match w.point t with
  | .idle | .asleep _ | .futexWake => .error .blocked
  | .checkOwner call =>
    if w.ownerThreadId = some t then
      if w.mutexType = .errorcheck then .ok (w.finish t (.error .edeadlk))
      else .ok (w.goto t .addRecursion)
    else .ok (w.goto t (.claim call))
  | .addRecursion => .ok ({ w with recursionCounter := w.recursionCounter + 1 }.finish t (.ok ()))
  | .claim call =>
    if w.mutexState = 0 then .ok (w.claimed t 1)
    else match call.refusal with
      | some errno => .ok (w.finish t (.error errno))
      | none => .ok (w.loop t call false w.mutexState)
  | .mark call woken =>
    if w.mutexState = 0 then .ok (w.goto t (.reclaim call woken))
    else if w.mutexState = 1 then
      .ok ({ w with mutexState := 2 }.goto t (.futexWait call woken))
    else .ok (w.goto t (.futexWait call woken))
  | .futexWait call woken =>
    if w.mutexState = 2 then .ok (w.goto t (.asleep call))
    else .ok (w.goto t (.reclaim call woken))
  | .reclaim call woken =>
    if w.mutexState = 0 then .ok (w.claimed t 2)
    else .ok (w.loop t call woken w.mutexState)
  | .setOwner => .ok ({ w with ownerThreadId := some t, recursionCounter := 1 }.finish t (.ok ()))
  | .subRecursion =>
    let w' := { w with recursionCounter := w.recursionCounter - 1 }
    if w.recursionCounter - 1 ≠ 0 then .ok (w'.finish t (.ok ())) else .ok (w'.goto t .clearOwner)
  | .unlockCheck =>
    if w.ownerThreadId = some t then .ok (w.goto t .clearOwner)
    else .ok (w.finish t (.error .eperm))
  | .clearOwner => .ok ({ w with ownerThreadId := none, recursionCounter := 0 }.goto t .release)
  | .release =>
    let w' := { w with mutexState := w.mutexState - 1, holds := Function.update w.holds t false }
    if w.mutexState = 1 then .ok (w'.finish t (.ok ()))
    else if w.mutexState = 0 then .ok (w'.finish t (.error .eperm))
    else .ok (w'.goto t .storeUnlocked)
  | .storeUnlocked => .ok ({ w with mutexState := 0 }.goto t .futexWake)

/-- One step.  Only a mutex of the last type checks that the thread that unlocks it holds it. -/
def step [Fintype θ] (w : MutexWorld θ) : MutexAction θ → Except Blocked (MutexWorld θ)
  | .lock t call =>
    if w.point t = .idle then
      match w.mutexType with
      | .fast => .ok (w.goto t (.claim call))
      | .recursive | .errorcheck => .ok (w.goto t (.checkOwner call))
    else .error .blocked
  | .unlock t =>
    if w.point t = .idle then
      match w.mutexType with
      | .fast => if w.holds t then .ok (w.goto t .release) else .error .blocked
      | .recursive => if w.holds t then .ok (w.goto t .subRecursion) else .error .blocked
      | .errorcheck => .ok (w.goto t .unlockCheck)
    else .error .blocked
  | .next t => w.next t
  | .wake t (some u) =>
    match w.point u with
    | .asleep call =>
      if w.point t = .futexWake then
        .ok ((w.goto u (.reclaim call true)).finish t (.ok ()))
      else .error .blocked
    | _ => .error .blocked
  | .wake t none =>
    if w.point t = .futexWake ∧ ∀ u, (w.point u).isAsleep = false then
      .ok (w.finish t (.ok ()))
    else .error .blocked
  | .interrupt t timedOut =>
    match w.point t with
    | .asleep call =>
      if timedOut then
        if call.abstime = none then .error .blocked else .ok (w.finish t (.error .etimedout))
      else .ok (w.goto t (.reclaim call true))
    | _ => .error .blocked

/-! ## The invariant -/

section

variable {o : Option θ} {w w' : MutexWorld θ} {t : θ} {p q : MutexPoint} {call : LockCall}

/-- The thread holds the mutex, or has still to release it fully. -/
def Owns (w : MutexWorld θ) (t : θ) : Prop := w.holds t = true ∨ w.point t = .storeUnlocked

def Attended (w : MutexWorld θ) : Prop := w.mutexState = 2 ∨ ∃ u, (w.point u).attends = true

/-- What every step keeps; `o` is the thread that owns the mutex. -/
structure Inv (o : Option θ) (w : MutexWorld θ) : Prop where
  owns : ∀ t, w.Owns t ↔ o = some t
  state : w.mutexState = 0 ∧ o = none ∨ (w.mutexState = 1 ∨ w.mutexState = 2) ∧ o ≠ none
  needsMutex : ∀ t, (w.point t).needsMutex = true → w.holds t = true
  setOwner : ∀ t, w.point t = .setOwner → w.mutexType ≠ .fast
  ownerThreadId : ∀ t, w.ownerThreadId = some t →
    w.mutexType ≠ .fast ∧ w.holds t = true ∧ w.point t ≠ .release
  released : ∀ t, w.point t = .storeUnlocked → w.holds t = false
  attended : ∀ t, (w.point t).isAsleep = true → w.Attended

theorem Attended.move (h : w.Attended) (hq : w.point t = q)
    (hpoint : w'.point = update w.point t p) (hstate : w'.mutexState = w.mutexState)
    (hattends : q.attends ≤ p.attends) : w'.Attended := by
  refine h.imp hstate.trans fun ⟨u, hu⟩ => ⟨u, ?_⟩
  rw [hpoint, update_apply]
  split_ifs with hut
  · subst hut
    rw [hq] at hu
    exact Bool.eq_true_of_true_le (hu ▸ hattends)
  · exact hu

theorem Inv.move (h : Inv o w) (hq : w.point t = q) (hpoint : w'.point = update w.point t p)
    (hstate : w'.mutexState = w.mutexState) (htype : w'.mutexType = w.mutexType)
    (hholds : w'.holds = w.holds)
    (hid : ∀ u, w'.ownerThreadId = some u → w.ownerThreadId = some u ∨ u = t ∧ q = .setOwner)
    (hstore : q ≠ .storeUnlocked ∧ p ≠ .storeUnlocked ∧ p ≠ .setOwner)
    (hneeds : p.needsMutex = true → w.holds t = true)
    (hrelease : p = .release → w'.ownerThreadId ≠ some t)
    (hattended : w'.Attended ∨
      p.isAsleep = false ∧ (q.attends ≤ p.attends ∨ ∀ u, (w.point u).isAsleep = false)) :
    Inv o w' := by
  refine ⟨fun u => ?_, ?_, fun u hu => ?_, fun u hu => ?_, fun u hu => ?_, fun u hu => ?_,
    fun u hu => ?_⟩
  · rw [← h.owns u, Owns, Owns, hholds, hpoint, update_apply]
    split_ifs with hut
    · subst hut
      rw [hq]
      exact or_congr_right (iff_of_false hstore.2.1 hstore.1)
    · exact Iff.rfl
  · rw [hstate]
    exact h.state
  · rw [hholds]
    rw [hpoint, update_apply] at hu
    split_ifs at hu with hut
    · exact hut ▸ hneeds hu
    · exact h.needsMutex u hu
  · rw [htype]
    rw [hpoint, update_apply] at hu
    split_ifs at hu with hut
    · exact absurd hu hstore.2.2
    · exact h.setOwner u hu
  · rw [htype, hholds, hpoint, update_apply]
    rcases hid u hu with hold | ⟨rfl, rfl⟩
    · obtain ⟨htype', hheld, hpoint'⟩ := h.ownerThreadId u hold
      refine ⟨htype', hheld, ?_⟩
      split_ifs with hut
      · exact fun heq => hrelease heq (hut ▸ hu)
      · exact hpoint'
    · refine ⟨h.setOwner u hq, h.needsMutex u (by rw [hq]; rfl), ?_⟩
      rw [if_pos rfl]
      exact fun heq => hrelease heq hu
  · rw [hholds]
    rw [hpoint, update_apply] at hu
    split_ifs at hu with hut
    · exact absurd hu hstore.2.1
    · exact h.released u hu
  · rcases hattended with hattended | ⟨hp, hattends⟩
    · exact hattended
    · rw [hpoint, update_apply] at hu
      split_ifs at hu with hut
      · rw [hp] at hu
        cases hu
      · rcases hattends with hattends | hnone
        · exact (h.attended u hu).move hq hpoint hstate hattends
        · rw [hnone] at hu
          cases hu

theorem Inv.claim (h : Inv o w) (hq : w.point t = q) (hpoint : w'.point = update w.point t p)
    (hfree : w.mutexState = 0) (hstate : w'.mutexState = 1 ∨ w'.mutexState = 2)
    (hholds : w'.holds = update w.holds t true)
    (htype : w'.mutexType = w.mutexType) (hid : w'.ownerThreadId = w.ownerThreadId)
    (hp : p = .idle ∨ p = .setOwner ∧ w.mutexType ≠ .fast)
    (hattends : w'.mutexState = 2 ∨ q.attends = false) : Inv (some t) w' := by
  have hnone : ∀ u, ¬ w.Owns u := fun u => by
    rw [h.owns]
    have hstate := h.state
    rw [hfree] at hstate
    rcases hstate with ⟨-, rfl⟩ | ⟨hstate, -⟩
    · exact nofun
    · omega
  have hstore : p ≠ .storeUnlocked := by
    rcases hp with rfl | ⟨rfl, -⟩
    · exact nofun
    · exact nofun
  have hrelease : p ≠ .release := by
    rcases hp with rfl | ⟨rfl, -⟩
    · exact nofun
    · exact nofun
  have hp' : p.isAsleep = false := by
    rcases hp with rfl | ⟨rfl, -⟩
    · rfl
    · rfl
  refine ⟨fun u => ?_, .inr ⟨hstate, nofun⟩, fun u hu => ?_, fun u hu => ?_, fun u hu => ?_,
    fun u hu => ?_, fun u hu => ?_⟩
  · rw [Owns, hholds, hpoint, update_apply, update_apply]
    split_ifs with hut
    · exact iff_of_true (.inl rfl) (congrArg some hut.symm)
    · exact iff_of_false (hnone u) fun heq => hut (Option.some.inj heq).symm
  · rw [hholds, update_apply]
    rw [hpoint, update_apply] at hu
    split_ifs at hu ⊢ with hut
    · rfl
    · exact h.needsMutex u hu
  · rw [htype]
    rw [hpoint, update_apply] at hu
    split_ifs at hu with hut
    · rcases hp with rfl | ⟨-, htype'⟩
      · cases hu
      · exact htype'
    · exact h.setOwner u hu
  · rw [hid] at hu
    exact absurd (.inl (h.ownerThreadId u hu).2.1) (hnone u)
  · rw [hpoint, update_apply] at hu
    split_ifs at hu with hut
    · exact absurd hu hstore
    · exact absurd (.inr hu) (hnone u)
  · rw [hpoint, update_apply] at hu
    split_ifs at hu with hut
    · rw [hp'] at hu
      cases hu
    · rcases hattends with htwo | hattends
      · exact .inl htwo
      · rcases h.attended u hu with htwo | ⟨v, hv⟩
        · omega
        · refine .inr ⟨v, ?_⟩
          have hvt : v ≠ t := by
            rintro rfl
            rw [hq, hattends] at hv
            cases hv
          rwa [hpoint, update_of_ne hvt]

omit [DecidableEq θ] in
theorem Inv.eq_some (h : Inv o w) (hholds : w.holds t = true) : o = some t :=
  (h.owns t).1 (.inl hholds)

omit [DecidableEq θ] in
theorem Inv.eq_of_holds (h : Inv o w) {u : θ} (ht : w.holds t = true) (hu : w.holds u = true) :
    u = t :=
  Option.some.inj ((h.eq_some hu).symm.trans (h.eq_some ht))

theorem Inv.free (h : Inv o w) (hq : w.point t = .release) (hone : w.mutexState = 1)
    (hpoint : w'.point = update w.point t .idle) (hstate : w'.mutexState = 0)
    (hholds : w'.holds = update w.holds t false) (htype : w'.mutexType = w.mutexType)
    (hid : w'.ownerThreadId = w.ownerThreadId) : Inv none w' := by
  have hheld : w.holds t = true := h.needsMutex t (by rw [hq]; rfl)
  have hothers : ∀ u, u ≠ t → ¬ w.Owns u := fun u hut => by
    rw [h.owns, h.eq_some hheld]
    exact fun heq => hut (Option.some.inj heq).symm
  refine ⟨fun u => ?_, .inl ⟨hstate, rfl⟩, fun u hu => ?_, fun u hu => ?_, fun u hu => ?_,
    fun u hu => ?_, fun u hu => ?_⟩
  · refine iff_of_false ?_ nofun
    rw [Owns, hholds, hpoint, update_apply, update_apply]
    split_ifs with hut
    · simp
    · exact hothers u hut
  · rw [hpoint, update_apply] at hu
    split_ifs at hu with hut
    · cases hu
    · exact absurd (.inl (h.needsMutex u hu)) (hothers u hut)
  · rw [htype]
    rw [hpoint, update_apply] at hu
    split_ifs at hu with hut
    exact h.setOwner u hu
  · rw [hid] at hu
    obtain ⟨-, hold, hpoint'⟩ := h.ownerThreadId u hu
    have hut := h.eq_of_holds hheld hold
    subst hut
    exact absurd hq hpoint'
  · rw [hpoint, update_apply] at hu
    split_ifs at hu with hut
    exact absurd (.inr hu) (hothers u hut)
  · rw [hpoint, update_apply] at hu
    split_ifs at hu with hut
    · cases hu
    · rcases h.attended u hu with htwo | ⟨v, hv⟩
      · omega
      · refine .inr ⟨v, ?_⟩
        have hvt : v ≠ t := by
          rintro rfl
          rw [hq] at hv
          cases hv
        rwa [hpoint, update_of_ne hvt]

theorem Inv.startRelease (h : Inv o w) (hq : w.point t = .release)
    (hpoint : w'.point = update w.point t .storeUnlocked) (hstate : w'.mutexState = 1)
    (hholds : w'.holds = update w.holds t false) (htype : w'.mutexType = w.mutexType)
    (hid : w'.ownerThreadId = w.ownerThreadId) : Inv o w' := by
  have hheld : w.holds t = true := h.needsMutex t (by rw [hq]; rfl)
  have ho : o = some t := h.eq_some hheld
  refine ⟨fun u => ?_, .inr ⟨.inl hstate, by rw [ho]; exact nofun⟩, fun u hu => ?_, fun u hu => ?_,
    fun u hu => ?_, fun u hu => ?_, fun u _ => .inr ⟨t, ?_⟩⟩
  · rw [Owns, hholds, hpoint, update_apply, update_apply]
    split_ifs with hut
    · exact iff_of_true (.inr rfl) (hut ▸ ho)
    · exact h.owns u
  · rw [hpoint, update_apply] at hu
    split_ifs at hu with hut
    · cases hu
    · exact absurd (h.eq_of_holds hheld (h.needsMutex u hu)) hut
  · rw [htype]
    rw [hpoint, update_apply] at hu
    split_ifs at hu with hut
    exact h.setOwner u hu
  · rw [hid] at hu
    obtain ⟨-, hold, hpoint'⟩ := h.ownerThreadId u hu
    have hut := h.eq_of_holds hheld hold
    subst hut
    exact absurd hq hpoint'
  · rw [hholds, update_apply]
    rw [hpoint, update_apply] at hu
    split_ifs at hu ⊢ with hut
    · rfl
    · exact h.released u hu
  · rw [hpoint, update_self]
    rfl

theorem Inv.store (h : Inv o w) (hq : w.point t = .storeUnlocked)
    (hpoint : w'.point = update w.point t .futexWake) (hstate : w'.mutexState = 0)
    (hholds : w'.holds = w.holds) (htype : w'.mutexType = w.mutexType)
    (hid : w'.ownerThreadId = w.ownerThreadId) : Inv none w' := by
  have ho : o = some t := (h.owns t).1 (.inr hq)
  have hothers : ∀ u, u ≠ t → ¬ w.Owns u := fun u hut => by
    rw [h.owns, ho]
    exact fun heq => hut (Option.some.inj heq).symm
  have hnone : ∀ u, ¬ w.holds u = true := fun u hu => by
    have hut := Option.some.inj (ho.symm.trans (h.eq_some hu))
    subst hut
    rw [h.released t hq] at hu
    cases hu
  refine ⟨fun u => ?_, .inl ⟨hstate, rfl⟩, fun u hu => ?_, fun u hu => ?_, fun u hu => ?_,
    fun u hu => ?_, fun u _ => .inr ⟨t, ?_⟩⟩
  · refine iff_of_false ?_ nofun
    rw [Owns, hholds, hpoint, update_apply]
    split_ifs with hut
    · simpa using hnone u
    · exact hothers u hut
  · rw [hpoint, update_apply] at hu
    split_ifs at hu with hut
    · cases hu
    · exact absurd (h.needsMutex u hu) (hnone u)
  · rw [htype]
    rw [hpoint, update_apply] at hu
    split_ifs at hu with hut
    exact h.setOwner u hu
  · rw [hid] at hu
    exact absurd (h.ownerThreadId u hu).2.1 (hnone u)
  · rw [hpoint, update_apply] at hu
    split_ifs at hu with hut
    exact absurd (.inr hu) (hothers u hut)
  · rw [hpoint, update_self]
    rfl

theorem Inv.mark (h : Inv o w) {woken : Bool} (hq : w.point t = .mark call woken)
    (hone : w.mutexState = 1) :
    Inv o (goto { w with mutexState := 2 } t (.futexWait call woken)) := by
  have ho : o ≠ none := by
    rcases h.state with ⟨hzero, -⟩ | ⟨-, ho⟩
    · omega
    · exact ho
  have hmarked : Inv o { w with mutexState := 2 } :=
    ⟨h.owns, .inr ⟨.inr rfl, ho⟩, h.needsMutex, h.setOwner, h.ownerThreadId, h.released,
       fun _ _ => .inl rfl⟩
  exact hmarked.move hq rfl rfl rfl rfl (fun _ => .inl) ⟨nofun, nofun, nofun⟩ nofun nofun
    (.inl (.inl rfl))

theorem Inv.loop (h : Inv o w) {woken : Bool} (hq : w.point t = .claim call ∧ woken = false ∨
    w.point t = .reclaim call woken) : Inv o (w.loop t call woken w.mutexState) := by
  have hstore : w.point t ≠ .storeUnlocked := by
    rcases hq with ⟨hq, -⟩ | hq
    · rw [hq]
      exact nofun
    · rw [hq]
      exact nofun
  unfold MutexWorld.loop
  split_ifs with htwo
  · refine h.move (p := .futexWait call woken) rfl rfl rfl rfl rfl (fun _ => .inl)
      ⟨hstore, nofun, nofun⟩ nofun nofun (.inl (.inl htwo))
  · refine h.move (p := .mark call woken) rfl rfl rfl rfl rfl (fun _ => .inl)
      ⟨hstore, nofun, nofun⟩ nofun nofun (.inr ⟨rfl, .inl ?_⟩)
    rcases hq with ⟨hq, rfl⟩ | hq
    · rw [hq]
      exact le_rfl
    · rw [hq]
      cases woken with
      | false => exact le_rfl
      | true => exact le_rfl

theorem Inv.claimed (h : Inv o w) (hq : w.point t = q) (hfree : w.mutexState = 0) {state : ℤ}
    (hattends : state = 1 ∧ q.attends = false ∨ state = 2) : Inv (some t) (w.claimed t state) := by
  have hstate : state = 1 ∨ state = 2 := hattends.imp_left And.left
  have hattends' : state = 2 ∨ q.attends = false := hattends.symm.imp_right And.right
  unfold MutexWorld.claimed
  cases htype : w.mutexType with
  | fast => exact h.claim hq rfl hfree hstate rfl htype.symm rfl (.inl rfl) hattends'
  | recursive | errorcheck =>
    exact h.claim hq rfl hfree hstate rfl htype.symm rfl
      (.inr ⟨rfl, by rw [htype]; exact nofun⟩) hattends'

theorem Inv.next (h : Inv o w) (hstep : w.next t = .ok w') : ∃ o', Inv o' w' := by
  unfold MutexWorld.next at hstep
  split at hstep
  · cases hstep
  · cases hstep
  · cases hstep
  · next call hq =>
    split_ifs at hstep with hid
    · cases hstep
      exact ⟨o, h.move hq rfl rfl rfl rfl (fun _ => .inl) ⟨nofun, nofun, nofun⟩ nofun nofun
        (.inr ⟨rfl, .inl le_rfl⟩)⟩
    · cases hstep
      exact ⟨o, h.move hq rfl rfl rfl rfl (fun _ => .inl) ⟨nofun, nofun, nofun⟩
        (fun _ => (h.ownerThreadId t hid).2.1) nofun (.inr ⟨rfl, .inl le_rfl⟩)⟩
    · cases hstep
      exact ⟨o, h.move hq rfl rfl rfl rfl (fun _ => .inl) ⟨nofun, nofun, nofun⟩ nofun nofun
        (.inr ⟨rfl, .inl le_rfl⟩)⟩
  · next hq =>
    cases hstep
    exact ⟨o, h.move hq rfl rfl rfl rfl (fun _ => .inl) ⟨nofun, nofun, nofun⟩ nofun nofun
      (.inr ⟨rfl, .inl le_rfl⟩)⟩
  · next call hq =>
    split_ifs at hstep with hfree
    · cases hstep
      exact ⟨some t, h.claimed hq hfree (.inl ⟨rfl, rfl⟩)⟩
    · split at hstep
      · cases hstep
        exact ⟨o, h.move hq rfl rfl rfl rfl (fun _ => .inl) ⟨nofun, nofun, nofun⟩ nofun nofun
          (.inr ⟨rfl, .inl le_rfl⟩)⟩
      · cases hstep
        exact ⟨o, h.loop (.inl ⟨hq, rfl⟩)⟩
  · next call woken hq =>
    split_ifs at hstep with hfree hone
    · cases hstep
      exact ⟨o, h.move hq rfl rfl rfl rfl (fun _ => .inl) ⟨nofun, nofun, nofun⟩ nofun nofun
        (.inr ⟨rfl, .inl (by cases woken <;> exact le_rfl)⟩)⟩
    · cases hstep
      exact ⟨o, h.mark hq hone⟩
    · cases hstep
      have htwo : w.mutexState = 2 := by
        have hstate := h.state
        omega
      exact ⟨o, h.move hq rfl rfl rfl rfl (fun _ => .inl) ⟨nofun, nofun, nofun⟩ nofun nofun
        (.inl (.inl htwo))⟩
  · next call woken hq =>
    split_ifs at hstep with htwo
    · cases hstep
      exact ⟨o, h.move hq rfl rfl rfl rfl (fun _ => .inl) ⟨nofun, nofun, nofun⟩ nofun nofun
        (.inl (.inl htwo))⟩
    · cases hstep
      exact ⟨o, h.move hq rfl rfl rfl rfl (fun _ => .inl) ⟨nofun, nofun, nofun⟩ nofun nofun
        (.inr ⟨rfl, .inl (Bool.false_le _)⟩)⟩
  · next call woken hq =>
    split_ifs at hstep with hfree
    · cases hstep
      exact ⟨some t, h.claimed hq hfree (.inr rfl)⟩
    · cases hstep
      exact ⟨o, h.loop (.inr hq)⟩
  · next hq =>
    cases hstep
    exact ⟨o, h.move hq rfl rfl rfl rfl (fun u hu => .inr ⟨(Option.some.inj hu).symm, rfl⟩)
      ⟨nofun, nofun, nofun⟩ nofun nofun (.inr ⟨rfl, .inl le_rfl⟩)⟩
  · next hq =>
    split_ifs at hstep
    · cases hstep
      exact ⟨o, h.move hq rfl rfl rfl rfl (fun _ => .inl) ⟨nofun, nofun, nofun⟩ nofun nofun
        (.inr ⟨rfl, .inl le_rfl⟩)⟩
    · cases hstep
      exact ⟨o, h.move hq rfl rfl rfl rfl (fun _ => .inl) ⟨nofun, nofun, nofun⟩
        (fun _ => h.needsMutex t (by rw [hq]; rfl)) nofun (.inr ⟨rfl, .inl le_rfl⟩)⟩
  · next hq =>
    split_ifs at hstep with hid
    · cases hstep
      exact ⟨o, h.move hq rfl rfl rfl rfl (fun _ => .inl) ⟨nofun, nofun, nofun⟩
        (fun _ => (h.ownerThreadId t hid).2.1) nofun (.inr ⟨rfl, .inl le_rfl⟩)⟩
    · cases hstep
      exact ⟨o, h.move hq rfl rfl rfl rfl (fun _ => .inl) ⟨nofun, nofun, nofun⟩ nofun nofun
        (.inr ⟨rfl, .inl le_rfl⟩)⟩
  · next hq =>
    cases hstep
    exact ⟨o, h.move hq rfl rfl rfl rfl nofun ⟨nofun, nofun, nofun⟩
      (fun _ => h.needsMutex t (by rw [hq]; rfl)) nofun (.inr ⟨rfl, .inl le_rfl⟩)⟩
  · next hq =>
    have hone : w.mutexState = 1 ∨ w.mutexState = 2 := by
      rcases h.state with ⟨-, ho⟩ | ⟨hstate, -⟩
      · rw [h.eq_some (h.needsMutex t (by rw [hq]; rfl))] at ho
        cases ho
      · exact hstate
    split_ifs at hstep with hstate hzero
    · cases hstep
      exact ⟨none, h.free hq hstate rfl (show w.mutexState - 1 = 0 by omega) rfl rfl rfl⟩
    · omega
    · cases hstep
      exact ⟨o, h.startRelease hq rfl (show w.mutexState - 1 = 1 by omega) rfl rfl rfl⟩
  · next hq =>
    cases hstep
    exact ⟨none, h.store hq rfl rfl rfl rfl rfl⟩

theorem Inv.wake (h : Inv o w) {u : θ} (ht : w.point t = .futexWake)
    (hu : w.point u = .asleep call) :
    Inv o ((w.goto u (.reclaim call true)).finish t (.ok ())) := by
  have htu : t ≠ u := by
    rintro rfl
    rw [ht] at hu
    cases hu
  have hwoken : Inv o (w.goto u (.reclaim call true)) :=
    h.move hu rfl rfl rfl rfl (fun _ => .inl) ⟨nofun, nofun, nofun⟩ nofun nofun
      (.inr ⟨rfl, .inl (Bool.false_le _)⟩)
  have ht' : (w.goto u (.reclaim call true)).point t = .futexWake :=
    (update_of_ne htu _ _).trans ht
  refine hwoken.move (p := .idle) ht' rfl rfl rfl rfl (fun _ => .inl) ⟨nofun, nofun, nofun⟩ nofun
    nofun (.inl (.inr ⟨u, ?_⟩))
  -- the sleeper takes over from the thread that has woken it
  have hu' : ((w.goto u (.reclaim call true)).finish t (.ok ())).point u = .reclaim call true :=
    (update_of_ne htu.symm _ _).trans (goto_point_self _ _ _)
  rw [hu']
  rfl

theorem Inv.step [Fintype θ] (h : Inv o w) {a : MutexAction θ} (hstep : w.step a = .ok w') :
    ∃ o', Inv o' w' := by
  cases a with
  | lock t call =>
    rw [MutexWorld.step] at hstep
    split_ifs at hstep with hq
    split at hstep
    · cases hstep
      exact ⟨o, h.move hq rfl rfl rfl rfl (fun _ => .inl) ⟨nofun, nofun, nofun⟩ nofun nofun
        (.inr ⟨rfl, .inl le_rfl⟩)⟩
    · cases hstep
      exact ⟨o, h.move hq rfl rfl rfl rfl (fun _ => .inl) ⟨nofun, nofun, nofun⟩ nofun nofun
        (.inr ⟨rfl, .inl le_rfl⟩)⟩
    · cases hstep
      exact ⟨o, h.move hq rfl rfl rfl rfl (fun _ => .inl) ⟨nofun, nofun, nofun⟩ nofun nofun
        (.inr ⟨rfl, .inl le_rfl⟩)⟩
  | unlock t =>
    rw [MutexWorld.step] at hstep
    split at hstep
    · next hq =>
      split at hstep
      · next htype =>
        split_ifs at hstep with hholds
        cases hstep
        have hid : w.ownerThreadId ≠ some t := fun hid => (h.ownerThreadId t hid).1 htype
        exact ⟨o, h.move hq rfl rfl rfl rfl (fun _ => .inl) ⟨nofun, nofun, nofun⟩
          (fun _ => hholds) (fun _ => hid)
          (.inr ⟨rfl, .inl le_rfl⟩)⟩
      · split_ifs at hstep with hholds
        cases hstep
        exact ⟨o, h.move hq rfl rfl rfl rfl (fun _ => .inl) ⟨nofun, nofun, nofun⟩
          (fun _ => hholds) nofun (.inr ⟨rfl, .inl le_rfl⟩)⟩
      · cases hstep
        exact ⟨o, h.move hq rfl rfl rfl rfl (fun _ => .inl) ⟨nofun, nofun, nofun⟩ nofun nofun
          (.inr ⟨rfl, .inl le_rfl⟩)⟩
    · cases hstep
  | next t => exact h.next hstep
  | wake t woken =>
    cases woken with
    | some u =>
      rw [MutexWorld.step] at hstep
      split at hstep
      · next call hu =>
        split_ifs at hstep with ht
        cases hstep
        exact ⟨o, h.wake ht hu⟩
      · cases hstep
    | none =>
      rw [MutexWorld.step] at hstep
      split_ifs at hstep with ht
      cases hstep
      exact ⟨o, h.move ht.1 rfl rfl rfl rfl (fun _ => .inl) ⟨nofun, nofun, nofun⟩ nofun nofun
        (.inr ⟨rfl, .inr ht.2⟩)⟩
  | interrupt t timedOut =>
    rw [MutexWorld.step] at hstep
    split at hstep
    · next call hq =>
      split_ifs at hstep
      · cases hstep
        exact ⟨o, h.move hq rfl rfl rfl rfl (fun _ => .inl) ⟨nofun, nofun, nofun⟩ nofun nofun
          (.inr ⟨rfl, .inl le_rfl⟩)⟩
      · cases hstep
        exact ⟨o, h.move hq rfl rfl rfl rfl (fun _ => .inl) ⟨nofun, nofun, nofun⟩ nofun nofun
          (.inr ⟨rfl, .inl (Bool.false_le _)⟩)⟩
    · cases hstep

omit [DecidableEq θ] in
theorem inv_init (mutexType : MutexType) : Inv none (init mutexType : MutexWorld θ) :=
  ⟨fun _ => iff_of_false (by rintro (h | h) <;> cases h) nofun, .inl ⟨rfl, rfl⟩, nofun, nofun, nofun,
    nofun, nofun⟩

def Coherent (w : MutexWorld θ) : Prop := ∃ o, Inv o w

/-- What holds of the mutex in a state that a run has reached. -/
structure Sound [Fintype θ] (w : MutexWorld θ) : Prop where
  exclusive : ∀ t u, w.holds t = true → w.holds u = true → t = u
  state : w.mutexState = 0 ∨ w.mutexState = 1 ∨ w.mutexState = 2
  /-- A state other than `UNLOCKED` has a thread that holds the mutex or has still to store it. -/
  free : w.mutexState = 0 ↔ ∀ t, w.holds t = false ∧ w.point t ≠ .storeUnlocked
  /-- While a thread is asleep, the mutex is held by a thread that will find `LOCKED_WITH_WAITERS`, or
  is being released by one that has, or a woken thread is on its way. -/
  attended : ∀ t, (w.point t).isAsleep = true →
    (w.mutexState = 2 ∧ ∃ u, w.holds u = true) ∨
      (∃ u, (w.point u).releasing = true) ∨ ∃ u, (w.point u).onItsWay = true
  notLeft : w.mutexState = 0 → ∀ t, (w.point t).isAsleep = true →
    ∃ u, w.point u = .futexWake ∨ (w.point u).onItsWay = true
  /-- A woken thread stays on its way until the state is `LOCKED_WITH_WAITERS`. -/
  onItsWay : ∀ t w', (w.point t).onItsWay = true → w.step (.next t) = .ok w' →
    (w'.point t).onItsWay = true ∨ w'.mutexState = 2

theorem onItsWay_of_next {w' : MutexWorld θ} (hway : (w.point t).onItsWay = true)
    (hstate : w.mutexState = 0 ∨ w.mutexState = 1 ∨ w.mutexState = 2) (hstep : w.next t = .ok w') :
    (w'.point t).onItsWay = true ∨ w'.mutexState = 2 := by
  unfold MutexWorld.next at hstep
  split at hstep
  case h_7 call woken hq =>
    rw [hq] at hway
    cases woken with
    | false => cases hway
    | true =>
      split_ifs at hstep with hfree hone
      · cases hstep
        exact .inl (by simp [MutexPoint.onItsWay])
      · cases hstep
        exact .inr rfl
      · cases hstep
        exact .inr (show w.mutexState = 2 by omega)
  case h_9 call woken hq =>
    rw [hq] at hway
    cases woken with
    | false => cases hway
    | true =>
      split_ifs at hstep with hfree
      · cases hstep
        refine .inr ?_
        unfold claimed
        cases w.mutexType with
        | fast => rfl
        | recursive | errorcheck => rfl
      · cases hstep
        unfold loop
        split_ifs with htwo
        · exact .inr htwo
        · exact .inl (by simp [MutexPoint.onItsWay])
  all_goals
    next hq =>
      rw [hq] at hway
      cases hway

theorem Inv.sound [Fintype θ] (h : Inv o w) : w.Sound := by
  have hstate : w.mutexState = 0 ∨ w.mutexState = 1 ∨ w.mutexState = 2 :=
    h.state.imp And.left And.left
  have hfree : w.mutexState = 0 ↔ ∀ t, ¬ w.Owns t := by
    rw [forall_congr' fun t => not_congr (h.owns t)]
    rcases h.state with ⟨hzero, rfl⟩ | ⟨hstate, ho⟩
    · exact iff_of_true hzero fun _ => nofun
    · obtain ⟨t, rfl⟩ := Option.ne_none_iff_exists'.1 ho
      exact iff_of_false (by omega) fun hnone => hnone t rfl
  have hattended : ∀ t, (w.point t).isAsleep = true →
      (w.mutexState = 2 ∧ ∃ u, w.holds u = true) ∨
        (∃ u, (w.point u).releasing = true) ∨ ∃ u, (w.point u).onItsWay = true := by
    intro t ht
    rcases h.attended t ht with htwo | ⟨u, hu⟩
    · have howner : ∃ u, w.Owns u := by
        by_contra hnone
        have hzero := hfree.2 (not_exists.1 hnone)
        omega
      obtain ⟨u, hheld | hstoring⟩ := howner
      · exact .inl ⟨htwo, u, hheld⟩
      · exact .inr (.inl ⟨u, by rw [hstoring]; rfl⟩)
    · exact .inr ((Bool.or_eq_true_iff.1 hu).imp (⟨u, ·⟩) (⟨u, ·⟩))
  refine ⟨fun t u ht hu => h.eq_of_holds hu ht, hstate, ?_, hattended, fun hzero t ht => ?_,
    fun t w' hway hstep => onItsWay_of_next hway hstate hstep⟩
  · rw [hfree]
    exact forall_congr' fun t => by rw [Owns, not_or, Bool.not_eq_true]
  · rcases hattended t ht with ⟨htwo, -⟩ | ⟨u, hu⟩ | ⟨u, hu⟩
    · omega
    · have hu' : w.point u ≠ .storeUnlocked := fun hstoring => hfree.1 hzero u (.inr hstoring)
      refine ⟨u, .inl ?_⟩
      cases hpoint : w.point u with
      | storeUnlocked => exact absurd hpoint hu'
      | futexWake => rfl
      | _ => rw [hpoint] at hu; cases hu
    · exact ⟨u, .inr hu⟩

/-- Whatever the order of the threads' steps, one thread holds the mutex and no sleeper is left. -/
theorem mutexSound_of_run [Fintype θ] (mutexType : MutexType) {run : List (MutexAction θ)}
    (hrun : run.foldlM step (init mutexType) = .ok w) : w.Sound := by
  have hinv : w.Coherent :=
    Runs.invariant (fun _ _ _ h hstep => h.elim fun _ h => h.step hstep)
      ⟨none, inv_init mutexType⟩ hrun
  obtain ⟨o, h⟩ := hinv
  exact h.sound

/-! ## The calls of one thread -/

/-- The other threads keep their points, but for the one that a `futex_wake` wakes. -/
def Frame (t : θ) (w w' : MutexWorld θ) : Prop :=
  ∀ u, u ≠ t → w'.holds u = w.holds u ∧
    (w'.point u = w.point u ∨ ∃ call, w.point u = .asleep call ∧ w'.point u = .reclaim call true)

omit [DecidableEq θ] in
theorem Frame.refl (t : θ) (w : MutexWorld θ) : Frame t w w := fun _ _ => ⟨rfl, .inl rfl⟩

theorem Frame.of_point (hpoint : w'.point = update w.point t p)
    (hholds : w'.holds = w.holds) : Frame t w w' := by
  intro u hu
  rw [hpoint, hholds, update_of_ne hu]
  exact ⟨rfl, .inl rfl⟩

theorem Frame.of_holds {b : Bool} (hpoint : w'.point = update w.point t p)
    (hholds : w'.holds = update w.holds t b) : Frame t w w' := by
  intro u hu
  rw [hpoint, hholds, update_of_ne hu, update_of_ne hu]
  exact ⟨rfl, .inl rfl⟩

theorem frame_claimed (w : MutexWorld θ) (t : θ) (state : ℤ) : Frame t w (w.claimed t state) := by
  unfold claimed
  cases w.mutexType with
  | fast => exact .of_holds rfl rfl
  | recursive | errorcheck => exact .of_holds rfl rfl

theorem frame_loop (w : MutexWorld θ) (t : θ) (call : LockCall) (woken : Bool) (oldState : ℤ) :
    Frame t w (w.loop t call woken oldState) := by
  unfold loop
  split_ifs
  · exact .of_point rfl rfl
  · exact .of_point rfl rfl

theorem frame_next (hstep : w.next t = .ok w') : Frame t w w' := by
  unfold MutexWorld.next at hstep
  split at hstep
  case h_6 call hq =>
    split_ifs at hstep
    · cases hstep
      exact frame_claimed _ _ _
    · split at hstep
      · cases hstep
        exact .of_point rfl rfl
      · cases hstep
        exact frame_loop _ _ _ _ _
  case h_9 call woken hq =>
    split_ifs at hstep
    · cases hstep
      exact frame_claimed _ _ _
    · cases hstep
      exact frame_loop _ _ _ _ _
  case h_14 hq =>
    split_ifs at hstep
    · cases hstep
      exact .of_holds rfl rfl
    · cases hstep
      exact .of_holds rfl rfl
    · cases hstep
      exact .of_holds rfl rfl
  all_goals
    (try split_ifs at hstep) <;> cases hstep <;> exact .of_point rfl rfl

theorem frame_step [Fintype θ] {a : MutexAction θ} (hstep : w.step a = .ok w') :
    Frame a.thread w w' := by
  cases a with
  | next t => exact frame_next hstep
  | lock t call =>
    rw [MutexWorld.step] at hstep
    split_ifs at hstep
    split at hstep
    · cases hstep
      exact .of_point rfl rfl
    · cases hstep
      exact .of_point rfl rfl
    · cases hstep
      exact .of_point rfl rfl
  | unlock t =>
    rw [MutexWorld.step] at hstep
    split at hstep
    · split at hstep
      · split_ifs at hstep
        cases hstep
        exact .of_point rfl rfl
      · split_ifs at hstep
        cases hstep
        exact .of_point rfl rfl
      · cases hstep
        exact .of_point rfl rfl
    · cases hstep
  | wake t woken =>
    cases woken with
    | some u =>
      rw [MutexWorld.step] at hstep
      split at hstep
      · next call hu =>
        split_ifs at hstep
        cases hstep
        intro v hv
        refine ⟨rfl, ?_⟩
        by_cases hvu : v = u
        · subst hvu
          exact .inr ⟨call, hu, (update_of_ne hv _ _).trans (goto_point_self _ _ _)⟩
        · exact .inl ((update_of_ne hv _ _).trans (update_of_ne hvu _ _))
      · cases hstep
    | none =>
      rw [MutexWorld.step] at hstep
      split_ifs at hstep
      cases hstep
      exact .of_point rfl rfl
  | interrupt t timedOut =>
    rw [MutexWorld.step] at hstep
    split at hstep
    · split_ifs at hstep
      · cases hstep
        exact .of_point rfl rfl
      · cases hstep
        exact .of_point rfl rfl
    · cases hstep

/-- The thread is in `pthread_mutex_unlock`, which it has called with the mutex held. -/
def Unlocking (w : MutexWorld θ) (t : θ) : Prop :=
  (w.point t).inUnlock = true ∧ (w.point t = .unlockCheck → w.holds t = true)

theorem unlocking_goto (hp : p.inUnlock = true ∧ p ≠ .unlockCheck) : (w.goto t p).Unlocking t := by
  rw [Unlocking, goto_point_self]
  exact ⟨hp.1, fun heq => absurd heq hp.2⟩

@[simp]
theorem finish_point_self (w : MutexWorld θ) (t : θ) (result : Except Errno Unit) :
    (w.finish t result).point t = .idle :=
  update_self _ _ _

theorem Inv.next_unlocking (h : Inv o w) (ht : w.Unlocking t) (hstep : w.next t = .ok w') :
    w'.returned = none ∧ w'.Unlocking t ∨ ∃ result, w'.returned = some (t, result) ∧
      w'.point t = .idle ∧ (result = .ok () ∨ w'.holds t = true) := by
  obtain ⟨hunlock, hheld⟩ := ht
  unfold MutexWorld.next at hstep
  split at hstep
  case h_11 hq =>
    split_ifs at hstep
    · cases hstep
      exact .inr ⟨_, rfl, finish_point_self _ _ _, .inl rfl⟩
    · cases hstep
      exact .inl ⟨rfl, unlocking_goto ⟨rfl, nofun⟩⟩
  case h_12 hq =>
    split_ifs at hstep
    · cases hstep
      exact .inl ⟨rfl, unlocking_goto ⟨rfl, nofun⟩⟩
    · cases hstep
      exact .inr ⟨_, rfl, finish_point_self _ _ _, .inr (hheld hq)⟩
  case h_13 hq =>
    cases hstep
    exact .inl ⟨rfl, unlocking_goto ⟨rfl, nofun⟩⟩
  case h_14 hq =>
    have hstate : w.mutexState ≠ 0 := by
      rcases h.state with ⟨-, ho⟩ | ⟨hstate, -⟩
      · rw [h.eq_some (h.needsMutex t (by rw [hq]; rfl))] at ho
        cases ho
      · omega
    split_ifs at hstep
    · cases hstep
      exact .inr ⟨_, rfl, finish_point_self _ _ _, .inl rfl⟩
    · cases hstep
      exact .inl ⟨rfl, unlocking_goto ⟨rfl, nofun⟩⟩
  case h_15 hq =>
    cases hstep
    exact .inl ⟨rfl, unlocking_goto ⟨rfl, nofun⟩⟩
  all_goals
    simp_all [MutexPoint.inUnlock]

theorem Inv.step_unlocking [Fintype θ] (h : Inv o w) (ht : w.Unlocking t) {a : MutexAction θ}
    (ha : a.thread = t) (hstep : w.step a = .ok w') :
    w'.returned = none ∧ w'.Unlocking t ∨ ∃ result, w'.returned = some (t, result) ∧
      w'.point t = .idle ∧ (result = .ok () ∨ w'.holds t = true) := by
  subst ha
  cases a with
  | next t => exact h.next_unlocking ht hstep
  | lock t call =>
    rw [MutexWorld.step] at hstep
    split_ifs at hstep with hq
    rw [Unlocking, show (MutexAction.lock t call).thread = t from rfl, hq] at ht
    cases ht.1
  | unlock t =>
    rw [MutexWorld.step] at hstep
    split at hstep
    · next hq =>
      rw [Unlocking, show (MutexAction.unlock t).thread = t from rfl, hq] at ht
      cases ht.1
    · cases hstep
  | wake t woken =>
    cases woken with
    | some u =>
      rw [MutexWorld.step] at hstep
      split at hstep
      · split_ifs at hstep
        cases hstep
        exact .inr ⟨_, rfl, finish_point_self _ _ _, .inl rfl⟩
      · cases hstep
    | none =>
      rw [MutexWorld.step] at hstep
      split_ifs at hstep
      cases hstep
      exact .inr ⟨_, rfl, finish_point_self _ _ _, .inl rfl⟩
  | interrupt t timedOut =>
    rw [MutexWorld.step] at hstep
    split at hstep
    · next call hq =>
      rw [Unlocking, show (MutexAction.interrupt t timedOut).thread = t from rfl, hq] at ht
      cases ht.1
    · cases hstep

/-- The thread is in `pthread_mutex_lock`. -/
def Locking (w : MutexWorld θ) (t : θ) : Prop := (w.point t).inLock pthreadMutexLock = true

theorem locking_goto (hp : p.inLock pthreadMutexLock = true) : (w.goto t p).Locking t := by
  rwa [Locking, goto_point_self]

theorem claimed_locking (w : MutexWorld θ) (t : θ) (state : ℤ) :
    let w' := w.claimed t state
    w'.returned = none ∧ w'.Locking t ∨
      ∃ result, w'.returned = some (t, result) ∧ w'.point t = .idle ∧ w'.holds t = true := by
  dsimp only
  unfold claimed
  cases w.mutexType with
  | fast =>
    exact .inr ⟨_, rfl, finish_point_self _ _ _, update_self _ _ _⟩
  | recursive | errorcheck => exact .inl ⟨rfl, locking_goto rfl⟩

theorem loop_locking (w : MutexWorld θ) (t : θ) (woken : Bool) (oldState : ℤ) :
    (w.loop t pthreadMutexLock woken oldState).returned = none ∧
      (w.loop t pthreadMutexLock woken oldState).Locking t := by
  unfold loop
  split_ifs
  · exact ⟨rfl, locking_goto rfl⟩
  · exact ⟨rfl, locking_goto rfl⟩

theorem Inv.next_locking (h : Inv o w) (ht : w.Locking t) (hstep : w.next t = .ok w') :
    w'.returned = none ∧ w'.Locking t ∨
      ∃ result, w'.returned = some (t, result) ∧ w'.point t = .idle ∧ w'.holds t = true := by
  unfold Locking at ht
  unfold MutexWorld.next at hstep
  split at hstep
  case h_4 call hq =>
    rw [hq] at ht
    split_ifs at hstep with hid
    · cases hstep
      exact .inr ⟨_, rfl, finish_point_self _ _ _, (h.ownerThreadId t hid).2.1⟩
    · cases hstep
      exact .inl ⟨rfl, locking_goto rfl⟩
    · cases hstep
      exact .inl ⟨rfl, locking_goto ht⟩
  case h_5 hq =>
    cases hstep
    exact .inr ⟨_, rfl, finish_point_self _ _ _, h.needsMutex t (by rw [hq]; rfl)⟩
  case h_6 call hq =>
    rw [hq] at ht
    obtain rfl : call = pthreadMutexLock := of_decide_eq_true ht
    split_ifs at hstep
    · cases hstep
      exact claimed_locking _ _ _
    · cases hstep
      exact .inl (loop_locking _ _ _ _)
  case h_7 call woken hq =>
    rw [hq] at ht
    split_ifs at hstep
    · cases hstep
      exact .inl ⟨rfl, locking_goto ht⟩
    · cases hstep
      exact .inl ⟨rfl, locking_goto ht⟩
    · cases hstep
      exact .inl ⟨rfl, locking_goto ht⟩
  case h_8 call woken hq =>
    rw [hq] at ht
    split_ifs at hstep
    · cases hstep
      exact .inl ⟨rfl, locking_goto ht⟩
    · cases hstep
      exact .inl ⟨rfl, locking_goto ht⟩
  case h_9 call woken hq =>
    rw [hq] at ht
    obtain rfl : call = pthreadMutexLock := of_decide_eq_true ht
    split_ifs at hstep
    · cases hstep
      exact claimed_locking _ _ _
    · cases hstep
      exact .inl (loop_locking _ _ _ _)
  case h_10 hq =>
    cases hstep
    exact .inr ⟨_, rfl, finish_point_self _ _ _, h.needsMutex t (by rw [hq]; rfl)⟩
  all_goals
    simp_all [MutexPoint.inLock]

theorem Inv.step_locking [Fintype θ] (h : Inv o w) (ht : w.Locking t) {a : MutexAction θ}
    (ha : a.thread = t) (hstep : w.step a = .ok w') :
    w'.returned = none ∧ w'.Locking t ∨
      ∃ result, w'.returned = some (t, result) ∧ w'.point t = .idle ∧ w'.holds t = true := by
  subst ha
  unfold Locking at ht
  cases a with
  | next t => exact h.next_locking ht hstep
  | lock t call =>
    rw [MutexWorld.step] at hstep
    split_ifs at hstep with hq
    rw [show (MutexAction.lock t call).thread = t from rfl, hq] at ht
    cases ht
  | unlock t =>
    rw [MutexWorld.step] at hstep
    split at hstep
    · next hq =>
      rw [show (MutexAction.unlock t).thread = t from rfl, hq] at ht
      cases ht
    · cases hstep
  | wake t woken =>
    cases woken with
    | some u =>
      rw [MutexWorld.step] at hstep
      split at hstep
      · split_ifs at hstep with hq
        rw [show (MutexAction.wake t (some u)).thread = t from rfl, hq] at ht
        cases ht
      · cases hstep
    | none =>
      rw [MutexWorld.step] at hstep
      split_ifs at hstep with hq
      rw [show (MutexAction.wake t none).thread = t from rfl, hq.1] at ht
      cases ht
  | interrupt t timedOut =>
    rw [MutexWorld.step] at hstep
    split at hstep
    · next call hq =>
      rw [show (MutexAction.interrupt t timedOut).thread = t from rfl, hq] at ht
      obtain rfl : call = pthreadMutexLock := of_decide_eq_true ht
      split_ifs at hstep with _ hnone
      · exact absurd rfl hnone
      · cases hstep
        exact .inl ⟨rfl, locking_goto rfl⟩
    · cases hstep

omit [DecidableEq θ] in
theorem Frame.idle (h : Frame t w w') {u : θ} (hu : u ≠ t) (hidle : w.point u = .idle) :
    w'.point u = .idle := by
  rcases (h u hu).2 with hpoint | ⟨call, hasleep, -⟩
  · rw [hpoint, hidle]
  · rw [hidle] at hasleep
    cases hasleep

omit [DecidableEq θ] in
theorem Frame.unlocking (h : Frame t w w') {u : θ} (hu : u ≠ t) (hunlock : w.Unlocking u) :
    w'.Unlocking u := by
  rcases (h u hu).2 with hpoint | ⟨call, hasleep, -⟩
  · unfold Unlocking
    rw [hpoint, (h u hu).1]
    exact hunlock
  · have hin := hunlock.1
    rw [hasleep] at hin
    cases hin

omit [DecidableEq θ] in
theorem Frame.locking (h : Frame t w w') {u : θ} (hu : u ≠ t) (hlock : w.Locking u) :
    w'.Locking u := by
  unfold Locking at *
  rcases (h u hu).2 with hpoint | ⟨call, hasleep, hwoken⟩
  · rwa [hpoint]
  · rw [hasleep] at hlock
    rwa [hwoken]

theorem eq_call_of_idle [Fintype θ] {a : MutexAction θ} (hidle : w.point a.thread = .idle)
    (hstep : w.step a = .ok w') : (∃ t call, a = .lock t call) ∨ ∃ t, a = .unlock t := by
  cases a with
  | lock t call => exact .inl ⟨t, call, rfl⟩
  | unlock t => exact .inr ⟨t, rfl⟩
  | next t =>
    rw [MutexWorld.step, MutexWorld.next, show w.point t = .idle from hidle] at hstep
    cases hstep
  | wake t woken =>
    have ht : w.point t ≠ .futexWake := by
      rw [show w.point t = .idle from hidle]
      exact nofun
    cases woken with
    | some u =>
      rw [MutexWorld.step] at hstep
      split at hstep
      · rw [if_neg ht] at hstep
        cases hstep
      · cases hstep
    | none =>
      rw [MutexWorld.step, if_neg (fun h => ht h.1)] at hstep
      cases hstep
  | interrupt t timedOut =>
    rw [MutexWorld.step, show w.point t = .idle from hidle] at hstep
    cases hstep

theorem unlocking_of_unlock [Fintype θ] (hheld : w.holds t = true)
    (hstep : w.step (.unlock t) = .ok w') : w'.Unlocking t := by
  rw [MutexWorld.step] at hstep
  split at hstep
  · split at hstep
    · cases hstep
      exact unlocking_goto ⟨rfl, nofun⟩
    · cases hstep
      exact unlocking_goto ⟨rfl, nofun⟩
    · cases hstep
      refine ⟨?_, fun _ => hheld⟩
      rw [goto_point_self]
      rfl
  · cases hstep

theorem locking_of_lock [Fintype θ] (hstep : w.step (.lock t pthreadMutexLock) = .ok w') :
    w'.Locking t := by
  rw [MutexWorld.step] at hstep
  split_ifs at hstep
  split at hstep
  · cases hstep
    exact locking_goto rfl
  · cases hstep
    exact locking_goto rfl
  · cases hstep
    exact locking_goto rfl

end

/-- A thread falls asleep, the mutex is released, and a third thread takes it before the sleeper. -/
def exampleRun : List (MutexAction (Fin 3)) :=
  [.lock 0 pthreadMutexLock, .next 0, .lock 1 pthreadMutexLock, .next 1, .next 1, .next 1, .unlock 0,
    .next 0, .next 0, .wake 0 (some 1), .lock 2 pthreadMutexTrylock, .next 2]

theorem mutexSound_of_run_example : ∃ w, exampleRun.foldlM step (init .fast) = .ok w ∧
    w.point 1 = .reclaim pthreadMutexLock true ∧ w.holds 2 = true ∧ w.Sound := by
  obtain ⟨w, hrun, hpoint, hholds⟩ := Runs.exists_ok_of_check
    (P := fun w => w.point 1 = .reclaim pthreadMutexLock true ∧ w.holds 2 = true)
    (fun w => w.point 1 = .reclaim pthreadMutexLock true ∧ w.holds 2 = true)
    (fun _ hcheck => of_decide_eq_true hcheck) (x := exampleRun.foldlM step (init .fast))
    (by decide +kernel)
  exact ⟨w, hrun, hpoint, hholds, mutexSound_of_run .fast hrun⟩

end MutexWorld

end SandboxingNaCl
