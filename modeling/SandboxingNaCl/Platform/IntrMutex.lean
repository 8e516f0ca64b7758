import SandboxingNaCl.Lib.KeyedLoop
import SandboxingNaCl.Service.Futex
import Mathlib.Data.Fintype.Basic

/-!
# Interruptible mutexes

`nacl_interruptible_mutex.c` and `nacl_interruptible_condvar.c`: a mutex, the condition variables
that are used with it, and the threads that call them.  What a call does under `mu` is one step.
The word `lock_state` says both whether the mutex is held and whether it has been interrupted; a
step that writes one over the other loses it.
-/

namespace SandboxingNaCl

open Runs KeyedLoop Function

/-- `enum NaClIntrMutexState`. -/
inductive NaClIntrMutexState
  | free | held | interrupted
deriving DecidableEq

/-- Where a thread is.  One that waits for the mutex is asleep on its `cv`, or awake and about to
take `mu`. -/
inductive IntrPoint (κ : Type)
  | idle
  /-- In the loop of `NaClIntrMutexLock`. -/
  | lock (asleep : Bool)
  /-- Asleep on a condition variable; `timed` says that `ts` is not null. -/
  | wait (cp : κ) (timed : Bool)
  /-- In the loop of `NaClIntrCondVarWait`. -/
  | reacquire (rv : NaClSyncStatus) (asleep : Bool)
deriving DecidableEq

namespace IntrPoint

variable {κ : Type}

/-- Asleep on the `cv` of the mutex. -/
def onMutex : IntrPoint κ → Bool
  | .lock asleep | .reacquire _ asleep => asleep
  | _ => false

def onCondVar : IntrPoint κ → Bool
  | .wait _ _ => true
  | _ => false

def onCond [DecidableEq κ] (cp : κ) : IntrPoint κ → Bool
  | .wait cp' _ => cp' = cp
  | _ => false

def goesOn : IntrPoint κ → Bool
  | .lock asleep | .reacquire _ asleep => !asleep
  | _ => false

/-- In `NaClIntrCondVarWait`. -/
def inWait : IntrPoint κ → Bool
  | .wait _ _ | .reacquire _ _ => true
  | _ => false

/-- The point of a sleeper that is woken. -/
def woken : IntrPoint κ → IntrPoint κ
  | .idle => .idle
  | .lock _ => .lock false
  | .wait _ _ => .reacquire .ok false
  | .reacquire rv _ => .reacquire rv false

end IntrPoint

/-- The calls that return a status. -/
inductive IntrCall
  | lock | tryLock | unlock | wait
deriving DecidableEq

/-- A mutex, and the threads that use it with condition variables of `κ`. -/
structure IntrWorld (θ κ : Type) where
  lockState : NaClIntrMutexState
  point : θ → IntrPoint κ
  /-- The thread has set `lock_state` to held, and has not given the mutex back. -/
  owns : θ → Bool
  /-- `NaClIntrMutexLock`, `NaClIntrMutexTryLock` or `NaClIntrCondVarWait` has reported success to
  the thread, and it has not unlocked since. -/
  reported : θ → Bool
  /-- There has been a `NaClIntrMutexIntr` since the last `NaClIntrMutexReset`. -/
  sinceIntr : Bool
  /-- The thread was asleep on a condition variable when that was interrupted, and has not begun
  another wait. -/
  condIntr : θ → Bool
  returned : Option (θ × IntrCall × NaClSyncStatus)

/-- What happens next.  A signal names the sleeper that it wakes, if there is one. -/
inductive IntrAction (θ κ : Type)
  | lock (t : θ)
  | tryLock (t : θ)
  | unlock (t : θ) (woken : Option θ)
  | wait (t : θ) (cp : κ) (timed : Bool) (woken : Option θ)
  | signal (cp : κ) (woken : Option θ)
  | broadcast (cp : κ)
  | mutexIntr
  | condVarIntr (cp : κ)
  | reset
  /-- A thread that has been woken has `mu` again. -/
  | resume (t : θ)
  | wake (t : θ)
  /-- `NaClCondVarTimedWaitAbsolute` has run out of time. -/
  | timeout (t : θ)
deriving DecidableEq

inductive IntrError
  | blocked
  /-- `LOG_FATAL` in `NaClIntrMutexReset`. -/
  | notInterrupted

namespace IntrWorld

variable {θ κ : Type} [DecidableEq θ]

/-- After `NaClIntrMutexCtor`. -/
def init : IntrWorld θ κ where
  lockState := .free
  point _ := .idle
  owns _ := false
  reported _ := false
  sinceIntr := false
  condIntr _ := false
  returned := none

def goto (w : IntrWorld θ κ) (t : θ) (point : IntrPoint κ) : IntrWorld θ κ :=
  { w with point := Function.update w.point t point, returned := none }

/-- The end of a call. -/
def finish (w : IntrWorld θ κ) (t : θ) (call : IntrCall) (rv : NaClSyncStatus) : IntrWorld θ κ :=
  { w with
    point := Function.update w.point t .idle
    reported := if call ≠ .unlock ∧ rv = .ok then Function.update w.reported t true else w.reported
    returned := some (t, call, rv) }

/-- `lock_state` becomes held. -/
def take (w : IntrWorld θ κ) (t : θ) : IntrWorld θ κ :=
  { w with lockState := .held, owns := Function.update w.owns t true }

/-- `lock_state` becomes free. -/
def release (w : IntrWorld θ κ) (t : θ) (point : θ → IntrPoint κ) : IntrWorld θ κ :=
  { w with lockState := .free, point, owns := Function.update w.owns t false }

/-- `NaClCondVarBroadcast`: all sleepers are woken. -/
def wakeAll (sleeping : IntrPoint κ → Bool) (point : θ → IntrPoint κ) (u : θ) : IntrPoint κ :=
  if sleeping (point u) then (point u).woken else point u

/-- `NaClIntrMutexLock`, from the start or from the wait in its loop. -/
def lock (w : IntrWorld θ κ) (t : θ) : IntrWorld θ κ :=
  match w.lockState with
  | .held => w.goto t (.lock true)
  | .free => (w.take t).finish t .lock .ok
  | .interrupted => w.finish t .lock .mutexInterrupted

/-- `NaClIntrMutexTryLock`. -/
def tryLock (w : IntrWorld θ κ) (t : θ) : IntrWorld θ κ :=
  match w.lockState with
  | .free => (w.take t).finish t .tryLock .ok
  | .held => w.finish t .tryLock .busy
  | .interrupted => w.finish t .tryLock .mutexInterrupted

/-- The loop of `NaClIntrCondVarWait`, after the wait on the condition variable. -/
def reacquire (w : IntrWorld θ κ) (t : θ) (rv : NaClSyncStatus) : IntrWorld θ κ :=
  match w.lockState with
  | .held => w.goto t (.reacquire rv true)
  | .free => (w.take t).finish t .wait rv
  | .interrupted => w.finish t .wait rv

/-- `NaClIntrMutexIntr`. -/
def mutexIntr (w : IntrWorld θ κ) : IntrWorld θ κ :=
  { w with
    lockState := .interrupted
    point := if w.lockState = .held then wakeAll IntrPoint.onMutex w.point else w.point
    sinceIntr := true
    returned := none }

/-- `NaClIntrMutexReset`. -/
def reset (w : IntrWorld θ κ) : Except IntrError (IntrWorld θ κ) :=
  if w.lockState = .interrupted then
    .ok { w with lockState := .free, sinceIntr := false, returned := none }
  else .error .notInterrupted

/-- The thread goes on with its call. -/
def resume (w : IntrWorld θ κ) (t : θ) : Except IntrError (IntrWorld θ κ) :=
  match w.point t with
  | .lock false => .ok (w.lock t)
  | .reacquire rv false => .ok (w.reacquire t rv)
  | _ => .error .blocked

section

variable [Fintype θ]

/-- `NaClCondVarSignal`: one of the sleepers is woken, if there are any. -/
def wakeOne (sleeping : IntrPoint κ → Bool) (point : θ → IntrPoint κ) :
    Option θ → Except IntrError (θ → IntrPoint κ)
  | none => if ∃ u, sleeping (point u) = true then .error .blocked else .ok point
  | some u =>
    if sleeping (point u) = true then .ok (Function.update point u (point u).woken)
    else .error .blocked

/-- `NaClIntrMutexUnlock`. -/
def unlock (w : IntrWorld θ κ) (t : θ) (woken : Option θ) : Except IntrError (IntrWorld θ κ) :=
  let rv := if w.lockState ≠ .held then .mutexPermission else .ok
  (wakeOne IntrPoint.onMutex w.point woken).map fun point =>
    { w.release t point with reported := Function.update w.reported t false }.finish t .unlock rv

/-- `NaClIntrCondVarWait`, up to the wait on the condition variable. -/
def wait (w : IntrWorld θ κ) (t : θ) (cp : κ) (timed : Bool) (woken : Option θ) :
    Except IntrError (IntrWorld θ κ) :=
  match w.lockState with
  | .free => .ok (w.finish t .wait .mutexPermission)
  | .interrupted => .ok (w.finish t .wait .internalError)
  | .held =>
    (wakeOne IntrPoint.onMutex w.point woken).map fun point =>
      { w.release t point with condIntr := Function.update w.condIntr t false }.goto t
        (.wait cp timed)

variable [DecidableEq κ]

/-- `NaClIntrCondVarIntr`. -/
def condVarIntr (w : IntrWorld θ κ) (cp : κ) : IntrWorld θ κ :=
  { w with
    point := wakeAll (IntrPoint.onCond cp) w.point
    condIntr := fun u => w.condIntr u || (w.point u).onCond cp
    returned := none }

/-- One step. -/
def step (w : IntrWorld θ κ) : IntrAction θ κ → Except IntrError (IntrWorld θ κ)
  | .lock t => if w.point t = .idle then .ok (w.lock t) else .error .blocked
  | .tryLock t => if w.point t = .idle then .ok (w.tryLock t) else .error .blocked
  | .unlock t woken => if w.point t = .idle then w.unlock t woken else .error .blocked
  | .wait t cp timed woken =>
    if w.point t = .idle then w.wait t cp timed woken else .error .blocked
  | .signal cp woken =>
    (wakeOne (IntrPoint.onCond cp) w.point woken).map fun point =>
      { w with point, returned := none }
  | .broadcast cp =>
    .ok { w with point := wakeAll (IntrPoint.onCond cp) w.point, returned := none }
  | .mutexIntr => .ok w.mutexIntr
  | .condVarIntr cp => .ok (w.condVarIntr cp)
  | .reset => w.reset
  | .resume t => w.resume t
  | .wake t =>
    if (w.point t).onMutex ∨ (w.point t).onCondVar then .ok (w.goto t (w.point t).woken)
    else .error .blocked
  | .timeout t =>
    match w.point t with
    | .wait _ true => .ok (w.goto t (.reacquire .condvarTimedout false))
    | _ => .error .blocked

/-- What the callers have to keep to: a thread unlocks after a success has been reported to it; it
waits with a mutex that it has; and no thread still counts on the mutex when it is reset. -/
def Permitted (w : IntrWorld θ κ) : IntrAction θ κ → Prop
  | .unlock t _ => w.reported t = true
  | .wait t _ _ _ => w.lockState = .held → w.reported t = true
  | .reset => ∀ t, w.reported t = true → (w.point t).inWait = true
  | _ => True

/-- The step does not lose an interruption or what goes with it: `NaClIntrMutexUnlock` does not
write over one, a wait that is to report success does not find one in place of the mutex, and
`NaClIntrMutexIntr` leaves no sleeper behind on a free mutex. -/
def Keeps (w : IntrWorld θ κ) : IntrAction θ κ → Prop
  | .unlock _ _ => w.lockState ≠ .interrupted
  | .resume t => w.lockState = .interrupted → w.point t ≠ .reacquire .ok false
  | .mutexIntr => w.lockState = .free → ∀ t, (w.point t).onMutex = false
  | _ => True

instance (w : IntrWorld θ κ) (a : IntrAction θ κ) : Decidable (w.Permitted a) := by
  unfold Permitted
  cases a <;> infer_instance

instance (w : IntrWorld θ κ) (a : IntrAction θ κ) : Decidable (w.Keeps a) := by
  unfold Keeps
  cases a <;> infer_instance

/-- What the mutex and its condition variables promise. -/
structure Sound (w : IntrWorld θ κ) : Prop where
  unique : ∀ t u, w.owns t = true → w.owns u = true → t = u
  /-- A mutex that is held has an owner, who is not in a wait. -/
  held : w.lockState = .held → ∃ t, w.owns t = true ∧ (w.point t).inWait = false
  /-- After an interruption, `NaClIntrMutexLock` and `NaClIntrMutexTryLock` report it. -/
  interrupted : w.sinceIntr = true → ∀ t call rv, w.returned = some (t, call, rv) →
    call = .lock ∨ call = .tryLock → rv = .mutexInterrupted
  awake : w.sinceIntr = true → ∀ t, (w.point t).onMutex = false
  /-- A thread whose wait has been interrupted is not asleep in it. -/
  condAwake : ∀ t, w.condIntr t = true → (w.point t).onCondVar = false
  waited : ∀ t, w.returned = some (t, .wait, .ok) → w.owns t = true
  /-- A thread is asleep on a free mutex only while another is awake and about to take it. -/
  free : w.lockState = .free → ∀ t, (w.point t).onMutex = true →
    ∃ u w', w.step (.resume u) = .ok w' ∧ w'.owns u = true

end

/-! ## What every step keeps -/

section

omit [DecidableEq θ]

variable {w w' : IntrWorld θ κ} {t u : θ} {p q : IntrPoint κ}

/-- Between two points of a sleeper, it is woken or nothing happens to it. -/
def Wakes (p q : IntrPoint κ) : Prop :=
  q = p ∨ q.goesOn = true ∧ q.inWait = p.inWait ∧ (p.onMutex = true ∨ p.onCondVar = true)

theorem Wakes.woken (hp : p.onMutex = true ∨ p.onCondVar = true) : Wakes p p.woken := by
  refine Or.inr ⟨?_, ?_, hp⟩
  · cases p with
    | idle => simp [IntrPoint.onMutex, IntrPoint.onCondVar] at hp
    | _ => rfl
  · cases p <;> rfl

theorem not_onMutex_of_goesOn (h : p.goesOn = true) : p.onMutex = false := by
  cases p with
  | lock asleep | reacquire rv asleep => simpa [IntrPoint.goesOn, IntrPoint.onMutex] using h
  | _ => rfl

theorem not_onCondVar_of_goesOn (h : p.goesOn = true) : p.onCondVar = false := by
  cases p with
  | wait cp timed => cases h
  | _ => rfl

theorem Wakes.inWait (h : Wakes p q) : q.inWait = p.inWait := by
  rcases h with rfl | h
  · rfl
  · exact h.2.1

theorem Wakes.onMutex (h : Wakes p q) (hq : q.onMutex = true) : p.onMutex = true := by
  rcases h with rfl | h
  · exact hq
  · rw [not_onMutex_of_goesOn h.1] at hq
    cases hq

theorem Wakes.onCondVar (h : Wakes p q) (hp : p.onCondVar = false) : q.onCondVar = false := by
  rcases h with rfl | h
  · exact hp
  · exact not_onCondVar_of_goesOn h.1

theorem Wakes.goesOn (h : Wakes p q) (hp : p.goesOn = true) : q.goesOn = true := by
  rcases h with rfl | h
  · exact hp
  · exact h.1

theorem wakes_wakeAll {sleeping : IntrPoint κ → Bool} {point : θ → IntrPoint κ}
    (hsleeping : ∀ p, sleeping p = true → p.onMutex = true ∨ p.onCondVar = true)
    (u : θ) : Wakes (point u) (wakeAll sleeping point u) := by
  unfold wakeAll
  split_ifs with hu
  · exact .woken (hsleeping _ hu)
  · exact Or.inl rfl

/-- What every step keeps. -/
structure Inv (w : IntrWorld θ κ) : Prop where
  unique : ∀ t u, w.owns t = true → w.owns u = true → t = u
  owner : ∀ t, w.owns t = true →
    w.lockState ≠ .free ∧ w.reported t = true ∧ (w.point t).inWait = false
  held : w.lockState = .held → ∃ t, w.owns t = true
  waiting : ∀ t, (w.point t).inWait = true → w.reported t = true
  /-- As long as there is no interruption, a thread outside a wait has what was reported to it. -/
  reported : w.lockState ≠ .interrupted → ∀ t, w.reported t = true →
    (w.point t).inWait = true ∨ w.owns t = true
  since : w.sinceIntr = true → w.lockState = .interrupted
  awake : w.lockState = .interrupted → ∀ t, (w.point t).onMutex = false
  woken : w.lockState = .free → ∀ t, (w.point t).onMutex = true → ∃ u, (w.point u).goesOn = true
  condAwake : ∀ t, w.condIntr t = true → (w.point t).onCondVar = false

/-- What a step that ends a call has to return. -/
structure Returns (w : IntrWorld θ κ) : Prop where
  interrupted : w.sinceIntr = true → ∀ t call rv, w.returned = some (t, call, rv) →
    call = .lock ∨ call = .tryLock → rv = .mutexInterrupted
  waited : ∀ t, w.returned = some (t, .wait, .ok) → w.owns t = true

theorem inv_init : (init : IntrWorld θ κ).Inv where
  unique _ _ h := nomatch h
  owner _ h := nomatch h
  held h := nomatch h
  waiting _ h := nomatch h
  reported _ _ h := nomatch h
  since h := nomatch h
  awake h := nomatch h
  woken _ _ h := nomatch h
  condAwake _ h := nomatch h

theorem Inv.wakes (h : w.Inv) {point : θ → IntrPoint κ} {condIntr : θ → Bool}
    {returned : Option (θ × IntrCall × NaClSyncStatus)} (hpoint : ∀ t, Wakes (w.point t) (point t))
    (hcond : ∀ t, condIntr t = true → (point t).onCondVar = false) :
    Inv { w with point, condIntr, returned } where
  unique := h.unique
  owner t ht := ⟨(h.owner t ht).1, (h.owner t ht).2.1, (hpoint t).inWait.trans (h.owner t ht).2.2⟩
  held := h.held
  waiting t ht := h.waiting t ((hpoint t).inWait.symm.trans ht)
  reported hintr t ht := by
    change (point t).inWait = true ∨ w.owns t = true
    rw [(hpoint t).inWait]
    exact h.reported hintr t ht
  since := h.since
  awake hintr t := by
    have hno := h.awake hintr t
    by_contra hon
    rw [(hpoint t).onMutex (by simpa using hon)] at hno
    cases hno
  woken hfree t ht := by
    obtain ⟨u, hu⟩ := h.woken hfree t ((hpoint t).onMutex ht)
    exact ⟨u, (hpoint u).goesOn hu⟩
  condAwake := hcond

theorem inv_of_free (hfree : w.lockState = .free) (hnone : ∀ t, w.owns t = false)
    (hreported : ∀ t, w.reported t = true ↔ (w.point t).inWait = true)
    (hsince : w.sinceIntr = false)
    (hwoken : ∀ t, (w.point t).onMutex = true → ∃ u, (w.point u).goesOn = true)
    (hcond : ∀ t, w.condIntr t = true → (w.point t).onCondVar = false) : w.Inv where
  unique t u ht := by rw [hnone t] at ht; cases ht
  owner t ht := by rw [hnone t] at ht; cases ht
  held h := by rw [hfree] at h; cases h
  waiting t := (hreported t).2
  reported _ t ht := Or.inl ((hreported t).1 ht)
  since h := by rw [hsince] at h; cases h
  awake h := by rw [hfree] at h; cases h
  woken _ := hwoken
  condAwake := hcond

theorem Inv.mutexIntr (h : w.Inv)
    (hfree : w.lockState = .free → ∀ t, (w.point t).onMutex = false) : w.mutexIntr.Inv := by
  have hwakes (u : θ) : Wakes (w.point u) (w.mutexIntr.point u) := by
    change Wakes _ ((if w.lockState = .held then wakeAll IntrPoint.onMutex w.point else w.point) u)
    split_ifs
    · exact wakes_wakeAll (fun _ => Or.inl) u
    · exact Or.inl rfl
  refine ⟨h.unique, fun u hu => ⟨nofun, (h.owner u hu).2.1, ?_⟩, nofun, fun u hu => ?_,
    fun hne => absurd rfl hne, fun _ => rfl, fun _ u => ?_, nofun, fun u hu => ?_⟩
  · exact (hwakes u).inWait.trans (h.owner u hu).2.2
  · exact h.waiting u ((hwakes u).inWait.symm.trans hu)
  · change ((if w.lockState = .held then wakeAll IntrPoint.onMutex w.point
      else w.point) u).onMutex = _
    cases hstate : w.lockState with
    | held =>
      rw [if_pos rfl]
      unfold wakeAll
      split_ifs with hon
      · cases w.point u <;> rfl
      · simpa using hon
    | free =>
      rw [if_neg (by decide)]
      exact hfree hstate u
    | interrupted =>
      rw [if_neg (by decide)]
      exact h.awake hstate u
  · exact (hwakes u).onCondVar (h.condAwake u hu)

theorem Inv.reset (h : w.Inv) (hquiet : ∀ t, w.reported t = true → (w.point t).inWait = true)
    (hstep : w.reset = .ok w') : w'.Inv := by
  unfold IntrWorld.reset at hstep
  split_ifs at hstep with hintr
  cases hstep
  refine inv_of_free rfl (fun u => ?_) (fun u => ⟨hquiet u, h.waiting u⟩) rfl (fun u hu => ?_)
    h.condAwake
  · by_contra hu
    obtain ⟨-, hrep, hout⟩ := h.owner u (by simpa using hu)
    rw [hquiet u hrep] at hout
    cases hout
  · have hno := h.awake hintr u
    rw [show (w.point u).onMutex = true from hu] at hno
    cases hno

theorem Inv.not_owns_of_free (h : w.Inv) (hfree : w.lockState = .free) (t : θ) :
    w.owns t = false := by
  by_contra ht
  exact (h.owner t (by simpa using ht)).1 hfree

end

section

variable {w w' : IntrWorld θ κ} {t : θ} {q : IntrPoint κ} {call : IntrCall} {rv : NaClSyncStatus}

theorem Inv.fail (h : w.Inv) (hrv : rv ≠ .ok)
    (ht : w.point t = .idle ∨ w.lockState = .interrupted) : (w.finish t call rv).Inv := by
  have hreported : (w.finish t call rv).reported = w.reported := if_neg fun hok => hrv hok.2
  have hpoint (u : θ) : (w.finish t call rv).point u = if u = t then .idle else w.point u :=
    update_apply _ _ _ _
  have hwait (u : θ) (hu : ((w.finish t call rv).point u).inWait = true) :
      (w.point u).inWait = true := by
    rw [hpoint] at hu
    split_ifs at hu
    · cases hu
    · exact hu
  refine ⟨h.unique, fun u hu => ?_, h.held, fun u hu => ?_, fun hintr u hu => ?_, h.since,
    fun hintr u => ?_, fun hfree u hu => ?_, fun u hu => ?_⟩
  · refine ⟨(h.owner u hu).1, hreported ▸ (h.owner u hu).2.1, ?_⟩
    have hout := (h.owner u hu).2.2
    by_contra hin
    rw [hwait u (by simpa using hin)] at hout
    cases hout
  · rw [hreported]
    exact h.waiting u (hwait u hu)
  · have hidle := ht.resolve_right hintr
    rw [hreported] at hu
    rcases h.reported hintr u hu with hin | howns
    · refine Or.inl ?_
      rw [hpoint, if_neg ?_]
      · exact hin
      · rintro rfl
        rw [hidle] at hin
        cases hin
    · exact Or.inr howns
  · rw [hpoint]
    split_ifs
    · rfl
    · exact h.awake hintr u
  · have hidle : w.point t = .idle := ht.resolve_right fun hintr => by
      rw [show w.lockState = .free from hfree] at hintr
      cases hintr
    have hon : (w.point u).onMutex = true := by
      rw [hpoint] at hu
      split_ifs at hu
      · cases hu
      · exact hu
    obtain ⟨v, hv⟩ := h.woken hfree u hon
    refine ⟨v, ?_⟩
    rw [hpoint, if_neg ?_]
    · exact hv
    · rintro rfl
      rw [hidle] at hv
      cases hv
  · rw [hpoint]
    split_ifs
    · rfl
    · exact h.condAwake u hu

theorem Inv.take (h : w.Inv) (hfree : w.lockState = .free)
    (hrv : call ≠ .unlock ∧ rv = .ok ∨ w.reported t = true) :
    ((w.take t).finish t call rv).Inv := by
  have hnone := h.not_owns_of_free hfree
  have howns (u : θ) : ((w.take t).finish t call rv).owns u = true ↔ u = t := by
    change update w.owns t true u = true ↔ _
    rw [update_apply]
    split_ifs with heq
    · exact iff_of_true rfl heq
    · rw [hnone u]
      exact iff_of_false nofun heq
  have hpoint (u : θ) :
      ((w.take t).finish t call rv).point u = if u = t then .idle else w.point u :=
    update_apply _ _ _ _
  have hreported (u : θ) : ((w.take t).finish t call rv).reported u = true ↔
      u = t ∨ w.reported u = true := by
    change (if _ then update w.reported t true else w.reported) u = true ↔ _
    split_ifs with hok
    · rw [update_apply]
      split_ifs with heq
      · exact iff_of_true rfl (Or.inl heq)
      · exact ⟨Or.inr, fun hu => hu.resolve_left heq⟩
    · refine ⟨Or.inr, fun hu => hu.elim ?_ id⟩
      rintro rfl
      exact hrv.resolve_left hok
  refine ⟨fun u v hu hv => ((howns u).1 hu).trans ((howns v).1 hv).symm, fun u hu => ?_,
    fun _ => ⟨t, (howns t).2 rfl⟩, fun u hu => ?_, fun _ u hu => ?_, fun hsince => ?_, nofun, nofun,
    fun u hu => ?_⟩
  · have heq := (howns u).1 hu
    refine ⟨nofun, (hreported u).2 (Or.inl heq), ?_⟩
    rw [hpoint, if_pos heq]
    rfl
  · rw [hpoint] at hu
    split_ifs at hu with heq
    · cases hu
    · exact (hreported u).2 (Or.inr (h.waiting u hu))
  · by_cases heq : u = t
    · exact Or.inr ((howns u).2 heq)
    · have hold := ((hreported u).1 hu).resolve_left heq
      have hfree' : w.lockState ≠ .interrupted := by rw [hfree]; decide
      have hin := (h.reported hfree' u hold).resolve_right (by simp [hnone u])
      refine Or.inl ?_
      rwa [hpoint, if_neg heq]
  · have hintr := h.since hsince
    rw [hfree] at hintr
    cases hintr
  · rw [hpoint]
    split_ifs
    · rfl
    · exact h.condAwake u hu

theorem Inv.sleep (h : w.Inv) (hheld : w.lockState = .held) (hin : q.inWait = (w.point t).inWait)
    (hcond : q.onCondVar = false) : (w.goto t q).Inv := by
  have hpoint (u : θ) : (w.goto t q).point u = if u = t then q else w.point u :=
    update_apply _ _ _ _
  have hwait (u : θ) : ((w.goto t q).point u).inWait = (w.point u).inWait := by
    rw [hpoint]
    split_ifs with heq
    · rw [hin, heq]
    · rfl
  have hother {state : NaClIntrMutexState} (hstate : state ≠ .held) : w.lockState ≠ state := by
    rw [hheld]
    exact hstate.symm
  refine ⟨h.unique, fun u hu => ?_, h.held, fun u hu => ?_, fun hintr u hu => ?_, h.since,
    fun hintr => absurd hintr (hother nofun), fun hfree => absurd hfree (hother nofun),
    fun u hu => ?_⟩
  · exact ⟨(h.owner u hu).1, (h.owner u hu).2.1, (hwait u).trans (h.owner u hu).2.2⟩
  · exact h.waiting u ((hwait u).symm.trans hu)
  · rw [hwait]
    exact h.reported hintr u hu
  · rw [hpoint]
    split_ifs
    · exact hcond
    · exact h.condAwake u hu

end

section

variable [Fintype θ] {w w' : IntrWorld θ κ} {t : θ} {p q : IntrPoint κ} {woken : Option θ}
  {sleeping : IntrPoint κ → Bool} {point point' : θ → IntrPoint κ}

omit [Fintype θ] in
theorem wakes_update (hp : (point t).onMutex = true ∨ (point t).onCondVar = true) (u : θ) :
    Wakes (point u) (update point t (point t).woken u) := by
  rw [update_apply]
  split_ifs with heq
  · rw [heq]
    exact .woken hp
  · exact Or.inl rfl

theorem wakes_of_wakeOne (h : wakeOne sleeping point woken = .ok point')
    (hsleeping : ∀ p, sleeping p = true → p.onMutex = true ∨ p.onCondVar = true) (u : θ) :
    Wakes (point u) (point' u) := by
  cases woken with
  | none =>
    rw [wakeOne] at h
    split_ifs at h
    cases h
    exact Or.inl rfl
  | some v =>
    rw [wakeOne] at h
    split_ifs at h with hv
    cases h
    exact wakes_update (hsleeping _ hv) u

theorem exists_goesOn_of_wakeOne (h : wakeOne IntrPoint.onMutex point woken = .ok point')
    {u : θ} (hu : (point u).onMutex = true) : ∃ v, (point' v).goesOn = true := by
  cases woken with
  | none =>
    rw [wakeOne, if_pos ⟨u, hu⟩] at h
    cases h
  | some v =>
    rw [wakeOne] at h
    split_ifs at h with hv
    cases h
    refine ⟨v, ?_⟩
    rw [update_self]
    revert hv
    cases point v with
    | lock asleep | reacquire rv asleep => exact fun _ => rfl
    | _ => exact nofun

theorem Inv.release (h : w.Inv) (hheld : w.lockState = .held) (ht : w.point t = .idle)
    (howns : w.owns t = true) (hsignal : wakeOne IntrPoint.onMutex w.point woken = .ok point)
    (hq : q.onMutex = false) (hfree : w'.lockState = .free)
    (howns' : w'.owns = update w.owns t false)
    (hpoint' : w'.point = update point t q) (hsince : w'.sinceIntr = w.sinceIntr)
    (hreported : ∀ u, w'.reported u = if u = t then q.inWait else w.reported u)
    (hcond : ∀ u, w'.condIntr u = true → w.condIntr u = true ∧ (u = t → q.onCondVar = false)) :
    w'.Inv := by
  have hwakes := wakes_of_wakeOne hsignal fun _ => Or.inl
  have hpoint (u : θ) : w'.point u = if u = t then q else point u := by
    rw [hpoint', update_apply]
  refine inv_of_free hfree (fun u => ?_) (fun u => ?_) ?_ (fun u hu => ?_) fun u hu => ?_
  · rw [howns', update_apply]
    split_ifs with heq
    · rfl
    · by_contra hu
      exact heq (h.unique u t (by simpa using hu) howns)
  · rw [hreported, hpoint]
    split_ifs with heq
    · rfl
    · rw [(hwakes u).inWait]
      refine ⟨fun hu => ?_, h.waiting u⟩
      refine (h.reported (by rw [hheld]; decide) u hu).resolve_right fun hu => ?_
      exact heq (h.unique u t hu howns)
  · by_contra hon
    rw [hsince] at hon
    have hintr := h.since (by simpa using hon)
    rw [hheld] at hintr
    cases hintr
  · have hon : (w.point u).onMutex = true := by
      rw [hpoint] at hu
      split_ifs at hu
      · rw [hq] at hu
        cases hu
      · exact (hwakes u).onMutex hu
    obtain ⟨v, hv⟩ := exists_goesOn_of_wakeOne hsignal hon
    refine ⟨v, ?_⟩
    rw [hpoint, if_neg ?_]
    · exact hv
    · rintro rfl
      rcases hwakes v with heq | ⟨-, -, hasleep⟩
      · rw [heq, ht] at hv
        cases hv
      · rw [ht] at hasleep
        simp [IntrPoint.onMutex, IntrPoint.onCondVar] at hasleep
  · rw [hpoint]
    split_ifs with heq
    · exact (hcond u hu).2 heq
    · exact (hwakes u).onCondVar (h.condAwake u (hcond u hu).1)

end

/-! ## Runs -/

section

variable {w w' : IntrWorld θ κ} {t : θ} {call : IntrCall} {rv : NaClSyncStatus}

omit [DecidableEq θ] in
theorem returns_of_none (h : w.returned = none) : w.Returns :=
  ⟨fun _ _ _ _ heq => (nomatch h.symm.trans heq), fun _ heq => (nomatch h.symm.trans heq)⟩

theorem returns_finish
    (hintr : w.sinceIntr = true → call = .lock ∨ call = .tryLock → rv = .mutexInterrupted)
    (hwait : call = .wait → rv = .ok → w.owns t = true) : (w.finish t call rv).Returns := by
  refine ⟨fun hsince t' call' rv' heq hcall => ?_, fun t' heq => ?_⟩
  · cases heq
    exact hintr hsince hcall
  · cases heq
    exact hwait rfl rfl

theorem Inv.returns_take (h : w.Inv) (hfree : w.lockState = .free) :
    ((w.take t).finish t call rv).Returns := by
  refine returns_finish (fun hsince => ?_) fun _ _ => ?_
  · have hintr := h.since hsince
    rw [hfree] at hintr
    cases hintr
  · exact update_self _ _ _

theorem Inv.lock (h : w.Inv) (hin : (w.point t).inWait = false) :
    (w.lock t).Inv ∧ (w.lock t).Returns := by
  unfold IntrWorld.lock
  cases hstate : w.lockState with
  | held => exact ⟨h.sleep hstate hin.symm rfl, returns_of_none rfl⟩
  | free => exact ⟨h.take hstate (Or.inl ⟨nofun, rfl⟩), h.returns_take hstate⟩
  | interrupted =>
    exact ⟨h.fail nofun (Or.inr hstate), returns_finish (fun _ _ => rfl) nofun⟩

theorem Inv.tryLock (h : w.Inv) (ht : w.point t = .idle) :
    (w.tryLock t).Inv ∧ (w.tryLock t).Returns := by
  unfold IntrWorld.tryLock
  cases hstate : w.lockState with
  | held =>
    refine ⟨h.fail nofun (Or.inl ht), returns_finish (fun hsince => ?_) nofun⟩
    have hintr := h.since hsince
    rw [hstate] at hintr
    cases hintr
  | free => exact ⟨h.take hstate (Or.inl ⟨nofun, rfl⟩), h.returns_take hstate⟩
  | interrupted =>
    exact ⟨h.fail nofun (Or.inr hstate), returns_finish (fun _ _ => rfl) nofun⟩

theorem Inv.reacquire (h : w.Inv) (ht : w.point t = .reacquire rv false)
    (hrv : w.lockState = .interrupted → rv ≠ .ok) :
    (w.reacquire t rv).Inv ∧ (w.reacquire t rv).Returns := by
  have hin : (w.point t).inWait = true := by rw [ht]; rfl
  unfold IntrWorld.reacquire
  cases hstate : w.lockState with
  | held => exact ⟨h.sleep hstate hin.symm rfl, returns_of_none rfl⟩
  | free => exact ⟨h.take hstate (Or.inr (h.waiting t hin)), h.returns_take hstate⟩
  | interrupted =>
    exact ⟨h.fail (hrv hstate) (Or.inr hstate),
      returns_finish (fun _ hcall => by simp at hcall) fun _ hok => absurd hok (hrv hstate)⟩

theorem Inv.resume (h : w.Inv)
    (hkeeps : w.lockState = .interrupted → w.point t ≠ .reacquire .ok false)
    (hstep : w.resume t = .ok w') : w'.Inv ∧ w'.Returns := by
  unfold IntrWorld.resume at hstep
  split at hstep
  · next hpoint =>
    cases hstep
    exact h.lock (by rw [hpoint]; rfl)
  · next rv hpoint =>
    cases hstep
    refine h.reacquire hpoint fun hintr hok => hkeeps hintr ?_
    rw [hpoint, hok]
  · cases hstep

variable [Fintype θ] {woken : Option θ} {cp : κ} {timed : Bool}

omit [DecidableEq θ] [Fintype θ] in
theorem Inv.owns_of_reported (h : w.Inv) (ht : w.point t = .idle)
    (hstate : w.lockState ≠ .interrupted) (hreported : w.reported t = true) :
    w.owns t = true := by
  refine (h.reported hstate t hreported).resolve_left ?_
  rw [ht]
  nofun

theorem Inv.unlock (h : w.Inv) (ht : w.point t = .idle) (hreported : w.reported t = true)
    (hkeeps : w.lockState ≠ .interrupted) (hstep : w.unlock t woken = .ok w') :
    w'.Inv ∧ w'.Returns := by
  have howns := h.owns_of_reported ht hkeeps hreported
  have hheld : w.lockState = .held := by
    have hfree := (h.owner t howns).1
    cases hstate : w.lockState with
    | held => rfl
    | free => exact absurd hstate hfree
    | interrupted => exact absurd hstate hkeeps
  obtain ⟨point, hsignal, rfl⟩ := map_eq_ok.1 hstep
  refine ⟨h.release hheld ht howns hsignal rfl rfl rfl rfl rfl (fun u => ?_)
    fun u hu => ⟨hu, fun _ => rfl⟩, returns_finish (by simp) (by simp)⟩
  simp [finish, IntrWorld.release, update_apply, IntrPoint.inWait]

theorem Inv.wait (h : w.Inv) (ht : w.point t = .idle)
    (hreported : w.lockState = .held → w.reported t = true)
    (hstep : w.wait t cp timed woken = .ok w') : w'.Inv ∧ w'.Returns := by
  unfold IntrWorld.wait at hstep
  cases hstate : w.lockState with
  | free =>
    rw [hstate] at hstep
    cases hstep
    exact ⟨h.fail nofun (Or.inl ht), returns_finish (by simp) (by simp)⟩
  | interrupted =>
    rw [hstate] at hstep
    cases hstep
    exact ⟨h.fail nofun (Or.inl ht), returns_finish (by simp) (by simp)⟩
  | held =>
    rw [hstate] at hstep
    obtain ⟨point, hsignal, rfl⟩ := map_eq_ok.1 hstep
    have hrep := hreported hstate
    have howns := h.owns_of_reported ht (by rw [hstate]; decide) hrep
    refine ⟨h.release hstate ht howns hsignal rfl rfl rfl rfl rfl (fun u => ?_) fun u hu => ?_,
      returns_of_none rfl⟩
    · split_ifs with heq
      · rw [heq]
        exact hrep
      · rfl
    · have hu' : update w.condIntr t false u = true := hu
      rw [update_apply] at hu'
      split_ifs at hu' with heq
      exact ⟨hu', fun h => absurd h heq⟩

variable [DecidableEq κ]

omit [DecidableEq θ] [Fintype θ] in
theorem onCondVar_of_onCond (p : IntrPoint κ) (h : p.onCond cp = true) :
    p.onMutex = true ∨ p.onCondVar = true := by
  cases p with
  | wait cp' timed => exact Or.inr rfl
  | _ => cases h

theorem step_inv {a : IntrAction θ κ} (h : w.Inv) (hpermitted : w.Permitted a) (hkeeps : w.Keeps a)
    (hstep : w.step a = .ok w') : w'.Inv ∧ w'.Returns := by
  cases a with
  | lock t =>
    rw [step] at hstep
    split_ifs at hstep with ht
    cases hstep
    exact h.lock (by rw [ht]; rfl)
  | tryLock t =>
    rw [step] at hstep
    split_ifs at hstep with ht
    cases hstep
    exact h.tryLock ht
  | unlock t woken =>
    rw [step] at hstep
    split_ifs at hstep with ht
    exact h.unlock ht hpermitted hkeeps hstep
  | wait t cp timed woken =>
    rw [step] at hstep
    split_ifs at hstep with ht
    exact h.wait ht hpermitted hstep
  | signal cp woken =>
    obtain ⟨point, hsignal, rfl⟩ := map_eq_ok.1 hstep
    have hwakes := wakes_of_wakeOne hsignal onCondVar_of_onCond
    exact ⟨h.wakes hwakes fun u hu => (hwakes u).onCondVar (h.condAwake u hu),
      returns_of_none rfl⟩
  | broadcast cp =>
    cases hstep
    have hwakes (u : θ) : Wakes (w.point u) (wakeAll (IntrPoint.onCond cp) w.point u) :=
      wakes_wakeAll onCondVar_of_onCond u
    exact ⟨h.wakes hwakes fun u hu => (hwakes u).onCondVar (h.condAwake u hu),
      returns_of_none rfl⟩
  | mutexIntr =>
    cases hstep
    exact ⟨h.mutexIntr hkeeps, returns_of_none rfl⟩
  | condVarIntr cp =>
    cases hstep
    refine ⟨h.wakes (wakes_wakeAll onCondVar_of_onCond) fun u hu => ?_, returns_of_none rfl⟩
    unfold wakeAll
    split_ifs with hon
    · cases w.point u <;> rfl
    · rw [Bool.or_eq_true, or_iff_left (by simpa using hon)] at hu
      exact h.condAwake u hu
  | reset =>
    refine ⟨h.reset hpermitted hstep, returns_of_none ?_⟩
    rw [step, IntrWorld.reset] at hstep
    split_ifs at hstep
    cases hstep
    rfl
  | resume t => exact h.resume hkeeps hstep
  | wake t =>
    rw [step] at hstep
    split_ifs at hstep with ht
    cases hstep
    have hwakes := wakes_update ht
    exact ⟨h.wakes hwakes fun u hu => (hwakes u).onCondVar (h.condAwake u hu),
      returns_of_none rfl⟩
  | timeout t =>
    rw [step] at hstep
    split at hstep
    · next cp hpoint =>
      cases hstep
      have hwakes (u : θ) : Wakes (w.point u)
          (update w.point t (.reacquire .condvarTimedout false) u) := by
        rw [update_apply]
        split_ifs with heq
        · rw [heq, hpoint]
          exact Or.inr ⟨rfl, rfl, Or.inr rfl⟩
        · exact Or.inl rfl
      exact ⟨h.wakes hwakes fun u hu => (hwakes u).onCondVar (h.condAwake u hu),
        returns_of_none rfl⟩
    · cases hstep

theorem exists_resume_of_goesOn (hfree : w.lockState = .free) (ht : (w.point t).goesOn = true) :
    ∃ w', w.step (.resume t) = .ok w' ∧ w'.owns t = true := by
  have htaken (call : IntrCall) (rv : NaClSyncStatus) :
      ((w.take t).finish t call rv).owns t = true := update_self _ _ _
  cases hpoint : w.point t with
  | lock asleep =>
    rw [hpoint] at ht
    cases asleep with
    | true => cases ht
    | false =>
      refine ⟨(w.take t).finish t .lock .ok, ?_, htaken _ _⟩
      simp only [step, IntrWorld.resume, hpoint, IntrWorld.lock, hfree]
  | reacquire rv asleep =>
    rw [hpoint] at ht
    cases asleep with
    | true => cases ht
    | false =>
      refine ⟨(w.take t).finish t .wait rv, ?_, htaken _ _⟩
      simp only [step, IntrWorld.resume, hpoint, IntrWorld.reacquire, hfree]
  | _ =>
    rw [hpoint] at ht
    cases ht

theorem Inv.sound (h : w.Inv) (hreturns : w.Returns) : w.Sound where
  unique := h.unique
  held hheld := by
    obtain ⟨t, ht⟩ := h.held hheld
    exact ⟨t, ht, (h.owner t ht).2.2⟩
  interrupted := hreturns.interrupted
  awake hsince := h.awake (h.since hsince)
  condAwake := h.condAwake
  waited := hreturns.waited
  free hfree t ht := by
    obtain ⟨u, hu⟩ := h.woken hfree t ht
    exact ⟨u, exists_resume_of_goesOn hfree hu⟩

theorem kept_of_keeps {l : List (IntrAction θ κ)}
    (h : Guarded step (fun w a => w.Permitted a ∧ w.Keeps a) init l)
    (hrun : l.foldlM step init = .ok w) : w.Inv ∧ w.Returns := by
  have hinit : (init : IntrWorld θ κ).Inv ∧ (init : IntrWorld θ κ).Returns :=
    ⟨inv_init, returns_of_none rfl⟩
  have hstep (w : IntrWorld θ κ) (a : IntrAction θ κ) (w' : IntrWorld θ κ)
      (hw : w.Inv ∧ w.Returns) (ha : w.Permitted a ∧ w.Keeps a) (hok : w.step a = .ok w') :
      w'.Inv ∧ w'.Returns := step_inv hw.1 ha.1 ha.2 hok
  exact @Guarded.invariant _ _ _ step _ init l (fun w => w.Inv ∧ w.Returns) w hstep hinit h hrun

/-- The calls do what they promise, in any order, as long as no step loses an interruption. -/
theorem sound_of_keeps {l : List (IntrAction θ κ)} {w : IntrWorld θ κ}
    (h : Guarded step (fun w a => w.Permitted a ∧ w.Keeps a) init l)
    (hrun : l.foldlM step init = .ok w) : w.Sound := by
  have hkept := kept_of_keeps h hrun
  exact hkept.1.sound hkept.2

/-- A thread waits, is signalled and takes the mutex back; another is told of the interruption. -/
theorem sound_of_keeps_signalled : ∃ w : IntrWorld (Fin 3) Unit,
    [.lock 0, .wait 0 () true none, .lock 1, .lock 2, .signal () (some 0), .unlock 1 (some 2),
      .resume 0, .resume 2, .mutexIntr, .resume 2].foldlM step init = .ok w ∧
    (w.owns 0 = true ∧ w.returned = some (2, .lock, .mutexInterrupted)) ∧ w.Sound := by
  obtain ⟨w, hrun, hw⟩ : ∃ w : IntrWorld (Fin 3) Unit,
      [.lock 0, .wait 0 () true none, .lock 1, .lock 2, .signal () (some 0), .unlock 1 (some 2),
        .resume 0, .resume 2, .mutexIntr, .resume 2].foldlM step init = .ok w ∧
      (w.owns 0 = true ∧ w.returned = some (2, .lock, .mutexInterrupted)) := by
    apply exists_ok_of_check (fun w => decide
      (w.owns 0 = true ∧ w.returned = some (2, .lock, .mutexInterrupted)))
    · intro w hw
      exact of_decide_eq_true hw
    · decide +kernel
  exact ⟨w, hrun, hw, sound_of_keeps (Guarded.of_check (by decide +kernel)) hrun⟩

/-- Three runs of permitted calls.  An unlock makes an interrupted mutex free, and the next thread
gets it; a wait reports success to a thread that does not own the mutex; and a thread that another
one would have woken sleeps on after the interruption of a free mutex. -/
theorem not_sound :
    (Guarded step Permitted (init : IntrWorld (Fin 3) Unit)
        [.lock 0, .mutexIntr, .unlock 0 none, .lock 1] ∧
      ∃ w : IntrWorld (Fin 3) Unit,
        [.lock 0, .mutexIntr, .unlock 0 none, .lock 1].foldlM step init = .ok w ∧
        (w.sinceIntr = true ∧ w.returned = some (1, .lock, .ok)) ∧ ¬ w.Sound) ∧
    (Guarded step Permitted (init : IntrWorld (Fin 3) Unit)
        [.lock 0, .wait 0 () false none, .mutexIntr, .condVarIntr (), .resume 0] ∧
      ∃ w : IntrWorld (Fin 3) Unit,
        [.lock 0, .wait 0 () false none, .mutexIntr, .condVarIntr (), .resume 0].foldlM step init =
          .ok w ∧
        (w.owns 0 = false ∧ w.returned = some (0, .wait, .ok)) ∧ ¬ w.Sound) ∧
    (Guarded step Permitted (init : IntrWorld (Fin 3) Unit)
        [.lock 0, .lock 1, .lock 2, .unlock 0 (some 1), .mutexIntr, .resume 1] ∧
      ∃ w : IntrWorld (Fin 3) Unit,
        [.lock 0, .lock 1, .lock 2, .unlock 0 (some 1), .mutexIntr, .resume 1].foldlM step init =
          .ok w ∧
        (w.sinceIntr = true ∧ (w.point 2).onMutex = true) ∧ ¬ w.Sound) := by
  refine ⟨⟨Guarded.of_check (by decide +kernel), ?_⟩,
    ⟨Guarded.of_check (by decide +kernel), ?_⟩, Guarded.of_check (by decide +kernel), ?_⟩
  · apply exists_ok_of_check
      (fun w => decide (w.sinceIntr = true ∧ w.returned = some (1, .lock, .ok)))
    · intro w hw
      refine ⟨of_decide_eq_true hw, fun hsound => ?_⟩
      obtain ⟨hsince, hreturned⟩ := of_decide_eq_true hw
      cases hsound.interrupted hsince _ _ _ hreturned (Or.inl rfl)
    · decide +kernel
  · apply exists_ok_of_check
      (fun w => decide (w.owns 0 = false ∧ w.returned = some (0, .wait, .ok)))
    · intro w hw
      refine ⟨of_decide_eq_true hw, fun hsound => ?_⟩
      obtain ⟨howns, hreturned⟩ := of_decide_eq_true hw
      rw [hsound.waited _ hreturned] at howns
      cases howns
    · decide +kernel
  · apply exists_ok_of_check (fun w => decide (w.sinceIntr = true ∧ (w.point 2).onMutex = true))
    · intro w hw
      refine ⟨of_decide_eq_true hw, fun hsound => ?_⟩
      obtain ⟨hsince, hasleep⟩ := of_decide_eq_true hw
      rw [hsound.awake hsince] at hasleep
      cases hasleep
    · decide +kernel

theorem lockState_ne_interrupted {a : IntrAction θ κ} (hstate : w.lockState ≠ .interrupted)
    (ha : a ≠ .mutexIntr) (hstep : w.step a = .ok w') : w'.lockState ≠ .interrupted := by
  have hlock (t : θ) : (w.lock t).lockState ≠ .interrupted := by
    unfold IntrWorld.lock
    cases hw : w.lockState with
    | held => exact hstate
    | free => nofun
    | interrupted => exact absurd hw hstate
  have hreacquire (t : θ) (rv : NaClSyncStatus) : (w.reacquire t rv).lockState ≠ .interrupted := by
    unfold IntrWorld.reacquire
    cases hw : w.lockState with
    | held => exact hstate
    | free => nofun
    | interrupted => exact absurd hw hstate
  cases a with
  | lock t =>
    rw [step] at hstep
    split_ifs at hstep
    cases hstep
    exact hlock t
  | tryLock t =>
    rw [step] at hstep
    split_ifs at hstep
    cases hstep
    unfold IntrWorld.tryLock
    cases hw : w.lockState with
    | held => exact hstate
    | free => nofun
    | interrupted => exact absurd hw hstate
  | unlock t woken =>
    rw [step] at hstep
    split_ifs at hstep
    obtain ⟨point, -, rfl⟩ := map_eq_ok.1 hstep
    nofun
  | wait t cp timed woken =>
    rw [step] at hstep
    split_ifs at hstep
    unfold IntrWorld.wait at hstep
    cases hw : w.lockState with
    | held =>
      rw [hw] at hstep
      obtain ⟨point, -, rfl⟩ := map_eq_ok.1 hstep
      nofun
    | free =>
      rw [hw] at hstep
      cases hstep
      exact hstate
    | interrupted => exact absurd hw hstate
  | signal cp woken =>
    obtain ⟨point, -, rfl⟩ := map_eq_ok.1 hstep
    exact hstate
  | broadcast cp | condVarIntr cp =>
    cases hstep
    exact hstate
  | mutexIntr => exact absurd rfl ha
  | reset =>
    rw [step, IntrWorld.reset, if_neg hstate] at hstep
    cases hstep
  | resume t =>
    rw [step, IntrWorld.resume] at hstep
    split at hstep
    · cases hstep
      exact hlock t
    · cases hstep
      exact hreacquire t _
    · cases hstep
  | wake t =>
    rw [step] at hstep
    split_ifs at hstep
    cases hstep
    exact hstate
  | timeout t =>
    rw [step] at hstep
    split at hstep
    · cases hstep
      exact hstate
    · cases hstep

end

end IntrWorld

end SandboxingNaCl
