import Mathlib.Algebra.Ring.Nat
import SandboxingNaCl.Lib.History
import SandboxingNaCl.Pthread.Mutex
import Mathlib.Data.Fintype.Card

/-!
# Condition variables

`nc_condvar.c`, over the mutex of `Pthread.Mutex`.  There is no queue: a wait compares the sequence
number that it has read before it released the mutex with the one that the futex finds.
-/

namespace SandboxingNaCl

open History Runs Function

/-- `INT_MAX`, which `pthread_cond_broadcast` passes to `futex_wake`. -/
def intMax : ℕ := 2147483647

/-- What a thread does next; `abstime` says that the wait has a timeout. -/
inductive CondPoint
  /-- Elsewhere, perhaps in a call of its own on the mutex. -/
  | idle
  /-- `pthread_cond_timedwait_abs` reads `sequence_number`. -/
  | read (abstime : Bool)
  /-- In `pthread_mutex_unlock`. -/
  | unlocking (abstime : Bool) (oldValue : BitVec 32)
  | futexWait (abstime : Bool) (oldValue : BitVec 32)
  | asleep (abstime : Bool)
  /-- `futex_wait_abs` has returned. -/
  | relock (timedOut : Bool)
  /-- In `pthread_mutex_lock`. -/
  | locking (timedOut : Bool)
  /-- `pulse` increments `sequence_number`. -/
  | pulse (count : ℕ)
  | futexWake (count : ℕ)
deriving DecidableEq

namespace CondPoint

def isAsleep : CondPoint → Bool
  | .asleep _ => true
  | _ => false

/-- In a wait that has read the sequence number and not been woken. -/
def beforeWake : CondPoint → Bool
  | .unlocking _ _ | .futexWait _ _ | .asleep _ => true
  | _ => false

def inWait : CondPoint → Bool
  | .unlocking _ _ | .futexWait _ _ | .asleep _ | .relock _ | .locking _ => true
  | _ => false

end CondPoint

/-- What happens to a wait or a pulse.  Both are numbered. -/
inductive CondEvent
  /-- The wait reads the sequence number, after so many pulses. -/
  | began (wait pulses : ℕ)
  | released (wait : ℕ)
  | returned (wait : ℕ)
  | pulsed (pulse count : ℕ)
  /-- Its `futex_wake` has woken the waits. -/
  | woke (pulse count : ℕ) (woken : Finset ℕ)
deriving DecidableEq

/-- A condition variable, its mutex and the threads that use them.  `waits` and `pulses` count the waits
and the pulses; `waitId` and `began` are the number of a thread's wait and of the pulses before it,
`pulseId` that of its pulse.  `returned` is the wait that the last step has ended. -/
structure CondWorld (θ : Type) where
  mutex : MutexWorld θ
  sequenceNumber : BitVec 32
  point : θ → CondPoint
  returned : Option (θ × Except Errno Unit)
  waits : ℕ
  pulses : ℕ
  waitId : θ → ℕ
  began : θ → ℕ
  pulseId : θ → ℕ
  history : List CondEvent

/-- What happens next. -/
inductive CondAction (θ : Type)
  /-- A step of the mutex: a call of the thread's own, or the one in a wait. -/
  | mutex (a : MutexAction θ)
  /-- `pthread_cond_wait` or `pthread_cond_timedwait_abs`, by a thread that has the mutex. -/
  | wait (t : θ) (abstime : Bool)
  | signal (t : θ)
  | broadcast (t : θ)
  /-- The thread goes on, if it is not in the mutex or at `futex_wake`. -/
  | next (t : θ)
  /-- `futex_wake` wakes as many sleepers as it may. -/
  | wake (t : θ) (woken : Finset θ)
  /-- `futex_wait_abs` returns without a `futex_wake`, at the timeout or before. -/
  | interrupt (t : θ) (timedOut : Bool)

namespace CondWorld

variable {θ : Type} [DecidableEq θ]

/-- `pthread_cond_init`. -/
def init (mutexType : MutexType) : CondWorld θ where
  mutex := .init mutexType
  sequenceNumber := 0
  point _ := .idle
  returned := none
  waits := 0
  pulses := 0
  waitId _ := 0
  began _ := 0
  pulseId _ := 0
  history := []

def goto (w : CondWorld θ) (t : θ) (point : CondPoint) : CondWorld θ :=
  { w with point := Function.update w.point t point, returned := none }

/-- The end of a wait. -/
def finish (w : CondWorld θ) (t : θ) (result : Except Errno Unit) : CondWorld θ :=
  { w with
    point := Function.update w.point t .idle
    returned := some (t, result)
    history := .returned (w.waitId t) :: w.history }

def releaseEvents (w : CondWorld θ) (t : θ) (mutex : MutexWorld θ) : List CondEvent :=
  if w.mutex.holds t ∧ ¬ mutex.holds t then [.released (w.waitId t)] else []

/-- The mutex after a step of a thread.  When its call in a wait has ended, the wait goes on. -/
def afterMutex (w : CondWorld θ) (t : θ) (mutex : MutexWorld θ) : CondWorld θ :=
  let w' := { w with mutex, returned := none }
  match w.point t with
  | .unlocking abstime oldValue =>
    let w' := { w' with history := w.releaseEvents t mutex ++ w.history }
    match mutex.returned with
    | none => w'
    | some (_, .ok ()) => w'.goto t (.futexWait abstime oldValue)
    | some (_, .error err) => w'.finish t (.error err)
  | .locking timedOut =>
    match mutex.returned with
    | none => w'
    | some (_, .ok ()) => w'.finish t (if timedOut then .error .etimedout else .ok ())
    | some (_, .error err) => w'.finish t (.error err)
  | _ => w'

def mayCall (w : CondWorld θ) : MutexAction θ → Bool
  | .lock t _ | .unlock t => w.point t = .idle
  | _ => true

/-- `__sync_fetch_and_add` in `pulse`. -/
def increment (w : CondWorld θ) (t : θ) (count : ℕ) : CondWorld θ :=
  { w with
    sequenceNumber := w.sequenceNumber + 1
    pulses := w.pulses + 1
    pulseId := Function.update w.pulseId t w.pulses
    history := .pulsed w.pulses count :: w.history }.goto t (.futexWake count)

/-- `pthread_cond_timedwait_abs` reads the sequence number; the mutex is in `pthread_mutex_unlock`. -/
def readSequence (w : CondWorld θ) (t : θ) (abstime : Bool) (mutex : MutexWorld θ) : CondWorld θ :=
  { w with
    mutex
    waits := w.waits + 1
    waitId := Function.update w.waitId t w.waits
    began := Function.update w.began t w.pulses
    history := .began w.waits w.pulses :: w.history }.goto t (.unlocking abstime w.sequenceNumber)

/-- The wait calls `pthread_mutex_lock`. -/
def startLock (w : CondWorld θ) (t : θ) (timedOut : Bool) (mutex : MutexWorld θ) : CondWorld θ :=
  { w with mutex }.goto t (.locking timedOut)

/-- `futex_wake` has woken the threads. -/
def wakeThreads (w : CondWorld θ) (t : θ) (count : ℕ) (woken : Finset θ) : CondWorld θ :=
  { w with
    point := fun u => if u = t then .idle else if u ∈ woken then .relock false else w.point u
    returned := none
    history := .woke (w.pulseId t) count (woken.image w.waitId) :: w.history }

section

variable [Fintype θ]

/-- The next step of a thread. -/
def next (w : CondWorld θ) (t : θ) : Except Blocked (CondWorld θ) :=
  match w.point t with
  | .read abstime => (w.mutex.step (.unlock t)).map (w.readSequence t abstime)
  | .futexWait abstime oldValue =>
    if w.sequenceNumber = oldValue then .ok (w.goto t (.asleep abstime))
    else .ok (w.goto t (.relock false))
  | .relock timedOut =>
    (w.mutex.step (.lock t pthreadMutexLock)).map (w.startLock t timedOut)
  | .pulse count => .ok (w.increment t count)
  | _ => .error .blocked

def sleepers (w : CondWorld θ) : Finset θ := Finset.univ.filter fun u => (w.point u).isAsleep

/-- One step. -/
def step (w : CondWorld θ) : CondAction θ → Except Blocked (CondWorld θ)
  | .mutex a =>
    if w.mayCall a then (w.mutex.step a).map (w.afterMutex a.thread) else .error .blocked
  | .wait t abstime =>
    if w.point t = .idle ∧ w.mutex.point t = .idle ∧ w.mutex.holds t then
      .ok (w.goto t (.read abstime))
    else .error .blocked
  | .signal t =>
    if w.point t = .idle ∧ w.mutex.point t = .idle then .ok (w.goto t (.pulse 1))
    else .error .blocked
  | .broadcast t =>
    if w.point t = .idle ∧ w.mutex.point t = .idle then .ok (w.goto t (.pulse intMax))
    else .error .blocked
  | .next t => w.next t
  | .wake t woken =>
    match w.point t with
    | .futexWake count =>
      if woken ⊆ w.sleepers ∧ woken.card = min count w.sleepers.card then
        .ok (w.wakeThreads t count woken)
      else .error .blocked
    | _ => .error .blocked
  | .interrupt t timedOut =>
    match w.point t with
    | .asleep abstime =>
      if timedOut ∧ ¬ abstime then .error .blocked else .ok (w.goto t (.relock timedOut))
    | _ => .error .blocked

/-- Fewer than `2 ^ 32` pulses fall into each wait. -/
def FewPulses (w : CondWorld θ) : Prop :=
  ∀ t, (w.point t).inWait = true → w.pulses < w.began t + 2 ^ 32

instance (w : CondWorld θ) : Decidable w.FewPulses := by
  unfold FewPulses
  infer_instance

end

/-! ## The invariant -/

section

variable {w w' : CondWorld θ} {t u : θ} {p : CondPoint}

/-- What an event says about the events before it. -/
def Fits (past : List CondEvent) : CondEvent → Prop
  | .began wait _ => ∀ n, .began wait n ∉ past
  | .released wait | .returned wait => ∃ n, .began wait n ∈ past
  | .pulsed pulse _ => ∀ wait n, .began wait n ∈ past → n ≤ pulse
  | .woke pulse count woken => .pulsed pulse count ∈ past ∧ ∀ wait ∈ woken,
      (∃ n, .began wait n ∈ past) ∧ .returned wait ∉ past ∧
        ∀ pulse' count' woken', .woke pulse' count' woken' ∈ past → wait ∉ woken'

/-- Where the thread is in the mutex, and what it has kept. -/
def Place (w : CondWorld θ) (t : θ) : Prop :=
  match w.point t with
  | .idle => True
  | .read _ => w.mutex.point t = .idle ∧ w.mutex.holds t = true
  | .unlocking _ oldValue => w.mutex.Unlocking t ∧ oldValue = BitVec.ofNat 32 (w.began t)
  | .futexWait _ oldValue => w.mutex.point t = .idle ∧ oldValue = BitVec.ofNat 32 (w.began t)
  | .asleep _ | .relock _ => w.mutex.point t = .idle
  | .locking _ => w.mutex.Locking t
  | .pulse count => count = 1 ∨ count = intMax
  | .futexWake count => (count = 1 ∨ count = intMax) ∧ .pulsed (w.pulseId t) count ∈ w.history

/-- What every step keeps of a thread. -/
structure ThreadSound (w : CondWorld θ) (t : θ) : Prop where
  place : w.Place t
  inWait : (w.point t).inWait = true →
    .began (w.waitId t) (w.began t) ∈ w.history ∧ .returned (w.waitId t) ∉ w.history
  notWoken : (w.point t).beforeWake = true →
    ∀ pulse count woken, .woke pulse count woken ∈ w.history → w.waitId t ∉ woken
  /-- A `futex_wake` that has left the thread asleep was that of a signal, and has woken another. -/
  asleep : (w.point t).isAsleep = true → ∀ pulse count woken,
    .woke pulse count woken ∈ w.history → w.began t ≤ pulse → count = 1 ∧ woken.card = 1

/-- What every step keeps. -/
structure Inv (w : CondWorld θ) : Prop where
  mutex : ∃ o, MutexWorld.Inv o w.mutex
  consistent : Consistent Fits w.history
  sequenceNumber : w.sequenceNumber = BitVec.ofNat 32 w.pulses
  began_lt : ∀ wait n, .began wait n ∈ w.history → wait < w.waits ∧ n ≤ w.pulses
  pulsed_lt : ∀ pulse count, .pulsed pulse count ∈ w.history → pulse < w.pulses
  threads : ∀ t, w.ThreadSound t
  distinct : ∀ t u, (w.point t).inWait = true → (w.point u).inWait = true →
    w.waitId t = w.waitId u → t = u
  returned : ∀ t result, w.returned = some (t, result) → w.mutex.holds t = true

omit [DecidableEq θ] in
theorem ThreadSound.frame (h : w.ThreadSound u) (hut : u ≠ t) (hpoint : w'.point u = w.point u)
    (hmutex : MutexWorld.Frame t w.mutex w'.mutex) (hwaitId : w'.waitId u = w.waitId u)
    (hbegan : w'.began u = w.began u) (hpulseId : w'.pulseId u = w.pulseId u)
    (hsub : w.history ⊆ w'.history)
    (hreturned : (w.point u).inWait = true → .returned (w.waitId u) ∈ w'.history →
      .returned (w.waitId u) ∈ w.history)
    (hwoke : ∀ pulse count woken, .woke pulse count woken ∈ w'.history →
      .woke pulse count woken ∈ w.history ∨
        ((w.point u).beforeWake = true → w.waitId u ∉ woken) ∧
          ((w.point u).isAsleep = true → count = 1 ∧ woken.card = 1)) : w'.ThreadSound u := by
  refine ⟨?_, fun hin => ?_, fun hbefore pulse count woken hmem => ?_,
    fun hasleep pulse count woken hmem hle => ?_⟩
  · have hplace := h.place
    unfold Place at *
    rw [hpoint, hbegan, hpulseId]
    revert hplace
    cases w.point u with
    | idle => exact id
    | read abstime => exact fun ⟨hidle, hheld⟩ => ⟨hmutex.idle hut hidle, (hmutex u hut).1.trans hheld⟩
    | unlocking abstime oldValue => exact fun ⟨hin, hold⟩ => ⟨hmutex.unlocking hut hin, hold⟩
    | futexWait abstime oldValue => exact fun ⟨hidle, hold⟩ => ⟨hmutex.idle hut hidle, hold⟩
    | asleep abstime => exact hmutex.idle hut
    | relock timedOut => exact hmutex.idle hut
    | locking timedOut => exact hmutex.locking hut
    | pulse count => exact id
    | futexWake count => exact fun ⟨hcount, hmem⟩ => ⟨hcount, hsub hmem⟩
  · rw [hpoint] at hin
    rw [hwaitId, hbegan]
    exact ⟨hsub (h.inWait hin).1, fun hmem => (h.inWait hin).2 (hreturned hin hmem)⟩
  · rw [hpoint] at hbefore
    rw [hwaitId]
    rcases hwoke pulse count woken hmem with hold | hnew
    · exact h.notWoken hbefore pulse count woken hold
    · exact hnew.1 hbefore
  · rw [hpoint] at hasleep
    rw [hbegan] at hle
    rcases hwoke pulse count woken hmem with hold | hnew
    · exact h.asleep hasleep pulse count woken hold hle
    · exact hnew.2 hasleep

def Own (w : CondWorld θ) (t : θ) (events : List CondEvent) : Prop :=
  ∀ e ∈ events, (w.point t).inWait = true ∧ (e = .released (w.waitId t) ∨ e = .returned (w.waitId t))

omit [DecidableEq θ] in
theorem Inv.consistent_append (h : w.Inv) {events : List CondEvent} (hown : w.Own t events) :
    Consistent Fits (events ++ w.history) := by
  induction events with
  | nil => exact h.consistent
  | cons e events ih =>
    refine ⟨?_, ih fun e he => hown e (List.mem_cons_of_mem _ he)⟩
    obtain ⟨hin, rfl | rfl⟩ := hown e List.mem_cons_self
    · exact ⟨_, List.mem_append_right _ ((h.threads t).inWait hin).1⟩
    · exact ⟨_, List.mem_append_right _ ((h.threads t).inWait hin).1⟩

omit [DecidableEq θ] in
theorem Own.of_mem {events : List CondEvent} {e : CondEvent} (hown : w.Own t events)
    (he : e ∈ events ++ w.history) (hreleased : e ≠ .released (w.waitId t))
    (hreturned : e ≠ .returned (w.waitId t)) : e ∈ w.history := by
  rcases List.mem_append.1 he with hmem | hmem
  · rcases (hown e hmem).2 with heq | heq
    · exact absurd heq hreleased
    · exact absurd heq hreturned
  · exact hmem

theorem Inv.of_point (h : w.Inv) (hpoint : w'.point = update w.point t p)
    (hframe : MutexWorld.Frame t w.mutex w'.mutex) (hmutex : ∃ o, MutexWorld.Inv o w'.mutex)
    (hsame : w'.sequenceNumber = w.sequenceNumber ∧ w'.waits = w.waits ∧ w'.pulses = w.pulses ∧
      w'.waitId = w.waitId ∧ w'.began = w.began ∧ w'.pulseId = w.pulseId)
    (events : List CondEvent) (hhistory : w'.history = events ++ w.history) (hown : w.Own t events)
    (hplace : w'.Place t)
    (hinWait : p.inWait = true → (w.point t).inWait = true ∧ .returned (w.waitId t) ∉ events)
    (hbefore : p.beforeWake = true → (w.point t).beforeWake = true)
    (hasleep : p.isAsleep = true → ∀ pulse count woken, .woke pulse count woken ∈ w.history →
      w.began t ≤ pulse → count = 1 ∧ woken.card = 1)
    (hret : ∀ u result, w'.returned = some (u, result) → w'.mutex.holds u = true) : w'.Inv := by
  obtain ⟨hsequence, hwaits, hpulses, hwaitId, hbegan, hpulseId⟩ := hsame
  have hsub : w.history ⊆ w'.history := by
    rw [hhistory]
    exact List.subset_append_right _ _
  have hmem : ∀ e ∈ w'.history, e ≠ .released (w.waitId t) → e ≠ .returned (w.waitId t) →
      e ∈ w.history := by
    rw [hhistory]
    exact fun e => hown.of_mem
  have hself : w'.point t = p := by
    rw [hpoint, update_self]
  have hother : ∀ u, u ≠ t → w'.point u = w.point u := fun u hut => by
    rw [hpoint, update_of_ne hut]
  have hinWait' : ∀ u, (w'.point u).inWait = true → (w.point u).inWait = true := by
    intro u hin
    by_cases hut : u = t
    · subst hut
      rw [hself] at hin
      exact (hinWait hin).1
    · rwa [hother u hut] at hin
  refine ⟨hmutex, ?_, ?_, fun wait n he => ?_, fun pulse count he => ?_, fun u => ?_,
    fun u v hu hv heq => ?_, hret⟩
  · rw [hhistory]
    exact h.consistent_append hown
  · rw [hsequence, hpulses]
    exact h.sequenceNumber
  · rw [hwaits, hpulses]
    exact h.began_lt wait n (hmem _ he nofun nofun)
  · rw [hpulses]
    exact h.pulsed_lt pulse count (hmem _ he nofun nofun)
  · by_cases hut : u = t
    · subst hut
      refine ⟨hplace, fun hin => ?_, fun hin pulse count woken he => ?_,
        fun hin pulse count woken he => ?_⟩
      · rw [hself] at hin
        rw [hwaitId, hbegan]
        refine ⟨hsub ((h.threads u).inWait (hinWait hin).1).1, fun he => ?_⟩
        rw [hhistory] at he
        rcases List.mem_append.1 he with he | he
        · exact (hinWait hin).2 he
        · exact ((h.threads u).inWait (hinWait hin).1).2 he
      · rw [hself] at hin
        rw [hwaitId]
        exact (h.threads u).notWoken (hbefore hin) pulse count woken (hmem _ he nofun nofun)
      · rw [hself] at hin
        rw [hbegan]
        exact hasleep hin pulse count woken (hmem _ he nofun nofun)
    · refine (h.threads u).frame hut (hother u hut) hframe (by rw [hwaitId]) (by rw [hbegan])
        (by rw [hpulseId]) hsub (fun hin he => ?_) fun pulse count woken he =>
          .inl (hmem _ he nofun nofun)
      rw [hhistory] at he
      rcases List.mem_append.1 he with he | he
      · obtain ⟨hin', heq | heq⟩ := hown _ he
        · cases heq
        · exact absurd (h.distinct u t hin hin' (CondEvent.returned.inj heq)) hut
      · exact he
  · rw [hwaitId] at heq
    exact h.distinct u v (hinWait' u hu) (hinWait' v hv) heq

theorem Inv.goto (h : w.Inv) (hplace : (w.goto t p).Place t)
    (hinWait : p.inWait = true → (w.point t).inWait = true)
    (hbefore : p.beforeWake = true → (w.point t).beforeWake = true)
    (hasleep : p.isAsleep = true → ∀ pulse count woken, .woke pulse count woken ∈ w.history →
      w.began t ≤ pulse → count = 1 ∧ woken.card = 1) : (w.goto t p).Inv :=
  h.of_point rfl (.refl _ _) h.mutex ⟨rfl, rfl, rfl, rfl, rfl, rfl⟩ [] rfl nofun hplace
    (fun hin => ⟨hinWait hin, nofun⟩) hbefore hasleep nofun

theorem Inv.of_mutex [Fintype θ] (h : w.Inv) {a : MutexAction θ} {mutex : MutexWorld θ}
    (hstep : w.mutex.step a = .ok mutex) (hmutex : w'.mutex = mutex)
    (hpoint : w'.point = update w.point a.thread p)
    (hsame : w'.sequenceNumber = w.sequenceNumber ∧ w'.waits = w.waits ∧ w'.pulses = w.pulses ∧
      w'.waitId = w.waitId ∧ w'.began = w.began ∧ w'.pulseId = w.pulseId)
    (events : List CondEvent) (hhistory : w'.history = events ++ w.history)
    (hown : w.Own a.thread events) (hplace : w'.Place a.thread)
    (hinWait : p.inWait = true →
      (w.point a.thread).inWait = true ∧ .returned (w.waitId a.thread) ∉ events)
    (hbefore : p.beforeWake = true → (w.point a.thread).beforeWake = true)
    (hasleep : p.isAsleep = true → (w.point a.thread).isAsleep = true)
    (hret : ∀ u result, w'.returned = some (u, result) → w'.mutex.holds u = true) : w'.Inv := by
  obtain ⟨o, hinv⟩ := h.mutex
  refine h.of_point hpoint ?_ ?_ hsame events hhistory hown hplace hinWait hbefore
    (fun hp => (h.threads a.thread).asleep (hasleep hp)) hret
  · rw [hmutex]
    exact MutexWorld.frame_step hstep
  · rw [hmutex]
    exact hinv.step hstep

omit [DecidableEq θ] in
theorem own_releaseEvents (hin : (w.point t).inWait = true) (mutex : MutexWorld θ) :
    w.Own t (w.releaseEvents t mutex) := by
  intro e he
  unfold releaseEvents at he
  split_ifs at he
  · exact ⟨hin, .inl (List.mem_singleton.1 he)⟩
  · cases he

omit [DecidableEq θ] in
theorem returned_not_mem_releaseEvents (mutex : MutexWorld θ) :
    .returned (w.waitId t) ∉ w.releaseEvents t mutex := by
  unfold releaseEvents
  split_ifs
  · simp
  · exact nofun

omit [DecidableEq θ] in
theorem Own.cons {events : List CondEvent} (h : w.Own t events) (hin : (w.point t).inWait = true) :
    w.Own t (.returned (w.waitId t) :: events) := by
  intro e he
  rcases List.mem_cons.1 he with rfl | he
  · exact ⟨hin, .inr rfl⟩
  · exact h e he

theorem Inv.afterMutex_unlocking [Fintype θ] (h : w.Inv) {a : MutexAction θ} {mutex : MutexWorld θ}
    (hstep : w.mutex.step a = .ok mutex) {abstime : Bool} {oldValue : BitVec 32}
    (hq : w.point a.thread = .unlocking abstime oldValue) :
    (w.afterMutex a.thread mutex).Inv := by
  obtain ⟨o, hinv⟩ := h.mutex
  have hplace := (h.threads a.thread).place
  unfold Place at hplace
  rw [hq] at hplace
  have hin : (w.point a.thread).inWait = true := by
    rw [hq]
    rfl
  have hbefore : (w.point a.thread).beforeWake = true := by
    rw [hq]
    rfl
  have hown := own_releaseEvents hin mutex
  unfold afterMutex
  rw [hq]
  rcases hinv.step_unlocking hplace.1 rfl hstep with
    ⟨hnone, hunlocking⟩ | ⟨result, hreturned, hidle, hheld⟩
  · rw [hnone]
    refine h.of_mutex hstep rfl (update_eq_self _ _).symm ⟨rfl, rfl, rfl, rfl, rfl, rfl⟩ _ rfl
      hown ?_ (fun _ => ⟨hin, returned_not_mem_releaseEvents _⟩) id id nofun
    unfold Place
    rw [show CondWorld.point _ a.thread = _ from hq]
    exact ⟨hunlocking, hplace.2⟩
  · rw [hreturned]
    cases result with
    | ok =>
      refine h.of_mutex (p := .futexWait abstime oldValue) hstep rfl rfl
        ⟨rfl, rfl, rfl, rfl, rfl, rfl⟩ _ rfl hown ?_
        (fun _ => ⟨hin, returned_not_mem_releaseEvents _⟩) (fun _ => hbefore) nofun nofun
      unfold Place
      rw [show CondWorld.point _ a.thread = .futexWait abstime oldValue from
        update_self _ _ _]
      exact ⟨hidle, hplace.2⟩
    | error err =>
      refine h.of_mutex (p := .idle) hstep rfl rfl ⟨rfl, rfl, rfl, rfl, rfl, rfl⟩ _ rfl
        (hown.cons hin) ?_ nofun nofun nofun fun u result hu => ?_
      · unfold Place
        rw [show CondWorld.point _ a.thread = .idle from update_self _ _ _]
        trivial
      · cases hu
        exact hheld.resolve_left nofun

theorem Inv.afterMutex_locking [Fintype θ] (h : w.Inv) {a : MutexAction θ} {mutex : MutexWorld θ}
    (hstep : w.mutex.step a = .ok mutex) {timedOut : Bool}
    (hq : w.point a.thread = .locking timedOut) : (w.afterMutex a.thread mutex).Inv := by
  obtain ⟨o, hinv⟩ := h.mutex
  have hplace := (h.threads a.thread).place
  unfold Place at hplace
  rw [hq] at hplace
  have hin : (w.point a.thread).inWait = true := by
    rw [hq]
    rfl
  have hnil : w.Own a.thread [] := nofun
  have hfinish (result : Except Errno Unit) (hidle : mutex.point a.thread = .idle)
      (hheld : mutex.holds a.thread = true) :
      (CondWorld.finish { w with mutex, returned := none } a.thread result).Inv := by
    refine h.of_mutex (p := .idle) hstep rfl rfl ⟨rfl, rfl, rfl, rfl, rfl, rfl⟩ _ rfl (hnil.cons hin)
      ?_ nofun nofun nofun fun u result hu => ?_
    · unfold Place
      rw [show CondWorld.point _ a.thread = .idle from update_self _ _ _]
      trivial
    · cases hu
      exact hheld
  unfold afterMutex
  rw [hq]
  rcases hinv.step_locking hplace rfl hstep with
    ⟨hnone, hlocking⟩ | ⟨result, hreturned, hidle, hheld⟩
  · rw [hnone]
    refine h.of_mutex hstep rfl (update_eq_self _ _).symm ⟨rfl, rfl, rfl, rfl, rfl, rfl⟩ _ rfl
      hnil ?_ (fun _ => ⟨hin, nofun⟩) id id nofun
    unfold Place
    rw [show CondWorld.point _ a.thread = _ from hq]
    exact hlocking
  · rw [hreturned]
    cases result with
    | ok => exact hfinish _ hidle hheld
    | error err => exact hfinish _ hidle hheld

theorem Inv.afterMutex [Fintype θ] (h : w.Inv) {a : MutexAction θ} {mutex : MutexWorld θ}
    (hmay : w.mayCall a = true) (hstep : w.mutex.step a = .ok mutex) :
    (w.afterMutex a.thread mutex).Inv := by
  have hplace := (h.threads a.thread).place
  -- outside the mutex, the thread has no step in it
  have hbusy (hidle : w.mutex.point a.thread = .idle) (hq : w.point a.thread ≠ .idle) : False := by
    rcases MutexWorld.eq_call_of_idle hidle hstep with ⟨t, call, rfl⟩ | ⟨t, rfl⟩
    · exact hq (of_decide_eq_true hmay)
    · exact hq (of_decide_eq_true hmay)
  have hsame (hother : (w.afterMutex a.thread mutex) = { w with mutex, returned := none })
      (hplace : Place { w with mutex, returned := none } a.thread) :
      (w.afterMutex a.thread mutex).Inv := by
    rw [hother]
    exact h.of_mutex hstep rfl (update_eq_self _ _).symm
      ⟨rfl, rfl, rfl, rfl, rfl, rfl⟩ [] rfl nofun hplace (fun hin => ⟨hin, nofun⟩) id id nofun
  unfold Place at hplace
  cases hq : w.point a.thread with
  | unlocking abstime oldValue => exact h.afterMutex_unlocking hstep hq
  | locking timedOut => exact h.afterMutex_locking hstep hq
  | idle =>
    refine hsame (by rw [CondWorld.afterMutex, hq]) ?_
    rw [Place, show CondWorld.point _ a.thread = _ from hq]
    trivial
  | pulse count =>
    refine hsame (by rw [CondWorld.afterMutex, hq]) ?_
    rw [hq] at hplace
    rw [Place, show CondWorld.point _ a.thread = _ from hq]
    exact hplace
  | futexWake count =>
    refine hsame (by rw [CondWorld.afterMutex, hq]) ?_
    rw [hq] at hplace
    rw [Place, show CondWorld.point _ a.thread = _ from hq]
    exact hplace
  | read abstime =>
    rw [hq] at hplace
    exact (hbusy hplace.1 (by rw [hq]; exact nofun)).elim
  | futexWait abstime oldValue =>
    rw [hq] at hplace
    exact (hbusy hplace.1 (by rw [hq]; exact nofun)).elim
  | asleep abstime =>
    rw [hq] at hplace
    exact (hbusy hplace (by rw [hq]; exact nofun)).elim
  | relock timedOut =>
    rw [hq] at hplace
    exact (hbusy hplace (by rw [hq]; exact nofun)).elim

omit [DecidableEq θ] in
theorem Inv.exists_began (h : w.Inv) {wait : ℕ} (he : .returned wait ∈ w.history) :
    ∃ n, .began wait n ∈ w.history := by
  obtain ⟨past, hsub, n, hn⟩ := h.consistent.exists_past he
  exact ⟨n, hsub hn⟩

omit [DecidableEq θ] in
theorem Inv.woke_past (h : w.Inv) {pulse count : ℕ} {woken : Finset ℕ}
    (he : .woke pulse count woken ∈ w.history) :
    pulse < w.pulses ∧ ∀ wait ∈ woken, wait < w.waits := by
  obtain ⟨past, hsub, hpulsed, hwoken⟩ := h.consistent.exists_past he
  refine ⟨h.pulsed_lt pulse count (hsub hpulsed), fun wait hwait => ?_⟩
  obtain ⟨⟨n, hn⟩, -⟩ := hwoken wait hwait
  exact (h.began_lt wait n (hsub hn)).1

omit [DecidableEq θ] in
theorem Inv.waitId_lt (h : w.Inv) (hin : (w.point t).inWait = true) : w.waitId t < w.waits :=
  (h.began_lt _ _ ((h.threads t).inWait hin).1).1

theorem Inv.readSequence [Fintype θ] (h : w.Inv) {abstime : Bool} {mutex : MutexWorld θ}
    (hheld : w.mutex.holds t = true) (hstep : w.mutex.step (.unlock t) = .ok mutex) :
    (w.readSequence t abstime mutex).Inv := by
  obtain ⟨o, hinv⟩ := h.mutex
  have hself : (w.readSequence t abstime mutex).point t = .unlocking abstime w.sequenceNumber :=
    update_self _ _ _
  have hother : ∀ u, u ≠ t → (w.readSequence t abstime mutex).point u = w.point u :=
    fun u hut => update_of_ne hut _ _
  have hwaitId : (w.readSequence t abstime mutex).waitId t = w.waits := update_self _ _ _
  have hbegan : (w.readSequence t abstime mutex).began t = w.pulses := update_self _ _ _
  have hwaitId' : ∀ u, u ≠ t → (w.readSequence t abstime mutex).waitId u = w.waitId u :=
    fun u hut => update_of_ne hut _ _
  have hmem : ∀ e ∈ (w.readSequence t abstime mutex).history, e = .began w.waits w.pulses ∨
      e ∈ w.history := fun e => List.mem_cons.1
  have hfresh : ∀ n, .began w.waits n ∉ w.history := fun n he =>
    absurd (h.began_lt _ n he).1 (lt_irrefl _)
  refine ⟨hinv.step hstep, ⟨hfresh, h.consistent⟩, h.sequenceNumber, fun wait n he => ?_,
    fun pulse count he => ?_, fun u => ?_, fun u v hu hv heq => ?_, nofun⟩
  · rcases hmem _ he with heq | he
    · cases heq
      exact ⟨Nat.lt_succ_self _, le_rfl⟩
    · exact ⟨Nat.lt_succ_of_lt (h.began_lt wait n he).1, (h.began_lt wait n he).2⟩
  · exact h.pulsed_lt pulse count ((hmem _ he).resolve_left nofun)
  · by_cases hut : u = t
    · subst hut
      refine ⟨?_, fun _ => ?_, fun _ pulse count woken he hwoken => ?_, fun hin => ?_⟩
      · rw [Place, hself, hbegan]
        exact ⟨MutexWorld.unlocking_of_unlock hheld hstep, h.sequenceNumber⟩
      · rw [hwaitId, hbegan]
        refine ⟨List.mem_cons_self, fun he => ?_⟩
        obtain ⟨n, hn⟩ := h.exists_began ((hmem _ he).resolve_left nofun)
        exact hfresh n hn
      · rw [hwaitId] at hwoken
        exact absurd ((h.woke_past ((hmem _ he).resolve_left nofun)).2 _ hwoken) (lt_irrefl _)
      · rw [hself] at hin
        cases hin
    · exact (h.threads u).frame hut (hother u hut) (MutexWorld.frame_step hstep) (hwaitId' u hut)
        (update_of_ne hut _ _) rfl (List.subset_cons_self _ _)
        (fun _ he => (hmem _ he).resolve_left nofun)
        fun pulse count woken he => .inl ((hmem _ he).resolve_left nofun)
  · by_cases hut : u = t
    · subst hut
      by_cases hvu : v = u
      · exact hvu.symm
      · rw [hother v hvu] at hv
        rw [hwaitId, hwaitId' v hvu] at heq
        exact absurd (h.waitId_lt hv) (by omega)
    · rw [hother u hut] at hu
      rw [hwaitId' u hut] at heq
      by_cases hvt : v = t
      · subst hvt
        rw [hwaitId] at heq
        exact absurd (h.waitId_lt hu) (by omega)
      · rw [hother v hvt] at hv
        rw [hwaitId' v hvt] at heq
        exact h.distinct u v hu hv heq

theorem Inv.increment (h : w.Inv) {count : ℕ} (hq : w.point t = .pulse count) :
    (w.increment t count).Inv := by
  have hplace := (h.threads t).place
  rw [Place, hq] at hplace
  have hself : (w.increment t count).point t = .futexWake count := update_self _ _ _
  have hother : ∀ u, u ≠ t → (w.increment t count).point u = w.point u :=
    fun u hut => update_of_ne hut _ _
  have hmem : ∀ e ∈ (w.increment t count).history, e = .pulsed w.pulses count ∨ e ∈ w.history :=
    fun e => List.mem_cons.1
  have hinWait : ∀ u, ((w.increment t count).point u).inWait = true → (w.point u).inWait = true := by
    intro u hin
    by_cases hut : u = t
    · rw [hut, hself] at hin
      cases hin
    · rwa [hother u hut] at hin
  refine ⟨h.mutex, ⟨fun wait n he => (h.began_lt wait n he).2, h.consistent⟩, ?_, fun wait n he => ?_,
    fun pulse count' he => ?_, fun u => ?_, fun u v hu hv heq => ?_, nofun⟩
  · change w.sequenceNumber + 1 = BitVec.ofNat 32 (w.pulses + 1)
    rw [h.sequenceNumber, BitVec.ofNat_add]
    rfl
  · have hold := h.began_lt wait n ((hmem _ he).resolve_left nofun)
    exact ⟨hold.1, Nat.le_succ_of_le hold.2⟩
  · rcases hmem _ he with heq | he
    · cases heq
      exact Nat.lt_succ_self _
    · exact Nat.lt_succ_of_lt (h.pulsed_lt pulse count' he)
  · by_cases hut : u = t
    · subst hut
      refine ⟨?_, fun hin => ?_, fun hin => ?_, fun hin => ?_⟩
      · rw [Place, hself, show (w.increment u count).pulseId u = w.pulses from
          update_self _ _ _]
        exact ⟨hplace, List.mem_cons_self⟩
      · rw [hself] at hin
        cases hin
      · rw [hself] at hin
        cases hin
      · rw [hself] at hin
        cases hin
    · exact (h.threads u).frame hut (hother u hut) (.refl _ _) rfl rfl (update_of_ne hut _ _)
        (List.subset_cons_self _ _) (fun _ he => (hmem _ he).resolve_left nofun)
        fun pulse count woken he => .inl ((hmem _ he).resolve_left nofun)
  · exact h.distinct u v (hinWait u hu) (hinWait v hv) heq

theorem Inv.startLock [Fintype θ] (h : w.Inv) {timedOut : Bool} {mutex : MutexWorld θ}
    (hq : w.point t = .relock timedOut)
    (hstep : w.mutex.step (.lock t pthreadMutexLock) = .ok mutex) :
    (w.startLock t timedOut mutex).Inv := by
  have hself : (w.startLock t timedOut mutex).point t = .locking timedOut :=
    update_self _ _ _
  have hplace : (w.startLock t timedOut mutex).Place t := by
    rw [Place, hself]
    exact MutexWorld.locking_of_lock hstep
  have hin : (w.point t).inWait = true := by
    rw [hq]
    rfl
  exact h.of_mutex (p := .locking timedOut) hstep rfl rfl
    ⟨rfl, rfl, rfl, rfl, rfl, rfl⟩ [] rfl nofun hplace (fun _ => ⟨hin, nofun⟩) nofun nofun nofun

theorem Inv.wakeThreads [Fintype θ] (h : w.Inv) (hcard : Fintype.card θ < 2 ^ 31) {count : ℕ}
    {woken : Finset θ} (hq : w.point t = .futexWake count) (hwoken : woken ⊆ w.sleepers)
    (hcount : woken.card = min count w.sleepers.card) : (w.wakeThreads t count woken).Inv := by
  have hplace := (h.threads t).place
  rw [Place, hq] at hplace
  have hasleep : ∀ u ∈ woken, (w.point u).isAsleep = true := fun u hu =>
    (Finset.mem_filter.1 (hwoken hu)).2
  have hin : ∀ u ∈ woken, (w.point u).inWait = true ∧ (w.point u).beforeWake = true := by
    intro u hu
    have hu' := hasleep u hu
    cases hpoint : w.point u with
    | asleep abstime => exact ⟨rfl, rfl⟩
    | _ => rw [hpoint] at hu'; cases hu'
  have hpoint : ∀ u, (w.wakeThreads t count woken).point u =
      if u = t then .idle else if u ∈ woken then .relock false else w.point u := fun _ => rfl
  have hmem : ∀ e ∈ (w.wakeThreads t count woken).history,
      e = .woke (w.pulseId t) count (woken.image w.waitId) ∨ e ∈ w.history := fun e => List.mem_cons.1
  have hinWait : ∀ u, ((w.wakeThreads t count woken).point u).inWait = true →
      (w.point u).inWait = true := by
    intro u hu
    rw [hpoint] at hu
    split_ifs at hu with hut huw
    · cases hu
    · exact (hin u huw).1
    · exact hu
  refine ⟨h.mutex, ⟨⟨hplace.2, fun wait hwait => ?_⟩, h.consistent⟩, h.sequenceNumber,
    fun wait n he => h.began_lt wait n ((hmem _ he).resolve_left nofun),
    fun pulse count' he => h.pulsed_lt pulse count' ((hmem _ he).resolve_left nofun), fun u => ?_,
    fun u v hu hv heq => h.distinct u v (hinWait u hu) (hinWait v hv) heq, nofun⟩
  · obtain ⟨u, hu, rfl⟩ := Finset.mem_image.1 hwait
    obtain ⟨hu₁, hu₂⟩ := hin u hu
    exact ⟨⟨_, ((h.threads u).inWait hu₁).1⟩, ((h.threads u).inWait hu₁).2,
      (h.threads u).notWoken hu₂⟩
  · by_cases hut : u = t
    · have hself : (w.wakeThreads t count woken).point u = .idle := by
        rw [hpoint, if_pos hut]
      refine ⟨by rw [Place, hself]; trivial, fun hu => ?_, fun hu => ?_, fun hu => ?_⟩
      · rw [hself] at hu
        cases hu
      · rw [hself] at hu
        cases hu
      · rw [hself] at hu
        cases hu
    · by_cases huw : u ∈ woken
      · have hself : (w.wakeThreads t count woken).point u = .relock false := by
          rw [hpoint, if_neg hut, if_pos huw]
        refine ⟨?_, fun _ => ?_, fun hu => ?_, fun hu => ?_⟩
        · have hold := (h.threads u).place
          have hu := hasleep u huw
          rw [Place, hself]
          cases hp : w.point u with
          | asleep abstime => rwa [Place, hp] at hold
          | _ => rw [hp] at hu; cases hu
        · have hold := (h.threads u).inWait (hin u huw).1
          exact ⟨List.mem_cons_of_mem _ hold.1, fun he => hold.2 ((hmem _ he).resolve_left nofun)⟩
        · rw [hself] at hu
          cases hu
        · rw [hself] at hu
          cases hu
      · refine (h.threads u).frame hut (by rw [hpoint, if_neg hut, if_neg huw]) (.refl _ _) rfl rfl rfl
          (List.subset_cons_self _ _) (fun _ he => (hmem _ he).resolve_left nofun)
          fun pulse count' woken' he => ?_
        rcases hmem _ he with heq | he
        · cases heq
          refine .inr ⟨fun hbefore hwait => ?_, fun hu => ?_⟩
          · obtain ⟨v, hv, heq⟩ := Finset.mem_image.1 hwait
            have hu : (w.point u).inWait = true := by
              cases hp : w.point u with
              | unlocking abstime oldValue => rfl
              | futexWait abstime oldValue => rfl
              | asleep abstime => rfl
              | _ => rw [hp] at hbefore; cases hbefore
            exact huw (h.distinct v u (hin v hv).1 hu heq ▸ hv)
          · -- a thread is left asleep, so that the count is used up
            have hmore : woken.card < w.sleepers.card :=
              Finset.card_lt_card (Finset.ssubset_iff_subset_ne.2 ⟨hwoken, fun heq =>
                huw (heq ▸ Finset.mem_filter.2 ⟨Finset.mem_univ u, hu⟩)⟩)
            have hfew : w.sleepers.card ≤ Fintype.card θ := Finset.card_le_univ _
            have hone : count = 1 := by
              rcases hplace.1 with hone | hmax
              · exact hone
              · rw [intMax] at hmax
                omega
            obtain ⟨v, rfl⟩ := Finset.card_eq_one.1 (show woken.card = 1 by omega)
            rw [Finset.image_singleton, Finset.card_singleton]
            exact ⟨hone, rfl⟩
        · exact .inl he

theorem Inv.next [Fintype θ] (h : w.Inv) (hfew : w.FewPulses) (hstep : w.next t = .ok w') :
    w'.Inv := by
  have hplace := (h.threads t).place
  rw [Place] at hplace
  unfold CondWorld.next at hstep
  split at hstep
  · next abstime hq =>
    rw [hq] at hplace
    cases hunlock : w.mutex.step (.unlock t) with
    | error err => rw [hunlock] at hstep; cases hstep
    | ok mutex =>
      rw [hunlock] at hstep
      cases hstep
      exact h.readSequence hplace.2 hunlock
  · next abstime oldValue hq =>
    rw [hq] at hplace
    split_ifs at hstep with heq
    · cases hstep
      refine h.goto ?_ (fun _ => by rw [hq]; rfl) (fun _ => by rw [hq]; rfl)
        fun _ pulse count woken he hle => ?_
      · rw [Place, show CondWorld.point _ t = .asleep abstime from update_self _ _ _]
        exact hplace.1
      · -- no pulse has come since the wait began
        have hpulses := hfew t (by rw [hq]; rfl)
        have hbegan := (h.began_lt _ _ ((h.threads t).inWait (by rw [hq]; rfl)).1).2
        have hsequence := h.sequenceNumber
        rw [heq, hplace.2] at hsequence
        have hmod := congrArg BitVec.toNat hsequence
        rw [BitVec.toNat_ofNat, BitVec.toNat_ofNat] at hmod
        have hlt := (h.woke_past he).1
        omega
    · cases hstep
      refine h.goto ?_ (fun _ => by rw [hq]; rfl) nofun nofun
      rw [Place, show CondWorld.point _ t = .relock false from update_self _ _ _]
      exact hplace.1
  · next timedOut hq =>
    cases hlock : w.mutex.step (.lock t pthreadMutexLock) with
    | error err => rw [hlock] at hstep; cases hstep
    | ok mutex =>
      rw [hlock] at hstep
      cases hstep
      exact h.startLock hq hlock
  · next count hq =>
    cases hstep
    exact h.increment hq
  · cases hstep

theorem Inv.step [Fintype θ] (h : w.Inv) (hcard : Fintype.card θ < 2 ^ 31) (hfew : w.FewPulses)
    {a : CondAction θ} (hstep : w.step a = .ok w') : w'.Inv := by
  cases a with
  | mutex a =>
    rw [CondWorld.step] at hstep
    split_ifs at hstep with hmay
    cases ha : w.mutex.step a with
    | error err => rw [ha] at hstep; cases hstep
    | ok mutex =>
      rw [ha] at hstep
      cases hstep
      exact h.afterMutex hmay ha
  | wait t abstime =>
    rw [CondWorld.step] at hstep
    split_ifs at hstep with hready
    cases hstep
    refine h.goto ?_ nofun nofun nofun
    rw [Place, show CondWorld.point _ t = .read abstime from update_self _ _ _]
    exact hready.2
  | signal t =>
    rw [CondWorld.step] at hstep
    split_ifs at hstep with hready
    cases hstep
    refine h.goto ?_ nofun nofun nofun
    rw [Place, show CondWorld.point _ t = .pulse 1 from update_self _ _ _]
    exact .inl rfl
  | broadcast t =>
    rw [CondWorld.step] at hstep
    split_ifs at hstep with hready
    cases hstep
    refine h.goto ?_ nofun nofun nofun
    rw [Place, show CondWorld.point _ t = .pulse intMax from update_self _ _ _]
    exact .inr rfl
  | next t => exact h.next hfew hstep
  | wake t woken =>
    rw [CondWorld.step] at hstep
    split at hstep
    · next count hq =>
      split_ifs at hstep with hwoken
      cases hstep
      exact h.wakeThreads hcard hq hwoken.1 hwoken.2
    · cases hstep
  | interrupt t timedOut =>
    rw [CondWorld.step] at hstep
    split at hstep
    · next abstime hq =>
      split_ifs at hstep
      cases hstep
      refine h.goto ?_ (fun _ => by rw [hq]; rfl) nofun nofun
      have hplace := (h.threads t).place
      rw [Place, hq] at hplace
      rw [Place, show CondWorld.point _ t = .relock timedOut from update_self _ _ _]
      exact hplace
    · cases hstep

omit [DecidableEq θ] in
theorem inv_init (mutexType : MutexType) : (init mutexType : CondWorld θ).Inv :=
  ⟨⟨none, MutexWorld.inv_init mutexType⟩, trivial, rfl, nofun, nofun,
    fun _ => ⟨trivial, nofun, nofun, nofun⟩, nofun, nofun⟩

/-! ## No wait is left asleep -/

def Completed (signals : Finset ℕ) (period : List CondEvent) : Prop :=
  ∀ pulse ∈ signals, .pulsed pulse 1 ∈ period ∧ ∃ woken, .woke pulse 1 woken ∈ period

/-- The waits that are in progress at some time in the period. -/
def Covers (waits : Finset ℕ) (period earlier : List CondEvent) : Prop :=
  ∀ wait n, .began wait n ∈ period ++ earlier → .returned wait ∉ earlier → wait ∈ waits

/-- What holds of the condition variable in a state that a run has reached. -/
structure Sound (w : CondWorld θ) : Prop where
  /-- A thread that had released the mutex before a broadcast is not asleep after it. -/
  broadcast : ∀ t later earlier pulse woken, w.history = later ++ earlier →
    .released (w.waitId t) ∈ earlier → .pulsed pulse intMax ∈ later →
    .woke pulse intMax woken ∈ w.history → (w.point t).isAsleep = false
  /-- Nor is one that had released it before as many signals as there are waits. -/
  signals : ∀ t later period earlier signals waits, w.history = later ++ period ++ earlier →
    .released (w.waitId t) ∈ earlier → Completed signals period → Covers waits period earlier →
    waits.card ≤ signals.card → (w.point t).isAsleep = false
  returned : ∀ t result, w.returned = some (t, result) → w.mutex.holds t = true

omit [DecidableEq θ] in
theorem Inv.began_unique (h : w.Inv) {wait n n' : ℕ} (he : .began wait n ∈ w.history)
    (he' : .began wait n' ∈ w.history) : n = n' := by
  by_contra hne
  have hne' : CondEvent.began wait n ≠ .began wait n' := fun heq => by
    cases heq
    exact hne rfl
  have hconsistent := h.consistent
  rcases mem_past_of_ne he he' hne' with ⟨later, past, heq, hmem⟩ | ⟨later, past, heq, hmem⟩
  · rw [heq] at hconsistent
    exact hconsistent.fits_past n' hmem
  · rw [heq] at hconsistent
    exact hconsistent.fits_past n hmem

omit [DecidableEq θ] in
theorem Inv.woken_unique (h : w.Inv) {wait pulse pulse' count count' : ℕ} {woken woken' : Finset ℕ}
    (he : .woke pulse count woken ∈ w.history) (he' : .woke pulse' count' woken' ∈ w.history)
    (hwait : wait ∈ woken) (hwait' : wait ∈ woken') : pulse = pulse' := by
  by_contra hne
  have hne' : CondEvent.woke pulse count woken ≠ .woke pulse' count' woken' := fun heq => by
    cases heq
    exact hne rfl
  have hconsistent := h.consistent
  rcases mem_past_of_ne he he' hne' with ⟨later, past, heq, hmem⟩ | ⟨later, past, heq, hmem⟩
  · rw [heq] at hconsistent
    exact (hconsistent.fits_past.2 wait hwait).2.2 pulse' count' woken' hmem hwait'
  · rw [heq] at hconsistent
    exact (hconsistent.fits_past.2 wait hwait').2.2 pulse count woken hmem hwait

omit [DecidableEq θ] in
theorem Inv.began_le (h : w.Inv) (hin : (w.point t).inWait = true) {later earlier : List CondEvent}
    {pulse count : ℕ} (hhistory : w.history = later ++ earlier)
    (hreleased : .released (w.waitId t) ∈ earlier) (hpulsed : .pulsed pulse count ∈ later) :
    w.began t ≤ pulse := by
  have hconsistent := h.consistent
  rw [hhistory] at hconsistent
  obtain ⟨past, hsub, n, hn⟩ := hconsistent.of_append.exists_past hreleased
  have hn' : .began (w.waitId t) n ∈ w.history := by
    rw [hhistory]
    exact List.mem_append_right _ (hsub hn)
  rw [h.began_unique ((h.threads t).inWait hin).1 hn']
  obtain ⟨l₁, l₂, rfl⟩ := List.append_of_mem hpulsed
  rw [List.append_assoc, List.cons_append] at hconsistent
  exact hconsistent.fits_past _ n (List.mem_append_right _ (hsub hn))

theorem inWait_of_isAsleep (h : p.isAsleep = true) : p.inWait = true ∧ p.beforeWake = true := by
  cases p with
  | asleep abstime => exact ⟨rfl, rfl⟩
  | _ => cases h

omit [DecidableEq θ] in
theorem Inv.broadcast (h : w.Inv) {later earlier : List CondEvent} {pulse : ℕ} {woken : Finset ℕ}
    (hhistory : w.history = later ++ earlier) (hreleased : .released (w.waitId t) ∈ earlier)
    (hpulsed : .pulsed pulse intMax ∈ later) (hwoke : .woke pulse intMax woken ∈ w.history) :
    (w.point t).isAsleep = false := by
  by_contra hasleep
  rw [Bool.not_eq_false] at hasleep
  have hle := h.began_le (inWait_of_isAsleep hasleep).1 hhistory hreleased hpulsed
  exact absurd ((h.threads t).asleep hasleep pulse intMax woken hwoke hle).1 (by decide)

omit [DecidableEq θ] in
theorem Inv.signals (h : w.Inv) {later period earlier : List CondEvent} {signals waits : Finset ℕ}
    (hhistory : w.history = later ++ period ++ earlier)
    (hreleased : .released (w.waitId t) ∈ earlier) (hcompleted : Completed signals period)
    (hcovers : Covers waits period earlier) (hcard : waits.card ≤ signals.card) :
    (w.point t).isAsleep = false := by
  by_contra hasleep
  rw [Bool.not_eq_false] at hasleep
  obtain ⟨hin, hbefore⟩ := inWait_of_isAsleep hasleep
  have hsub : ∀ e ∈ period, e ∈ w.history := fun e he => by
    rw [hhistory]
    exact List.mem_append_left _ (List.mem_append_right _ he)
  -- each signal has woken one other wait
  have hwoken : ∀ pulse ∈ signals, ∃ wait, .woke pulse 1 {wait} ∈ period := by
    intro pulse hpulse
    obtain ⟨hpulsed, woken, hwoke⟩ := hcompleted pulse hpulse
    have hle := h.began_le hin hhistory hreleased (List.mem_append_right _ hpulsed)
    obtain ⟨wait, rfl⟩ := Finset.card_eq_one.1
      ((h.threads t).asleep hasleep pulse 1 woken (hsub _ hwoke) hle).2
    exact ⟨wait, hwoke⟩
  choose! woken hwoke using hwoken
  have hinj : Set.InjOn woken signals := fun pulse hpulse pulse' hpulse' heq =>
    h.woken_unique (hsub _ (hwoke pulse hpulse)) (hsub _ (hwoke pulse' hpulse'))
      (Finset.mem_singleton_self _) (heq ▸ Finset.mem_singleton_self _)
  have hself : w.waitId t ∉ signals.image woken := by
    intro hmem
    obtain ⟨pulse, hpulse, heq⟩ := Finset.mem_image.1 hmem
    exact (h.threads t).notWoken hbefore pulse 1 _ (hsub _ (hwoke pulse hpulse))
      (heq ▸ Finset.mem_singleton_self _)
  have hwaits : insert (w.waitId t) (signals.image woken) ⊆ waits := by
    intro wait hwait
    have hconsistent := h.consistent
    rw [hhistory, List.append_assoc] at hconsistent
    rcases Finset.mem_insert.1 hwait with rfl | hwait
    · obtain ⟨past, hpast, n, hn⟩ := hconsistent.of_append.of_append.exists_past hreleased
      refine hcovers _ n (List.mem_append_right _ (hpast hn)) fun hreturned => ?_
      refine ((h.threads t).inWait hin).2 ?_
      rw [hhistory]
      exact List.mem_append_right _ hreturned
    · obtain ⟨pulse, hpulse, rfl⟩ := Finset.mem_image.1 hwait
      obtain ⟨l₁, l₂, rfl⟩ := List.append_of_mem (hwoke pulse hpulse)
      rw [List.append_assoc, List.cons_append] at hconsistent
      obtain ⟨⟨n, hn⟩, hreturned, -⟩ :=
        hconsistent.of_append.fits_past.2 _ (Finset.mem_singleton_self _)
      refine hcovers _ n ?_ fun hmem => hreturned (List.mem_append_right _ hmem)
      rw [List.append_assoc]
      exact List.mem_append_right _ (List.mem_cons_of_mem _ hn)
  have hle := Finset.card_le_card hwaits
  rw [Finset.card_insert_of_notMem hself, Finset.card_image_of_injOn hinj] at hle
  omega

/-- Whatever the order of the threads' steps, no wait that a broadcast or enough signals come after is
left asleep.  `futex_wake` counts with an `int`; far fewer threads can exist. -/
theorem condSound_of_run [Fintype θ] (hcard : Fintype.card θ < 2 ^ 31) (mutexType : MutexType)
    {run : List (CondAction θ)} (hfew : Guarded step (fun w _ => w.FewPulses) (init mutexType) run)
    (hrun : run.foldlM step (init mutexType) = .ok w) : w.Sound := by
  have h : w.Inv := hfew.invariant (fun _ _ _ h hfew hstep => Inv.step h hcard hfew hstep)
    (inv_init mutexType) hrun
  exact ⟨fun _ _ _ _ _ => h.broadcast, fun _ _ _ _ _ _ => h.signals, h.returned⟩

end

def fallAsleep (t : Fin 3) : List (CondAction (Fin 3)) :=
  [.mutex (.lock t pthreadMutexLock), .mutex (.next t), .wait t false, .next t, .mutex (.next t),
    .next t]

local instance neZeroThreads : NeZero 3 := ⟨by decide⟩

/-- A signal that nobody waits for, and one that comes after two threads have fallen asleep. -/
def signalsRun : List (CondAction (Fin 3)) :=
  [.signal 2, .next 2, .wake 2 ∅] ++ fallAsleep 0 ++ fallAsleep 1 ++
    [.signal 2, .next 2, .wake 2 {1}]

/-- It is not enough to have released the mutex before the last of the signals. -/
theorem not_asleep_after_last_signal : ¬ ∀ (run : List (CondAction (Fin 3))) (w : CondWorld (Fin 3)),
    Guarded step (fun w _ => w.FewPulses) (init .fast) run → run.foldlM step (init .fast) = .ok w →
    ∀ t later period earlier signals waits last later' earlier',
      w.history = later ++ period ++ earlier → Completed signals period →
      Covers waits period earlier → waits.card ≤ signals.card → last ∈ signals →
      (∀ pulse ∈ signals, pulse ≤ last) → w.history = later' ++ .pulsed last 1 :: earlier' →
      .released (w.waitId t) ∈ earlier' → (w.point t).isAsleep = false := by
  intro hclaim
  let past : List CondEvent := [.released 1, .began 1 1, .released 0, .began 0 1, .woke 0 1 ∅,
    .pulsed 0 1]
  let history : List CondEvent := .woke 1 1 {1} :: .pulsed 1 1 :: past
  obtain ⟨w, hrun, hhistory, hasleep, hwaitId⟩ := Runs.exists_ok_of_check
    (P := fun w : CondWorld (Fin 3) =>
      w.history = history ∧ (w.point 0).isAsleep = true ∧ w.waitId 0 = 0)
    (fun w => w.history = history ∧ (w.point 0).isAsleep = true ∧ w.waitId 0 = 0)
    (fun _ hcheck => of_decide_eq_true hcheck) (x := signalsRun.foldlM step (init .fast))
    (by decide +kernel)
  have hcompleted : Completed {0, 1} history := by
    intro pulse hpulse
    have hpulse' : pulse = 0 ∨ pulse = 1 := by simpa using hpulse
    rcases hpulse' with rfl | rfl
    · exact ⟨by decide, ∅, by decide⟩
    · exact ⟨by decide, {1}, by decide⟩
  have hcovers : Covers {0, 1} history [] := by
    intro wait n he _
    simp [history, past] at he
    rcases he with ⟨rfl, -⟩ | ⟨rfl, -⟩
    · decide
    · decide
  have hnot := hclaim signalsRun w (Guarded.of_check (by decide +kernel)) hrun 0 [] history [] {0, 1}
    {0, 1} 1 [.woke 1 1 {1}] past (by rw [hhistory]; simp) hcompleted hcovers le_rfl (by decide)
    (by decide) hhistory (by rw [hwaitId]; decide)
  rw [hasleep] at hnot
  cases hnot

/-- Two threads fall asleep, a broadcast wakes both, and one of them returns. -/
def broadcastRun : List (CondAction (Fin 3)) :=
  fallAsleep 0 ++ fallAsleep 1 ++ [.broadcast 2, .next 2, .wake 2 {0, 1}, .next 0, .mutex (.next 0)]

theorem condSound_of_run_broadcast : ∃ w, broadcastRun.foldlM step (init .fast) = .ok w ∧
    w.returned = some (0, .ok ()) ∧ w.point 1 = .relock false ∧ w.Sound := by
  obtain ⟨w, hrun, hreturned, hpoint⟩ := Runs.exists_ok_of_check
    (P := fun w : CondWorld (Fin 3) => w.returned = some (0, .ok ()) ∧ w.point 1 = .relock false)
    (fun w => w.returned = some (0, .ok ()) ∧ w.point 1 = .relock false)
    (fun _ hcheck => of_decide_eq_true hcheck) (x := broadcastRun.foldlM step (init .fast))
    (by decide +kernel)
  exact ⟨w, hrun, hreturned, hpoint,
    condSound_of_run (by decide) .fast (Guarded.of_check (by decide +kernel)) hrun⟩

end CondWorld

end SandboxingNaCl
