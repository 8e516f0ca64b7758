import Mathlib.Algebra.Ring.Nat
import SandboxingNaCl.Lib.Runs
import SandboxingNaCl.Lib.ThreadCount
import SandboxingNaCl.Pthread.Common

/-!
# Semaphores

`nc_semaphore.c`.  A step is one access to `count` or `nwaiters`, or one call of the futex interface;
`futex_wait_abs` compares and falls asleep at once, and `futex_wake` picks any sleeper.
-/

namespace SandboxingNaCl

open Threads Function

def semValueMax : BitVec 32 := 2147483647

/-- `sem_t`. -/
structure Sem where
  count : BitVec 32
  nwaiters : BitVec 32

/-- `sem_init`; the value is an `unsigned int`. -/
def semInit (pshared : Bool) (value : BitVec 32) : Except Errno Sem :=
  if pshared then .error .enosys
  else if value > semValueMax then .error .einval
  else .ok ⟨value, 0⟩

/-- The call of `decrement_if_positive`. -/
inductive DecrementCaller
  | semTrywait
  /-- The first statement of `sem_wait`. -/
  | semWait
  /-- The loop of `sem_wait`. -/
  | semWaitLoop
deriving DecidableEq

/-- What a thread does next. -/
inductive SemPoint
  | idle
  /-- `old_value = *ptr` in `decrement_if_positive`. -/
  | read (caller : DecrementCaller)
  | decrement (caller : DecrementCaller) (oldValue : BitVec 32)
  /-- `nwaiters` is incremented. -/
  | addWaiter
  | futexWait
  | asleep
  /-- `nwaiters` is decremented. -/
  | subWaiter
  /-- `old_value = sem->count` in `sem_post`. -/
  | postRead
  | increment (oldValue : BitVec 32)
  /-- `nwaiters` is compared with 0. -/
  | postCheck
  | futexWake
deriving DecidableEq

namespace SemPoint

/-- Between the increment and the decrement of `nwaiters`. -/
def counted : SemPoint → Bool
  | .futexWait | .asleep | .subWaiter | .read .semWaitLoop | .decrement .semWaitLoop _ => true
  | _ => false

/-- In `sem_wait`, and not asleep. -/
def awakeInWait : SemPoint → Bool
  | .read .semWait | .decrement .semWait _ | .addWaiter | .futexWait | .subWaiter
  | .read .semWaitLoop | .decrement .semWaitLoop _ => true
  | _ => false

/-- Between the increment of `count` and the end of `futex_wake` in `sem_post`. -/
def aboutToWake : SemPoint → Bool
  | .postCheck | .futexWake => true
  | _ => false

/-- A post that is not lost: a thread that is going to wake a sleeper, or to look at `count` again. -/
def pursues : SemPoint → Bool
  | .postCheck | .futexWake | .futexWait | .read .semWaitLoop | .decrement .semWaitLoop _ => true
  | _ => false

theorem pursues_eq_false {p : SemPoint} (hwake : p.aboutToWake = false)
    (hawake : p.awakeInWait = false) : p.pursues = false := by
  cases p with
  | postCheck => exact hwake
  | futexWake => exact hwake
  | futexWait => exact hawake
  | read caller =>
    cases caller with
    | semWaitLoop => exact hawake
    | _ => rfl
  | decrement caller oldValue =>
    cases caller with
    | semWaitLoop => exact hawake
    | _ => rfl
  | _ => rfl

/-- What `decrement_if_positive` and `sem_post` have seen before they change the value. -/
def Checked : SemPoint → Prop
  | .decrement _ oldValue => oldValue ≠ 0
  | .increment oldValue => oldValue ≠ semValueMax
  | _ => True

end SemPoint

/-- A semaphore and the threads that use it.  `waits` and `posts` are the calls that have changed
`count`; `returned` is the call that the last step has ended. -/
structure SemWorld (θ : Type) where
  sem : Sem
  point : θ → SemPoint
  waits : ℕ
  posts : ℕ
  returned : Option (θ × Except Errno Unit)

/-- What happens next. -/
inductive SemAction (θ : Type)
  | semWait (t : θ)
  | semTrywait (t : θ)
  | semPost (t : θ)
  /-- The thread goes on, if it is not at `futex_wake`. -/
  | next (t : θ)
  /-- `futex_wake` wakes a sleeper, if there is one. -/
  | wake (t : θ) (woken : Option θ)
  /-- `futex_wait_abs` returns without a `futex_wake`. -/
  | interrupt (t : θ)

namespace SemWorld

variable {θ : Type} [Fintype θ] [DecidableEq θ]

/-- The state after `sem_init`. -/
def start (sem : Sem) : SemWorld θ := ⟨sem, fun _ => .idle, 0, 0, none⟩

def goto (w : SemWorld θ) (t : θ) (point : SemPoint) : SemWorld θ :=
  { w with point := Function.update w.point t point, returned := none }

def finish (w : SemWorld θ) (t : θ) (result : Except Errno Unit) : SemWorld θ :=
  { w with point := Function.update w.point t .idle, returned := some (t, result) }

/-- `decrement_if_positive` has returned 1. -/
def decremented (w : SemWorld θ) (t : θ) : DecrementCaller → SemWorld θ
  | .semTrywait | .semWait => w.finish t (.ok ())
  | .semWaitLoop => w.goto t .subWaiter

/-- `decrement_if_positive` has returned 0. -/
def notPositive (w : SemWorld θ) (t : θ) : DecrementCaller → SemWorld θ
  | .semTrywait => w.finish t (.error .eagain)
  | .semWait => w.goto t .addWaiter
  | .semWaitLoop => w.goto t .futexWait

/-- The next step of a thread. -/
def next (w : SemWorld θ) (t : θ) : Except Blocked (SemWorld θ) :=
  match w.point t with
  | .idle | .asleep | .futexWake => .error .blocked
  | .read caller =>
    if w.sem.count = 0 then .ok (w.notPositive t caller)
    else .ok (w.goto t (.decrement caller w.sem.count))
  | .decrement caller oldValue =>
    if w.sem.count = oldValue then
      .ok ({ w with sem.count := oldValue - 1, waits := w.waits + 1 }.decremented t caller)
    else .ok (w.goto t (.read caller))
  | .addWaiter => .ok ({ w with sem.nwaiters := w.sem.nwaiters + 1 }.goto t .futexWait)
  | .futexWait =>
    if w.sem.count = 0 then .ok (w.goto t .asleep) else .ok (w.goto t (.read .semWaitLoop))
  | .subWaiter => .ok ({ w with sem.nwaiters := w.sem.nwaiters - 1 }.finish t (.ok ()))
  | .postRead =>
    if w.sem.count = semValueMax then .ok (w.finish t (.error .eoverflow))
    else .ok (w.goto t (.increment w.sem.count))
  | .increment oldValue =>
    if w.sem.count = oldValue then
      .ok ({ w with sem.count := oldValue + 1, posts := w.posts + 1 }.goto t .postCheck)
    else .ok (w.goto t .postRead)
  | .postCheck =>
    if w.sem.nwaiters ≠ 0 then .ok (w.goto t .futexWake) else .ok (w.finish t (.ok ()))

/-- One step. -/
def step (w : SemWorld θ) : SemAction θ → Except Blocked (SemWorld θ)
  | .semWait t => if w.point t = .idle then .ok (w.goto t (.read .semWait)) else .error .blocked
  | .semTrywait t => if w.point t = .idle then .ok (w.goto t (.read .semTrywait)) else .error .blocked
  | .semPost t => if w.point t = .idle then .ok (w.goto t .postRead) else .error .blocked
  | .next t => w.next t
  | .wake t (some u) =>
    if w.point t = .futexWake ∧ w.point u = .asleep then
      .ok ((w.goto u (.read .semWaitLoop)).finish t (.ok ()))
    else .error .blocked
  | .wake t none =>
    if w.point t = .futexWake ∧ ∀ u, w.point u ≠ .asleep then .ok (w.finish t (.ok ()))
    else .error .blocked
  | .interrupt t =>
    if w.point t = .asleep then .ok (w.goto t (.read .semWaitLoop)) else .error .blocked

/-! ## The invariant -/

section

variable {initial : BitVec 32} {w w' : SemWorld θ} {t : θ} {p q : SemPoint}

/-- What every step keeps. -/
structure Inv (initial : BitVec 32) (w : SemWorld θ) : Prop where
  count_le : w.sem.count.toNat ≤ semValueMax.toNat
  balance : w.sem.count.toNat + w.waits = initial.toNat + w.posts
  nwaiters : w.sem.nwaiters.toNat = count SemPoint.counted w.point
  pursued : ∀ t, w.point t = .asleep → w.sem.count.toNat ≤ count SemPoint.pursues w.point
  checked : ∀ t, (w.point t).Checked

theorem Inv.of_point (h : w.Inv initial) (hq : w.point t = q)
    (hpoint : w'.point = update w.point t p) (hchecked : p.Checked)
    (hle : w'.sem.count.toNat ≤ semValueMax.toNat)
    (hbalance : w'.sem.count.toNat + w'.waits = initial.toNat + w'.posts)
    (hnwaiters : w'.sem.nwaiters.toNat + q.counted.toNat =
      w.sem.nwaiters.toNat + p.counted.toNat)
    (hpursued : w'.sem.count = 0 ∨ p ≠ .asleep ∧ ((∃ u, w.point u = .asleep) →
      w'.sem.count.toNat + q.pursues.toNat ≤ w.sem.count.toNat + p.pursues.toNat)) :
    w'.Inv initial := by
  subst hq
  refine ⟨hle, hbalance, ?_, fun u hu => ?_, fun u => ?_⟩
  · have hold := h.nwaiters
    have hcount := count_update_add SemPoint.counted w.point t p
    rw [hpoint]
    omega
  · rcases hpursued with hzero | ⟨hp, hpursued⟩
    · rw [hzero]
      exact Nat.zero_le _
    · rw [hpoint, update_apply] at hu
      split_ifs at hu
      · exact absurd hu hp
      · have hold := h.pursued u hu
        have hcount := count_update_add SemPoint.pursues w.point t p
        have hmove := hpursued ⟨u, hu⟩
        rw [hpoint]
        omega
  · rw [hpoint, update_apply]
    split_ifs
    · exact hchecked
    · exact h.checked u

theorem Inv.move (h : w.Inv initial) (hq : w.point t = q)
    (hpoint : w'.point = update w.point t p)
    (hsem : w'.sem = w.sem) (hwaits : w'.waits = w.waits) (hposts : w'.posts = w.posts)
    (hchecked : p.Checked) (hcounted : q.counted = p.counted)
    (hpursued : w.sem.count = 0 ∨
      p ≠ .asleep ∧ ((∃ u, w.point u = .asleep) → q.pursues ≤ p.pursues)) :
    w'.Inv initial := by
  refine h.of_point hq hpoint hchecked ?_ ?_ ?_ ?_
  · rw [hsem]
    exact h.count_le
  · rw [hsem, hwaits, hposts]
    exact h.balance
  · rw [hsem, hcounted]
  · rw [hsem]
    exact hpursued.imp_right fun ⟨hp, hle⟩ =>
      ⟨hp, fun hex => Nat.add_le_add_left (Bool.toNat_le_toNat (hle hex)) _⟩

theorem Inv.notPositive (h : w.Inv initial) {caller : DecrementCaller}
    (hq : w.point t = .read caller) : (w.notPositive t caller).Inv initial := by
  cases caller with
  | semTrywait => exact h.move hq rfl rfl rfl rfl trivial rfl (.inr ⟨nofun, fun _ => le_rfl⟩)
  | semWait => exact h.move hq rfl rfl rfl rfl trivial rfl (.inr ⟨nofun, fun _ => le_rfl⟩)
  | semWaitLoop => exact h.move hq rfl rfl rfl rfl trivial rfl (.inr ⟨nofun, fun _ => le_rfl⟩)

theorem Inv.decremented (h : w.Inv initial) {caller : DecrementCaller}
    (hq : w.point t = .decrement caller w.sem.count) :
    (SemWorld.decremented { w with sem.count := w.sem.count - 1, waits := w.waits + 1 } t caller).Inv
      initial := by
  have hpos : w.sem.count ≠ 0 := by
    have hchecked := h.checked t
    rwa [hq] at hchecked
  have hsub : (w.sem.count - 1).toNat + 1 = w.sem.count.toNat := by
    bv_omega
  have hle : (w.sem.count - 1).toNat ≤ semValueMax.toNat := by
    have hold := h.count_le
    omega
  have hbalance : (w.sem.count - 1).toNat + (w.waits + 1) = initial.toNat + w.posts := by
    have hold := h.balance
    omega
  cases caller with
  | semTrywait =>
    exact h.of_point hq rfl trivial hle hbalance rfl (.inr ⟨nofun, fun _ => Nat.le.intro hsub⟩)
  | semWait =>
    exact h.of_point hq rfl trivial hle hbalance rfl (.inr ⟨nofun, fun _ => Nat.le.intro hsub⟩)
  | semWaitLoop =>
    exact h.of_point hq rfl trivial hle hbalance rfl (.inr ⟨nofun, fun _ => hsub.le⟩)

theorem Inv.incremented (h : w.Inv initial) (hq : w.point t = .increment w.sem.count) :
    Inv initial (SemWorld.goto
      { w with sem.count := w.sem.count + 1, posts := w.posts + 1 } t .postCheck) := by
  have hmax : w.sem.count.toNat ≠ semValueMax.toNat := by
    have hchecked := h.checked t
    rw [hq] at hchecked
    exact fun heq => hchecked (BitVec.eq_of_toNat_eq heq)
  have hle := h.count_le
  have hbound : semValueMax.toNat < 2 ^ 31 := by decide
  have hadd : (w.sem.count + 1).toNat = w.sem.count.toNat + 1 := by
    bv_omega
  have hbalance : (w.sem.count + 1).toNat + w.waits = initial.toNat + (w.posts + 1) := by
    have hold := h.balance
    omega
  have hle' : (w.sem.count + 1).toNat ≤ semValueMax.toNat := by
    omega
  exact h.of_point hq rfl trivial hle' hbalance rfl (.inr ⟨nofun, fun _ => hadd.le⟩)

theorem Inv.addWaiter (h : w.Inv initial) (hcard : Fintype.card θ < 2 ^ 31)
    (hq : w.point t = .addWaiter) :
    Inv initial (SemWorld.goto { w with sem.nwaiters := w.sem.nwaiters + 1 } t .futexWait) := by
  have hcount := h.nwaiters
  have hfew : count SemPoint.counted w.point ≤ Fintype.card θ := count_le_card
  have hadd : (w.sem.nwaiters + 1).toNat = w.sem.nwaiters.toNat + 1 := by
    bv_omega
  exact h.of_point hq rfl trivial h.count_le h.balance hadd
    (.inr ⟨nofun, fun _ => Nat.le_add_right _ _⟩)

theorem Inv.subWaiter (h : w.Inv initial) (hq : w.point t = .subWaiter) :
    Inv initial (SemWorld.finish { w with sem.nwaiters := w.sem.nwaiters - 1 } t (.ok ())) := by
  have hcount := h.nwaiters
  have hself : 0 < count SemPoint.counted w.point := count_pos_of (t := t) (by rw [hq]; rfl)
  have hsub : (w.sem.nwaiters - 1).toNat + 1 = w.sem.nwaiters.toNat := by
    bv_omega
  exact h.of_point hq rfl trivial h.count_le h.balance hsub (.inr ⟨nofun, fun _ => le_rfl⟩)

omit [DecidableEq θ] in
theorem Inv.nwaiters_ne_zero (h : w.Inv initial) {u : θ} (hu : w.point u = .asleep) :
    w.sem.nwaiters ≠ 0 := by
  have hself : 0 < count SemPoint.counted w.point := count_pos_of (t := u) (by rw [hu]; rfl)
  rintro hzero
  rw [← h.nwaiters, hzero] at hself
  exact absurd hself (by decide)

theorem Inv.wake (h : w.Inv initial) {u : θ} (ht : w.point t = .futexWake)
    (hu : w.point u = .asleep) :
    ((w.goto u (.read .semWaitLoop)).finish t (.ok ())).Inv initial := by
  have htu : t ≠ u := by
    rintro rfl
    rw [ht] at hu
    cases hu
  have hmove (P : SemPoint → Bool) :=
    count_update_update_add htu P w.point .idle (.read .semWaitLoop)
  have hcounted := hmove SemPoint.counted
  -- the sleeper takes over the permit that the post pursues
  have hpursues := hmove SemPoint.pursues
  rw [ht, hu] at hcounted hpursues
  have hothers : ∀ v, update (update w.point u (.read .semWaitLoop)) t .idle v =
      if v = t then .idle else if v = u then .read .semWaitLoop else w.point v := fun v => by
    rw [update_apply, update_apply]
  refine ⟨h.count_le, h.balance, ?_, fun v hv => ?_, fun v => ?_⟩
  · exact h.nwaiters.trans (Nat.add_right_cancel hcounted).symm
  · have hasleep := (hothers v).symm.trans hv
    split_ifs at hasleep
    exact (h.pursued v hasleep).trans (Nat.succ.inj hpursues).ge
  · change (update (update w.point u (.read .semWaitLoop)) t .idle v).Checked
    rw [hothers]
    split_ifs
    · trivial
    · trivial
    · exact h.checked v

theorem Inv.next (h : w.Inv initial) (hcard : Fintype.card θ < 2 ^ 31) (hstep : w.next t = .ok w') :
    w'.Inv initial := by
  unfold SemWorld.next at hstep
  split at hstep
  · cases hstep
  · cases hstep
  · cases hstep
  · next caller hq =>
    split_ifs at hstep with hcount
    · cases hstep
      exact h.notPositive hq
    · cases hstep
      exact h.move hq rfl rfl rfl rfl hcount (by cases caller <;> rfl)
        (.inr ⟨nofun, fun _ => by cases caller <;> exact le_rfl⟩)
  · next caller oldValue hq =>
    split_ifs at hstep with hcount
    · subst hcount
      cases hstep
      exact h.decremented hq
    · cases hstep
      exact h.move hq rfl rfl rfl rfl trivial (by cases caller <;> rfl)
        (.inr ⟨nofun, fun _ => by cases caller <;> exact le_rfl⟩)
  · next hq =>
    cases hstep
    exact h.addWaiter hcard hq
  · next hq =>
    split_ifs at hstep with hcount
    · cases hstep
      exact h.move hq rfl rfl rfl rfl trivial rfl (.inl hcount)
    · cases hstep
      exact h.move hq rfl rfl rfl rfl trivial rfl (.inr ⟨nofun, fun _ => le_rfl⟩)
  · next hq =>
    cases hstep
    exact h.subWaiter hq
  · next hq =>
    split_ifs at hstep with hcount
    · cases hstep
      exact h.move hq rfl rfl rfl rfl trivial rfl (.inr ⟨nofun, fun _ => le_rfl⟩)
    · cases hstep
      exact h.move hq rfl rfl rfl rfl hcount rfl (.inr ⟨nofun, fun _ => le_rfl⟩)
  · next oldValue hq =>
    split_ifs at hstep with hcount
    · subst hcount
      cases hstep
      exact h.incremented hq
    · cases hstep
      exact h.move hq rfl rfl rfl rfl trivial rfl (.inr ⟨nofun, fun _ => le_rfl⟩)
  · next hq =>
    split_ifs at hstep with hnwaiters
    · cases hstep
      exact h.move hq rfl rfl rfl rfl trivial rfl (.inr ⟨nofun, fun _ => le_rfl⟩)
    · cases hstep
      exact h.move hq rfl rfl rfl rfl trivial rfl
        (.inr ⟨nofun, fun ⟨u, hu⟩ => absurd (not_not.1 hnwaiters) (h.nwaiters_ne_zero hu)⟩)

theorem Inv.step (h : w.Inv initial) (hcard : Fintype.card θ < 2 ^ 31) {a : SemAction θ}
    (hstep : w.step a = .ok w') : w'.Inv initial := by
  cases a with
  | semWait t =>
    rw [SemWorld.step] at hstep
    split_ifs at hstep with hq
    cases hstep
    exact h.move hq rfl rfl rfl rfl trivial rfl (.inr ⟨nofun, fun _ => le_rfl⟩)
  | semTrywait t =>
    rw [SemWorld.step] at hstep
    split_ifs at hstep with hq
    cases hstep
    exact h.move hq rfl rfl rfl rfl trivial rfl (.inr ⟨nofun, fun _ => le_rfl⟩)
  | semPost t =>
    rw [SemWorld.step] at hstep
    split_ifs at hstep with hq
    cases hstep
    exact h.move hq rfl rfl rfl rfl trivial rfl (.inr ⟨nofun, fun _ => le_rfl⟩)
  | next t => exact h.next hcard hstep
  | wake t woken =>
    cases woken with
    | some u =>
      rw [SemWorld.step] at hstep
      split_ifs at hstep with hq
      cases hstep
      exact h.wake hq.1 hq.2
    | none =>
      rw [SemWorld.step] at hstep
      split_ifs at hstep with hq
      cases hstep
      exact h.move hq.1 rfl rfl rfl rfl trivial rfl
        (.inr ⟨nofun, fun ⟨u, hu⟩ => absurd hu (hq.2 u)⟩)
  | interrupt t =>
    rw [SemWorld.step] at hstep
    split_ifs at hstep with hq
    cases hstep
    exact h.move hq rfl rfl rfl rfl trivial rfl (.inr ⟨nofun, fun _ => Bool.false_le _⟩)

/-- What holds of the semaphore in a state that a run has reached. -/
structure Sound (initial : BitVec 32) (w : SemWorld θ) : Prop where
  count_nonneg : 0 ≤ w.sem.count.toInt
  count_le : w.sem.count.toInt ≤ semValueMax.toInt
  balance : w.sem.count.toInt + w.waits = initial.toNat + w.posts
  nwaiters : w.sem.nwaiters.toInt = count SemPoint.counted w.point
  noLostPost : (∀ t, (w.point t).aboutToWake = false) → (∀ t, (w.point t).awakeInWait = false) →
    ∀ t, w.point t = .asleep → w.sem.count = 0

omit [DecidableEq θ] in
theorem Inv.sound (h : w.Inv initial) (hcard : Fintype.card θ < 2 ^ 31) : w.Sound initial := by
  have hbound : semValueMax.toNat < 2 ^ 31 := by decide
  have hle := h.count_le
  have hmax : semValueMax.toInt = semValueMax.toNat := BitVec.toInt_eq_toNat_of_lt (by omega)
  have hcount : w.sem.count.toInt = w.sem.count.toNat := BitVec.toInt_eq_toNat_of_lt (by omega)
  have hbalance := h.balance
  have hfew : count SemPoint.counted w.point ≤ Fintype.card θ := count_le_card
  have hwaiters := h.nwaiters
  have hnwaiters : w.sem.nwaiters.toInt = w.sem.nwaiters.toNat :=
    BitVec.toInt_eq_toNat_of_lt (by omega)
  refine ⟨by omega, by omega, by omega, by omega, fun hwake hawake t ht => ?_⟩
  have hnone : count SemPoint.pursues w.point = 0 :=
    count_eq_zero fun u => SemPoint.pursues_eq_false (hwake u) (hawake u)
  have hzero := h.pursued t ht
  rw [hnone] at hzero
  exact BitVec.eq_of_toNat_eq (Nat.le_zero.1 hzero)

omit [DecidableEq θ] in
theorem inv_start {sem : Sem} (hinit : semInit false initial = .ok sem) :
    (start sem : SemWorld θ).Inv initial := by
  rw [semInit, if_neg nofun] at hinit
  split_ifs at hinit with hvalue
  cases hinit
  have hnone (P : SemPoint → Bool) (hP : P .idle = false) :
      count P (start ⟨initial, 0⟩ : SemWorld θ).point = 0 := count_eq_zero fun _ => hP
  refine ⟨?_, rfl, (hnone _ rfl).symm, nofun, fun _ => trivial⟩
  exact Nat.le_of_not_lt hvalue

/-- Whatever the order of the threads' steps, permits are neither lost nor made up, and no post is
lost on a sleeper.  `nwaiters` is an `int`; far fewer threads can exist. -/
theorem semSound_of_run (hcard : Fintype.card θ < 2 ^ 31) {sem : Sem}
    (hinit : semInit false initial = .ok sem) {run : List (SemAction θ)}
    (hrun : run.foldlM step (start sem) = .ok w) : w.Sound initial :=
  (Runs.invariant (fun _ _ _ h hstep => Inv.step h hcard hstep) (inv_start hinit) hrun).sound hcard

end

local instance neZeroThreads : NeZero 3 := ⟨by decide⟩

/-- A thread waits until another posts; a third one takes the permit, and the sleeper sleeps again. -/
def exampleRun : List (SemAction (Fin 3)) :=
  [.semWait 0, .next 0, .next 0, .next 0, .semPost 1, .next 1, .next 1, .next 1, .wake 1 (some 0),
    .semTrywait 2, .next 2, .next 2, .next 0, .next 0]

theorem semSound_of_run_example : ∃ w, exampleRun.foldlM step (start ⟨0, 0⟩) = .ok w ∧
    w.point 0 = .asleep ∧ w.returned = none ∧ w.Sound 0 := by
  obtain ⟨w, hrun, hpoint, hreturned⟩ := Runs.exists_ok_of_check
    (P := fun w => w.point 0 = .asleep ∧ w.returned = none)
    (fun w => w.point 0 = .asleep ∧ w.returned = none)
    (fun _ hcheck => of_decide_eq_true hcheck) (x := exampleRun.foldlM step (start ⟨0, 0⟩))
    (by decide +kernel)
  exact ⟨w, hrun, hpoint, hreturned, semSound_of_run (by decide) rfl hrun⟩

end SemWorld

end SandboxingNaCl
