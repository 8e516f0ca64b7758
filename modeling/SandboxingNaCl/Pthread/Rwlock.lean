import Mathlib.Algebra.Ring.Nat
import SandboxingNaCl.Lib.Runs
import SandboxingNaCl.Lib.ThreadCount
import SandboxingNaCl.Pthread.Common

/-!
# Reader-writer locks

`nc_rwlock.c`.  Each call runs under the mutex of the lock but for its waits on the condition variables,
so that a step is what runs from the mutex being taken to its being given back.  A signal wakes any one
of the waiting threads; a wait may also end at its timeout or without a reason.
-/

namespace SandboxingNaCl

open Runs Threads Function

/-- The form of a call: one of the `try` forms, or one with a timeout. -/
structure RwCall where
  tryOnly : Bool
  timed : Bool
deriving DecidableEq

/-- What a thread does next. -/
inductive RwPoint
  | idle
  /-- `rdlock_internal` takes the mutex. -/
  | rdlock (call : RwCall)
  /-- `rwlock_internal` takes the mutex. -/
  | wrlock (call : RwCall)
  /-- `pthread_rwlock_unlock` takes the mutex. -/
  | unlock
  /-- Asleep on `read_possible`. -/
  | asleepReader (timed : Bool)
  /-- Asleep on `write_possible`. -/
  | asleepWriter (timed : Bool)
  | wokenReader (timed timedOut : Bool)
  | wokenWriter (timed timedOut : Bool)
deriving DecidableEq

namespace RwPoint

def isAsleepReader : RwPoint → Bool
  | .asleepReader _ => true
  | _ => false

def isAsleepWriter : RwPoint → Bool
  | .asleepWriter _ => true
  | _ => false

def isWokenWriter : RwPoint → Bool
  | .wokenWriter _ _ => true
  | _ => false

def isSignalledWriter : RwPoint → Bool
  | .wokenWriter _ timedOut => !timedOut
  | _ => false

/-- In `rwlock_internal`, between the increment and the decrement of `writers_waiting`. -/
def isWaitingWriter : RwPoint → Bool
  | .asleepWriter _ | .wokenWriter _ _ => true
  | _ => false

def isRunning : RwPoint → Bool
  | .idle | .asleepReader _ | .asleepWriter _ => false
  | _ => true

/-- A broadcast on `read_possible`. -/
def wakeReader : RwPoint → RwPoint
  | .asleepReader timed => .wokenReader timed false
  | point => point

end RwPoint

/-- `pthread_rwlock_t` and the threads that use it.  `reads` and `writes` are the locks that the threads
hold; `threadRdlockCount` counts those on other locks as well. -/
structure RwWorld (θ : Type) where
  readerCount : BitVec 32
  writersWaiting : BitVec 32
  writerThreadId : Option θ
  threadRdlockCount : θ → BitVec 32
  point : θ → RwPoint
  reads : θ → ℕ
  writes : θ → Bool
  returned : Option (θ × Except Errno Unit)

/-- What happens next. -/
inductive RwAction (θ : Type)
  | rdlock (t : θ) (call : RwCall)
  | wrlock (t : θ) (call : RwCall)
  | unlock (t : θ)
  /-- The thread takes the mutex and runs; its signal wakes the writer, if it signals. -/
  | run (t : θ) (woken : Option θ)
  | interrupt (t : θ) (timedOut : Bool)
  | otherLocks (t : θ) (count : BitVec 32)

namespace RwWorld

variable {θ : Type} [DecidableEq θ]

/-- `pthread_rwlock_init`. -/
def init : RwWorld θ where
  readerCount := 0
  writersWaiting := 0
  writerThreadId := none
  threadRdlockCount _ := 0
  point _ := .idle
  reads _ := 0
  writes _ := false
  returned := none

def goto (w : RwWorld θ) (t : θ) (point : RwPoint) : RwWorld θ :=
  { w with point := Function.update w.point t point, returned := none }

def finish (w : RwWorld θ) (t : θ) (result : Except Errno Unit) : RwWorld θ :=
  { w with point := Function.update w.point t .idle, returned := some (t, result) }

def writeLockAvailable (w : RwWorld θ) : Bool :=
  w.writerThreadId = none ∧ ¬ 0 < w.readerCount.toInt

/-- `read_lock_available`, called by the thread. -/
def readLockAvailable (w : RwWorld θ) (t : θ) : Bool :=
  w.writerThreadId = none ∧ ¬ (0 < w.writersWaiting.toInt ∧ w.threadRdlockCount t = 0)

/-- The loop of `rdlock_internal` and what follows it. -/
def rdlockLoop (w : RwWorld θ) (t : θ) (call : RwCall) : RwWorld θ :=
  if w.readLockAvailable t then
    { w with
      readerCount := w.readerCount + 1
      threadRdlockCount := Function.update w.threadRdlockCount t (w.threadRdlockCount t + 1)
      reads := Function.update w.reads t (w.reads t + 1) }.finish t (.ok ())
  else if call.tryOnly then w.finish t (.error .ebusy)
  else w.goto t (.asleepReader call.timed)

/-- The loop of `rwlock_internal` and what follows it. -/
def wrlockLoop (w : RwWorld θ) (t : θ) (call : RwCall) : RwWorld θ :=
  if w.writeLockAvailable then
    { w with
      writerThreadId := some t
      writes := Function.update w.writes t true }.finish t (.ok ())
  else if call.tryOnly then w.finish t (.error .ebusy)
  else { w with writersWaiting := w.writersWaiting + 1 }.goto t (.asleepWriter call.timed)

section

variable [Fintype θ]

/-- `pthread_cond_signal(&rwlock->write_possible)`. -/
def signalWriter (w : RwWorld θ) : Option θ → Except Blocked (RwWorld θ)
  | some u =>
    match w.point u with
    | .asleepWriter timed =>
      .ok { w with point := Function.update w.point u (.wokenWriter timed false) }
    | _ => .error .blocked
  | none => if ∀ u, (w.point u).isAsleepWriter = false then .ok w else .error .blocked

/-- `pthread_rwlock_unlock` under the mutex. -/
def unlockLocked (w : RwWorld θ) (t : θ) (woken : Option θ) : Except Blocked (RwWorld θ) :=
  if w.writerThreadId ≠ none then
    if w.writerThreadId ≠ some t then .ok (w.finish t (.error .eperm))
    else
      let w := { w with writerThreadId := none, writes := Function.update w.writes t false }
      if 0 < w.writersWaiting.toInt then (w.finish t (.ok ())).signalWriter woken
      else .ok ({ w with point := fun u => (w.point u).wakeReader }.finish t (.ok ()))
  else if w.readerCount = 0 then .ok (w.finish t (.error .eperm))
  else
    let w := { w with
      readerCount := w.readerCount - 1
      threadRdlockCount := Function.update w.threadRdlockCount t (w.threadRdlockCount t - 1)
      reads := Function.update w.reads t (w.reads t - 1) }
    if w.readerCount = 0 ∧ 0 < w.writersWaiting.toInt then
      (w.finish t (.ok ())).signalWriter woken
    else .ok (w.finish t (.ok ()))

/-- One step. -/
def step (w : RwWorld θ) : RwAction θ → Except Blocked (RwWorld θ)
  | .rdlock t call => if w.point t = .idle then .ok (w.goto t (.rdlock call)) else .error .blocked
  | .wrlock t call => if w.point t = .idle then .ok (w.goto t (.wrlock call)) else .error .blocked
  | .unlock t => if w.point t = .idle then .ok (w.goto t .unlock) else .error .blocked
  | .run t woken =>
    match w.point t with
    | .rdlock call => .ok (w.rdlockLoop t call)
    | .wrlock call => .ok (w.wrlockLoop t call)
    | .unlock => w.unlockLocked t woken
    | .wokenReader timed timedOut =>
      if timedOut then .ok (w.finish t (.error .etimedout))
      else .ok (w.rdlockLoop t ⟨false, timed⟩)
    | .wokenWriter timed timedOut =>
      let w := { w with writersWaiting := w.writersWaiting - 1 }
      if timedOut then .ok (w.finish t (.error .etimedout))
      else .ok (w.wrlockLoop t ⟨false, timed⟩)
    | _ => .error .blocked
  | .interrupt t timedOut =>
    match w.point t with
    | .asleepReader timed =>
      if timedOut ∧ ¬ timed then .error .blocked
      else .ok (w.goto t (.wokenReader timed timedOut))
    | .asleepWriter timed =>
      if timedOut ∧ ¬ timed then .error .blocked
      else .ok (w.goto t (.wokenWriter timed timedOut))
    | _ => .error .blocked
  | .otherLocks t count =>
    if w.point t = .idle then
      .ok { w with
        threadRdlockCount := Function.update w.threadRdlockCount t count
        returned := none }
    else .error .blocked

/-- What a step has to do for no waiter to be forgotten: a writer that has waited and does not take the
lock leaves no reader asleep that could have it, a thread that gives back a read lock has one, and there
are fewer than `2 ^ 31` read locks. -/
def Safe (w : RwWorld θ) : RwAction θ → Prop
  | .run t _ =>
    match w.point t with
    | .wokenWriter _ timedOut =>
      timedOut = false ∧ w.writeLockAvailable ∨ w.writerThreadId ≠ none ∨
        ∀ u, (w.point u).isAsleepReader = true →
          w.threadRdlockCount u = 0 ∧ (timedOut = true → 1 < w.writersWaiting.toInt)
    | .rdlock _ | .wokenReader _ _ => w.readerCount.toNat + 1 < 2 ^ 31
    | .unlock => w.writerThreadId ≠ none ∨ w.readerCount = 0 ∨ 0 < w.reads t
    | _ => True
  | _ => True

instance (w : RwWorld θ) (a : RwAction θ) : Decidable (w.Safe a) := by
  unfold Safe
  split
  · split <;> infer_instance
  · infer_instance

end

/-! ## The invariant -/

section

variable [Fintype θ] {w w' : RwWorld θ} {t : θ} {p q : RwPoint} {call : RwCall}

/-- The fields of the lock agree with what the threads hold. -/
structure Held (w : RwWorld θ) : Prop where
  writes : ∀ t, w.writes t = true ↔ w.writerThreadId = some t
  readerCount : w.readerCount.toNat = total w.reads
  few : total w.reads < 2 ^ 31
  exclusive : w.writerThreadId ≠ none → total w.reads = 0

/-- What every safe step keeps. -/
structure Inv (w : RwWorld θ) : Prop where
  held : w.Held
  writersWaiting : w.writersWaiting.toNat = count RwPoint.isWaitingWriter w.point
  /-- A sleeping writer that could have the lock has been overtaken by a signal to another. -/
  writer : w.writeLockAvailable = true → ∀ t, (w.point t).isAsleepWriter = true →
    ∃ u, (w.point u).isSignalledWriter = true
  /-- A sleeping reader that could have the lock has been overtaken by a writer. -/
  reader : ∀ t, (w.point t).isAsleepReader = true → w.readLockAvailable t = true →
    ∃ u, (w.point u).isWokenWriter = true

theorem isWaitingWriter_of_isAsleepWriter (h : p.isAsleepWriter = true) :
    p.isWaitingWriter = true := by
  cases p with
  | asleepWriter timed => rfl
  | _ => cases h

omit [DecidableEq θ] in
theorem Inv.writersWaiting_pos (h : w.Inv) (ht : (w.point t).isWaitingWriter = true) :
    0 < w.writersWaiting.toNat := by
  rw [h.writersWaiting]
  exact count_pos_of ht

theorem Inv.of_point (h : w.Inv) (hq : w.point t = q)
    (hpoint : w'.point = update w.point t p) (hheld : w'.Held)
    (hwaiting : w'.writersWaiting.toNat + q.isWaitingWriter.toNat =
      w.writersWaiting.toNat + p.isWaitingWriter.toNat)
    (hwriter : w'.writeLockAvailable = true → p.isAsleepWriter = false ∧
      (w.writeLockAvailable = true ∧ q.isSignalledWriter = false ∨ w.writersWaiting.toNat = 0))
    (hreader : ∀ u, u ≠ t → (w.point u).isAsleepReader = true → w'.readLockAvailable u = true →
      w.readLockAvailable u = true ∧ q.isWokenWriter ≤ p.isWokenWriter)
    (hself : p.isAsleepReader = true → w'.readLockAvailable t = false) : w'.Inv := by
  subst hq
  refine ⟨hheld, ?_, fun havailable u hu => ?_, fun u hu havailable => ?_⟩
  · have hcount := count_update_add RwPoint.isWaitingWriter w.point t p
    have hold := h.writersWaiting
    rw [hpoint]
    omega
  · obtain ⟨hp, hold⟩ := hwriter havailable
    rw [hpoint, update_apply] at hu
    split_ifs at hu
    · rw [hp] at hu
      cases hu
    · rcases hold with ⟨hold, hq⟩ | hnone
      · obtain ⟨v, hv⟩ := h.writer hold u hu
        have hvt : v ≠ t := by
          rintro rfl
          rw [hq] at hv
          cases hv
        exact ⟨v, by rwa [hpoint, update_of_ne hvt]⟩
      · exact absurd (h.writersWaiting_pos (isWaitingWriter_of_isAsleepWriter hu)) (by omega)
  · rw [hpoint, update_apply] at hu
    split_ifs at hu with hut
    · rw [hut, hself hu] at havailable
      cases havailable
    · obtain ⟨hold, hle⟩ := hreader u hut hu havailable
      obtain ⟨v, hv⟩ := h.reader u hu hold
      refine ⟨v, ?_⟩
      rw [hpoint, update_apply]
      split_ifs with hvt
      · subst hvt
        exact Bool.eq_true_of_true_le (hv ▸ hle)
      · exact hv

omit [DecidableEq θ] in
theorem Held.of_eq (h : w.Held) (hwriter : w'.writerThreadId = w.writerThreadId)
    (hwrites : w'.writes = w.writes) (hcount : w'.readerCount = w.readerCount)
    (hreads : w'.reads = w.reads) : w'.Held := by
  obtain ⟨h₁, h₂, h₃, h₄⟩ := h
  refine ⟨?_, ?_, ?_, ?_⟩
  · rwa [hwriter, hwrites]
  · rwa [hcount, hreads]
  · rwa [hreads]
  · rwa [hwriter, hreads]

theorem Inv.move (h : w.Inv) (hq : w.point t = q) {returned : Option (θ × Except Errno Unit)}
    (hwaiting : q.isWaitingWriter = p.isWaitingWriter)
    (hwriter : q.isSignalledWriter = false ∧ p.isAsleepWriter = false)
    (hwoken : q.isWokenWriter ≤ p.isWokenWriter)
    (hself : p.isAsleepReader = true → w.readLockAvailable t = false) :
    Inv { w with point := update w.point t p, returned } :=
  h.of_point hq rfl (h.held.of_eq rfl rfl rfl rfl) (by rw [hwaiting])
    (fun hold => ⟨hwriter.2, .inl ⟨hold, hwriter.1⟩⟩)
    (fun _ _ _ hold => ⟨hold, hwoken⟩) hself

theorem toInt_pos_iff {x : BitVec 32} (h : x.toNat < 2 ^ 31) : 0 < x.toInt ↔ 0 < x.toNat := by
  rw [BitVec.toInt_eq_toNat_of_lt (by omega)]
  omega

omit [DecidableEq θ] in
theorem Held.writeLockAvailable_iff (h : w.Held) :
    w.writeLockAvailable = true ↔ w.writerThreadId = none ∧ total w.reads = 0 := by
  have hfew := h.few
  have hcount := h.readerCount
  rw [writeLockAvailable, decide_eq_true_iff, toInt_pos_iff (by omega), hcount, Nat.pos_iff_ne_zero,
    not_not]

omit [Fintype θ] [DecidableEq θ] in
theorem readLockAvailable_iff (hfew : w.writersWaiting.toNat < 2 ^ 31) : w.readLockAvailable t = true ↔
    w.writerThreadId = none ∧ (w.writersWaiting.toNat = 0 ∨ w.threadRdlockCount t ≠ 0) := by
  rw [readLockAvailable, decide_eq_true_iff, toInt_pos_iff hfew, not_and_or, Nat.pos_iff_ne_zero,
    not_not]

omit [DecidableEq θ] in
theorem Inv.writersWaiting_lt (h : w.Inv) (hcard : Fintype.card θ < 2 ^ 31) :
    w.writersWaiting.toNat < 2 ^ 31 := by
  have hle : count RwPoint.isWaitingWriter w.point ≤ Fintype.card θ := count_le_card
  have hcount := h.writersWaiting
  omega

omit [DecidableEq θ] in
theorem Inv.writersWaiting_add_one_lt (h : w.Inv) (hcard : Fintype.card θ < 2 ^ 31)
    (ht : (w.point t).isWaitingWriter = false) : w.writersWaiting.toNat + 1 < 2 ^ 31 := by
  have hlt : count RwPoint.isWaitingWriter w.point < Fintype.card θ := count_lt_card ht
  have hcount := h.writersWaiting
  omega

theorem Inv.rdlockLoop (h : w.Inv) (hq : w.point t = q) (hwaiting : q.isWaitingWriter = false)
    (hfew : w.readerCount.toNat + 1 < 2 ^ 31) : (w.rdlockLoop t call).Inv := by
  have hq' : q.isSignalledWriter = false ∧ q.isWokenWriter = false := by
    cases q with
    | wokenWriter call timedOut => cases hwaiting
    | _ => exact ⟨rfl, rfl⟩
  have hwoken : q.isWokenWriter ≤ RwPoint.idle.isWokenWriter := by
    rw [hq'.2]
    exact le_rfl
  unfold RwWorld.rdlockLoop
  split_ifs with havailable htry
  · have hadd : (w.readerCount + 1).toNat = w.readerCount.toNat + 1 := by
      bv_omega
    have htotal := total_update_add w.reads t (w.reads t + 1)
    have hcount := h.held.readerCount
    have hfree : w.writerThreadId = none := by
      unfold readLockAvailable at havailable
      exact (of_decide_eq_true havailable).1
    have hheld : Held (RwWorld.finish { w with
        readerCount := w.readerCount + 1
        threadRdlockCount := update w.threadRdlockCount t (w.threadRdlockCount t + 1)
        reads := update w.reads t (w.reads t + 1) } t (.ok ())) := by
      refine ⟨h.held.writes, ?_, ?_, fun hwriter => absurd hfree hwriter⟩
      · change (w.readerCount + 1).toNat = total (update w.reads t (w.reads t + 1))
        omega
      · change total (update w.reads t (w.reads t + 1)) < 2 ^ 31
        omega
    refine h.of_point hq rfl hheld (by rw [hwaiting]; rfl) (fun hwrite => ?_)
      (fun u hut _ hread => ⟨?_, hwoken⟩) nofun
    · have hzero : total (update w.reads t (w.reads t + 1)) = 0 :=
        (hheld.writeLockAvailable_iff.1 hwrite).2
      omega
    · unfold readLockAvailable at hread ⊢
      rwa [show RwWorld.threadRdlockCount _ u = w.threadRdlockCount u from
        update_of_ne hut _ _] at hread
  · exact h.move hq hwaiting ⟨hq'.1, rfl⟩ hwoken nofun
  · exact h.move hq hwaiting ⟨hq'.1, rfl⟩ hwoken fun _ => Bool.eq_false_iff.2 havailable

theorem Inv.write (h : w.Inv) (hq : w.point t = q) (havailable : w.writeLockAvailable = true)
    {writersWaiting : BitVec 32}
    (hwaiting : writersWaiting.toNat + q.isWaitingWriter.toNat = w.writersWaiting.toNat) :
    Inv (RwWorld.finish { w with
      writersWaiting
      writerThreadId := some t
      writes := update w.writes t true } t (.ok ())) := by
  obtain ⟨hfree, hzero⟩ := h.held.writeLockAvailable_iff.1 havailable
  have hnone : ∀ u, ¬ w.writes u = true := fun u hu => by
    rw [h.held.writes, hfree] at hu
    cases hu
  refine h.of_point hq rfl ⟨fun u => ?_, h.held.readerCount, h.held.few, fun _ => hzero⟩ hwaiting
    (fun hwrite => ?_) (fun u _ _ hread => ?_) nofun
  · change update w.writes t true u = true ↔ some t = some u
    rw [update_apply]
    split_ifs with hut
    · exact iff_of_true rfl (congrArg some hut.symm)
    · exact iff_of_false (hnone u) fun heq => hut (Option.some.inj heq).symm
  · unfold writeLockAvailable at hwrite
    exact absurd (of_decide_eq_true hwrite).1 nofun
  · unfold readLockAvailable at hread
    exact absurd (of_decide_eq_true hread).1 nofun

omit [Fintype θ] [DecidableEq θ] in
@[simp]
theorem writeLockAvailable_writersWaiting (n : BitVec 32) :
    writeLockAvailable { w with writersWaiting := n } = w.writeLockAvailable := rfl

theorem Inv.wrlockLoop (h : w.Inv) (hcard : Fintype.card θ < 2 ^ 31)
    (hq : w.point t = .wrlock call) : (w.wrlockLoop t call).Inv := by
  unfold RwWorld.wrlockLoop
  split_ifs with havailable htry
  · exact h.write hq havailable rfl
  · exact h.move hq rfl ⟨rfl, rfl⟩ le_rfl nofun
  · have hlt := h.writersWaiting_lt hcard
    have hadd : (w.writersWaiting + 1).toNat = w.writersWaiting.toNat + 1 := by
      bv_omega
    have hlt' : (w.writersWaiting + 1).toNat < 2 ^ 31 := by
      rw [hadd]
      exact h.writersWaiting_add_one_lt hcard (t := t) (by rw [hq]; rfl)
    refine h.of_point hq rfl (h.held.of_eq rfl rfl rfl rfl) hadd
      (fun hwrite => absurd hwrite havailable) (fun u _ _ hread => ⟨?_, le_rfl⟩) nofun
    obtain ⟨hfree, hzero | hcount⟩ := (readLockAvailable_iff hlt').1 hread
    · exact absurd (hadd.symm.trans hzero) (Nat.succ_ne_zero _)
    · exact (readLockAvailable_iff hlt).2 ⟨hfree, .inr hcount⟩

theorem Inv.wokenWriter (h : w.Inv) (hcard : Fintype.card θ < 2 ^ 31) {timed timedOut : Bool}
    (hq : w.point t = .wokenWriter timed timedOut)
    (hsafe : timedOut = false ∧ w.writeLockAvailable ∨ w.writerThreadId ≠ none ∨
      ∀ u, (w.point u).isAsleepReader = true →
        w.threadRdlockCount u = 0 ∧ (timedOut = true → 1 < w.writersWaiting.toInt)) :
    Inv (if timedOut then
      RwWorld.finish { w with writersWaiting := w.writersWaiting - 1 } t (.error .etimedout)
    else RwWorld.wrlockLoop { w with writersWaiting := w.writersWaiting - 1 } t ⟨false, timed⟩) := by
  have hlt := h.writersWaiting_lt hcard
  have hpos : 0 < w.writersWaiting.toNat := h.writersWaiting_pos (t := t) (by rw [hq]; rfl)
  have hsub : (w.writersWaiting - 1).toNat + 1 = w.writersWaiting.toNat := by
    bv_omega
  cases timedOut with
  | true =>
    rw [if_pos rfl]
    refine h.of_point hq rfl (h.held.of_eq rfl rfl rfl rfl) hsub (fun hwrite => ⟨rfl, .inl ⟨hwrite, rfl⟩⟩)
      (fun u _ hu hread => ?_) nofun
    obtain ⟨hfree, hcount⟩ := (readLockAvailable_iff (by
      change (w.writersWaiting - 1).toNat < 2 ^ 31
      omega)).1 hread
    rcases hsafe with ⟨hfalse, -⟩ | hwriter | hreaders
    · cases hfalse
    · exact absurd hfree hwriter
    · obtain ⟨hzero, hmore⟩ := hreaders u hu
      have hmore' := hmore rfl
      rw [BitVec.toInt_eq_toNat_of_lt (by omega)] at hmore'
      have hnone : (w.writersWaiting - 1).toNat = 0 := hcount.resolve_right (not_not.2 hzero)
      omega
  | false =>
    rw [if_neg nofun]
    unfold RwWorld.wrlockLoop
    rw [writeLockAvailable_writersWaiting]
    by_cases havailable : w.writeLockAvailable = true
    · rw [if_pos havailable]
      exact h.write hq havailable hsub
    · rw [if_neg havailable, if_neg nofun]
      have hsame : w.writersWaiting - 1 + 1 = w.writersWaiting := BitVec.sub_add_cancel _ _
      refine h.of_point hq rfl (h.held.of_eq rfl rfl rfl rfl) ?_
        (fun hwrite => absurd hwrite havailable) (fun u _ hu hread => ?_) nofun
      · exact congrArg (fun n => BitVec.toNat n + 1) hsame
      · obtain ⟨hfree, hcount⟩ := (readLockAvailable_iff (by
          change (w.writersWaiting - 1 + 1).toNat < 2 ^ 31
          rwa [hsame])).1 hread
        rcases hsafe with ⟨-, hwrite⟩ | hwriter | hreaders
        · exact absurd hwrite havailable
        · exact absurd hfree hwriter
        · have hnone : (w.writersWaiting - 1 + 1).toNat = 0 :=
            hcount.resolve_right (not_not.2 (hreaders u hu).1)
          rw [hsame] at hnone
          omega

/-- What a thread leaves to a signal: the lock has no writer, and there are writers waiting. -/
structure Signalling (w : RwWorld θ) : Prop where
  held : w.Held
  writersWaiting : w.writersWaiting.toNat = count RwPoint.isWaitingWriter w.point
  waiting : 0 < w.writersWaiting.toNat

theorem Signalling.signalWriter (h : w.Signalling) {woken : Option θ}
    (hstep : w.signalWriter woken = .ok w') : w'.Inv := by
  obtain ⟨hheld, hwaiting, hpos⟩ := h
  cases woken with
  | some u =>
    rw [RwWorld.signalWriter] at hstep
    split at hstep
    · next timed hu =>
      cases hstep
      have hwoken : update w.point u (.wokenWriter timed false) u =
          .wokenWriter timed false := update_self _ _ _
      refine ⟨hheld.of_eq rfl rfl rfl rfl, ?_, fun _ _ _ => ⟨u, ?_⟩, fun _ _ _ => ⟨u, ?_⟩⟩
      · have hcount := count_update_add RwPoint.isWaitingWriter w.point u (.wokenWriter timed false)
        rw [hu] at hcount
        exact hwaiting.trans (Nat.succ.inj hcount).symm
      · exact congrArg RwPoint.isSignalledWriter hwoken
      · exact congrArg RwPoint.isWokenWriter hwoken
    · cases hstep
  | none =>
    rw [RwWorld.signalWriter] at hstep
    split_ifs at hstep with hnone
    cases hstep
    refine ⟨hheld, hwaiting, fun _ v hv => ?_, fun _ _ _ => ?_⟩
    · rw [hnone] at hv
      cases hv
    · obtain ⟨v, hv⟩ := exists_of_count_pos (hwaiting ▸ hpos)
      refine ⟨v, ?_⟩
      have hasleep := hnone v
      revert hv hasleep
      cases w.point v with
      | asleepWriter timed => exact fun _ hasleep => by cases hasleep
      | wokenWriter timed timedOut => exact fun _ _ => rfl
      | _ => exact fun hv => by cases hv

omit [Fintype θ] [DecidableEq θ] in
theorem isWaitingWriter_wakeReader (p : RwPoint) : p.wakeReader.isWaitingWriter = p.isWaitingWriter := by
  cases p with
  | _ => rfl

omit [Fintype θ] [DecidableEq θ] in
theorem isAsleepReader_wakeReader (p : RwPoint) : p.wakeReader.isAsleepReader = false := by
  cases p with
  | _ => rfl

theorem Inv.unlockWriter (h : w.Inv) (hcard : Fintype.card θ < 2 ^ 31) (hq : w.point t = .unlock)
    (howner : w.writerThreadId = some t) {woken : Option θ}
    (hstep : w.unlockLocked t woken = .ok w') : w'.Inv := by
  have hwrites : ∀ u, update w.writes t false u = true ↔ (none : Option θ) = some u := by
    intro u
    refine iff_of_false ?_ nofun
    rw [update_apply]
    split_ifs with hut
    · exact nofun
    · rw [h.held.writes, howner]
      exact fun heq => hut (Option.some.inj heq).symm
  have hcount := count_update_add RwPoint.isWaitingWriter w.point t .idle
  rw [hq] at hcount
  have hwaiting : w.writersWaiting.toNat = count RwPoint.isWaitingWriter (update w.point t .idle) :=
    h.writersWaiting.trans (Nat.add_right_cancel hcount).symm
  unfold RwWorld.unlockLocked at hstep
  rw [if_pos (by rw [howner]; exact nofun), if_neg (not_not.2 howner)] at hstep
  dsimp only at hstep
  split_ifs at hstep with hpos
  · rw [toInt_pos_iff (h.writersWaiting_lt hcard)] at hpos
    have hsignalling : Signalling (RwWorld.finish { w with
        writerThreadId := none
        writes := update w.writes t false } t (.ok ())) :=
      ⟨⟨hwrites, h.held.readerCount, h.held.few, fun hne => absurd rfl hne⟩, hwaiting, hpos⟩
    exact hsignalling.signalWriter hstep
  · rw [toInt_pos_iff (h.writersWaiting_lt hcard)] at hpos
    cases hstep
    have hbroadcast := count_update_add RwPoint.isWaitingWriter (fun u => (w.point u).wakeReader) t .idle
    have hsame : count RwPoint.isWaitingWriter (fun u => (w.point u).wakeReader) =
        count RwPoint.isWaitingWriter w.point := by
      simp only [count, isWaitingWriter_wakeReader]
    have hself : (w.point t).wakeReader.isWaitingWriter = false := by
      rw [hq]
      rfl
    rw [hself] at hbroadcast
    have hcount' : w.writersWaiting.toNat =
        count RwPoint.isWaitingWriter (update (fun u => (w.point u).wakeReader) t .idle) :=
      (h.writersWaiting.trans hsame.symm).trans hbroadcast.symm
    have hnone : count RwPoint.isWaitingWriter
        (update (fun u => (w.point u).wakeReader) t .idle) = 0 := by
      omega
    refine ⟨⟨hwrites, h.held.readerCount, h.held.few, fun hne => absurd rfl hne⟩, hcount',
      fun _ u hu => ?_, fun u hu _ => ?_⟩
    · have hpos' : 0 < count RwPoint.isWaitingWriter
          (update (fun u => (w.point u).wakeReader) t .idle) :=
        count_pos_of (isWaitingWriter_of_isAsleepWriter hu)
      omega
    · change (update (fun u => (w.point u).wakeReader) t RwPoint.idle u).isAsleepReader = true at hu
      rw [update_apply] at hu
      split_ifs at hu
      · cases hu
      · rw [isAsleepReader_wakeReader] at hu
        cases hu

theorem Inv.unlockReader (h : w.Inv) (hcard : Fintype.card θ < 2 ^ 31) (hq : w.point t = .unlock)
    (hfree : w.writerThreadId = none) (hreads : 0 < w.reads t) {woken : Option θ}
    (hstep : w.unlockLocked t woken = .ok w') : w'.Inv := by
  have hle := le_total w.reads t
  have htotal := total_update_add w.reads t (w.reads t - 1)
  have hfew := h.held.few
  have hcount := h.held.readerCount
  have hsub : (w.readerCount - 1).toNat + 1 = w.readerCount.toNat := by
    bv_omega
  have hne : w.readerCount ≠ 0 := fun heq => by
    rw [heq] at hcount
    exact absurd hcount (by change ¬ 0 = _; omega)
  have hheld : Held (RwWorld.finish { w with
      readerCount := w.readerCount - 1
      threadRdlockCount := update w.threadRdlockCount t (w.threadRdlockCount t - 1)
      reads := update w.reads t (w.reads t - 1) } t (.ok ())) := by
    refine ⟨h.held.writes, ?_, ?_, fun hwriter => absurd hfree hwriter⟩
    · change (w.readerCount - 1).toNat = total (update w.reads t (w.reads t - 1))
      omega
    · change total (update w.reads t (w.reads t - 1)) < 2 ^ 31
      omega
  unfold RwWorld.unlockLocked at hstep
  rw [if_neg (not_not.2 hfree), if_neg hne] at hstep
  dsimp only at hstep
  have hpos := toInt_pos_iff (h.writersWaiting_lt hcard)
  split_ifs at hstep with hlast
  · have hwaiting := count_update_add RwPoint.isWaitingWriter w.point t .idle
    rw [hq] at hwaiting
    have hsignalling : Signalling (RwWorld.finish { w with
        readerCount := w.readerCount - 1
        threadRdlockCount := update w.threadRdlockCount t (w.threadRdlockCount t - 1)
        reads := update w.reads t (w.reads t - 1) } t (.ok ())) :=
      ⟨hheld, h.writersWaiting.trans (Nat.add_right_cancel hwaiting).symm, hpos.1 hlast.2⟩
    exact hsignalling.signalWriter hstep
  · cases hstep
    refine h.of_point hq rfl hheld rfl (fun hwrite => ⟨rfl, .inr ?_⟩) (fun u hut _ hread => ⟨?_, le_rfl⟩)
      nofun
    · have hzero : total (update w.reads t (w.reads t - 1)) = 0 :=
        (hheld.writeLockAvailable_iff.1 hwrite).2
      by_contra hwaiting
      exact hlast ⟨BitVec.eq_of_toNat_eq (by change (w.readerCount - 1).toNat = 0; omega), by omega⟩
    · unfold readLockAvailable at hread ⊢
      rwa [show RwWorld.threadRdlockCount _ u = w.threadRdlockCount u from
        update_of_ne hut _ _] at hread

theorem Inv.unlockLocked (h : w.Inv) (hcard : Fintype.card θ < 2 ^ 31) (hq : w.point t = .unlock)
    (hsafe : w.writerThreadId ≠ none ∨ w.readerCount = 0 ∨ 0 < w.reads t) {woken : Option θ}
    (hstep : w.unlockLocked t woken = .ok w') : w'.Inv := by
  by_cases hfree : w.writerThreadId = none
  · by_cases hzero : w.readerCount = 0
    · unfold RwWorld.unlockLocked at hstep
      rw [if_neg (not_not.2 hfree), if_pos hzero] at hstep
      cases hstep
      exact h.move hq rfl ⟨rfl, rfl⟩ le_rfl nofun
    · have hreads := (hsafe.resolve_left (not_not.2 hfree)).resolve_left hzero
      exact h.unlockReader hcard hq hfree hreads hstep
  · by_cases howner : w.writerThreadId = some t
    · exact h.unlockWriter hcard hq howner hstep
    · unfold RwWorld.unlockLocked at hstep
      rw [if_pos hfree, if_pos howner] at hstep
      cases hstep
      exact h.move hq rfl ⟨rfl, rfl⟩ le_rfl nofun

theorem Inv.run (h : w.Inv) (hcard : Fintype.card θ < 2 ^ 31) {woken : Option θ}
    (hsafe : w.Safe (.run t woken)) (hstep : w.step (.run t woken) = .ok w') : w'.Inv := by
  unfold RwWorld.Safe at hsafe
  unfold RwWorld.step at hstep
  dsimp only at hsafe hstep
  cases hq : w.point t with
  | rdlock call =>
    rw [hq] at hsafe hstep
    cases hstep
    exact h.rdlockLoop hq rfl hsafe
  | wrlock call =>
    rw [hq] at hstep
    cases hstep
    exact h.wrlockLoop hcard hq
  | unlock =>
    rw [hq] at hsafe hstep
    exact h.unlockLocked hcard hq hsafe hstep
  | wokenReader timed timedOut =>
    rw [hq] at hsafe hstep
    dsimp only at hstep
    split_ifs at hstep
    · cases hstep
      exact h.move hq rfl ⟨rfl, rfl⟩ le_rfl nofun
    · cases hstep
      exact h.rdlockLoop hq rfl hsafe
  | wokenWriter timed timedOut =>
    rw [hq] at hsafe hstep
    dsimp only at hstep
    rw [← apply_ite Except.ok] at hstep
    cases hstep
    exact h.wokenWriter hcard hq hsafe
  | _ =>
    rw [hq] at hstep
    cases hstep

theorem Inv.interrupt (h : w.Inv) {timedOut : Bool}
    (hstep : w.step (.interrupt t timedOut) = .ok w') : w'.Inv := by
  unfold RwWorld.step at hstep
  dsimp only at hstep
  cases hq : w.point t with
  | asleepReader timed =>
    rw [hq] at hstep
    dsimp only at hstep
    split_ifs at hstep
    cases hstep
    exact h.move hq rfl ⟨rfl, rfl⟩ le_rfl nofun
  | asleepWriter timed =>
    rw [hq] at hstep
    dsimp only at hstep
    split_ifs at hstep
    cases hstep
    exact h.move hq rfl ⟨rfl, rfl⟩ (Bool.false_le _) nofun
  | _ =>
    rw [hq] at hstep
    cases hstep

theorem Inv.otherLocks (h : w.Inv) (hq : w.point t = .idle) {count : BitVec 32} :
    Inv { w with
      threadRdlockCount := update w.threadRdlockCount t count
      returned := none } := by
  refine ⟨h.held.of_eq rfl rfl rfl rfl, h.writersWaiting, h.writer, fun u hu hread => h.reader u hu ?_⟩
  have hut : u ≠ t := by
    rintro rfl
    rw [hq] at hu
    cases hu
  unfold readLockAvailable at hread ⊢
  rwa [show RwWorld.threadRdlockCount _ u = w.threadRdlockCount u from
    update_of_ne hut _ _] at hread

theorem Inv.step (h : w.Inv) (hcard : Fintype.card θ < 2 ^ 31) {a : RwAction θ} (hsafe : w.Safe a)
    (hstep : w.step a = .ok w') : w'.Inv := by
  cases a with
  | run t woken => exact h.run hcard hsafe hstep
  | interrupt t timedOut => exact h.interrupt hstep
  | rdlock t call | wrlock t call | unlock t =>
    rw [RwWorld.step] at hstep
    split_ifs at hstep with hq
    cases hstep
    exact h.move hq rfl ⟨rfl, rfl⟩ le_rfl nofun
  | otherLocks t count =>
    rw [RwWorld.step] at hstep
    split_ifs at hstep with hq
    cases hstep
    exact h.otherLocks hq

omit [DecidableEq θ] in
theorem inv_init : (init : RwWorld θ).Inv := by
  have hnone : total (init : RwWorld θ).reads = 0 := total_eq_zero_iff.2 fun _ => rfl
  refine ⟨⟨fun _ => iff_of_false nofun nofun, hnone.symm, by rw [hnone]; decide,
    fun hwriter => absurd rfl hwriter⟩, ?_, fun _ _ => nofun, fun _ => nofun⟩
  exact (count_eq_zero fun _ => rfl).symm

/-- What holds of the lock in a state that a run has reached. -/
structure Sound (w : RwWorld θ) : Prop where
  oneWriter : ∀ t u, w.writes t = true → w.writes u = true → t = u
  writerAlone : ∀ t u, w.writes t = true → w.reads u = 0
  readerCount : w.readerCount.toInt = total w.reads
  writersWaiting : w.writersWaiting.toInt = count RwPoint.isWaitingWriter w.point
  noReaderLost : (∀ t, (w.point t).isRunning = false) →
    ∀ t, (w.point t).isAsleepReader = true → w.readLockAvailable t = false
  noWriterLost : (∀ t, (w.point t).isRunning = false) →
    ∀ t, (w.point t).isAsleepWriter = true → w.writeLockAvailable = false

theorem isWokenWriter_of_isSignalledWriter (h : p.isSignalledWriter = true) : p.isWokenWriter = true := by
  cases p with
  | wokenWriter timed timedOut => rfl
  | _ => cases h

theorem isWokenWriter_of_not_isRunning (h : p.isRunning = false) : p.isWokenWriter = false := by
  cases p with
  | wokenWriter timed timedOut => cases h
  | _ => rfl

omit [DecidableEq θ] in
theorem Inv.sound (h : w.Inv) (hcard : Fintype.card θ < 2 ^ 31) : w.Sound := by
  have hwaiting := h.writersWaiting_lt hcard
  have hfew := h.held.few
  have hcount := h.held.readerCount
  have hreader : w.readerCount.toInt = w.readerCount.toNat := BitVec.toInt_eq_toNat_of_lt (by omega)
  have hwriter : w.writersWaiting.toInt = w.writersWaiting.toNat :=
    BitVec.toInt_eq_toNat_of_lt (by omega)
  refine ⟨fun t u ht hu => ?_, fun t u ht => ?_, by omega, by rw [hwriter, h.writersWaiting],
    fun hquiet t ht => ?_, fun hquiet t ht => ?_⟩
  · rw [h.held.writes] at ht hu
    exact Option.some.inj (ht.symm.trans hu)
  · rw [h.held.writes] at ht
    exact total_eq_zero_iff.1 (h.held.exclusive (by rw [ht]; nofun)) u
  · by_contra hread
    obtain ⟨u, hu⟩ := h.reader t ht (Bool.eq_true_of_not_eq_false hread)
    rw [isWokenWriter_of_not_isRunning (hquiet u)] at hu
    cases hu
  · by_contra hwrite
    obtain ⟨u, hu⟩ := h.writer (Bool.eq_true_of_not_eq_false hwrite) t ht
    have hwoken := isWokenWriter_of_isSignalledWriter hu
    rw [isWokenWriter_of_not_isRunning (hquiet u)] at hwoken
    cases hwoken

/-- Whatever the order of the threads' steps, writers are alone, the counters are right and no waiter is
forgotten, as long as each step is safe. -/
theorem rwlockSound_of_run (hcard : Fintype.card θ < 2 ^ 31) {run : List (RwAction θ)}
    (hsafe : Runs.Guarded step Safe init run) (hrun : run.foldlM step init = .ok w) : w.Sound :=
  (hsafe.invariant (fun _ _ _ h hsafe hstep => Inv.step h hcard hsafe hstep) inv_init hrun).sound hcard

end

local instance neZeroThreads : NeZero 3 := ⟨by decide⟩

/-- A reader lets a waiting writer pass, and the writer a reader that came after it. -/
def passingRun : List (RwAction (Fin 3)) :=
  [.rdlock 0 ⟨false, false⟩, .run 0 none, .wrlock 1 ⟨false, false⟩, .run 1 none,
    .rdlock 2 ⟨false, false⟩, .run 2 none, .unlock 0, .run 0 (some 1), .run 1 none, .unlock 1,
    .run 1 none, .run 2 none]

theorem rwlockSound_of_run_passing : ∃ w, passingRun.foldlM step init = .ok w ∧
    w.reads 2 = 1 ∧ w.Sound := by
  obtain ⟨w, hrun, hreads⟩ := Runs.exists_ok_of_check
    (P := fun w : RwWorld (Fin 3) => w.reads 2 = 1) (fun w => w.reads 2 = 1)
    (fun _ hcheck => of_decide_eq_true hcheck) (x := passingRun.foldlM step init)
    (by decide +kernel)
  exact ⟨w, hrun, hreads,
    rwlockSound_of_run (by decide) (Runs.Guarded.of_check (by decide +kernel)) hrun⟩

/-- A writer waits for a reader, another reader waits for the writer, and the writer gives up. -/
def givingUpRun : List (RwAction (Fin 3)) :=
  [.rdlock 2 ⟨false, false⟩, .run 2 none, .wrlock 0 ⟨false, true⟩, .run 0 none,
    .rdlock 1 ⟨false, false⟩, .run 1 none, .interrupt 0 true, .run 0 none]

/-- Nobody wakes the second reader. -/
theorem not_rwlockSound : ¬ ∀ (run : List (RwAction (Fin 3))) w,
    run.foldlM step init = .ok w → w.Sound := by
  intro hclaim
  obtain ⟨w, hrun, hquiet, hasleep, havailable⟩ := Runs.exists_ok_of_check
    (P := fun w : RwWorld (Fin 3) => (∀ t, (w.point t).isRunning = false) ∧
      (w.point 1).isAsleepReader = true ∧ w.readLockAvailable 1 = true)
    (fun w => (∀ t, (w.point t).isRunning = false) ∧ (w.point 1).isAsleepReader = true ∧
      w.readLockAvailable 1 = true)
    (fun _ hcheck => of_decide_eq_true hcheck) (x := givingUpRun.foldlM step init)
    (by decide +kernel)
  have hunavailable := (hclaim givingUpRun w hrun).noReaderLost hquiet 1 hasleep
  rw [havailable] at hunavailable
  cases hunavailable

end RwWorld

end SandboxingNaCl
