import Mathlib.Algebra.Ring.Nat
import SandboxingNaCl.Lib.Lifetime
import SandboxingNaCl.Lib.Runs
import SandboxingNaCl.Lib.ThreadCount
import SandboxingNaCl.Pthread.Common

/-!
# The life of a thread

`nc_thread.c`.  A step is what a thread does under `__nc_thread_management_lock` before it gives it back, or
between two such sections.  A thread is known by its `basic_data`; what `malloc` returns is an argument of
the step, and is never a block that was in use before.
-/

namespace SandboxingNaCl

open Runs Threads Lifetime Function

def ncKMaxCachedMemoryBlocks : ℕ := 50

/-- `nc_basic_thread_data_t`; `tdb` says whether the pointer is set. -/
structure BasicThreadData (ν : Type) where
  retval : Option ν
  terminated : Bool
  tdb : Bool

/-- `nc_thread_descriptor_t`, in the block of the thread-local storage. -/
structure ThreadDescriptor (η : Type) where
  joinable : Bool
  joinWaiting : Bool
  stackNode : Option η
  basicData : Bool

/-- `nc_thread_memory_block_t`. -/
structure ThreadMemoryBlock where
  size : ℤ
  isUsed : Bool

/-- What a thread does next. -/
inductive ThreadPoint (θ η ν : Type)
  | fresh
  /-- `pthread_create` has made the thread's records, and has yet to start it. -/
  | starting (stackNode : η)
  | failing (stackNode : η)
  /-- `pthread_create` has yet to release what is allocated. -/
  | releasing (tls basicData : Bool) (stackNode : Option η)
  | failed
  | running
  /-- In `pthread_create`, after its first section. -/
  | creating (child : θ)
  /-- In `pthread_join`, asleep. -/
  | joining (target : θ)
  | joinWoken (target : θ)
  /-- In `pthread_exit`, before the first section. -/
  | exiting (retval : ν)
  | waiting (retval : ν)
  /-- The initial thread has called `exit`. -/
  | exited
  | terminating (retval : ν)
  /-- Before `thread_exit`. -/
  | leaving (stackNode : η)
  | gone

/-- What a call returns. -/
inductive ThreadReturn (θ ν : Type)
  | status (result : Except Errno Unit)
  | created (child : θ)
  | joined (target : θ) (retval : Option ν)
deriving DecidableEq

/-- The records of a thread.  The last four fields only keep record: the stack block that the thread runs on,
whether it was created detached, whether a join or a detach of it has returned success, and the value it
passed to `pthread_exit`. -/
structure ThreadRecord (η ν : Type) where
  basicData : Cell (BasicThreadData ν)
  tls : Cell (ThreadDescriptor η)
  usesStack : Option η
  createdDetached : Bool
  succeeded : Bool
  exitValue : Option ν

structure ThreadWorld (θ η ν : Type) where
  initialThread : θ
  point : θ → ThreadPoint θ η ν
  record : θ → ThreadRecord η ν
  stackBlock : η → Cell ThreadMemoryBlock
  runningThreadsCounter : ℤ
  threadStackBlocks : List η
  returned : Option (θ × ThreadReturn θ ν)

/-- What happens next. -/
inductive ThreadAction (θ η ν : Type)
  /-- The first section of `pthread_create`, with the results of `malloc`. -/
  | pthreadCreate (t child : θ) (joinable : Bool) (requiredSize : ℤ) (tls basicData : Bool) (stack : Option η)
  | threadCreate (t : θ) (started : Bool)
  | pthreadExit (t : θ) (retval : ν)
  | pthreadJoin (t target : θ)
  | pthreadDetach (t target : θ)
  /-- The next section; `woken` is the joiner that it wakes, if it signals. -/
  | next (t : θ) (woken : Option θ)
  | wake (t : θ)

namespace ThreadPoint

variable {θ η ν : Type}

def joins : ThreadPoint θ η ν → Option θ
  | .joining target | .joinWoken target => some target
  | _ => none

def sleepsOn : ThreadPoint θ η ν → Option θ
  | .joining target => some target
  | _ => none

def creates : ThreadPoint θ η ν → Option θ
  | .creating child => some child
  | _ => none

def isFailing : ThreadPoint θ η ν → Bool
  | .failing _ => true
  | _ => false

def unpublished : ThreadPoint θ η ν → Bool
  | .fresh | .releasing _ _ _ | .failed => true
  | _ => false

def ended : ThreadPoint θ η ν → Bool
  | .leaving _ | .gone => true
  | _ => false

def counted : ThreadPoint θ η ν → Bool
  | .fresh | .releasing _ _ _ | .failed | .terminating _ | .leaving _ | .gone => false
  | _ => true

/-- The thread has been started, and has not decremented the counter. -/
def isUp : ThreadPoint θ η ν → Bool
  | .running | .creating _ | .joining _ | .joinWoken _ | .exiting _ | .waiting _ | .exited => true
  | _ => false

theorem isUp_facts {p : ThreadPoint θ η ν} (h : p.isUp = true) : p.unpublished = false ∧
    p.ended = false ∧ p.isFailing = false ∧ p.counted = true ∧ ∀ node, p ≠ .leaving node := by
  cases p with
  | running | creating | joining | joinWoken | exiting | waiting | exited =>
    exact ⟨rfl, rfl, rfl, rfl, fun _ => nofun⟩
  | _ => cases h

end ThreadPoint

namespace ThreadWorld

variable {θ η ν : Type} [DecidableEq θ] [DecidableEq η]

/-- The start of the program. -/
def init (initialThread : θ) : ThreadWorld θ η ν where
  initialThread := initialThread
  point t := if t = initialThread then .running else .fresh
  record t :=
    if t = initialThread then
      ⟨.live ⟨none, false, true⟩, .live ⟨true, false, none, true⟩, none, false, false, none⟩
    else ⟨.fresh, .fresh, none, false, false, none⟩
  stackBlock _ := .fresh
  runningThreadsCounter := 1
  threadStackBlocks := []
  returned := none

def goto (w : ThreadWorld θ η ν) (t : θ) (point : ThreadPoint θ η ν) : ThreadWorld θ η ν :=
  { w with point := Function.update w.point t point, returned := none }

def finish (w : ThreadWorld θ η ν) (t : θ) (result : ThreadReturn θ ν) : ThreadWorld θ η ν :=
  { w.goto t .running with returned := some (t, result) }

def setRecord (w : ThreadWorld θ η ν) (t : θ) (record : ThreadRecord η ν) : ThreadWorld θ η ν :=
  { w with record := Function.update w.record t record }

/-- The loop of `nc_allocate_memory_block_mu` that releases cached blocks. -/
def releaseCached : List η → (η → Cell ThreadMemoryBlock) →
    Except Stop (List η × (η → Cell ThreadMemoryBlock))
  | [], blocks => .ok ([], blocks)
  | node :: rest, blocks =>
    if ncKMaxCachedMemoryBlocks < (node :: rest).length then do
      let tmp ← (blocks node).read
      if ¬ tmp.isUsed then releaseCached rest (Function.update blocks node (← (blocks node).free))
      else .ok (node :: rest, blocks)
    else .ok (node :: rest, blocks)

/-- What `nc_allocate_memory_block_mu` does without a block to use again. -/
def mallocBlock (w : ThreadWorld θ η ν) (requiredSize : ℤ) :
    Option η → Except Stop (ThreadWorld θ η ν × Option η)
  | none => .ok (w, none)
  | some node =>
    if (w.stackBlock node).isFresh then
      .ok ({ w with stackBlock := Function.update w.stackBlock node (.live ⟨requiredSize, true⟩) },
        some node)
    else .error .blocked

def ncAllocateMemoryBlockMu (w : ThreadWorld θ η ν) (requiredSize : ℤ) (stack : Option η) :
    Except Stop (ThreadWorld θ η ν × Option η) :=
  match w.threadStackBlocks with
  | [] => w.mallocBlock requiredSize stack
  | node :: rest => do
      let head ← (w.stackBlock node).read
      if ¬ head.isUsed ∧ requiredSize ≤ head.size then
        .ok ({ w with
          threadStackBlocks := rest
          stackBlock := Function.update w.stackBlock node (.live ⟨head.size, true⟩) }, some node)
      else
        let (threadStackBlocks, stackBlock) ← releaseCached w.threadStackBlocks w.stackBlock
        { w with threadStackBlocks, stackBlock }.mallocBlock requiredSize stack

def ncFreeMemoryBlockMu (w : ThreadWorld θ η ν) (node : η) : ThreadWorld θ η ν :=
  { w with threadStackBlocks := w.threadStackBlocks ++ [node] }

def ncReleaseBasicDataMu (w : ThreadWorld θ η ν) (t : θ) : Except Stop (ThreadWorld θ η ν) := do
  .ok (w.setRecord t { w.record t with basicData := ← (w.record t).basicData.free })

def ncReleaseTlsAllocation (w : ThreadWorld θ η ν) (t : θ) : Except Stop (ThreadWorld θ η ν) := do
  let tdb ← (w.record t).tls.read
  let basicData ← if tdb.basicData then do
      .ok (.live { ← (w.record t).basicData.read with tdb := false })
    else .ok (w.record t).basicData
  .ok (w.setRecord t { w.record t with basicData, tls := ← (w.record t).tls.free })

/-- `stack_node->is_used = 0`. -/
def clearIsUsed (w : ThreadWorld θ η ν) (node : η) : Except Stop (ThreadWorld θ η ν) := do
  let block ← (w.stackBlock node).read
  .ok { w with stackBlock := Function.update w.stackBlock node (.live { block with isUsed := false }) }

/-- The first section of `pthread_create`. -/
def pthreadCreate (w : ThreadWorld θ η ν) (t child : θ) (joinable : Bool) (requiredSize : ℤ)
    (tls basicData : Bool) (stack : Option η) : Except Stop (ThreadWorld θ η ν) :=
  let record := { w.record child with createdDetached := !joinable }
  if ¬ tls then .ok ((w.goto child (.releasing false false none)).goto t (.creating child))
  else if ¬ basicData then
    .ok (((w.setRecord child { record with tls := .live ⟨joinable, false, none, false⟩ }).goto child
      (.releasing true false none)).goto t (.creating child))
  else do
    let record := { record with basicData := .live ⟨none, false, true⟩ }
    match ← w.ncAllocateMemoryBlockMu requiredSize stack with
    | (w, none) =>
      .ok (((w.setRecord child { record with tls := .live ⟨joinable, false, none, true⟩ }).goto child
        (.releasing true true none)).goto t (.creating child))
    | (w, some node) =>
      let w := w.setRecord child { record with
        tls := .live ⟨joinable, false, some node, true⟩, usesStack := some node }
      .ok (({ w with runningThreadsCounter := w.runningThreadsCounter + 1 }.goto child
        (.starting node)).goto t (.creating child))

/-- The system call of `pthread_create`. -/
def threadCreate (w : ThreadWorld θ η ν) (t : θ) (started : Bool) : Except Stop (ThreadWorld θ η ν) :=
  match w.point t with
  | .creating child =>
    match w.point child with
    | .starting node =>
      if started then .ok ((w.goto child .running).finish t (.created child))
      else .ok (w.goto child (.failing node))
    | _ => .error .blocked
  | _ => .error .blocked

/-- The release at the end of `pthread_create`. -/
def releaseFailed (w : ThreadWorld θ η ν) (t child : θ) (tls basicData : Bool) (stackNode : Option η) :
    Except Stop (ThreadWorld θ η ν) := do
  let w ← (if tls then w.ncReleaseTlsAllocation child else .ok w)
  let w ← (if basicData then w.ncReleaseBasicDataMu child else .ok w)
  let w ← (match stackNode with
    | some node => do
        let w ← w.clearIsUsed node
        .ok ((w.ncFreeMemoryBlockMu node).setRecord child { w.record child with usesStack := none })
    | none => .ok w)
  .ok ((w.goto child .failed).finish t (.status (.error .eagain)))

/-- What follows a system call that has failed. -/
def createFailed (w : ThreadWorld θ η ν) (t child : θ) : Except Stop (ThreadWorld θ η ν) :=
  match w.point child with
  | .failing node =>
    .ok ({ w with runningThreadsCounter := w.runningThreadsCounter - 1 }.goto child
      (.releasing true true (some node)))
  | .releasing tls basicData stackNode => w.releaseFailed t child tls basicData stackNode
  | _ => .error .blocked

/-- The first section of `pthread_exit`. -/
def exitDecrement (w : ThreadWorld θ η ν) (t : θ) (retval : ν) : ThreadWorld θ η ν :=
  if t ≠ w.initialThread then
    { w with runningThreadsCounter := w.runningThreadsCounter - 1 }.goto t (.terminating retval)
  else if w.runningThreadsCounter ≠ 1 then w.goto t (.waiting retval)
  else w.goto t .exited

/-- `pthread_join` has found that the thread has terminated. -/
def joinComplete (w : ThreadWorld θ η ν) (t target : θ) : Except Stop (ThreadWorld θ η ν) := do
  let basicData ← (w.record target).basicData.read
  let w ← w.ncReleaseBasicDataMu target
  .ok ((w.setRecord target { w.record target with succeeded := true }).finish t
    (.joined target basicData.retval))

/-- The loop of `pthread_join` and what follows it. -/
def joinLoop (w : ThreadWorld θ η ν) (t target : θ) : Except Stop (ThreadWorld θ η ν) := do
  let basicData ← (w.record target).basicData.read
  if basicData.terminated then w.joinComplete t target else .ok (w.goto t (.joining target))

def pthreadJoin (w : ThreadWorld θ η ν) (t target : θ) : Except Stop (ThreadWorld θ η ν) :=
  if t = target then .ok (w.finish t (.status (.error .edeadlk)))
  else do
    let basicData ← (w.record target).basicData.read
    if basicData.tdb then
      let tdb ← (w.record target).tls.read
      if ¬ tdb.joinable ∨ tdb.joinWaiting then .ok (w.finish t (.status (.error .einval)))
      else
        let record := { w.record target with tls := .live { tdb with joinWaiting := true } }
        (w.setRecord target record).joinLoop t target
    else w.joinComplete t target

def pthreadDetach (w : ThreadWorld θ η ν) (t target : θ) : Except Stop (ThreadWorld θ η ν) := do
  let basicData ← (w.record target).basicData.read
  let record := { w.record target with succeeded := true }
  if basicData.tdb then
    let tdb ← (w.record target).tls.read
    if tdb.joinWaiting then .ok ((w.setRecord target record).finish t (.status (.ok ())))
    else if tdb.joinable then
      .ok ((w.setRecord target { record with tls := .live { tdb with joinable := false } }).finish t
        (.status (.ok ())))
    else .ok (w.finish t (.status (.error .einval)))
  else .ok ((← (w.setRecord target record).ncReleaseBasicDataMu target).finish t (.status (.ok ())))

section

variable [Fintype θ]

/-- `pthread_cond_signal(&basic_data->join_condvar)`. -/
def signalJoiner (w : ThreadWorld θ η ν) (t : θ) : Option θ → Except Stop (ThreadWorld θ η ν)
  | some u =>
    if (w.point u).sleepsOn = some t then .ok (w.goto u (.joinWoken t)) else .error .blocked
  | none => if ∀ u, (w.point u).sleepsOn ≠ some t then .ok w else .error .blocked

/-- `pthread_cond_signal(&__nc_last_thread_cond)`. -/
def signalLastThread (w : ThreadWorld θ η ν) : ThreadWorld θ η ν :=
  match w.point w.initialThread with
  | .waiting retval => w.goto w.initialThread (.exiting retval)
  | _ => w

/-- The second section of `pthread_exit`. -/
def exitRelease (w : ThreadWorld θ η ν) (t : θ) (retval : ν) (woken : Option θ) :
    Except Stop (ThreadWorld θ η ν) := do
  let tdb ← (w.record t).tls.read
  let basicData := { ← (w.record t).basicData.read with retval := some retval }
  let w ← if tdb.joinable then
      let record := { w.record t with basicData := .live { basicData with terminated := true } }
      (w.setRecord t record).signalJoiner t woken
    else .ok (w.setRecord t { w.record t with basicData := .live basicData })
  let w ← w.ncReleaseTlsAllocation t
  let w ← if ¬ tdb.joinable then w.ncReleaseBasicDataMu t else .ok w
  match tdb.stackNode with
  | some node =>
    let w := (w.ncFreeMemoryBlockMu node).goto t (.leaving node)
    .ok (if w.runningThreadsCounter = 1 then w.signalLastThread else w)
  | none => .error .useAfterFree

/-- One step. -/
def step (w : ThreadWorld θ η ν) : ThreadAction θ η ν → Except Stop (ThreadWorld θ η ν)
  | .pthreadCreate t child joinable requiredSize tls basicData stack =>
    match w.point t, w.point child with
    | .running, .fresh => w.pthreadCreate t child joinable requiredSize tls basicData stack
    | _, _ => .error .blocked
  | .threadCreate t started => w.threadCreate t started
  | .pthreadExit t retval =>
    match w.point t with
    | .running =>
      .ok ((w.setRecord t { w.record t with exitValue := some retval }).goto t (.exiting retval))
    | _ => .error .blocked
  | .pthreadJoin t target =>
    match w.point t with
    | .running => w.pthreadJoin t target
    | _ => .error .blocked
  | .pthreadDetach t target =>
    match w.point t with
    | .running => w.pthreadDetach t target
    | _ => .error .blocked
  | .next t woken =>
    match w.point t with
    | .creating child => w.createFailed t child
    | .joinWoken target => w.joinLoop t target
    | .exiting retval => .ok (w.exitDecrement t retval)
    | .terminating retval => w.exitRelease t retval woken
    | .leaving node => do
        let w ← w.clearIsUsed node
        .ok ((w.setRecord t { w.record t with usesStack := none }).goto t .gone)
    | _ => .error .blocked
  | .wake t =>
    match w.point t with
    | .joining target => .ok (w.goto t (.joinWoken target))
    | .waiting retval => .ok (w.goto t (.exiting retval))
    | _ => .error .blocked

end

/-- Joins and detaches are called with the number of a thread, as long as none of them has returned
success for it. -/
def Permitted (w : ThreadWorld θ η ν) : ThreadAction θ η ν → Prop
  | .pthreadJoin _ target | .pthreadDetach _ target =>
    (w.point target).unpublished = false ∧ (w.record target).succeeded = false
  | _ => True

/-- A thread that has terminated is not joined or detached while another call waits to join it, or if it was
created detached; and no thread waits to join one whose creation fails. -/
def Safe (w : ThreadWorld θ η ν) : ThreadAction θ η ν → Prop
  | .pthreadJoin _ target =>
    (w.point target).isFailing = false ∧ ((w.point target).ended = true →
      (w.record target).createdDetached = false ∧ ∀ u, (w.point u).joins ≠ some target)
  | .pthreadDetach _ target =>
    (w.point target).ended = true →
      (w.record target).createdDetached = false ∧ ∀ u, (w.point u).joins ≠ some target
  | .threadCreate t started =>
    started = false → ∀ child ∈ (w.point t).creates, ∀ u, (w.point u).joins ≠ some child
  | _ => True

instance (w : ThreadWorld θ η ν) (a : ThreadAction θ η ν) : Decidable (w.Permitted a) := by
  unfold Permitted
  cases a <;> infer_instance

instance [Fintype θ] (w : ThreadWorld θ η ν) (a : ThreadAction θ η ν) : Decidable (w.Safe a) := by
  unfold Safe
  cases a <;> infer_instance

end ThreadWorld

/-! ## The records of a thread -/

namespace ThreadRecord

variable {θ η ν : Type} {r : ThreadRecord η ν} {p q : ThreadPoint θ η ν} {joined joined' : Prop}

/-- No join or detach of the thread has had effect: it will stay until one has. -/
def Attached (r : ThreadRecord η ν) : Prop := r.createdDetached = false ∧ r.succeeded = false

/-- The records of a thread that has not ended, given whether another waits to join it. -/
structure Alive (r : ThreadRecord η ν) (joined : Prop) : Prop where
  basicData : r.basicData = .live ⟨none, false, true⟩
  tls : ∃ joinable joinWaiting, r.tls = .live ⟨joinable, joinWaiting, r.usesStack, true⟩ ∧
    (joinWaiting = true ↔ joined) ∧ (joined → joinable = true) ∧
      (¬ joined → (joinable = true ↔ r.Attached))

/-- The records of a thread that has ended. -/
structure Ended (r : ThreadRecord η ν) (joined : Prop) : Prop where
  tls : r.tls = .freed
  exitValue : r.exitValue ≠ none
  held : joined ∨ r.Attached → r.basicData = .live ⟨r.exitValue, true, false⟩
  released : ¬ joined → ¬ r.Attached → r.basicData = .freed

/-- What the thread's point says of its records. -/
def At (r : ThreadRecord η ν) : ThreadPoint θ η ν → Prop
  | .fresh => r.succeeded = false ∧ r.usesStack = none ∧ r.tls.isLive = false ∧ r.basicData.isLive = false
  | .starting node | .failing node | .leaving node => r.usesStack = some node
  | .releasing tls basicData stackNode => r.usesStack = stackNode ∧ r.tls.isLive = tls ∧
      r.basicData.isLive = basicData ∧ ∀ d, r.tls = .live d → d.basicData = basicData
  | .failed => r.tls.isLive = false ∧ r.basicData.isLive = false
  | .exiting retval | .waiting retval => r.exitValue = some retval
  | .terminating retval => r.exitValue = some retval ∧ r.usesStack ≠ none
  | _ => True

/-- What every safe step keeps of a thread's records. -/
structure Inv (r : ThreadRecord η ν) (p : ThreadPoint θ η ν) (joined : Prop) : Prop where
  alive : p.unpublished = false → p.ended = false → r.Alive joined
  ended : p.ended = true → r.Ended joined
  quiet : p.unpublished = true ∨ p.isFailing = true → ¬ joined
  at_ : r.At p

theorem Inv.congr (h : r.Inv p joined) (hjoined : joined' ↔ joined) : r.Inv p joined' := by
  rwa [propext hjoined]

theorem Inv.move (h : r.Inv p joined) (hunpublished : q.unpublished = p.unpublished)
    (hended : q.ended = p.ended) (hfailing : q.isFailing = p.isFailing) (hat : r.At q) :
    r.Inv q joined := by
  obtain ⟨halive, hended', hquiet, -⟩ := h
  refine ⟨?_, ?_, ?_, hat⟩
  · rwa [hunpublished, hended]
  · rwa [hended]
  · rwa [hunpublished, hfailing]

theorem At.congr {r' : ThreadRecord η ν} (h : r.At p) (hp : p.unpublished = false)
    (huses : r'.usesStack = r.usesStack) (hexit : r'.exitValue = r.exitValue) : r'.At p := by
  cases p with
  | fresh | releasing | failed => cases hp
  | starting | failing | leaving => exact huses.trans h
  | exiting | waiting => exact hexit.trans h
  | terminating retval => exact ⟨hexit.trans h.1, huses ▸ h.2⟩
  | _ => trivial

theorem unpublished_of_ended (h : p.ended = true) : p.unpublished = false := by
  cases p with
  | leaving | gone => rfl
  | _ => cases h

theorem Inv.release (h : r.Inv p joined) (hended : p.ended = true) (hjoined : ¬ joined') :
    Inv { r with basicData := .freed, succeeded := true } p joined' := by
  obtain ⟨-, hended', -, hat⟩ := h
  obtain ⟨htls, hexit, -, -⟩ := hended' hended
  refine ⟨fun _ hnot => absurd hended (by rw [hnot]; nofun),
    fun _ => ⟨htls, hexit, fun hheld => ?_, fun _ _ => rfl⟩, fun _ => hjoined,
    hat.congr (unpublished_of_ended hended) rfl rfl⟩
  rcases hheld with hheld | ⟨-, hnot⟩
  · exact absurd hheld hjoined
  · cases hnot

theorem Inv.wait (h : r.Inv p joined) (hunpublished : p.unpublished = false) (hended : p.ended = false)
    (hfailing : p.isFailing = false) (hjoined : joined') :
    Inv { r with tls := .live ⟨true, true, r.usesStack, true⟩ } p joined' := by
  refine ⟨fun _ _ => ⟨(h.alive hunpublished hended).basicData, true, true, rfl, iff_of_true rfl hjoined,
    fun _ => rfl, fun hnot => absurd hjoined hnot⟩, fun hnot => ?_, fun hquiet => ?_,
    h.at_.congr hunpublished rfl rfl⟩
  · rw [hended] at hnot
    cases hnot
  · rw [hunpublished, hfailing] at hquiet
    rcases hquiet with hquiet | hquiet <;> cases hquiet

theorem Inv.detach (h : r.Inv p joined) (hunpublished : p.unpublished = false) (hended : p.ended = false)
    {joinable joinWaiting joinable' : Bool}
    (htls : r.tls = .live ⟨joinable, joinWaiting, r.usesStack, true⟩)
    (hjoinable : joinable' = (joinWaiting && joinable)) :
    Inv { r with succeeded := true, tls := .live ⟨joinable', joinWaiting, r.usesStack, true⟩ } p
      joined := by
  obtain ⟨hbasic, joinable₀, joinWaiting₀, htls₀, hwaiting, htrue, -⟩ := h.alive hunpublished hended
  rw [htls] at htls₀
  cases htls₀
  refine ⟨fun _ _ => ⟨hbasic, joinable', joinWaiting, rfl, hwaiting, fun hj => ?_, fun hj => ?_⟩,
    fun hnot => ?_, h.quiet, h.at_.congr hunpublished rfl rfl⟩
  · rw [hjoinable, hwaiting.2 hj, htrue hj]
    rfl
  · have hfalse : joinWaiting = false := Bool.eq_false_iff.2 fun hw => hj (hwaiting.1 hw)
    rw [hjoinable, hfalse]
    exact iff_of_false nofun fun hattached => nomatch hattached.2
  · rw [hended] at hnot
    cases hnot

theorem Inv.exit (h : r.Inv (.running : ThreadPoint θ η ν) joined) (retval : ν) :
    Inv { r with exitValue := some retval } (.exiting retval : ThreadPoint θ η ν) joined := by
  refine ⟨fun _ _ => ?_, nofun, fun hquiet => ?_, rfl⟩
  · obtain ⟨hbasic, htls⟩ := h.alive rfl rfl
    exact ⟨hbasic, htls⟩
  · rcases hquiet with hquiet | hquiet <;> cases hquiet

theorem Inv.leave {retval : ν} {node : η} (h : r.Inv (.terminating retval : ThreadPoint θ η ν) joined)
    (huses : r.usesStack = some node) {joinable joinWaiting : Bool}
    (htls : r.tls = .live ⟨joinable, joinWaiting, r.usesStack, true⟩) :
    Inv { r with
      basicData := if joinable then .live ⟨some retval, true, false⟩ else .freed
      tls := .freed } (.leaving node : ThreadPoint θ η ν) joined := by
  obtain ⟨-, joinable₀, joinWaiting₀, htls₀, -, hjoined, hattached⟩ := h.alive rfl rfl
  rw [htls] at htls₀
  cases htls₀
  have hexit : r.exitValue = some retval := h.at_.1
  refine ⟨nofun, fun _ => ⟨rfl, ?_, fun hheld => ?_, fun hj hnot => ?_⟩, fun hquiet => ?_, huses⟩
  · rw [hexit]
    exact nofun
  · have hjoinable : joinable = true := by
      by_cases hj : joined
      · exact hjoined hj
      · exact (hattached hj).2 (hheld.resolve_left hj)
    change (if joinable = true then _ else _) = Cell.live (⟨r.exitValue, true, false⟩ : BasicThreadData ν)
    rw [if_pos hjoinable, hexit]
  · exact if_neg fun hjoinable => hnot ((hattached hj).1 hjoinable)
  · rcases hquiet with hquiet | hquiet <;> cases hquiet

end ThreadRecord

namespace ThreadWorld

section

variable {θ η ν : Type} {w w' : ThreadWorld θ η ν} {t k : θ} {p q : ThreadPoint θ η ν}

/-- Another thread is inside `pthread_join` for it. -/
def Joined (w : ThreadWorld θ η ν) (k : θ) : Prop := ∃ u, (w.point u).joins = some k

/-- The stack blocks: a thread keeps its own until it has left it for good. -/
structure StacksInv (w : ThreadWorld θ η ν) : Prop where
  used : ∀ k n, (w.record k).usesStack = some n → ∃ size, w.stackBlock n = .live ⟨size, true⟩
  own : ∀ j k n, (w.record j).usesStack = some n → (w.record k).usesStack = some n → j = k
  nodup : w.threadStackBlocks.Nodup
  cached : ∀ n ∈ w.threadStackBlocks, ∃ b, w.stackBlock n = .live b
  cachedBy : ∀ n ∈ w.threadStackBlocks, ∀ k, (w.record k).usesStack = some n → w.point k = .leaving n

/-- What every safe step keeps. -/
structure Inv [Fintype θ] (w : ThreadWorld θ η ν) : Prop where
  records : ∀ k, (w.record k).Inv (w.point k) (w.Joined k)
  oneJoiner : ∀ t u k, (w.point t).joins = some k → (w.point u).joins = some k → t = u
  stackBlocks : w.StacksInv
  hasStack : ∀ k ≠ w.initialThread, (w.point k).unpublished = false → (w.point k).ended = false →
    (w.record k).usesStack ≠ none
  counter : w.runningThreadsCounter = count ThreadPoint.counted w.point
  initial : (w.point w.initialThread).isUp = true
  joined : ∀ t k v, w.returned = some (t, .joined k v) → v ≠ none ∧ v = (w.record k).exitValue

theorem StacksInv.congr (h : w.StacksInv) (huses : ∀ k, (w'.record k).usesStack = (w.record k).usesStack)
    (hblock : w'.stackBlock = w.stackBlock) (hcached : w'.threadStackBlocks = w.threadStackBlocks)
    (hleaving : ∀ k n, w.point k = .leaving n → w'.point k = .leaving n) : w'.StacksInv := by
  obtain ⟨h₁, h₂, h₃, h₄, h₅⟩ := h
  refine ⟨fun k n => ?_, fun j k n => ?_, ?_, ?_, fun n hn k hk => ?_⟩
  · rw [huses, hblock]
    exact h₁ k n
  · rw [huses, huses]
    exact h₂ j k n
  · rwa [hcached]
  · rwa [hcached, hblock]
  · rw [hcached] at hn
    rw [huses] at hk
    exact hleaving k n (h₅ n hn k hk)

variable [DecidableEq θ]

theorem joined_iff_of_update (hpoint : w'.point = update w.point t q)
    (hjoins : q.joins = some k ↔ (w.point t).joins = some k) : w'.Joined k ↔ w.Joined k := by
  unfold Joined
  rw [hpoint]
  refine exists_congr fun u => ?_
  rw [update_apply]
  split_ifs with hut
  · rw [hut, hjoins]
  · rfl

@[simp]
theorem setRecord_record_self (r : ThreadRecord η ν) : (w.setRecord t r).record t = r :=
  update_self _ _ _

theorem setRecord_record_of_ne {r : ThreadRecord η ν} {j : θ} (hj : j ≠ t) :
    (w.setRecord t r).record j = w.record j := update_of_ne hj _ _

theorem setRecord_setRecord (r r' : ThreadRecord η ν) :
    (w.setRecord t r).setRecord t r' = w.setRecord t r' := by
  unfold setRecord
  rw [update_idem]

theorem ncReleaseBasicDataMu_of_live {d : BasicThreadData ν} (h : (w.record t).basicData = .live d) :
    w.ncReleaseBasicDataMu t = .ok (w.setRecord t { w.record t with basicData := .freed }) := by
  unfold ncReleaseBasicDataMu
  rw [h]
  rfl

theorem ncReleaseTlsAllocation_of_live {joinable joinWaiting : Bool} {stackNode : Option η}
    {b : BasicThreadData ν} (htls : (w.record t).tls = .live ⟨joinable, joinWaiting, stackNode, true⟩)
    (hbasic : (w.record t).basicData = .live b) : w.ncReleaseTlsAllocation t =
      .ok (w.setRecord t { w.record t with basicData := .live { b with tdb := false }, tls := .freed }) := by
  unfold ncReleaseTlsAllocation
  rw [htls, hbasic]
  rfl

variable [Fintype θ]

theorem Inv.of_step (h : w.Inv) (k : θ) (hp : w.point t = p)
    (hpoint : w'.point = update w.point t q) (hinitial : w'.initialThread = w.initialThread)
    (hrecord : ∀ j ≠ k, w'.record j = w.record j)
    (hjoins : ∀ j ≠ k, (q.joins = some j ↔ p.joins = some j))
    (honly : q.joins = some k → p.joins = some k ∨ ¬ w.Joined k)
    (ht : t ≠ k → (w.record t).Inv q (w.Joined t)) (hk : (w'.record k).Inv (w'.point k) (w'.Joined k))
    (hstacks : w'.StacksInv)
    (huses : k ≠ t → (w'.record k).usesStack = (w.record k).usesStack)
    (hhas : t ≠ w.initialThread → q.unpublished = false → q.ended = false →
      (w'.record t).usesStack ≠ none)
    (hcounter : w'.runningThreadsCounter + p.counted.toNat = w.runningThreadsCounter + q.counted.toNat)
    (hup : t = w.initialThread → q.isUp = true)
    (hreturned : ∀ t k v, w'.returned = some (t, .joined k v) → v ≠ none ∧ v = (w'.record k).exitValue) :
    w'.Inv := by
  subst hp
  have hjoined : ∀ j ≠ k, (w'.Joined j ↔ w.Joined j) := fun j hj =>
    joined_iff_of_update hpoint (hjoins j hj)
  refine ⟨fun j => ?_, fun s u j hs hu => ?_, hstacks, fun j hj hpub hend => ?_, ?_, ?_, hreturned⟩
  · by_cases hjk : j = k
    · exact hjk ▸ hk
    · rw [hrecord j hjk]
      refine ThreadRecord.Inv.congr ?_ (hjoined j hjk)
      rw [hpoint, update_apply]
      split_ifs with hjt
      · subst hjt
        exact ht hjk
      · exact h.records j
  · rw [hpoint, update_apply] at hs hu
    have hfirst : ∀ u ≠ t, q.joins = some j → (w.point u).joins = some j → u = t := by
      intro u hut hq hu
      by_cases hjk : j = k
      · subst hjk
        rcases honly hq with hp | hnone
        · exact h.oneJoiner u t j hu hp
        · exact absurd ⟨u, hu⟩ hnone
      · exact h.oneJoiner u t j hu ((hjoins j hjk).1 hq)
    split_ifs at hs hu with hst hut
    · rw [hst, hut]
    · exact (hst.trans (hfirst u ‹_› hs hu).symm)
    · exact (hfirst s hst hu hs).trans (Eq.symm ‹_›)
    · exact h.oneJoiner s u j hs hu
  · rw [hinitial] at hj
    rw [hpoint, update_apply] at hpub hend
    split_ifs at hpub hend with hjt
    · subst hjt
      exact hhas hj hpub hend
    · have huses' : (w'.record j).usesStack = (w.record j).usesStack := by
        by_cases hjk : j = k
        · subst hjk
          exact huses hjt
        · rw [hrecord j hjk]
      rw [huses']
      exact h.hasStack j hj hpub hend
  · have hcount := count_update_add ThreadPoint.counted w.point t q
    have hold := h.counter
    rw [hpoint]
    omega
  · rw [hinitial, hpoint, update_apply]
    split_ifs with hit
    · exact hup hit.symm
    · exact h.initial

theorem Inv.move (h : w.Inv) (hp : w.point t = p) (hpup : p.isUp = true) (hqup : q.isUp = true)
    (hjoins : q.joins = p.joins) (hat : (w.record t).At q) {returned : Option (θ × ThreadReturn θ ν)}
    (hreturned : ∀ t k v, returned ≠ some (t, .joined k v)) :
    Inv { w with point := update w.point t q, returned } := by
  have hrecord := h.records t
  rw [hp] at hrecord
  obtain ⟨hpu, hpe, hpf, hpc, hpl⟩ := ThreadPoint.isUp_facts hpup
  obtain ⟨hqu, hqe, hqf, hqc, -⟩ := ThreadPoint.isUp_facts hqup
  have hjoined : ∀ k, (Joined { w with point := update w.point t q, returned } k ↔ w.Joined k) :=
    fun k => joined_iff_of_update rfl (by rw [hp, hjoins])
  have hmove := hrecord.move (hqu.trans hpu.symm) (hqe.trans hpe.symm) (hqf.trans hpf.symm) hat
  refine h.of_step t hp rfl rfl (fun _ _ => rfl) (fun _ _ => by rw [hjoins])
    (fun hq => .inl (hjoins ▸ hq)) (fun hne => absurd rfl hne) ?_ ?_ (fun _ => rfl)
    (fun hne _ _ => h.hasStack t hne (hp ▸ hpu) (hp ▸ hpe)) (by rw [hpc, hqc]) (fun _ => hqup)
    (fun t k v hv => absurd hv (hreturned t k v))
  · refine ThreadRecord.Inv.congr ?_ (hjoined t)
    change (w.record t).Inv (update w.point t q t) (w.Joined t)
    rwa [update_self]
  · refine h.stackBlocks.congr (fun _ => rfl) rfl rfl fun k n hk => ?_
    change update w.point t q k = .leaving n
    rw [update_of_ne ?_, hk]
    rintro rfl
    exact hpl n (hp.symm.trans hk)

end

section

variable {θ η ν : Type} [DecidableEq θ] [Fintype θ] {w w' : ThreadWorld θ η ν} {t target : θ}
  {p q : ThreadPoint θ η ν}

theorem Inv.finish_status (h : w.Inv) (hp : w.point t = .running) {result : Except Errno Unit} :
    (w.finish t (.status result)).Inv :=
  h.move hp rfl rfl rfl trivial fun _ _ _ => nofun

theorem Inv.of_record (h : w.Inv) (r : ThreadRecord η ν) (returned : Option (θ × ThreadReturn θ ν))
    (hp : w.point t = p) (hp' : p = .running ∨ p = .joinWoken target)
    (hq : q = .running ∨ q = .joining target)
    (honly : q.joins = some target → p.joins = some target ∨ ¬ w.Joined target)
    (huses : r.usesStack = (w.record target).usesStack)
    (hr : ∀ joined, (joined ↔ ∃ u, (update w.point t q u).joins = some target) →
      r.Inv (update w.point t q target) joined)
    (hreturned : ∀ u k v, returned = some (u, .joined k v) → k = target ∧ v ≠ none ∧ v = r.exitValue) :
    Inv { (w.setRecord target r).goto t q with returned } := by
  have hjoins : ∀ {x : ThreadPoint θ η ν}, x = .running ∨ x = .joinWoken target ∨ x = .joining target →
      (∀ j ≠ target, x.joins ≠ some j) ∧ x.isUp = true := by
    rintro x (rfl | rfl | rfl)
    · exact ⟨fun _ _ => nofun, rfl⟩
    · exact ⟨fun j hj heq => hj (Option.some.inj heq).symm, rfl⟩
    · exact ⟨fun j hj heq => hj (Option.some.inj heq).symm, rfl⟩
  obtain ⟨hpj, hpup⟩ := hjoins (hp'.elim .inl fun h => .inr (.inl h))
  obtain ⟨hqj, hqup⟩ := hjoins (hq.elim .inl fun h => .inr (.inr h))
  obtain ⟨hpu, hpe, hpf, hpc, hpl⟩ := ThreadPoint.isUp_facts hpup
  obtain ⟨hqu, hqe, hqf, hqc, -⟩ := ThreadPoint.isUp_facts hqup
  have hrecord := h.records t
  rw [hp] at hrecord
  have hat : (w.record t).At q := by
    rcases hq with rfl | rfl <;> trivial
  have hself : (w.setRecord target r).record target = r := setRecord_record_self r
  have huses' : ∀ k, ((w.setRecord target r).record k).usesStack = (w.record k).usesStack := by
    intro k
    by_cases hk : k = target
    · subst hk
      exact (congrArg ThreadRecord.usesStack hself).trans huses
    · exact congrArg ThreadRecord.usesStack (setRecord_record_of_ne hk)
  refine h.of_step target hp rfl rfl (fun j hj => setRecord_record_of_ne hj)
    (fun j hj => iff_of_false (hqj j hj) (hpj j hj)) honly (fun _ => ?_) ?_ ?_ (fun _ => huses' target)
    (fun hne _ _ => ?_) (by rw [hpc, hqc]; rfl) (fun _ => hqup) (fun u k v hv => ?_)
  · exact hrecord.move (hqu.trans hpu.symm) (hqe.trans hpe.symm) (hqf.trans hpf.symm) hat
  · change ((w.setRecord target r).record target).Inv (update w.point t q target) _
    rw [hself]
    exact hr _ Iff.rfl
  · refine h.stackBlocks.congr huses' rfl rfl fun k n hk => ?_
    change update w.point t q k = .leaving n
    rw [update_of_ne ?_, hk]
    rintro rfl
    exact hpl n (hp.symm.trans hk)
  · change ((w.setRecord target r).record t).usesStack ≠ none
    rw [huses']
    exact h.hasStack t hne (hp ▸ hpu) (hp ▸ hpe)
  · obtain ⟨rfl, hne, hv'⟩ := hreturned u k v hv
    exact ⟨hne, hv'.trans (congrArg ThreadRecord.exitValue hself).symm⟩

theorem Inv.not_joined_of_update (h : w.Inv) (hjoins : (w.point t).joins = some target ∨ ¬ w.Joined target)
    (hq : q.joins = none) : ¬ ∃ u, (update w.point t q u).joins = some target := by
  rintro ⟨u, hu⟩
  rw [update_apply] at hu
  split_ifs at hu with hut
  · rw [hq] at hu
    cases hu
  · rcases hjoins with hjoins | hnone
    · exact hut (h.oneJoiner u t target hu hjoins)
    · exact hnone ⟨u, hu⟩

theorem Inv.joinComplete (h : w.Inv) (hp : w.point t = p) (hp' : p = .running ∨ p = .joinWoken target)
    (hended : (w.point target).ended = true) (hjoins : p.joins = some target ∨ ¬ w.Joined target)
    (hheld : w.Joined target ∨ (w.record target).Attached) : Fine Inv (w.joinComplete t target) := by
  have hrecord := h.records target
  obtain ⟨-, hexit, hbasic, -⟩ := hrecord.ended hended
  have ht : t ≠ target := by
    rintro rfl
    rw [hp] at hended
    rcases hp' with rfl | rfl <;> cases hended
  have hnot := h.not_joined_of_update (q := .running) (hp ▸ hjoins) rfl
  have hrelease := h.of_record { w.record target with basicData := .freed, succeeded := true }
    (some (t, .joined target (w.record target).exitValue)) hp hp' (q := .running) (.inl rfl) nofun rfl
    (fun joined hj => by
      rw [update_of_ne ht.symm]
      exact hrecord.release hended fun hjoined => hnot (hj.1 hjoined))
    (fun u k v hv => by cases hv; exact ⟨rfl, hexit, rfl⟩)
  unfold ThreadWorld.joinComplete ncReleaseBasicDataMu
  rw [hbasic hheld]
  change Inv _
  simpa [finish, goto, setRecord] using hrelease

omit [Fintype θ] in
theorem joinLoop_of_alive (h : (w.record target).basicData = .live ⟨none, false, true⟩) :
    w.joinLoop t target = .ok (w.goto t (.joining target)) := by
  unfold ThreadWorld.joinLoop
  rw [h]
  rfl

theorem Inv.joinLoop (h : w.Inv) (hp : w.point t = .joinWoken target) : Fine Inv (w.joinLoop t target) := by
  have hrecord := h.records target
  have hjoined : w.Joined target := ⟨t, by rw [hp]; rfl⟩
  have hpublished : (w.point target).unpublished = false := by
    by_contra hnot
    exact hrecord.quiet (.inl (Bool.eq_true_of_not_eq_false hnot)) hjoined
  cases hended : (w.point target).ended with
  | false =>
    rw [joinLoop_of_alive (hrecord.alive hpublished hended).basicData]
    exact h.move (q := .joining target) hp rfl rfl rfl trivial fun _ _ _ => nofun
  | true =>
    unfold ThreadWorld.joinLoop
    rw [(hrecord.ended hended).held (.inl hjoined)]
    exact h.joinComplete hp (.inr rfl) hended (.inl rfl) (.inl hjoined)

theorem Inv.pthreadJoin (h : w.Inv) (hp : w.point t = .running)
    (hpermitted : w.Permitted (.pthreadJoin t target)) (hsafe : w.Safe (.pthreadJoin t target)) :
    Fine Inv (w.pthreadJoin t target) := by
  obtain ⟨hpublished, hsucceeded⟩ := hpermitted
  obtain ⟨hfailing, hsafe⟩ := hsafe
  have hrecord := h.records target
  unfold ThreadWorld.pthreadJoin
  split_ifs with ht
  · exact h.finish_status hp
  · cases hended : (w.point target).ended with
    | false =>
      obtain ⟨hbasic, joinable, joinWaiting, htls, hwaiting, -, -⟩ := hrecord.alive hpublished hended
      rw [hbasic, htls]
      change Fine Inv (if ¬ joinable = true ∨ joinWaiting = true then _ else _)
      split_ifs with hbusy
      · exact h.finish_status hp
      · rw [not_or, not_not, Bool.not_eq_true] at hbusy
        obtain ⟨rfl, rfl⟩ := hbusy
        have hnone : ¬ w.Joined target := fun hjoined => by cases hwaiting.2 hjoined
        have hwait := h.of_record { w.record target with
            tls := .live ⟨true, true, (w.record target).usesStack, true⟩ } none hp (.inl rfl)
          (q := .joining target) (.inr rfl) (fun _ => .inr hnone) rfl
          (fun joined hj => by
            rw [update_of_ne (Ne.symm ht)]
            exact hrecord.wait hpublished hended hfailing
              (hj.2 ⟨t, by rw [update_self]; rfl⟩)) fun _ _ _ => nofun
        rw [joinLoop_of_alive (by rw [setRecord_record_self]; exact hbasic)]
        exact hwait
    | true =>
      obtain ⟨hdetached, hnone⟩ := hsafe hended
      have hattached : (w.record target).Attached := ⟨hdetached, hsucceeded⟩
      rw [(hrecord.ended hended).held (.inr hattached)]
      exact h.joinComplete hp (.inl rfl) hended (.inr fun ⟨u, hu⟩ => hnone u hu) (.inr hattached)

theorem Inv.pthreadDetach (h : w.Inv) (hp : w.point t = .running)
    (hpermitted : w.Permitted (.pthreadDetach t target)) (hsafe : w.Safe (.pthreadDetach t target)) :
    Fine Inv (w.pthreadDetach t target) := by
  obtain ⟨hpublished, hsucceeded⟩ := hpermitted
  have hrecord := h.records target
  have hsame : update w.point t .running = w.point := by
    rw [update_eq_self_iff]
    exact hp.symm
  unfold ThreadWorld.pthreadDetach
  cases hended : (w.point target).ended with
  | false =>
    obtain ⟨hbasic, joinable, joinWaiting, htls, -, -, -⟩ := hrecord.alive hpublished hended
    rw [hbasic]
    change Fine Inv ((w.record target).tls.read >>= _)
    have hdetach : ∀ joinable', joinable' = (joinWaiting && joinable) →
        Inv ((w.setRecord target { w.record target with
          succeeded := true, tls := .live ⟨joinable', joinWaiting, (w.record target).usesStack, true⟩ }).finish
            t (.status (.ok ()))) := by
      intro joinable' hjoinable
      refine h.of_record _ _ hp (.inl rfl) (.inl rfl) nofun rfl (fun joined hj => ?_)
        fun _ _ _ hv => by cases hv
      rw [hsame] at hj ⊢
      exact (hrecord.detach hpublished hended htls hjoinable).congr hj
    rw [htls]
    change Fine Inv (if joinWaiting = true then _ else if joinable = true then _ else _)
    split_ifs with hwaiting hjoinable
    · subst hwaiting
      have hdetach' := hdetach joinable rfl
      rw [← htls] at hdetach'
      exact hdetach'
    · rw [Bool.not_eq_true] at hwaiting
      subst hwaiting
      exact hdetach false rfl
    · exact h.finish_status hp
  | true =>
    obtain ⟨hdetached, hnone⟩ := hsafe hended
    have hattached : (w.record target).Attached := ⟨hdetached, hsucceeded⟩
    rw [(hrecord.ended hended).held (.inr hattached)]
    have hrelease := h.of_record { w.record target with basicData := .freed, succeeded := true }
      (some (t, .status (.ok ()))) hp (.inl rfl) (q := .running) (.inl rfl) nofun rfl
      (fun joined hj => by
        rw [hsame] at hj ⊢
        exact hrecord.release hended fun hjoined => (hj.1 hjoined).elim hnone)
      fun _ _ _ hv => by cases hv
    have hlive : ((w.setRecord target { w.record target with succeeded := true }).record
        target).basicData = .live ⟨(w.record target).exitValue, true, false⟩ := by
      rw [setRecord_record_self]
      exact (hrecord.ended hended).held (.inr hattached)
    have hfree := ncReleaseBasicDataMu_of_live hlive
    rw [setRecord_setRecord, setRecord_record_self] at hfree
    change Fine Inv ((w.setRecord target { w.record target with succeeded := true }).ncReleaseBasicDataMu
      target >>= fun w => .ok (w.finish t (.status (.ok ()))))
    rw [hfree]
    exact hrelease

/-! ## The end of a thread -/

omit [Fintype θ] in
theorem setRecord_self : w.setRecord t (w.record t) = w := by
  unfold setRecord
  rw [update_eq_self]

theorem Inv.of_own (h : w.Inv) (hp : w.point t = p) (r : ThreadRecord η ν) (q : ThreadPoint θ η ν)
    (counter : ℤ) (hjoins : q.joins = p.joins) (hr : r.Inv q (w.Joined t))
    (huses : r.usesStack = (w.record t).usesStack) (hleaving : ∀ n, p ≠ .leaving n)
    (hhas : t ≠ w.initialThread → q.unpublished = false → q.ended = false → r.usesStack ≠ none)
    (hcounter : counter + p.counted.toNat = w.runningThreadsCounter + q.counted.toNat)
    (hup : t = w.initialThread → q.isUp = true) :
    Inv ({ w.setRecord t r with runningThreadsCounter := counter }.goto t q) := by
  have hself : (w.setRecord t r).record t = r := setRecord_record_self r
  have hjoined : Joined ({ w.setRecord t r with runningThreadsCounter := counter }.goto t q) t ↔
      w.Joined t := joined_iff_of_update rfl (by rw [hp, hjoins])
  refine h.of_step t hp rfl rfl (fun j hj => setRecord_record_of_ne hj) (fun _ _ => by rw [hjoins])
    (fun hq => .inl (hjoins ▸ hq)) (fun hne => absurd rfl hne) ?_ ?_ (fun hne => absurd rfl hne)
    (fun hne hpub hend => ?_) hcounter hup fun _ _ _ => nofun
  · refine ThreadRecord.Inv.congr ?_ hjoined
    change ((w.setRecord t r).record t).Inv (update w.point t q t) _
    rwa [hself, update_self]
  · refine h.stackBlocks.congr (fun k => ?_) rfl rfl fun k n hk => ?_
    · by_cases hk : k = t
      · subst hk
        exact (congrArg ThreadRecord.usesStack hself).trans huses
      · exact congrArg ThreadRecord.usesStack (setRecord_record_of_ne hk)
    · change update w.point t q k = .leaving n
      rw [update_of_ne ?_, hk]
      rintro rfl
      exact hleaving n (hp.symm.trans hk)
  · change ((w.setRecord t r).record t).usesStack ≠ none
    rw [hself]
    exact hhas hne hpub hend

theorem Inv.pthreadExit (h : w.Inv) (hp : w.point t = .running) (retval : ν) :
    Inv ((w.setRecord t { w.record t with exitValue := some retval }).goto t (.exiting retval)) := by
  have hrecord := h.records t
  rw [hp] at hrecord
  exact h.of_own hp { w.record t with exitValue := some retval } (.exiting retval)
    w.runningThreadsCounter rfl (hrecord.exit retval) rfl (fun _ => nofun)
    (fun hne _ _ => h.hasStack t hne (hp ▸ rfl) (hp ▸ rfl)) rfl fun _ => rfl

theorem Inv.exitDecrement (h : w.Inv) {retval : ν} (hp : w.point t = .exiting retval) :
    (w.exitDecrement t retval).Inv := by
  have hrecord := h.records t
  rw [hp] at hrecord
  unfold ThreadWorld.exitDecrement
  split_ifs with hinitial hlast
  · have hstack := h.hasStack t hinitial (hp ▸ rfl) (hp ▸ rfl)
    have hown := h.of_own hp (w.record t) (.terminating retval) (w.runningThreadsCounter - 1) rfl
      (hrecord.move rfl rfl rfl ⟨hrecord.at_, hstack⟩) rfl (fun _ => nofun) (fun _ _ _ => hstack)
      (by simp [ThreadPoint.counted]) fun heq => absurd heq hinitial
    rwa [setRecord_self] at hown
  · exact h.move (q := .waiting retval) hp rfl rfl rfl hrecord.at_ fun _ _ _ => nofun
  · exact h.move (q := .exited) hp rfl rfl rfl trivial fun _ _ _ => nofun

variable {node : η} {retval : ν}

omit [Fintype θ] in
theorem StacksInv.leave (h : w.StacksInv) (hp : w.point t = .terminating retval)
    {r : ThreadRecord η ν} (huses : (w.record t).usesStack = some node) (hr : r.usesStack = some node) :
    StacksInv (((w.setRecord t r).ncFreeMemoryBlockMu node).goto t (.leaving node)) := by
  have huses' : ∀ k, ((w.setRecord t r).record k).usesStack = (w.record k).usesStack := by
    intro k
    by_cases hk : k = t
    · subst hk
      rw [setRecord_record_self, hr, huses]
    · rw [setRecord_record_of_ne hk]
  have hnot : node ∉ w.threadStackBlocks := fun hmem => by
    have hleaving := h.cachedBy node hmem t huses
    rw [hp] at hleaving
    cases hleaving
  obtain ⟨hused, hown, hnodup, hcached, hcachedBy⟩ := h
  refine ⟨fun k n hk => hused k n (huses' k ▸ hk),
    fun j k n hj hk => hown j k n (huses' j ▸ hj) (huses' k ▸ hk), ?_, fun n hn => ?_, fun n hn k hk => ?_⟩
  · exact List.nodup_append.2 ⟨hnodup, List.nodup_singleton _, fun a ha b hb hab =>
      hnot (List.mem_singleton.1 hb ▸ hab ▸ ha)⟩
  · rcases List.mem_append.1 hn with hn | hn
    · exact hcached n hn
    · obtain ⟨size, hlive⟩ := hused t node huses
      rw [List.mem_singleton.1 hn]
      exact ⟨_, hlive⟩
  · change ((w.setRecord t r).record k).usesStack = some n at hk
    rw [huses'] at hk
    change update w.point t (.leaving node) k = .leaving n
    rcases List.mem_append.1 hn with hn | hn
    · have hleaving := hcachedBy n hn k hk
      rw [update_of_ne ?_, hleaving]
      rintro rfl
      rw [hp] at hleaving
      cases hleaving
    · rw [List.mem_singleton.1 hn] at hk ⊢
      rw [hown k t node hk huses, update_self]

theorem Inv.signalJoiner (h : w.Inv) (hp : w.point t = .terminating retval) (woken : Option θ)
    (r : ThreadRecord η ν) : (w.setRecord t r).signalJoiner t woken = .error .blocked ∨
      ∃ w₀, Inv w₀ ∧ w₀.record = w.record ∧ w₀.point t = .terminating retval ∧
        (w.setRecord t r).signalJoiner t woken = .ok (w₀.setRecord t r) := by
  cases woken with
  | some u =>
    unfold ThreadWorld.signalJoiner
    dsimp only
    split_ifs with hsleeps
    · have hu : w.point u = .joining t := by
        have hsleeps' : (w.point u).sleepsOn = some t := hsleeps
        cases hpoint : w.point u with
        | joining target =>
          rw [hpoint] at hsleeps'
          cases hsleeps'
          rfl
        | _ =>
          rw [hpoint] at hsleeps'
          cases hsleeps'
      refine .inr ⟨w.goto u (.joinWoken t), ?_, rfl, ?_, rfl⟩
      · exact h.move (q := .joinWoken t) hu rfl rfl rfl trivial fun _ _ _ => nofun
      · change update w.point u (.joinWoken t) t = _
        rw [update_of_ne ?_, hp]
        rintro rfl
        rw [hp] at hu
        cases hu
    · exact .inl rfl
  | none =>
    unfold ThreadWorld.signalJoiner
    dsimp only
    split_ifs
    · exact .inr ⟨w, h, rfl, hp, rfl⟩
    · exact .inl rfl

theorem Inv.leave (h : w.Inv) (hp : w.point t = .terminating retval)
    (huses : (w.record t).usesStack = some node) {joinable joinWaiting : Bool}
    (htls : (w.record t).tls = .live ⟨joinable, joinWaiting, (w.record t).usesStack, true⟩) :
    Inv (((w.setRecord t { w.record t with
      basicData := if joinable then .live ⟨some retval, true, false⟩ else .freed
      tls := .freed }).ncFreeMemoryBlockMu node).goto t (.leaving node)) := by
  have hrecord := h.records t
  rw [hp] at hrecord
  have hleave := hrecord.leave huses htls
  refine h.of_step t hp rfl rfl (fun j hj => setRecord_record_of_ne hj) (fun _ _ => Iff.rfl)
    (fun hq => .inl hq) (fun hne => absurd rfl hne) ?_ (h.stackBlocks.leave hp huses huses)
    (fun hne => absurd rfl hne) (fun _ _ => nofun) rfl (fun heq => ?_) fun _ _ _ => nofun
  · refine ThreadRecord.Inv.congr ?_ (joined_iff_of_update (w := w) rfl (by rw [hp]; rfl))
    change ((w.setRecord t _).record t).Inv (update w.point t _ t) _
    rw [setRecord_record_self, update_self]
    exact hleave
  · have hinitial := h.initial
    rw [← heq, hp] at hinitial
    cases hinitial

theorem Inv.signalLastThread (h : w.Inv) : w.signalLastThread.Inv := by
  unfold ThreadWorld.signalLastThread
  split
  · next retval hp =>
    have hat := (h.records w.initialThread).at_
    rw [hp] at hat
    exact h.move (q := .exiting retval) hp rfl rfl rfl hat fun _ _ _ => nofun
  · exact h

theorem Inv.exitRelease (h : w.Inv) (hp : w.point t = .terminating retval) {woken : Option θ} :
    Fine Inv (w.exitRelease t retval woken) := by
  have hrecord := h.records t
  rw [hp] at hrecord
  obtain ⟨hbasic, joinable, joinWaiting, htls, -⟩ := hrecord.alive rfl rfl
  obtain ⟨node, huses⟩ := Option.ne_none_iff_exists'.1 hrecord.at_.2
  have htail : ∀ {w₀ : ThreadWorld θ η ν}, w₀.Inv → w₀.record = w.record →
      w₀.point t = .terminating retval → ∀ {r}, r = { w.record t with
        basicData := if joinable then .live ⟨some retval, true, false⟩ else .freed, tls := .freed } →
      Fine Inv (.ok (if (((w₀.setRecord t r).ncFreeMemoryBlockMu node).goto t
          (.leaving node)).runningThreadsCounter = 1 then
        (((w₀.setRecord t r).ncFreeMemoryBlockMu node).goto t (.leaving node)).signalLastThread
        else ((w₀.setRecord t r).ncFreeMemoryBlockMu node).goto t (.leaving node))) := by
    intro w₀ h₀ hrecord₀ hp₀ r hr
    rw [← hrecord₀] at hr huses htls
    have hleave := h₀.leave hp₀ huses htls
    rw [← hr] at hleave
    change Inv _
    split_ifs
    · exact hleave.signalLastThread
    · exact hleave
  unfold ThreadWorld.exitRelease
  rw [htls, hbasic, huses]
  cases joinable with
  | true =>
    change Fine Inv ((w.setRecord t { w.record t with
      basicData := .live ⟨some retval, true, true⟩ }).signalJoiner t woken >>= _)
    rcases h.signalJoiner hp woken { w.record t with
      basicData := .live ⟨some retval, true, true⟩ } with hblocked | ⟨w₀, h₀, hrecord₀, hp₀, hok⟩
    · rw [hblocked]
      rfl
    · rw [hok]
      have hrelease := ncReleaseTlsAllocation_of_live (w := w₀.setRecord t { w.record t with
        basicData := .live ⟨some retval, true, true⟩ }) (t := t)
        (by rw [setRecord_record_self]; exact htls) (by rw [setRecord_record_self])
      rw [setRecord_setRecord, setRecord_record_self] at hrelease
      change Fine Inv ((w₀.setRecord t { w.record t with
        basicData := .live ⟨some retval, true, true⟩ }).ncReleaseTlsAllocation t >>= _)
      rw [hrelease]
      exact htail h₀ hrecord₀ hp₀ rfl
  | false =>
    have hrelease := ncReleaseTlsAllocation_of_live (w := w.setRecord t { w.record t with
      basicData := .live ⟨some retval, false, true⟩ }) (t := t)
      (by rw [setRecord_record_self]; exact htls) (by rw [setRecord_record_self])
    rw [setRecord_setRecord, setRecord_record_self] at hrelease
    change Fine Inv ((w.setRecord t { w.record t with
      basicData := .live ⟨some retval, false, true⟩ }).ncReleaseTlsAllocation t >>= _)
    rw [hrelease]
    have hfree := ncReleaseBasicDataMu_of_live (w := w.setRecord t { w.record t with
      basicData := .live ⟨some retval, false, false⟩, tls := .freed }) (t := t)
      (by rw [setRecord_record_self])
    rw [setRecord_setRecord, setRecord_record_self] at hfree
    change Fine Inv ((w.setRecord t { w.record t with
      basicData := .live ⟨some retval, false, false⟩, tls := .freed }).ncReleaseBasicDataMu t >>= _)
    rw [hfree]
    exact htail h rfl hp rfl

end

section

variable {θ η ν : Type} [DecidableEq θ] [DecidableEq η] {w w' : ThreadWorld θ η ν} {t k : θ} {node : η}

omit [DecidableEq θ] in
theorem StacksInv.giveUp (h : w.StacksInv) (huses : (w.record k).usesStack = some node)
    (hrecord : ∀ j ≠ k, w'.record j = w.record j) (hnone : (w'.record k).usesStack = none)
    (hpoint : ∀ j ≠ k, w'.point j = w.point j) {block : ThreadMemoryBlock}
    (hblock : w'.stackBlock = update w.stackBlock node (.live block))
    (hmem : ∀ n ∈ w'.threadStackBlocks, n ∈ w.threadStackBlocks ∨ n = node)
    (hnodup : w'.threadStackBlocks.Nodup) : w'.StacksInv := by
  have hother : ∀ {j n}, (w'.record j).usesStack = some n →
      j ≠ k ∧ (w.record j).usesStack = some n ∧ n ≠ node := by
    intro j n hj
    have hjk : j ≠ k := by
      rintro rfl
      rw [hnone] at hj
      cases hj
    rw [hrecord j hjk] at hj
    refine ⟨hjk, hj, ?_⟩
    rintro rfl
    exact hjk (h.own j k n hj huses)
  refine ⟨fun j n hj => ?_, fun i j n hi hj => ?_, hnodup, fun n hn => ?_, fun n hn j hj => ?_⟩
  · obtain ⟨-, hj', hn⟩ := hother hj
    rw [hblock, update_of_ne hn]
    exact h.used j n hj'
  · exact h.own i j n (hother hi).2.1 (hother hj).2.1
  · rw [hblock, update_apply]
    split_ifs with hnode
    · exact ⟨block, rfl⟩
    · exact h.cached n ((hmem n hn).resolve_right hnode)
  · obtain ⟨hjk, hj', hnode⟩ := hother hj
    rw [hpoint j hjk]
    exact h.cachedBy n ((hmem n hn).resolve_right hnode) j hj'

omit [DecidableEq θ] in
theorem clearIsUsed_of_live {block : ThreadMemoryBlock} (h : w.stackBlock node = .live block) :
    w.clearIsUsed node = .ok { w with
      stackBlock := update w.stackBlock node (.live { block with isUsed := false }) } := by
  unfold clearIsUsed
  rw [h]
  rfl

variable [Fintype θ]

theorem Inv.threadExit (h : w.Inv) (hp : w.point t = .leaving node) :
    Fine Inv (w.clearIsUsed node >>= fun w =>
      .ok ((w.setRecord t { w.record t with usesStack := none }).goto t .gone)) := by
  have hrecord := h.records t
  rw [hp] at hrecord
  have huses : (w.record t).usesStack = some node := hrecord.at_
  obtain ⟨size, hlive⟩ := h.stackBlocks.used t node huses
  have hself : ((w.setRecord t { w.record t with usesStack := none }).record t) = _ :=
    setRecord_record_self _
  rw [clearIsUsed_of_live hlive]
  refine h.of_step t hp rfl rfl (fun j hj => setRecord_record_of_ne hj) (fun _ _ => Iff.rfl)
    (fun hq => .inl hq) (fun hne => absurd rfl hne) ?_ ?_ (fun hne => absurd rfl hne)
    (fun _ _ => nofun) rfl (fun heq => ?_) fun _ _ _ => nofun
  · refine ThreadRecord.Inv.congr ?_ (joined_iff_of_update (w := w) rfl (by rw [hp]; rfl))
    change ((w.setRecord t _).record t).Inv (update w.point t _ t) _
    rw [hself, update_self]
    obtain ⟨htls, hexit, hheld, hreleased⟩ := hrecord.ended rfl
    refine ⟨nofun, fun _ => ⟨htls, hexit, hheld, hreleased⟩, fun hquiet => ?_, trivial⟩
    rcases hquiet with hquiet | hquiet <;> cases hquiet
  · refine h.stackBlocks.giveUp huses (fun j hj => setRecord_record_of_ne hj) ?_
      (fun j hj => update_of_ne hj _ _) rfl (fun n hn => .inl hn) h.stackBlocks.nodup
    exact congrArg ThreadRecord.usesStack hself
  · have hinitial := h.initial
    rw [← heq, hp] at hinitial
    cases hinitial

end

/-! ## The creation of a thread -/

section

variable {θ η ν : Type} [DecidableEq η] {w : ThreadWorld θ η ν} {node : η}

theorem StacksInv.replace (h : w.StacksInv) (c : Cell ThreadMemoryBlock)
    (hunused : ∀ k, (w.record k).usesStack ≠ some node) {l : List η}
    (hsub : l.Sublist w.threadStackBlocks) (hnot : node ∉ l) :
    StacksInv { w with threadStackBlocks := l, stackBlock := update w.stackBlock node c } := by
  refine ⟨fun k n hk => ?_, h.own, hsub.nodup h.nodup, fun n hn => ?_,
    fun n hn k hk => h.cachedBy n (hsub.subset hn) k hk⟩
  · have hne : n ≠ node := by
      rintro rfl
      exact hunused k hk
    change ∃ size, update w.stackBlock node c n = _
    rw [update_of_ne hne]
    exact h.used k n hk
  · have hne : n ≠ node := by
      rintro rfl
      exact hnot hn
    change ∃ b, update w.stackBlock node c n = _
    rw [update_of_ne hne]
    exact h.cached n (hsub.subset hn)

omit [DecidableEq η] in
theorem StacksInv.unused (h : w.StacksInv) (hused : ∀ size, w.stackBlock node ≠ .live ⟨size, true⟩) (k : θ) :
    (w.record k).usesStack ≠ some node := by
  intro hk
  obtain ⟨size, hlive⟩ := h.used k node hk
  exact hused size hlive

theorem StacksInv.releaseCached {l : List η} {s : η → Cell ThreadMemoryBlock}
    (h : StacksInv { w with threadStackBlocks := l, stackBlock := s }) :
    Fine (fun r => StacksInv { w with threadStackBlocks := r.1, stackBlock := r.2 })
      (releaseCached l s) := by
  induction l generalizing s with
  | nil => exact h
  | cons node rest ih =>
    rw [ThreadWorld.releaseCached]
    split_ifs
    · obtain ⟨⟨size, isUsed⟩, hlive⟩ := h.cached node List.mem_cons_self
      have hlive' : s node = .live ⟨size, isUsed⟩ := hlive
      rw [hlive']
      cases isUsed with
      | true => exact h
      | false =>
        refine ih (h.replace .freed (h.unused fun size' heq => ?_) (List.sublist_cons_self _ _)
          (List.nodup_cons.1 h.nodup).1)
        have heq' := hlive'.symm.trans heq
        cases heq'
    · exact h

omit [DecidableEq η] in
theorem StacksInv.take (h : w.StacksInv) {w' : ThreadWorld θ η ν} {child : θ}
    (hrecord : ∀ j ≠ child, w'.record j = w.record j) (huses : (w'.record child).usesStack = some node)
    (hpoint : ∀ j ≠ child, w'.point j = w.point j) (hblock : w'.stackBlock = w.stackBlock)
    (hcached : w'.threadStackBlocks = w.threadStackBlocks)
    (hnode : (∃ size, w.stackBlock node = .live ⟨size, true⟩) ∧
      (∀ k, (w.record k).usesStack ≠ some node) ∧ node ∉ w.threadStackBlocks) : w'.StacksInv := by
  obtain ⟨hlive, hunused, hnot⟩ := hnode
  have hcases : ∀ {j n}, (w'.record j).usesStack = some n →
      j = child ∧ n = node ∨ j ≠ child ∧ (w.record j).usesStack = some n := by
    intro j n hj
    by_cases hjc : j = child
    · rw [hjc, huses] at hj
      exact .inl ⟨hjc, (Option.some.inj hj).symm⟩
    · rw [hrecord j hjc] at hj
      exact .inr ⟨hjc, hj⟩
  refine ⟨fun k n hk => ?_, fun j k n hj hk => ?_, hcached ▸ h.nodup, fun n hn => ?_,
    fun n hn k hk => ?_⟩
  · rw [hblock]
    rcases hcases hk with ⟨-, rfl⟩ | ⟨-, hk'⟩
    · exact hlive
    · exact h.used k n hk'
  · rcases hcases hj with ⟨hj', rfl⟩ | ⟨-, hj'⟩
    · rcases hcases hk with ⟨hk', -⟩ | ⟨-, hk'⟩
      · exact hj'.trans hk'.symm
      · exact absurd hk' (hunused k)
    · rcases hcases hk with ⟨-, rfl⟩ | ⟨-, hk'⟩
      · exact absurd hj' (hunused j)
      · exact h.own j k n hj' hk'
  · rw [hcached] at hn
    rw [hblock]
    exact h.cached n hn
  · rw [hcached] at hn
    rcases hcases hk with ⟨-, rfl⟩ | ⟨hkc, hk'⟩
    · exact absurd hn hnot
    · rw [hpoint k hkc]
      exact h.cachedBy n hn k hk'

/-- What `nc_allocate_memory_block_mu` leaves: the block it returns is nobody else's. -/
structure Allocated (w : ThreadWorld θ η ν) (r : ThreadWorld θ η ν × Option η) : Prop where
  world : ∃ l s, r.1 = { w with threadStackBlocks := l, stackBlock := s }
  stackBlocks : r.1.StacksInv
  node : ∀ n, r.2 = some n → (∃ size, r.1.stackBlock n = .live ⟨size, true⟩) ∧
    (∀ k, (w.record k).usesStack ≠ some n) ∧ n ∉ r.1.threadStackBlocks

theorem StacksInv.mallocBlock {l : List η} {s : η → Cell ThreadMemoryBlock}
    (h : StacksInv { w with threadStackBlocks := l, stackBlock := s }) {requiredSize : ℤ}
    {stack : Option η} : Fine w.Allocated
      (ThreadWorld.mallocBlock { w with threadStackBlocks := l, stackBlock := s } requiredSize stack) := by
  cases stack with
  | none => exact ⟨⟨l, s, rfl⟩, h, fun _ => nofun⟩
  | some node =>
    rw [ThreadWorld.mallocBlock]
    split_ifs with hfresh
    · have hunused : ∀ k, (w.record k).usesStack ≠ some node := h.unused fun size heq => by
        rw [heq] at hfresh
        cases hfresh
      have hnot : node ∉ l := fun hmem => by
        obtain ⟨b, hlive⟩ := h.cached node hmem
        rw [hlive] at hfresh
        cases hfresh
      refine ⟨⟨_, _, rfl⟩, h.replace _ hunused (List.Sublist.refl _) hnot, fun n hn => ?_⟩
      cases hn
      exact ⟨⟨requiredSize, update_self _ _ _⟩, hunused, hnot⟩
    · rfl

theorem StacksInv.ncAllocateMemoryBlockMu (h : w.StacksInv) {requiredSize : ℤ} {stack : Option η} :
    Fine w.Allocated (w.ncAllocateMemoryBlockMu requiredSize stack) := by
  unfold ThreadWorld.ncAllocateMemoryBlockMu
  split
  · exact StacksInv.mallocBlock (l := w.threadStackBlocks) (s := w.stackBlock) h
  · next node rest hblocks =>
    obtain ⟨⟨size, isUsed⟩, hlive⟩ := h.cached node (hblocks ▸ List.mem_cons_self)
    rw [hlive]
    have hnodup := h.nodup
    rw [hblocks] at hnodup
    change Fine w.Allocated (if ¬ isUsed = true ∧ requiredSize ≤ size then _ else _)
    split_ifs with hreuse
    · have hunused : ∀ k, (w.record k).usesStack ≠ some node := h.unused fun size' heq => by
        rw [hlive] at heq
        cases heq
        exact hreuse.1 rfl
      have hnot : node ∉ rest := (List.nodup_cons.1 hnodup).1
      refine ⟨⟨_, _, rfl⟩, h.replace _ hunused (hblocks ▸ List.sublist_cons_self _ _) hnot,
        fun n hn => ?_⟩
      cases hn
      exact ⟨⟨size, update_self _ _ _⟩, hunused, hnot⟩
    · refine Fine.bind (StacksInv.releaseCached (l := w.threadStackBlocks) (s := w.stackBlock) h) ?_
      rintro ⟨l, s⟩ hreleased
      exact hreleased.mallocBlock

end

section

variable {θ η ν : Type} [DecidableEq θ] [Fintype θ] {w w' : ThreadWorld θ η ν} {t child : θ} {node : η}

omit [DecidableEq θ] in
theorem Inv.ne_initialThread (h : w.Inv) (hup : (w.point child).isUp = false) :
    child ≠ w.initialThread := by
  rintro rfl
  rw [h.initial] at hup
  cases hup

theorem Inv.finish_of_creating (child : θ) (h : w.Inv) (hp : w.point t = .creating child) {r : ThreadReturn θ ν}
    (hr : ∀ k v, r ≠ .joined k v) : (w.finish t r).Inv :=
  h.move (q := .running) hp rfl rfl rfl trivial fun _ k v heq =>
    hr k v (Prod.mk.inj (Option.some.inj heq)).2

theorem Inv.threadCreate (h : w.Inv) {started : Bool} (hsafe : w.Safe (.threadCreate t started)) :
    Fine Inv (w.threadCreate t started) := by
  unfold ThreadWorld.threadCreate
  split
  · next child hp =>
    split
    · next node hchild =>
      have hrecord := h.records child
      rw [hchild] at hrecord
      have hstack := h.hasStack child (h.ne_initialThread (by rw [hchild]; rfl)) (hchild ▸ rfl)
        (hchild ▸ rfl)
      have htc : t ≠ child := by
        rintro rfl
        rw [hp] at hchild
        cases hchild
      cases started with
      | true =>
        have hown := h.of_own hchild (w.record child) .running w.runningThreadsCounter rfl
          (hrecord.move rfl rfl rfl trivial) rfl (fun _ => nofun) (fun _ _ _ => hstack) rfl fun _ => rfl
        rw [setRecord_self] at hown
        refine hown.finish_of_creating child ?_ fun _ _ => nofun
        exact (update_of_ne htc _ _).trans hp
      | false =>
        have hnone : ¬ w.Joined child := fun ⟨u, hu⟩ => hsafe rfl child (by rw [hp]; rfl) u hu
        have hfailing : (w.record child).Inv (.failing node : ThreadPoint θ η ν) (w.Joined child) :=
          ⟨fun _ _ => hrecord.alive rfl rfl, nofun, fun _ => hnone, hrecord.at_⟩
        have hown := h.of_own hchild (w.record child) (.failing node) w.runningThreadsCounter rfl
          hfailing rfl (fun _ => nofun) (fun _ _ _ => hstack) rfl
          fun heq => absurd heq (h.ne_initialThread (by rw [hchild]; rfl))
        rw [setRecord_self] at hown
        exact hown
    · rfl
  · rfl

theorem Inv.uncount (h : w.Inv) (hchild : w.point child = .failing node) :
    Inv ({ w with runningThreadsCounter := w.runningThreadsCounter - 1 }.goto child
      (.releasing true true (some node))) := by
  have hrecord := h.records child
  rw [hchild] at hrecord
  obtain ⟨hbasic, joinable, joinWaiting, htls, -⟩ := hrecord.alive rfl rfl
  have hreleasing : (w.record child).Inv (.releasing true true (some node) : ThreadPoint θ η ν)
      (w.Joined child) :=
    ⟨nofun, nofun, fun _ => hrecord.quiet (.inr rfl), hrecord.at_, by rw [htls]; rfl,
      by rw [hbasic]; rfl, fun d hd => by rw [htls] at hd; cases hd; rfl⟩
  have hown := h.of_own hchild (w.record child) (.releasing true true (some node))
    (w.runningThreadsCounter - 1) rfl hreleasing rfl (fun _ => nofun) (fun _ => nofun)
    (by simp [ThreadPoint.counted]) fun heq => absurd heq (h.ne_initialThread (by rw [hchild]; rfl))
  rwa [setRecord_self] at hown

omit [Fintype θ] in
theorem releaseTls_of_at {tls basicData : Bool} {stackNode : Option η}
    (hat : (w.record child).At (.releasing tls basicData stackNode : ThreadPoint θ η ν)) :
    ∃ r, (if tls then w.ncReleaseTlsAllocation child else .ok w) = .ok (w.setRecord child r) ∧
      r.usesStack = stackNode ∧ r.tls.isLive = false ∧ r.basicData.isLive = basicData := by
  obtain ⟨huses, htls, hbasic, hpointer⟩ := hat
  cases tls with
  | false => exact ⟨w.record child, by rw [setRecord_self]; rfl, huses, htls, hbasic⟩
  | true =>
    obtain ⟨⟨joinable, joinWaiting, node, hasBasic⟩, hlive⟩ := Cell.exists_of_isLive htls
    obtain rfl : hasBasic = basicData := hpointer _ hlive
    rw [if_pos rfl]
    cases hasBasic with
    | true =>
      obtain ⟨b, hb⟩ := Cell.exists_of_isLive hbasic
      exact ⟨_, ncReleaseTlsAllocation_of_live hlive hb, huses, rfl, rfl⟩
    | false =>
      unfold ncReleaseTlsAllocation
      rw [hlive]
      exact ⟨_, rfl, huses, rfl, hbasic⟩

omit [Fintype θ] in
theorem releaseBasicData_of_isLive (w : ThreadWorld θ η ν) (child : θ) {basicData : Bool}
    {stackNode : Option η} {r : ThreadRecord η ν} (huses : r.usesStack = stackNode)
    (htls : r.tls.isLive = false) (hbasic : r.basicData.isLive = basicData) :
    ∃ r', (if basicData then (w.setRecord child r).ncReleaseBasicDataMu child
        else .ok (w.setRecord child r)) = .ok (w.setRecord child r') ∧ r'.usesStack = stackNode ∧
      r'.tls.isLive = false ∧ r'.basicData.isLive = false := by
  cases basicData with
  | false => exact ⟨r, rfl, huses, htls, hbasic⟩
  | true =>
    obtain ⟨b, hb⟩ := Cell.exists_of_isLive hbasic
    have hfree := ncReleaseBasicDataMu_of_live (w := w.setRecord child r) (t := child)
      (by rw [setRecord_record_self]; exact hb)
    rw [setRecord_setRecord, setRecord_record_self] at hfree
    exact ⟨_, hfree, huses, htls, rfl⟩

theorem Inv.releaseFailed [DecidableEq η] (h : w.Inv) {tls basicData : Bool} {stackNode : Option η}
    (hp : w.point t = .creating child) (hchild : w.point child = .releasing tls basicData stackNode) :
    Fine Inv (w.releaseFailed t child tls basicData stackNode) := by
  have hrecord := h.records child
  rw [hchild] at hrecord
  have hinitial : child ≠ w.initialThread := h.ne_initialThread (by rw [hchild]; rfl)
  have htc : t ≠ child := by
    rintro rfl
    rw [hp] at hchild
    cases hchild
  have hat := hrecord.at_
  obtain ⟨r₁, hok₁, huses₁, htls₁, hbasic₁⟩ := releaseTls_of_at hat
  obtain ⟨r₂, hok₂, huses₂, htls₂, hbasic₂⟩ := releaseBasicData_of_isLive w child huses₁ htls₁ hbasic₁
  have hfailed : ∀ r : ThreadRecord η ν, r.tls.isLive = false → r.basicData.isLive = false →
      r.Inv (.failed : ThreadPoint θ η ν) (w.Joined child) :=
    fun r htls hbasic => ⟨nofun, nofun, fun _ => hrecord.quiet (.inl rfl), htls, hbasic⟩
  unfold ThreadWorld.releaseFailed
  rw [hok₁]
  change Fine Inv ((if basicData then (w.setRecord child r₁).ncReleaseBasicDataMu child
    else .ok (w.setRecord child r₁)) >>= _)
  rw [hok₂]
  cases stackNode with
  | none =>
    have hown := h.of_own hchild r₂ .failed w.runningThreadsCounter rfl (hfailed r₂ htls₂ hbasic₂)
      (huses₂.trans hat.1.symm) (fun _ => nofun) (fun _ => nofun) rfl fun heq => absurd heq hinitial
    refine hown.finish_of_creating child ?_ fun _ _ => nofun
    exact (update_of_ne htc _ _).trans hp
  | some node =>
    obtain ⟨size, hlive⟩ := h.stackBlocks.used child node hat.1
    have hclear := clearIsUsed_of_live (w := w.setRecord child r₂) hlive
    change Fine Inv (((w.setRecord child r₂).clearIsUsed node >>= fun w =>
      .ok ((w.ncFreeMemoryBlockMu node).setRecord child { w.record child with usesStack := none })) >>=
        fun w => .ok ((w.goto child .failed).finish t (.status (.error .eagain))))
    rw [hclear]
    have hnot : node ∉ w.threadStackBlocks := fun hmem => by
      have hleaving := h.stackBlocks.cachedBy node hmem child hat.1
      rw [hchild] at hleaving
      cases hleaving
    refine Inv.finish_of_creating child ?_ ?_ fun _ _ => nofun
    · refine h.of_step child hchild rfl rfl (fun j hj => ?_) (fun _ _ => Iff.rfl) (fun hq => .inl hq)
        (fun hne => absurd rfl hne) ?_ ?_ (fun hne => absurd rfl hne) (fun _ => nofun) rfl
        (fun heq => absurd heq hinitial) fun _ _ _ => nofun
      · exact (update_of_ne hj _ _).trans (update_of_ne hj _ _)
      · refine ThreadRecord.Inv.congr ?_ (joined_iff_of_update (w := w) rfl (by rw [hchild]; rfl))
        change ThreadRecord.Inv _ (update w.point child .failed child) _
        rw [update_self]
        refine hfailed _ ?_ ?_
        · rw [setRecord_record_self]
          refine (congrArg (fun r : ThreadRecord η ν => r.tls.isLive) (setRecord_record_self _)).trans ?_
          exact htls₂
        · rw [setRecord_record_self]
          refine (congrArg (fun r : ThreadRecord η ν => r.basicData.isLive)
            (setRecord_record_self _)).trans ?_
          exact hbasic₂
      · refine h.stackBlocks.giveUp hat.1
          (fun j hj => (update_of_ne hj _ _).trans (update_of_ne hj _ _))
          (congrArg ThreadRecord.usesStack (setRecord_record_self _))
          (fun j hj => update_of_ne hj _ _) rfl (fun n hn => ?_) ?_
        · exact (List.mem_append.1 hn).imp_right List.mem_singleton.1
        · exact List.nodup_append.2 ⟨h.stackBlocks.nodup, List.nodup_singleton _, fun a ha b hb hab =>
            hnot (List.mem_singleton.1 hb ▸ hab ▸ ha)⟩
    · exact (update_of_ne htc _ _).trans hp

theorem Inv.createFailed [DecidableEq η] (h : w.Inv) (hp : w.point t = .creating child) :
    Fine Inv (w.createFailed t child) := by
  unfold ThreadWorld.createFailed
  split
  · next node hchild => exact h.uncount hchild
  · next tls basicData stackNode hchild => exact h.releaseFailed hp hchild
  · rfl

omit [DecidableEq θ] in
theorem Inv.of_stacks (h : w.Inv) {l : List η} {s : η → Cell ThreadMemoryBlock}
    (hstacks : StacksInv { w with threadStackBlocks := l, stackBlock := s }) :
    Inv { w with threadStackBlocks := l, stackBlock := s } :=
  ⟨h.records, h.oneJoiner, hstacks, h.hasStack, h.counter, h.initial, h.joined⟩

theorem Inv.notCreated (h : w.Inv) (hp : w.point t = .running) (hchild : w.point child = .fresh)
    (r : ThreadRecord η ν) (tls basicData : Bool) (huses : r.usesStack = none)
    (htls : r.tls.isLive = tls) (hbasic : r.basicData.isLive = basicData)
    (hpointer : ∀ d, r.tls = .live d → d.basicData = basicData) :
    Inv (((w.setRecord child r).goto child (.releasing tls basicData none)).goto t (.creating child)) := by
  have hrecord := h.records child
  rw [hchild] at hrecord
  have htc : t ≠ child := by
    rintro rfl
    rw [hp] at hchild
    cases hchild
  have hown := h.of_own hchild r (.releasing tls basicData none) w.runningThreadsCounter rfl
    ⟨nofun, nofun, fun _ => hrecord.quiet (.inl rfl), huses, htls, hbasic, hpointer⟩
    (huses.trans hrecord.at_.2.1.symm)
    (fun _ => nofun) (fun _ => nofun) rfl
    fun heq => absurd heq (h.ne_initialThread (by rw [hchild]; rfl))
  have hp' : (((w.setRecord child r).goto child (.releasing tls basicData none))).point t = .running :=
    (update_of_ne htc _ _).trans hp
  exact hown.move (q := .creating child) hp' rfl rfl rfl trivial fun _ _ _ => nofun

theorem Inv.created (h : w.Inv) (hp : w.point t = .running) (hchild : w.point child = .fresh)
    {joinable : Bool} {r : ThreadRecord η ν}
    (hr : r = { w.record child with
      createdDetached := !joinable
      basicData := .live ⟨none, false, true⟩
      tls := .live ⟨joinable, false, some node, true⟩
      usesStack := some node })
    (hnode : (∃ size, w.stackBlock node = .live ⟨size, true⟩) ∧
      (∀ k, (w.record k).usesStack ≠ some node) ∧ node ∉ w.threadStackBlocks) :
    Inv (({ w.setRecord child r with runningThreadsCounter := w.runningThreadsCounter + 1 }.goto child
      (.starting node)).goto t (.creating child)) := by
  have hrecord := h.records child
  rw [hchild] at hrecord
  obtain ⟨hsucceeded, -⟩ := hrecord.at_
  have hnone := hrecord.quiet (.inl rfl)
  have htc : t ≠ child := by
    rintro rfl
    rw [hp] at hchild
    cases hchild
  have huses : r.usesStack = some node := by rw [hr]
  have hself : (w.setRecord child r).record child = r := setRecord_record_self r
  have hstarting : r.Inv (.starting node : ThreadPoint θ η ν) (w.Joined child) := by
    subst hr
    refine ⟨fun _ _ => ⟨rfl, joinable, false, rfl, iff_of_false nofun hnone, fun hj => absurd hj hnone,
      fun _ => ?_⟩, nofun, fun _ => hnone, rfl⟩
    unfold ThreadRecord.Attached
    dsimp only
    rw [hsucceeded]
    cases joinable with
    | true => exact iff_of_true rfl ⟨rfl, rfl⟩
    | false => exact iff_of_false nofun fun hattached => nomatch hattached.1
  have hfirst : Inv ({ w.setRecord child r with
      runningThreadsCounter := w.runningThreadsCounter + 1 }.goto child (.starting node)) := by
    refine h.of_step child hchild rfl rfl (fun j hj => setRecord_record_of_ne hj) (fun _ _ => Iff.rfl)
      (fun hq => .inl hq) (fun hne => absurd rfl hne) ?_ ?_ (fun hne => absurd rfl hne)
      (fun _ _ _ => ?_) (by simp [ThreadPoint.counted, goto, setRecord])
      (fun heq => absurd heq (h.ne_initialThread (by rw [hchild]; rfl))) fun _ _ _ => nofun
    · refine ThreadRecord.Inv.congr ?_ (joined_iff_of_update (w := w) rfl (by rw [hchild]; rfl))
      change ((w.setRecord child r).record child).Inv (update w.point child _ child) _
      rw [hself, update_self]
      exact hstarting
    · exact h.stackBlocks.take (fun j hj => setRecord_record_of_ne hj)
        ((congrArg ThreadRecord.usesStack hself).trans huses) (fun j hj => update_of_ne hj _ _)
        rfl rfl hnode
    · change ((w.setRecord child r).record child).usesStack ≠ none
      rw [hself, huses]
      exact nofun
  exact hfirst.move (q := .creating child) ((update_of_ne htc _ _).trans hp) rfl rfl rfl trivial
    fun _ _ _ => nofun

theorem Inv.pthreadCreate [DecidableEq η] (h : w.Inv) (hp : w.point t = .running)
    (hchild : w.point child = .fresh) {joinable : Bool} {requiredSize : ℤ} {tls basicData : Bool}
    {stack : Option η} :
    Fine Inv (w.pthreadCreate t child joinable requiredSize tls basicData stack) := by
  have hrecord := h.records child
  rw [hchild] at hrecord
  obtain ⟨-, huses, htls, hbasic⟩ := hrecord.at_
  unfold ThreadWorld.pthreadCreate
  dsimp only
  cases tls with
  | false =>
    have hnot := h.notCreated hp hchild (w.record child) false false huses htls hbasic
      fun d hd => by rw [hd] at htls; cases htls
    rw [setRecord_self] at hnot
    exact hnot
  | true =>
    cases basicData with
    | false =>
      exact h.notCreated hp hchild { w.record child with
        createdDetached := !joinable, tls := .live ⟨joinable, false, none, false⟩ } true false huses
        rfl hbasic fun d hd => by cases hd; rfl
    | true =>
      change Fine Inv (w.ncAllocateMemoryBlockMu requiredSize stack >>= _)
      refine Fine.bind h.stackBlocks.ncAllocateMemoryBlockMu ?_
      rintro ⟨w₁, node⟩ ⟨⟨l, s, rfl⟩, hstacks, hnode⟩
      have h₁ := h.of_stacks hstacks
      cases node with
      | none =>
        exact h₁.notCreated hp hchild { w.record child with
          createdDetached := !joinable
          basicData := .live ⟨none, false, true⟩
          tls := .live ⟨joinable, false, none, true⟩ } true true huses rfl rfl
          fun d hd => by cases hd; rfl
      | some node => exact h₁.created hp hchild rfl (hnode node rfl)

/-! ## The runs -/

theorem Inv.step [DecidableEq η] (h : w.Inv) {a : ThreadAction θ η ν} (hpermitted : w.Permitted a)
    (hsafe : w.Safe a) : Fine Inv (w.step a) := by
  cases a with
  | pthreadCreate t child joinable requiredSize tls basicData stack =>
    rw [ThreadWorld.step]
    split
    · next hp hchild => exact h.pthreadCreate hp hchild
    · rfl
  | threadCreate t started => exact h.threadCreate hsafe
  | pthreadExit t retval =>
    rw [ThreadWorld.step]
    split
    · next hp => exact h.pthreadExit hp retval
    · rfl
  | pthreadJoin t target =>
    rw [ThreadWorld.step]
    split
    · next hp => exact h.pthreadJoin hp hpermitted hsafe
    · rfl
  | pthreadDetach t target =>
    rw [ThreadWorld.step]
    split
    · next hp => exact h.pthreadDetach hp hpermitted hsafe
    · rfl
  | next t woken =>
    rw [ThreadWorld.step]
    split
    · next child hp => exact h.createFailed hp
    · next target hp => exact h.joinLoop hp
    · next retval hp => exact h.exitDecrement hp
    · next retval hp => exact h.exitRelease hp
    · next node hp => exact h.threadExit hp
    · rfl
  | wake t =>
    rw [ThreadWorld.step]
    split
    · next target hp => exact h.move (q := .joinWoken target) hp rfl rfl rfl trivial fun _ _ _ => nofun
    · next retval hp =>
      have hat := (h.records t).at_
      rw [hp] at hat
      exact h.move (q := .exiting retval) hp rfl rfl rfl hat fun _ _ _ => nofun
    · rfl

theorem inv_init (initialThread : θ) : (init initialThread : ThreadWorld θ η ν).Inv := by
  have hpoint : ∀ k, (init initialThread : ThreadWorld θ η ν).point k =
      if k = initialThread then .running else .fresh := fun _ => rfl
  have hrecord : ∀ k, (init initialThread : ThreadWorld θ η ν).record k =
      if k = initialThread then
        ⟨.live ⟨none, false, true⟩, .live ⟨true, false, none, true⟩, none, false, false, none⟩
      else ⟨.fresh, .fresh, none, false, false, none⟩ := fun _ => rfl
  have hnone : ∀ k, ¬ Joined (init initialThread : ThreadWorld θ η ν) k := by
    rintro k ⟨u, hu⟩
    rw [hpoint] at hu
    split_ifs at hu <;> cases hu
  have huses : ∀ k, ((init initialThread : ThreadWorld θ η ν).record k).usesStack = none := by
    intro k
    rw [hrecord]
    split_ifs <;> rfl
  refine ⟨fun k => ?_, fun t u k ht _ => absurd ⟨t, ht⟩ (hnone k), ⟨fun k n hk => ?_, fun j k n hj => ?_,
    List.nodup_nil, nofun, nofun⟩, fun k hk hpub => ?_, ?_, ?_, fun _ _ _ => nofun⟩
  · rw [hpoint, hrecord]
    split_ifs
    · refine ⟨fun _ _ => ⟨rfl, true, false, rfl, iff_of_false nofun (hnone k), fun _ => rfl,
        fun _ => iff_of_true rfl ⟨rfl, rfl⟩⟩, nofun, fun _ => hnone k, trivial⟩
    · exact ⟨nofun, nofun, fun _ => hnone k, rfl, rfl, rfl, rfl⟩
  · rw [huses] at hk
    cases hk
  · rw [huses] at hj
    cases hj
  · rw [hpoint, if_neg (show k ≠ initialThread from hk)] at hpub
    cases hpub
  · have hupdate : (init initialThread : ThreadWorld θ η ν).point =
        update (fun _ => .fresh) initialThread .running := by
      funext k
      rw [hpoint, update_apply]
    have hcount := count_update_add ThreadPoint.counted (fun _ => (.fresh : ThreadPoint θ η ν))
      initialThread .running
    have hzero : count ThreadPoint.counted (fun _ : θ => (.fresh : ThreadPoint θ η ν)) = 0 :=
      count_eq_zero fun _ => rfl
    rw [hzero] at hcount
    rw [hupdate]
    exact congrArg Nat.cast hcount.symm
  · change (if initialThread = initialThread then ThreadPoint.running else .fresh).isUp = true
    rw [if_pos rfl]
    rfl

/-- What holds in a state that a run has reached. -/
structure Sound (w : ThreadWorld θ η ν) : Prop where
  /-- A join that succeeds returns what was passed to `pthread_exit`. -/
  joined : ∀ t k v, w.returned = some (t, .joined k v) → v ≠ none ∧ v = (w.record k).exitValue
  counter : w.runningThreadsCounter =
    1 + (Finset.univ.filter fun k => k ≠ w.initialThread ∧ (w.point k).counted = true).card
  kept : ∀ k, (w.point k).unpublished = false → (w.point k).ended = false →
    (w.record k).tls.isLive = true ∧ (w.record k).basicData.isLive = true
  tlsFreed : ∀ k, (w.point k).ended = true → (w.record k).tls = .freed
  /-- `basic_data` stays for as long as a join waits or may still come. -/
  basicDataKept : ∀ k, (w.point k).ended = true → w.Joined k ∨ (w.record k).Attached →
    (w.record k).basicData.isLive = true
  basicDataFreed : ∀ k, (w.point k).ended = true → ¬ w.Joined k → ¬ (w.record k).Attached →
    (w.record k).basicData = .freed
  failed : ∀ k, w.point k = .failed →
    (w.record k).tls.isLive = false ∧ (w.record k).basicData.isLive = false
  /-- A stack block is not freed or used again as long as its thread has not cleared `is_used`. -/
  ownStack : ∀ k n, (w.record k).usesStack = some n → (∃ size, w.stackBlock n = .live ⟨size, true⟩) ∧
    ∀ j, (w.record j).usesStack = some n → j = k
  hasStack : ∀ k ≠ w.initialThread, (w.point k).unpublished = false → w.point k ≠ .gone →
    (w.record k).usesStack ≠ none

theorem Inv.sound (h : w.Inv) : w.Sound := by
  refine ⟨h.joined, ?_, fun k hpub hend => ?_, fun k hend => ((h.records k).ended hend).tls,
    fun k hend hheld => ?_, fun k hend => ((h.records k).ended hend).released, fun k hk => ?_,
    fun k n hk => ⟨h.stackBlocks.used k n hk, fun j hj => h.stackBlocks.own j k n hj hk⟩,
    fun k hk hpub hgone => ?_⟩
  · have hmem : w.initialThread ∈ Finset.univ.filter fun k => (w.point k).counted = true :=
      Finset.mem_filter.2 ⟨Finset.mem_univ _, (ThreadPoint.isUp_facts h.initial).2.2.2.1⟩
    have hothers : (Finset.univ.filter fun k => k ≠ w.initialThread ∧ (w.point k).counted = true) =
        (Finset.univ.filter fun k => (w.point k).counted = true).erase w.initialThread := by
      ext k
      simp
    have hcard := Finset.card_erase_add_one hmem
    rw [h.counter, hothers]
    unfold count
    omega
  · obtain ⟨hbasic, joinable, joinWaiting, htls, -⟩ := (h.records k).alive hpub hend
    rw [hbasic, htls]
    exact ⟨rfl, rfl⟩
  · rw [((h.records k).ended hend).held hheld]
    rfl
  · have hat := (h.records k).at_
    rwa [hk] at hat
  · have hat := (h.records k).at_
    cases hend : (w.point k).ended with
    | false => exact h.hasStack k hk hpub hend
    | true =>
      cases hpoint : w.point k with
      | leaving node =>
        rw [hpoint] at hat
        rw [show (w.record k).usesStack = some node from hat]
        exact nofun
      | gone => exact absurd hpoint hgone
      | _ =>
        rw [hpoint] at hend
        cases hend

/-- Whatever the order of the threads' sections, no call uses what is freed or frees it again, as long as
each step is safe. -/
theorem threadSound_of_run [DecidableEq η] {initialThread : θ} {run : List (ThreadAction θ η ν)}
    (hsafe : Guarded step (fun w a => w.Permitted a ∧ w.Safe a) (init initialThread) run) :
    Fine Sound (run.foldlM step (init initialThread)) := by
  have hinv : Fine Inv (run.foldlM step (init initialThread : ThreadWorld θ η ν)) :=
    hsafe.result (fun w a (h : w.Inv) hok => h.step hok.1 hok.2) (inv_init initialThread)
  exact hinv.imp fun w h => h.sound

end

local instance neZeroThreads : NeZero 3 := ⟨by decide⟩

/-- A thread is created, passes 7 to `pthread_exit` and is joined. -/
def joinRun : List (ThreadAction (Fin 3) ℕ ℕ) :=
  [.pthreadCreate 0 1 true 65536 true true (some 0), .threadCreate 0 true, .pthreadJoin 0 1,
    .pthreadExit 1 7, .next 1 none, .next 1 (some 0), .next 1 none, .next 0 none]

theorem threadSound_of_run_join : ∃ w, joinRun.foldlM step (init 0) = .ok w ∧
    w.returned = some (0, .joined 1 (some 7)) ∧ Fine Sound (joinRun.foldlM step (init 0)) := by
  obtain ⟨w, hrun, hreturned⟩ := Runs.exists_ok_of_check
    (P := fun w : ThreadWorld (Fin 3) ℕ ℕ => w.returned = some (0, .joined 1 (some 7)))
    (fun w => w.returned = some (0, .joined 1 (some 7)))
    (fun _ hcheck => of_decide_eq_true hcheck) (x := joinRun.foldlM step (init 0))
    (by decide +kernel)
  exact ⟨w, hrun, hreturned, threadSound_of_run (Guarded.of_check (by decide +kernel))⟩

/-- After the exit of a thread that is being joined, and before the joiner has woken up, the thread is joined
a second time. -/
def secondJoinRun : List (ThreadAction (Fin 3) ℕ ℕ) :=
  [.pthreadCreate 0 1 true 65536 true true (some 0), .threadCreate 0 true,
    .pthreadCreate 0 2 true 65536 true true (some 1), .threadCreate 0 true, .pthreadJoin 2 1,
    .pthreadExit 1 7, .next 1 none, .next 1 (some 2), .pthreadJoin 0 1, .next 2 none]

/-- The joiner finds `basic_data` freed. -/
theorem not_threadSound : ¬ ∀ run : List (ThreadAction (Fin 3) ℕ ℕ),
    Guarded step Permitted (init 0) run → Fine Sound (run.foldlM step (init 0)) := by
  intro hclaim
  have hfine := hclaim secondJoinRun (Guarded.of_check (by decide +kernel))
  have hfault : (match secondJoinRun.foldlM step (init 0) with
      | .error e => decide (e = .useAfterFree)
      | .ok _ => false) = true := by
    decide +kernel
  cases hrun : secondJoinRun.foldlM step (init 0) with
  | error e =>
    rw [hrun] at hfine hfault
    rw [of_decide_eq_true hfault] at hfine
    cases hfine
  | ok w =>
    rw [hrun] at hfault
    cases hfault

end ThreadWorld

end SandboxingNaCl
