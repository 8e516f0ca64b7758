import SandboxingNaCl.Lib.LinkedRing
import SandboxingNaCl.Lib.Runs
import SandboxingNaCl.Service.AddressSpace
import Mathlib.Data.List.Perm.Subperm

/-!
# Futexes

The portable implementation of `sys_futex.c`.  The waiting threads are linked into one circular list,
which `futex_wait_list_mu` protects; a step is the part of a call that runs under the mutex, cut where
the mutex is held but the list has not been touched yet.
-/

namespace SandboxingNaCl

open Runs Function

/-- `NACL_THREAD_MAX`; the index 0 is not given to a thread. -/
def naclThreadMax : ℕ := 8192

/-- The head of the list and the node `futex_wait_list_node` of each thread. -/
inductive NaClListNode
  | head
  | thread (natp : ℕ)
deriving DecidableEq

/-- `GetNaClAppThreadFromListNode`; the head belongs to no thread. -/
def getNaClAppThreadFromListNode : NaClListNode → Option ℕ
  | .head => none
  | .thread natp => some natp

inductive NaClSyncStatus
  | ok | internalError | busy | mutexInvalid | mutexDeadlock | mutexPermission | mutexInterrupted
  | condvarTimedout | condvarIntr | semInterrupted | semRangeError
deriving DecidableEq

/-- `NaClXlateNaClSyncStatus`; `none` is its fatal error. -/
def naclXlateNaClSyncStatus : NaClSyncStatus → Option ℤ
  | .ok => some 0
  | .internalError => none
  | .busy => some 16
  | .mutexInvalid => some 22
  | .mutexDeadlock => some 35
  | .mutexPermission => some 1
  | .mutexInterrupted | .condvarIntr | .semInterrupted => some 4
  | .condvarTimedout => some 110
  | .semRangeError => some 34

def naclAbiEwouldblock : ℤ := 11

def naclAbiEfault : ℤ := 14

/-- Where a thread is in `NaClSysFutexWaitAbs`. -/
inductive FutexPoint
  | running
  /-- Before `NaClXMutexLock`. -/
  | entered (addr value : BitVec 32)
  | compared (addr : BitVec 32)
  /-- In `NaClCondVarWait` or `NaClCondVarTimedWaitAbsolute`. -/
  | waiting
deriving DecidableEq

/-- What happens to a thread in the list. -/
inductive FutexEvent
  | queued (natp : ℕ) (addr : BitVec 32)
  /-- `NaClSysFutexWake` has taken the thread out. -/
  | removed (natp : ℕ)
  | returned (natp : ℕ)

def FutexEvent.natp : FutexEvent → ℕ
  | .queued natp _ | .removed natp | .returned natp => natp

/-- Why a step is not possible. -/
inductive FutexRefusal
  | blocked
  /-- `NaClLog(LOG_FATAL, ...)`. -/
  | fatal
  /-- A pointer that is null, or to no thread, is followed. -/
  | badPointer
  /-- The loop of `NaClSysFutexWake` goes around without end. -/
  | endless

/-- The threads with their fields, the list, and the memory of the sandbox by user address.
`returned` is the call that the last step has ended; `history` lists the events of the run, the latest
first. -/
structure FutexWorld where
  space : AddressSpace
  memory : ℕ → BitVec 8
  live : List ℕ
  futexWaitListMu : Option ℕ
  links : Links NaClListNode
  futexWaitAddr : ℕ → BitVec 32
  /-- `futex_condvar` has been signalled. -/
  signalled : ℕ → Bool
  point : ℕ → FutexPoint
  returned : Option (ℕ × ℤ)
  history : List FutexEvent

/-- What a thread does next. -/
inductive FutexAction
  | spawn (natp : ℕ) (next prev : Option NaClListNode) (addr : BitVec 32)
  | exit (natp : ℕ)
  | store (addr : ℕ) (byte : BitVec 8)
  | futexWaitAbs (natp : ℕ) (addr value abstimePtr : BitVec 32)
  | lock (natp : ℕ)
  | enqueue (natp : ℕ)
  /-- The wait on the condition variable ends, because of a signal, at the timeout or without a reason,
  with the mutex taken again. -/
  | resume (natp : ℕ) (status : NaClSyncStatus)
  | futexWake (natp : ℕ) (addr nwake : BitVec 32)

namespace FutexWorld

def naclCopyInFromUser (w : FutexWorld) (srcUsrAddr numBytes : ℕ) : Option (List (BitVec 8)) :=
  if naclUserToSysAddrRange w.space srcUsrAddr numBytes = kNaClBadAddress then none
  else some ((List.range numBytes).map fun i => w.memory (srcUsrAddr + i))

/-- The bytes of a `uint32_t`. -/
def uint32Bytes (value : BitVec 32) : List (BitVec 8) :=
  (List.range 4).map fun i => value.extractLsb' (8 * i) 8

def goto (w : FutexWorld) (natp : ℕ) (point : FutexPoint) : FutexWorld :=
  { w with point := Function.update w.point natp point, returned := none }

def finish (w : FutexWorld) (natp : ℕ) (result : ℤ) : FutexWorld :=
  { w with point := Function.update w.point natp .running, returned := some (natp, result) }

/-- The pointers of the node are cleared, and the address. -/
def clearFields (w : FutexWorld) (natp : ℕ) : FutexWorld :=
  { w with
    links := w.links.clear (.thread natp)
    futexWaitAddr := Function.update w.futexWaitAddr natp 0 }

/-- `NaClSysFutexWaitAbs` up to `NaClXMutexLock`; a `nacl_abi_timespec` has 16 bytes. -/
def naclSysFutexWaitAbs (w : FutexWorld) (natp : ℕ) (addr value abstimePtr : BitVec 32) :
    FutexWorld :=
  if abstimePtr ≠ 0 ∧ w.naclCopyInFromUser abstimePtr.toNat 16 = none then
    w.finish natp (-naclAbiEfault)
  else
    w.goto natp (.entered addr value)

/-- `NaClSysFutexWaitAbs` from `NaClXMutexLock` to the comparison. -/
def compare (w : FutexWorld) (natp : ℕ) (addr value : BitVec 32) : FutexWorld :=
  match w.naclCopyInFromUser addr.toNat 4 with
  | none => w.finish natp (-naclAbiEfault)
  | some readValue =>
    if readValue ≠ uint32Bytes value then
      w.finish natp (-naclAbiEwouldblock)
    else
      { w with futexWaitListMu := some natp }.goto natp (.compared addr)

/-- `NaClSysFutexWaitAbs` from the comparison to the wait on the condition variable, which gives the
mutex back. -/
def enqueue (w : FutexWorld) (natp : ℕ) (addr : BitVec 32) : Except FutexRefusal FutexWorld :=
  match w.links.addAtEnd (.thread natp) .head with
  | none => .error .badPointer
  | some links =>
    .ok ({ w with
      links
      futexWaitAddr := Function.update w.futexWaitAddr natp addr
      futexWaitListMu := none
      signalled := Function.update w.signalled natp false
      history := .queued natp addr :: w.history }.goto natp .waiting)

/-- `NaClSysFutexWaitAbs` from the end of the wait on the condition variable. -/
def resume (w : FutexWorld) (natp : ℕ) (syncStatus : NaClSyncStatus) :
    Except FutexRefusal FutexWorld :=
  match naclXlateNaClSyncStatus syncStatus with
  | none => .error .fatal
  | some error =>
    if w.links.next (.thread natp) = none then
      .ok ({ w with history := .returned natp :: w.history }.clearFields natp |>.finish natp 0)
    else
      match w.links.remove (.thread natp) with
      | none => .error .badPointer
      | some links =>
        .ok ({ w with links, history := .returned natp :: w.history }.clearFields natp |>.finish
          natp (-error))

/-- A thread is taken out of the list by `NaClSysFutexWake`. -/
def wakeThread (w : FutexWorld) (natp : ℕ) : Except FutexRefusal FutexWorld :=
  match w.links.remove (.thread natp) with
  | none => .error .badPointer
  | some links =>
    .ok ({ w with
      links
      signalled := Function.update w.signalled natp true
      history := .removed natp :: w.history }.clearFields natp)

/-- The loop of `NaClSysFutexWake`, with a bound on the number of its rounds. -/
def wakeLoop (addr : BitVec 32) :
    ℕ → FutexWorld → Option NaClListNode → (nwake wokenCount : BitVec 32) →
      Except FutexRefusal (FutexWorld × BitVec 32)
  | 0, _, _, _, _ => .error .endless
  | fuel + 1, w, entry, nwake, wokenCount =>
    if 0 < nwake ∧ entry ≠ some .head then
      match entry.bind getNaClAppThreadFromListNode with
      | none => .error .badPointer
      | some waitingThread =>
        let next := w.links.next (.thread waitingThread)
        if w.futexWaitAddr waitingThread = addr then
          (w.wakeThread waitingThread).bind fun w =>
            wakeLoop addr fuel w next (nwake - 1) (wokenCount + 1)
        else
          wakeLoop addr fuel w next nwake wokenCount
    else
      .ok (w, wokenCount)

/-- `NaClSysFutexWake`.  No thread is in the list twice, so that the loop ends. -/
def naclSysFutexWake (w : FutexWorld) (natp : ℕ) (addr nwake : BitVec 32) :
    Except FutexRefusal FutexWorld :=
  (wakeLoop addr (w.live.length + 1) w (w.links.next .head) nwake 0).map fun (w, wokenCount) =>
    w.finish natp wokenCount.toInt

def step (w : FutexWorld) : FutexAction → Except FutexRefusal FutexWorld
  | .spawn natp next prev addr =>
    if natp ∈ w.live ∨ naclThreadMax ≤ w.live.length + 1 then .error .blocked
    else
      .ok { w with
        live := natp :: w.live
        links := (w.links.setNext (.thread natp) next).setPrev (.thread natp) prev
        futexWaitAddr := Function.update w.futexWaitAddr natp addr
        returned := none }
  | .exit natp =>
    if natp ∈ w.live ∧ w.point natp = .running then
      .ok { w with live := w.live.erase natp, returned := none }
    else .error .blocked
  | .store addr byte => .ok { w with memory := Function.update w.memory addr byte, returned := none }
  | .futexWaitAbs natp addr value abstimePtr =>
    if natp ∈ w.live ∧ w.point natp = .running then
      .ok (w.naclSysFutexWaitAbs natp addr value abstimePtr)
    else .error .blocked
  | .lock natp =>
    match w.point natp with
    | .entered addr value =>
      if w.futexWaitListMu = none then .ok (w.compare natp addr value) else .error .blocked
    | _ => .error .blocked
  | .enqueue natp =>
    match w.point natp with
    | .compared addr => w.enqueue natp addr
    | _ => .error .blocked
  | .resume natp status =>
    if w.point natp = .waiting ∧ w.futexWaitListMu = none then w.resume natp status
    else .error .blocked
  | .futexWake natp addr nwake =>
    if natp ∈ w.live ∧ w.point natp = .running ∧ w.futexWaitListMu = none then
      w.naclSysFutexWake natp addr nwake
    else .error .blocked

/-- The list as the constructor of `NaClApp` leaves it, and no thread. -/
structure Initial (w : FutexWorld) : Prop where
  live : w.live = []
  futexWaitListMu : w.futexWaitListMu = none
  next : w.links.next .head = some .head
  prev : w.links.prev .head = some .head
  point : ∀ natp, w.point natp = .running
  history : w.history = []

end FutexWorld

/-! ## The queue of a history -/

def latestEvent (natp : ℕ) (history : List FutexEvent) : Option FutexEvent :=
  history.find? (·.natp = natp)

def FutexEvent.place : FutexEvent → List (ℕ × BitVec 32)
  | .queued natp addr => [(natp, addr)]
  | .removed _ | .returned _ => []

/-- The threads that still wait, each with its address, in the order they were queued: an event ends
what the earlier ones of its thread have begun. -/
def stillWaiting : List FutexEvent → List (ℕ × BitVec 32)
  | [] => []
  | e :: history => (stillWaiting history).filter (·.1 ≠ e.natp) ++ e.place

section

variable {e : FutexEvent} {history : List FutexEvent} {natp : ℕ} {p : ℕ × BitVec 32}

theorem latestEvent_cons (e : FutexEvent) (history : List FutexEvent) (natp : ℕ) :
    latestEvent natp (e :: history) = if e.natp = natp then some e else latestEvent natp history := by
  unfold latestEvent
  rw [List.find?_cons]
  by_cases h : e.natp = natp <;> simp [h]

theorem mem_place_iff : p ∈ e.place ↔ e = .queued p.1 p.2 := by
  cases e <;> simp [FutexEvent.place, Prod.ext_iff, eq_comm]

theorem mem_stillWaiting_iff : p ∈ stillWaiting history ↔
    latestEvent p.1 history = some (.queued p.1 p.2) := by
  induction history with
  | nil => simp [stillWaiting, latestEvent]
  | cons e history ih =>
    rw [stillWaiting, List.mem_append, List.mem_filter, ih, mem_place_iff, latestEvent_cons]
    by_cases h : e.natp = p.1
    · simp [h]
    · have hne : e ≠ .queued p.1 p.2 := fun heq => h (by rw [heq]; rfl)
      simp [h, hne, Ne.symm h]

theorem nodup_stillWaiting (history : List FutexEvent) :
    ((stillWaiting history).map Prod.fst).Nodup := by
  induction history with
  | nil => exact List.nodup_nil
  | cons e history ih =>
    rw [stillWaiting, List.map_append]
    refine List.nodup_append.2 ⟨ih.sublist (List.filter_sublist.map _), ?_, ?_⟩
    · cases e <;> simp [FutexEvent.place]
    · intro a ha b hb hab
      obtain ⟨p, hp, rfl⟩ := List.mem_map.1 ha
      obtain ⟨q, hq, rfl⟩ := List.mem_map.1 hb
      rw [mem_place_iff] at hq
      have hpne : p.1 ≠ e.natp := by simpa using (List.mem_filter.1 hp).2
      rw [hq] at hpne
      exact hpne hab

theorem stillWaiting_queued (h : natp ∉ (stillWaiting history).map Prod.fst) (addr : BitVec 32) :
    stillWaiting (.queued natp addr :: history) = stillWaiting history ++ [(natp, addr)] := by
  rw [stillWaiting, FutexEvent.place, List.filter_eq_self.2]
  intro p hp
  have hpne : p.1 ≠ natp := fun heq => h (List.mem_map.2 ⟨p, hp, heq⟩)
  exact decide_eq_true hpne

theorem filter_ne_of_split {l₁ l₂ : List (ℕ × BitVec 32)}
    (h : ((l₁ ++ p :: l₂).map Prod.fst).Nodup) :
    (l₁ ++ p :: l₂).filter (·.1 ≠ p.1) = l₁ ++ l₂ := by
  rw [List.map_append, List.map_cons] at h
  obtain ⟨-, hright, hdisj⟩ := List.nodup_append.1 h
  rw [List.filter_append, List.filter_cons_of_neg (by simp), List.filter_eq_self.2,
    List.filter_eq_self.2]
  · intro q hq
    have hne : q.1 ≠ p.1 := fun heq => (List.nodup_cons.1 hright).1 (heq ▸ List.mem_map_of_mem hq)
    simpa using hne
  · intro q hq
    have hne : q.1 ≠ p.1 := hdisj _ (List.mem_map_of_mem hq) _ List.mem_cons_self
    simpa using hne

theorem stillWaiting_removed (l : List (ℕ × BitVec 32)) (history : List FutexEvent) :
    stillWaiting ((l.map fun p => .removed p.1).reverse ++ history) =
      (stillWaiting history).filter (·.1 ∉ l.map Prod.fst) := by
  induction l generalizing history with
  | nil => simp
  | cons p l ih =>
    rw [List.map_cons, List.reverse_cons, List.append_assoc, List.singleton_append, ih, stillWaiting,
      FutexEvent.place, List.append_nil, List.filter_filter]
    refine List.filter_congr fun q _ => ?_
    show (decide (q.1 ∉ l.map Prod.fst) && decide (q.1 ≠ p.1)) =
      decide (q.1 ∉ p.1 :: l.map Prod.fst)
    rw [← Bool.decide_and]
    refine decide_eq_decide.2 ?_
    rw [List.mem_cons, not_or, and_comm]

end

namespace FutexWorld

def queue (w : FutexWorld) : List (ℕ × BitVec 32) := stillWaiting w.history

def waitList (queue : List (ℕ × BitVec 32)) : List NaClListNode := queue.map fun p => .thread p.1

/-- What a thread finds after its last event. -/
def EventSound (w : FutexWorld) (natp : ℕ) : Option FutexEvent → Prop
  | some (.queued _ addr) => w.point natp = .waiting ∧ w.futexWaitAddr natp = addr
  | some (.removed _) =>
    w.point natp = .waiting ∧ w.links.next (.thread natp) = none ∧ w.signalled natp = true
  | _ => w.point natp ≠ .waiting

/-- The list links the threads that wait; the mutex is held from a comparison on. -/
structure Inv (w : FutexWorld) : Prop where
  live : w.live.length < naclThreadMax
  alive : ∀ natp, w.point natp ≠ .running → natp ∈ w.live
  mutex : ∀ natp, (∃ addr, w.point natp = .compared addr) ↔ w.futexWaitListMu = some natp
  ring : w.links.Ring .head (waitList w.queue)
  events : ∀ natp, w.EventSound natp (latestEvent natp w.history)

section

variable {w w' : FutexWorld} {natp t : ℕ} {addr : BitVec 32} {point : FutexPoint} {e : FutexEvent}
  {history : List FutexEvent}

theorem latestEvent_natp (h : latestEvent natp history = some e) : e.natp = natp := by
  simpa using List.find?_some h

def firstEntry : List (ℕ × BitVec 32) → NaClListNode
  | [] => .head
  | p :: _ => .thread p.1

theorem next_of_split {links : Links NaClListNode} {l₁ l₂ : List (ℕ × BitVec 32)}
    (h : links.Ring .head (waitList (l₁ ++ (natp, addr) :: l₂))) :
    links.next (.thread natp) = some (firstEntry l₂) := by
  unfold waitList at h
  rw [List.map_append, List.map_cons] at h
  rw [h.next_append]
  cases l₂ <;> rfl

theorem next_head_of_ring {links : Links NaClListNode} {l : List (ℕ × BitVec 32)}
    (h : links.Ring .head (waitList l)) : links.next .head = some (firstEntry l) := by
  cases l with
  | nil => exact (Links.ring_nil_iff.1 h).1
  | cons p l => exact h.next_head

theorem mem_waitList_iff {queue : List (ℕ × BitVec 32)} :
    NaClListNode.thread natp ∈ waitList queue ↔ natp ∈ queue.map Prod.fst := by
  simp [waitList]

theorem mem_queue_iff : (natp, addr) ∈ w.queue ↔
    latestEvent natp w.history = some (.queued natp addr) := mem_stillWaiting_iff

theorem Inv.of_mem_queue (h : w.Inv) (hmem : (natp, addr) ∈ w.queue) :
    w.point natp = .waiting ∧ w.futexWaitAddr natp = addr := by
  have hevent := h.events natp
  rwa [mem_queue_iff.1 hmem] at hevent

theorem Inv.not_mem_queue (h : w.Inv) (hpoint : w.point natp ≠ .waiting) :
    natp ∉ w.queue.map Prod.fst := by
  intro hmem
  obtain ⟨⟨t, addr⟩, hp, rfl⟩ := List.mem_map.1 hmem
  exact hpoint (h.of_mem_queue hp).1

theorem Inv.of_waiting (h : w.Inv) (hpoint : w.point natp = .waiting) :
    (∃ addr, (natp, addr) ∈ w.queue) ∨ latestEvent natp w.history = some (.removed natp) := by
  have hevent := h.events natp
  cases hlatest : latestEvent natp w.history with
  | none =>
    rw [hlatest] at hevent
    exact absurd hpoint hevent
  | some e =>
    have hnatp := latestEvent_natp hlatest
    rw [hlatest] at hevent
    cases e with
    | queued t addr =>
      obtain rfl : t = natp := hnatp
      exact Or.inl ⟨addr, mem_queue_iff.2 hlatest⟩
    | removed t =>
      obtain rfl : t = natp := hnatp
      exact Or.inr rfl
    | returned t => exact absurd hpoint hevent

theorem Inv.length_queue_le (h : w.Inv) : w.queue.length ≤ w.live.length := by
  have hsub : w.queue.map Prod.fst ⊆ w.live := by
    intro natp hmem
    obtain ⟨⟨t, addr⟩, hp, rfl⟩ := List.mem_map.1 hmem
    refine h.alive t ?_
    rw [(h.of_mem_queue hp).1]
    exact nofun
  have hle := (List.subperm_of_subset (nodup_stillWaiting w.history) hsub).length_le
  rwa [List.length_map] at hle

theorem EventSound.frame {event : Option FutexEvent} (h : w.EventSound natp event)
    (hpoint : w'.point natp = .waiting ↔ w.point natp = .waiting)
    (haddr : w.point natp = .waiting → w'.futexWaitAddr natp = w.futexWaitAddr natp)
    (hremoved : w.point natp = .waiting → ∀ t, event = some (.removed t) →
      w'.links.next (.thread natp) = w.links.next (.thread natp) ∧
        w'.signalled natp = w.signalled natp) : w'.EventSound natp event := by
  cases event with
  | none => exact fun hwaiting => h (hpoint.1 hwaiting)
  | some e =>
    cases e with
    | queued t addr => exact ⟨hpoint.2 h.1, (haddr h.1).trans h.2⟩
    | removed t =>
      obtain ⟨hnext, hsignalled⟩ := hremoved h.1 t rfl
      exact ⟨hpoint.2 h.1, hnext.trans h.2.1, hsignalled.trans h.2.2⟩
    | returned t => exact fun hwaiting => h (hpoint.1 hwaiting)

theorem Inv.of_event (h : w.Inv) (hpoint : w'.point = update w.point natp point)
    (hlive : w'.live = w.live) (hmem : natp ∈ w.live) (hhistory : w'.history = e :: w.history)
    (he : e.natp = natp)
    (hmu : (∃ addr, point = .compared addr) ↔ w'.futexWaitListMu = some natp)
    (hother : ∀ t, t ≠ natp → (w'.futexWaitListMu = some t ↔ w.futexWaitListMu = some t))
    (hring : w'.links.Ring .head (waitList w'.queue))
    (hnext : ∀ t, t ≠ natp → t ∉ w.queue.map Prod.fst →
      w'.links.next (.thread t) = w.links.next (.thread t))
    (haddr : ∀ t, t ≠ natp → w'.futexWaitAddr t = w.futexWaitAddr t)
    (hsignalled : ∀ t, t ≠ natp → w'.signalled t = w.signalled t)
    (hevent : w'.EventSound natp (some e)) : w'.Inv := by
  refine ⟨hlive ▸ h.live, fun t ht => ?_, fun t => ?_, hring, fun t => ?_⟩
  · rw [hlive]
    by_cases htn : t = natp
    · exact htn ▸ hmem
    · rw [hpoint, update_of_ne htn] at ht
      exact h.alive t ht
  · rw [hpoint]
    by_cases htn : t = natp
    · subst htn
      rw [update_self]
      exact hmu
    · rw [update_of_ne htn, hother t htn]
      exact h.mutex t
  · rw [hhistory, latestEvent_cons]
    by_cases htn : t = natp
    · subst htn
      rwa [if_pos he]
    · have hpt : w'.point t = w.point t := by rw [hpoint, update_of_ne htn]
      rw [if_neg (he ▸ Ne.symm htn)]
      refine (h.events t).frame (by rw [hpt]) (fun _ => haddr t htn) fun _ u hlatest =>
        ⟨hnext t htn fun hmem => ?_, hsignalled t htn⟩
      obtain ⟨⟨v, addr⟩, hp, rfl⟩ := List.mem_map.1 hmem
      rw [mem_queue_iff.1 hp] at hlatest
      cases hlatest

theorem Inv.of_point (h : w.Inv) (hpoint : w'.point = update w.point natp point)
    (hlive : w'.live = w.live) (hmem : natp ∈ w.live) (hhistory : w'.history = w.history)
    (hlinks : w'.links = w.links) (haddr : w'.futexWaitAddr = w.futexWaitAddr)
    (hsignalled : w'.signalled = w.signalled) (hfrom : w.point natp ≠ .waiting)
    (hto : point ≠ .waiting)
    (hmu : (∃ addr, point = .compared addr) ↔ w'.futexWaitListMu = some natp)
    (hother : ∀ t, t ≠ natp → (w'.futexWaitListMu = some t ↔ w.futexWaitListMu = some t)) :
    w'.Inv := by
  have hqueue : w'.queue = w.queue := by rw [queue, queue, hhistory]
  refine ⟨hlive ▸ h.live, fun t ht => ?_, fun t => ?_, ?_, fun t => ?_⟩
  · rw [hlive]
    by_cases htn : t = natp
    · exact htn ▸ hmem
    · rw [hpoint, update_of_ne htn] at ht
      exact h.alive t ht
  · rw [hpoint]
    by_cases htn : t = natp
    · subst htn
      rw [update_self]
      exact hmu
    · rw [update_of_ne htn, hother t htn]
      exact h.mutex t
  · rw [hlinks, hqueue]
    exact h.ring
  · have hwaiting : w'.point t = .waiting ↔ w.point t = .waiting := by
      rw [hpoint]
      by_cases htn : t = natp
      · subst htn
        rw [update_self]
        exact iff_of_false hto hfrom
      · rw [update_of_ne htn]
    rw [hhistory]
    exact (h.events t).frame hwaiting (fun _ => by rw [haddr]) fun _ _ _ => by
      rw [hlinks, hsignalled]
      exact ⟨rfl, rfl⟩

theorem Inv.unlink (h : w.Inv) (hmem : (natp, addr) ∈ w.queue) :
    ∃ links, w.links.remove (.thread natp) = some links ∧
      (links.clear (.thread natp)).Ring .head (waitList (w.queue.filter (·.1 ≠ natp))) ∧
      (links.clear (.thread natp)).next (.thread natp) = none ∧
      ∀ t, t ≠ natp → t ∉ w.queue.map Prod.fst →
        (links.clear (.thread natp)).next (.thread t) = w.links.next (.thread t) := by
  obtain ⟨l₁, l₂, hsplit⟩ := List.append_of_mem hmem
  have hnodup := nodup_stillWaiting w.history
  have hfilter : w.queue.filter (·.1 ≠ natp) = l₁ ++ l₂ := by
    rw [show stillWaiting w.history = l₁ ++ (natp, addr) :: l₂ from hsplit] at hnodup
    rw [hsplit]
    exact filter_ne_of_split hnodup
  have hring := h.ring
  rw [hsplit] at hring
  unfold waitList at hring
  rw [List.map_append, List.map_cons] at hring
  obtain ⟨links, hremove, hring', hnext⟩ := hring.remove
  have houtside : NaClListNode.thread natp ∉ .head :: waitList (l₁ ++ l₂) := by
    rw [← hfilter, List.mem_cons, mem_waitList_iff]
    simp
  refine ⟨links, hremove, ?_, ?_, fun t htn ht => ?_⟩
  · rw [hfilter]
    refine Links.Ring.clear ?_ houtside
    rwa [waitList, List.map_append]
  · rw [Links.next_clear, if_pos rfl]
  · rw [Links.next_clear, if_neg (by simpa using htn)]
    refine hnext _ ?_
    rw [← List.map_append, List.mem_cons]
    rintro (hhead | hin)
    · cases hhead
    · rw [← waitList, mem_waitList_iff, ← hfilter] at hin
      exact ht ((List.filter_sublist.map _).subset hin)

theorem Inv.enqueue (h : w.Inv) (hpoint : w.point natp = .compared addr) :
    ∃ w', w.enqueue natp addr = .ok w' ∧ w'.Inv ∧ w'.queue = w.queue ++ [(natp, addr)] ∧
      w'.futexWaitListMu = none := by
  have hout : natp ∉ w.queue.map Prod.fst := h.not_mem_queue (by rw [hpoint]; exact nofun)
  have hnode : NaClListNode.thread natp ∉ .head :: waitList w.queue := by
    rw [List.mem_cons, mem_waitList_iff]
    simpa using hout
  obtain ⟨links, hadd, hring, hnext⟩ := h.ring.addAtEnd hnode
  have hmu : w.futexWaitListMu = some natp := (h.mutex natp).1 ⟨addr, hpoint⟩
  unfold FutexWorld.enqueue
  rw [hadd]
  have hqueue := stillWaiting_queued hout addr
  refine ⟨_, rfl, h.of_event rfl rfl (h.alive natp (by rw [hpoint]; exact nofun)) rfl rfl
    (iff_of_false nofun nofun) (fun t ht => ?_) ?_ (fun t ht hin => ?_) (fun t ht => ?_)
    (fun t ht => ?_) ⟨?_, ?_⟩, hqueue, rfl⟩
  · rw [hmu]
    exact iff_of_false nofun fun heq => ht (Option.some.inj heq).symm
  · have hring' : links.Ring .head (waitList (stillWaiting (.queued natp addr :: w.history))) := by
      rw [hqueue, waitList, List.map_append]
      exact hring
    exact hring'
  · refine hnext _ ?_
    rw [List.mem_cons, List.mem_append, mem_waitList_iff]
    simpa [ht] using hin
  · exact update_of_ne ht _ _
  · exact update_of_ne ht _ _
  · exact update_self _ _ _
  · exact update_self _ _ _

theorem Inv.wakeThread (h : w.Inv) (hmem : (natp, addr) ∈ w.queue) :
    ∃ w', w.wakeThread natp = .ok w' ∧ w'.Inv ∧ w'.history = .removed natp :: w.history ∧
      w'.point = w.point ∧ w'.live = w.live ∧ w'.futexWaitListMu = w.futexWaitListMu := by
  obtain ⟨links, hremove, hring, hnone, hnext⟩ := h.unlink hmem
  obtain ⟨hpoint, -⟩ := h.of_mem_queue hmem
  unfold FutexWorld.wakeThread
  rw [hremove]
  refine ⟨_, rfl, h.of_event (update_eq_self natp w.point).symm rfl
    (h.alive natp (by rw [hpoint]; exact nofun)) rfl rfl (h.mutex natp) (fun _ _ => Iff.rfl) ?_ hnext
    (fun t ht => ?_) (fun t ht => ?_) ⟨hpoint, hnone, ?_⟩, rfl, rfl, rfl, rfl⟩
  · unfold FutexWorld.queue clearFields
    rw [stillWaiting, FutexEvent.place, List.append_nil]
    exact hring
  · exact update_of_ne ht _ _
  · exact update_of_ne ht _ _
  · exact update_self _ _ _

/-- What the loop of a wake changes: it takes these threads out, in this order. -/
structure Woken (w w' : FutexWorld) (woken : List (ℕ × BitVec 32)) : Prop where
  inv : w'.Inv
  history : w'.history = (woken.map fun p => .removed p.1).reverse ++ w.history
  point : w'.point = w.point
  live : w'.live = w.live
  futexWaitListMu : w'.futexWaitListMu = w.futexWaitListMu

theorem Woken.cons {w'' : FutexWorld} {woken : List (ℕ × BitVec 32)} (h : Woken w' w'' woken)
    (hhistory : w'.history = .removed natp :: w.history) (hpoint : w'.point = w.point)
    (hlive : w'.live = w.live) (hmu : w'.futexWaitListMu = w.futexWaitListMu) (addr : BitVec 32) :
    Woken w w'' ((natp, addr) :: woken) := by
  refine ⟨h.inv, ?_, h.point.trans hpoint, h.live.trans hlive, h.futexWaitListMu.trans hmu⟩
  rw [h.history, hhistory]
  simp

theorem Inv.wakeLoop (h : w.Inv) {done rest : List (ℕ × BitVec 32)} {fuel : ℕ}
    (hqueue : w.queue = done ++ rest) (hfuel : rest.length < fuel) (nwake wokenCount : BitVec 32) :
    ∃ w', wakeLoop addr fuel w (some (firstEntry rest)) nwake wokenCount =
        .ok (w', wokenCount +
          BitVec.ofNat 32 ((rest.filter (·.2 = addr)).take nwake.toNat).length) ∧
      Woken w w' ((rest.filter (·.2 = addr)).take nwake.toNat) := by
  induction rest generalizing w done fuel nwake wokenCount with
  | nil =>
    obtain ⟨fuel, rfl⟩ : ∃ n, fuel = n + 1 := ⟨fuel - 1, by omega⟩
    refine ⟨w, ?_, h, by simp, rfl, rfl, rfl⟩
    simp [FutexWorld.wakeLoop, firstEntry]
  | cons p rest ih =>
    obtain ⟨fuel, rfl⟩ : ∃ n, fuel = n + 1 := ⟨fuel - 1, by omega⟩
    have hfuel' : rest.length < fuel := by simpa using hfuel
    have hmem : p ∈ w.queue := by simp [hqueue]
    have hring := h.ring
    rw [hqueue] at hring
    have hnext := next_of_split hring
    rw [FutexWorld.wakeLoop]
    by_cases hnwake : 0 < nwake
    · have hpos : 0 < nwake.toNat := hnwake
      have hentry : some (firstEntry (p :: rest)) ≠ some NaClListNode.head := nofun
      rw [if_pos ⟨hnwake, hentry⟩]
      simp only [firstEntry, Option.bind_some, getNaClAppThreadFromListNode, hnext,
        (h.of_mem_queue hmem).2]
      by_cases haddr : p.2 = addr
      · obtain ⟨w₁, hwake, hinv, hhistory, hpoint, hlive, hmu⟩ := h.wakeThread hmem
        have hqueue₁ : w₁.queue = done ++ rest := by
          have hnodup := nodup_stillWaiting w.history
          rw [show stillWaiting w.history = done ++ p :: rest from hqueue] at hnodup
          rw [queue, hhistory, stillWaiting, FutexEvent.place, List.append_nil,
            ← filter_ne_of_split hnodup, ← hqueue]
          rfl
        have hsub : (nwake - 1).toNat = nwake.toNat - 1 := by
          rw [BitVec.toNat_sub_of_le (show 1 ≤ nwake.toNat from hpos)]
          rfl
        obtain ⟨w', hloop, hwoken⟩ := ih hinv hqueue₁ hfuel' (nwake - 1) (wokenCount + 1)
        rw [hsub] at hloop hwoken
        obtain ⟨n, hn⟩ : ∃ n, nwake.toNat = n + 1 := ⟨nwake.toNat - 1, by omega⟩
        rw [hn, Nat.add_sub_cancel] at hloop hwoken
        rw [if_pos haddr, hwake, List.filter_cons_of_pos (by simpa using haddr), hn,
          List.take_succ_cons]
        refine ⟨w', ?_, hwoken.cons hhistory hpoint hlive hmu p.2⟩
        refine hloop.trans ?_
        rw [List.length_cons, Nat.add_comm, BitVec.ofNat_add, ← BitVec.add_assoc]
        rfl
      · rw [if_neg haddr, List.filter_cons_of_neg (by simpa using haddr)]
        exact ih h (hqueue.trans (List.append_cons done p rest)) hfuel' nwake wokenCount
    · have hzero : nwake.toNat = 0 := by
        have hle : ¬ 0 < nwake.toNat := hnwake
        omega
      rw [if_neg fun hpos => hnwake hpos.1, hzero, List.take_zero]
      exact ⟨w, by simp, h, rfl, rfl, rfl, rfl⟩

theorem Initial.inv (h : w.Initial) : w.Inv := by
  refine ⟨?_, fun natp hpoint => absurd (h.point natp) hpoint, fun natp => ?_, ?_, fun natp => ?_⟩
  · rw [h.live]
    decide
  · rw [h.point, h.futexWaitListMu]
    exact iff_of_false nofun nofun
  · unfold queue
    rw [h.history]
    exact Links.ring_nil_iff.2 ⟨h.next, h.prev⟩
  · rw [h.history]
    show w.point natp ≠ .waiting
    rw [h.point]
    exact nofun

theorem Inv.resume_removed (h : w.Inv) (hlatest : latestEvent natp w.history = some (.removed natp))
    (hmu : w.futexWaitListMu = none) {status : NaClSyncStatus} {error : ℤ}
    (hstatus : naclXlateNaClSyncStatus status = some error) :
    ∃ w', w.resume natp status = .ok w' ∧ w'.Inv ∧ w'.queue = w.queue ∧
      w'.history = .returned natp :: w.history ∧ w'.returned = some (natp, 0) := by
  have hevent := h.events natp
  rw [hlatest] at hevent
  obtain ⟨hpoint, hnext, -⟩ := hevent
  have hout : ∀ p ∈ w.queue, p.1 ≠ natp := by
    rintro ⟨t, addr⟩ hp rfl
    rw [mem_queue_iff.1 hp] at hlatest
    cases hlatest
  have hqueue : stillWaiting (.returned natp :: w.history) = w.queue := by
    rw [stillWaiting, FutexEvent.place, List.append_nil]
    exact List.filter_eq_self.2 fun p hp => decide_eq_true (hout p hp)
  have hring : (w.links.clear (.thread natp)).Ring .head (waitList w.queue) := by
    refine h.ring.clear ?_
    rw [List.mem_cons, mem_waitList_iff]
    rintro (hhead | hin)
    · cases hhead
    · obtain ⟨p, hp, hpn⟩ := List.mem_map.1 hin
      exact hout p hp hpn
  unfold FutexWorld.resume
  rw [hstatus]
  simp only [hnext, if_true]
  refine ⟨_, rfl, h.of_event rfl rfl (h.alive natp (by rw [hpoint]; exact nofun)) rfl rfl
    (iff_of_false nofun ?_) (fun _ _ => Iff.rfl) ?_ (fun t ht _ => ?_) (fun t ht => ?_)
    (fun _ _ => rfl) ?_, hqueue, rfl, rfl⟩
  · rw [show w.futexWaitListMu = none from hmu]
    exact nofun
  · unfold FutexWorld.queue
    exact hqueue.symm ▸ hring
  · exact (Links.next_clear _ _ _).trans (if_neg (by simpa using ht))
  · exact update_of_ne ht _ _
  · intro hwaiting
    rw [show FutexWorld.point _ natp = .running from update_self _ _ _] at hwaiting
    cases hwaiting

theorem Inv.resume_queued (h : w.Inv) (hmem : (natp, addr) ∈ w.queue)
    (hmu : w.futexWaitListMu = none) {status : NaClSyncStatus} {error : ℤ}
    (hstatus : naclXlateNaClSyncStatus status = some error) :
    ∃ w', w.resume natp status = .ok w' ∧ w'.Inv ∧ w'.queue = w.queue.filter (·.1 ≠ natp) ∧
      w'.history = .returned natp :: w.history ∧ w'.returned = some (natp, -error) := by
  obtain ⟨links, hremove, hring, -, hnext⟩ := h.unlink hmem
  obtain ⟨hpoint, -⟩ := h.of_mem_queue hmem
  have hlinked : w.links.next (.thread natp) ≠ none := by
    obtain ⟨l₁, l₂, hsplit⟩ := List.append_of_mem hmem
    have hold := h.ring
    rw [hsplit] at hold
    rw [next_of_split hold]
    exact nofun
  have hqueue : stillWaiting (.returned natp :: w.history) = w.queue.filter (·.1 ≠ natp) := by
    rw [stillWaiting, FutexEvent.place, List.append_nil]
    rfl
  unfold FutexWorld.resume
  rw [hstatus]
  simp only [hlinked, if_false, hremove]
  refine ⟨_, rfl, h.of_event rfl rfl (h.alive natp (by rw [hpoint]; exact nofun)) rfl rfl
    (iff_of_false nofun ?_) (fun _ _ => Iff.rfl) ?_ hnext (fun t ht => ?_) (fun _ _ => rfl) ?_,
    hqueue, rfl, rfl⟩
  · rw [show w.futexWaitListMu = none from hmu]
    exact nofun
  · unfold FutexWorld.queue
    exact hqueue.symm ▸ hring
  · exact update_of_ne ht _ _
  · intro hwaiting
    rw [show FutexWorld.point _ natp = .running from update_self _ _ _] at hwaiting
    cases hwaiting

theorem Inv.wake (h : w.Inv) (hmem : natp ∈ w.live) (hpoint : w.point natp = .running)
    (hmu : w.futexWaitListMu = none) (addr nwake : BitVec 32) :
    ∃ w', w.naclSysFutexWake natp addr nwake = .ok w' ∧ w'.Inv ∧
      w'.history = (((w.queue.filter (·.2 = addr)).take nwake.toNat).map
        fun p => .removed p.1).reverse ++ w.history ∧
      w'.returned = some (natp, ((min nwake.toNat (w.queue.filter (·.2 = addr)).length : ℕ) : ℤ)) := by
  have hlen := h.length_queue_le
  have hlive := h.live
  have hqueue : w.queue = [] ++ w.queue := rfl
  obtain ⟨w', hloop, hwoken⟩ := h.wakeLoop hqueue
    (show w.queue.length < w.live.length + 1 by omega) nwake 0
  have hcount : (w.queue.filter (·.2 = addr)).length ≤ w.queue.length := List.length_filter_le _ _
  unfold naclSysFutexWake
  rw [next_head_of_ring h.ring, hloop]
  have hrunning : w'.point natp ≠ .waiting := by
    rw [hwoken.point, hpoint]
    exact nofun
  have hfree : ¬ w'.futexWaitListMu = some natp := by
    rw [hwoken.futexWaitListMu, hmu]
    exact nofun
  refine ⟨_, rfl, hwoken.inv.of_point rfl rfl (hwoken.live ▸ hmem) rfl rfl rfl rfl hrunning nofun
    (iff_of_false nofun hfree) fun _ _ => Iff.rfl, hwoken.history, ?_⟩
  rw [naclThreadMax] at hlive
  refine congrArg (fun n => some (natp, n)) ?_
  simp only [List.length_take, BitVec.ofNat_eq_ofNat, BitVec.zero_add]
  rw [BitVec.toInt_eq_toNat_of_lt, BitVec.toNat_ofNat, Nat.mod_eq_of_lt (by omega)]
  rw [BitVec.toNat_ofNat, Nat.mod_eq_of_lt (by omega)]
  omega

/-- No step follows a bad pointer or goes on without end, and each keeps the invariant. -/
def Good : Except FutexRefusal FutexWorld → Prop
  | .error .badPointer | .error .endless => False
  | .error _ => True
  | .ok w' => w'.Inv

theorem Inv.futexWaitAbs (h : w.Inv) (hmem : natp ∈ w.live) (hpoint : w.point natp = .running)
    (addr value abstimePtr : BitVec 32) : (w.naclSysFutexWaitAbs natp addr value abstimePtr).Inv := by
  have hwaiting : w.point natp ≠ .waiting := by
    rw [hpoint]
    exact nofun
  have hmu : ¬ w.futexWaitListMu = some natp := by
    rw [← h.mutex, hpoint]
    exact nofun
  unfold naclSysFutexWaitAbs
  split_ifs
  · exact h.of_point rfl rfl hmem rfl rfl rfl rfl hwaiting nofun (iff_of_false nofun hmu)
      fun _ _ => Iff.rfl
  · exact h.of_point rfl rfl hmem rfl rfl rfl rfl hwaiting nofun (iff_of_false nofun hmu)
      fun _ _ => Iff.rfl

theorem Inv.compare (h : w.Inv) {value : BitVec 32} (hpoint : w.point natp = .entered addr value)
    (hmu : w.futexWaitListMu = none) : (w.compare natp addr value).Inv := by
  have hmem : natp ∈ w.live := h.alive natp (by rw [hpoint]; exact nofun)
  have hwaiting : w.point natp ≠ .waiting := by
    rw [hpoint]
    exact nofun
  have hfree : ∀ t, ¬ w.futexWaitListMu = some t := fun t => by
    rw [hmu]
    exact nofun
  unfold FutexWorld.compare
  split
  · exact h.of_point rfl rfl hmem rfl rfl rfl rfl hwaiting nofun (iff_of_false nofun (hfree natp))
      fun _ _ => Iff.rfl
  · split_ifs
    · exact h.of_point rfl rfl hmem rfl rfl rfl rfl hwaiting nofun (iff_of_false nofun (hfree natp))
        fun _ _ => Iff.rfl
    · refine h.of_point rfl rfl hmem rfl rfl rfl rfl hwaiting nofun (iff_of_true ⟨addr, rfl⟩ rfl)
        fun t ht => iff_of_false (fun heq => ht (Option.some.inj heq).symm) (hfree t)

theorem Inv.spawn (h : w.Inv) (hmem : natp ∉ w.live) (hlive : ¬ naclThreadMax ≤ w.live.length + 1)
    (next prev : Option NaClListNode) (addr : BitVec 32) :
    Inv { w with
      live := natp :: w.live
      links := (w.links.setNext (.thread natp) next).setPrev (.thread natp) prev
      futexWaitAddr := update w.futexWaitAddr natp addr
      returned := none } := by
  have hpoint : w.point natp = .running := by
    by_contra hne
    exact hmem (h.alive natp hne)
  have hout : NaClListNode.thread natp ∉ .head :: waitList w.queue := by
    rw [List.mem_cons, mem_waitList_iff]
    have := h.not_mem_queue (by rw [hpoint]; exact nofun)
    simpa using this
  refine ⟨?_, fun t ht => List.mem_cons_of_mem _ (h.alive t ht), h.mutex, ?_, fun t => ?_⟩
  · simpa using hlive
  · refine Links.Ring.congr h.ring (fun y hy => ?_) fun y hy => ?_
    · exact update_of_ne (fun heq => hout (by rwa [← heq])) _ _
    · exact update_of_ne (fun heq => hout (by rwa [← heq])) _ _
  · have htn : w.point t = .waiting → t ≠ natp := by
      rintro hwaiting rfl
      rw [hpoint] at hwaiting
      cases hwaiting
    exact (h.events t).frame Iff.rfl (fun hwaiting => update_of_ne (htn hwaiting) _ _)
      fun hwaiting _ _ => ⟨update_of_ne (by simpa using htn hwaiting) _ _, rfl⟩

theorem Inv.exit (h : w.Inv) (hpoint : w.point natp = .running) :
    Inv { w with live := w.live.erase natp, returned := none } := by
  refine ⟨List.length_erase_le.trans_lt h.live, fun t ht => ?_, h.mutex, h.ring, fun t => ?_⟩
  · have htn : t ≠ natp := by
      rintro rfl
      exact ht hpoint
    exact (List.mem_erase_of_ne htn).2 (h.alive t ht)
  · exact (h.events t).frame Iff.rfl (fun _ => rfl) fun _ _ _ => ⟨rfl, rfl⟩

theorem Inv.resume (h : w.Inv) (hpoint : w.point natp = .waiting) (hmu : w.futexWaitListMu = none)
    (status : NaClSyncStatus) : Good (w.resume natp status) := by
  cases hstatus : naclXlateNaClSyncStatus status with
  | none =>
    unfold FutexWorld.resume
    rw [hstatus]
    trivial
  | some error =>
    rcases h.of_waiting hpoint with ⟨addr, hmem⟩ | hremoved
    · obtain ⟨w', hok, hinv, -⟩ := h.resume_queued hmem hmu hstatus
      rw [hok]
      exact hinv
    · obtain ⟨w', hok, hinv, -⟩ := h.resume_removed hremoved hmu hstatus
      rw [hok]
      exact hinv

theorem Inv.step (h : w.Inv) (a : FutexAction) : Good (step w a) := by
  cases a with
  | spawn natp next prev addr =>
    rw [FutexWorld.step]
    split_ifs with hfull
    · trivial
    · rw [not_or] at hfull
      exact h.spawn hfull.1 hfull.2 next prev addr
  | exit natp =>
    rw [FutexWorld.step]
    split_ifs with hlive
    · exact h.exit hlive.2
    · trivial
  | store addr byte => exact ⟨h.live, h.alive, h.mutex, h.ring, h.events⟩
  | futexWaitAbs natp addr value abstimePtr =>
    rw [FutexWorld.step]
    split_ifs with hlive
    · exact h.futexWaitAbs hlive.1 hlive.2 addr value abstimePtr
    · trivial
  | lock natp =>
    rw [FutexWorld.step]
    split
    · next addr value hpoint =>
      split_ifs with hmu
      · exact h.compare hpoint hmu
      · trivial
    · trivial
  | enqueue natp =>
    rw [FutexWorld.step]
    split
    · next addr hpoint =>
      obtain ⟨w', hok, hinv, -⟩ := h.enqueue hpoint
      rw [hok]
      exact hinv
    · trivial
  | resume natp status =>
    rw [FutexWorld.step]
    split_ifs with hpoint
    · exact h.resume hpoint.1 hpoint.2 status
    · trivial
  | futexWake natp addr nwake =>
    rw [FutexWorld.step]
    split_ifs with hlive
    · obtain ⟨w', hok, hinv, -⟩ := h.wake hlive.1 hlive.2.1 hlive.2.2 addr nwake
      rw [hok]
      exact hinv
    · trivial

theorem filter_not_mem_fst {queue woken : List (ℕ × BitVec 32)}
    (hnodup : (queue.map Prod.fst).Nodup) (hsub : woken ⊆ queue) :
    queue.filter (·.1 ∉ woken.map Prod.fst) = queue.filter (· ∉ woken) := by
  refine List.filter_congr fun p hp => decide_eq_decide.2 (not_congr ⟨fun hmem => ?_, fun hmem => ?_⟩)
  · obtain ⟨q, hq, hqp⟩ := List.mem_map.1 hmem
    exact List.inj_on_of_nodup_map hnodup (hsub hq) hp hqp ▸ hq
  · exact List.mem_map_of_mem hmem

/-- What holds of the list in a state that a run has reached. -/
structure QueueSound (w : FutexWorld) : Prop where
  /-- The pointers link the threads of the queue, each once. -/
  ring : w.links.Ring .head (waitList w.queue)
  /-- The threads of the queue wait and no wake has taken them out. -/
  mem_queue : ∀ natp addr, (natp, addr) ∈ w.queue ↔
    w.point natp = .waiting ∧ latestEvent natp w.history = some (.queued natp addr)
  /-- The others that wait have been taken out by a wake, which has signalled them. -/
  waiting : ∀ natp, w.point natp = .waiting → (∃ addr, (natp, addr) ∈ w.queue) ∨
    latestEvent natp w.history = some (.removed natp) ∧ w.signalled natp = true
  /-- A thread that has the mutex has compared the value; it is queued next, before any wake. -/
  queueing : ∀ natp, w.futexWaitListMu = some natp → ∃ addr w',
    w.point natp = .compared addr ∧ w.step (.enqueue natp) = .ok w' ∧
      w'.queue = w.queue ++ [(natp, addr)] ∧ w'.futexWaitListMu = none
  /-- A wake takes out the first threads on the address, in the order they were queued. -/
  wake : ∀ natp addr nwake w', w.step (.futexWake natp addr nwake) = .ok w' →
    let woken := (w.queue.filter (·.2 = addr)).take nwake.toNat
    (∀ t addr', w.point t ≠ .compared addr') ∧
      w'.history = (woken.map fun p => .removed p.1).reverse ++ w.history ∧
      w'.queue = w.queue.filter (· ∉ woken) ∧
      w'.returned =
        some (natp, ((min nwake.toNat (w.queue.filter (·.2 = addr)).length : ℕ) : ℤ))
  /-- A thread that a wake has taken out returns success. -/
  removed : ∀ natp status error, latestEvent natp w.history = some (.removed natp) →
    w.futexWaitListMu = none → naclXlateNaClSyncStatus status = some error →
    ∃ w', w.step (.resume natp status) = .ok w' ∧ w'.queue = w.queue ∧ w'.returned = some (natp, 0)
  unlinks : ∀ natp addr status error, (natp, addr) ∈ w.queue →
    w.futexWaitListMu = none → naclXlateNaClSyncStatus status = some error →
    ∃ w', w.step (.resume natp status) = .ok w' ∧ w'.queue = w.queue.filter (·.1 ≠ natp) ∧
      w'.returned = some (natp, -error)
  noFault : ∀ a, w.step a ≠ .error .badPointer ∧ w.step a ≠ .error .endless

theorem Inv.queueSound (h : w.Inv) : w.QueueSound where
  ring := h.ring
  mem_queue natp addr := by
    rw [mem_queue_iff]
    exact ⟨fun hlatest => ⟨(h.of_mem_queue (mem_queue_iff.2 hlatest)).1, hlatest⟩, And.right⟩
  waiting natp hpoint := by
    refine (h.of_waiting hpoint).imp_right fun hlatest => ⟨hlatest, ?_⟩
    have hevent := h.events natp
    rw [hlatest] at hevent
    exact hevent.2.2
  queueing natp hmu := by
    obtain ⟨addr, hpoint⟩ := (h.mutex natp).2 hmu
    obtain ⟨w', hok, -, hqueue, hfree⟩ := h.enqueue hpoint
    refine ⟨addr, w', hpoint, ?_, hqueue, hfree⟩
    rw [FutexWorld.step, hpoint]
    exact hok
  wake natp addr nwake w' hstep := by
    rw [FutexWorld.step] at hstep
    split_ifs at hstep with hready
    obtain ⟨hmem, hpoint, hmu⟩ := hready
    obtain ⟨w₁, hok, -, hhistory, hreturned⟩ := h.wake hmem hpoint hmu addr nwake
    obtain rfl : w₁ = w' := Except.ok.inj (hok.symm.trans hstep)
    refine ⟨fun t addr' hcompared => ?_, hhistory, ?_, hreturned⟩
    · have hholder := (h.mutex t).1 ⟨addr', hcompared⟩
      rw [hmu] at hholder
      cases hholder
    · unfold queue
      rw [hhistory, stillWaiting_removed]
      exact filter_not_mem_fst (nodup_stillWaiting w.history)
        fun p hp => List.mem_of_mem_filter (List.mem_of_mem_take hp)
  removed natp status error hlatest hmu hstatus := by
    obtain ⟨w', hok, -, hqueue, -, hreturned⟩ := h.resume_removed hlatest hmu hstatus
    have hevent := h.events natp
    rw [hlatest] at hevent
    refine ⟨w', ?_, hqueue, hreturned⟩
    rw [FutexWorld.step, if_pos ⟨hevent.1, hmu⟩]
    exact hok
  unlinks natp addr status error hmem hmu hstatus := by
    obtain ⟨w', hok, -, hqueue, -, hreturned⟩ := h.resume_queued hmem hmu hstatus
    refine ⟨w', ?_, hqueue, hreturned⟩
    rw [FutexWorld.step, if_pos ⟨(h.of_mem_queue hmem).1, hmu⟩]
    exact hok
  noFault a := by
    have hgood := h.step a
    refine ⟨fun hstep => ?_, fun hstep => ?_⟩
    · rw [hstep] at hgood
      exact hgood
    · rw [hstep] at hgood
      exact hgood

/-- Whatever the order of waits, wakes and timeouts, the list holds the threads that wait. -/
theorem queueSound_of_run {run : List FutexAction} (h : w.Initial)
    (hrun : run.foldlM step w = .ok w') : w'.QueueSound := by
  refine (Runs.invariant (fun s a s' hinv hstep => ?_) h.inv hrun).queueSound
  have hgood := hinv.step a
  rwa [hstep] at hgood

end

/-- A sandbox whose memory is zero, without threads. -/
def small : FutexWorld where
  space := ⟨2 ^ 32, 32, AddressSpace.pos_at4GB, AddressSpace.le_at4GB, AddressSpace.lt_at4GB⟩
  memory _ := 0
  live := []
  futexWaitListMu := none
  links := ⟨fun _ => some .head, fun _ => some .head⟩
  futexWaitAddr _ := 0
  signalled _ := false
  point _ := .running
  returned := none
  history := []

/-- Two threads wait on one address and a third on another; one of them is woken and then times out. -/
def smallRun : List FutexAction :=
  [.spawn 1 none none 0, .spawn 2 none none 0, .spawn 3 none none 0, .spawn 4 none none 0,
    .futexWaitAbs 1 8 0 64, .lock 1, .futexWaitAbs 2 16 0 0, .enqueue 1, .lock 2, .enqueue 2,
    .futexWaitAbs 3 8 0 0, .lock 3, .enqueue 3, .futexWake 4 8 1, .resume 1 .condvarTimedout]

theorem queueSound_of_run_small : ∃ w, smallRun.foldlM step small = .ok w ∧
    w.queue = [(2, 16), (3, 8)] ∧ w.returned = some (1, 0) ∧ w.QueueSound := by
  obtain ⟨w, hrun, hqueue, hreturned⟩ := Runs.exists_ok_of_check
    (P := fun w => w.queue = [(2, 16), (3, 8)] ∧ w.returned = some (1, 0))
    (fun w => w.queue = [(2, 16), (3, 8)] ∧ w.returned = some (1, 0))
    (fun _ hcheck => of_decide_eq_true hcheck) (x := smallRun.foldlM step small) (by decide +kernel)
  exact ⟨w, hrun, hqueue, hreturned,
    queueSound_of_run ⟨rfl, rfl, rfl, rfl, fun _ => rfl, rfl⟩ hrun⟩

end FutexWorld

end SandboxingNaCl
