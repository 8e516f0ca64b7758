import SandboxingNaCl.Lib.Runs
import SandboxingNaCl.Lib.ThreadCount

/-!
# The file lock manager

`nacl_file_lock.c`.  A step is what a thread does up to its next call on a mutex, on a condition
variable or of `flock`.  The host lock of a file belongs to an open file description, which several
descriptors and threads can share.
-/

namespace SandboxingNaCl

open Threads Runs Function

/-- The open file description of each descriptor, and the device and inode of each description. -/
structure OpenFiles where
  description : ℕ → ℕ
  identity : ℕ → ℕ × ℕ

/-- What `NaClFileLockManagerSetFileIdentityData` finds. -/
def OpenFiles.file (files : OpenFiles) (desc : ℕ) : ℕ × ℕ := files.identity (files.description desc)

/-- `NaClFileLockEntry` without its mutex. -/
structure NaClFileLockEntry where
  file : ℕ × ℕ
  holdingLock : Bool
  numWaiting : ℕ

/-- Who holds the host lock of a file. -/
inductive FlockHolder
  | description (ofd : ℕ)
  | foreign
deriving DecidableEq

/-- What a thread does next. -/
inductive FileLockPoint
  | idle
  /-- `NaClXMutexLock(&self->mu)` in `NaClFileLockManagerLock`. -/
  | lockManager (desc : ℕ)
  /-- `NaClXMutexUnlock(&self->mu)` after a new entry has been linked. -/
  | created (desc : ℕ)
  /-- `NaClXMutexLock(&entry->mu)`. -/
  | found (desc e : ℕ)
  /-- `NaClXMutexUnlock(&self->mu)` after the thread has been counted. -/
  | counted (desc e : ℕ)
  /-- The test of `holding_lock`. -/
  | testing (desc e : ℕ)
  /-- In `NaClXCondVarWait`. -/
  | asleep (desc e : ℕ)
  /-- In `NaClXCondVarWait`, about to take the mutex again. -/
  | woken (desc e : ℕ)
  /-- `NaClXMutexUnlock(&entry->mu)` after `holding_lock` has been set. -/
  | taken (desc e : ℕ)
  | takeFileLock (desc : ℕ)
  /-- Between `NaClFileLockManagerLock` and `NaClFileLockManagerUnlock`. -/
  | held (desc : ℕ)
  /-- `NaClXMutexLock(&self->mu)` in `NaClFileLockManagerUnlock`. -/
  | unlockManager (desc : ℕ)
  /-- `NaClXMutexLock(&entry->mu)`. -/
  | unlockFound (desc e : ℕ)
  /-- `NaClXMutexUnlock(&entry->mu)` after the entry has been unlinked. -/
  | unlinked (desc e : ℕ)
  /-- `NaClXMutexUnlock(&self->mu)` after that. -/
  | unlinkedManager (desc e : ℕ)
  /-- `NaClFileLockManagerFileEntryRecycler`. -/
  | recycling (desc e : ℕ)
  /-- `NaClXMutexUnlock(&self->mu)` when there are waiting threads. -/
  | handing (desc e : ℕ)
  /-- `NaClXCondVarBroadcast(&entry->cv)`. -/
  | broadcasting (desc e : ℕ)
  /-- `NaClXMutexUnlock(&entry->mu)` after that. -/
  | handed (desc e : ℕ)
  | dropFileLock (desc : ℕ)
deriving DecidableEq

/-- What brings the process down. -/
inductive FileLockFault
  | freed
  /-- A `CHECK` other than the one on `num_waiting`. -/
  | checkFailed

/-- Why a step is not possible. -/
inductive FileLockRefusal
  | blocked
  /-- `CHECK(0 != entry->num_waiting)`: more threads wait than a `size_t` can count. -/
  | overflow
  | fault (fault : FileLockFault)

/-- The manager with its list of entries, the entries by address, the host locks and the threads.
`entryMu` is the mutex of the entry at an address. -/
structure FileLockWorld (θ : Type) where
  mu : Option θ
  entries : List ℕ
  heap : ℕ → Option NaClFileLockEntry
  entryMu : ℕ → Option θ
  flock : ℕ × ℕ → Option FlockHolder
  point : θ → FileLockPoint

/-- What happens next. -/
inductive FileLockAction (θ : Type)
  | lock (t : θ) (desc : ℕ)
  | unlock (t : θ)
  /-- The thread goes on; `malloc` returns `fresh`. -/
  | advance (t : θ) (fresh : ℕ)
  /-- `NaClXCondVarWait` returns without a broadcast. -/
  | wake (t : θ)
  | foreignTake (file : ℕ × ℕ)
  | foreignDrop (file : ℕ × ℕ)

/-- `NaClFileLockManagerFindEntryMu`. -/
def findEntryMu (heap : ℕ → Option NaClFileLockEntry) (key : ℕ × ℕ) :
    List ℕ → Except FileLockRefusal (Option ℕ)
  | [] => .ok none
  | e :: entries =>
    match heap e with
    | none => .error (.fault .freed)
    | some entry => if entry.file = key then .ok (some e) else findEntryMu heap key entries

/-- `pthread_cond_broadcast` on the condition variable of an entry. -/
def FileLockPoint.wokenOn (e : ℕ) : FileLockPoint → FileLockPoint
  | .asleep desc e' => if e' = e then .woken desc e' else .asleep desc e'
  | p => p

namespace FileLockWorld

variable {θ : Type} [DecidableEq θ]

/-- The state after `NaClFileLockManagerCtor`. -/
def start : FileLockWorld θ := ⟨none, [], fun _ => none, fun _ => none, fun _ => none, fun _ => .idle⟩

def goto (w : FileLockWorld θ) (t : θ) (point : FileLockPoint) : FileLockWorld θ :=
  { w with point := Function.update w.point t point }

theorem goto_point_apply (w : FileLockWorld θ) (t : θ) (p : FileLockPoint) (u : θ) :
    (w.goto t p).point u = if u = t then p else w.point u :=
  update_apply _ _ _ _

/-- An access to an entry. -/
def access (w : FileLockWorld θ) (e : ℕ)
    (next : NaClFileLockEntry → Except FileLockRefusal (FileLockWorld θ)) :
    Except FileLockRefusal (FileLockWorld θ) :=
  match w.heap e with
  | none => .error (.fault .freed)
  | some entry => next entry

/-- `NaClXMutexLock(&self->mu)` and the search for the entry. -/
def lockAndFind (w : FileLockWorld θ) (t : θ) (key : ℕ × ℕ)
    (next : FileLockWorld θ → Option ℕ → Except FileLockRefusal (FileLockWorld θ)) :
    Except FileLockRefusal (FileLockWorld θ) :=
  if w.mu ≠ none then .error .blocked
  else
    match findEntryMu w.heap key w.entries with
    | .error refusal => .error refusal
    | .ok existing => next { w with mu := some t } existing

/-- `NaClXMutexLock(&entry->mu)`. -/
def lockEntry (w : FileLockWorld θ) (t : θ) (e : ℕ)
    (next : FileLockWorld θ → NaClFileLockEntry → Except FileLockRefusal (FileLockWorld θ)) :
    Except FileLockRefusal (FileLockWorld θ) :=
  w.access e fun entry =>
    if w.entryMu e ≠ none then .error .blocked
    else next { w with entryMu := Function.update w.entryMu e (some t) } entry

/-- `NaClXMutexUnlock(&entry->mu)`. -/
def unlockEntry (w : FileLockWorld θ) (t : θ) (e : ℕ) (point : FileLockPoint) :
    Except FileLockRefusal (FileLockWorld θ) :=
  w.access e fun _ => .ok ({ w with entryMu := Function.update w.entryMu e none }.goto t point)

def setEntry (w : FileLockWorld θ) (e : ℕ) (entry : NaClFileLockEntry) : FileLockWorld θ :=
  { w with heap := Function.update w.heap e (some entry) }

/-- `NaClFileLockManagerEntryFactory`, and the entry is linked. -/
def newEntry (w : FileLockWorld θ) (file : ℕ × ℕ) (fresh : ℕ) : FileLockWorld θ :=
  { w.setEntry fresh ⟨file, true, 0⟩ with
    entries := fresh :: w.entries
    entryMu := Function.update w.entryMu fresh none }

/-- The next step of `NaClFileLockManagerLock`. -/
def advanceLock (files : OpenFiles) (w : FileLockWorld θ) (t : θ) (fresh : ℕ) :
    FileLockPoint → Except FileLockRefusal (FileLockWorld θ)
  | .lockManager desc =>
    w.lockAndFind t (files.file desc) fun w existing =>
      match existing with
      | none =>
        if w.heap fresh ≠ none then .error .blocked
        else .ok ((w.newEntry (files.file desc) fresh).goto t (.created desc))
      | some e => .ok (w.goto t (.found desc e))
  | .created desc => .ok ({ w with mu := none }.goto t (.takeFileLock desc))
  | .found desc e =>
    w.lockEntry t e fun w entry =>
      let numWaiting := (entry.numWaiting + 1) % 2 ^ 64
      if numWaiting = 0 then .error .overflow
      else .ok ((w.setEntry e { entry with numWaiting }).goto t (.counted desc e))
  | .counted desc e => .ok ({ w with mu := none }.goto t (.testing desc e))
  | .testing desc e =>
    w.access e fun entry =>
      if entry.holdingLock then w.unlockEntry t e (.asleep desc e)
      else
        .ok ((w.setEntry e { entry with
          holdingLock := true, numWaiting := entry.numWaiting - 1 }).goto t (.taken desc e))
  | .woken desc e => w.lockEntry t e fun w _ => .ok (w.goto t (.testing desc e))
  | .taken desc e => w.unlockEntry t e (.takeFileLock desc)
  | .takeFileLock desc =>
    match w.flock (files.file desc) with
    | some .foreign => .error .blocked
    | some (.description ofd) =>
      if ofd = files.description desc then .ok (w.goto t (.held desc)) else .error .blocked
    | none =>
      .ok ({ w with
        flock := Function.update w.flock (files.file desc)
          (some (.description (files.description desc))) }.goto t (.held desc))
  | _ => .error .blocked

/-- The next step of `NaClFileLockManagerUnlock`. -/
def advanceUnlock (files : OpenFiles) (w : FileLockWorld θ) (t : θ) :
    FileLockPoint → Except FileLockRefusal (FileLockWorld θ)
  | .unlockManager desc =>
    w.lockAndFind t (files.file desc) fun w existing =>
      match existing with
      | none => .error (.fault .checkFailed)
      | some e => .ok (w.goto t (.unlockFound desc e))
  | .unlockFound desc e =>
    w.lockEntry t e fun w entry =>
      let w := w.setEntry e { entry with holdingLock := false }
      if entry.numWaiting = 0 then
        .ok ({ w with entries := w.entries.erase e }.goto t (.unlinked desc e))
      else .ok (w.goto t (.handing desc e))
  | .unlinked desc e => w.unlockEntry t e (.unlinkedManager desc e)
  | .unlinkedManager desc e => .ok ({ w with mu := none }.goto t (.recycling desc e))
  -- `NaClFileLockManagerFileEntryRecycler`
  | .recycling desc e =>
    w.access e fun entry =>
      if entry.holdingLock ∨ entry.numWaiting ≠ 0 then .error (.fault .checkFailed)
      else .ok ({ w with heap := Function.update w.heap e none }.goto t (.dropFileLock desc))
  | .handing desc e => .ok ({ w with mu := none }.goto t (.broadcasting desc e))
  | .broadcasting desc e =>
    w.access e fun _ =>
      .ok ({ w with point := fun u => (w.point u).wokenOn e }.goto t (.handed desc e))
  | .handed desc e => w.unlockEntry t e (.dropFileLock desc)
  | .dropFileLock desc =>
    if w.flock (files.file desc) = some (.description (files.description desc)) then
      .ok ({ w with flock := Function.update w.flock (files.file desc) none }.goto t .idle)
    else .ok (w.goto t .idle)
  | _ => .error .blocked

/-- Where a thread is in `NaClFileLockManagerUnlock`. -/
def inUnlock : FileLockPoint → Bool
  | .unlockManager _ | .unlockFound _ _ | .unlinked _ _ | .unlinkedManager _ _ | .recycling _ _
  | .handing _ _ | .broadcasting _ _ | .handed _ _ | .dropFileLock _ => true
  | _ => false

/-- One step. -/
def step (files : OpenFiles) (w : FileLockWorld θ) :
    FileLockAction θ → Except FileLockRefusal (FileLockWorld θ)
  | .lock t desc =>
    if w.point t = .idle then .ok (w.goto t (.lockManager desc)) else .error .blocked
  | .unlock t =>
    match w.point t with
    | .held desc => .ok (w.goto t (.unlockManager desc))
    | _ => .error .blocked
  | .advance t fresh =>
    if inUnlock (w.point t) then w.advanceUnlock files t (w.point t)
    else w.advanceLock files t fresh (w.point t)
  | .wake t =>
    match w.point t with
    | .asleep desc e => .ok (w.goto t (.woken desc e))
    | _ => .error .blocked
  | .foreignTake file =>
    if w.flock file = none then
      .ok { w with flock := Function.update w.flock file (some .foreign) }
    else .error .blocked
  | .foreignDrop file =>
    if w.flock file = some .foreign then .ok { w with flock := Function.update w.flock file none }
    else .error .blocked

end FileLockWorld

/-! ## The roles of a thread -/

namespace FileLockPoint

/-- The thread has `self->mu`. -/
def HasManager : FileLockPoint → Prop
  | .created _ | .found _ _ | .counted _ _ | .unlockFound _ _ | .unlinked _ _
  | .unlinkedManager _ _ | .handing _ _ => True
  | _ => False

/-- The entry whose mutex the thread has. -/
def entryMutex : FileLockPoint → Option ℕ
  | .counted _ e | .testing _ e | .taken _ e | .unlinked _ e | .handing _ e | .broadcasting _ e
  | .handed _ e => some e
  | _ => none

/-- The descriptor for whose file the thread has set `holding_lock`. -/
def owner : FileLockPoint → Option ℕ
  | .created desc | .taken desc _ | .takeFileLock desc | .held desc | .unlockManager desc
  | .unlockFound desc _ => some desc
  | _ => none

/-- The descriptor and the entry for which the thread is counted in `num_waiting`. -/
def waiting : FileLockPoint → Option (ℕ × ℕ)
  | .counted desc e | .testing desc e | .asleep desc e | .woken desc e => some (desc, e)
  | _ => none

/-- The entry that the thread has found in the list, with the descriptor. -/
def located : FileLockPoint → Option (ℕ × ℕ)
  | .found desc e | .taken desc e | .unlockFound desc e => some (desc, e)
  | _ => none

/-- The entry whose `holding_lock` the thread has cleared for others. -/
def clearing : FileLockPoint → Option ℕ
  | .handing _ e | .broadcasting _ e | .handed _ e => some e
  | _ => none

/-- The entry that the thread has unlinked and is going to free. -/
def disposing : FileLockPoint → Option ℕ
  | .unlinked _ e | .unlinkedManager _ e | .recycling _ e => some e
  | _ => none

/-- The entry whose waiting threads the thread is going to wake. -/
def announcing : FileLockPoint → Option ℕ
  | .handing _ e | .broadcasting _ e => some e
  | _ => none

def asleepOn : FileLockPoint → Option ℕ
  | .asleep _ e => some e
  | _ => none

def role (p : FileLockPoint) : Option ℕ × Option (ℕ × ℕ) × Option ℕ :=
  (p.owner, p.waiting, p.disposing)

def waitsOn (e : ℕ) (p : FileLockPoint) : Bool := p.waiting.map Prod.snd = some e

theorem entryMutex_of_clearing {p : FileLockPoint} {e : ℕ} (h : p.clearing = some e) :
    p.entryMutex = some e := by
  cases p with
  | handing | broadcasting | handed => exact h
  | _ => cases h

theorem waitsOn_of_asleepOn {p : FileLockPoint} {e : ℕ} (h : p.asleepOn = some e) :
    waitsOn e p = true := by
  cases p with
  | asleep desc e' =>
    obtain rfl := Option.some.inj h
    simp [waitsOn, waiting]
  | _ => cases h

theorem relies_of_entryMutex {p : FileLockPoint} {e : ℕ} (h : p.entryMutex = some e) :
    (∃ desc, p.waiting = some (desc, e)) ∨ (∃ desc, p.located = some (desc, e)) ∨
      p.clearing = some e ∨ p.disposing = some e := by
  cases p with
  | counted desc | testing desc => cases h; exact Or.inl ⟨desc, rfl⟩
  | taken desc => cases h; exact Or.inr (Or.inl ⟨desc, rfl⟩)
  | handing | broadcasting | handed => exact Or.inr (Or.inr (Or.inl h))
  | unlinked => exact Or.inr (Or.inr (Or.inr h))
  | _ => cases h

theorem hasManager_or_owner_of_located {p : FileLockPoint} {desc e : ℕ}
    (h : p.located = some (desc, e)) : p.HasManager ∨ p.owner = some desc := by
  cases p with
  | found => exact Or.inl trivial
  | taken => cases h; exact Or.inr rfl
  | unlockFound => exact Or.inl trivial
  | _ => cases h

end FileLockPoint

/-! ## The invariant -/

namespace FileLockWorld

open FileLockPoint

variable {θ : Type} [Fintype θ] [DecidableEq θ]

def fileAt (w : FileLockWorld θ) (e : ℕ) : Option (ℕ × ℕ) := (w.heap e).map (·.file)

/-- Its `holding_lock`. -/
def holdingAt (w : FileLockWorld θ) (e : ℕ) : Option Bool := (w.heap e).map (·.holdingLock)

/-- Its `num_waiting`. -/
def waitingAt (w : FileLockWorld θ) (e : ℕ) : Option ℕ := (w.heap e).map (·.numWaiting)

/-- What every step keeps. -/
structure Inv (files : OpenFiles) (w : FileLockWorld θ) : Prop where
  manager : OwnedBy HasManager w.point w.mu
  mutex : ∀ e, OwnedBy (fun p => p.entryMutex = some e) w.point (w.entryMu e)
  nodup : w.entries.Nodup
  apart : ∀ e ∈ w.entries, ∀ e' ∈ w.entries, w.fileAt e = w.fileAt e' → e = e'
  /-- The entries are allocated, and each is kept for a thread that owns it or waits for it. -/
  live : ∀ e ∈ w.entries, w.waitingAt e = some (count (waitsOn e) w.point) ∧
    count (waitsOn e) w.point < 2 ^ 64 ∧
      (w.holdingAt e = some false → 0 < count (waitsOn e) w.point)
  owned : ∀ e ∈ w.entries, w.holdingAt e = some true →
    ∃ t desc, (w.point t).owner = some desc ∧ w.fileAt e = some (files.file desc)
  owner : ∀ t desc, (w.point t).owner = some desc →
    ∃ e ∈ w.entries, w.fileAt e = some (files.file desc) ∧ w.holdingAt e = some true
  unique : ∀ t u desc desc', (w.point t).owner = some desc → (w.point u).owner = some desc' →
    files.file desc = files.file desc' → t = u
  waiting : ∀ t desc e, (w.point t).waiting = some (desc, e) →
    e ∈ w.entries ∧ w.fileAt e = some (files.file desc)
  located : ∀ t desc e, (w.point t).located = some (desc, e) →
    e ∈ w.entries ∧ w.fileAt e = some (files.file desc)
  clearing : ∀ t e, (w.point t).clearing = some e → e ∈ w.entries ∧ w.holdingAt e = some false
  disposing : ∀ t e, (w.point t).disposing = some e →
    e ∉ w.entries ∧ w.holdingAt e = some false ∧ w.waitingAt e = some 0
  disposer : ∀ t u e, (w.point t).disposing = some e → (w.point u).disposing = some e → t = u
  disposed : ∀ e, w.heap e ≠ none → e ∉ w.entries → ∃ t, (w.point t).disposing = some e
  awake : ∀ t e, (w.point t).asleepOn = some e → w.holdingAt e = some false →
    ∃ u, (w.point u).announcing = some e

section

variable {files : OpenFiles} {w w' : FileLockWorld θ} {t : θ} {p : FileLockPoint}

omit [DecidableEq θ] in
theorem Inv.of_roles (h : w.Inv files) (hentries : w'.entries = w.entries) (hheap : w'.heap = w.heap)
    (hroles : ∀ u, (w'.point u).role = (w.point u).role)
    (hclearing : ∀ u e, (w'.point u).clearing = some e → (w.point u).clearing = some e)
    (hmanager : OwnedBy HasManager w'.point w'.mu)
    (hmutex : ∀ e, OwnedBy (fun p => p.entryMutex = some e) w'.point (w'.entryMu e))
    (hlocated : ∀ u desc e, (w'.point u).located = some (desc, e) →
      e ∈ w.entries ∧ w.fileAt e = some (files.file desc))
    (hawake : ∀ u e, (w'.point u).asleepOn = some e → w.holdingAt e = some false →
      ∃ v, (w'.point v).announcing = some e) : w'.Inv files := by
  have howner (u : θ) : (w'.point u).owner = (w.point u).owner := congrArg (·.1) (hroles u)
  have hwaiting (u : θ) : (w'.point u).waiting = (w.point u).waiting :=
    congrArg (·.2.1) (hroles u)
  have hdisposing (u : θ) : (w'.point u).disposing = (w.point u).disposing :=
    congrArg (·.2.2) (hroles u)
  have hcount (e : ℕ) : count (waitsOn e) w'.point = count (waitsOn e) w.point := by
    unfold count waitsOn
    simp only [hwaiting]
  have hfile : w'.fileAt = w.fileAt := by unfold fileAt; rw [hheap]
  have hholding : w'.holdingAt = w.holdingAt := by unfold holdingAt; rw [hheap]
  have hnum : w'.waitingAt = w.waitingAt := by unfold waitingAt; rw [hheap]
  constructor
  · exact hmanager
  · exact hmutex
  · rw [hentries]
    exact h.nodup
  · rw [hentries, hfile]
    exact h.apart
  · rw [hentries, hholding, hnum]
    simpa only [hcount] using h.live
  · rw [hentries, hholding, hfile]
    simpa only [howner] using h.owned
  · rw [hentries, hholding, hfile]
    simpa only [howner] using h.owner
  · simpa only [howner] using h.unique
  · rw [hentries, hfile]
    simpa only [hwaiting] using h.waiting
  · rw [hentries, hfile]
    exact hlocated
  · rw [hentries, hholding]
    exact fun u e hu => h.clearing u e (hclearing u e hu)
  · rw [hentries, hholding, hnum]
    simpa only [hdisposing] using h.disposing
  · simpa only [hdisposing] using h.disposer
  · rw [hentries, hheap]
    simpa only [hdisposing] using h.disposed
  · rw [hholding]
    exact hawake

section

variable {u : θ} {α : Type} {k : α} {attr : FileLockPoint → Option α}

omit [Fintype θ] in
theorem of_moved (hpoint : w'.point = update w.point t p) (hp : attr p = none)
    (hu : attr (w'.point u) = some k) : u ≠ t ∧ attr (w.point u) = some k := by
  rw [hpoint, update_apply] at hu
  split_ifs at hu with hut
  · rw [hp] at hu
    cases hu
  · exact ⟨hut, hu⟩

omit [Fintype θ] in
theorem to_moved (hpoint : w'.point = update w.point t p) (ht : attr (w.point t) = none)
    (hu : attr (w.point u) = some k) : attr (w'.point u) = some k := by
  have hut : u ≠ t := by
    rintro rfl
    rw [ht] at hu
    cases hu
  rwa [hpoint, update_of_ne hut]

end

theorem Inv.move (h : w.Inv files) (hpoint : w'.point = update w.point t p)
    (hentries : w'.entries = w.entries) (hheap : w'.heap = w.heap)
    (hrole : p.role = (w.point t).role) (hannouncing : p.announcing = (w.point t).announcing)
    (hclearing : ∀ e, p.clearing = some e → (w.point t).clearing = some e)
    (hmanager : OwnedBy HasManager w'.point w'.mu)
    (hmutex : ∀ e, OwnedBy (fun p => p.entryMutex = some e) w'.point (w'.entryMu e))
    (hlocated : ∀ desc e, p.located = some (desc, e) →
      e ∈ w.entries ∧ w.fileAt e = some (files.file desc))
    (hasleep : ∀ e, p.asleepOn = some e → w.holdingAt e = some true) :
    w'.Inv files := by
  have hsame (u : θ) : (w'.point u).role = (w.point u).role ∧
      (w'.point u).announcing = (w.point u).announcing := by
    rw [hpoint, update_apply]
    split_ifs with hut
    · exact hut ▸ ⟨hrole, hannouncing⟩
    · exact ⟨rfl, rfl⟩
  refine h.of_roles hentries hheap (fun u => (hsame u).1) ?_ hmanager hmutex ?_ fun u e hu hfree => ?_
  · rw [hpoint]
    exact (forall_update_iff w.point (p := fun u r => ∀ e, r.clearing = some e →
      (w.point u).clearing = some e)).2 ⟨hclearing, fun _ _ _ => id⟩
  · rw [hpoint]
    exact (forall_update_iff w.point (p := fun _ r => ∀ desc e, r.located = some (desc, e) →
      e ∈ w.entries ∧ w.fileAt e = some (files.file desc))).2 ⟨hlocated, fun u _ => h.located u⟩
  · simp only [fun v => (hsame v).2]
    rw [hpoint, update_apply] at hu
    split_ifs at hu
    · rw [hasleep e hu] at hfree
      cases hfree
    · exact h.awake u e hu hfree

omit [Fintype θ] in
theorem mutex_keep (h : ∀ e, OwnedBy (fun p => p.entryMutex = some e) w.point (w.entryMu e))
    (hp : p.entryMutex = (w.point t).entryMutex) (e : ℕ) :
    OwnedBy (fun p => p.entryMutex = some e) (update w.point t p) (w.entryMu e) :=
  (h e).keep (by rw [hp])

omit [Fintype θ] in
theorem mutex_take (h : ∀ e, OwnedBy (fun p => p.entryMutex = some e) w.point (w.entryMu e)) {e : ℕ}
    (hfree : w.entryMu e = none) (ht : (w.point t).entryMutex = none) (hp : p.entryMutex = some e)
    (e' : ℕ) : OwnedBy (fun p => p.entryMutex = some e') (update w.point t p)
      (update w.entryMu e (some t) e') := by
  by_cases he : e' = e
  · subst he
    rw [update_self]
    exact (hfree ▸ h e').take hp
  · rw [update_of_ne he]
    apply (h e').keep
    simp [hp, ht, Ne.symm he]

omit [Fintype θ] in
theorem mutex_release (h : ∀ e, OwnedBy (fun p => p.entryMutex = some e) w.point (w.entryMu e))
    {e : ℕ} (ht : (w.point t).entryMutex = some e) (hp : p.entryMutex = none) (e' : ℕ) :
    OwnedBy (fun p => p.entryMutex = some e') (update w.point t p)
      (update w.entryMu e none e') := by
  by_cases he : e' = e
  · subst he
    rw [update_self]
    exact (h e').release ht (by simp [hp])
  · rw [update_of_ne he]
    apply (h e').keep
    simp [hp, ht, Ne.symm he]

section

omit [Fintype θ] [DecidableEq θ]

variable {e : ℕ} {entry entry' : NaClFileLockEntry}

theorem views (hentry : w.heap e = some entry) : w.fileAt e = some entry.file ∧
    w.holdingAt e = some entry.holdingLock ∧ w.waitingAt e = some entry.numWaiting := by
  simp [fileAt, holdingAt, waitingAt, hentry]

theorem heap_eq_none_iff (hentry : w.heap e = some entry)
    (hset : w'.heap = update w.heap e (some entry')) (e' : ℕ) :
    w'.heap e' = none ↔ w.heap e' = none := by
  rw [hset, update_apply]
  split_ifs with he'
  · rw [he', hentry]
    exact iff_of_false nofun nofun
  · rfl

theorem fileAt_of_set (hset : w'.heap = update w.heap e (some entry')) :
    w'.fileAt = update w.fileAt e (some entry'.file) := by
  funext e'
  simp only [fileAt, hset, update_apply]
  split_ifs <;> rfl

theorem holdingAt_of_set (hset : w'.heap = update w.heap e (some entry')) :
    w'.holdingAt = update w.holdingAt e (some entry'.holdingLock) := by
  funext e'
  simp only [holdingAt, hset, update_apply]
  split_ifs <;> rfl

theorem waitingAt_of_set (hset : w'.heap = update w.heap e (some entry')) :
    w'.waitingAt = update w.waitingAt e (some entry'.numWaiting) := by
  funext e'
  simp only [waitingAt, hset, update_apply]
  split_ifs <;> rfl

theorem fileAt_eq_of_set (hentry : w.heap e = some entry)
    (hset : w'.heap = update w.heap e (some entry')) (hfile : entry'.file = entry.file) :
    w'.fileAt = w.fileAt := by
  rw [fileAt_of_set hset, hfile, ← (views hentry).1, update_eq_self]

end

/-- A step that moves one thread, which has the mutex of an entry then, and changes `holding_lock` and
`num_waiting` of that entry. -/
theorem Inv.of_entry (h : w.Inv files) {e n : ℕ} {b : Bool} {entry : NaClFileLockEntry}
    (he : e ∈ w.entries) (hentry : w.heap e = some entry)
    (hpoint : w'.point = update w.point t p) (hentries : w'.entries = w.entries)
    (hset : w'.heap = update w.heap e (some ⟨entry.file, b, n⟩))
    (hmanager : OwnedBy HasManager w'.point w'.mu)
    (hmutex : ∀ e, OwnedBy (fun p => p.entryMutex = some e) w'.point (w'.entryMu e))
    (hp : p.entryMutex = some e ∧ p.disposing = none ∧ p.asleepOn = none)
    (hq : (w.point t).disposing = none ∧ (w.point t).announcing = none)
    (hcount : ∀ e', e' ≠ e → waitsOn e' p = waitsOn e' (w.point t))
    (hadd : n + (waitsOn e (w.point t)).toNat = count (waitsOn e) w.point + (waitsOn e p).toNat)
    (hlt : n < 2 ^ 64) (hkept : b = false → 0 < n)
    (hold : ∀ desc, (w.point t).owner = some desc → w.fileAt e = some (files.file desc))
    (hnew : ∀ desc, p.owner = some desc → w.fileAt e = some (files.file desc) ∧ b = true)
    (howned : b = true → p.owner ≠ none ∨
      w.holdingAt e = some true ∧ (w.point t).owner = none)
    (howner : ∀ u desc, u ≠ t → (w.point u).owner = some desc →
      w.fileAt e = some (files.file desc) → b = true ∧ p.owner = none)
    (hwaiting : ∀ desc e', p.waiting = some (desc, e') →
      e' ∈ w.entries ∧ w.fileAt e' = some (files.file desc))
    (hlocated : ∀ desc e', p.located = some (desc, e') →
      e' ∈ w.entries ∧ w.fileAt e' = some (files.file desc))
    (hclearing : ∀ e', p.clearing = some e' → e' = e ∧ b = false)
    (hawake : b = false → w.holdingAt e = some false ∨ p.announcing = some e) : w'.Inv files := by
  have hheap := heap_eq_none_iff hentry hset
  have hfile := fileAt_eq_of_set hentry hset rfl
  have hholding := holdingAt_of_set hset
  have hnum := waitingAt_of_set hset
  have hself : w'.point t = p := by rw [hpoint, update_self]
  have hother {u : θ} (hut : u ≠ t) : w'.point u = w.point u := by
    rw [hpoint, update_of_ne hut]
  have hholdingSelf : w'.holdingAt e = some b := by rw [hholding, update_self]
  have hholdingOther {e' : ℕ} (he' : e' ≠ e) : w'.holdingAt e' = w.holdingAt e' := by
    rw [hholding, update_of_ne he']
  have hcountOf (e' : ℕ) : count (waitsOn e') w'.point =
      update (fun e' => count (waitsOn e') w.point) e n e' := by
    have hupdate := count_update_add (waitsOn e') w.point t p
    rw [hpoint]
    by_cases he' : e' = e
    · subst he'
      rw [update_self]
      omega
    · rw [update_of_ne he']
      rw [hcount e' he'] at hupdate
      omega
  constructor
  · exact hmanager
  · exact hmutex
  · rw [hentries]
    exact h.nodup
  · rw [hentries, hfile]
    exact h.apart
  · rw [hentries]
    intro e' he'
    rw [hholding, hnum, hcountOf]
    simp only [update_apply]
    split_ifs with heq
    · exact ⟨rfl, hlt, fun hb => hkept (Option.some.inj hb)⟩
    · exact h.live e' he'
  · rw [hentries, hfile]
    intro e' he' hb
    by_cases heq : e' = e
    · subst heq
      rw [hholdingSelf] at hb
      rcases howned (Option.some.inj hb) with hp' | ⟨htrue, hnone⟩
      · obtain ⟨desc, hdesc⟩ := Option.ne_none_iff_exists'.1 hp'
        exact ⟨t, desc, hself ▸ hdesc, (hnew desc hdesc).1⟩
      · obtain ⟨u, desc, hu, hf⟩ := h.owned e' he' htrue
        have hut : u ≠ t := by
          rintro rfl
          rw [hnone] at hu
          cases hu
        exact ⟨u, desc, (hother hut).symm ▸ hu, hf⟩
    · rw [hholdingOther heq] at hb
      obtain ⟨u, desc, hu, hf⟩ := h.owned e' he' hb
      have hut : u ≠ t := by
        rintro rfl
        exact heq (h.apart e' he' e he (hf.trans (hold desc hu).symm))
      exact ⟨u, desc, (hother hut).symm ▸ hu, hf⟩
  · rw [hentries, hfile]
    intro u desc hu
    by_cases hut : u = t
    · subst hut
      rw [hself] at hu
      obtain ⟨hf, rfl⟩ := hnew desc hu
      exact ⟨e, he, hf, hholdingSelf⟩
    · rw [hother hut] at hu
      obtain ⟨e', he', hf, hb⟩ := h.owner u desc hu
      refine ⟨e', he', hf, ?_⟩
      by_cases heq : e' = e
      · subst heq
        rw [hholdingSelf, (howner u desc hut hu hf).1]
      · rw [hholdingOther heq, hb]
  · intro u v desc desc' hu hv hf
    by_cases hut : u = t
    · by_cases hvt : v = t
      · rw [hut, hvt]
      · subst hut
        rw [hself] at hu
        rw [hother hvt] at hv
        have hnone := (howner v desc' hvt hv (hf ▸ (hnew desc hu).1)).2
        rw [hnone] at hu
        cases hu
    · rw [hother hut] at hu
      by_cases hvt : v = t
      · subst hvt
        rw [hself] at hv
        have hnone := (howner u desc hut hu (hf ▸ (hnew desc' hv).1)).2
        rw [hnone] at hv
        cases hv
      · rw [hother hvt] at hv
        exact h.unique u v desc desc' hu hv hf
  · rw [hentries, hfile, hpoint]
    exact (forall_update_iff w.point (p := fun _ r => ∀ desc e, r.waiting = some (desc, e) →
      e ∈ w.entries ∧ w.fileAt e = some (files.file desc))).2 ⟨hwaiting, fun u _ => h.waiting u⟩
  · rw [hentries, hfile, hpoint]
    exact (forall_update_iff w.point (p := fun _ r => ∀ desc e, r.located = some (desc, e) →
      e ∈ w.entries ∧ w.fileAt e = some (files.file desc))).2 ⟨hlocated, fun u _ => h.located u⟩
  · rw [hentries]
    intro u e' hu
    by_cases hut : u = t
    · subst hut
      rw [hself] at hu
      obtain ⟨rfl, rfl⟩ := hclearing e' hu
      exact ⟨he, hholdingSelf⟩
    · -- Another thread that has cleared the entry would have its mutex.
      have heq : e' ≠ e := by
        rintro rfl
        exact hut ((hmutex e').eq (entryMutex_of_clearing hu) (hself.symm ▸ hp.1))
      rw [hother hut] at hu
      rw [hholdingOther heq]
      exact h.clearing u e' hu
  · rw [hentries]
    intro u e' hu
    obtain ⟨-, hu⟩ := of_moved hpoint hp.2.1 hu
    obtain ⟨hnot, hb, hn⟩ := h.disposing u e' hu
    have heq : e' ≠ e := fun heq => hnot (heq ▸ he)
    rw [hholdingOther heq, hnum, update_of_ne heq]
    exact ⟨hnot, hb, hn⟩
  · intro u v e' hu hv
    exact h.disposer u v e' (of_moved hpoint hp.2.1 hu).2 (of_moved hpoint hp.2.1 hv).2
  · rw [hentries]
    intro e' hheap' hnot
    obtain ⟨u, hu⟩ := h.disposed e' (fun hnone => hheap' ((hheap e').2 hnone)) hnot
    exact ⟨u, to_moved hpoint hq.1 hu⟩
  · intro u e' hu hfree
    obtain ⟨-, hu⟩ := of_moved hpoint hp.2.2 hu
    have hannounced (hfree' : w.holdingAt e' = some false) :
        ∃ v, (w'.point v).announcing = some e' := by
      obtain ⟨v, hv⟩ := h.awake u e' hu hfree'
      exact ⟨v, to_moved hpoint hq.2 hv⟩
    by_cases heq : e' = e
    · subst heq
      rw [hholdingSelf] at hfree
      rcases hawake (Option.some.inj hfree) with hold' | hp'
      · exact hannounced hold'
      · exact ⟨t, hself.symm ▸ hp'⟩
    · rw [hholdingOther heq] at hfree
      exact hannounced hfree

section Entry

variable {desc e : ℕ} {entry : NaClFileLockEntry}

theorem Inv.counted (h : w.Inv files) (ht : w.point t = .found desc e)
    (hentry : w.heap e = some entry) (hlt : entry.numWaiting + 1 < 2 ^ 64)
    (hfree : w.entryMu e = none) :
    (({ w with entryMu := update w.entryMu e (some t) }.setEntry e
      { entry with numWaiting := entry.numWaiting + 1 }).goto t (.counted desc e)).Inv files := by
  obtain ⟨he, hf⟩ := h.located t desc e (by rw [ht]; rfl)
  obtain ⟨hfile, hholding, hnum⟩ := views hentry
  have hcount : entry.numWaiting = count (waitsOn e) w.point :=
    Option.some.inj (hnum.symm.trans (h.live e he).1)
  have hq : (w.point t).owner = none := by rw [ht]; rfl
  refine h.of_entry he hentry rfl rfl rfl ?_ ?_ ?_ ?_ ?_ ?_ hlt (fun _ => Nat.succ_pos _) ?_ ?_ ?_ ?_
    ?_ ?_ ?_ ?_
  · exact h.manager.keep (by rw [ht]; exact Iff.rfl)
  · exact mutex_take h.mutex hfree (by rw [ht]; rfl) rfl
  · exact ⟨rfl, rfl, rfl⟩
  · rw [ht]
    exact ⟨rfl, rfl⟩
  · intro e' he'
    rw [ht]
    simp [waitsOn, FileLockPoint.waiting, Ne.symm he']
  · rw [ht, hcount]
    simp [waitsOn, FileLockPoint.waiting]
  · intro desc' howner
    rw [hq] at howner
    cases howner
  · exact nofun
  · intro hb
    exact Or.inr ⟨hholding.trans (congrArg some hb), hq⟩
  · intro u desc' _ hu hf'
    obtain ⟨e', he', hf'', hb⟩ := h.owner u desc' hu
    obtain rfl := h.apart e' he' e he (hf''.trans hf'.symm)
    exact ⟨Option.some.inj (hholding.symm.trans hb), rfl⟩
  · rintro desc' e' ⟨⟩
    exact ⟨he, hf⟩
  · exact nofun
  · exact nofun
  · intro hb
    exact Or.inl (hholding.trans (congrArg some hb))

theorem Inv.taken (h : w.Inv files) (ht : w.point t = .testing desc e)
    (hentry : w.heap e = some entry) (hfree : entry.holdingLock = false) :
    ((w.setEntry e { entry with holdingLock := true, numWaiting := entry.numWaiting - 1 }).goto t
      (.taken desc e)).Inv files := by
  obtain ⟨he, hf⟩ := h.waiting t desc e (by rw [ht]; rfl)
  obtain ⟨hfile, hholding, hnum⟩ := views hentry
  obtain ⟨hlive, hlt, -⟩ := h.live e he
  have hcount : entry.numWaiting = count (waitsOn e) w.point :=
    Option.some.inj (hnum.symm.trans hlive)
  have hwaits : waitsOn e (w.point t) = true := by rw [ht]; simp [waitsOn, FileLockPoint.waiting]
  have hpos : 0 < count (waitsOn e) w.point := count_pos_of hwaits
  have hq : (w.point t).owner = none := by rw [ht]; rfl
  have hno (u : θ) (desc' : ℕ) (hu : (w.point u).owner = some desc') :
      w.fileAt e ≠ some (files.file desc') := by
    intro hf'
    obtain ⟨e', he', hf'', hb⟩ := h.owner u desc' hu
    obtain rfl := h.apart e' he' e he (hf''.trans hf'.symm)
    rw [hholding, hfree] at hb
    cases hb
  refine h.of_entry he hentry rfl rfl rfl ?_ ?_ ⟨rfl, rfl, rfl⟩ ?_ ?_ ?_ ?_ nofun ?_ ?_
    (fun _ => Or.inl nofun) ?_ nofun ?_ nofun nofun
  · exact h.manager.keep (by rw [ht]; exact Iff.rfl)
  · exact mutex_keep (w := w) h.mutex (by rw [ht]; rfl)
  · rw [ht]
    exact ⟨rfl, rfl⟩
  · intro e' he'
    rw [ht]
    simp [waitsOn, FileLockPoint.waiting, Ne.symm he']
  · rw [hwaits, hcount]
    simp only [waitsOn, FileLockPoint.waiting, Bool.toNat_true]
    simp
    omega
  · omega
  · intro desc' howner
    rw [hq] at howner
    cases howner
  · rintro desc' ⟨⟩
    exact ⟨hf, rfl⟩
  · exact fun u desc' _ hu hf' => absurd hf' (hno u desc' hu)
  · rintro desc' e' ⟨⟩
    exact ⟨he, hf⟩

omit [DecidableEq θ] in
theorem Inv.holding_of_unlockFound (h : w.Inv files) (ht : w.point t = .unlockFound desc e) :
    e ∈ w.entries ∧ w.fileAt e = some (files.file desc) ∧ w.holdingAt e = some true := by
  obtain ⟨he, hf⟩ := h.located t desc e (by rw [ht]; rfl)
  obtain ⟨e', he', hf', hb⟩ := h.owner t desc (by rw [ht]; rfl)
  obtain rfl := h.apart e' he' e he (hf'.trans hf.symm)
  exact ⟨he, hf, hb⟩

theorem Inv.handing (h : w.Inv files) (ht : w.point t = .unlockFound desc e)
    (hentry : w.heap e = some entry) (hpos : entry.numWaiting ≠ 0) (hfree : w.entryMu e = none) :
    (({ w with entryMu := update w.entryMu e (some t) }.setEntry e
      { entry with holdingLock := false }).goto t (.handing desc e)).Inv files := by
  obtain ⟨he, hf, hb⟩ := h.holding_of_unlockFound ht
  obtain ⟨hfile, hholding, hnum⟩ := views hentry
  obtain ⟨hlive, hlt, -⟩ := h.live e he
  have hcount : entry.numWaiting = count (waitsOn e) w.point :=
    Option.some.inj (hnum.symm.trans hlive)
  have hq : (w.point t).owner = some desc := by rw [ht]; rfl
  refine h.of_entry he hentry rfl rfl rfl ?_ ?_ ⟨rfl, rfl, rfl⟩ ?_ ?_ ?_ (hcount ▸ hlt) ?_ ?_ nofun
    nofun ?_ nofun nofun ?_ (fun _ => Or.inr rfl)
  · exact h.manager.keep (by rw [ht]; exact Iff.rfl)
  · exact mutex_take h.mutex hfree (by rw [ht]; rfl) rfl
  · rw [ht]
    exact ⟨rfl, rfl⟩
  · intro e' he'
    rw [ht]
    rfl
  · rw [ht, hcount]
    rfl
  · exact fun _ => Nat.pos_of_ne_zero hpos
  · intro desc' howner
    obtain rfl := Option.some.inj (hq.symm.trans howner)
    exact hf
  · intro u desc' hut hu hf'
    exact absurd (h.unique u t desc' desc hu hq (Option.some.inj (hf'.symm.trans hf))) hut
  · rintro e' ⟨⟩
    exact ⟨rfl, rfl⟩

theorem Inv.unlinked (h : w.Inv files) (ht : w.point t = .unlockFound desc e)
    (hentry : w.heap e = some entry) (hzero : entry.numWaiting = 0) (hfree : w.entryMu e = none)
    (hset : w'.heap = update w.heap e (some { entry with holdingLock := false }))
    (hmu : w'.mu = w.mu) (hentryMu : w'.entryMu = update w.entryMu e (some t))
    (hentries : w'.entries = w.entries.erase e)
    (hpoint : w'.point = update w.point t (.unlinked desc e)) : w'.Inv files := by
  obtain ⟨he, hf, hb⟩ := h.holding_of_unlockFound ht
  obtain ⟨hfile, hholding, hnum⟩ := views hentry
  have hcount : count (waitsOn e) w.point = 0 :=
    Option.some.inj ((h.live e he).1.symm.trans (hnum.trans (congrArg some hzero)))
  have hq : (w.point t).owner = some desc := by rw [ht]; rfl
  have hmem (e' : ℕ) : e' ∈ w.entries.erase e ↔ e' ≠ e ∧ e' ∈ w.entries := h.nodup.mem_erase_iff
  have hfileAt := fileAt_eq_of_set hentry hset rfl
  have hholdingAt := holdingAt_of_set hset
  have hwaitingAt : w'.waitingAt = w.waitingAt := by
    rw [waitingAt_of_set hset, ← hnum, update_eq_self]
  have hcountOf (e' : ℕ) : count (waitsOn e') w'.point = count (waitsOn e') w.point := by
    have hupdate := count_update_add (waitsOn e') w.point t (.unlinked desc e)
    rw [ht] at hupdate
    rw [hpoint]
    exact Nat.add_right_cancel hupdate
  have hself : w'.point t = .unlinked desc e := by rw [hpoint, update_self]
  have hsplit {u : θ} {e' : ℕ} (hu : (w'.point u).disposing = some e') :
      u = t ∧ e' = e ∨ e' ≠ e ∧ (w.point u).disposing = some e' := by
    by_cases hut : u = t
    · rw [hut, hself] at hu
      exact Or.inl ⟨hut, (Option.some.inj hu).symm⟩
    · rw [hpoint, update_of_ne hut] at hu
      exact Or.inr ⟨fun heq => (h.disposing u e' hu).1 (heq ▸ he), hu⟩
  have hnotWaiting {u : θ} (hu : waitsOn e (w.point u) = true) : False := by
    have := count_pos_of hu
    omega
  have hholdingOther {e' : ℕ} (he' : e' ≠ e) : w'.holdingAt e' = w.holdingAt e' := by
    rw [hholdingAt, update_of_ne he']
  constructor
  · rw [hpoint, hmu]
    exact h.manager.keep (by rw [ht]; exact Iff.rfl)
  · rw [hpoint, hentryMu]
    exact mutex_take h.mutex hfree (by rw [ht]; rfl) rfl
  · rw [hentries]
    exact h.nodup.erase e
  · rw [hentries, hfileAt]
    intro e₁ he₁ e₂ he₂
    exact h.apart e₁ ((hmem e₁).1 he₁).2 e₂ ((hmem e₂).1 he₂).2
  · rw [hentries, hwaitingAt]
    intro e' he'
    obtain ⟨hne, he'⟩ := (hmem e').1 he'
    rw [hcountOf, hholdingOther hne]
    exact h.live e' he'
  · rw [hentries, hfileAt]
    intro e' he' hb'
    obtain ⟨hne, he'⟩ := (hmem e').1 he'
    rw [hholdingOther hne] at hb'
    obtain ⟨u, desc', hu, hf'⟩ := h.owned e' he' hb'
    have hut : u ≠ t := by
      rintro rfl
      obtain rfl := Option.some.inj (hu.symm.trans hq)
      exact hne (h.apart e' he' e he (hf'.trans hf.symm))
    refine ⟨u, desc', ?_, hf'⟩
    rw [hpoint, update_of_ne hut, hu]
  · rw [hentries, hfileAt]
    intro u desc' hu
    obtain ⟨hut, hu⟩ := of_moved hpoint rfl hu
    obtain ⟨e', he', hf', hb'⟩ := h.owner u desc' hu
    have hne : e' ≠ e := by
      rintro rfl
      exact hut (h.unique u t desc' desc hu hq (Option.some.inj (hf'.symm.trans hf)))
    refine ⟨e', (hmem e').2 ⟨hne, he'⟩, hf', ?_⟩
    rw [hholdingOther hne, hb']
  · intro u v d d' hu hv
    exact h.unique u v d d' (of_moved hpoint rfl hu).2 (of_moved hpoint rfl hv).2
  · rw [hentries, hfileAt]
    intro u desc' e' hu
    obtain ⟨-, hu⟩ := of_moved hpoint rfl hu
    obtain ⟨he', hf'⟩ := h.waiting u desc' e' hu
    refine ⟨(hmem e').2 ⟨?_, he'⟩, hf'⟩
    rintro rfl
    exact hnotWaiting (u := u) (by simp [waitsOn, hu])
  · rw [hentries, hfileAt]
    intro u desc' e' hu
    obtain ⟨hut, hu⟩ := of_moved hpoint rfl hu
    obtain ⟨he', hf'⟩ := h.located u desc' e' hu
    refine ⟨(hmem e').2 ⟨?_, he'⟩, hf'⟩
    rintro rfl
    -- It has `self->mu`, or the file.
    rcases hasManager_or_owner_of_located hu with hmanager | howner
    · exact hut (h.manager.eq hmanager (by rw [ht]; trivial))
    · exact hut (h.unique u t desc' desc howner hq (Option.some.inj (hf'.symm.trans hf)))
  · rw [hentries]
    intro u e' hu
    obtain ⟨-, hu⟩ := of_moved hpoint rfl hu
    obtain ⟨he', hb'⟩ := h.clearing u e' hu
    have hne : e' ≠ e := by
      rintro rfl
      rw [hb] at hb'
      cases hb'
    rw [hholdingOther hne]
    exact ⟨(hmem e').2 ⟨hne, he'⟩, hb'⟩
  · rw [hentries, hwaitingAt]
    intro u e' hu
    rcases hsplit hu with ⟨rfl, rfl⟩ | ⟨hne, hu⟩
    · refine ⟨fun hin => ((hmem e').1 hin).1 rfl, ?_, hnum.trans (congrArg some hzero)⟩
      rw [hholdingAt, update_self]
    · obtain ⟨hnot, hb', hn⟩ := h.disposing u e' hu
      rw [hholdingOther hne]
      exact ⟨fun hin => hnot ((hmem e').1 hin).2, hb', hn⟩
  · intro u v e' hu hv
    rcases hsplit hu with ⟨rfl, rfl⟩ | ⟨hne, hu⟩
    · rcases hsplit hv with ⟨rfl, -⟩ | ⟨hne, -⟩
      · rfl
      · exact absurd rfl hne
    · rcases hsplit hv with ⟨-, heq⟩ | ⟨-, hv⟩
      · exact absurd heq hne
      · exact h.disposer u v e' hu hv
  · rw [hentries]
    intro e' hheap hnot
    by_cases hne : e' = e
    · exact ⟨t, by rw [hself, hne]; rfl⟩
    · obtain ⟨u, hu⟩ := h.disposed e' (fun hnone => hheap ((heap_eq_none_iff hentry hset e').2 hnone))
        fun he' => hnot ((hmem e').2 ⟨hne, he'⟩)
      exact ⟨u, to_moved hpoint (by rw [ht]; rfl) hu⟩
  · intro u e' hu hb'
    obtain ⟨-, hu⟩ := of_moved hpoint rfl hu
    have hne : e' ≠ e := by
      rintro rfl
      exact hnotWaiting (waitsOn_of_asleepOn hu)
    rw [hholdingOther hne] at hb'
    obtain ⟨v, hv⟩ := h.awake u e' hu hb'
    exact ⟨v, to_moved hpoint (by rw [ht]; rfl) hv⟩

omit [DecidableEq θ] in
theorem Inv.heap_ne_none (h : w.Inv files) (he : e ∈ w.entries) : w.heap e ≠ none := by
  intro hnone
  have hlive := (h.live e he).1
  simp [waitingAt, hnone] at hlive

omit [DecidableEq θ] in
theorem Inv.entryMu_eq_none (h : w.Inv files) (hnone : w.heap e = none) : w.entryMu e = none := by
  rw [Option.eq_none_iff_forall_ne_some]
  intro u hu
  rcases relies_of_entryMutex ((h.mutex e u).2 hu) with ⟨desc, hw⟩ | ⟨desc, hl⟩ | hc | hd
  · exact h.heap_ne_none (h.waiting u desc e hw).1 hnone
  · exact h.heap_ne_none (h.located u desc e hl).1 hnone
  · exact h.heap_ne_none (h.clearing u e hc).1 hnone
  · have hholding := (h.disposing u e hd).2.1
    simp [holdingAt, hnone] at hholding

theorem Inv.created (h : w.Inv files) (ht : w.point t = .lockManager desc)
    (hnone : w.heap e = none) (hnew : ∀ e' ∈ w.entries, w.fileAt e' ≠ some (files.file desc))
    (hset : w'.heap = update w.heap e (some ⟨files.file desc, true, 0⟩))
    (hfree : w.mu = none) (hmu : w'.mu = some t)
    (hentryMu : w'.entryMu = update w.entryMu e none) (hentries : w'.entries = e :: w.entries)
    (hpoint : w'.point = update w.point t (.created desc)) : w'.Inv files := by
  have hnot : e ∉ w.entries := fun he => h.heap_ne_none he hnone
  have hfileAt := fileAt_of_set hset
  have hholdingAt := holdingAt_of_set hset
  have hwaitingAt := waitingAt_of_set hset
  have hother {e' : ℕ} (he' : e' ∈ w.entries) : e' ≠ e := fun heq => hnot (heq ▸ he')
  have hviews {e' : ℕ} (hne : e' ≠ e) : w'.fileAt e' = w.fileAt e' ∧
      w'.holdingAt e' = w.holdingAt e' ∧ w'.waitingAt e' = w.waitingAt e' := by
    rw [hfileAt, hholdingAt, hwaitingAt]
    simp only [update_of_ne hne, and_self]
  have hself : w'.fileAt e = some (files.file desc) ∧ w'.holdingAt e = some true ∧
      w'.waitingAt e = some 0 := by
    rw [hfileAt, hholdingAt, hwaitingAt]
    simp only [update_self, and_self]
  have hcountOf (e' : ℕ) : count (waitsOn e') w'.point = count (waitsOn e') w.point := by
    have hupdate := count_update_add (waitsOn e') w.point t (.created desc)
    rw [ht] at hupdate
    rw [hpoint]
    exact Nat.add_right_cancel hupdate
  have hzero : count (waitsOn e) w.point = 0 := by
    by_contra hne
    obtain ⟨u, hu⟩ := exists_of_count_pos (Nat.pos_of_ne_zero hne)
    obtain ⟨⟨desc', e'⟩, hw, heq⟩ := Option.map_eq_some_iff.1 (of_decide_eq_true hu)
    obtain rfl : e' = e := heq
    exact hnot (h.waiting u desc' e' hw).1
  have hpt : w'.point t = .created desc := by rw [hpoint, update_self]
  -- The owners of other files are other threads.
  have hsplit {u : θ} {desc' : ℕ} (hu : (w'.point u).owner = some desc') :
      u = t ∧ desc' = desc ∨ files.file desc' ≠ files.file desc ∧ (w.point u).owner = some desc' := by
    by_cases hut : u = t
    · rw [hut, hpt] at hu
      exact Or.inl ⟨hut, (Option.some.inj hu).symm⟩
    · rw [hpoint, update_of_ne hut] at hu
      obtain ⟨e', he', hf, -⟩ := h.owner u desc' hu
      exact Or.inr ⟨fun heq => hnew e' he' (heq ▸ hf), hu⟩
  constructor
  · rw [hpoint, hmu]
    exact (hfree ▸ h.manager).take trivial
  · rw [hpoint, hentryMu, ← h.entryMu_eq_none hnone, update_eq_self]
    exact mutex_keep h.mutex (by rw [ht]; rfl)
  · rw [hentries]
    exact List.nodup_cons.2 ⟨hnot, h.nodup⟩
  · rw [hentries]
    intro e₁ he₁ e₂ he₂ heq
    rcases List.mem_cons.1 he₁ with rfl | hmem₁
    · rcases List.mem_cons.1 he₂ with rfl | hmem₂
      · rfl
      · rw [hself.1, (hviews (hother hmem₂)).1] at heq
        exact absurd heq.symm (hnew e₂ hmem₂)
    · rw [(hviews (hother hmem₁)).1] at heq
      rcases List.mem_cons.1 he₂ with rfl | hmem₂
      · rw [hself.1] at heq
        exact absurd heq (hnew e₁ hmem₁)
      · rw [(hviews (hother hmem₂)).1] at heq
        exact h.apart e₁ hmem₁ e₂ hmem₂ heq
  · rw [hentries, List.forall_mem_cons]
    constructor
    · rw [hcountOf, hzero, hself.2.1, hself.2.2]
      exact ⟨rfl, by decide, nofun⟩
    · intro e' he'
      rw [hcountOf, (hviews (hother he')).2.1, (hviews (hother he')).2.2]
      exact h.live e' he'
  · rw [hentries, List.forall_mem_cons]
    constructor
    · exact fun _ => ⟨t, desc, by rw [hpt]; rfl, hself.1⟩
    · intro e' he' hb
      rw [(hviews (hother he')).2.1] at hb
      rw [(hviews (hother he')).1]
      obtain ⟨u, desc', hu, hf⟩ := h.owned e' he' hb
      exact ⟨u, desc', to_moved hpoint (by rw [ht]; rfl) hu, hf⟩
  · rw [hentries]
    intro u desc' hu
    rcases hsplit hu with ⟨-, rfl⟩ | ⟨-, hu⟩
    · exact ⟨e, List.mem_cons_self, hself.1, hself.2.1⟩
    · obtain ⟨e', he', hf, hb⟩ := h.owner u desc' hu
      refine ⟨e', List.mem_cons_of_mem e he', ?_⟩
      rw [(hviews (hother he')).1, (hviews (hother he')).2.1]
      exact ⟨hf, hb⟩
  · intro u v d d' hu hv hf
    rcases hsplit hu with ⟨rfl, rfl⟩ | ⟨hne, hu⟩
    · rcases hsplit hv with ⟨rfl, -⟩ | ⟨hne, -⟩
      · rfl
      · exact absurd hf.symm hne
    · rcases hsplit hv with ⟨-, rfl⟩ | ⟨-, hv⟩
      · exact absurd hf hne
      · exact h.unique u v d d' hu hv hf
  · rw [hentries]
    intro u desc' e' hu
    obtain ⟨he', hf⟩ := h.waiting u desc' e' (of_moved hpoint rfl hu).2
    rw [(hviews (hother he')).1]
    exact ⟨List.mem_cons_of_mem e he', hf⟩
  · rw [hentries]
    intro u desc' e' hu
    obtain ⟨he', hf⟩ := h.located u desc' e' (of_moved hpoint rfl hu).2
    rw [(hviews (hother he')).1]
    exact ⟨List.mem_cons_of_mem e he', hf⟩
  · rw [hentries]
    intro u e' hu
    obtain ⟨he', hb⟩ := h.clearing u e' (of_moved hpoint rfl hu).2
    rw [(hviews (hother he')).2.1]
    exact ⟨List.mem_cons_of_mem e he', hb⟩
  · rw [hentries]
    intro u e' hu
    obtain ⟨hnot', hb, hn⟩ := h.disposing u e' (of_moved hpoint rfl hu).2
    have hne : e' ≠ e := by
      rintro rfl
      simp [holdingAt, hnone] at hb
    rw [(hviews hne).2.1, (hviews hne).2.2]
    exact ⟨fun hin => (List.mem_cons.1 hin).elim hne hnot', hb, hn⟩
  · intro u v e' hu hv
    exact h.disposer u v e' (of_moved hpoint rfl hu).2 (of_moved hpoint rfl hv).2
  · rw [hentries, hset]
    intro e' hheap hnot'
    obtain ⟨hne, hnot'⟩ := not_or.1 (fun hor => hnot' (List.mem_cons.2 hor))
    rw [update_of_ne hne] at hheap
    obtain ⟨u, hu⟩ := h.disposed e' hheap hnot'
    exact ⟨u, to_moved hpoint (by rw [ht]; rfl) hu⟩
  · intro u e' hu hb
    obtain ⟨-, hu⟩ := of_moved hpoint rfl hu
    have hne : e' ≠ e := by
      rintro rfl
      rw [hself.2.1] at hb
      cases hb
    rw [(hviews hne).2.1] at hb
    obtain ⟨v, hv⟩ := h.awake u e' hu hb
    exact ⟨v, to_moved hpoint (by rw [ht]; rfl) hv⟩

theorem Inv.recycled (h : w.Inv files) (ht : w.point t = .recycling desc e)
    (hset : w'.heap = update w.heap e none) (hmu : w'.mu = w.mu)
    (hentryMu : w'.entryMu = w.entryMu) (hentries : w'.entries = w.entries)
    (hpoint : w'.point = update w.point t (.dropFileLock desc)) : w'.Inv files := by
  have hq : (w.point t).disposing = some e := by rw [ht]; rfl
  obtain ⟨hnot, -, -⟩ := h.disposing t e hq
  have hother {e' : ℕ} (he' : e' ∈ w.entries) : e' ≠ e := fun heq => hnot (heq ▸ he')
  have hviews {e' : ℕ} (hne : e' ≠ e) : w'.fileAt e' = w.fileAt e' ∧
      w'.holdingAt e' = w.holdingAt e' ∧ w'.waitingAt e' = w.waitingAt e' := by
    simp only [fileAt, holdingAt, waitingAt, hset, update_of_ne hne, and_self]
  have hcountOf (e' : ℕ) : count (waitsOn e') w'.point = count (waitsOn e') w.point := by
    have hupdate := count_update_add (waitsOn e') w.point t (.dropFileLock desc)
    rw [ht] at hupdate
    rw [hpoint]
    exact Nat.add_right_cancel hupdate
  constructor
  · rw [hpoint, hmu]
    exact h.manager.keep (by rw [ht]; exact Iff.rfl)
  · rw [hpoint, hentryMu]
    exact mutex_keep h.mutex (by rw [ht]; rfl)
  · rw [hentries]
    exact h.nodup
  · rw [hentries]
    intro e₁ he₁ e₂ he₂
    rw [(hviews (hother he₁)).1, (hviews (hother he₂)).1]
    exact h.apart e₁ he₁ e₂ he₂
  · rw [hentries]
    intro e' he'
    rw [hcountOf, (hviews (hother he')).2.1, (hviews (hother he')).2.2]
    exact h.live e' he'
  · rw [hentries]
    intro e' he' hb
    rw [(hviews (hother he')).2.1] at hb
    rw [(hviews (hother he')).1]
    obtain ⟨u, desc', hu, hf⟩ := h.owned e' he' hb
    exact ⟨u, desc', to_moved hpoint (by rw [ht]; rfl) hu, hf⟩
  · rw [hentries]
    intro u desc' hu
    obtain ⟨e', he', hf, hb⟩ := h.owner u desc' (of_moved hpoint rfl hu).2
    refine ⟨e', he', ?_⟩
    rw [(hviews (hother he')).1, (hviews (hother he')).2.1]
    exact ⟨hf, hb⟩
  · intro u v d d' hu hv
    exact h.unique u v d d' (of_moved hpoint rfl hu).2 (of_moved hpoint rfl hv).2
  · rw [hentries]
    intro u desc' e' hu
    obtain ⟨he', hf⟩ := h.waiting u desc' e' (of_moved hpoint rfl hu).2
    rw [(hviews (hother he')).1]
    exact ⟨he', hf⟩
  · rw [hentries]
    intro u desc' e' hu
    obtain ⟨he', hf⟩ := h.located u desc' e' (of_moved hpoint rfl hu).2
    rw [(hviews (hother he')).1]
    exact ⟨he', hf⟩
  · rw [hentries]
    intro u e' hu
    obtain ⟨he', hb⟩ := h.clearing u e' (of_moved hpoint rfl hu).2
    rw [(hviews (hother he')).2.1]
    exact ⟨he', hb⟩
  · rw [hentries]
    intro u e' hu
    obtain ⟨hut, hu⟩ := of_moved hpoint rfl hu
    have hne : e' ≠ e := by
      rintro rfl
      exact hut (h.disposer u t e' hu hq)
    rw [(hviews hne).2.1, (hviews hne).2.2]
    exact h.disposing u e' hu
  · intro u v e' hu hv
    exact h.disposer u v e' (of_moved hpoint rfl hu).2 (of_moved hpoint rfl hv).2
  · rw [hentries, hset]
    intro e' hheap hnot'
    have hne : e' ≠ e := by
      rintro rfl
      exact hheap (update_self _ _ _)
    rw [update_of_ne hne] at hheap
    obtain ⟨u, hu⟩ := h.disposed e' hheap hnot'
    refine ⟨u, ?_⟩
    have hut : u ≠ t := by
      rintro rfl
      exact hne (Option.some.inj (hu.symm.trans hq))
    rw [hpoint, update_of_ne hut, hu]
  · intro u e' hu hb
    obtain ⟨-, hu⟩ := of_moved hpoint rfl hu
    have hne : e' ≠ e := by
      rintro rfl
      simp [holdingAt, hset] at hb
    rw [(hviews hne).2.1] at hb
    obtain ⟨v, hv⟩ := h.awake u e' hu hb
    exact ⟨v, to_moved hpoint (by rw [ht]; rfl) hv⟩

theorem wokenOn_eq (e : ℕ) (p : FileLockPoint) : (p.wokenOn e).role = p.role ∧
    (p.wokenOn e).located = p.located ∧ (p.wokenOn e).announcing = p.announcing ∧
    (p.wokenOn e).entryMutex = p.entryMutex ∧ ((p.wokenOn e).HasManager ↔ p.HasManager) := by
  cases p with
  | asleep desc e' =>
    simp only [wokenOn]
    split_ifs <;> exact ⟨rfl, rfl, rfl, rfl, Iff.rfl⟩
  | _ => exact ⟨rfl, rfl, rfl, rfl, Iff.rfl⟩

theorem clearing_wokenOn (e : ℕ) (p : FileLockPoint) : (p.wokenOn e).clearing = p.clearing := by
  cases p with
  | asleep desc e' =>
    simp only [wokenOn]
    split_ifs <;> rfl
  | _ => rfl

theorem asleepOn_wokenOn {p : FileLockPoint} {e e' : ℕ} (h : (p.wokenOn e).asleepOn = some e') :
    e' ≠ e ∧ p.asleepOn = some e' := by
  cases p with
  | asleep desc e'' =>
    simp only [wokenOn] at h
    split_ifs at h with he
    · cases h
    · cases h
      exact ⟨he, rfl⟩
  | _ => cases h

theorem Inv.handed (h : w.Inv files) (ht : w.point t = .broadcasting desc e) :
    ({ w with point := fun u => (w.point u).wokenOn e }.goto t (.handed desc e)).Inv files := by
  have hpt : (w.point t).wokenOn e = .broadcasting desc e := by rw [ht]; rfl
  refine h.of_roles rfl rfl ?_ ?_ ?_ ?_ ?_ ?_
  · refine (forall_update_iff (fun u => (w.point u).wokenOn e)
      (p := fun u r => r.role = (w.point u).role)).2 ⟨?_, fun u _ => (wokenOn_eq e _).1⟩
    rw [ht]
    rfl
  · refine (forall_update_iff (fun u => (w.point u).wokenOn e)
      (p := fun u r => ∀ e, r.clearing = some e → (w.point u).clearing = some e)).2
      ⟨?_, fun u _ e' hu => (clearing_wokenOn e _) ▸ hu⟩
    rw [ht]
    exact fun _ => id
  · apply OwnedBy.keep
    · exact fun u => (wokenOn_eq e _).2.2.2.2.trans (h.manager u)
    · dsimp only
      rw [hpt]
      exact Iff.rfl
  · intro e'
    apply OwnedBy.keep
    · intro u
      dsimp only
      rw [(wokenOn_eq e _).2.2.2.1]
      exact h.mutex e' u
    · dsimp only
      rw [hpt]
      exact Iff.rfl
  · refine (forall_update_iff (fun u => (w.point u).wokenOn e)
      (p := fun _ r => ∀ desc e, r.located = some (desc, e) →
        e ∈ w.entries ∧ w.fileAt e = some (files.file desc))).2 ⟨nofun, fun u _ desc' e' hu => ?_⟩
    rw [(wokenOn_eq e _).2.1] at hu
    exact h.located u desc' e' hu
  · -- Nobody is asleep on the entry any more, and the others are announced as before.
    intro u e' hu hfree
    rw [goto_point_apply] at hu
    split_ifs at hu
    · cases hu
    · obtain ⟨hne, hu⟩ := asleepOn_wokenOn hu
      obtain ⟨v, hv⟩ := h.awake u e' hu hfree
      have hvt : v ≠ t := by
        rintro rfl
        rw [ht] at hv
        exact hne (Option.some.inj hv).symm
      exact ⟨v, by rw [goto_point_apply, if_neg hvt, (wokenOn_eq e _).2.2.1, hv]⟩

end Entry

end

end FileLockWorld

end SandboxingNaCl
