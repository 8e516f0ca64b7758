import SandboxingNaCl.Platform.FileLock

/-!
# Runs of the file lock manager

The invariant holds along every run, and no step of one accesses an entry that has been freed.  The
host lock is dropped after the entry has been handed over: a thread keeps it unless another drops it
through the same open file description.
-/

namespace SandboxingNaCl

open Threads Runs

namespace FileLockWorld

open FileLockPoint

variable {θ : Type} [Fintype θ] [DecidableEq θ]

section

variable {files : OpenFiles} {w w' : FileLockWorld θ} {t : θ}

/-! ## The search -/

theorem findEntryMu_none {heap : ℕ → Option NaClFileLockEntry} {key : ℕ × ℕ} {l : List ℕ}
    (h : findEntryMu heap key l = .ok none) : ∀ e ∈ l, (heap e).map (·.file) ≠ some key := by
  induction l with
  | nil => exact nofun
  | cons e l ih =>
    unfold findEntryMu at h
    split at h
    · cases h
    · rename_i entry hentry
      split_ifs at h with hfile
      · cases h
      · refine List.forall_mem_cons.2 ⟨?_, ih h⟩
        rw [hentry]
        exact fun heq => hfile (Option.some.inj heq)

theorem findEntryMu_some {heap : ℕ → Option NaClFileLockEntry} {key : ℕ × ℕ} {l : List ℕ} {e : ℕ}
    (h : findEntryMu heap key l = .ok (some e)) : e ∈ l ∧ (heap e).map (·.file) = some key := by
  induction l with
  | nil => cases h
  | cons e' l ih =>
    unfold findEntryMu at h
    split at h
    · cases h
    · rename_i entry hentry
      split_ifs at h with hfile
      · cases h
        exact ⟨List.mem_cons_self, by rw [hentry]; exact congrArg some hfile⟩
      · exact ⟨List.mem_cons_of_mem e' (ih h).1, (ih h).2⟩

theorem exists_findEntryMu {heap : ℕ → Option NaClFileLockEntry} (key : ℕ × ℕ) {l : List ℕ}
    (h : ∀ e ∈ l, heap e ≠ none) : ∃ r, findEntryMu heap key l = .ok r := by
  induction l with
  | nil => exact ⟨none, rfl⟩
  | cons e l ih =>
    obtain ⟨he, hl⟩ := List.forall_mem_cons.1 h
    obtain ⟨entry, hentry⟩ := Option.ne_none_iff_exists'.1 he
    unfold findEntryMu
    rw [hentry]
    dsimp only
    split_ifs
    · exact ⟨_, rfl⟩
    · exact ih hl

/-! ## Steps -/

omit [Fintype θ] [DecidableEq θ] in
theorem exists_entry_of_access {e : ℕ}
    {next : NaClFileLockEntry → Except FileLockRefusal (FileLockWorld θ)}
    (h : w.access e next = .ok w') : ∃ entry, w.heap e = some entry ∧ next entry = .ok w' := by
  unfold access at h
  split at h
  · cases h
  · rename_i entry hentry
    exact ⟨entry, hentry, h⟩

omit [Fintype θ] [DecidableEq θ] in
theorem of_lockEntry {e : ℕ}
    {next : FileLockWorld θ → NaClFileLockEntry → Except FileLockRefusal (FileLockWorld θ)}
    (h : w.lockEntry t e next = .ok w') : ∃ entry, w.heap e = some entry ∧ w.entryMu e = none ∧
      next { w with entryMu := Function.update w.entryMu e (some t) } entry = .ok w' := by
  obtain ⟨entry, hentry, h⟩ := exists_entry_of_access h
  split_ifs at h with hfree
  exact ⟨entry, hentry, not_not.1 hfree, h⟩

omit [Fintype θ] [DecidableEq θ] in
theorem of_lockAndFind {key : ℕ × ℕ}
    {next : FileLockWorld θ → Option ℕ → Except FileLockRefusal (FileLockWorld θ)}
    (h : w.lockAndFind t key next = .ok w') : ∃ existing, w.mu = none ∧
      findEntryMu w.heap key w.entries = .ok existing ∧
      next { w with mu := some t } existing = .ok w' := by
  unfold lockAndFind at h
  split_ifs at h with hfree
  split at h
  · cases h
  · rename_i existing hfind
    exact ⟨existing, not_not.1 hfree, hfind, h⟩

theorem Inv.advanceLock (h : w.Inv files) {fresh : ℕ} {q : FileLockPoint} (ht : w.point t = q)
    (hstep : w.advanceLock files t fresh q = .ok w') : w'.Inv files := by
  cases q with
  | lockManager desc =>
    unfold FileLockWorld.advanceLock at hstep
    obtain ⟨existing, hfree, hfind, hnext⟩ := of_lockAndFind hstep
    cases existing with
    | none =>
      dsimp only at hnext
      split_ifs at hnext with hfresh
      cases hnext
      exact h.created ht (not_not.1 hfresh) (findEntryMu_none hfind) rfl hfree rfl rfl rfl rfl
    | some e =>
      cases hnext
      obtain ⟨he, hf⟩ := findEntryMu_some hfind
      refine h.move rfl rfl rfl (by rw [ht]; rfl) (by rw [ht]; rfl) nofun ?_ ?_ ?_ ?_
      · exact (hfree ▸ h.manager).take trivial
      · exact mutex_keep h.mutex (by rw [ht]; rfl)
      · rintro desc' e' ⟨⟩
        exact ⟨he, hf⟩
      · exact nofun
  | created desc =>
    cases hstep
    refine h.move rfl rfl rfl (by rw [ht]; rfl) (by rw [ht]; rfl) nofun ?_ ?_ ?_ ?_
    · exact h.manager.release (by rw [ht]; trivial) id
    · exact mutex_keep h.mutex (by rw [ht]; rfl)
    · exact nofun
    · exact nofun
  | found desc e =>
    unfold FileLockWorld.advanceLock at hstep
    obtain ⟨entry, hentry, hfree, hnext⟩ := of_lockEntry hstep
    obtain ⟨hlive, hlt, -⟩ := h.live e (h.located t desc e (by rw [ht]; rfl)).1
    have hcount := Option.some.inj ((views hentry).2.2.symm.trans hlive)
    dsimp only at hnext
    split_ifs at hnext with hzero
    cases hnext
    have hmod : (entry.numWaiting + 1) % 2 ^ 64 = entry.numWaiting + 1 := by omega
    rw [hmod]
    exact h.counted ht hentry (by omega) hfree
  | counted desc e =>
    cases hstep
    refine h.move rfl rfl rfl (by rw [ht]; rfl) (by rw [ht]; rfl) nofun ?_ ?_ ?_ ?_
    · exact h.manager.release (by rw [ht]; trivial) id
    · exact mutex_keep h.mutex (by rw [ht]; rfl)
    · exact nofun
    · exact nofun
  | testing desc e =>
    unfold FileLockWorld.advanceLock at hstep
    obtain ⟨entry, hentry, hnext⟩ := exists_entry_of_access hstep
    split_ifs at hnext with hholding
    · obtain ⟨-, -, hnext⟩ := exists_entry_of_access hnext
      cases hnext
      refine h.move rfl rfl rfl (by rw [ht]; rfl) (by rw [ht]; rfl) nofun ?_ ?_ ?_ ?_
      · exact h.manager.keep (by rw [ht]; exact Iff.rfl)
      · exact mutex_release h.mutex (by rw [ht]; rfl) rfl
      · exact nofun
      · rintro e' ⟨⟩
        exact (views hentry).2.1.trans (congrArg some hholding)
    · cases hnext
      exact h.taken ht hentry (Bool.eq_false_iff.2 hholding)
  | woken desc e =>
    unfold FileLockWorld.advanceLock at hstep
    obtain ⟨entry, hentry, hfree, hnext⟩ := of_lockEntry hstep
    cases hnext
    refine h.move rfl rfl rfl (by rw [ht]; rfl) (by rw [ht]; rfl) nofun ?_ ?_ ?_ ?_
    · exact h.manager.keep (by rw [ht]; exact Iff.rfl)
    · exact mutex_take h.mutex hfree (by rw [ht]; rfl) rfl
    · exact nofun
    · exact nofun
  | taken desc e =>
    unfold FileLockWorld.advanceLock at hstep
    obtain ⟨-, -, hnext⟩ := exists_entry_of_access hstep
    cases hnext
    refine h.move rfl rfl rfl (by rw [ht]; rfl) (by rw [ht]; rfl) nofun ?_ ?_ ?_ ?_
    · exact h.manager.keep (by rw [ht]; exact Iff.rfl)
    · exact mutex_release h.mutex (by rw [ht]; rfl) rfl
    · exact nofun
    · exact nofun
  | takeFileLock desc =>
    have hheld {flock : ℕ × ℕ → Option FlockHolder} :
        ({ w with flock := flock }.goto t (.held desc)).Inv files := by
      refine h.move rfl rfl rfl (by rw [ht]; rfl) (by rw [ht]; rfl) nofun ?_ ?_ ?_ ?_
      · exact h.manager.keep (by rw [ht]; exact Iff.rfl)
      · exact mutex_keep h.mutex (by rw [ht]; rfl)
      · exact nofun
      · exact nofun
    unfold FileLockWorld.advanceLock at hstep
    dsimp only at hstep
    split at hstep
    · cases hstep
    · split_ifs at hstep
      cases hstep
      exact hheld
    · cases hstep
      exact hheld
  | _ => cases hstep

theorem Inv.advanceUnlock (h : w.Inv files) {q : FileLockPoint} (ht : w.point t = q)
    (hstep : w.advanceUnlock files t q = .ok w') : w'.Inv files := by
  cases q with
  | unlockManager desc =>
    unfold FileLockWorld.advanceUnlock at hstep
    obtain ⟨existing, hfree, hfind, hnext⟩ := of_lockAndFind hstep
    cases existing with
    | none => cases hnext
    | some e =>
      cases hnext
      obtain ⟨he, hf⟩ := findEntryMu_some hfind
      refine h.move rfl rfl rfl (by rw [ht]; rfl) (by rw [ht]; rfl) nofun ?_ ?_ ?_ nofun
      · exact (hfree ▸ h.manager).take trivial
      · exact mutex_keep h.mutex (by rw [ht]; rfl)
      · rintro desc' e' ⟨⟩
        exact ⟨he, hf⟩
  | unlockFound desc e =>
    unfold FileLockWorld.advanceUnlock at hstep
    obtain ⟨entry, hentry, hfree, hnext⟩ := of_lockEntry hstep
    dsimp only at hnext
    split_ifs at hnext with hzero
    · cases hnext
      exact h.unlinked ht hentry hzero hfree rfl rfl rfl rfl rfl
    · cases hnext
      exact h.handing ht hentry hzero hfree
  | unlinked desc e =>
    unfold FileLockWorld.advanceUnlock at hstep
    obtain ⟨-, -, hnext⟩ := exists_entry_of_access hstep
    cases hnext
    refine h.move rfl rfl rfl (by rw [ht]; rfl) (by rw [ht]; rfl) nofun ?_ ?_ nofun nofun
    · exact h.manager.keep (by rw [ht]; exact Iff.rfl)
    · exact mutex_release h.mutex (by rw [ht]; rfl) rfl
  | unlinkedManager desc e =>
    cases hstep
    refine h.move rfl rfl rfl (by rw [ht]; rfl) (by rw [ht]; rfl) nofun ?_ ?_ nofun nofun
    · exact h.manager.release (by rw [ht]; trivial) id
    · exact mutex_keep h.mutex (by rw [ht]; rfl)
  | recycling desc e =>
    unfold FileLockWorld.advanceUnlock at hstep
    obtain ⟨entry, -, hnext⟩ := exists_entry_of_access hstep
    split_ifs at hnext
    cases hnext
    exact h.recycled ht rfl rfl rfl rfl rfl
  | handing desc e =>
    cases hstep
    refine h.move rfl rfl rfl (by rw [ht]; rfl) (by rw [ht]; rfl) ?_ ?_ ?_ nofun nofun
    · rw [ht]
      exact fun _ => id
    · exact h.manager.release (by rw [ht]; trivial) id
    · exact mutex_keep h.mutex (by rw [ht]; rfl)
  | broadcasting desc e =>
    unfold FileLockWorld.advanceUnlock at hstep
    obtain ⟨-, -, hnext⟩ := exists_entry_of_access hstep
    cases hnext
    exact h.handed ht
  | handed desc e =>
    unfold FileLockWorld.advanceUnlock at hstep
    obtain ⟨-, -, hnext⟩ := exists_entry_of_access hstep
    cases hnext
    refine h.move rfl rfl rfl (by rw [ht]; rfl) (by rw [ht]; rfl) nofun ?_ ?_ nofun nofun
    · exact h.manager.keep (by rw [ht]; exact Iff.rfl)
    · exact mutex_release h.mutex (by rw [ht]; rfl) rfl
  | dropFileLock desc =>
    have hidle {flock : ℕ × ℕ → Option FlockHolder} :
        ({ w with flock := flock }.goto t .idle).Inv files := by
      refine h.move rfl rfl rfl (by rw [ht]; rfl) (by rw [ht]; rfl) nofun ?_ ?_ nofun nofun
      · exact h.manager.keep (by rw [ht]; exact Iff.rfl)
      · exact mutex_keep h.mutex (by rw [ht]; rfl)
    unfold FileLockWorld.advanceUnlock at hstep
    dsimp only at hstep
    split_ifs at hstep
    · cases hstep
      exact hidle
    · cases hstep
      exact hidle
  | _ => cases hstep

theorem Inv.step (h : w.Inv files) {a : FileLockAction θ} (hstep : w.step files a = .ok w') :
    w'.Inv files := by
  have hflock (flock : ℕ × ℕ → Option FlockHolder) : { w with flock := flock }.Inv files :=
    h.of_roles rfl rfl (fun _ => rfl) (fun _ _ => id) h.manager h.mutex h.located h.awake
  cases a with
  | lock t desc =>
    simp only [FileLockWorld.step] at hstep
    split_ifs at hstep with ht
    cases hstep
    refine h.move rfl rfl rfl (by rw [ht]; rfl) (by rw [ht]; rfl) nofun ?_ ?_ nofun nofun
    · exact h.manager.keep (by rw [ht]; exact Iff.rfl)
    · exact mutex_keep h.mutex (by rw [ht]; rfl)
  | unlock t =>
    simp only [FileLockWorld.step] at hstep
    split at hstep
    · rename_i desc ht
      cases hstep
      refine h.move rfl rfl rfl (by rw [ht]; rfl) (by rw [ht]; rfl) nofun ?_ ?_ nofun nofun
      · exact h.manager.keep (by rw [ht]; exact Iff.rfl)
      · exact mutex_keep h.mutex (by rw [ht]; rfl)
    · cases hstep
  | advance t fresh =>
    simp only [FileLockWorld.step] at hstep
    split_ifs at hstep
    · exact h.advanceUnlock rfl hstep
    · exact h.advanceLock rfl hstep
  | wake t =>
    simp only [FileLockWorld.step] at hstep
    split at hstep
    · rename_i desc e ht
      cases hstep
      refine h.move rfl rfl rfl (by rw [ht]; rfl) (by rw [ht]; rfl) nofun ?_ ?_ nofun nofun
      · exact h.manager.keep (by rw [ht]; exact Iff.rfl)
      · exact mutex_keep h.mutex (by rw [ht]; rfl)
    · cases hstep
  | foreignTake file =>
    simp only [FileLockWorld.step] at hstep
    split_ifs at hstep
    cases hstep
    exact hflock _
  | foreignDrop file =>
    simp only [FileLockWorld.step] at hstep
    split_ifs at hstep
    cases hstep
    exact hflock _

omit [DecidableEq θ] in
theorem inv_start : (start : FileLockWorld θ).Inv files where
  manager := fun _ => iff_of_false id nofun
  mutex := fun _ _ => iff_of_false nofun nofun
  nodup := List.nodup_nil
  apart := nofun
  live := nofun
  owned := nofun
  owner := nofun
  unique := nofun
  waiting := nofun
  located := nofun
  clearing := nofun
  disposing := nofun
  disposer := nofun
  disposed := fun _ hheap => absurd rfl hheap
  awake := nofun

/-! ## Faults -/

omit [Fintype θ] [DecidableEq θ] in
theorem access_ne_fault {e : ℕ} {fault : FileLockFault}
    {next : NaClFileLockEntry → Except FileLockRefusal (FileLockWorld θ)} (he : w.heap e ≠ none)
    (hnext : ∀ entry, w.heap e = some entry → next entry ≠ .error (.fault fault)) :
    w.access e next ≠ .error (.fault fault) := by
  obtain ⟨entry, hentry⟩ := Option.ne_none_iff_exists'.1 he
  unfold access
  rw [hentry]
  exact hnext entry hentry

omit [Fintype θ] [DecidableEq θ] in
theorem lockEntry_ne_fault {e : ℕ} {fault : FileLockFault}
    {next : FileLockWorld θ → NaClFileLockEntry → Except FileLockRefusal (FileLockWorld θ)}
    (he : w.heap e ≠ none) (hnext : ∀ w' entry, next w' entry ≠ .error (.fault fault)) :
    w.lockEntry t e next ≠ .error (.fault fault) := by
  refine access_ne_fault he fun entry _ => ?_
  split_ifs
  · exact nofun
  · exact hnext _ _

omit [DecidableEq θ] in
theorem Inv.lockAndFind_ne_fault (h : w.Inv files) {key : ℕ × ℕ} {fault : FileLockFault}
    {next : FileLockWorld θ → Option ℕ → Except FileLockRefusal (FileLockWorld θ)}
    (hnext : ∀ w' existing, findEntryMu w.heap key w.entries = .ok existing →
      next w' existing ≠ .error (.fault fault)) :
    w.lockAndFind t key next ≠ .error (.fault fault) := by
  obtain ⟨existing, hfind⟩ := exists_findEntryMu key fun e he => h.heap_ne_none (e := e) he
  unfold lockAndFind
  split_ifs
  · exact nofun
  · rw [hfind]
    exact hnext _ _ hfind

omit [DecidableEq θ] in
theorem Inv.heap_ne_none_of_relies (h : w.Inv files) (t : θ) {e : ℕ}
    (hp : (w.point t).entryMutex = some e ∨ ∃ desc, (w.point t).waiting = some (desc, e) ∨
      (w.point t).located = some (desc, e)) : w.heap e ≠ none := by
  rcases hp with hmutex | ⟨desc, hw | hl⟩
  · intro hnone
    have hfree := h.entryMu_eq_none hnone
    rw [(h.mutex e t).1 hmutex] at hfree
    cases hfree
  · exact h.heap_ne_none (h.waiting t desc e hw).1
  · exact h.heap_ne_none (h.located t desc e hl).1

theorem Inv.advanceLock_ne_fault (h : w.Inv files) {q : FileLockPoint} (ht : w.point t = q)
    (fresh : ℕ) (fault : FileLockFault) : w.advanceLock files t fresh q ≠ .error (.fault fault) := by
  unfold FileLockWorld.advanceLock
  cases q with
  | lockManager desc =>
    refine h.lockAndFind_ne_fault fun w' existing _ => ?_
    cases existing with
    | none =>
      dsimp only
      split_ifs <;> exact nofun
    | some e => exact nofun
  | found desc e =>
    refine lockEntry_ne_fault (h.heap_ne_none_of_relies t ?_) fun w' entry => ?_
    · rw [ht]
      exact Or.inr ⟨desc, Or.inr rfl⟩
    · dsimp only
      split_ifs <;> exact nofun
  | testing desc e =>
    have he : w.heap e ≠ none := h.heap_ne_none_of_relies t (by rw [ht]; exact Or.inl rfl)
    refine access_ne_fault he fun entry _ => ?_
    split_ifs
    · exact access_ne_fault he fun _ _ => nofun
    · exact nofun
  | woken desc e =>
    refine lockEntry_ne_fault (h.heap_ne_none_of_relies t ?_) fun w' entry => nofun
    rw [ht]
    exact Or.inr ⟨desc, Or.inl rfl⟩
  | taken desc e =>
    refine access_ne_fault (h.heap_ne_none_of_relies t ?_) fun _ _ => nofun
    rw [ht]
    exact Or.inl rfl
  | takeFileLock desc =>
    dsimp only
    split
    · exact nofun
    · split_ifs <;> exact nofun
    · exact nofun
  | _ => exact nofun

theorem Inv.advanceUnlock_ne_fault (h : w.Inv files) {q : FileLockPoint} (ht : w.point t = q)
    (fault : FileLockFault) : w.advanceUnlock files t q ≠ .error (.fault fault) := by
  unfold FileLockWorld.advanceUnlock
  cases q with
  | unlockManager desc =>
    refine h.lockAndFind_ne_fault fun w' existing hfind => ?_
    cases existing with
    | none =>
      -- The thread owns the file, which has an entry then.
      obtain ⟨e, he, hf, -⟩ := h.owner t desc (by rw [ht]; rfl)
      exact absurd hf (findEntryMu_none hfind e he)
    | some e => simp
  | unlockFound desc e =>
    refine lockEntry_ne_fault (h.heap_ne_none_of_relies t ?_) fun w' entry => ?_
    · rw [ht]
      exact Or.inr ⟨desc, Or.inr rfl⟩
    · dsimp only
      split_ifs <;> simp
  | unlinked desc e =>
    refine access_ne_fault (h.heap_ne_none_of_relies t ?_) fun _ _ => by simp
    rw [ht]
    exact Or.inl rfl
  | recycling desc e =>
    obtain ⟨-, hholding, hnum⟩ := h.disposing t e (by rw [ht]; rfl)
    have he : w.heap e ≠ none := by
      intro hnone
      simp [holdingAt, hnone] at hholding
    refine access_ne_fault he fun entry hentry => ?_
    obtain ⟨-, hholding', hnum'⟩ := views hentry
    have hfalse := Option.some.inj (hholding'.symm.trans hholding)
    have hzero := Option.some.inj (hnum'.symm.trans hnum)
    rw [if_neg (by simp [hfalse, hzero])]
    simp
  | broadcasting desc e =>
    refine access_ne_fault (h.heap_ne_none_of_relies t ?_) fun _ _ => by simp
    rw [ht]
    exact Or.inl rfl
  | handed desc e =>
    refine access_ne_fault (h.heap_ne_none_of_relies t ?_) fun _ _ => by simp
    rw [ht]
    exact Or.inl rfl
  | dropFileLock desc =>
    dsimp only
    split_ifs <;> simp
  | _ => simp

theorem Inv.step_ne_fault (h : w.Inv files) (a : FileLockAction θ) (fault : FileLockFault) :
    w.step files a ≠ .error (.fault fault) := by
  cases a with
  | lock t desc =>
    simp only [FileLockWorld.step]
    split_ifs <;> exact nofun
  | unlock t =>
    simp only [FileLockWorld.step]
    split <;> exact nofun
  | advance t fresh =>
    simp only [FileLockWorld.step]
    split_ifs
    · exact h.advanceUnlock_ne_fault rfl fault
    · exact h.advanceLock_ne_fault rfl fresh fault
  | wake t =>
    simp only [FileLockWorld.step]
    split <;> exact nofun
  | foreignTake file =>
    simp only [FileLockWorld.step]
    split_ifs <;> exact nofun
  | foreignDrop file =>
    simp only [FileLockWorld.step]
    split_ifs <;> exact nofun

/-! ## Runs -/

/-- At most one thread is between its calls of `NaClFileLockManagerLock` and
`NaClFileLockManagerUnlock` for each file. -/
def Exclusive (files : OpenFiles) (w : FileLockWorld θ) : Prop :=
  ∀ t u desc desc', w.point t = .held desc → w.point u = .held desc' →
    files.file desc = files.file desc' → t = u

/-- A thread that is asleep waits for one that has the lock, or one that is going to wake it. -/
def NoLostWaiter (files : OpenFiles) (w : FileLockWorld θ) : Prop :=
  ∀ t desc e, w.point t = .asleep desc e →
    (∃ u desc', (w.point u).owner = some desc' ∧ files.file desc' = files.file desc) ∨
      ∃ u, (w.point u).announcing = some e

def Uses (p : FileLockPoint) (e : ℕ) : Prop :=
  p.entryMutex = some e ∨ p.clearing = some e ∨ p.disposing = some e ∨
    ∃ desc, p.waiting = some (desc, e) ∨ p.located = some (desc, e)

/-- An entry is allocated while it is in the list, which is while a thread owns it or waits for it, and
until the one thread that has unlinked it frees it.  Nobody else relies on it then, and no step
accesses an entry that is not allocated. -/
structure EntriesSound (files : OpenFiles) (w : FileLockWorld θ) : Prop where
  allocated : ∀ e, w.heap e ≠ none ↔ e ∈ w.entries ∨ ∃ t, (w.point t).disposing = some e
  kept : ∀ e ∈ w.entries, (∃ t desc, (w.point t).owner = some desc ∧
    w.fileAt e = some (files.file desc)) ∨ ∃ t desc, (w.point t).waiting = some (desc, e)
  disposed : ∀ t e, (w.point t).disposing = some e → e ∉ w.entries ∧ w.holdingAt e = some false ∧
    w.waitingAt e = some 0 ∧ ∀ u, u ≠ t → ¬ Uses (w.point u) e
  noFault : ∀ a fault, w.step files a ≠ .error (.fault fault)

/-- A thread between its calls has the host lock through its descriptor. -/
def FlockHeld (files : OpenFiles) (w : FileLockWorld θ) : Prop :=
  ∀ t desc, w.point t = .held desc →
    w.flock (files.file desc) = some (.description (files.description desc))

/-- `flock(desc, LOCK_UN)` is not called while a thread is between its calls with a descriptor of the
same open file description. -/
def DropsApart (files : OpenFiles) (w : FileLockWorld θ) (a : FileLockAction θ) : Prop :=
  ∀ t fresh desc, a = .advance t fresh → w.point t = .dropFileLock desc →
    ∀ u desc', w.point u = .held desc' → files.description desc' ≠ files.description desc

omit [DecidableEq θ] in
theorem Inv.exclusive (h : w.Inv files) : w.Exclusive files := by
  intro t u desc desc' ht hu
  exact h.unique t u desc desc' (by rw [ht]; rfl) (by rw [hu]; rfl)

omit [DecidableEq θ] in
theorem Inv.noLostWaiter (h : w.Inv files) : w.NoLostWaiter files := by
  intro t desc e ht
  obtain ⟨he, hf⟩ := h.waiting t desc e (by rw [ht]; rfl)
  obtain ⟨entry, hentry⟩ := Option.ne_none_iff_exists'.1 (h.heap_ne_none he)
  have hholding := (views hentry).2.1
  cases hb : entry.holdingLock with
  | true =>
    obtain ⟨u, desc', hu, hf'⟩ := h.owned e he (hb ▸ hholding)
    exact Or.inl ⟨u, desc', hu, Option.some.inj (hf'.symm.trans hf)⟩
  | false => exact Or.inr (h.awake t e (by rw [ht]; rfl) (hb ▸ hholding))

theorem Inv.entriesSound (h : w.Inv files) : w.EntriesSound files where
  allocated e := by
    constructor
    · intro hheap
      by_cases he : e ∈ w.entries
      · exact Or.inl he
      · exact Or.inr (h.disposed e hheap he)
    · rintro (he | ⟨t, ht⟩)
      · exact h.heap_ne_none he
      · intro hnone
        have hholding := (h.disposing t e ht).2.1
        simp [holdingAt, hnone] at hholding
  kept e he := by
    obtain ⟨entry, hentry⟩ := Option.ne_none_iff_exists'.1 (h.heap_ne_none he)
    have hholding := (views hentry).2.1
    cases hb : entry.holdingLock with
    | true => exact Or.inl (h.owned e he (hb ▸ hholding))
    | false =>
      obtain ⟨t, ht⟩ := exists_of_count_pos ((h.live e he).2.2 (hb ▸ hholding))
      obtain ⟨⟨desc, e'⟩, hw, heq⟩ := Option.map_eq_some_iff.1 (of_decide_eq_true ht)
      obtain rfl : e' = e := heq
      exact Or.inr ⟨t, desc, hw⟩
  disposed t e ht := by
    obtain ⟨hnot, hholding, hnum⟩ := h.disposing t e ht
    refine ⟨hnot, hholding, hnum, fun u hut huses => ?_⟩
    have hlisted {u : θ} (hlist : (∃ desc, (w.point u).waiting = some (desc, e)) ∨
        (∃ desc, (w.point u).located = some (desc, e)) ∨ (w.point u).clearing = some e ∨
          (w.point u).disposing = some e) : (w.point u).disposing = some e := by
      rcases hlist with ⟨desc, hw⟩ | ⟨desc, hl⟩ | hc | hd
      · exact absurd (h.waiting u desc e hw).1 hnot
      · exact absurd (h.located u desc e hl).1 hnot
      · exact absurd (h.clearing u e hc).1 hnot
      · exact hd
    have hdisposing : (w.point u).disposing = some e := by
      rcases huses with hm | hc | hd | ⟨desc, hw | hl⟩
      · exact hlisted (relies_of_entryMutex hm)
      · exact hlisted (Or.inr (Or.inr (Or.inl hc)))
      · exact hd
      · exact hlisted (Or.inl ⟨desc, hw⟩)
      · exact hlisted (Or.inr (Or.inl ⟨desc, hl⟩))
    exact hut (h.disposer u t e hdisposing ht)
  noFault := h.step_ne_fault

/-! ## The host lock -/

omit [Fintype θ] in
theorem FlockHeld.of_point {p : FileLockPoint} (h : w.FlockHeld files)
    (hpoint : w'.point = Function.update w.point t p) (hflock : w'.flock = w.flock)
    (hp : ∀ desc, p ≠ .held desc) : w'.FlockHeld files := by
  intro u desc hu
  rw [hpoint, Function.update_apply] at hu
  split_ifs at hu
  · exact absurd hu (hp desc)
  · rw [hflock]
    exact h u desc hu

theorem eq_held_of_wokenOn {p : FileLockPoint} {e desc : ℕ} (h : p.wokenOn e = .held desc) :
    p = .held desc := by
  cases p with
  | asleep desc' e' =>
    simp only [wokenOn] at h
    split_ifs at h
  | _ => exact h

omit [Fintype θ] in
theorem FlockHeld.handed (h : w.FlockHeld files) (desc e : ℕ) :
    ({ w with point := fun u => (w.point u).wokenOn e }.goto t (.handed desc e)).FlockHeld files := by
  intro u desc' hu
  rw [goto_point_apply] at hu
  split_ifs at hu
  exact h u desc' (eq_held_of_wokenOn hu)

omit [Fintype θ] in
theorem FlockHeld.advanceLock (h : w.FlockHeld files) {fresh : ℕ} {q : FileLockPoint}
    (hstep : w.advanceLock files t fresh q = .ok w') : w'.FlockHeld files := by
  cases q with
  | lockManager desc =>
    unfold FileLockWorld.advanceLock at hstep
    obtain ⟨existing, -, -, hnext⟩ := of_lockAndFind hstep
    cases existing with
    | none =>
      dsimp only at hnext
      split_ifs at hnext
      cases hnext
      exact h.of_point rfl rfl nofun
    | some e =>
      cases hnext
      exact h.of_point rfl rfl nofun
  | found desc e =>
    unfold FileLockWorld.advanceLock at hstep
    obtain ⟨entry, -, -, hnext⟩ := of_lockEntry hstep
    dsimp only at hnext
    split_ifs at hnext
    cases hnext
    exact h.of_point rfl rfl nofun
  | testing desc e =>
    unfold FileLockWorld.advanceLock at hstep
    obtain ⟨entry, -, hnext⟩ := exists_entry_of_access hstep
    split_ifs at hnext
    · obtain ⟨-, -, hnext⟩ := exists_entry_of_access hnext
      cases hnext
      exact h.of_point rfl rfl nofun
    · cases hnext
      exact h.of_point rfl rfl nofun
  | woken desc e =>
    unfold FileLockWorld.advanceLock at hstep
    obtain ⟨-, -, -, hnext⟩ := of_lockEntry hstep
    cases hnext
    exact h.of_point rfl rfl nofun
  | taken desc e =>
    unfold FileLockWorld.advanceLock at hstep
    obtain ⟨-, -, hnext⟩ := exists_entry_of_access hstep
    cases hnext
    exact h.of_point rfl rfl nofun
  | takeFileLock desc =>
    unfold FileLockWorld.advanceLock at hstep
    dsimp only at hstep
    split at hstep
    · cases hstep
    · rename_i ofd hflock
      split_ifs at hstep with hofd
      cases hstep
      intro u desc' hu
      rw [goto_point_apply] at hu
      split_ifs at hu
      · cases hu
        exact hofd ▸ hflock
      · exact h u desc' hu
    · rename_i hflock
      cases hstep
      intro u desc' hu
      rw [goto_point_apply] at hu
      split_ifs at hu
      · cases hu
        exact Function.update_self _ _ _
      · have hold := h u desc' hu
        have hne : files.file desc' ≠ files.file desc := by
          intro heq
          rw [heq, hflock] at hold
          cases hold
        exact (Function.update_of_ne hne _ _).trans hold
  | created desc | counted desc e =>
    cases hstep
    exact h.of_point rfl rfl nofun
  | _ => cases hstep

omit [Fintype θ] in
theorem FlockHeld.advanceUnlock (h : w.FlockHeld files) {q : FileLockPoint}
    (hok : ∀ desc, q = .dropFileLock desc → ∀ u desc', w.point u = .held desc' →
      files.description desc' ≠ files.description desc)
    (hstep : w.advanceUnlock files t q = .ok w') : w'.FlockHeld files := by
  cases q with
  | unlockManager desc =>
    unfold FileLockWorld.advanceUnlock at hstep
    obtain ⟨existing, -, -, hnext⟩ := of_lockAndFind hstep
    cases existing with
    | none => cases hnext
    | some e =>
      cases hnext
      exact h.of_point rfl rfl nofun
  | unlockFound desc e =>
    unfold FileLockWorld.advanceUnlock at hstep
    obtain ⟨entry, -, -, hnext⟩ := of_lockEntry hstep
    dsimp only at hnext
    split_ifs at hnext
    · cases hnext
      exact h.of_point rfl rfl nofun
    · cases hnext
      exact h.of_point rfl rfl nofun
  | unlinked desc e | handed desc e =>
    unfold FileLockWorld.advanceUnlock at hstep
    obtain ⟨-, -, hnext⟩ := exists_entry_of_access hstep
    cases hnext
    exact h.of_point rfl rfl nofun
  | recycling desc e =>
    unfold FileLockWorld.advanceUnlock at hstep
    obtain ⟨entry, -, hnext⟩ := exists_entry_of_access hstep
    split_ifs at hnext
    cases hnext
    exact h.of_point rfl rfl nofun
  | broadcasting desc e =>
    unfold FileLockWorld.advanceUnlock at hstep
    obtain ⟨-, -, hnext⟩ := exists_entry_of_access hstep
    cases hnext
    exact h.handed desc e
  | dropFileLock desc =>
    unfold FileLockWorld.advanceUnlock at hstep
    dsimp only at hstep
    split_ifs at hstep with hflock
    · cases hstep
      intro u desc' hu
      rw [goto_point_apply] at hu
      split_ifs at hu
      have hold := h u desc' hu
      have hne : files.file desc' ≠ files.file desc := by
        intro heq
        rw [heq, hflock] at hold
        exact hok desc rfl u desc' hu (FlockHolder.description.inj (Option.some.inj hold)).symm
      exact (Function.update_of_ne hne _ _).trans hold
    · cases hstep
      exact h.of_point rfl rfl nofun
  | unlinkedManager desc e | handing desc e =>
    cases hstep
    exact h.of_point rfl rfl nofun
  | _ => cases hstep

omit [Fintype θ] in
theorem FlockHeld.step (h : w.FlockHeld files) {a : FileLockAction θ} (hok : w.DropsApart files a)
    (hstep : w.step files a = .ok w') : w'.FlockHeld files := by
  cases a with
  | lock t desc =>
    simp only [FileLockWorld.step] at hstep
    split_ifs at hstep
    cases hstep
    exact h.of_point rfl rfl nofun
  | unlock t =>
    simp only [FileLockWorld.step] at hstep
    split at hstep
    · cases hstep
      exact h.of_point rfl rfl nofun
    · cases hstep
  | advance t fresh =>
    simp only [FileLockWorld.step] at hstep
    split_ifs at hstep
    · exact h.advanceUnlock (fun desc hdesc => hok t fresh desc rfl hdesc) hstep
    · exact h.advanceLock hstep
  | wake t =>
    simp only [FileLockWorld.step] at hstep
    split at hstep
    · cases hstep
      exact h.of_point rfl rfl nofun
    · cases hstep
  | foreignTake file =>
    simp only [FileLockWorld.step] at hstep
    split_ifs at hstep with hfree
    cases hstep
    intro u desc hu
    have hold := h u desc hu
    have hne : files.file desc ≠ file := by
      rintro rfl
      rw [hfree] at hold
      cases hold
    exact (Function.update_of_ne hne _ _).trans hold
  | foreignDrop file =>
    simp only [FileLockWorld.step] at hstep
    split_ifs at hstep with hforeign
    cases hstep
    intro u desc hu
    have hold := h u desc hu
    have hne : files.file desc ≠ file := by
      rintro rfl
      rw [hforeign] at hold
      cases hold
    exact (Function.update_of_ne hne _ _).trans hold

omit [Fintype θ] in
/-- A call of `flock(desc, LOCK_UN)` takes the lock away from a thread that has it through the same
description. -/
theorem FlockHeld.dropsApart (h : w.FlockHeld files) {a : FileLockAction θ}
    (hstep : w.step files a = .ok w') (h' : w'.FlockHeld files) : w.DropsApart files a := by
  rintro t fresh desc rfl ht u desc' hu hofd
  have hfile : files.file desc' = files.file desc := congrArg files.identity hofd
  have hflock : w.flock (files.file desc) = some (.description (files.description desc)) := by
    rw [← hfile, ← hofd]
    exact h u desc' hu
  have hut : u ≠ t := by
    rintro rfl
    rw [ht] at hu
    cases hu
  simp only [FileLockWorld.step, ht, inUnlock, if_true, FileLockWorld.advanceUnlock, if_pos hflock]
    at hstep
  cases hstep
  have hlost := h' u desc' (by rw [goto_point_apply, if_neg hut]; exact hu)
  rw [hfile] at hlost
  simp [goto] at hlost

/-- In every run at most one thread is between its calls for each file, the entries are sound and no
waiter is lost; and such a thread has the host lock all the time exactly when no call of
`flock(desc, LOCK_UN)` in the run comes while a thread is between its calls with the same open file
description. -/
theorem fileLocks_of_run (files : OpenFiles) (actions : List (FileLockAction θ))
    (w : FileLockWorld θ) (hrun : actions.foldlM (step files) start = .ok w) :
    w.Exclusive files ∧ w.EntriesSound files ∧ w.NoLostWaiter files ∧
      (Guarded (step files) (DropsApart files) start actions ↔
        ∀ l, l <+: actions → ∀ w', l.foldlM (step files) start = .ok w' → w'.FlockHeld files) := by
  have hinv := Runs.invariant (fun s _ _ (h : s.Inv files) hstep => h.step hstep) inv_start hrun
  have hstart : (start : FileLockWorld θ).FlockHeld files := nofun
  refine ⟨hinv.exclusive, hinv.entriesSound, hinv.noLostWaiter, fun hguarded l hl w' hw' => ?_, ?_⟩
  · exact (hguarded.of_prefix hl).invariant
      (fun s _ _ (h : s.FlockHeld files) hok hstep => h.step hok hstep) hstart hw'
  · exact Guarded.of_prefixes (fun _ _ _ h hstep h' => h.dropsApart hstep h') hrun

/-- Descriptors 0 and 1 share an open file description, descriptor 2 has another one of the same
file. -/
def sharedFiles : OpenFiles := ⟨fun desc => desc / 2, fun _ => (0, 0)⟩

/-- A thread has the lock and a second one comes to wait for it; the first gives it up as far as the
call of `flock`. -/
def handOver (desc desc' : ℕ) : List (FileLockAction Bool) :=
  .lock false desc :: List.replicate 3 (.advance false 0) ++
    .lock true desc' :: List.replicate 4 (.advance true 0) ++
    .unlock false :: List.replicate 5 (.advance false 0)

/-- With another description the second thread waits for the host lock. -/
def handOverApart : List (FileLockAction Bool) :=
  handOver 0 2 ++ (List.replicate 3 (.advance true 0) ++ [.advance false 0, .advance true 0])

theorem fileLocks_of_run_handOver :
    ∃ w, handOverApart.foldlM (step sharedFiles) start = .ok w ∧ w.point true = .held 2 ∧
      w.Exclusive sharedFiles ∧ w.EntriesSound sharedFiles ∧ w.NoLostWaiter sharedFiles ∧
      (Guarded (step sharedFiles) (DropsApart sharedFiles) start handOverApart ↔
        ∀ l, l <+: handOverApart → ∀ w', l.foldlM (step sharedFiles) start = .ok w' →
          w'.FlockHeld sharedFiles) :=
  ⟨_, rfl, rfl, fileLocks_of_run sharedFiles _ _ rfl⟩

/-- With the same description it returns at once, and then the first one drops the host lock. -/
def handOverShared : List (FileLockAction Bool) :=
  handOver 0 1 ++ (List.replicate 4 (.advance true 0) ++ [.advance false 0])

theorem not_flockHeld_handOverShared :
    ∃ w, handOverShared.foldlM (step sharedFiles) start = .ok w ∧ w.point true = .held 1 ∧
      w.flock (sharedFiles.file 1) = none ∧ ¬ w.FlockHeld sharedFiles := by
  refine ⟨_, rfl, rfl, rfl, fun h => ?_⟩
  exact absurd (h true 1 rfl) (by decide)

end

end FileLockWorld

end SandboxingNaCl
