import SandboxingNaCl.Lib.Runs

/-!
# The sandbox thread of a host thread

`getThreadData` finds the `NaClSandbox_Thread` of the calling host thread in a map from thread ids.  On
the first call of a thread there is none: it then makes a `NaClAppThread`, which puts itself into the
thread table of the `NaClApp`, and wraps the last entry of that table.  Meanwhile sandboxed code starts
and ends threads of its own, which take and free places in the same table.  `T` is the type of the host
threads, ended ones included; `id` gives the 32 bits that `NaClThreadId` leaves of their handles.
-/

namespace SandboxingNaCl

open Function

/-! ## The thread table -/

/-- `DynArrayFirstAvail`: the first free place, or the one behind the last. -/
def dynArrayFirstAvail (entries : List (Option ℕ)) : ℕ := entries.findIdx Option.isNone

def dynArraySet (entries : List (Option ℕ)) (idx : ℕ) (ptr : Option ℕ) : List (Option ℕ) :=
  if idx < entries.length then entries.set idx ptr
  else entries ++ List.replicate (idx - entries.length) none ++ [ptr]

/-- `DynArrayGet`; `none` is `NULL`. -/
def dynArrayGet (entries : List (Option ℕ)) (idx : ℕ) : Option ℕ := entries[idx]?.join

/-! ## The thread map -/

/-- A `NaClSandbox_Thread`, as far as the `NaClAppThread` it wraps. -/
structure SandboxThread where
  thread : ℕ
deriving DecidableEq

def mapArrSize : ℕ := 128

/-- A `DS_Map`.  The arrays are not initialised.  The value `none` is `NULL`. -/
structure DSMap where
  keys : ℕ → ℕ
  values : ℕ → Option SandboxThread
  currentTop : ℕ

/-- `Map_Put`; `none` is its fatal error. -/
def mapPut (map : DSMap) (key : ℕ) (value : SandboxThread) : Option DSMap :=
  if map.currentTop = mapArrSize then none
  else some {
    keys := Function.update map.keys map.currentTop key
    values := Function.update map.values map.currentTop (some value)
    currentTop := map.currentTop + 1 }

/-- `Map_Get`: it looks at the whole array. -/
def mapGet (map : DSMap) (key : ℕ) : Option SandboxThread :=
  ((List.range mapArrSize).find? fun i => map.keys i = key).bind map.values

/-! ## The threads -/

/-- A `NaClAppThread`.  `createdFor` is the host thread it was made for; the library does not look at
it. -/
structure BoundThread (T : Type*) where
  createdFor : T
  threadNum : ℕ

/-- Where a host thread is. -/
inductive BindingPhase
  /-- Outside `getThreadData`. -/
  | idle
  /-- `Map_Get` has returned `NULL`. -/
  | creating
  /-- In the critical section of `threadCreateMutex`. -/
  | locked
  /-- Its `NaClAppThread` is in the table, and runs `threadMain`. -/
  | added (natp : ℕ)
  | constructed (threadData : SandboxThread)
  | put (threadData : SandboxThread)
  /-- After `NaClAppThreadTeardown`. -/
  | dead
deriving DecidableEq

def BindingPhase.Holding : BindingPhase → Prop
  | .locked | .added _ | .constructed _ | .put _ => True
  | .idle | .creating | .dead => False

/-- The state of a sandbox.  A `NaClAppThread` is named by its index in `appThreads`, which keeps the
ended ones; `putBy` says which host thread has put an entry into the map; `launched` is the
`NaClAppThread` of a host thread that sandboxed code has started. -/
structure BindingState (T : Type*) where
  threads : List (Option ℕ)
  appThreads : List (BoundThread T)
  threadDataMap : DSMap
  putBy : ℕ → Option T
  threadCreateMutex : Option T
  phase : T → BindingPhase
  result : T → Option SandboxThread
  launched : T → Option ℕ

/-- Why there is no next state: a fatal error, a fault, or a step that the thread cannot take. -/
inductive BindingStop
  | fatal
  | fault
  | notEnabled

inductive BindingAction (T : Type*)
  | getThreadData (t : T)
  /-- The next step of a thread in `getThreadData`. -/
  | advance (t : T)
  /-- `NaClCreateAdditionalThreadOnCurrThread` fails. -/
  | createFails (t : T)
  /-- A new host thread that sandboxed code has asked for runs `NaClAppThreadLauncher`. -/
  | launch (t : T)
  /-- Sandboxed code on `t` ends its thread, which is the given `NaClAppThread`. -/
  | teardown (t : T) (natp : ℕ)

variable {T : Type*} [DecidableEq T] (id : T → ℕ)

namespace BindingState

def goto (s : BindingState T) (t : T) (phase : BindingPhase) : BindingState T :=
  { s with phase := Function.update s.phase t phase }

def setResult (s : BindingState T) (t : T) (threadData : SandboxThread) : BindingState T :=
  { s with result := Function.update s.result t (some threadData) }

/-- `NaClAppThreadMake` and `NaClAddThreadMu` on host thread `t`. -/
def addThread (s : BindingState T) (t : T) : BindingState T :=
  { s with
    threads := dynArraySet s.threads (dynArrayFirstAvail s.threads) (some s.appThreads.length)
    appThreads := s.appThreads ++ [⟨t, dynArrayFirstAvail s.threads⟩] }

/-- The `NaClAppThread` may be the current one of `t` while sandboxed code runs on it. -/
def Runs (s : BindingState T) (t : T) (natp : ℕ) : Prop :=
  s.phase t = .idle ∧ (s.result t = some ⟨natp⟩ ∨ s.launched t = some natp) ∨
    s.phase t = .added natp

instance (s : BindingState T) (t : T) (natp : ℕ) : Decidable (s.Runs t natp) :=
  inferInstanceAs (Decidable (_ ∧ (_ ∨ _) ∨ _))

end BindingState

/-- `getThreadData` up to the test of what `Map_Get` returns. -/
def getThreadData (s : BindingState T) (t : T) : BindingState T :=
  match mapGet s.threadDataMap (id t) with
  | some threadData => s.setResult t threadData
  | none => s.goto t .creating

/-- `constructNaClSandboxThread`: it wraps the last entry of the table. -/
def constructNaClSandboxThread (s : BindingState T) : Option SandboxThread :=
  (dynArrayGet s.threads (s.threads.length - 1)).map SandboxThread.mk

/-- `NaClAppThreadTeardown`, with `NaClRemoveThreadMu`. -/
def naclAppThreadTeardown (s : BindingState T) (t : T) (natp : ℕ) :
    Except BindingStop (BindingState T) :=
  match s.appThreads[natp]? with
  | none => .error .fault
  | some thread =>
    match dynArrayGet s.threads thread.threadNum with
    | none => .error .fatal
    | some _ => .ok
        { s.goto t .dead with threads := dynArraySet s.threads thread.threadNum none }

/-- One step of one thread. -/
def bindingStep (s : BindingState T) : BindingAction T → Except BindingStop (BindingState T)
  | .getThreadData t =>
    if s.phase t = .idle then .ok (getThreadData id s t) else .error .notEnabled
  | .advance t =>
    match s.phase t with
    | .creating =>
      if s.threadCreateMutex = none then
        .ok { s.goto t .locked with threadCreateMutex := some t }
      else .error .notEnabled
    | .locked => .ok ((s.addThread t).goto t (.added s.appThreads.length))
    | .added _ =>
      match constructNaClSandboxThread s with
      | none => .error .fault
      | some threadData => .ok (s.goto t (.constructed threadData))
    | .constructed threadData =>
      match mapPut s.threadDataMap (id t) threadData with
      | none => .error .fatal
      | some map => .ok { s.goto t (.put threadData) with
          threadDataMap := map
          putBy := Function.update s.putBy s.threadDataMap.currentTop (some t) }
    | .put threadData =>
      .ok { (s.setResult t threadData).goto t .idle with threadCreateMutex := none }
    | _ => .error .notEnabled
  | .createFails t =>
    if s.phase t = .locked then .ok { s.goto t .idle with threadCreateMutex := none }
    else .error .notEnabled
  | .launch t =>
    if s.phase t = .idle ∧ s.result t = none ∧ s.launched t = none then
      .ok { s.addThread t with
        launched := Function.update s.launched t (some s.appThreads.length) }
    else .error .notEnabled
  | .teardown t natp =>
    if s.Runs t natp then naclAppThreadTeardown s t natp else .error .notEnabled

/-- A sandbox as `constructNaClSandbox` leaves it on host thread `t`. -/
structure BindingState.Constructed (s : BindingState T) (t : T) : Prop where
  threads : s.threads = [some 0]
  appThreads : s.appThreads = [⟨t, 0⟩]
  currentTop : s.threadDataMap.currentTop = 1
  key : s.threadDataMap.keys 0 = id t
  value : s.threadDataMap.values 0 = some ⟨0⟩
  putBy : s.putBy 0 = some t
  threadCreateMutex : s.threadCreateMutex = none
  phase : ∀ t, s.phase t = .idle
  result : ∀ t, s.result t = none
  launched : ∀ t, s.launched t = none

/-! ## What the binding promises -/

/-- The `NaClAppThread` was made on behalf of this host thread. -/
def BindingState.CreatedFor (s : BindingState T) (natp : ℕ) (t : T) : Prop :=
  ∃ thread, s.appThreads[natp]? = some thread ∧ thread.createdFor = t

/-- What `getThreadData` has returned to a host thread wraps the `NaClAppThread` made on its behalf,
and no other host thread's. -/
structure BindingState.Bound (s : BindingState T) : Prop where
  own : ∀ t threadData, s.result t = some threadData → s.CreatedFor threadData.thread t
  apart : ∀ t t' threadData threadData', t ≠ t' → s.result t = some threadData →
    s.result t' = some threadData' → threadData.thread ≠ threadData'.thread

/-- The step meets no race and no collision: a lookup finds no entry with the caller's id but its own
(or a null one); when a thread is made in `getThreadData`, every place of the table before the last is
taken; and sandboxed code's own thread enters the table while another thread waits in
`getThreadData` for its `threadMain` only if there is a free place. -/
def BindingStepSafe (s : BindingState T) : BindingAction T → Prop
  | .getThreadData t => ∀ i < mapArrSize, s.threadDataMap.keys i = id t →
      s.threadDataMap.values i = none ∨ i < s.threadDataMap.currentTop ∧ s.putBy i = some t
  | .advance t => s.phase t = .locked → ∀ i, i + 1 < s.threads.length → s.threads[i]? ≠ some none
  | .launch _ => ∀ t natp, s.phase t = .added natp → none ∈ s.threads
  | .createFails _ | .teardown _ _ => True

/-! ## The table -/

theorem dynArrayFirstAvail_le (entries : List (Option ℕ)) :
    dynArrayFirstAvail entries ≤ entries.length := List.findIdx_le_length

theorem getElem?_dynArrayFirstAvail (entries : List (Option ℕ)) (n : ℕ) :
    entries[dynArrayFirstAvail entries]? ≠ some (some n) := by
  intro h
  obtain ⟨hlt, hget⟩ := List.getElem?_eq_some_iff.1 h
  have hnone : entries[dynArrayFirstAvail entries].isNone = true :=
    List.findIdx_getElem (w := hlt)
  rw [hget] at hnone
  cases hnone

theorem dynArrayFirstAvail_lt {entries : List (Option ℕ)} (h : none ∈ entries) :
    dynArrayFirstAvail entries < entries.length :=
  List.findIdx_lt_length_of_exists ⟨none, h, rfl⟩

theorem getElem?_dynArraySet {entries : List (Option ℕ)} {idx : ℕ} (h : idx ≤ entries.length)
    (ptr : Option ℕ) (i : ℕ) :
    (dynArraySet entries idx ptr)[i]? = if i = idx then some ptr else entries[i]? := by
  unfold dynArraySet
  split_ifs with hlt hi hi
  · rw [hi, List.getElem?_set_self hlt]
  · rw [List.getElem?_set_ne (Ne.symm hi)]
  · obtain rfl : idx = entries.length := by omega
    simp [hi]
  · obtain rfl : idx = entries.length := by omega
    rw [Nat.sub_self, List.replicate_zero, List.append_nil]
    rcases Nat.lt_or_ge i entries.length with hi' | hi'
    · rw [List.getElem?_append_left hi']
    · rw [List.getElem?_eq_none (by rw [List.length_append, List.length_singleton]; omega),
        List.getElem?_eq_none hi']

theorem length_dynArraySet {entries : List (Option ℕ)} {idx : ℕ} (h : idx ≤ entries.length)
    (ptr : Option ℕ) :
    (dynArraySet entries idx ptr).length = max entries.length (idx + 1) := by
  unfold dynArraySet
  split_ifs with hlt
  · rw [List.length_set]
    omega
  · simp
    omega

def LastEntry (entries : List (Option ℕ)) (n : ℕ) : Prop :=
  entries[entries.length - 1]? = some (some n)

theorem LastEntry.set {entries : List (Option ℕ)} {n idx : ℕ} (h : LastEntry entries n)
    (hidx : idx < entries.length) (hne : idx ≠ entries.length - 1) (ptr : Option ℕ) :
    LastEntry (dynArraySet entries idx ptr) n := by
  have hle := Nat.le_of_lt hidx
  rw [LastEntry, length_dynArraySet hle, Nat.max_eq_left hidx, getElem?_dynArraySet hle,
    if_neg (Ne.symm hne)]
  exact h

theorem lastEntry_firstAvail {entries : List (Option ℕ)}
    (h : ∀ i, i + 1 < entries.length → entries[i]? ≠ some none) (n : ℕ) :
    LastEntry (dynArraySet entries (dynArrayFirstAvail entries) (some n)) n := by
  have hle := dynArrayFirstAvail_le entries
  have hge : entries.length ≤ dynArrayFirstAvail entries + 1 := by
    by_contra hlt
    have hlt : dynArrayFirstAvail entries + 1 < entries.length := by omega
    have hfree := h _ hlt
    have htaken := getElem?_dynArrayFirstAvail entries
    rw [List.getElem?_eq_getElem (by omega)] at hfree htaken
    cases hget : entries[dynArrayFirstAvail entries] with
    | none => exact hfree (congrArg some hget)
    | some m => exact htaken m (congrArg some hget)
  rw [LastEntry, length_dynArraySet hle, getElem?_dynArraySet hle, if_pos (by omega)]

/-! ## The invariant -/

/-- What holds in every state of a run without races. -/
structure BindingInv (s : BindingState T) : Prop where
  /-- The thread of a host thread that has not ended is at its place in the table. -/
  table : ∀ n (thread : BoundThread T), s.appThreads[n]? = some thread →
    s.phase thread.createdFor ≠ .dead → s.threads[thread.threadNum]? = some (some n)
  pending : ∀ t n, s.phase t = .added n → s.CreatedFor n t ∧ LastEntry s.threads n
  building : ∀ t threadData, s.phase t = .constructed threadData ∨ s.phase t = .put threadData →
    s.CreatedFor threadData.thread t
  mutex : ∀ t, (s.phase t).Holding → s.threadCreateMutex = some t
  map : ∀ i threadData t, i < s.threadDataMap.currentTop →
    s.threadDataMap.values i = some threadData → s.putBy i = some t →
    s.CreatedFor threadData.thread t
  result : ∀ t threadData, s.result t = some threadData → s.CreatedFor threadData.thread t
  launched : ∀ t n, s.launched t = some n → s.CreatedFor n t

variable {id} {s s' : BindingState T} {t : T}

omit [DecidableEq T] in
theorem BindingState.CreatedFor.unique {t' : T} {n : ℕ} (h : s.CreatedFor n t)
    (h' : s.CreatedFor n t') : t = t' := by
  obtain ⟨thread, hget, rfl⟩ := h
  obtain ⟨thread', hget', rfl⟩ := h'
  rw [hget] at hget'
  cases hget'
  rfl

omit [DecidableEq T] in
theorem BindingInv.bound (h : BindingInv s) : s.Bound where
  own := h.result
  apart t t' threadData threadData' hne hres hres' heq := by
    have hown := h.result t threadData hres
    rw [heq] at hown
    exact hne (hown.unique (h.result t' threadData' hres'))

omit [DecidableEq T] in
theorem BindingState.Constructed.inv (h : s.Constructed id t) : BindingInv s where
  table n thread hget _ := by
    rw [h.appThreads, List.getElem?_singleton] at hget
    split_ifs at hget with hn
    cases hget
    rw [h.threads, hn]
    rfl
  pending t' n hphase := by
    rw [h.phase] at hphase
    cases hphase
  building t' threadData hphase := by
    rw [h.phase] at hphase
    rcases hphase with hphase | hphase <;> cases hphase
  mutex t' hhold := by
    rw [h.phase] at hhold
    exact hhold.elim
  map i threadData t' hi hvalue hput := by
    obtain rfl : i = 0 := by
      rw [h.currentTop] at hi
      omega
    rw [h.value] at hvalue
    rw [h.putBy] at hput
    cases hvalue
    cases hput
    exact ⟨⟨t, 0⟩, by rw [h.appThreads]; rfl, rfl⟩
  result t' threadData hres := by
    rw [h.result] at hres
    cases hres
  launched t' n hlaunch := by
    rw [h.launched] at hlaunch
    cases hlaunch

/-! ## Steps -/

section Update

variable {α β : Type*} [DecidableEq α] {f : α → β} {a a' : α} {b c : β}

theorem eq_of_update_self (h : update f a b a = c) : b = c :=
  (update_self ..).symm.trans h

theorem eq_of_update_of_ne (hne : a' ≠ a) (h : update f a b a' = c) : f a' = c :=
  (update_of_ne hne ..).symm.trans h

end Update

theorem goto_phase_self (p : BindingPhase) : (s.goto t p).phase t = p := update_self ..

theorem goto_phase_of_ne (p : BindingPhase) {t' : T} (h : t' ≠ t) :
    (s.goto t p).phase t' = s.phase t' := update_of_ne h ..

theorem BindingInv.goto (h : BindingInv s) {p : BindingPhase} (halive : s.phase t ≠ .dead)
    (hadded : ∀ n, p = .added n → s.CreatedFor n t ∧ LastEntry s.threads n)
    (hbuilding : ∀ threadData, p = .constructed threadData ∨ p = .put threadData →
      s.CreatedFor threadData.thread t)
    (hmutex : p.Holding → s.threadCreateMutex = some t) : BindingInv (s.goto t p) where
  table n thread hget hdead := by
    refine h.table n thread hget fun hold => hdead ?_
    by_cases ht : thread.createdFor = t
    · exact absurd (ht ▸ hold) halive
    · rw [goto_phase_of_ne p ht]
      exact hold
  pending t' n hphase := by
    by_cases ht : t' = t
    · subst ht
      exact hadded n ((goto_phase_self p).symm.trans hphase)
    · exact h.pending t' n ((goto_phase_of_ne p ht).symm.trans hphase)
  building t' threadData hphase := by
    by_cases ht : t' = t
    · subst ht
      rw [goto_phase_self] at hphase
      exact hbuilding threadData hphase
    · rw [goto_phase_of_ne p ht] at hphase
      exact h.building t' threadData hphase
  mutex t' hhold := by
    by_cases ht : t' = t
    · subst ht
      rw [goto_phase_self] at hhold
      exact hmutex hhold
    · rw [goto_phase_of_ne p ht] at hhold
      exact h.mutex t' hhold
  map := h.map
  result := h.result
  launched := h.launched

theorem BindingInv.setResult (h : BindingInv s) {threadData : SandboxThread}
    (hcreated : s.CreatedFor threadData.thread t) : BindingInv (s.setResult t threadData) where
  table := h.table
  pending := h.pending
  building := h.building
  mutex := h.mutex
  map := h.map
  result t' threadData' hres := by
    by_cases ht : t' = t
    · subst ht
      obtain rfl : threadData = threadData' := Option.some.inj (eq_of_update_self hres)
      exact hcreated
    · exact h.result t' threadData' (eq_of_update_of_ne ht hres)
  launched := h.launched

omit [DecidableEq T] in
theorem BindingInv.lock (h : BindingInv s) (hfree : s.threadCreateMutex = none) :
    BindingInv { s with threadCreateMutex := some t } where
  table := h.table
  pending := h.pending
  building := h.building
  mutex t' hhold := by
    have hmutex := h.mutex t' hhold
    rw [hfree] at hmutex
    cases hmutex
  map := h.map
  result := h.result
  launched := h.launched

theorem BindingInv.unlock (h : BindingInv s) (hhold : (s.phase t).Holding) :
    BindingInv { s.goto t .idle with threadCreateMutex := none } := by
  have halive : s.phase t ≠ .dead := fun hdead => by
    rw [hdead] at hhold
    exact hhold
  have hgoto : BindingInv (s.goto t .idle) :=
    h.goto halive (fun n hn => by cases hn) (fun td htd => by rcases htd with htd | htd <;> cases htd)
      (fun hidle => hidle.elim)
  refine { hgoto with mutex := fun t' hhold' => ?_ }
  by_cases ht : t' = t
  · subst ht
    exact absurd hhold' (by rw [goto_phase_self]; exact fun hidle => hidle)
  · rw [goto_phase_of_ne .idle ht] at hhold'
    have hmutex := (h.mutex t' hhold').symm.trans (h.mutex t hhold)
    exact absurd (Option.some.inj hmutex) ht

omit [DecidableEq T] in
theorem BindingState.CreatedFor.addThread {n : ℕ} {t' : T} (h : s.CreatedFor n t') (t : T) :
    (s.addThread t).CreatedFor n t' := by
  obtain ⟨thread, hget, hfor⟩ := h
  obtain ⟨hlt, -⟩ := List.getElem?_eq_some_iff.1 hget
  exact ⟨thread, (List.getElem?_append_left hlt).trans hget, hfor⟩

omit [DecidableEq T] in
theorem createdFor_addThread (s : BindingState T) (t : T) :
    (s.addThread t).CreatedFor s.appThreads.length t :=
  ⟨_, List.getElem?_concat_length, rfl⟩

omit [DecidableEq T] in
/-- A new thread enters the table; a thread that waits for its `threadMain` stays the last entry if
there is a free place. -/
theorem BindingInv.addThread (h : BindingInv s)
    (hfree : ∀ t natp, s.phase t = .added natp → none ∈ s.threads) : BindingInv (s.addThread t) := by
  have hle := dynArrayFirstAvail_le s.threads
  refine ⟨fun n thread hget hdead => ?_, fun t' n hphase => ?_,
    fun t' td hphase => (h.building t' td hphase).addThread t, h.mutex,
    fun i td t' hi hvalue hput => (h.map i td t' hi hvalue hput).addThread t,
    fun t' td hres => (h.result t' td hres).addThread t,
    fun t' n hlaunch => (h.launched t' n hlaunch).addThread t⟩
  · show (dynArraySet s.threads _ _)[thread.threadNum]? = some (some n)
    rw [getElem?_dynArraySet hle]
    rcases Nat.lt_or_ge n s.appThreads.length with hn | hn
    · have hold := h.table n thread ((List.getElem?_append_left hn).symm.trans hget) hdead
      have hne : thread.threadNum ≠ dynArrayFirstAvail s.threads := fun heq =>
        getElem?_dynArrayFirstAvail s.threads n (heq ▸ hold)
      rw [if_neg hne]
      exact hold
    · obtain ⟨hlt, -⟩ := List.getElem?_eq_some_iff.1 hget
      have hlen : n = s.appThreads.length := by
        have hlength : (s.addThread t).appThreads.length = s.appThreads.length + 1 :=
          List.length_append
        omega
      subst hlen
      obtain rfl : (⟨t, dynArrayFirstAvail s.threads⟩ : BoundThread T) = thread :=
        Option.some.inj (List.getElem?_concat_length.symm.trans hget)
      exact if_pos rfl
  · obtain ⟨hcreated, hlast⟩ := h.pending t' n hphase
    refine ⟨hcreated.addThread t, hlast.set (dynArrayFirstAvail_lt (hfree t' n hphase)) ?_ _⟩
    intro heq
    rw [LastEntry, ← heq] at hlast
    exact getElem?_dynArrayFirstAvail s.threads n hlast

omit [DecidableEq T] in
theorem BindingInv.mapPut (h : BindingInv s) {threadData : SandboxThread} {map : DSMap} {key : ℕ}
    (hput : mapPut s.threadDataMap key threadData = some map)
    (hcreated : s.CreatedFor threadData.thread t) :
    BindingInv { s with
      threadDataMap := map
      putBy := update s.putBy s.threadDataMap.currentTop (some t) } := by
  unfold SandboxingNaCl.mapPut at hput
  split_ifs at hput
  cases hput
  refine { h with map := fun i td t' hi hvalue hby => ?_ }
  by_cases htop : i = s.threadDataMap.currentTop
  · subst htop
    obtain rfl : threadData = td := Option.some.inj (eq_of_update_self hvalue)
    obtain rfl : t = t' := Option.some.inj (eq_of_update_self hby)
    exact hcreated
  · exact h.map i td t' (Nat.lt_of_le_of_ne (Nat.le_of_lt_succ hi) htop)
      (eq_of_update_of_ne htop hvalue) (eq_of_update_of_ne htop hby)

omit [DecidableEq T] in
theorem BindingInv.createdFor_of_runs (h : BindingInv s) {natp : ℕ} (hruns : s.Runs t natp) :
    s.phase t ≠ .dead ∧ s.CreatedFor natp t := by
  rcases hruns with ⟨hphase, hres | hlaunch⟩ | hphase <;> rw [hphase]
  · exact ⟨by simp, h.result t ⟨natp⟩ hres⟩
  · exact ⟨by simp, h.launched t natp hlaunch⟩
  · exact ⟨by simp, (h.pending t natp hphase).1⟩

theorem BindingInv.teardown (h : BindingInv s) {natp : ℕ} (hruns : s.Runs t natp)
    (hs : naclAppThreadTeardown s t natp = .ok s') : BindingInv s' := by
  obtain ⟨halive, thread, hget, hfor⟩ := h.createdFor_of_runs hruns
  have hplace := h.table natp thread hget (hfor ▸ halive)
  obtain ⟨hlt, -⟩ := List.getElem?_eq_some_iff.1 hplace
  have hle := Nat.le_of_lt hlt
  unfold naclAppThreadTeardown at hs
  simp only [hget] at hs
  split at hs
  · cases hs
  · cases hs
    refine { h with
      table := fun n thread' hget' hdead => ?_
      pending := fun t' n hphase => ?_
      building := fun t' td hphase => ?_
      mutex := fun t' hhold => ?_ }
    · have hne : thread'.createdFor ≠ t := fun heq => by
        rw [heq, goto_phase_self] at hdead
        exact hdead rfl
      rw [goto_phase_of_ne .dead hne] at hdead
      have hold := h.table n thread' hget' hdead
      -- the place belongs to the ending thread, which is another
      have hplaces : thread'.threadNum ≠ thread.threadNum := fun heq => by
        rw [heq, hplace] at hold
        cases hold
        obtain rfl := Option.some.inj (hget.symm.trans hget')
        exact hne hfor
      exact (getElem?_dynArraySet hle none _).trans ((if_neg hplaces).trans hold)
    · have hne : t' ≠ t := fun heq => by
        rw [heq, goto_phase_self] at hphase
        cases hphase
      obtain ⟨hcreated, hlast⟩ := h.pending t' n ((goto_phase_of_ne .dead hne).symm.trans hphase)
      refine ⟨hcreated, hlast.set hlt (fun heq => ?_) none⟩
      rw [LastEntry, ← heq, hplace] at hlast
      cases hlast
      exact hne (hcreated.unique ⟨thread, hget, hfor⟩)
    · have hne : t' ≠ t := fun heq => by
        rw [heq, goto_phase_self] at hphase
        rcases hphase with hphase | hphase <;> cases hphase
      rw [goto_phase_of_ne .dead hne] at hphase
      exact h.building t' td hphase
    · have hne : t' ≠ t := fun heq => by
        rw [heq, goto_phase_self] at hhold
        exact hhold
      rw [goto_phase_of_ne .dead hne] at hhold
      exact h.mutex t' hhold

theorem BindingInv.getThreadData (h : BindingInv s) (hphase : s.phase t = .idle)
    (hsafe : BindingStepSafe id s (.getThreadData t)) :
    BindingInv (getThreadData id s t) := by
  unfold SandboxingNaCl.getThreadData
  split
  · next threadData hget =>
    refine h.setResult ?_
    obtain ⟨i, hfind, hvalue⟩ := Option.bind_eq_some_iff.1 hget
    have hlt := List.mem_range.1 (List.mem_of_find?_eq_some hfind)
    have hkey : s.threadDataMap.keys i = id t := by simpa using List.find?_some hfind
    rcases hsafe i hlt hkey with hnull | ⟨htop, hby⟩
    · rw [hnull] at hvalue
      cases hvalue
    · exact h.map i threadData t htop hvalue hby
  · exact h.goto (by simp [hphase]) (fun n hn => by cases hn)
      (fun td htd => by rcases htd with htd | htd <;> cases htd) (fun hhold => hhold.elim)

theorem BindingInv.advance (h : BindingInv s) (hsafe : BindingStepSafe id s (.advance t))
    (hs : bindingStep id s (.advance t) = .ok s') : BindingInv s' := by
  simp only [bindingStep] at hs
  split at hs
  · next hphase =>
    split_ifs at hs with hfree
    cases hs
    exact (h.lock hfree).goto (by simp [hphase]) (fun n hn => by cases hn)
      (fun td htd => by rcases htd with htd | htd <;> cases htd) (fun _ => rfl)
  · next hphase =>
    cases hs
    have hmutex := h.mutex t (by rw [hphase]; trivial)
    have hfree : ∀ t' natp, s.phase t' = .added natp → none ∈ s.threads := by
      intro t' natp hadded
      have hmutex' := h.mutex t' (by rw [hadded]; trivial)
      obtain rfl := Option.some.inj (hmutex.symm.trans hmutex')
      rw [hphase] at hadded
      cases hadded
    refine (h.addThread hfree).goto (by simp [BindingState.addThread, hphase]) (fun n hn => ?_)
      (fun td htd => by rcases htd with htd | htd <;> cases htd) (fun _ => hmutex)
    cases hn
    exact ⟨createdFor_addThread s t, lastEntry_firstAvail (hsafe hphase) _⟩
  · next natp hphase =>
    obtain ⟨hcreated, hlast⟩ := h.pending t natp hphase
    have hmutex := h.mutex t (by rw [hphase]; trivial)
    have hget : constructNaClSandboxThread s = some ⟨natp⟩ := by
      rw [constructNaClSandboxThread, dynArrayGet, hlast]
      rfl
    simp only [hget] at hs
    cases hs
    refine h.goto (by simp [hphase]) (fun n hn => by cases hn) (fun td htd => ?_) (fun _ => hmutex)
    rcases htd with htd | htd <;> cases htd
    exact hcreated
  · next threadData hphase =>
    have hcreated := h.building t threadData (Or.inl hphase)
    have hmutex := h.mutex t (by rw [hphase]; trivial)
    split at hs
    · cases hs
    · next map hput =>
      cases hs
      refine (h.mapPut hput hcreated).goto (by simp [hphase]) (fun n hn => by cases hn)
        (fun td htd => ?_) (fun _ => hmutex)
      rcases htd with htd | htd <;> cases htd
      exact hcreated
  · next threadData hphase =>
    cases hs
    have hhold : ((s.setResult t threadData).phase t).Holding := by
      simp only [BindingState.setResult, hphase]
      trivial
    exact (h.setResult (h.building t threadData (Or.inr hphase))).unlock hhold
  · cases hs

theorem BindingInv.launch (h : BindingInv s) (hsafe : BindingStepSafe id s (.launch t)) :
    BindingInv { s.addThread t with
      launched := update s.launched t (some s.appThreads.length) } := by
  refine { h.addThread hsafe with launched := fun t' n hlaunch => ?_ }
  by_cases ht : t' = t
  · subst ht
    obtain rfl : s.appThreads.length = n := Option.some.inj (eq_of_update_self hlaunch)
    exact createdFor_addThread s t'
  · exact (h.launched t' n (eq_of_update_of_ne ht hlaunch)).addThread t

theorem BindingInv.step (h : BindingInv s) {a : BindingAction T} (hsafe : BindingStepSafe id s a)
    (hs : bindingStep id s a = .ok s') : BindingInv s' := by
  cases a with
  | getThreadData t =>
    simp only [bindingStep] at hs
    split_ifs at hs with hphase
    cases hs
    exact h.getThreadData hphase hsafe
  | advance t => exact h.advance hsafe hs
  | createFails t =>
    simp only [bindingStep] at hs
    split_ifs at hs with hphase
    cases hs
    exact h.unlock (by rw [hphase]; trivial)
  | launch t =>
    simp only [bindingStep] at hs
    split_ifs at hs
    cases hs
    exact h.launch hsafe
  | teardown t natp =>
    simp only [bindingStep] at hs
    split_ifs at hs with hruns
    exact h.teardown hruns hs

/-- Host threads by their number; thread 0 has made the sandbox. -/
def newSandbox : BindingState ℕ where
  threads := [some 0]
  appThreads := [⟨0, 0⟩]
  threadDataMap := ⟨fun i => if i = 0 then 0x1000 else 0, fun i => if i = 0 then some ⟨0⟩ else none, 1⟩
  putBy := fun i => if i = 0 then some 0 else none
  threadCreateMutex := none
  phase := fun _ => .idle
  result := fun _ => none
  launched := fun _ => none

def exampleIds (t : ℕ) : ℕ := 0x1000 * (t + 1)

theorem newSandbox_constructed : newSandbox.Constructed exampleIds 0 := by
  constructor <;> first | rfl | exact fun _ => rfl

def firstUse (t : ℕ) : List (BindingAction ℕ) :=
  [.getThreadData t, .advance t, .advance t, .advance t, .advance t, .advance t]

end SandboxingNaCl
