import SandboxingNaCl.Service.DeleteGenerations

/-!
# Deletion in two phases

`NaClSysDyncodeDelete` run by any number of threads, with other threads running, creating code,
starting and exiting between any two steps of it that the locks allow.  A region is removed once
the generation of every thread has reached the one the region was given, which a thread's generation
does only by a call that it makes afterwards.
-/

namespace SandboxingNaCl

open Runs

/-- What a thread is to do next. -/
inductive DeletePoint
  /-- It is not in `NaClSysDyncodeDelete`. -/
  | running
  /-- It has fetched the current generation and released `dynamic_load_mutex`. -/
  | setGeneration (generation : ℤ)
  /-- It holds `dynamic_load_mutex`, and the region at `ix` has its generation. -/
  | checkIn (ix : ℕ)
  /-- It is at the start of `NaClMinimumThreadGeneration`. -/
  | lockThreads (ix : ℕ)
  /-- It holds `threads_mu` too, and `rv` is the least generation in front of `index`. -/
  | scan (ix index : ℕ) (rv : ℤ)
  /-- It has released `threads_mu`. -/
  | decide (ix : ℕ) (rv : ℤ)
deriving DecidableEq

/-- What the history of a run records. -/
inductive TextEvent
  | spawned (natp : ℕ)
  | exited (natp : ℕ)
  /-- The thread is in a call of `NaClSysDyncodeDelete` and has locked `dynamic_load_mutex`. -/
  | called (natp : ℕ)
  /-- The bundle heads of a region are halts, and the region gets this generation. -/
  | halted (generation : ℤ)
  | removed (region : NaClDynamicRegion)
deriving DecidableEq

/-- The state that threads share, and each thread's own. -/
structure TextWorld where
  nap : NaClApp
  dynamicLoadMutex : Option ℕ
  threadsMu : Option ℕ
  point : ℕ → DeletePoint
  history : List TextEvent

/-- What happens next. -/
inductive TextAction
  | spawn
  | exit (natp : ℕ)
  | create (natp : ℕ) (dest src size : BitVec 32) (ans : DyncodeAnswers)
  | delete (natp : ℕ) (dest size : BitVec 32) (shmMap : Bool)
  /-- The thread makes the next step of its call of `NaClSysDyncodeDelete`. -/
  | advance (natp : ℕ)

/-- Why an action is not possible. -/
inductive Refusal
  | blocked
  | fault (fault : Fault)

/-- `NaClAddThreadMu`: the table, and the first free position of it. -/
def naclAddThreadMu (threads : List (Option ℤ)) (generation : ℤ) : List (Option ℤ) × ℕ :=
  let pos := threads.idxOf none
  (if pos < threads.length then threads.set pos (some generation) else threads ++ [some generation],
    pos)

namespace TextWorld

def generation (w : TextWorld) (natp : ℕ) : Option ℤ := w.nap.text.threadGeneration[natp]?.join

def setThreads (w : TextWorld) (threads : List (Option ℤ)) : TextWorld :=
  { w with nap := { w.nap with text := { w.nap.text with threadGeneration := threads } } }

def goto (w : TextWorld) (natp : ℕ) (point : DeletePoint) : TextWorld :=
  { w with point := Function.update w.point natp point }

def record (w : TextWorld) (event : TextEvent) : TextWorld :=
  { w with history := event :: w.history }

/-- The last steps of `NaClAppThreadLauncher`, with the generation that `NaClAppThreadMake` sets. -/
def spawn (w : TextWorld) : Except Refusal TextWorld :=
  if w.threadsMu ≠ none then
    .error .blocked
  else
    let (threads, natp) := naclAddThreadMu w.nap.text.threadGeneration 0
    .ok (((w.setThreads threads).goto natp .running).record (.spawned natp))

/-- The part of `NaClAppThreadTeardown` about the thread table: `NaClRemoveThreadMu`. -/
def exit (w : TextWorld) (natp : ℕ) : Except Refusal TextWorld :=
  if w.threadsMu ≠ none then
    .error .blocked
  else
    .ok ((w.setThreads (w.nap.text.threadGeneration.set natp none)).record (.exited natp))

/-- `NaClSysDyncodeCreate`, which changes what threads share under `dynamic_load_mutex` only. -/
def create (w : TextWorld) (dest src size : ℕ) (ans : DyncodeAnswers) : Except Refusal TextWorld :=
  if w.dynamicLoadMutex ≠ none then
    .error .blocked
  else
    match naclSysDyncodeCreate w.nap dest src size ans with
    | .error fault => .error (.fault fault)
    | .ok (nap, _) => .ok { w with nap }

/-- `NaClSysDyncodeDelete` as far as it goes in one step: it returns, it has fetched the generation, or
it has locked `dynamic_load_mutex` and the region has a generation. -/
def delete (w : TextWorld) (natp dest size : ℕ) (shmMap : Bool) : Except Refusal TextWorld :=
  if !w.nap.enableDyncodeSyscalls then
    .ok w
  else if w.nap.text.textShm = none then
    .ok w
  else if size = 0 then
    if w.dynamicLoadMutex ≠ none then
      .error .blocked
    else
      .ok ((w.goto natp (.setGeneration w.nap.text.deleteGeneration)).record (.called natp))
  else
    let destAddr := naclUserToSysAddrRange w.nap.space dest size
    if destAddr = kNaClBadAddress then
      .ok w
    else if w.dynamicLoadMutex ≠ none then
      .error .blocked
    else
      let found := naclDynamicRegionFind w.nap.text.regions destAddr size
      match found, found.bind (w.nap.text.regions[·]?) with
      | some ix, some region =>
        if region.start ≠ destAddr ∨ region.size ≠ size ∨ region.isMmap then
          .ok w
        else if region.deleteGeneration < 0 then
          match markDeleted w.nap dest size ix region shmMap with
          | .error fault => .error (.fault fault)
          | .ok (nap, some _) => .ok { w with nap }
          | .ok (nap, none) =>
            .ok ((({ w with nap, dynamicLoadMutex := some natp }.goto natp (.checkIn ix)).record
              (.halted nap.text.deleteGeneration)).record (.called natp))
        else
          .ok (({ w with dynamicLoadMutex := some natp }.goto natp (.checkIn ix)).record
            (.called natp))
      | _, _ => .ok w

/-- The rest of `NaClSysDyncodeDelete`, one access to shared state at a time. -/
def advance (w : TextWorld) (natp : ℕ) : Except Refusal TextWorld :=
  match w.point natp with
  | .running => .error .blocked
  | .setGeneration generation =>
    match naclSetThreadGeneration w.nap.text natp generation with
    | .error fault => .error (.fault fault)
    | .ok text => .ok ({ w with nap := { w.nap with text } }.goto natp .running)
  | .checkIn ix =>
    match naclSetThreadGeneration w.nap.text natp w.nap.text.deleteGeneration with
    | .error fault => .error (.fault fault)
    | .ok text => .ok ({ w with nap := { w.nap with text } }.goto natp (.lockThreads ix))
  | .lockThreads ix =>
    if w.threadsMu ≠ none then
      .error .blocked
    else
      .ok ({ w with threadsMu := some natp }.goto natp (.scan ix 0 (2 ^ 31 - 1)))
  | .scan ix index rv =>
    if index < w.nap.text.threadGeneration.length then
      .ok (w.goto natp (.scan ix (index + 1) ((w.generation index).elim rv (min rv))))
    else
      .ok ({ w with threadsMu := none }.goto natp (.decide ix rv))
  | .decide ix rv =>
    match w.nap.text.regions[ix]? with
    | none => .error (.fault .badAccess)
    | some region =>
      let w := { w with dynamicLoadMutex := none }.goto natp .running
      if region.deleteGeneration ≤ rv then
        .ok ({ w with nap := { w.nap with text := naclDynamicRegionDelete w.nap.text ix } }.record
          (.removed region))
      else
        .ok w

/-- A thread that is alive makes a call or exits when it is not in `NaClSysDyncodeDelete`. -/
def step (w : TextWorld) : TextAction → Except Refusal TextWorld
  | .spawn => w.spawn
  | .exit natp =>
    if w.generation natp ≠ none ∧ w.point natp = .running then w.exit natp else .error .blocked
  | .create natp dest src size ans =>
    if w.generation natp ≠ none ∧ w.point natp = .running then
      w.create dest.toNat src.toNat size.toNat ans
    else .error .blocked
  | .delete natp dest size shmMap =>
    if w.generation natp ≠ none ∧ w.point natp = .running then
      w.delete natp dest.toNat size.toNat shmMap
    else .error .blocked
  | .advance natp => w.advance natp

/-- No call is under way, and no region is waiting for its deletion. -/
structure Initial (w : TextWorld) : Prop where
  table : w.nap.TableSound
  generation_nonneg : 0 ≤ w.nap.text.deleteGeneration
  thread_le : ∀ natp g, w.generation natp = some g → g ≤ w.nap.text.deleteGeneration
  fresh : ∀ region ∈ w.nap.text.regions, region.deleteGeneration < 0
  running : ∀ natp, w.point natp = .running

/-- Since the region of this generation was halted the thread has called `NaClSysDyncodeDelete` or was
created. -/
def CheckedIn (w : TextWorld) (natp : ℕ) (generation : ℤ) : Prop :=
  .called natp ∈ since (.halted generation) w.history ∨
    .spawned natp ∈ since (.halted generation) w.history

/-- The generation a thread has, or has fetched and is about to set. -/
def Reaches (w : TextWorld) (natp : ℕ) (generation : ℤ) : Prop :=
  w.generation natp = some generation ∨ w.point natp = .setGeneration generation

/-- A region that waits for its deletion: whoever reaches its generation has checked in since. -/
structure Condemned (w : TextWorld) (region : NaClDynamicRegion) : Prop where
  pos : 0 < region.deleteGeneration
  le : region.deleteGeneration ≤ w.nap.text.deleteGeneration
  mem : .halted region.deleteGeneration ∈ w.history
  heads : w.nap.HeadsHalted region
  checkedIn : ∀ natp g, w.Reaches natp g → region.deleteGeneration ≤ g →
    w.CheckedIn natp region.deleteGeneration

/-- The thread holds `dynamic_load_mutex`, and the region at `ix` has a generation. -/
def Deleting (w : TextWorld) (natp ix : ℕ) : Prop :=
  w.dynamicLoadMutex = some natp ∧
    ∃ region, w.nap.text.regions[ix]? = some region ∧ 0 ≤ region.deleteGeneration

/-- What a thread knows of the shared state, by what it is to do next. -/
def PointSound (w : TextWorld) (natp : ℕ) : DeletePoint → Prop
  | .running => True
  | .setGeneration _ => True
  | .checkIn ix => w.Deleting natp ix ∧
      ∀ g ≤ w.nap.text.deleteGeneration, w.CheckedIn natp g
  | .lockThreads ix => w.Deleting natp ix
  | .scan ix index rv => w.Deleting natp ix ∧ w.threadsMu = some natp ∧
      ∀ t < index, ∀ g, w.generation t = some g → rv ≤ g
  | .decide ix rv => w.Deleting natp ix ∧
      ∀ t g, w.generation t = some g → rv ≤ g ∨
        ∀ g ≤ w.nap.text.deleteGeneration, .spawned t ∈ since (.halted g) w.history

/-- What holds in every state of a run. -/
structure Inv (w : TextWorld) : Prop where
  table : w.nap.TableSound
  generation_nonneg : 0 ≤ w.nap.text.deleteGeneration
  le : ∀ natp g, w.Reaches natp g → g ≤ w.nap.text.deleteGeneration
  condemned : ∀ region ∈ w.nap.text.regions, 0 ≤ region.deleteGeneration → w.Condemned region
  point : ∀ natp, w.PointSound natp (w.point natp)

/-- What becomes of a region: it stays, it gets the generation that is next, or it is removed, by when
every thread has checked in. -/
inductive Fate (w w' : TextWorld) (region : NaClDynamicRegion) : Prop
  | kept : region ∈ w'.nap.text.regions → Fate w w' region
  | marked : region.deleteGeneration < 0 →
      w'.nap.text.deleteGeneration = w.nap.text.deleteGeneration + 1 →
      { region with deleteGeneration := w'.nap.text.deleteGeneration } ∈ w'.nap.text.regions →
      Fate w w' region
  | removed : w.Condemned region →
      (∀ natp g, w.generation natp = some g → w.CheckedIn natp region.deleteGeneration) →
      Fate w w' region

/-- What a step of `natp` does, as far as the invariant and the other threads are concerned. -/
structure Effect (w w' : TextWorld) (natp : ℕ) : Prop where
  table : w'.nap.TableSound
  fate : ∀ region ∈ w.nap.text.regions, w.Fate w' region
  generation_le : w.nap.text.deleteGeneration ≤ w'.nap.text.deleteGeneration
  later : ∀ e, ∀ g ≤ w.nap.text.deleteGeneration, e ∈ since (.halted g) w.history →
    e ∈ since (.halted g) w'.history
  mem : ∀ e ∈ w.history, e ∈ w'.history
  region : ∀ region ∈ w'.nap.text.regions, 0 ≤ region.deleteGeneration →
    (region ∈ w.nap.text.regions ∨
      region.deleteGeneration = w.nap.text.deleteGeneration + 1 ∧
        w'.nap.text.deleteGeneration = w.nap.text.deleteGeneration + 1 ∧
        .halted region.deleteGeneration ∈ w'.history ∧ w'.nap.HeadsHalted region)
  heads : ∀ region ∈ w.nap.text.regions, w.nap.HeadsHalted region → w'.nap.HeadsHalted region
  reaches : ∀ t g, w'.Reaches t g → w.Reaches t g ∨
    g ≤ w'.nap.text.deleteGeneration ∧ ∀ h ≤ g, 0 < h → w'.CheckedIn t h
  thread : ∀ t g', w'.generation t = some g' →
    (∃ g ≤ g', w.generation t = some g) ∨
      w.generation t = none ∧ w.threadsMu = none ∧
        ∀ g ≤ w'.nap.text.deleteGeneration, .spawned t ∈ since (.halted g) w'.history
  other : ∀ t ≠ natp, w'.point t = w.point t
  load : ∀ t ≠ natp, w.dynamicLoadMutex = some t → w'.dynamicLoadMutex = some t ∧
    w'.nap.text.regions = w.nap.text.regions ∧
    w'.nap.text.deleteGeneration = w.nap.text.deleteGeneration
  threads : ∀ t ≠ natp, w.threadsMu = some t → w'.threadsMu = some t
  point : w'.PointSound natp (w'.point natp)

section

variable {w w' : TextWorld} {natp t ix : ℕ}

theorem Effect.checkedIn (h : w.Effect w' natp) {g : ℤ} (hg : g ≤ w.nap.text.deleteGeneration)
    (hin : w.CheckedIn t g) : w'.CheckedIn t g :=
  hin.imp (h.later _ g hg) (h.later _ g hg)

theorem Effect.deleting (h : w.Effect w' natp) (ht : t ≠ natp) (hdel : w.Deleting t ix) :
    w'.Deleting t ix := by
  obtain ⟨hload, hregion⟩ := hdel
  obtain ⟨hload', hregions, -⟩ := h.load t ht hload
  exact ⟨hload', hregions ▸ hregion⟩

theorem Effect.pointSound (h : w.Effect w' natp) (ht : t ≠ natp) {point : DeletePoint}
    (hpoint : w.PointSound t point) : w'.PointSound t point := by
  cases point with
  | running => trivial
  | setGeneration generation => trivial
  | checkIn ix =>
    obtain ⟨hdel, hin⟩ := hpoint
    refine ⟨h.deleting ht hdel, fun g hg => ?_⟩
    rw [(h.load t ht hdel.1).2.2] at hg
    exact h.checkedIn hg (hin g hg)
  | lockThreads ix => exact h.deleting ht hpoint
  | scan ix index rv =>
    obtain ⟨hdel, hmu, hscan⟩ := hpoint
    refine ⟨h.deleting ht hdel, h.threads t ht hmu, fun s hs g hg => ?_⟩
    rcases h.thread s g hg with ⟨old, hle, hold⟩ | ⟨-, hfree, -⟩
    · exact (hscan s hs old hold).trans hle
    · rw [hmu] at hfree
      cases hfree
  | decide ix rv =>
    obtain ⟨hdel, hdone⟩ := hpoint
    refine ⟨h.deleting ht hdel, fun s g hg => ?_⟩
    rcases h.thread s g hg with ⟨old, hle, hold⟩ | ⟨-, -, hspawned⟩
    · refine (hdone s old hold).imp (fun hrv => hrv.trans hle) fun hspawned g hg => ?_
      rw [(h.load t ht hdel.1).2.2] at hg
      exact h.later _ g hg (hspawned g hg)
    · exact Or.inr hspawned

theorem Effect.condemned (h : w.Effect w' natp) (hw : w.Inv) {region : NaClDynamicRegion}
    (hmem : region ∈ w'.nap.text.regions) (hgen : 0 ≤ region.deleteGeneration) :
    w'.Condemned region := by
  rcases h.region region hmem hgen with hold | ⟨hnew, hnext, hhalted, hheads⟩
  · obtain ⟨hpos, hle, hin, hheads, hchecked⟩ := hw.condemned region hold hgen
    refine ⟨hpos, hle.trans h.generation_le, h.mem _ hin, h.heads region hold hheads, ?_⟩
    intro t g hreach hg
    rcases h.reaches t g hreach with hold' | ⟨-, hin'⟩
    · exact h.checkedIn hle (hchecked t g hold' hg)
    · exact hin' _ hg hpos
  · have hnonneg := hw.generation_nonneg
    refine ⟨by omega, by omega, hhalted, hheads, fun t g hreach hg => ?_⟩
    rcases h.reaches t g hreach with hold | ⟨-, hin⟩
    · -- nobody is ahead of the generations that there were
      have := hw.le t g hold
      omega
    · exact hin _ hg (by omega)

theorem Effect.inv (h : w.Effect w' natp) (hw : w.Inv) : w'.Inv := by
  refine ⟨h.table, hw.generation_nonneg.trans h.generation_le, fun t g hreach => ?_,
    fun region hmem hgen => h.condemned hw hmem hgen, fun t => ?_⟩
  · rcases h.reaches t g hreach with hold | ⟨hle, -⟩
    · exact (hw.le t g hold).trans h.generation_le
    · exact hle
  · by_cases ht : t = natp
    · rw [ht]
      exact h.point
    · rw [h.other t ht]
      exact h.pointSound ht (hw.point t)

/-! ## The steps -/

theorem generation_set (w : TextWorld) (natp t : ℕ) (g : Option ℤ) (hnatp : w.generation natp ≠ none) :
    (w.nap.text.threadGeneration.set natp g)[t]?.join = if t = natp then g else w.generation t := by
  have hlt : natp < w.nap.text.threadGeneration.length := by
    by_contra hge
    refine hnatp ?_
    unfold generation
    rw [List.getElem?_eq_none (not_lt.1 hge)]
    rfl
  rw [List.getElem?_set]
  by_cases ht : t = natp
  · rw [if_pos ht, if_pos ht.symm, if_pos hlt]
    rfl
  · rw [if_neg ht, if_neg (Ne.symm ht)]
    rfl

theorem tableSound_setThreads (h : w.nap.TableSound) (threads : List (Option ℤ)) :
    (w.setThreads threads).nap.TableSound :=
  ⟨h.text.of_textStep (.of_text rfl rfl) h.text.mapcache,
    ⟨h.regions.separated, h.regions.stop_lt, h.regions.allocated⟩, h.placed⟩

/-- A step that leaves the regions and the generation of the application, and records no deletion. -/
structure Quiet (w w' : TextWorld) : Prop where
  table : w'.nap.TableSound
  regions : w'.nap.text.regions = w.nap.text.regions
  deleteGeneration : w'.nap.text.deleteGeneration = w.nap.text.deleteGeneration
  heads : ∀ region ∈ w.nap.text.regions, w.nap.HeadsHalted region → w'.nap.HeadsHalted region
  history : w'.history = w.history ∨
    ∃ e, (∀ g, e ≠ .halted g) ∧ w'.history = e :: w.history

theorem Quiet.later (h : w.Quiet w') (e : TextEvent) (g : ℤ)
    (he : e ∈ since (.halted g) w.history) : e ∈ since (.halted g) w'.history := by
  rcases h.history with heq | ⟨new, hne, heq⟩ <;> rw [heq]
  · exact he
  · exact mem_since_cons (hne g) he

theorem Quiet.mem (h : w.Quiet w') {e : TextEvent} (he : e ∈ w.history) : e ∈ w'.history := by
  rcases h.history with heq | ⟨new, -, heq⟩ <;> rw [heq]
  · exact he
  · exact List.mem_cons_of_mem _ he

theorem Effect.of_quiet (h : w.Quiet w')
    (hreaches : ∀ t g, w'.Reaches t g → w.Reaches t g ∨
      g ≤ w'.nap.text.deleteGeneration ∧ ∀ h ≤ g, 0 < h → w'.CheckedIn t h)
    (hthread : ∀ t g', w'.generation t = some g' → (∃ g ≤ g', w.generation t = some g) ∨
      w.generation t = none ∧ w.threadsMu = none ∧
        ∀ g ≤ w'.nap.text.deleteGeneration, .spawned t ∈ since (.halted g) w'.history)
    (hother : ∀ t ≠ natp, w'.point t = w.point t)
    (hload : ∀ t ≠ natp, w.dynamicLoadMutex = some t → w'.dynamicLoadMutex = some t)
    (hthreads : ∀ t ≠ natp, w.threadsMu = some t → w'.threadsMu = some t)
    (hpoint : w'.PointSound natp (w'.point natp)) : w.Effect w' natp where
  table := h.table
  fate _ hmem := .kept (h.regions ▸ hmem)
  generation_le := h.deleteGeneration.ge
  later e g _ := h.later e g
  mem _ := h.mem
  region _ hmem _ := Or.inl (h.regions ▸ hmem)
  heads := h.heads
  reaches := hreaches
  thread := hthread
  other := hother
  load t ht hlock := ⟨hload t ht hlock, h.regions, h.deleteGeneration⟩
  threads := hthreads
  point := hpoint

theorem goto_point (w : TextWorld) (natp t : ℕ) (point : DeletePoint) :
    (w.goto natp point).point t = if t = natp then point else w.point t :=
  Function.update_apply _ _ _ _

theorem getElem?_naclAddThreadMu (threads : List (Option ℤ)) (g : ℤ) (t : ℕ) :
    (naclAddThreadMu threads g).1[t]?.join =
      if t = (naclAddThreadMu threads g).2 then some g else threads[t]?.join := by
  unfold naclAddThreadMu
  dsimp only
  by_cases hfree : threads.idxOf none < threads.length
  · rw [if_pos hfree, List.getElem?_set]
    split_ifs with h h'
    · rfl
    · exact absurd h.symm h'
    · rename_i h'
      exact absurd h'.symm h
    · rfl
  · have hlen : threads.idxOf none = threads.length :=
      le_antisymm List.idxOf_le_length (not_lt.1 hfree)
    rw [if_neg hfree, hlen]
    by_cases ht : t = threads.length
    · rw [if_pos ht, ht, List.getElem?_concat_length]
      rfl
    · rw [if_neg ht]
      rcases Nat.lt_or_ge t threads.length with hlt | hge
      · rw [List.getElem?_append_left hlt]
      · rw [List.getElem?_eq_none (by rw [List.length_append, List.length_singleton]; omega),
          List.getElem?_eq_none hge]

theorem getElem?_naclAddThreadMu_pos (threads : List (Option ℤ)) (g : ℤ) :
    threads[(naclAddThreadMu threads g).2]?.join = none := by
  unfold naclAddThreadMu
  dsimp only
  by_cases hfree : threads.idxOf none < threads.length
  · rw [List.getElem?_eq_getElem hfree, List.getElem_idxOf hfree]
    rfl
  · rw [List.getElem?_eq_none (not_lt.1 hfree)]
    rfl

theorem effect_spawn (hw : w.Inv) (hrun : w.spawn = .ok w') : ∃ natp, w.Effect w' natp := by
  unfold spawn at hrun
  split_ifs at hrun with hmu
  obtain ⟨added, hadded⟩ : ∃ added, naclAddThreadMu w.nap.text.threadGeneration 0 = added :=
    ⟨_, rfl⟩
  have hget := getElem?_naclAddThreadMu w.nap.text.threadGeneration 0
  have hpos := getElem?_naclAddThreadMu_pos w.nap.text.threadGeneration 0
  rw [hadded] at hrun hget hpos
  cases hrun
  have hspawned : ∀ g, TextEvent.spawned added.2 ∈
      since (.halted g) (.spawned added.2 :: w.history) := fun g => self_mem_since_cons nofun
  refine ⟨added.2, .of_quiet ⟨tableSound_setThreads hw.table _, rfl, rfl, fun _ _ h => h,
    Or.inr ⟨.spawned added.2, fun _ => nofun, rfl⟩⟩ (fun t g hreach => ?_) (fun t g hg => ?_) (fun t ht => ?_)
    (fun t _ hlock => hlock) (fun t _ hlock => hlock) ?_⟩
  · by_cases ht : t = added.2
    · refine Or.inr ?_
      rcases hreach with hg | hp
      · change added.1[t]?.join = some g at hg
        rw [hget, if_pos ht] at hg
        cases hg
        exact ⟨hw.generation_nonneg, fun h hle hpos => absurd hle (not_le.2 hpos)⟩
      · change (goto _ _ _).point t = _ at hp
        rw [goto_point, if_pos ht] at hp
        cases hp
    · refine Or.inl (hreach.imp (fun hg => ?_) fun hp => ?_)
      · change added.1[t]?.join = some g at hg
        rwa [hget, if_neg ht] at hg
      · change (goto _ _ _).point t = _ at hp
        rwa [goto_point, if_neg ht] at hp
  · change added.1[t]?.join = some g at hg
    rw [hget] at hg
    by_cases ht : t = added.2
    · subst ht
      exact Or.inr ⟨hpos, not_not.1 hmu, fun g _ => hspawned g⟩
    · rw [if_neg ht] at hg
      exact Or.inl ⟨g, le_rfl, hg⟩
  · exact (goto_point _ _ _ _).trans (if_neg ht)
  · change PointSound _ _ ((goto _ _ _).point _)
    rw [goto_point, if_pos rfl]
    trivial

theorem effect_exit (hw : w.Inv) (hlive : w.generation natp ≠ none)
    (hpoint : w.point natp = .running) (hrun : w.exit natp = .ok w') : w.Effect w' natp := by
  unfold exit at hrun
  split_ifs at hrun with hmu
  cases hrun
  have hgen : ∀ t g, (w.nap.text.threadGeneration.set natp none)[t]?.join = some g →
      w.generation t = some g := by
    intro t g hg
    rw [generation_set w natp t none hlive] at hg
    split_ifs at hg
    exact hg
  refine .of_quiet ⟨tableSound_setThreads hw.table _, rfl, rfl, fun _ _ h => h,
    Or.inr ⟨.exited natp, fun _ => nofun, rfl⟩⟩ (fun t g hreach => Or.inl ?_)
    (fun t g hg => Or.inl ⟨g, le_rfl, hgen t g hg⟩) (fun _ _ => rfl) (fun t _ hlock => hlock)
    (fun t _ hlock => hlock) ?_
  · exact hreach.imp_left (hgen t g)
  · change PointSound _ _ (w.point natp)
    rw [hpoint]
    trivial

theorem effect_create {dest src size : BitVec 32} {ans : DyncodeAnswers} (hw : w.Inv)
    (hpoint : w.point natp = .running)
    (hrun : w.create dest.toNat src.toNat size.toNat ans = .ok w') : w.Effect w' natp := by
  unfold create at hrun
  split_ifs at hrun with hfree
  split at hrun
  · cases hrun
  · next nap r hcreate =>
    cases hrun
    have hadd := regionAdded_naclSysDyncodeCreate hw.table dest src size hcreate
    have hgen : ∀ t, generation { w with nap } t = w.generation t := by
      intro t
      unfold generation
      rw [hadd.threadGeneration]
    have hnone : ∀ t, w.dynamicLoadMutex ≠ some t := by
      intro t hlock
      rw [not_not.1 hfree] at hlock
      cases hlock
    refine ⟨hadd.sound, fun region hmem => .kept (hadd.kept region hmem),
      hadd.deleteGeneration.ge, fun _ _ _ he => he, fun _ he => he, fun region hmem hnonneg => ?_,
      hadd.halted, fun t g hreach => Or.inl ?_, fun t g hg => Or.inl ⟨g, le_rfl, ?_⟩,
      fun _ _ => rfl, fun t _ hlock => absurd hlock (hnone t), fun _ _ hlock => hlock, ?_⟩
    · refine Or.inl ((hadd.added region hmem).resolve_right fun hnew => ?_)
      omega
    · exact hreach.imp_left fun hg => hgen t ▸ hg
    · exact hgen t ▸ hg
    · change PointSound _ _ (w.point natp)
      rw [hpoint]
      trivial

theorem effect_refl (hw : w.Inv) (natp : ℕ) : w.Effect w natp :=
  .of_quiet ⟨hw.table, rfl, rfl, fun _ _ h => h, Or.inl rfl⟩ (fun _ _ => Or.inl)
    (fun _ g hg => Or.inl ⟨g, le_rfl, hg⟩) (fun _ _ => rfl) (fun _ _ hlock => hlock)
    (fun _ _ hlock => hlock) (hw.point natp)

theorem checkedIn_record_called (w : TextWorld) (natp : ℕ) (g : ℤ) :
    (w.record (.called natp)).CheckedIn natp g :=
  Or.inl (self_mem_since_cons nofun)

theorem effect_fetch (hw : w.Inv) :
    w.Effect ((w.goto natp (.setGeneration w.nap.text.deleteGeneration)).record (.called natp))
      natp := by
  refine .of_quiet ⟨hw.table, rfl, rfl, fun _ _ h => h, Or.inr ⟨.called natp, fun _ => nofun, rfl⟩⟩
    (fun t g hreach => ?_) (fun _ g hg => Or.inl ⟨g, le_rfl, hg⟩)
    (fun t ht => (goto_point _ _ _ _).trans (if_neg ht)) (fun _ _ hlock => hlock)
    (fun _ _ hlock => hlock) ?_
  · rcases hreach with hg | hp
    · exact Or.inl (Or.inl hg)
    · change (goto _ _ _).point t = _ at hp
      rw [goto_point] at hp
      split_ifs at hp with ht
      · cases hp
        subst ht
        exact Or.inr ⟨le_rfl, fun h _ _ => checkedIn_record_called _ _ _⟩
      · exact Or.inl (Or.inr hp)
  · change PointSound _ _ ((goto _ _ _).point _)
    rw [goto_point, if_pos rfl]
    trivial

theorem effect_again {region : NaClDynamicRegion} (hw : w.Inv) (hfree : w.dynamicLoadMutex = none)
    (hix : w.nap.text.regions[ix]? = some region) (hgen : 0 ≤ region.deleteGeneration) :
    w.Effect (({ w with dynamicLoadMutex := some natp }.goto natp (.checkIn ix)).record
      (.called natp)) natp := by
  refine .of_quiet ⟨hw.table, rfl, rfl, fun _ _ h => h, Or.inr ⟨.called natp, fun _ => nofun, rfl⟩⟩
    (fun t g hreach => Or.inl (hreach.imp id fun hp => ?_)) (fun _ g hg => Or.inl ⟨g, le_rfl, hg⟩)
    (fun t ht => (goto_point _ _ _ _).trans (if_neg ht)) (fun t _ hlock => ?_)
    (fun _ _ hlock => hlock) ?_
  · change (goto _ _ _).point t = _ at hp
    rw [goto_point] at hp
    split_ifs at hp
    exact hp
  · rw [hfree] at hlock
    cases hlock
  · change PointSound _ _ ((goto _ _ _).point _)
    rw [goto_point, if_pos rfl]
    exact ⟨⟨rfl, region, hix, hgen⟩, fun g _ => checkedIn_record_called _ _ _⟩

theorem effect_mark {region : NaClDynamicRegion} {nap : NaClApp} (hw : w.Inv)
    (hfree : w.dynamicLoadMutex = none) (hix : w.nap.text.regions[ix]? = some region)
    (hfresh : region.deleteGeneration < 0) (hmark : RegionMarked w.nap nap ix region none) :
    w.Effect ((({ w with nap, dynamicLoadMutex := some natp }.goto natp (.checkIn ix)).record
      (.halted nap.text.deleteGeneration)).record (.called natp)) natp := by
  obtain ⟨hsound, hthreads, hhalted, -, hmarked⟩ := hmark
  obtain ⟨hheads, hnext, hregions⟩ := hmarked rfl
  have hnonneg := hw.generation_nonneg
  obtain ⟨hlt, rfl⟩ := List.getElem?_eq_some_iff.1 hix
  obtain ⟨new, hnew⟩ : ∃ new : NaClDynamicRegion, new = { w.nap.text.regions[ix] with
    deleteGeneration := w.nap.text.deleteGeneration + 1 } := ⟨_, rfl⟩
  rw [← hnew] at hregions
  have hget : nap.text.regions[ix]? = some new := by
    rw [hregions, List.getElem?_set_self hlt]
  have hnewgen : new.deleteGeneration = w.nap.text.deleteGeneration + 1 := by rw [hnew]
  have hgen : ∀ t, generation { w with nap } t = w.generation t := by
    intro t
    unfold generation
    rw [hthreads]
  refine ⟨hsound, fun old hmem => ?_, ?_, fun e g hg he => ?_, fun e he => ?_,
    fun old hmem hold => ?_, fun old _ => hhalted old, fun t g hreach => Or.inl ?_,
    fun t g hg => Or.inl ⟨g, le_rfl, hgen t ▸ hg⟩,
    fun t ht => (goto_point _ _ _ _).trans (if_neg ht), fun t _ hlock => ?_,
    fun _ _ hlock => hlock, ?_⟩
  · by_cases heq : old = w.nap.text.regions[ix]
    · subst heq
      refine .marked hfresh hnext ?_
      change { w.nap.text.regions[ix] with deleteGeneration := nap.text.deleteGeneration } ∈
        nap.text.regions
      rw [hnext, ← hnew]
      exact List.mem_of_getElem? hget
    · refine .kept ?_
      change old ∈ nap.text.regions
      obtain ⟨j, hj⟩ := List.mem_iff_getElem?.1 hmem
      refine List.mem_iff_getElem?.2 ⟨j, ?_⟩
      rw [hregions, List.getElem?_set_ne, hj]
      rintro rfl
      rw [hix] at hj
      exact heq (Option.some.inj hj).symm
  · change _ ≤ nap.text.deleteGeneration
    omega
  · refine mem_since_cons nofun (mem_since_cons ?_ he)
    intro heq
    cases heq
    omega
  · exact List.mem_cons_of_mem _ (List.mem_cons_of_mem _ he)
  · change old ∈ nap.text.regions at hmem
    rw [hregions] at hmem
    rcases List.mem_or_eq_of_mem_set hmem with hmem | rfl
    · exact Or.inl hmem
    · refine Or.inr ⟨hnewgen, hnext, ?_, ?_⟩
      · change _ ∈ TextEvent.called natp :: .halted nap.text.deleteGeneration :: w.history
        rw [hnewgen, hnext]
        exact List.mem_cons_of_mem _ List.mem_cons_self
      · intro i hlo hhi
        rw [hnew] at hlo hhi
        exact hheads i hlo hhi
  · refine hreach.imp (fun hg => hgen t ▸ hg) fun hp => ?_
    change (goto _ _ _).point t = _ at hp
    rw [goto_point] at hp
    split_ifs at hp
    exact hp
  · rw [hfree] at hlock
    cases hlock
  · change PointSound _ _ ((goto _ _ _).point _)
    rw [goto_point, if_pos rfl]
    refine ⟨⟨rfl, new, hget, ?_⟩, fun g _ => checkedIn_record_called _ _ _⟩
    omega

theorem effect_delete {dest size : BitVec 32} {shmMap : Bool} (hw : w.Inv)
    (hpoint : w.point natp = .running)
    (hrun : w.delete natp dest.toNat size.toNat shmMap = .ok w') : w.Effect w' natp := by
  obtain ⟨mark, hmark⟩ : ∃ f, f = markDeleted := ⟨_, rfl⟩
  unfold delete at hrun
  rw [← hmark] at hrun
  dsimp only at hrun
  split_ifs at hrun with henable hshm hzero hfree hbad hfree
  · cases hrun
    exact effect_refl hw natp
  · cases hrun
    exact effect_refl hw natp
  · cases hrun
    exact effect_fetch hw
  · cases hrun
    exact effect_refl hw natp
  · have haddr := (naclUserToSysAddrRange_spec (dest.isLt.trans (by decide))
      (size.isLt.trans (by decide)) hbad).2.2
    split at hrun
    · next ix region hfind hbind =>
      rw [hfind, Option.bind_some] at hbind
      split_ifs at hrun with hother hfresh
      · cases hrun
        exact effect_refl hw natp
      · have hstart : region.start = w.nap.space.memStart + dest.toNat := by
          rw [← haddr]
          exact not_not.1 fun hne => hother (Or.inl hne)
        have hsize : region.size = size.toNat :=
          not_not.1 fun hne => hother (Or.inr (Or.inl hne))
        split at hrun
        · cases hrun
        · next nap errno hrunMark =>
          cases hrun
          rw [hmark] at hrunMark
          have heff := regionMarked_markDeleted hw.table hbind hstart hsize hrunMark
          have hsame := heff.failed (Option.some_ne_none errno)
          have hgen : ∀ t, generation { w with nap } t = w.generation t := by
            intro t
            unfold generation
            rw [hsame.threadGeneration]
          refine .of_quiet ⟨heff.sound, hsame.regions, hsame.deleteGeneration,
            fun old _ => heff.halted old, Or.inl rfl⟩
            (fun t g hreach => Or.inl (hreach.imp_left fun hg => hgen t ▸ hg))
            (fun t g hg => Or.inl ⟨g, le_rfl, hgen t ▸ hg⟩) (fun _ _ => rfl)
            (fun _ _ hlock => hlock) (fun _ _ hlock => hlock) ?_
          change PointSound _ _ (w.point natp)
          rw [hpoint]
          trivial
        · next nap hrunMark =>
          cases hrun
          rw [hmark] at hrunMark
          exact effect_mark hw (not_not.1 hfree) hbind hfresh
            (regionMarked_markDeleted hw.table hbind hstart hsize hrunMark)
      · cases hrun
        exact effect_again hw (not_not.1 hfree) hbind (not_lt.1 hfresh)
    · cases hrun
      exact effect_refl hw natp

/-! ## The steps under the lock -/

theorem naclSetThreadGeneration_spec {text text' : DynamicText} {g : ℤ}
    (hset : naclSetThreadGeneration text natp g = .ok text') :
    ∃ old ≤ g, text.threadGeneration[natp]?.join = some old ∧
      text' = { text with threadGeneration := text.threadGeneration.set natp (some g) } := by
  unfold naclSetThreadGeneration at hset
  split at hset
  · next old hget =>
    split_ifs at hset with heq hle
    · cases hset
      refine ⟨old, heq.le, by rw [hget]; rfl, ?_⟩
      obtain ⟨hlt, hold⟩ := List.getElem?_eq_some_iff.1 hget
      rw [← heq, ← hold, List.set_getElem_self]
    · cases hset
      exact ⟨old, hle, by rw [hget]; rfl, rfl⟩
  · cases hset

theorem effect_setGeneration {g : ℤ} {text : DynamicText} {point : DeletePoint} (hw : w.Inv)
    (hset : naclSetThreadGeneration w.nap.text natp g = .ok text)
    (hg : g ≤ w.nap.text.deleteGeneration)
    (hin : w.Reaches natp g ∨ ∀ h ≤ w.nap.text.deleteGeneration, w.CheckedIn natp h)
    (hne : ∀ g, point ≠ .setGeneration g)
    (hpoint : ({ w with nap := { w.nap with text } }.goto natp point).PointSound natp point) :
    w.Effect ({ w with nap := { w.nap with text } }.goto natp point) natp := by
  obtain ⟨old, hle, hold, rfl⟩ := naclSetThreadGeneration_spec hset
  have hgen : ∀ t, (w.nap.text.threadGeneration.set natp (some g))[t]?.join =
      if t = natp then some g else w.generation t := by
    intro t
    refine generation_set w natp t (some g) ?_
    rw [show w.generation natp = some old from hold]
    exact Option.some_ne_none old
  refine .of_quiet ⟨tableSound_setThreads hw.table _, rfl, rfl, fun _ _ h => h, Or.inl rfl⟩
    (fun t h hreach => ?_) (fun t h hh => Or.inl ?_)
    (fun t ht => (goto_point _ _ _ _).trans (if_neg ht)) (fun _ _ hlock => hlock)
    (fun _ _ hlock => hlock) ?_
  · rcases hreach with hh | hp
    · change (w.nap.text.threadGeneration.set natp (some g))[t]?.join = some h at hh
      rw [hgen] at hh
      split_ifs at hh with ht
      · cases hh
        subst ht
        exact hin.imp id fun hall => ⟨hg, fun h hle _ => hall h (hle.trans hg)⟩
      · exact Or.inl (Or.inl hh)
    · rw [goto_point] at hp
      split_ifs at hp with ht
      · exact absurd hp (hne h)
      · exact Or.inl (Or.inr hp)
  · change (w.nap.text.threadGeneration.set natp (some g))[t]?.join = some h at hh
    rw [hgen] at hh
    split_ifs at hh with ht
    · cases hh
      subst ht
      exact ⟨old, hle, hold⟩
    · exact ⟨h, le_rfl, hh⟩
  · rw [goto_point, if_pos rfl]
    exact hpoint

theorem effect_goto {lock threadsMu : Option ℕ} {point : DeletePoint} (hw : w.Inv)
    (hlock : lock = w.dynamicLoadMutex ∨ w.dynamicLoadMutex = some natp)
    (hthreads : threadsMu = w.threadsMu ∨ w.threadsMu = some natp ∨ w.threadsMu = none)
    (hne : ∀ g, point ≠ .setGeneration g)
    (hpoint : ({ w with dynamicLoadMutex := lock, threadsMu }.goto natp point).PointSound natp
      point) : w.Effect ({ w with dynamicLoadMutex := lock, threadsMu }.goto natp point) natp := by
  refine .of_quiet ⟨hw.table, rfl, rfl, fun _ _ h => h, Or.inl rfl⟩
    (fun t h hreach => Or.inl (hreach.imp id fun hp => ?_)) (fun t h hh => Or.inl ⟨h, le_rfl, hh⟩)
    (fun t ht => (goto_point _ _ _ _).trans (if_neg ht)) (fun t ht hheld => ?_)
    (fun t ht hheld => ?_) ?_
  · rw [goto_point] at hp
    split_ifs at hp with ht
    · exact absurd hp (hne h)
    · exact hp
  · rcases hlock with rfl | hown
    · exact hheld
    · rw [hown] at hheld
      exact absurd (Option.some.inj hheld).symm ht
  · rcases hthreads with rfl | hown | hnone
    · exact hheld
    · rw [hown] at hheld
      exact absurd (Option.some.inj hheld).symm ht
    · rw [hnone] at hheld
      cases hheld
  · rw [goto_point, if_pos rfl]
    exact hpoint

theorem effect_remove {region : NaClDynamicRegion} {rv : ℤ} (hw : w.Inv)
    (hpoint : w.point natp = .decide ix rv) (hix : w.nap.text.regions[ix]? = some region)
    (hle : region.deleteGeneration ≤ rv) :
    w.Effect ({ { w with dynamicLoadMutex := none }.goto natp .running with
      nap := { w.nap with text := naclDynamicRegionDelete w.nap.text ix } }.record
        (.removed region)) natp := by
  have hsound := hw.point natp
  rw [hpoint] at hsound
  obtain ⟨⟨hlock, region', hix', hgen⟩, hdone⟩ := hsound
  obtain rfl : region' = region := Option.some.inj (hix'.symm.trans hix)
  have hcondemned := hw.condemned region' (List.mem_of_getElem? hix) hgen
  obtain ⟨hregions, hmem⟩ := hw.table.regions.delete_spec hix
  refine ⟨⟨hw.table.text.of_textStep (.of_text rfl rfl) hw.table.text.mapcache, hregions,
      fun old hold => hw.table.placed old ((hmem old).1 hold).1⟩, fun old hold => ?_, le_rfl,
    fun e g _ he => mem_since_cons nofun he, fun e he => List.mem_cons_of_mem _ he,
    fun old hold _ => Or.inl ((hmem old).1 hold).1, fun _ _ hheads => hheads,
    fun t h hreach => Or.inl (hreach.imp id fun hp => ?_),
    fun t h hh => Or.inl ⟨h, le_rfl, hh⟩, fun t ht => (goto_point _ _ _ _).trans (if_neg ht),
    fun t ht hheld => ?_, fun _ _ hheld => hheld, ?_⟩
  · by_cases heq : old = region'
    · subst heq
      refine .removed hcondemned fun t g hg => ?_
      rcases hdone t g hg with hrv | hspawned
      · exact hcondemned.checkedIn t g (Or.inl hg) (hle.trans hrv)
      · exact Or.inr (hspawned _ hcondemned.le)
    · exact .kept ((hmem old).2 ⟨hold, heq⟩)
  · change (goto _ _ _).point t = _ at hp
    rw [goto_point] at hp
    split_ifs at hp
    exact hp
  · rw [hlock] at hheld
    exact absurd (Option.some.inj hheld).symm ht
  · change PointSound _ _ ((goto _ _ _).point _)
    rw [goto_point, if_pos rfl]
    trivial

theorem effect_advance (hw : w.Inv) (hrun : w.advance natp = .ok w') : w.Effect w' natp := by
  have hsound := hw.point natp
  unfold advance at hrun
  split at hrun
  · cases hrun
  · next generation hpoint =>
    split at hrun
    · cases hrun
    · next text hset =>
      cases hrun
      exact effect_setGeneration hw hset (hw.le natp generation (Or.inr hpoint))
        (Or.inl (Or.inr hpoint)) (fun _ => nofun) trivial
  · next ix hpoint =>
    rw [hpoint] at hsound
    obtain ⟨hdel, hin⟩ := hsound
    split at hrun
    · cases hrun
    · next text hset =>
      cases hrun
      refine effect_setGeneration hw hset le_rfl (Or.inr hin) (fun _ => nofun) ?_
      obtain ⟨old, -, -, rfl⟩ := naclSetThreadGeneration_spec hset
      exact hdel
  · next ix hpoint =>
    rw [hpoint] at hsound
    split_ifs at hrun with hmu
    cases hrun
    exact effect_goto hw (Or.inl rfl) (Or.inr (Or.inr (not_not.1 hmu))) (fun _ => nofun)
      ⟨hsound, rfl, fun t ht => absurd ht (Nat.not_lt_zero t)⟩
  · next ix index rv hpoint =>
    rw [hpoint] at hsound
    obtain ⟨hdel, hmu, hscan⟩ := hsound
    split_ifs at hrun with hlt
    · cases hrun
      refine effect_goto hw (Or.inl rfl) (Or.inl rfl) (fun _ => nofun)
        ⟨hdel, hmu, fun t ht g hg => ?_⟩
      rcases Nat.lt_succ_iff_lt_or_eq.1 ht with ht | rfl
      · have hrv := hscan t ht g hg
        cases w.generation index with
        | none => exact hrv
        | some g' => exact (min_le_left rv g').trans hrv
      · rw [show w.generation t = some g from hg]
        exact min_le_right rv g
    · cases hrun
      refine effect_goto hw (Or.inl rfl) (Or.inr (Or.inl hmu)) (fun _ => nofun)
        ⟨hdel, fun t g hg => Or.inl (hscan t ?_ g hg)⟩
      -- a thread is in front of the end of the table
      by_contra hge
      have hend : w.nap.text.threadGeneration[t]? = none :=
        List.getElem?_eq_none ((not_lt.1 hlt).trans (not_lt.1 hge))
      change w.nap.text.threadGeneration[t]?.join = some g at hg
      rw [hend] at hg
      cases hg
  · next ix rv hpoint =>
    split at hrun
    · cases hrun
    · next region hix =>
      dsimp only at hrun
      split_ifs at hrun with hle
      · cases hrun
        exact effect_remove hw hpoint hix hle
      · cases hrun
        rw [hpoint] at hsound
        exact effect_goto hw (Or.inr hsound.1.1) (Or.inl rfl) (fun _ => nofun) trivial

/-! ## Runs -/

theorem effect_step {action : TextAction} (hw : w.Inv) (hrun : w.step action = .ok w') :
    ∃ natp, w.Effect w' natp := by
  cases action with
  | spawn => exact effect_spawn hw hrun
  | exit natp =>
    dsimp only [step] at hrun
    split_ifs at hrun with hok
    exact ⟨natp, effect_exit hw hok.1 hok.2 hrun⟩
  | create natp dest src size ans =>
    dsimp only [step] at hrun
    split_ifs at hrun with hok
    exact ⟨natp, effect_create hw hok.2 hrun⟩
  | delete natp dest size shmMap =>
    dsimp only [step] at hrun
    split_ifs at hrun with hok
    exact ⟨natp, effect_delete hw hok.2 hrun⟩
  | advance natp => exact ⟨natp, effect_advance hw hrun⟩

theorem Initial.inv (h : w.Initial) : w.Inv := by
  refine ⟨h.table, h.generation_nonneg, fun t g hreach => ?_, fun region hmem hgen => ?_,
    fun t => ?_⟩
  · rcases hreach with hg | hp
    · exact h.thread_le t g hg
    · rw [h.running t] at hp
      cases hp
  · exact absurd hgen (not_le.2 (h.fresh region hmem))
  · rw [h.running t]
    trivial

theorem inv_of_run {w₀ : TextWorld} {actions : List TextAction} (h : w₀.Initial)
    (hrun : actions.foldlM step w₀ = .ok w) : w.Inv :=
  invariant (fun s a s' hs hstep => by
    obtain ⟨natp, heff⟩ := effect_step hs hstep
    exact heff.inv hs) h.inv hrun

end

end TextWorld

/-- In every run a step leaves a region in the table, assigns it the next generation if it has none,
or removes it when its bundle heads are halts and every thread alive has made a call, or was created,
since they were replaced.  No thread is ahead of the generation of the application, and no generation
decreases. -/
theorem twoPhaseDelete {w₀ w w' : TextWorld} {actions : List TextAction} {action : TextAction}
    (h : w₀.Initial) (hrun : actions.foldlM TextWorld.step w₀ = .ok w)
    (hstep : w.step action = .ok w') :
    (∀ region ∈ w.nap.text.regions, region ∈ w'.nap.text.regions ∨
      (region.deleteGeneration < 0 ∧
        { region with deleteGeneration := w.nap.text.deleteGeneration + 1 } ∈
          w'.nap.text.regions) ∨
      (0 < region.deleteGeneration ∧ .halted region.deleteGeneration ∈ w.history ∧
        w.nap.HeadsHalted region ∧ ∀ natp, w.generation natp ≠ none →
          w.CheckedIn natp region.deleteGeneration)) ∧
    (∀ natp g, w.generation natp = some g → g ≤ w.nap.text.deleteGeneration) ∧
    (∀ natp g g', w.generation natp = some g → w'.generation natp = some g' → g ≤ g') ∧
    w.nap.text.deleteGeneration ≤ w'.nap.text.deleteGeneration := by
  have hw := TextWorld.inv_of_run h hrun
  obtain ⟨actor, heff⟩ := TextWorld.effect_step hw hstep
  refine ⟨fun region hmem => ?_, fun natp g hg => hw.le natp g (Or.inl hg),
    fun natp g g' hg hg' => ?_, heff.generation_le⟩
  · cases heff.fate region hmem with
    | kept hkept => exact Or.inl hkept
    | marked hfresh hnext hmarked => exact Or.inr (Or.inl ⟨hfresh, hnext ▸ hmarked⟩)
    | removed hcondemned hin =>
      refine Or.inr (Or.inr ⟨hcondemned.pos, hcondemned.mem, hcondemned.heads,
        fun natp hlive => ?_⟩)
      obtain ⟨g, hg⟩ := Option.ne_none_iff_exists'.1 hlive
      exact hin natp g hg
  · rcases heff.thread natp g' hg' with ⟨old, hle, hold⟩ | ⟨hnone, -⟩
    · rw [hg] at hold
      cases hold
      exact hle
    · rw [hg] at hnone
      cases hnone

/-! ## A call that is not interrupted -/

namespace TextWorld

/-- The thread gets from `w` to `w'` on its own. -/
def Advances (natp : ℕ) : TextWorld → TextWorld → Prop :=
  Relation.ReflTransGen fun w w' => w.advance natp = .ok w'

section

variable {w w' w'' : TextWorld} {natp ix : ℕ}

theorem Advances.head (h : w.advance natp = .ok w') (h' : Advances natp w' w'') :
    Advances natp w w'' :=
  Relation.ReflTransGen.head h h'

theorem goto_goto (w : TextWorld) (natp : ℕ) (point point' : DeletePoint) :
    (w.goto natp point).goto natp point' = w.goto natp point' := by
  unfold goto
  dsimp only
  rw [Function.update_idem]

theorem advances_scan {rv : ℤ} (n index : ℕ)
    (hn : index + n = w.nap.text.threadGeneration.length) :
    Advances natp (w.goto natp (.scan ix index rv)) ({ w with threadsMu := none }.goto natp
      (.decide ix ((w.nap.text.threadGeneration.drop index).reduceOption.foldl min rv))) := by
  have hpoint : ∀ rv, (w.goto natp (.scan ix index rv)).point natp = .scan ix index rv :=
    fun rv => (goto_point _ _ _ _).trans (if_pos rfl)
  induction n generalizing index rv with
  | zero =>
    rw [List.drop_of_length_le (by omega)]
    refine .single ?_
    unfold advance
    rw [hpoint]
    have hend : ¬ index < w.nap.text.threadGeneration.length := by omega
    exact (if_neg hend).trans (congrArg Except.ok (goto_goto { w with threadsMu := none } _ _ _))
  | succ n ih =>
    have hlt : index < w.nap.text.threadGeneration.length := by omega
    have hgen : w.generation index = w.nap.text.threadGeneration[index] := by
      unfold generation
      rw [List.getElem?_eq_getElem hlt]
      rfl
    have hstep : (w.goto natp (.scan ix index rv)).advance natp =
        .ok (w.goto natp (.scan ix (index + 1) ((w.generation index).elim rv (min rv)))) := by
      unfold advance
      rw [hpoint]
      exact (if_pos hlt).trans (congrArg Except.ok (goto_goto _ _ _ _))
    refine .head hstep ?_
    rw [List.drop_eq_getElem_cons hlt, ← hgen]
    have hnext := fun rv => @ih rv (index + 1) (by omega)
      (fun rv => (goto_point _ _ _ _).trans (if_pos rfl))
    cases w.generation index with
    | none => exact hnext rv
    | some g => exact hnext (min rv g)

theorem advances_finishDelete {region : NaClDynamicRegion} {nap' : NaClApp} {r : SysResult}
    (hthreads : w.threadsMu = none) (hix : w.nap.text.regions[ix]? = some region)
    (hrun : finishDelete w.nap natp ix region.deleteGeneration = .ok (nap', r)) :
    ∃ w', Advances natp (w.goto natp (.checkIn ix)) w' ∧ w'.nap = nap' ∧
      w'.dynamicLoadMutex = none ∧ w'.threadsMu = none ∧ w'.point natp = .running := by
  have hpoint : ∀ (w : TextWorld) p, (w.goto natp p).point natp = p :=
    fun w p => (goto_point _ _ _ _).trans (if_pos rfl)
  unfold finishDelete at hrun
  split at hrun
  · cases hrun
  · next text hset =>
    obtain ⟨mid, hmid⟩ : ∃ mid : TextWorld, mid = { w with nap := { w.nap with text } } := ⟨_, rfl⟩
    have htext : mid.nap.text = text := by rw [hmid]
    have hregions : mid.nap.text.regions = w.nap.text.regions := by
      obtain ⟨old, -, -, rfl⟩ := naclSetThreadGeneration_spec hset
      rw [hmid]
    have hcheck : (w.goto natp (.checkIn ix)).advance natp =
        .ok (mid.goto natp (.lockThreads ix)) := by
      unfold advance
      rw [hpoint]
      dsimp only [goto]
      rw [hset, hmid]
      dsimp only
      rw [Function.update_idem]
    have hlock : (mid.goto natp (.lockThreads ix)).advance natp =
        .ok ({ mid with threadsMu := some natp }.goto natp (.scan ix 0 (2 ^ 31 - 1))) := by
      have hfree : mid.threadsMu = none := by
        rw [hmid]
        exact hthreads
      unfold advance
      rw [hpoint]
      dsimp only
      exact (if_neg (not_not.2 hfree)).trans
        (congrArg Except.ok (goto_goto { mid with threadsMu := some natp } _ _ _))
    have hscan := @advances_scan { mid with threadsMu := some natp } natp ix (2 ^ 31 - 1) _ 0
      (Nat.zero_add _)
    rw [List.drop_zero] at hscan
    have hdecide := Advances.head hcheck (.head hlock hscan)
    rw [show mid.nap.text.threadGeneration = text.threadGeneration by rw [htext]] at hdecide
    change Advances natp _ ({ mid with threadsMu := none }.goto natp
      (.decide ix (naclMinimumThreadGeneration text))) at hdecide
    obtain ⟨last, hlast, hnap, hlock, hthreads, hrunning⟩ : ∃ last : TextWorld,
        ({ mid with threadsMu := none }.goto natp
          (.decide ix (naclMinimumThreadGeneration text))).advance natp = .ok last ∧
        last.nap = nap' ∧ last.dynamicLoadMutex = none ∧ last.threadsMu = none ∧
        last.point natp = .running := by
      have hix' : mid.nap.text.regions[ix]? = some region := hregions ▸ hix
      unfold advance
      rw [hpoint]
      dsimp only [goto]
      rw [hix']
      dsimp only
      split_ifs at hrun ⊢ with hle
      · cases hrun
        refine ⟨_, rfl, ?_, rfl, rfl, Function.update_self _ _ _⟩
        rw [hmid]
        rfl
      · cases hrun
        refine ⟨_, rfl, ?_, rfl, rfl, Function.update_self _ _ _⟩
        rw [hmid]
    exact ⟨last, hdecide.tail hlast, hnap, hlock, hthreads, hrunning⟩

end

end TextWorld

def smallWorld : TextWorld := ⟨smallApp, none, none, fun _ => .running, []⟩

theorem smallWorld_initial : smallWorld.Initial where
  table := ⟨smallApp_textSound, ⟨.nil, nofun, le_rfl⟩, nofun⟩
  generation_nonneg := le_rfl
  thread_le natp g hg := by
    rcases natp with _ | natp
    · cases hg
      exact le_rfl
    · cases hg
  fresh := nofun
  running _ := rfl

/-- A bundle of code is created, halted and removed. -/
theorem twoPhaseDelete_smallWorld : ∃ w w',
    [.create 0 0x20000 0x10000 32 ⟨fun code => (true, code), true⟩, .delete 0 0x20000 32 true,
      .advance 0, .advance 0, .advance 0, .advance 0].foldlM TextWorld.step smallWorld = .ok w ∧
    w.step (.advance 0) = .ok w' ∧ w'.nap.text.regions = [] ∧
    w.nap.text.regions = [⟨2 ^ 32 + 0x20000, 32, 1, false⟩] ∧
    w.nap.HeadsHalted ⟨2 ^ 32 + 0x20000, 32, 1, false⟩ ∧
    ∀ natp, w.generation natp ≠ none → w.CheckedIn natp 1 := by
  obtain ⟨w, hrun, w', hstep, hw, hw'⟩ : ∃ w,
      [.create 0 0x20000 0x10000 32 ⟨fun code => (true, code), true⟩, .delete 0 0x20000 32 true,
        .advance 0, .advance 0, .advance 0, .advance 0].foldlM TextWorld.step smallWorld = .ok w ∧
      ∃ w', w.step (.advance 0) = .ok w' ∧
        w.nap.text.regions = [⟨2 ^ 32 + 0x20000, 32, 1, false⟩] ∧ w'.nap.text.regions = [] := by
    refine exists_ok_of_check _ (fun w hw => exists_ok_of_check (fun w' => decide
      (w.nap.text.regions = [⟨2 ^ 32 + 0x20000, 32, 1, false⟩] ∧ w'.nap.text.regions = []))
      (fun _ => of_decide_eq_true) hw) ?_
    decide +kernel
  obtain ⟨hfate, -⟩ := twoPhaseDelete smallWorld_initial hrun hstep
  rw [hw, hw'] at hfate
  rcases hfate _ (List.mem_singleton_self _) with hkept | ⟨hfresh, -⟩ | ⟨-, -, hheads, hin⟩
  · exact absurd hkept List.not_mem_nil
  · exact absurd hfresh (by decide)
  · exact ⟨w, w', hrun, hstep, hw', hw, hheads, hin⟩

end SandboxingNaCl
