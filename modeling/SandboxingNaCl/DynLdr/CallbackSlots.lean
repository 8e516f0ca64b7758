import SandboxingNaCl.DynLdr.CallbackSyscall
import SandboxingNaCl.Lib.Runs
import Mathlib.Data.List.Pairwise

/-!
# Ownership of the callback slots

`sandbox_callback` finds a slot with `getFreeSandboxCallbackSlot` and writes its receiver and its
state in `registerSandboxCallbackWithState`; the destructor of `sandbox_callback_helper` clears both in
`unregisterSandboxCallback`; `NaClSysCallback` reads the slot three times.  None of them takes a lock.
Each read and each write of the slot arrays is one step here, and the steps of any number of
threads interleave.
-/

namespace SandboxingNaCl

open Function

def lastCallbackSlot : ℕ := callbackSlotsAvailable - 1

/-- What `sandbox_callback` registers: `sandbox_callback_receiver<T>`, a function and so not null, and
the host function it calls. -/
structure Callback where
  callbackReceiver : ℕ
  callbackState : ℕ
  callbackReceiver_ne : callbackReceiver ≠ 0
deriving DecidableEq

/-- A `sandbox_callback_helper`, with the callback it was made for. -/
structure CallbackHelper where
  callbackSlotNum : ℕ
  callback : Callback
deriving DecidableEq

/-- What a thread is about to do with the slot arrays. -/
inductive SlotPhase
  | idle
  /-- `getFreeSandboxCallbackSlot`: reads slot `i`. -/
  | searching (cb : Callback) (i : ℕ)
  /-- `registerSandboxCallbackWithState`: writes the receiver. -/
  | registering (cb : Callback) (slot : ℕ)
  /-- `registerSandboxCallbackWithState`: writes the state. -/
  | settingState (cb : Callback) (slot : ℕ)
  /-- `unregisterSandboxCallback`: clears the state. -/
  | clearingState (slot : ℕ)
  /-- `NaClSysCallback`, past its test: reads the receiver. -/
  | readingFunc (slot : ℕ)
  /-- `NaClSysCallback`: reads the state, to pass it to `func`. -/
  | readingState (slot func : ℕ)
deriving DecidableEq

/-- The slot arrays of a `NaClApp`, the threads that work on them and the helpers that exist. -/
structure SlotState (T : Type*) where
  slots : CallbackSlots
  thread : T → SlotPhase
  live : List CallbackHelper

/-- How the process ends, or `notEnabled` for a step that no thread can take. -/
inductive SlotStop
  | sandboxError (msg : String)
  | abort
  | fatal
  | notEnabled

/-- The first step of an operation, or the next step of the operation a thread is in. -/
inductive SlotAction (T : Type*)
  | sandboxCallback (t : T) (cb : Callback)
  | deleteHelper (t : T) (helper : CallbackHelper)
  | naclSysCallback (t : T) (callbackSlotNumber : ℕ)
  | advance (t : T)

variable {T : Type*}

namespace SlotState

def setCallbackSlot (s : SlotState T) (slot value : ℕ) : SlotState T :=
  { s with slots.callbackSlot := Function.update s.slots.callbackSlot slot value }

def setCallbackSlotState (s : SlotState T) (slot value : ℕ) : SlotState T :=
  { s with slots.callbackSlotState := Function.update s.slots.callbackSlotState slot value }

@[simp] theorem setCallbackSlot_thread (s : SlotState T) (slot value : ℕ) :
    (s.setCallbackSlot slot value).thread = s.thread := rfl

variable [DecidableEq T]

/-- Thread `t` goes on to `phase`. -/
def goto (s : SlotState T) (t : T) (phase : SlotPhase) : SlotState T :=
  { s with thread := Function.update s.thread t phase }

@[simp] theorem goto_slots (s : SlotState T) (t : T) (phase : SlotPhase) :
    (s.goto t phase).slots = s.slots := rfl

@[simp] theorem goto_thread (s : SlotState T) (t : T) (phase : SlotPhase) :
    (s.goto t phase).thread = update s.thread t phase := rfl

end SlotState

variable [DecidableEq T]

/-! ## The operations -/

/-- The loop of `getFreeSandboxCallbackSlot` at `i`, and what `sandbox_callback` does when it ends. -/
def getFreeSandboxCallbackSlot (s : SlotState T) (t : T) (cb : Callback) (i : ℕ) :
    Except SlotStop (SlotState T) :=
  if i < callbackSlotsAvailable then
    if s.slots.callbackSlot i = 0 then
      .ok (s.goto t (.registering cb i))
    else
      .ok (s.goto t (.searching cb (i + 1)))
  else
    .error (.sandboxError "No free callback slots left in sandbox")

/-- `registerSandboxCallbackWithState` up to the write of the receiver. -/
def registerSandboxCallbackWithState (s : SlotState T) (t : T) (cb : Callback) (slotNumber : ℕ) :
    Except SlotStop (SlotState T) :=
  if slotNumber = callbackSlotsAvailable - 1 then
    .error .abort
  else if slotNumber ≥ callbackSlotsAvailable then
    .error (.sandboxError "Register sandbox failed")
  else
    .ok ((s.setCallbackSlot slotNumber cb.callbackReceiver).goto t (.settingState cb slotNumber))

/-- The write of the state, after which `sandbox_callback` returns the helper. -/
def registerCallbackState (s : SlotState T) (t : T) (cb : Callback) (slotNumber : ℕ) : SlotState T :=
  let s := (s.setCallbackSlotState slotNumber cb.callbackState).goto t .idle
  { s with live := ⟨slotNumber, cb⟩ :: s.live }

/-- The destructor up to the first write of `unregisterSandboxCallback`. -/
def unregisterSandboxCallback (s : SlotState T) (t : T) (helper : CallbackHelper) :
    Except SlotStop (SlotState T) :=
  if helper.callbackSlotNum ≥ callbackSlotsAvailable then
    .error (.sandboxError "Unregister sandbox failed")
  else
    let s := (s.setCallbackSlot helper.callbackSlotNum 0).goto t
      (.clearingState helper.callbackSlotNum)
    .ok { s with live := s.live.erase helper }

/-- The test of `NaClSysCallback`. -/
def naclSysCallbackTest (s : SlotState T) (t : T) (callbackSlotNumber : ℕ) :
    Except SlotStop (SlotState T) :=
  if callbackSlotNumber < callbackSlotsAvailable ∧
      s.slots.callbackSlot callbackSlotNumber ≠ 0 then
    .ok (s.goto t (.readingFunc callbackSlotNumber))
  else
    .error .fatal

/-- One step of one thread. -/
def slotStep (s : SlotState T) : SlotAction T → Except SlotStop (SlotState T)
  | .sandboxCallback t cb =>
    if s.thread t = .idle then .ok (s.goto t (.searching cb 0)) else .error .notEnabled
  | .deleteHelper t helper =>
    if s.thread t = .idle ∧ helper ∈ s.live then unregisterSandboxCallback s t helper
    else .error .notEnabled
  | .naclSysCallback t callbackSlotNumber =>
    if s.thread t = .idle then naclSysCallbackTest s t callbackSlotNumber
    else .error .notEnabled
  | .advance t =>
    match s.thread t with
    | .idle => .error .notEnabled
    | .searching cb i => getFreeSandboxCallbackSlot s t cb i
    | .registering cb slot => registerSandboxCallbackWithState s t cb slot
    | .settingState cb slot => .ok (registerCallbackState s t cb slot)
    | .clearingState slot => .ok ((s.setCallbackSlotState slot 0).goto t .idle)
    | .readingFunc slot => .ok (s.goto t (.readingState slot (s.slots.callbackSlot slot)))
    | .readingState _ _ => .ok (s.goto t .idle)

/-- A fresh sandbox: the slots for `sandbox_callback` are free; the last one may hold a float
callback. -/
structure SlotState.Fresh (s : SlotState T) : Prop where
  callbackSlot : ∀ i < lastCallbackSlot, s.slots.callbackSlot i = 0
  thread : ∀ t, s.thread t = .idle
  live : s.live = []

/-! ## What the slots promise -/

/-- Every slot that `sandbox_callback` may use is taken. -/
def SlotState.AllTaken (s : SlotState T) : Prop :=
  ∀ i < lastCallbackSlot, s.slots.callbackSlot i ≠ 0

/-- Each helper owns a slot of its own, which holds its receiver and its state, and a call made through
a slot gets the receiver and the state of the helper that owns it. -/
structure SlotState.Owned (s : SlotState T) : Prop where
  apart : s.live.Pairwise fun h h' => h.callbackSlotNum ≠ h'.callbackSlotNum
  holds : ∀ helper ∈ s.live,
    s.slots.callbackSlot helper.callbackSlotNum = helper.callback.callbackReceiver ∧
    s.slots.callbackSlotState helper.callbackSlotNum = helper.callback.callbackState
  called : ∀ t slot func, s.thread t = .readingState slot func → slot ≠ lastCallbackSlot →
    ∃ helper ∈ s.live, helper.callbackSlotNum = slot ∧
      func = helper.callback.callbackReceiver ∧
      s.slots.callbackSlotState slot = helper.callback.callbackState

/-- The slots other than `slot` are as they were. -/
def SlotState.SameExcept (s s' : SlotState T) (slot : ℕ) : Prop :=
  ∀ i ≠ slot, s'.slots.callbackSlot i = s.slots.callbackSlot i ∧
    s'.slots.callbackSlotState i = s.slots.callbackSlotState i

/-- A step does what the operation it belongs to promises: a search that ends reports an error
exactly when every slot is taken, no registration takes the last slot or aborts, and a
destructor frees the slot of its helper and no other. -/
def SlotStepCorrect (s : SlotState T) : SlotAction T → Prop
  | .deleteHelper t helper => ∀ s', slotStep s (.deleteHelper t helper) = .ok s' →
      s'.slots.callbackSlot helper.callbackSlotNum = 0 ∧ s.SameExcept s' helper.callbackSlotNum
  | .advance t =>
    match s.thread t with
    | .searching _ i =>
      callbackSlotsAvailable ≤ i ∨ s.slots.callbackSlot i = 0 →
      (slotStep s (.advance t) =
          .error (.sandboxError "No free callback slots left in sandbox") ↔ s.AllTaken)
    | .registering cb slot => slot ≠ lastCallbackSlot ∧
        slotStep s (.advance t) =
          .ok ((s.setCallbackSlot slot cb.callbackReceiver).goto t (.settingState cb slot))
    | .clearingState slot => ∀ s', slotStep s (.advance t) = .ok s' → s.SameExcept s' slot
    | _ => True
  | _ => True

/-- The step meets no race: a search does not find a slot that another creation has found and not yet
written, nor the last slot; a destructor does not clear a slot that a search has passed or a
call is being made through, nor the state of a helper made since; and no call starts on a slot
between the two writes of its registration. -/
def SlotStepSafe (s : SlotState T) : SlotAction T → Prop
  | .sandboxCallback _ _ => True
  | .deleteHelper _ helper => ∀ t,
      (∀ cb i, s.thread t = .searching cb i → i ≤ helper.callbackSlotNum) ∧
      s.thread t ≠ .readingFunc helper.callbackSlotNum ∧
      ∀ func, s.thread t ≠ .readingState helper.callbackSlotNum func
  | .naclSysCallback _ callbackSlotNumber => ∀ t cb,
      s.thread t ≠ .settingState cb callbackSlotNumber
  | .advance t =>
    match s.thread t with
    | .searching _ i => s.slots.callbackSlot i = 0 →
        i ≠ lastCallbackSlot ∧ ∀ t' cb, s.thread t' ≠ .registering cb i
    | .clearingState slot => ∀ helper ∈ s.live, helper.callbackSlotNum ≠ slot
    | _ => True

/-! ## The invariant -/

/-- The slot a creation has found. -/
def SlotPhase.found : SlotPhase → Option ℕ
  | .registering _ slot => some slot
  | .settingState _ slot => some slot
  | _ => none

omit [DecidableEq T] in
/-- What a thread in `phase` relies on. -/
def SlotState.PhaseInv (s : SlotState T) : SlotPhase → Prop
  | .searching _ i => ∀ j < i, j < lastCallbackSlot → s.slots.callbackSlot j ≠ 0
  | .registering _ slot => slot < lastCallbackSlot ∧ s.slots.callbackSlot slot = 0
  | .settingState cb slot => slot < lastCallbackSlot ∧
      s.slots.callbackSlot slot = cb.callbackReceiver ∧
      ∀ helper ∈ s.live, helper.callbackSlotNum ≠ slot
  | .readingFunc slot => slot ≠ lastCallbackSlot →
      ∃ helper ∈ s.live, helper.callbackSlotNum = slot
  | .readingState slot func => slot ≠ lastCallbackSlot →
      ∃ helper ∈ s.live, helper.callbackSlotNum = slot ∧
        func = helper.callback.callbackReceiver
  | _ => True

/-- What holds between the steps of a run that meets no race. -/
structure SlotInv (s : SlotState T) : Prop where
  apart : s.live.Pairwise fun h h' => h.callbackSlotNum ≠ h'.callbackSlotNum
  holds : ∀ helper ∈ s.live, helper.callbackSlotNum < lastCallbackSlot ∧
    s.slots.callbackSlot helper.callbackSlotNum = helper.callback.callbackReceiver ∧
    s.slots.callbackSlotState helper.callbackSlotNum = helper.callback.callbackState
  taken : ∀ i < lastCallbackSlot, s.slots.callbackSlot i ≠ 0 →
    (∃ helper ∈ s.live, helper.callbackSlotNum = i) ∨ ∃ t cb, s.thread t = .settingState cb i
  phase : ∀ t, s.PhaseInv (s.thread t)
  foundOnce : ∀ t t' slot, (s.thread t).found = some slot → (s.thread t').found = some slot → t = t'

variable {s s' : SlotState T} {t : T}

omit [DecidableEq T] in
theorem SlotState.Fresh.inv (h : s.Fresh) : SlotInv s := by
  have hidle := h.thread
  constructor <;> simp_all [h.live, h.callbackSlot, SlotPhase.found, SlotState.PhaseInv]

omit [DecidableEq T] in
theorem SlotInv.owned (h : SlotInv s) : s.Owned := by
  refine ⟨h.apart, fun helper hl => (h.holds helper hl).2, fun t slot func ht hslot => ?_⟩
  have hp := h.phase t
  rw [ht] at hp
  obtain ⟨helper, hl, rfl, hfunc⟩ := hp hslot
  exact ⟨helper, hl, rfl, hfunc, (h.holds helper hl).2.2⟩

theorem SlotInv.goto (h : SlotInv s) {phase : SlotPhase}
    (ht : ∀ cb slot, s.thread t ≠ .settingState cb slot) (hp : s.PhaseInv phase)
    (hf : ∀ slot, phase.found = some slot → ∀ t', (s.thread t').found = some slot → t' = t) :
    SlotInv (s.goto t phase) := by
  refine ⟨h.apart, h.holds, fun i hi hne => ?_, fun t' => ?_, fun t₁ t₂ slot h₁ h₂ => ?_⟩
  · refine (h.taken i hi hne).imp_right fun ⟨t', cb, ht'⟩ => ⟨t', cb, ?_⟩
    rw [SlotState.goto_thread, update_of_ne _ _ _, ht']
    rintro rfl
    exact ht cb i ht'
  · by_cases htt : t' = t
    · subst htt
      rw [SlotState.goto_thread, update_self]
      exact hp
    · rw [SlotState.goto_thread, update_of_ne htt]
      exact h.phase t'
  · rw [SlotState.goto_thread] at h₁ h₂
    grind [update_apply, h.foundOnce t₁ t₂ slot]

omit [DecidableEq T] in
theorem SlotState.PhaseInv.transfer {phase : SlotPhase} {slot : ℕ} (h : s.PhaseInv phase)
    (hfound : phase.found ≠ some slot)
    (hsame : ∀ i ≠ slot, s'.slots.callbackSlot i = s.slots.callbackSlot i)
    (hsearch : (∀ cb i, phase = .searching cb i → i ≤ slot) ∨ s'.slots.callbackSlot slot ≠ 0)
    (hlive : ∀ helper ∈ s.live, helper ∈ s'.live ∨ helper.callbackSlotNum = slot ∧
      phase ≠ .readingFunc slot ∧ ∀ func, phase ≠ .readingState slot func)
    (hnew : ∀ helper ∈ s'.live, helper ∈ s.live ∨ helper.callbackSlotNum = slot) :
    s'.PhaseInv phase := by
  cases phase with
  | idle => trivial
  | clearingState slot' => trivial
  | searching cb i =>
    intro j hj hlast
    by_cases hjs : j = slot
    · subst hjs
      exact hsearch.resolve_left fun hle => Nat.not_lt.2 (hle cb i rfl) hj
    · rw [hsame j hjs]
      exact h j hj hlast
  | registering cb i =>
    have his : i ≠ slot := fun heq => hfound (congrArg some heq)
    exact ⟨h.1, by rw [hsame i his]; exact h.2⟩
  | settingState cb i =>
    have his : i ≠ slot := fun heq => hfound (congrArg some heq)
    refine ⟨h.1, by rw [hsame i his]; exact h.2.1, fun helper hl => ?_⟩
    rcases hnew helper hl with hl | hl
    · exact h.2.2 helper hl
    · exact hl ▸ his.symm
  | readingFunc i =>
    intro hlast
    obtain ⟨helper, hl, hi⟩ := h hlast
    rcases hlive helper hl with hl | ⟨rfl, hread, -⟩
    · exact ⟨helper, hl, hi⟩
    · exact absurd (congrArg _ hi.symm) hread
  | readingState i func =>
    intro hlast
    obtain ⟨helper, hl, hi, hfunc⟩ := h hlast
    rcases hlive helper hl with hl | ⟨rfl, -, hread⟩
    · exact ⟨helper, hl, hi, hfunc⟩
    · exact absurd (by rw [hi]) (hread func)

theorem phaseInv_update {phase : SlotPhase} (hself : s'.PhaseInv phase)
    (hother : ∀ t' ≠ t, s'.PhaseInv (s.thread t')) (t' : T) :
    s'.PhaseInv (update s.thread t phase t') := by
  by_cases htt : t' = t
  · subst htt
    rwa [update_self]
  · rw [update_of_ne htt]
    exact hother t' htt

theorem found_update {phase : SlotPhase}
    (h : ∀ t t' slot, (s.thread t).found = some slot → (s.thread t').found = some slot → t = t')
    (hphase : ∀ slot, phase.found = some slot → (s.thread t).found = some slot) (t₁ t₂ : T)
    (slot : ℕ) (h₁ : (update s.thread t phase t₁).found = some slot)
    (h₂ : (update s.thread t phase t₂).found = some slot) : t₁ = t₂ := by
  have hold : ∀ t', (update s.thread t phase t').found = some slot →
      (s.thread t').found = some slot := by
    intro t' ht'
    by_cases htt : t' = t
    · subst htt
      rw [update_self] at ht'
      exact hphase slot ht'
    · rwa [update_of_ne htt] at ht'
  exact h t₁ t₂ slot (hold t₁ h₁) (hold t₂ h₂)

theorem SlotInv.setReceiver (h : SlotInv s) {cb : Callback} {slot : ℕ}
    (ht : s.thread t = .registering cb slot) :
    SlotInv ((s.setCallbackSlot slot cb.callbackReceiver).goto t (.settingState cb slot)) := by
  have hp := h.phase t
  rw [ht] at hp
  obtain ⟨hlast, hfree⟩ := hp
  have hlive : ∀ helper ∈ s.live, helper.callbackSlotNum ≠ slot := fun helper hl heq =>
    helper.callback.callbackReceiver_ne (by rw [← (h.holds helper hl).2.1, heq, hfree])
  have hsame : ∀ i ≠ slot, (s.setCallbackSlot slot cb.callbackReceiver).slots.callbackSlot i =
      s.slots.callbackSlot i := fun i his => update_of_ne his _ _
  have hslot : (s.setCallbackSlot slot cb.callbackReceiver).slots.callbackSlot slot =
      cb.callbackReceiver := update_self ..
  refine ⟨h.apart, fun helper hl => ?_, fun i hi hset => ?_, phaseInv_update ?_ fun t' htt => ?_,
    found_update h.foundOnce fun i hi => ?_⟩
  · rw [SlotState.goto_slots, hsame _ (hlive helper hl)]
    exact h.holds helper hl
  · by_cases his : i = slot
    · subst his
      exact Or.inr ⟨t, cb, update_self ..⟩
    · rw [SlotState.goto_slots, hsame i his] at hset
      refine (h.taken i hi hset).imp_right fun ⟨t', cb', ht'⟩ => ⟨t', cb', ?_⟩
      refine (update_of_ne ?_ _ _).trans ht'
      rintro rfl
      rw [ht] at ht'
      cases ht'
  · exact ⟨hlast, hslot, hlive⟩
  · refine (h.phase t').transfer (fun hf => htt (h.foundOnce t' t slot hf (by rw [ht]; rfl))) hsame
      (Or.inr ?_) (fun helper hl => Or.inl hl) (fun helper hl => Or.inl hl)
    rw [SlotState.goto_slots, hslot]
    exact cb.callbackReceiver_ne
  · rwa [SlotState.setCallbackSlot_thread, ht]

theorem SlotInv.setState (h : SlotInv s) {cb : Callback} {slot : ℕ}
    (ht : s.thread t = .settingState cb slot) : SlotInv (registerCallbackState s t cb slot) := by
  have hp := h.phase t
  rw [ht] at hp
  obtain ⟨hlast, hrecv, hlive⟩ := hp
  refine ⟨?_, fun helper hl => ?_, fun i hi hset => ?_, phaseInv_update trivial fun t' htt => ?_,
    found_update h.foundOnce nofun⟩
  · exact List.Pairwise.cons (fun helper hl => (hlive helper hl).symm) h.apart
  · show _ ∧ s.slots.callbackSlot _ = _ ∧ update s.slots.callbackSlotState slot _ _ = _
    rcases List.mem_cons.1 hl with rfl | hl
    · exact ⟨hlast, hrecv, update_self ..⟩
    · rw [update_of_ne (hlive helper hl)]
      exact h.holds helper hl
  · by_cases his : i = slot
    · exact Or.inl ⟨⟨slot, cb⟩, List.mem_cons_self, his.symm⟩
    · refine (h.taken i hi hset).imp (fun ⟨helper, hl, hi⟩ => ?_) (fun ⟨t', cb', ht'⟩ => ?_)
      · exact ⟨helper, List.mem_cons_of_mem _ hl, hi⟩
      · refine ⟨t', cb', (update_of_ne ?_ _ _).trans ht'⟩
        rintro rfl
        rw [ht] at ht'
        cases ht'
        exact his rfl
  · refine (h.phase t').transfer (fun hf => htt (h.foundOnce t' t slot hf (by rw [ht]; rfl)))
      (fun i _ => rfl) (Or.inr ?_) (fun helper hl => Or.inl (List.mem_cons_of_mem _ hl))
      (fun helper hl => ?_)
    · exact hrecv ▸ cb.callbackReceiver_ne
    · rcases List.mem_cons.1 hl with rfl | hl
      · exact Or.inr rfl
      · exact Or.inl hl

omit [DecidableEq T] in
theorem SlotInv.not_found (h : SlotInv s) {helper : CallbackHelper} (hl : helper ∈ s.live) (t : T) :
    (s.thread t).found ≠ some helper.callbackSlotNum := by
  have hp := h.phase t
  obtain ⟨-, hslot, -⟩ := h.holds helper hl
  intro hf
  cases hph : s.thread t <;> rw [hph] at hp hf <;> cases hf
  case registering cb => exact helper.callback.callbackReceiver_ne (hslot.symm.trans hp.2)
  case settingState cb => exact hp.2.2 helper hl rfl

omit [DecidableEq T] in
theorem SlotInv.mem_erase_iff (h : SlotInv s) {helper helper' : CallbackHelper} :
    helper' ∈ s.live.erase helper ↔ helper' ≠ helper ∧ helper' ∈ s.live :=
  List.Nodup.mem_erase_iff (h.apart.imp fun hne heq => hne (congrArg _ heq))

omit [DecidableEq T] in
theorem SlotInv.callbackSlotNum_inj (h : SlotInv s) {helper helper' : CallbackHelper}
    (hl : helper ∈ s.live) (hl' : helper' ∈ s.live)
    (heq : helper'.callbackSlotNum = helper.callbackSlotNum) : helper' = helper := by
  have : Std.Symm fun h h' : CallbackHelper => h.callbackSlotNum ≠ h'.callbackSlotNum :=
    ⟨fun _ _ hne => hne.symm⟩
  by_contra hne
  exact h.apart.forall hl' hl hne heq

theorem SlotInv.unregister (h : SlotInv s) {helper : CallbackHelper} (hl : helper ∈ s.live)
    (ht : s.thread t = .idle) (hsafe : SlotStepSafe s (.deleteHelper t helper))
    (hs : unregisterSandboxCallback s t helper = .ok s') : SlotInv s' := by
  unfold unregisterSandboxCallback at hs
  split_ifs at hs
  cases hs
  have hsame : ∀ i ≠ helper.callbackSlotNum,
      update s.slots.callbackSlot helper.callbackSlotNum 0 i = s.slots.callbackSlot i :=
    fun i hi => update_of_ne hi _ _
  refine ⟨h.apart.sublist List.erase_sublist, fun helper' hl' => ?_, fun i hi hset => ?_,
    phaseInv_update trivial fun t' htt => ?_, found_update h.foundOnce nofun⟩
  · obtain ⟨hne, hl'⟩ := h.mem_erase_iff.1 hl'
    show _ ∧ update s.slots.callbackSlot _ 0 _ = _ ∧ _
    rw [hsame _ fun heq => hne (h.callbackSlotNum_inj hl hl' heq)]
    exact h.holds helper' hl'
  · replace hset : update s.slots.callbackSlot helper.callbackSlotNum 0 i ≠ 0 := hset
    have his : i ≠ helper.callbackSlotNum := by
      rintro rfl
      exact hset (update_self ..)
    rw [hsame i his] at hset
    refine (h.taken i hi hset).imp (fun ⟨helper', hl', hi'⟩ => ?_) (fun ⟨t', cb, ht'⟩ => ?_)
    · refine ⟨helper', h.mem_erase_iff.2 ⟨?_, hl'⟩, hi'⟩
      rintro rfl
      exact his hi'.symm
    · refine ⟨t', cb, (update_of_ne ?_ _ _).trans ht'⟩
      rintro rfl
      rw [ht] at ht'
      cases ht'
  · obtain ⟨hsearch, hfunc, hstate⟩ := hsafe t'
    refine (h.phase t').transfer (h.not_found hl t') hsame (Or.inl hsearch)
      (fun helper' hl' => ?_) (fun helper' hl' => Or.inl (h.mem_erase_iff.1 hl').2)
    by_cases heq : helper' = helper
    · exact Or.inr ⟨congrArg _ heq, hfunc, hstate⟩
    · exact Or.inl (h.mem_erase_iff.2 ⟨heq, hl'⟩)

theorem SlotInv.clearState (h : SlotInv s) {slot : ℕ} (ht : s.thread t = .clearingState slot)
    (hsafe : ∀ helper ∈ s.live, helper.callbackSlotNum ≠ slot) :
    SlotInv ((s.setCallbackSlotState slot 0).goto t .idle) := by
  have hs : SlotInv (s.setCallbackSlotState slot 0) := by
    refine ⟨h.apart, fun helper hl => ?_, h.taken, fun t' => ?_, h.foundOnce⟩
    · show _ ∧ _ ∧ update s.slots.callbackSlotState slot 0 _ = _
      rw [update_of_ne (hsafe helper hl)]
      exact h.holds helper hl
    · have hp := h.phase t'
      show SlotState.PhaseInv _ (s.thread t')
      cases hph : s.thread t' <;> rw [hph] at hp <;> exact hp
  refine hs.goto (fun cb i => ?_) trivial nofun
  show s.thread t ≠ _
  rw [ht]
  exact nofun

omit [DecidableEq T] in
theorem SlotInv.registering_of_found (h : SlotInv s) {slot : ℕ}
    (hfree : s.slots.callbackSlot slot = 0) (hf : (s.thread t).found = some slot) :
    ∃ cb, s.thread t = .registering cb slot := by
  have hp := h.phase t
  cases hph : s.thread t <;> rw [hph] at hp hf <;> cases hf
  case registering cb => exact ⟨cb, rfl⟩
  case settingState cb => exact absurd (hp.2.1.symm.trans hfree) cb.callbackReceiver_ne

theorem SlotInv.search (h : SlotInv s) {cb : Callback} {i : ℕ} (ht : s.thread t = .searching cb i)
    (hsafe : s.slots.callbackSlot i = 0 →
      i ≠ lastCallbackSlot ∧ ∀ t' cb, s.thread t' ≠ .registering cb i)
    (hs : getFreeSandboxCallbackSlot s t cb i = .ok s') : SlotInv s' := by
  have hp := h.phase t
  rw [ht] at hp
  unfold getFreeSandboxCallbackSlot at hs
  split_ifs at hs with hi hfree
  · cases hs
    obtain ⟨hlast, hreg⟩ := hsafe hfree
    refine h.goto (fun cb i => by rw [ht]; exact nofun)
      ⟨Nat.lt_of_le_of_ne (Nat.le_of_lt_succ hi) hlast, hfree⟩ fun slot hslot t' hf => ?_
    cases hslot
    obtain ⟨cb', hph⟩ := h.registering_of_found hfree hf
    exact absurd hph (hreg t' cb')
  · cases hs
    refine h.goto (fun cb i => by rw [ht]; exact nofun) (fun j hj hlast => ?_) nofun
    rcases Nat.lt_succ_iff_lt_or_eq.1 hj with hj | rfl
    · exact hp j hj hlast
    · exact hfree

theorem registerSandboxCallbackWithState_of_lt {cb : Callback} {slot : ℕ}
    (h : slot < lastCallbackSlot) :
    registerSandboxCallbackWithState s t cb slot =
      .ok ((s.setCallbackSlot slot cb.callbackReceiver).goto t (.settingState cb slot)) := by
  have hlt : slot < 7 := h
  rw [registerSandboxCallbackWithState, if_neg, if_neg]
  · exact Nat.not_le.2 (Nat.lt_succ_of_lt hlt)
  · exact Nat.ne_of_lt hlt

theorem SlotInv.step (h : SlotInv s) {a : SlotAction T} (hsafe : SlotStepSafe s a)
    (hs : slotStep s a = .ok s') : SlotInv s' := by
  cases a with
  | sandboxCallback t cb =>
    rw [slotStep] at hs
    split_ifs at hs with ht
    cases hs
    exact h.goto (fun cb i => by rw [ht]; exact nofun) (fun j hj => absurd hj (Nat.not_lt_zero j))
      nofun
  | deleteHelper t helper =>
    rw [slotStep] at hs
    split_ifs at hs with ht
    exact h.unregister ht.2 ht.1 hsafe hs
  | naclSysCallback t n =>
    rw [slotStep] at hs
    split_ifs at hs with ht
    unfold naclSysCallbackTest at hs
    split_ifs at hs with hn
    cases hs
    refine h.goto (fun cb i => by rw [ht]; exact nofun) (fun hlast => ?_) nofun
    have hlt : n < lastCallbackSlot := Nat.lt_of_le_of_ne (Nat.le_of_lt_succ hn.1) hlast
    exact (h.taken n hlt hn.2).resolve_right fun ⟨t', cb, ht'⟩ => hsafe t' cb ht'
  | advance t =>
    have hp := h.phase t
    rw [slotStep] at hs
    rw [SlotStepSafe] at hsafe
    cases ht : s.thread t with
    | idle => rw [ht] at hs; cases hs
    | searching cb i =>
      rw [ht] at hs hsafe hp
      exact h.search ht hsafe hs
    | registering cb slot =>
      rw [ht] at hs hp
      replace hs : registerSandboxCallbackWithState s t cb slot = .ok s' := hs
      rw [registerSandboxCallbackWithState_of_lt hp.1] at hs
      cases hs
      exact h.setReceiver ht
    | settingState cb slot =>
      rw [ht] at hs
      cases hs
      exact h.setState ht
    | clearingState slot =>
      rw [ht] at hs hsafe
      cases hs
      exact h.clearState ht hsafe
    | readingFunc slot =>
      rw [ht] at hs hp
      cases hs
      refine h.goto (fun cb i => by rw [ht]; exact nofun) (fun hlast => ?_) nofun
      obtain ⟨helper, hl, rfl⟩ := hp hlast
      exact ⟨helper, hl, rfl, (h.holds helper hl).2.1⟩
    | readingState slot func =>
      rw [ht] at hs
      cases hs
      exact h.goto (fun cb i => by rw [ht]; exact nofun) trivial nofun

/-! ## Runs -/

theorem SlotInv.getFreeSandboxCallbackSlot_error_iff (h : SlotInv s) {cb : Callback} {i : ℕ}
    (ht : s.thread t = .searching cb i)
    (hsafe : s.slots.callbackSlot i = 0 → i ≠ lastCallbackSlot)
    (hend : callbackSlotsAvailable ≤ i ∨ s.slots.callbackSlot i = 0) :
    getFreeSandboxCallbackSlot s t cb i =
      .error (.sandboxError "No free callback slots left in sandbox") ↔ s.AllTaken := by
  have hp := h.phase t
  rw [ht] at hp
  unfold getFreeSandboxCallbackSlot
  split_ifs with hi hfree
  · refine iff_of_false nofun fun hall => ?_
    exact hall i (Nat.lt_of_le_of_ne (Nat.le_of_lt_succ hi) (hsafe hfree)) hfree
  · exact absurd (hend.resolve_left (Nat.not_le.2 hi)) hfree
  · refine iff_of_true rfl fun j hj => hp j ?_ hj
    exact Nat.lt_of_lt_of_le (Nat.lt_succ_of_lt hj) (Nat.not_lt.1 hi)

theorem SlotInv.step_correct (h : SlotInv s) {a : SlotAction T} (hsafe : SlotStepSafe s a) :
    SlotStepCorrect s a := by
  cases a with
  | sandboxCallback t cb => trivial
  | naclSysCallback t n => trivial
  | deleteHelper t helper =>
    intro s' hs
    rw [slotStep] at hs
    split_ifs at hs
    unfold unregisterSandboxCallback at hs
    split_ifs at hs
    cases hs
    exact ⟨update_self .., fun i hi => ⟨update_of_ne hi _ _, rfl⟩⟩
  | advance t =>
    have hp := h.phase t
    rw [SlotStepCorrect, slotStep]
    rw [SlotStepSafe] at hsafe
    cases ht : s.thread t with
    | searching cb i =>
      rw [ht] at hsafe
      exact h.getFreeSandboxCallbackSlot_error_iff ht fun hfree => (hsafe hfree).1
    | registering cb slot =>
      rw [ht] at hp
      exact ⟨Nat.ne_of_lt hp.1, registerSandboxCallbackWithState_of_lt hp.1⟩
    | clearingState slot =>
      rintro s' ⟨⟩ i hi
      exact ⟨rfl, update_of_ne hi _ _⟩
    | _ => trivial

/-- In every run of a fresh sandbox whose steps meet no race, in any interleaving of any number of
threads, the helpers own their slots in every state reached, and every further step that meets no
race does what its operation promises. -/
theorem callbackSlots_owned (s₀ s : SlotState T) (l : List (SlotAction T)) (hfresh : s₀.Fresh)
    (hsafe : Runs.Guarded slotStep SlotStepSafe s₀ l) (hrun : l.foldlM slotStep s₀ = .ok s) :
    s.Owned ∧ ∀ a, SlotStepSafe s a → SlotStepCorrect s a :=
  have hinv := hsafe.invariant (fun _ _ _ h hok hs => h.step hok hs) hfresh.inv hrun
  ⟨hinv.owned, fun _ ha => hinv.step_correct ha⟩

theorem search_aborts {cb : Callback} (hall : s.AllTaken)
    (hlast : s.slots.callbackSlot lastCallbackSlot = 0) {n i : ℕ} (hi : i + n = lastCallbackSlot)
    (ht : s.thread t = .searching cb i) :
    (List.replicate (n + 2) (SlotAction.advance t)).foldlM slotStep s = .error .abort := by
  have hlt : i < callbackSlotsAvailable :=
    Nat.lt_succ_of_le (Nat.le.intro hi)
  induction n generalizing s i with
  | zero =>
    obtain rfl : i = lastCallbackSlot := hi
    have hfind : slotStep s (.advance t) = .ok (s.goto t (.registering cb lastCallbackSlot)) := by
      rw [slotStep, ht]
      show getFreeSandboxCallbackSlot s t cb _ = _
      rw [getFreeSandboxCallbackSlot, if_pos hlt, if_pos hlast]
    have habort : slotStep (s.goto t (.registering cb lastCallbackSlot)) (.advance t) =
        .error .abort := by
      rw [slotStep, SlotState.goto_thread, update_self]
      rfl
    rw [List.replicate_succ, List.foldlM_cons, hfind]
    show (slotStep _ (.advance t) >>= _) = _
    rw [habort]
    rfl
  | succ n ih =>
    have hnext : slotStep s (.advance t) = .ok (s.goto t (.searching cb (i + 1))) := by
      rw [slotStep, ht]
      show getFreeSandboxCallbackSlot s t cb _ = _
      rw [getFreeSandboxCallbackSlot, if_pos hlt, if_neg (hall i (by omega))]
    rw [List.replicate_succ, List.foldlM_cons, hnext]
    exact ih (s := s.goto t (.searching cb (i + 1))) hall hlast (by omega)
      (update_self ..) (by simp [lastCallbackSlot, callbackSlotsAvailable] at *; omega)

/-- When every slot but the last one is taken, a creation that no other thread disturbs ends in
`abort`, not in the error that `sandbox_callback` reports. -/
theorem sandboxCallback_aborts (hall : s.AllTaken)
    (hlast : s.slots.callbackSlot lastCallbackSlot = 0) (ht : s.thread t = .idle) (cb : Callback) :
    (.sandboxCallback t cb :: List.replicate (lastCallbackSlot + 2) (SlotAction.advance t)).foldlM
      slotStep s = .error .abort := by
  rw [List.foldlM_cons, slotStep, if_pos ht]
  exact search_aborts (s := s.goto t (.searching cb 0)) hall hlast (Nat.zero_add _)
    (update_self ..)

def freshSlots : SlotState Bool := ⟨⟨fun _ => 0, fun _ => 0⟩, fun _ => .idle, []⟩

def callbackA : Callback := ⟨0x401000, 0x402000, by decide⟩

def callbackB : Callback := ⟨0x403000, 0x404000, by decide⟩

theorem sandboxCallback_aborts_full :
    (.sandboxCallback false callbackA ::
      List.replicate (lastCallbackSlot + 2) (SlotAction.advance false)).foldlM slotStep
        ⟨⟨fun i => if i < lastCallbackSlot then 1 else 0, fun _ => 0⟩, fun _ => .idle, []⟩ =
      .error .abort :=
  sandboxCallback_aborts (fun i hi => by simp [hi]) rfl rfl callbackA

/-- One thread creates a callback and the other starts a call through its slot. -/
theorem callbackSlots_owned_call :
    ∃ s, [.sandboxCallback false callbackA, .advance false, .advance false, .advance false,
        .naclSysCallback true 0].foldlM slotStep freshSlots = .ok s ∧
      s.live = [⟨0, callbackA⟩] ∧ s.Owned := by
  refine ⟨_, rfl, rfl, (callbackSlots_owned freshSlots _
    [.sandboxCallback false callbackA, .advance false, .advance false, .advance false,
      .naclSysCallback true 0] ⟨fun _ _ => rfl, fun _ => rfl, rfl⟩ ?_ rfl).1⟩
  refine .cons _ trivial rfl (.cons _ ?_ rfl (.cons _ trivial rfl (.cons _ trivial rfl
    (.cons _ ?_ rfl trivial))))
  · exact fun _ => ⟨by decide, by rintro (_ | _) cb <;> exact nofun⟩
  · rintro (_ | _) cb <;> exact nofun

/-- Two threads create a callback each and find the same slot. -/
theorem not_callbackSlots_owned :
    ¬ ∀ (s₀ s : SlotState Bool) (l : List (SlotAction Bool)), s₀.Fresh →
      l.foldlM slotStep s₀ = .ok s → s.Owned ∧ ∀ a, SlotStepCorrect s a := by
  intro h
  obtain ⟨howned, -⟩ := h freshSlots _
    [.sandboxCallback false callbackA, .sandboxCallback true callbackB, .advance false,
      .advance true, .advance false, .advance false, .advance true, .advance true]
    ⟨fun _ _ => rfl, fun _ => rfl, rfl⟩ rfl
  exact List.rel_of_pairwise_cons howned.apart List.mem_cons_self rfl

end SandboxingNaCl
