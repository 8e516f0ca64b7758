import SandboxingNaCl.Lib.Runs
import Mathlib.Data.Fintype.Basic
import Mathlib.Tactic.Linarith

/-!
# Quota descriptors

`nacl_desc_quota.c`.  The wrapped descriptor has one file position, which each of its calls reads and
moves at once; the quota interface answers a request as it likes.  A step is one call of either, with
the mutex taken before or given back after it.
-/

namespace SandboxingNaCl

open Runs

/-- What the quota interface has granted: an answer to a request for `requested` bytes at `offset`. -/
structure QuotaGrant where
  offset : ℤ
  requested : ℕ
  allowed : ℤ
  pos : 0 < allowed
deriving DecidableEq

def QuotaGrant.length (grant : QuotaGrant) : ℕ := min grant.allowed.toNat grant.requested

def capWriteLength (len : ℕ) : ℕ := min len (2 ^ 63 - 1)

/-- The descriptor without the threads; `quotaInterface` says that there is one. -/
structure QuotaFile where
  quotaInterface : Bool
  position : ℤ
  size : ℤ

/-- The answer of `WriteRequest`; `none` stands for `EDQUOT`.  Without an interface nothing is
allowed. -/
def QuotaFile.writeRequest (file : QuotaFile) (offset : ℤ) (len : ℕ) (answer : ℤ) :
    Option QuotaGrant :=
  let allowed := if file.quotaInterface then answer else 0
  if h : 0 < allowed then some ⟨offset, capWriteLength len, allowed, h⟩ else none

/-- `SEEK_SET`, `SEEK_CUR` and `SEEK_END`. -/
inductive Whence
  | set | cur | «end»
deriving DecidableEq

/-- `Seek` of the wrapped descriptor. -/
def QuotaFile.seek (file : QuotaFile) (offset : ℤ) (whence : Whence) : QuotaFile × ℤ :=
  let target := offset + match whence with
    | .set => 0
    | .cur => file.position
    | .end => file.size
  if target < 0 then (file, -22) else ({ file with position := target }, target)

theorem QuotaFile.seek_cur (file : QuotaFile) :
    file.seek 0 .cur = (file, if file.position < 0 then -22 else file.position) := by
  unfold seek
  simp only [zero_add]
  split_ifs
  · rfl
  · rfl

theorem QuotaFile.quotaInterface_seek (file : QuotaFile) (offset : ℤ) (whence : Whence) :
    (file.seek offset whence).1.quotaInterface = file.quotaInterface := by
  unfold seek
  dsimp only
  split_ifs
  · rfl
  · rfl

/-- What a thread does next. -/
inductive QuotaPoint
  | idle
  /-- `NaClDescQuotaWrite`, before the lock. -/
  | writeLock (len : ℕ)
  /-- Before `Seek` with `SEEK_CUR`. -/
  | writeSeek (len : ℕ)
  /-- Before `WriteRequest`. -/
  | writeRequest (len : ℕ) (fileOffset : ℤ)
  /-- Before `Write`; without a grant nothing is written. -/
  | write (len : ℕ) (grant : Option QuotaGrant)
  /-- `NaClDescQuotaPWrite`, before `WriteRequest`. -/
  | pwriteRequest (len : ℕ) (offset : ℤ)
  | pwrite (len : ℕ) (offset : ℤ) (grant : Option QuotaGrant)
  /-- `NaClDescQuotaSeek`, before the lock. -/
  | seekLock (offset : ℤ) (whence : Whence)
  | seek (offset : ℤ) (whence : Whence)
  | unlock (result : ℤ)
deriving DecidableEq

namespace QuotaPoint

def locked : QuotaPoint → Bool
  | .writeSeek _ | .writeRequest _ _ | .write _ _ | .seek _ _ | .unlock _ => true
  | _ => false

/-- In `NaClDescQuotaWrite`, between its `Seek` and its `Write`. -/
def seeked : QuotaPoint → Bool
  | .writeRequest _ _ | .write _ (some _) => true
  | _ => false

/-- What a call has read or been granted. -/
def Sound (file : QuotaFile) : QuotaPoint → Prop
  | .writeRequest _ fileOffset => file.position = fileOffset
  | .write len (some grant) =>
    file.position = grant.offset ∧ grant.requested ≤ len ∧ file.quotaInterface = true
  | .pwrite len offset (some grant) =>
    offset = grant.offset ∧ grant.requested ≤ len ∧ file.quotaInterface = true
  | _ => True

theorem Sound.of_file {p : QuotaPoint} {file file' : QuotaFile} (h : p.Sound file)
    (hinterface : file'.quotaInterface = file.quotaInterface)
    (hposition : file'.position = file.position ∨ p.seeked = false) : p.Sound file' := by
  cases p with
  | writeRequest len fileOffset => exact (hposition.resolve_right nofun).trans h
  | write len grant =>
    cases grant with
    | none => trivial
    | some grant =>
      exact ⟨(hposition.resolve_right nofun).trans h.1, h.2.1, hinterface.trans h.2.2⟩
  | pwrite len offset grant =>
    cases grant with
    | none => trivial
    | some grant => exact ⟨h.1, h.2.1, hinterface.trans h.2.2⟩
  | _ => trivial

end QuotaPoint

/-- Bytes that a call with the length and the grant has put into the file. -/
structure QuotaWritten where
  start : ℤ
  count : ℕ
  len : ℕ
  grant : Option QuotaGrant
deriving DecidableEq

/-- The bytes lie in what was granted in the same call, and that is no more than was asked for. -/
def QuotaWritten.Covered (e : QuotaWritten) : Prop :=
  e.count = 0 ∨ ∃ grant, e.grant = some grant ∧ 0 < grant.allowed ∧
    (grant.length : ℤ) ≤ grant.allowed ∧ grant.length ≤ e.len ∧
    ∀ offset, e.start ≤ offset → offset < e.start + e.count →
      grant.offset ≤ offset ∧ offset < grant.offset + grant.length

/-- A quota descriptor and the threads that use it. -/
structure QuotaWorld (θ : Type) where
  file : QuotaFile
  mu : Option θ
  point : θ → QuotaPoint
  written : List QuotaWritten
  returned : Option (θ × ℤ)

/-- What happens next.  Results of the wrapped descriptor are lengths, or errors below 0. -/
inductive QuotaAction (θ : Type)
  | naclDescQuotaRead (t : θ) (len : ℕ) (result : ℤ)
  | naclDescQuotaPRead (t : θ) (len : ℕ) (offset : ℤ) (result : ℤ)
  | naclDescQuotaWrite (t : θ) (len : ℕ)
  | naclDescQuotaPWrite (t : θ) (len : ℕ) (offset : ℤ)
  | naclDescQuotaSeek (t : θ) (offset : ℤ) (whence : Whence)
  /-- The thread takes or gives back the mutex, or seeks. -/
  | next (t : θ)
  /-- A `Seek` fails. -/
  | seekError (t : θ) (error : ℤ)
  | request (t : θ) (answer : ℤ)
  | write (t : θ) (result : ℤ)

/-- Why a step is not possible: the thread is elsewhere or has to wait. -/
inductive QuotaRefusal
  | blocked

namespace QuotaWorld

variable {θ : Type} [DecidableEq θ]

def goto (w : QuotaWorld θ) (t : θ) (point : QuotaPoint) : QuotaWorld θ :=
  { w with point := Function.update w.point t point, returned := none }

def finish (w : QuotaWorld θ) (t : θ) (result : ℤ) : QuotaWorld θ :=
  { w with point := Function.update w.point t .idle, returned := some (t, result) }

/-- The length that is passed to `Write`. -/
def writeLength : Option QuotaGrant → ℕ
  | none => 0
  | some grant => grant.length

/-- `Write` or `PWrite` puts bytes into the file. -/
def putBytes (w : QuotaWorld θ) (start : ℤ) (count len : ℕ) (grant : Option QuotaGrant) :
    QuotaWorld θ :=
  { w with
    file.size := if count = 0 then w.file.size else max w.file.size (start + count)
    written := ⟨start, count, len, grant⟩ :: w.written }

/-- The mutex is taken, given back, or the wrapped descriptor seeks. -/
def next (w : QuotaWorld θ) (t : θ) : Except QuotaRefusal (QuotaWorld θ) :=
  match w.point t with
  | .writeLock len =>
    if w.mu = none then
      .ok ({ w with mu := some t }.goto t (if len = 0 then .write 0 none else .writeSeek len))
    else .error .blocked
  | .writeSeek len =>
    let (file, fileOffset) := w.file.seek 0 .cur
    if fileOffset < 0 then .ok ({ w with file }.goto t (.unlock fileOffset))
    else .ok ({ w with file }.goto t (.writeRequest len fileOffset))
  | .seekLock offset whence =>
    if w.mu = none then .ok ({ w with mu := some t }.goto t (.seek offset whence))
    else .error .blocked
  | .seek offset whence =>
    let (file, result) := w.file.seek offset whence
    .ok ({ w with file }.goto t (.unlock result))
  | .unlock result => .ok ({ w with mu := none }.finish t result)
  | _ => .error .blocked

def naclAbiEdquot : ℤ := 122

/-- One step. -/
def step (w : QuotaWorld θ) : QuotaAction θ → Except QuotaRefusal (QuotaWorld θ)
  | .naclDescQuotaRead t len result =>
    if w.point t = .idle ∧ result ≤ len then
      .ok ({ w with file.position := w.file.position + result.toNat }.finish t result)
    else .error .blocked
  | .naclDescQuotaPRead t len _ result =>
    if w.point t = .idle ∧ result ≤ len then .ok (w.finish t result) else .error .blocked
  | .naclDescQuotaWrite t len =>
    if w.point t = .idle then .ok (w.goto t (.writeLock len)) else .error .blocked
  | .naclDescQuotaPWrite t len offset =>
    if w.point t = .idle then
      .ok (w.goto t (if len = 0 then .pwrite 0 offset none else .pwriteRequest len offset))
    else .error .blocked
  | .naclDescQuotaSeek t offset whence =>
    if w.point t = .idle then .ok (w.goto t (.seekLock offset whence)) else .error .blocked
  | .next t => w.next t
  | .seekError t error =>
    match w.point t with
    | .writeSeek _ | .seek _ _ =>
      if error < 0 then .ok (w.goto t (.unlock error)) else .error .blocked
    | _ => .error .blocked
  | .request t answer =>
    match w.point t with
    | .writeRequest len fileOffset =>
      match w.file.writeRequest fileOffset len answer with
      | none => .ok (w.goto t (.unlock (-naclAbiEdquot)))
      | some grant => .ok (w.goto t (.write len (some grant)))
    | .pwriteRequest len offset =>
      match w.file.writeRequest offset len answer with
      | none => .ok (w.finish t (-naclAbiEdquot))
      | some grant => .ok (w.goto t (.pwrite len offset (some grant)))
    | _ => .error .blocked
  | .write t result =>
    match w.point t with
    | .write len grant =>
      if result ≤ writeLength grant then
        .ok ({ w.putBytes w.file.position result.toNat len grant with
          file.position := w.file.position + result.toNat }.goto t (.unlock result))
      else .error .blocked
    | .pwrite len offset grant =>
      if result ≤ writeLength grant then
        .ok ((w.putBytes offset result.toNat len grant).finish t result)
      else .error .blocked
    | _ => .error .blocked

section

variable {w w' : QuotaWorld θ} {t : θ} {p q : QuotaPoint}

/-- A call that moves the position without the mutex keeps out of the middle of a write. -/
def Safe (w : QuotaWorld θ) : QuotaAction θ → Prop
  | .naclDescQuotaRead _ _ result => result ≤ 0 ∨ ∀ u, (w.point u).seeked = false
  | _ => True

instance [Fintype θ] (w : QuotaWorld θ) (a : QuotaAction θ) : Decidable (w.Safe a) := by
  unfold Safe
  cases a <;> infer_instance

/-- What every safe step keeps. -/
structure Inv (w : QuotaWorld θ) : Prop where
  locked : ∀ t, (w.point t).locked = true → w.mu = some t
  points : ∀ t, (w.point t).Sound w.file
  written : ∀ e ∈ w.written, e.Covered ∧ (w.file.quotaInterface = false → e.count = 0)

omit [DecidableEq θ] in
theorem Inv.seeked_eq_false (h : w.Inv) (hlocked : (w.point t).locked = true) {u : θ} (hut : u ≠ t) :
    (w.point u).seeked = false := by
  by_contra hseeked
  have hu : (w.point u).locked = true := by
    cases hp : w.point u with
    | writeRequest len fileOffset => rfl
    | write len grant => rfl
    | _ => rw [hp] at hseeked; simp [QuotaPoint.seeked] at hseeked
  exact hut (Option.some.inj ((h.locked u hu).symm.trans (h.locked t hlocked)))

theorem Inv.of_point (h : w.Inv) (hpoint : w'.point = Function.update w.point t p)
    (hmu : ∀ u, u ≠ t → w.mu = some u → w'.mu = some u) (hlocked : p.locked = true → w'.mu = some t)
    (hinterface : w'.file.quotaInterface = w.file.quotaInterface)
    (hposition : w'.file.position = w.file.position ∨ ∀ u, u ≠ t → (w.point u).seeked = false)
    (hsound : p.Sound w'.file)
    (hwritten : ∀ e ∈ w'.written, e ∈ w.written ∨
      e.Covered ∧ (w.file.quotaInterface = false → e.count = 0)) : w'.Inv := by
  refine ⟨fun u hu => ?_, fun u => ?_, fun e he => ?_⟩
  · rw [hpoint, Function.update_apply] at hu
    split_ifs at hu with hut
    · exact hut ▸ hlocked hu
    · exact hmu u hut (h.locked u hu)
  · rw [hpoint, Function.update_apply]
    split_ifs with hut
    · exact hsound
    · exact (h.points u).of_file hinterface (hposition.imp_right fun hseeked => hseeked u hut)
  · rw [hinterface]
    exact (hwritten e he).elim (h.written e) id

theorem Inv.move (h : w.Inv) (hpoint : w'.point = Function.update w.point t p)
    (hfile : w'.file = w.file) (hmu : w'.mu = w.mu) (hwritten : w'.written = w.written)
    (hlocked : p.locked = true → (w.point t).locked = true) (hsound : p.Sound w.file) : w'.Inv := by
  refine h.of_point hpoint (fun u _ => hmu.trans) (fun hp => ?_) (by rw [hfile])
    (.inl (by rw [hfile])) (by rwa [hfile]) fun e he => .inl (by rwa [hwritten] at he)
  rw [hmu]
  exact h.locked t (hlocked hp)

theorem putBytes_covered {len : ℕ} {grant : Option QuotaGrant} {start result : ℤ}
    {file : QuotaFile} (hresult : result ≤ writeLength grant)
    (hgrant : ∀ g, grant = some g →
      start = g.offset ∧ g.requested ≤ len ∧ file.quotaInterface = true) :
    (⟨start, result.toNat, len, grant⟩ : QuotaWritten).Covered ∧
      (file.quotaInterface = false → result.toNat = 0) := by
  cases grant with
  | none =>
    have hzero : result.toNat = 0 := by
      rw [writeLength] at hresult
      omega
    exact ⟨.inl hzero, fun _ => hzero⟩
  | some grant =>
    obtain ⟨rfl, hrequested, hinterface⟩ := hgrant grant rfl
    have hpos := grant.pos
    have hlength : grant.length = min grant.allowed.toNat grant.requested := rfl
    rw [writeLength] at hresult
    refine ⟨.inr ⟨grant, rfl, hpos, by omega, by dsimp only; omega, fun offset hle hlt => ?_⟩,
      fun hnone => ?_⟩
    · dsimp only at hle hlt
      omega
    · rw [hinterface] at hnone
      cases hnone

theorem writeRequest_eq_some {file : QuotaFile} {offset answer : ℤ} {len : ℕ} {grant : QuotaGrant}
    (h : file.writeRequest offset len answer = some grant) :
    offset = grant.offset ∧ grant.requested ≤ len ∧ file.quotaInterface = true := by
  unfold QuotaFile.writeRequest at h
  dsimp only at h
  split_ifs at h with hinterface hpos
  · cases h
    exact ⟨rfl, min_le_left _ _, hinterface⟩
  · contradiction

theorem Inv.next (h : w.Inv) (hstep : w.next t = .ok w') : w'.Inv := by
  unfold QuotaWorld.next at hstep
  split at hstep
  · next len hq =>
    split at hstep
    · next hfree =>
      cases hstep
      refine h.of_point rfl (fun u _ hu => ?_) (fun _ => rfl) rfl (.inl rfl) ?_ fun _ => .inl
      · rw [hfree] at hu
        cases hu
      · split_ifs
        · trivial
        · trivial
    · cases hstep
  · next len hq =>
    have hlocked : (w.point t).locked = true := by
      rw [hq]
      rfl
    rw [QuotaFile.seek_cur] at hstep
    dsimp only at hstep
    split at hstep
    · cases hstep
      exact h.move rfl rfl rfl rfl (fun _ => hlocked) trivial
    · cases hstep
      exact h.move rfl rfl rfl rfl (fun _ => hlocked) rfl
  · next offset whence hq =>
    split_ifs at hstep with hfree
    cases hstep
    refine h.of_point rfl (fun u _ hu => ?_) (fun _ => rfl) rfl (.inl rfl) trivial fun _ => .inl
    rw [hfree] at hu
    cases hu
  · next offset whence hq =>
    have hlocked : (w.point t).locked = true := by
      rw [hq]
      rfl
    cases hstep
    exact h.of_point rfl (fun _ _ => id) (fun _ => h.locked t hlocked)
      (QuotaFile.quotaInterface_seek _ _ _) (.inr fun u hut => h.seeked_eq_false hlocked hut) trivial
      fun _ => .inl
  · next result hq =>
    cases hstep
    have hmu := h.locked t (by rw [hq]; rfl)
    refine h.of_point rfl (fun u hut hu => ?_) nofun rfl (.inl rfl) trivial fun _ => .inl
    exact absurd (Option.some.inj (hmu.symm.trans hu)).symm hut
  · cases hstep

theorem Inv.request (h : w.Inv) {answer : ℤ} (hstep : w.step (.request t answer) = .ok w') :
    w'.Inv := by
  rw [QuotaWorld.step] at hstep
  split at hstep
  · next len fileOffset hq =>
    have hlocked : (w.point t).locked = true := by
      rw [hq]
      rfl
    split at hstep
    · cases hstep
      exact h.move rfl rfl rfl rfl (fun _ => hlocked) trivial
    · next grant hgrant =>
      cases hstep
      obtain ⟨hoffset, hgranted⟩ := writeRequest_eq_some hgrant
      have hposition := h.points t
      rw [hq] at hposition
      exact h.move rfl rfl rfl rfl (fun _ => hlocked) ⟨hposition.trans hoffset, hgranted⟩
  · next len offset hq =>
    split at hstep
    · cases hstep
      exact h.move rfl rfl rfl rfl nofun trivial
    · next grant hgrant =>
      cases hstep
      exact h.move rfl rfl rfl rfl nofun (writeRequest_eq_some hgrant)
  · cases hstep

theorem Inv.write (h : w.Inv) {result : ℤ} (hstep : w.step (.write t result) = .ok w') :
    w'.Inv := by
  have hpoint := h.points t
  rw [QuotaWorld.step] at hstep
  split at hstep
  · next len grant hq =>
    have hlocked : (w.point t).locked = true := by
      rw [hq]
      rfl
    rw [hq] at hpoint
    split_ifs at hstep with hresult
    cases hstep
    refine h.of_point rfl (fun _ _ => id) (fun _ => h.locked t hlocked) rfl
      (.inr fun u hut => h.seeked_eq_false hlocked hut) trivial fun e he => ?_
    refine (List.mem_cons.1 he).symm.imp_right fun heq => ?_
    rw [heq]
    exact putBytes_covered hresult fun g hg => by
      rw [hg] at hpoint
      exact hpoint
  · next len offset grant hq =>
    rw [hq] at hpoint
    split_ifs at hstep with hresult
    cases hstep
    refine h.of_point rfl (fun _ _ => id) nofun rfl (.inl rfl) trivial fun e he => ?_
    refine (List.mem_cons.1 he).symm.imp_right fun heq => ?_
    rw [heq]
    exact putBytes_covered hresult fun g hg => by
      rw [hg] at hpoint
      exact hpoint
  · cases hstep

theorem Inv.step (h : w.Inv) {a : QuotaAction θ} (hsafe : w.Safe a) (hstep : w.step a = .ok w') :
    w'.Inv := by
  cases a with
  | naclDescQuotaRead t len result =>
    rw [QuotaWorld.step] at hstep
    split_ifs at hstep
    cases hstep
    refine h.of_point rfl (fun _ _ => id) nofun rfl ?_ trivial fun _ => .inl
    rcases hsafe with hnone | hseeked
    · refine .inl ?_
      change w.file.position + result.toNat = w.file.position
      omega
    · exact .inr fun u _ => hseeked u
  | naclDescQuotaPRead t len offset result =>
    rw [QuotaWorld.step] at hstep
    split_ifs at hstep
    cases hstep
    exact h.move rfl rfl rfl rfl nofun trivial
  | naclDescQuotaWrite t len =>
    rw [QuotaWorld.step] at hstep
    split_ifs at hstep
    cases hstep
    exact h.move rfl rfl rfl rfl nofun trivial
  | naclDescQuotaPWrite t len offset =>
    rw [QuotaWorld.step] at hstep
    split at hstep
    · cases hstep
      refine h.move rfl rfl rfl rfl ?_ ?_
      · split_ifs
        · exact nofun
        · exact nofun
      · split_ifs
        · trivial
        · trivial
    · cases hstep
  | naclDescQuotaSeek t offset whence =>
    rw [QuotaWorld.step] at hstep
    split_ifs at hstep
    cases hstep
    exact h.move rfl rfl rfl rfl nofun trivial
  | next t => exact h.next hstep
  | seekError t error =>
    rw [QuotaWorld.step] at hstep
    split at hstep
    · next len hq =>
      split_ifs at hstep
      cases hstep
      exact h.move rfl rfl rfl rfl (fun _ => by rw [hq]; rfl) trivial
    · next offset whence hq =>
      split_ifs at hstep
      cases hstep
      exact h.move rfl rfl rfl rfl (fun _ => by rw [hq]; rfl) trivial
    · cases hstep
  | request t answer => exact h.request hstep
  | write t result => exact h.write hstep

def Initial (w : QuotaWorld θ) : Prop :=
  w.mu = none ∧ (∀ t, w.point t = .idle) ∧ w.written = []

omit [DecidableEq θ] in
theorem Initial.inv (h : w.Initial) : w.Inv := by
  obtain ⟨-, hidle, hwritten⟩ := h
  refine ⟨fun t ht => ?_, fun t => ?_, fun e he => ?_⟩
  · rw [hidle] at ht
    cases ht
  · rw [hidle]
    trivial
  · rw [hwritten] at he
    cases he

/-- Whatever the order of the threads' steps, no byte is written outside what was granted for it, as
long as no read moves the position between the seek and the write of a `NaClDescQuotaWrite`. -/
theorem written_covered_of_run {run : List (QuotaAction θ)} (h : w.Initial)
    (hsafe : Guarded step Safe w run) (hrun : run.foldlM step w = .ok w') :
    ∀ e ∈ w'.written, e.Covered ∧ (w'.file.quotaInterface = false → e.count = 0) :=
  (hsafe.invariant (fun _ _ _ h hsafe hstep => Inv.step h hsafe hstep) h.inv hrun).written

end

/-- A file of 64 bytes, with a quota interface. -/
def smallFile : QuotaWorld (Fin 2) where
  file := ⟨true, 0, 64⟩
  mu := none
  point _ := .idle
  written := []
  returned := none

/-- Four bytes are granted at the start of the file; before they are written, another thread reads
eight. -/
def readRun : List (QuotaAction (Fin 2)) :=
  [.naclDescQuotaWrite 0 4, .next 0, .next 0, .request 0 4, .naclDescQuotaRead 1 8 8, .write 0 4]

theorem not_written_covered : ¬ ∀ (run : List (QuotaAction (Fin 2))) w',
    run.foldlM step smallFile = .ok w' →
      ∀ e ∈ w'.written, e.Covered ∧ (w'.file.quotaInterface = false → e.count = 0) := by
  intro hclaim
  obtain ⟨w, hrun, hwritten⟩ := Runs.exists_ok_of_check
    (P := fun w : QuotaWorld (Fin 2) => w.written = [⟨8, 4, 4, some ⟨0, 4, 4, by decide⟩⟩])
    (fun w => w.written = [⟨8, 4, 4, some ⟨0, 4, 4, by decide⟩⟩])
    (fun _ hcheck => of_decide_eq_true hcheck) (x := readRun.foldlM step smallFile)
    (by decide +kernel)
  have hcovered := (hclaim readRun w hrun _ (hwritten ▸ List.mem_cons_self)).1
  rcases hcovered with hzero | ⟨grant, hgrant, -, -, -, hrange⟩
  · cases hzero
  · cases hgrant
    have hlast := (hrange 8 (by decide) (by decide)).2
    exact absurd hlast (by decide)

def safeRun : List (QuotaAction (Fin 2)) :=
  [.naclDescQuotaRead 1 8 8, .naclDescQuotaWrite 0 4, .next 0, .next 0, .request 0 3, .write 0 3,
    .next 0]

theorem written_covered_of_run_safe : ∃ w, safeRun.foldlM step smallFile = .ok w ∧
    w.returned = some (0, 3) ∧
    ∀ e ∈ w.written, e.Covered ∧ (w.file.quotaInterface = false → e.count = 0) := by
  obtain ⟨w, hrun, hreturned⟩ := Runs.exists_ok_of_check
    (P := fun w : QuotaWorld (Fin 2) => w.returned = some (0, 3))
    (fun w => w.returned = some (0, 3))
    (fun _ hcheck => of_decide_eq_true hcheck) (x := safeRun.foldlM step smallFile)
    (by decide +kernel)
  exact ⟨w, hrun, hreturned, written_covered_of_run ⟨rfl, fun _ => rfl, rfl⟩
    (Guarded.of_check (by decide +kernel)) hrun⟩

end QuotaWorld

end SandboxingNaCl
