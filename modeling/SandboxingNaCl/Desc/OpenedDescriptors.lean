import Mathlib.Algebra.Ring.Nat
import SandboxingNaCl.Lib.RefCount
import SandboxingNaCl.Lib.Runs
import Mathlib.Data.List.Count
import Mathlib.Data.List.Nodup

/-!
# Saved descriptors

`NaClDescIoDescOpen`, which saves the first descriptors it makes when the keep setting is on and
looks for the path among them before it opens a file.  An open is then as good as one with the setting
off exactly when its path is not found.
-/

namespace SandboxingNaCl

open Runs Function

def naclAbiOAccmode : BitVec 32 := 0o3

/-- `NACL_ALLOWED_OPEN_FLAGS`: `NACL_ABI_O_ACCMODE` and `CREAT`, `TRUNC`, `APPEND` and `EXCL`. -/
def naclAllowedOpenFlags : BitVec 32 := 0o3 ||| 0o100 ||| 0o1000 ||| 0o2000 ||| 0o200

def savedDescriptorCount : ℕ := 32

/-- What the host has opened with a `NaClHostDescOpen`; the file position is part of it. -/
structure NaClHostDesc where
  path : String
  flags : BitVec 32
  perms : BitVec 32

/-- The path is null where `strdup` has failed. -/
structure OpenedDescriptor where
  path : Option String
  descriptor : ℕ

/-- An open that has succeeded. -/
structure IoOpen where
  path : String
  mode : BitVec 32
  perms : BitVec 32
  descriptor : ℕ

/-- What the host answers to the calls in an open. -/
structure IoOpenAnswers where
  /-- `malloc` of the host descriptor. -/
  nhdp : Bool
  /-- `open`. -/
  host : Bool
  /-- `malloc` and construction of the descriptor. -/
  ndp : Bool
  strdup : Bool

inductive IoDescFault
  /-- `NaClLog(LOG_FATAL, ...)` for want of memory. -/
  | exhausted
  /-- `strcmp` of a null pointer. -/
  | nullPath
  | refs (fault : RefCount.Fault)

/-- The globals of `nacl_desc_io.c`, the descriptors, and what callers know of them.  The name of a
descriptor is the place of its host descriptor among those made. -/
structure IoDescs where
  /-- `gl_NaClAppLoadFileFromFilenameKeep`. -/
  keep : Bool
  /-- `gl_SavedDescriptors` up to `gl_SavedDescriptorsPos`. -/
  saved : List OpenedDescriptor
  hosts : List NaClHostDesc
  flags : ℕ → BitVec 32
  descs : RefCount.Objects ℕ
  held : List ℕ
  /-- The opens so far that have succeeded, the latest first. -/
  opened : List IoOpen

/-- The loop of `NaClDescIoDescOpen`. -/
def findSaved (path : String) : List OpenedDescriptor → Except IoDescFault (Option ℕ)
  | [] => .ok none
  | entry :: entries =>
    match entry.path with
    | none => .error .nullPath
    | some p => if p = path then .ok (some entry.descriptor) else findSaved path entries

namespace IoDescs

/-- No file is open. -/
def start (keep : Bool) : IoDescs where
  keep := keep
  saved := []
  hosts := []
  flags := fun _ => 0
  descs := ⟨[], fun _ => none, []⟩
  held := []
  opened := []

def naclDescRef (w : IoDescs) (ndp : ℕ) : Except IoDescFault IoDescs :=
  match RefCount.ref (2 ^ 64) w.descs ndp with
  | .error fault => .error (.refs fault)
  | .ok descs => .ok { w with descs }

/-- `NaClHostDescOpen`, with the answer of `open`. -/
def naclHostDescOpen (w : IoDescs) (path : String) (flags perms : BitVec 32) (host : Bool) :
    Option (IoDescs × NaClHostDesc) :=
  if flags &&& ~~~naclAllowedOpenFlags ≠ 0 then none
  else if flags &&& naclAbiOAccmode = 3 then none
  else if !host then none
  else
    let nhdp : NaClHostDesc := ⟨path, flags, perms⟩
    some ({ w with hosts := w.hosts ++ [nhdp] }, nhdp)

/-- `NaClDescIoDescMake` of the host descriptor made last. -/
def naclDescIoDescMake (w : IoDescs) (nhdp : NaClHostDesc) : IoDescs × ℕ :=
  let ndp := w.hosts.length - 1
  ({ w with
    descs := RefCount.create w.descs ndp
    flags := Function.update w.flags ndp (nhdp.flags &&& naclAbiOAccmode) }, ndp)

/-- The start of `NaClDescIoDescOpen`. -/
def search (w : IoDescs) (path : String) : Except IoDescFault (Option ℕ) :=
  if w.keep then findSaved path w.saved else .ok none

/-- The end of `NaClDescIoDescOpen`. -/
def save (w : IoDescs) (path : String) (nd : ℕ) (strdup : Bool) : Except IoDescFault IoDescs :=
  if w.keep ∧ w.saved.length < savedDescriptorCount then
    let entry : OpenedDescriptor := ⟨if strdup then some path else none, nd⟩
    { w with saved := w.saved ++ [entry] }.naclDescRef nd
  else .ok w

def naclDescIoDescOpen (w : IoDescs) (path : String) (mode perms : BitVec 32) (ans : IoOpenAnswers) :
    Except IoDescFault (IoDescs × Option ℕ) :=
  match w.search path with
  | .error fault => .error fault
  | .ok (some ndp) => (w.naclDescRef ndp).map fun w => (w, some ndp)
  | .ok none =>
    if !ans.nhdp then .error .exhausted
    else
      match w.naclHostDescOpen path mode perms ans.host with
      | none => .ok (w, none)
      | some (w, nhdp) =>
        if !ans.ndp then .error .exhausted
        else
          let (w, nd) := w.naclDescIoDescMake nhdp
          (w.save path nd ans.strdup).map fun w => (w, some nd)

def naclDescUnref (w : IoDescs) (ndp : ℕ) : Except IoDescFault IoDescs :=
  match RefCount.unref w.descs ndp with
  | .error fault => .error (.refs fault)
  | .ok descs => .ok { w with descs }

end IoDescs

/-- What callers do. -/
inductive IoCall
  | open (path : String) (mode perms : BitVec 32) (ans : IoOpenAnswers)
  /-- A caller that holds a reference, if there is one, drops it. -/
  | unref (ndp : ℕ)

namespace IoDescs

/-- A caller gets a reference with the descriptor that is returned. -/
def receive (w : IoDescs) (path : String) (mode perms : BitVec 32) : Option ℕ → IoDescs
  | none => w
  | some ndp => { w with held := ndp :: w.held, opened := ⟨path, mode, perms, ndp⟩ :: w.opened }

def step (w : IoDescs) : IoCall → Except IoDescFault IoDescs
  | .open path mode perms ans =>
    (w.naclDescIoDescOpen path mode perms ans).map fun (w, nd) => w.receive path mode perms nd
  | .unref ndp =>
    if ndp ∈ w.held then { w with held := w.held.erase ndp }.naclDescUnref ndp else .ok w

/-- Each open that has succeeded has a descriptor with the access mode asked for, on a file that the
host has opened as asked for and for no other open. -/
structure Transparent (w : IoDescs) : Prop where
  mode : ∀ call ∈ w.opened, w.flags call.descriptor = call.mode &&& naclAbiOAccmode
  host : ∀ call ∈ w.opened, w.hosts[call.descriptor]? = some ⟨call.path, call.mode, call.perms⟩
  independent : (w.opened.map IoOpen.descriptor).Nodup

/-- A saved descriptor has a reference besides those of the callers, and there are at most
`SAVED_DESCRIPTOR_COUNT` of them, with different paths. -/
structure Counted (w : IoDescs) : Prop where
  count : ∀ entry ∈ w.saved,
    w.descs.count entry.descriptor = some (w.held.count entry.descriptor + 1)
  length : w.saved.length ≤ savedDescriptorCount
  paths : (w.saved.map OpenedDescriptor.path).Nodup

/-- With the setting on, an open is not for a saved path, nor after `strdup` has failed. -/
def NotSaved (w : IoDescs) : IoCall → Prop
  | .open path _ _ _ => w.keep → ∀ entry ∈ w.saved, entry.path ≠ none ∧ entry.path ≠ some path
  | .unref _ => True

/-- The references that callers and `gl_SavedDescriptors` hold. -/
def owners (w : IoDescs) (ndp : ℕ) : ℕ :=
  w.held.count ndp + (w.saved.map OpenedDescriptor.descriptor).count ndp

structure Inv (w : IoDescs) : Prop where
  sound : RefCount.Sound w.descs w.owners
  created_lt : ∀ ndp ∈ w.descs.created, ndp < w.hosts.length
  opened_lt : ∀ call ∈ w.opened, call.descriptor < w.hosts.length
  saved_opened : ∀ entry ∈ w.saved, entry.descriptor ∈ w.opened.map IoOpen.descriptor
  nodup : (w.saved.map OpenedDescriptor.descriptor).Nodup
  length : w.saved.length ≤ savedDescriptorCount
  paths : (w.saved.map OpenedDescriptor.path).Nodup

section

variable {w w' : IoDescs} {path : String} {mode perms : BitVec 32} {ans : IoOpenAnswers}
  {call : IoCall} {ndp : ℕ}

theorem findSaved_eq_none {entries : List OpenedDescriptor} :
    findSaved path entries = .ok none ↔
      ∀ entry ∈ entries, entry.path ≠ none ∧ entry.path ≠ some path := by
  induction entries with
  | nil => simp [findSaved]
  | cons entry entries ih =>
    obtain ⟨p, d⟩ := entry
    cases p with
    | none => simp [findSaved]
    | some p =>
      rw [List.forall_mem_cons, ← ih]
      by_cases hp : p = path
      · simp [findSaved, hp]
      · simp [findSaved, hp]

theorem eq_nullPath_of_findSaved {entries : List OpenedDescriptor} {fault : IoDescFault}
    (h : findSaved path entries = .error fault) : fault = .nullPath := by
  induction entries with
  | nil => cases h
  | cons entry entries ih =>
    obtain ⟨p, d⟩ := entry
    cases p with
    | none => cases h; rfl
    | some p =>
      by_cases hp : p = path
      · simp [findSaved, hp] at h
      · simp only [findSaved, hp, if_false] at h
        exact ih h

theorem mem_of_findSaved {entries : List OpenedDescriptor}
    (h : findSaved path entries = .ok (some ndp)) :
    ∃ entry ∈ entries, entry.descriptor = ndp := by
  induction entries with
  | nil => cases h
  | cons entry entries ih =>
    obtain ⟨p, d⟩ := entry
    cases p with
    | none => cases h
    | some p =>
      by_cases hp : p = path
      · simp only [findSaved, hp, if_true, Except.ok.injEq, Option.some.injEq] at h
        exact ⟨_, List.mem_cons_self, h⟩
      · simp only [findSaved, hp, if_false] at h
        obtain ⟨e, he, hd⟩ := ih h
        exact ⟨e, List.mem_cons_of_mem _ he, hd⟩

theorem eq_nullPath_of_search {fault : IoDescFault} (h : w.search path = .error fault) :
    fault = .nullPath := by
  unfold search at h
  cases hkeep : w.keep with
  | false => simp [hkeep] at h
  | true =>
    rw [hkeep] at h
    exact eq_nullPath_of_findSaved h

theorem search_eq_none : w.search path = .ok none ↔
    (w.keep → ∀ entry ∈ w.saved, entry.path ≠ none ∧ entry.path ≠ some path) := by
  unfold search
  cases w.keep with
  | false => simp
  | true => simp [findSaved_eq_none]

/-- The state after an open of a file, before the caller has the descriptor. -/
def fresh (w : IoDescs) (path : String) (mode perms : BitVec 32) : IoDescs :=
  { w with
    hosts := w.hosts ++ [⟨path, mode, perms⟩]
    descs := RefCount.create w.descs w.hosts.length
    flags := Function.update w.flags w.hosts.length (mode &&& naclAbiOAccmode) }

theorem open_of_search (h : w.search path = .ok none) :
    w.naclDescIoDescOpen path mode perms ans = .error .exhausted ∨
      w.naclDescIoDescOpen path mode perms ans = .ok (w, none) ∨
      w.naclDescIoDescOpen path mode perms ans =
        ((w.fresh path mode perms).save path w.hosts.length ans.strdup).map
          fun w' => (w', some w.hosts.length) := by
  unfold naclDescIoDescOpen
  rw [h]
  dsimp only
  cases ans.nhdp with
  | false => exact Or.inl rfl
  | true =>
    rw [if_neg (by decide)]
    cases hhost : w.naclHostDescOpen path mode perms ans.host with
    | none => exact Or.inr (Or.inl rfl)
    | some opened =>
      cases ans.ndp with
      | false => exact Or.inl rfl
      | true =>
        refine Or.inr (Or.inr ?_)
        unfold naclHostDescOpen at hhost
        split_ifs at hhost with hflags hacc hno
        obtain rfl := Option.some.inj hhost
        simp [naclDescIoDescMake, fresh]

theorem inv_start (keep : Bool) : (start keep).Inv where
  sound := by
    refine ⟨fun _ => rfl, ?_, ?_, ?_, List.nodup_nil⟩
    all_goals simp [start]
  created_lt := by simp [start]
  opened_lt := by simp [start]
  saved_opened := by simp [start]
  nodup := List.nodup_nil
  length := Nat.zero_le _
  paths := List.nodup_nil

theorem Inv.owners_of_le (h : w.Inv) (hndp : w.hosts.length ≤ ndp) : w.owners ndp = 0 := by
  rw [← h.sound.count_eq_none]
  by_contra hcount
  exact absurd (h.created_lt ndp (h.sound.created ndp hcount)) (by omega)

theorem owners_pos {entry : OpenedDescriptor} (hentry : entry ∈ w.saved) :
    0 < w.owners entry.descriptor :=
  Nat.add_pos_right _ (List.count_pos_iff.2 (List.mem_map_of_mem hentry))

theorem owners_receive (w : IoDescs) (path : String) (mode perms : BitVec 32) (ndp : ℕ) :
    (w.receive path mode perms (some ndp)).owners =
      update w.owners ndp (w.owners ndp + 1) := by
  funext a
  by_cases ha : a = ndp
  · subst ha
    simp [receive, owners]
    omega
  · simp [receive, owners, ha, Ne.symm ha]

theorem step_of_found (h : w.search path = .ok (some ndp)) :
    w.step (.open path mode perms ans) =
      (w.naclDescRef ndp).map fun w' => w'.receive path mode perms (some ndp) := by
  unfold step naclDescIoDescOpen
  dsimp only
  rw [h]
  dsimp only
  cases w.naclDescRef ndp with
  | error fault => rfl
  | ok w' => rfl

/-- An open whose path is found keeps the invariant, and its descriptor is one that an open has
returned before. -/
theorem inv_of_found (h : w.Inv) (hfound : w.search path = .ok (some ndp))
    (hopen : w.step (.open path mode perms ans) = .ok w') :
    w'.Inv ∧ w'.keep = w.keep ∧ ∃ call ∈ w.opened, call.descriptor = ndp ∧
      w'.opened = ⟨path, mode, perms, ndp⟩ :: w.opened := by
  obtain ⟨hkeep, hsaved⟩ : w.keep ∧ findSaved path w.saved = .ok (some ndp) := by
    unfold search at hfound
    cases hkeep : w.keep with
    | false => simp [hkeep] at hfound
    | true => simpa [hkeep] using hfound
  obtain ⟨entry, hentry, rfl⟩ := mem_of_findSaved hsaved
  rw [step_of_found hfound] at hopen
  have howners := owners_receive w path mode perms entry.descriptor
  rcases h.sound.ref (2 ^ 64) (owners_pos hentry) rfl with hover | ⟨descs, hok, hcreated, hsound⟩
  · rw [naclDescRef, hover] at hopen
    cases hopen
  · simp only [naclDescRef, hok, Except.map, Except.ok.injEq] at hopen
    subst hopen
    obtain ⟨call, hcall, hdesc⟩ := List.mem_map.1 (h.saved_opened entry hentry)
    refine ⟨⟨hsound.congr fun a => congrFun howners a, ?_, ?_, ?_, h.nodup, h.length, h.paths⟩,
      rfl, call, hcall, hdesc, rfl⟩
    · intro a ha
      exact h.created_lt a (hcreated ▸ ha)
    · intro c hc
      obtain rfl | hc := List.mem_cons.1 hc
      · exact hdesc ▸ h.opened_lt call hcall
      · exact h.opened_lt c hc
    · intro e he
      exact List.mem_cons_of_mem _ (h.saved_opened e he)

theorem owners_saved (w : IoDescs) (entry : OpenedDescriptor) :
    owners { w with saved := w.saved ++ [entry] } =
      update w.owners entry.descriptor (w.owners entry.descriptor + 1) := by
  funext a
  by_cases ha : a = entry.descriptor
  · subst ha
    simp [owners]
    omega
  · simp [owners, ha, Ne.symm ha]

/-- The state after the descriptor of an open has been saved. -/
def savedFresh (w : IoDescs) (path : String) (mode perms : BitVec 32) (strdup : Bool) : IoDescs :=
  { w.fresh path mode perms with
    saved := w.saved ++ [⟨if strdup then some path else none, w.hosts.length⟩]
    descs := { RefCount.create w.descs w.hosts.length with
      count := Function.update (RefCount.create w.descs w.hosts.length).count w.hosts.length
        (some 2) } }

theorem Inv.receive_fresh (h : w.Inv) (hdescs : w'.descs.created = w.hosts.length :: w.descs.created)
    (hhosts : w'.hosts = (w.fresh path mode perms).hosts) (hopened : w'.opened = w.opened)
    (hsound : RefCount.Sound w'.descs (w'.receive path mode perms (some w.hosts.length)).owners)
    (hsaved : w'.saved = w.saved ∨ ∃ p, w'.saved = w.saved ++ [⟨p, w.hosts.length⟩] ∧
      w.saved.length < savedDescriptorCount ∧ p ∉ w.saved.map OpenedDescriptor.path) :
    (w'.receive path mode perms (some w.hosts.length)).Inv := by
  have hlength : w'.hosts.length = w.hosts.length + 1 := by rw [hhosts]; simp [fresh]
  have hmem : ∀ entry ∈ w'.saved, entry ∈ w.saved ∨ entry.descriptor = w.hosts.length := by
    intro entry hentry
    obtain heq | ⟨p, heq, -, -⟩ := hsaved
    · exact Or.inl (heq ▸ hentry)
    · rw [heq, List.mem_append, List.mem_singleton] at hentry
      exact hentry.imp_right fun he => congrArg OpenedDescriptor.descriptor he
  have hnot : w.hosts.length ∉ w.saved.map OpenedDescriptor.descriptor := by
    intro hn
    obtain ⟨entry, hentry, hd⟩ := List.mem_map.1 hn
    obtain ⟨call, hcall, hc⟩ := List.mem_map.1 (h.saved_opened entry hentry)
    have hlt := h.opened_lt call hcall
    omega
  refine ⟨hsound, fun ndp hndp => ?_, fun call hcall => ?_, fun entry hentry => ?_, ?_, ?_, ?_⟩
  · change ndp ∈ w'.descs.created at hndp
    change ndp < w'.hosts.length
    rw [hdescs, List.mem_cons] at hndp
    rw [hlength]
    obtain rfl | hndp := hndp
    · exact Nat.lt_succ_self _
    · exact Nat.lt_succ_of_lt (h.created_lt ndp hndp)
  · change call ∈ _ :: w'.opened at hcall
    change call.descriptor < w'.hosts.length
    rw [hopened, List.mem_cons] at hcall
    rw [hlength]
    obtain rfl | hcall := hcall
    · exact Nat.lt_succ_self _
    · exact Nat.lt_succ_of_lt (h.opened_lt call hcall)
  · change entry.descriptor ∈ w.hosts.length :: w'.opened.map IoOpen.descriptor
    rw [hopened, List.mem_cons]
    exact (hmem entry hentry).symm.imp_right (h.saved_opened entry)
  · change (w'.saved.map OpenedDescriptor.descriptor).Nodup
    obtain heq | ⟨p, heq, -, -⟩ := hsaved
    · exact heq ▸ h.nodup
    · rw [heq, List.map_append, List.map_singleton, ← List.concat_eq_append]
      exact List.Nodup.concat hnot h.nodup
  · change w'.saved.length ≤ savedDescriptorCount
    obtain heq | ⟨p, heq, hlt, -⟩ := hsaved
    · exact heq ▸ h.length
    · rw [heq, List.length_append, List.length_singleton]
      exact hlt
  · change (w'.saved.map OpenedDescriptor.path).Nodup
    obtain heq | ⟨p, heq, -, hp⟩ := hsaved
    · exact heq ▸ h.paths
    · rw [heq, List.map_append, List.map_singleton, ← List.concat_eq_append]
      exact List.Nodup.concat hp h.paths

theorem inv_of_fresh (h : w.Inv) (hsearch : w.search path = .ok none) (strdup : Bool) :
    ∃ w', (w.fresh path mode perms).save path w.hosts.length strdup = .ok w' ∧
      (w'.receive path mode perms (some w.hosts.length)).Inv ∧
      w'.keep = w.keep ∧ w'.flags = (w.fresh path mode perms).flags ∧
      w'.hosts = (w.fresh path mode perms).hosts ∧ w'.opened = w.opened := by
  have hfree := h.owners_of_le (Nat.le_refl w.hosts.length)
  have hnot : w.hosts.length ∉ w.descs.created := fun hmem =>
    absurd (h.created_lt _ hmem) (Nat.lt_irrefl _)
  have hcreate := h.sound.create hnot rfl
  by_cases hroom : w.keep ∧ w.saved.length < savedDescriptorCount
  · have hentries := search_eq_none.1 hsearch hroom.1
    have hok : RefCount.ref (2 ^ 64) (RefCount.create w.descs w.hosts.length) w.hosts.length =
        .ok { RefCount.create w.descs w.hosts.length with
          count := update (RefCount.create w.descs w.hosts.length).count w.hosts.length
            (some 2) } := by
      simp [RefCount.ref, RefCount.create]
    have hsave : (w.fresh path mode perms).save path w.hosts.length strdup =
        .ok (w.savedFresh path mode perms strdup) := by
      refine (if_pos hroom).trans ?_
      unfold naclDescRef
      dsimp only [fresh]
      rw [hok]
      rfl
    have hpath : (if strdup then some path else none) ∉ w.saved.map OpenedDescriptor.path := by
      intro hmem
      obtain ⟨entry, hentry, hp⟩ := List.mem_map.1 hmem
      cases strdup with
      | false => exact (hentries entry hentry).1 hp
      | true => exact (hentries entry hentry).2 hp
    refine ⟨_, hsave, h.receive_fresh rfl rfl rfl ?_ (Or.inr ⟨_, rfl, hroom.2, hpath⟩),
      rfl, rfl, rfl, rfl⟩
    have howners : (w.savedFresh path mode perms strdup).owners =
        update w.owners w.hosts.length 1 := by
      refine (owners_saved (w.fresh path mode perms) _).trans ?_
      change update w.owners _ (w.owners _ + 1) = _
      rw [hfree]
    have hpos : 0 < update w.owners w.hosts.length 1 w.hosts.length := by
      rw [update_self]
      exact Nat.one_pos
    rcases hcreate.ref (2 ^ 64) hpos rfl with hover | ⟨descs, hdescs, -, hsound⟩
    · rw [hok] at hover
      cases hover
    · rw [hok] at hdescs
      cases hdescs
      refine hsound.congr fun a => ?_
      rw [owners_receive, howners]
  · refine ⟨_, if_neg hroom, h.receive_fresh rfl rfl rfl ?_ (Or.inl rfl), rfl, rfl, rfl, rfl⟩
    refine hcreate.congr fun a => ?_
    rw [owners_receive]
    change update w.owners _ (w.owners _ + 1) a = _
    rw [hfree]

theorem inv_of_unref (h : w.Inv) (ndp : ℕ) : ∃ w', w.step (.unref ndp) = .ok w' ∧ w'.Inv ∧
    w'.keep = w.keep ∧ w'.flags = w.flags ∧ w'.hosts = w.hosts ∧ w'.opened = w.opened := by
  by_cases hheld : ndp ∈ w.held
  · have hpos : 0 < w.owners ndp := Nat.add_pos_left (List.count_pos_iff.2 hheld) _
    obtain ⟨descs, hok, hcreated, hsound⟩ := h.sound.unref hpos rfl
    refine ⟨{ w with held := w.held.erase ndp, descs }, ?_, ⟨hsound.congr fun a => ?_, ?_,
      h.opened_lt, h.saved_opened, h.nodup, h.length, h.paths⟩, rfl, rfl, rfl, rfl⟩
    · refine (if_pos hheld).trans ?_
      simp only [naclDescUnref, hok]
    · have hcount := List.count_pos_iff.2 hheld
      by_cases ha : a = ndp
      · subst ha
        simp only [owners, List.count_erase_self, update_self]
        omega
      · simp [owners, ha, List.count_erase_of_ne ha]
    · intro a ha
      exact h.created_lt a (hcreated ▸ ha)
  · exact ⟨w, if_neg hheld, h, rfl, rfl, rfl, rfl⟩

def RightSoFar : Except IoDescFault IoDescs → Prop
  | .ok w => w.Transparent ∧ w.Counted
  | .error fault => fault = .exhausted

theorem Inv.counted (h : w.Inv) : w.Counted where
  count entry hentry := by
    have hone : (w.saved.map OpenedDescriptor.descriptor).count entry.descriptor = 1 :=
      List.count_eq_one_of_mem h.nodup (List.mem_map_of_mem hentry)
    rw [h.sound.count_eq (owners_pos hentry), owners, hone]
  length := h.length
  paths := h.paths

theorem Transparent.receive (h : w.Transparent) (hw : w.Inv)
    (hflags : w'.flags = (w.fresh path mode perms).flags)
    (hhosts : w'.hosts = (w.fresh path mode perms).hosts) (hopened : w'.opened = w.opened) :
    (w'.receive path mode perms (some w.hosts.length)).Transparent where
  mode := by
    change ∀ call ∈ _ :: w'.opened, w'.flags call.descriptor = _
    rw [hopened, hflags, List.forall_mem_cons]
    refine ⟨update_self .., fun call hcall => ?_⟩
    have hlt := hw.opened_lt call hcall
    exact (update_of_ne (by omega) _ _).trans (h.mode call hcall)
  host := by
    change ∀ call ∈ _ :: w'.opened, w'.hosts[call.descriptor]? = _
    rw [hopened, hhosts, List.forall_mem_cons]
    refine ⟨List.getElem?_concat_length, fun call hcall => ?_⟩
    exact (List.getElem?_append_left (hw.opened_lt call hcall)).trans (h.host call hcall)
  independent := by
    change (w.hosts.length :: w'.opened.map IoOpen.descriptor).Nodup
    rw [hopened, List.nodup_cons]
    refine ⟨fun hmem => ?_, h.independent⟩
    obtain ⟨call, hcall, hd⟩ := List.mem_map.1 hmem
    have hlt := hw.opened_lt call hcall
    omega

theorem inv_step (h : w.Inv) (hstep : w.step call = .ok w') :
    w'.Inv ∧ w'.keep = w.keep := by
  cases call with
  | unref ndp =>
    obtain ⟨w'', hok, hw'', hkeep, -⟩ := inv_of_unref h ndp
    rw [hstep] at hok
    cases hok
    exact ⟨hw'', hkeep⟩
  | «open» path mode perms ans =>
    cases hsearch : w.search path with
    | error fault =>
      unfold step naclDescIoDescOpen at hstep
      simp [hsearch, Except.map] at hstep
    | ok found =>
      cases found with
      | some ndp =>
        obtain ⟨hw', hkeep, -⟩ := inv_of_found h hsearch hstep
        exact ⟨hw', hkeep⟩
      | none =>
        rcases @open_of_search w path mode perms ans hsearch with hopen | hopen | hopen
        · simp [step, hopen, Except.map] at hstep
        · simp only [step, hopen, Except.map, Except.ok.injEq] at hstep
          exact hstep ▸ ⟨h, rfl⟩
        · obtain ⟨w'', hok, hw'', hkeep, -⟩ :=
            @inv_of_fresh w path mode perms h hsearch ans.strdup
          simp only [step, hopen, hok, Except.map, Except.ok.injEq] at hstep
          exact hstep ▸ ⟨hw'', hkeep⟩

theorem rightSoFar_step_iff (h : w.Inv) (hright : w.Transparent) :
    RightSoFar (w.step call) ↔ w.NotSaved call := by
  cases call with
  | unref ndp =>
    obtain ⟨w', hok, hw', -, hflags, hhosts, hopened⟩ := inv_of_unref h ndp
    rw [hok]
    refine iff_of_true ⟨⟨?_, ?_, ?_⟩, hw'.counted⟩ trivial
    · rw [hopened, hflags]
      exact hright.mode
    · rw [hopened, hhosts]
      exact hright.host
    · rw [hopened]
      exact hright.independent
  | «open» path mode perms ans =>
    have hsaved : w.NotSaved (.open path mode perms ans) ↔ w.search path = .ok none :=
      search_eq_none.symm
    rw [hsaved]
    cases hsearch : w.search path with
    | error fault =>
      refine iff_of_false (fun hfalse => ?_) (by simp)
      have hstep : w.step (.open path mode perms ans) = .error .nullPath := by
        simp [step, naclDescIoDescOpen, hsearch, eq_nullPath_of_search hsearch, Except.map]
      rw [hstep] at hfalse
      cases hfalse
    | ok found =>
      cases found with
      | some ndp =>
        refine iff_of_false (fun hfalse => ?_) (by simp)
        cases hstep : w.step (.open path mode perms ans) with
        | error fault =>
          rw [hstep] at hfalse
          rw [step_of_found hsearch, naclDescRef] at hstep
          cases href : RefCount.ref (2 ^ 64) w.descs ndp with
          | error refFault =>
            rw [href] at hstep
            cases hstep
            cases hfalse
          | ok descs =>
            rw [href] at hstep
            cases hstep
        | ok w' =>
          -- The descriptor is returned for the second time.
          rw [hstep] at hfalse
          obtain ⟨-, -, call, hcall, hd, hopened⟩ := inv_of_found h hsearch hstep
          have hnodup := hfalse.1.independent
          rw [hopened, List.map_cons, List.nodup_cons] at hnodup
          exact hnodup.1 (List.mem_map.2 ⟨call, hcall, hd⟩)
      | none =>
        refine iff_of_true ?_ rfl
        rcases @open_of_search w path mode perms ans hsearch with hopen | hopen | hopen
        · simp [step, hopen, Except.map, RightSoFar]
        · simp only [step, hopen, Except.map]
          exact ⟨hright, h.counted⟩
        · obtain ⟨w', hok, hw', -, hflags, hhosts, hopened⟩ :=
            @inv_of_fresh w path mode perms h hsearch ans.strdup
          simp only [step, hopen, hok, Except.map]
          exact ⟨hright.receive h hflags hhosts hopened, hw'.counted⟩

theorem rightSoFar_start (keep : Bool) : RightSoFar (.ok (start keep)) :=
  ⟨⟨by simp [start], by simp [start], List.nodup_nil⟩, (inv_start keep).counted⟩

/-- In a run each open that succeeds has the access mode asked for and a file of its own, and the
saved descriptors are counted, exactly when no open of the run is for a path that is saved at that
time. -/
theorem rightSoFar_iff (keep : Bool) (calls : List IoCall) :
    (∀ calls', calls' <+: calls → RightSoFar (calls'.foldlM step (start keep))) ↔
      Guarded step NotSaved (start keep) calls :=
  guarded_iff (fun _ _ _ h hstep => (inv_step h hstep).1)
    (fun _ _ h hright => rightSoFar_step_iff h hright.1) (inv_start keep) (rightSoFar_start keep)

/-- The second open of a file wants to write, and gets the descriptor of the first. -/
theorem not_rightSoFar_other_mode : ¬ RightSoFar
    ([.open "a" 0 0 ⟨true, true, true, true⟩, .open "a" 2 0 ⟨true, true, true, true⟩].foldlM step
      (start true)) := by
  intro hright
  have hmode := hright.1.mode
  revert hmode
  decide

end

end IoDescs

end SandboxingNaCl
