import SandboxingNaCl.Lib.ByteImage

/-!
# The search for the build ID

`build_id.cc`: `GetBuildIdFromNotes` goes through the notes of an area of memory, of which each says
how long its name and its descriptor are.  Pointers have 32 bits, and their sums wrap.  The notes of
the area themselves are taken with sums that do not.
-/

namespace SandboxingNaCl

open ByteImage Patches

/-! ## The code -/

def ntGnuBuildId : ℕ := 3

/-- `ELF_NOTE_GNU`, with the byte that ends it. -/
def elfNoteGnu : List UInt8 := [0x47, 0x4e, 0x55, 0]

def sizeofElf32Nhdr : ℕ := 12

def wrapped (mem : ℕ → UInt8) (a : ℕ) : UInt8 := mem (a % 2 ^ 32)

/-- `note->n_namesz`. -/
def noteNamesz (mem : ℕ → UInt8) (note : ℕ) : ℕ := wordAt (wrapped mem) 4 note

/-- `note->n_descsz`. -/
def noteDescsz (mem : ℕ → UInt8) (note : ℕ) : ℕ := wordAt (wrapped mem) 4 (note + 4)

/-- `note->n_type`. -/
def noteType (mem : ℕ → UInt8) (note : ℕ) : ℕ := wordAt (wrapped mem) 4 (note + 8)

def noteAlign (value : ℕ) : ℕ := (value + 3) % 2 ^ 32 / 4 * 4

def bytesRead (a n : ℕ) : List ℕ := (List.range n).map fun i => (a + i) % 2 ^ 32

/-- How a turn of the loop ends. -/
inductive NoteTurn
  | assertFails
  | found (desc size : ℕ)
  | next (note : ℕ)
deriving DecidableEq

/-- A turn of the loop, and the bytes that it reads. -/
def noteTurn (mem : ℕ → UInt8) (stop note : ℕ) : NoteTurn × List ℕ :=
  let namePtr := (note + sizeofElf32Nhdr) % 2 ^ 32
  if ¬ namePtr ≤ stop then (.assertFails, [])
  else
    let sizes := bytesRead note 8
    let descPtr := noteAlign ((namePtr + noteNamesz mem note) % 2 ^ 32)
    let nextPtr := noteAlign ((descPtr + noteDescsz mem note) % 2 ^ 32)
    if ¬ nextPtr ≤ stop then (.assertFails, sizes)
    else if noteType mem note = ntGnuBuildId ∧ noteNamesz mem note = elfNoteGnu.length then
      (if read (wrapped mem) namePtr elfNoteGnu.length = elfNoteGnu then
          .found descPtr (noteDescsz mem note)
        else .next nextPtr,
        sizes ++ bytesRead (note + 8) 4 ++ bytesRead namePtr elfNoteGnu.length)
    else (.next nextPtr, sizes ++ bytesRead (note + 8) 4)

/-- What `GetBuildIdFromNotes` comes to: an assertion fails, or it returns, with the descriptor and
its size if it returns 1. -/
inductive NoteResult
  | assertFails
  | returns (found : Option (ℕ × ℕ))

def NoteResult.found : NoteResult → Option (ℕ × ℕ)
  | .assertFails => none
  | .returns found => found

/-- `GetBuildIdFromNotes` from `note` on, in at most so many turns, with the bytes that it reads. -/
def getBuildIdFromNotes (mem : ℕ → UInt8) (stop : ℕ) : ℕ → ℕ → Option (NoteResult × List ℕ)
  | 0, _ => none
  | n + 1, note =>
    if note < stop then
      match noteTurn mem stop note with
      | (.assertFails, reads) => some (.assertFails, reads)
      | (.found desc size, reads) => some (.returns (some (desc, size)), reads)
      | (.next nextPtr, reads) =>
        (getBuildIdFromNotes mem stop n nextPtr).map fun r => (r.1, reads ++ r.2)
    else some (.returns none, [])

/-! ## The notes of an area -/

def fourAligned (n : ℕ) : ℕ := (n + 3) / 4 * 4

def descAt (mem : ℕ → UInt8) (note : ℕ) : ℕ :=
  fourAligned (note + sizeofElf32Nhdr + noteNamesz mem note)

def noteEnd (mem : ℕ → UInt8) (note : ℕ) : ℕ := fourAligned (descAt mem note + noteDescsz mem note)

/-- It is an `NT_GNU_BUILD_ID` note with the name `GNU`. -/
def IsBuildId (mem : ℕ → UInt8) (note : ℕ) : Prop :=
  noteType mem note = ntGnuBuildId ∧ noteNamesz mem note = elfNoteGnu.length ∧
    read (wrapped mem) (note + sizeofElf32Nhdr) elfNoteGnu.length = elfNoteGnu

instance (mem : ℕ → UInt8) (note : ℕ) : Decidable (IsBuildId mem note) :=
  inferInstanceAs (Decidable (_ ∧ _ ∧ _))

theorem le_fourAligned (n : ℕ) : n ≤ fourAligned n := by
  unfold fourAligned
  omega

theorem header_le_descAt (mem : ℕ → UInt8) (note : ℕ) :
    note + 12 + noteNamesz mem note ≤ descAt mem note := le_fourAligned _

theorem desc_le_noteEnd (mem : ℕ → UInt8) (note : ℕ) :
    descAt mem note + noteDescsz mem note ≤ noteEnd mem note := le_fourAligned _

theorem lt_noteEnd (mem : ℕ → UInt8) (note : ℕ) : note < noteEnd mem note := by
  have hdesc := header_le_descAt mem note
  have hend := desc_le_noteEnd mem note
  omega

/-- The notes of the area, in order, up to one that does not fit. -/
def notesFrom (mem : ℕ → UInt8) (stop note : ℕ) : List ℕ :=
  if noteEnd mem note ≤ stop then note :: notesFrom mem stop (noteEnd mem note) else []
termination_by stop - note
decreasing_by
  have hlt := lt_noteEnd mem note
  omega

def firstBuildId (mem : ℕ → UInt8) (stop note : ℕ) : Option ℕ :=
  (notesFrom mem stop note).find? (IsBuildId mem ·)

/-! ## What is wanted -/

/-- The search terminates, reads the area only, and hands out the descriptor of the first build ID
among the notes, which is in the area. -/
def SearchRight (mem : ℕ → UInt8) (start stop : ℕ) : Prop :=
  ∃ turns result reads, getBuildIdFromNotes mem stop turns start = some (result, reads) ∧
    (∀ a ∈ reads, start ≤ a ∧ a < stop) ∧
    result.found = (firstBuildId mem stop start).map
      (fun note => (descAt mem note, noteDescsz mem note)) ∧
    ∀ desc size, result.found = some (desc, size) → start ≤ desc ∧ desc + size ≤ stop

/-- The notes that the search comes to. -/
inductive NoteReached (mem : ℕ → UInt8) (stop start : ℕ) : ℕ → Prop
  | start : NoteReached mem stop start start
  | next {note : ℕ} (h : NoteReached mem stop start note) (hfits : noteEnd mem note ≤ stop)
      (hother : ¬ IsBuildId mem note) : NoteReached mem stop start (noteEnd mem note)

/-- No sum wraps for a note that the search comes to. -/
def SizesFit (mem : ℕ → UInt8) (start stop : ℕ) : Prop :=
  ∀ note, NoteReached mem stop start note → note < stop →
    note + sizeofElf32Nhdr < 2 ^ 32 ∧
      (note + sizeofElf32Nhdr ≤ stop → noteEnd mem note < 2 ^ 32)

section

variable {mem : ℕ → UInt8} {start stop note n a : ℕ}

theorem mem_bytesRead : a ∈ bytesRead note n ↔ ∃ i < n, (note + i) % 2 ^ 32 = a := by
  unfold bytesRead
  simp only [List.mem_map, List.mem_range]

theorem bounds_of_mem_bytesRead (hfit : note + n ≤ 2 ^ 32) (h : a ∈ bytesRead note n) :
    note ≤ a ∧ a < note + n := by
  obtain ⟨i, hi, rfl⟩ := mem_bytesRead.1 h
  rw [Nat.mod_eq_of_lt (by omega)]
  omega

theorem noteAlign_eq {v : ℕ} (h : fourAligned v < 2 ^ 32) :
    noteAlign (v % 2 ^ 32) = fourAligned v := by
  unfold noteAlign fourAligned at *
  omega

/-! ## One turn -/

theorem noteTurn_eq (hstop : stop < 2 ^ 32) (hname : note + sizeofElf32Nhdr < 2 ^ 32)
    (hend : note + sizeofElf32Nhdr ≤ stop → noteEnd mem note < 2 ^ 32) :
    ∃ reads, (∀ a ∈ reads, note ≤ a ∧ a < stop) ∧ noteTurn mem stop note =
      (if stop < noteEnd mem note then .assertFails
        else if IsBuildId mem note then .found (descAt mem note) (noteDescsz mem note)
        else .next (noteEnd mem note), reads) := by
  have hsize : sizeofElf32Nhdr = 12 := rfl
  have hdesc := header_le_descAt mem note
  have hdescEnd := desc_le_noteEnd mem note
  have hnamePtr : (note + sizeofElf32Nhdr) % 2 ^ 32 = note + sizeofElf32Nhdr :=
    Nat.mod_eq_of_lt hname
  rw [hsize] at hname hend
  by_cases hheader : note + sizeofElf32Nhdr ≤ stop
  · have hle : note + 12 ≤ stop := hheader
    have hend := hend hle
    have hdescPtr : noteAlign ((note + sizeofElf32Nhdr + noteNamesz mem note) % 2 ^ 32) =
        descAt mem note := noteAlign_eq (by rw [← descAt]; omega)
    have hnextPtr : noteAlign ((descAt mem note + noteDescsz mem note) % 2 ^ 32) =
        noteEnd mem note := noteAlign_eq hend
    have hsizes : ∀ a ∈ bytesRead note 8, note ≤ a ∧ a < stop := fun a ha => by
      have hbounds := bounds_of_mem_bytesRead (by omega) ha
      omega
    have htype : ∀ a ∈ bytesRead (note + 8) 4, note ≤ a ∧ a < stop := fun a ha => by
      have hbounds := bounds_of_mem_bytesRead (by omega) ha
      omega
    unfold noteTurn
    dsimp only
    rw [hnamePtr, if_neg (not_not.2 hheader), hdescPtr, hnextPtr]
    by_cases hfits : noteEnd mem note ≤ stop
    · rw [if_neg (not_not.2 hfits), if_neg (not_lt.2 hfits)]
      by_cases hkind : noteType mem note = ntGnuBuildId ∧ noteNamesz mem note = elfNoteGnu.length
      · have hgnu : elfNoteGnu.length = 4 := rfl
        have hname' : ∀ a ∈ bytesRead (note + sizeofElf32Nhdr) elfNoteGnu.length,
            note ≤ a ∧ a < stop := fun a ha => by
          have hlen := hkind.2
          rw [hgnu] at ha hlen
          have hbounds := bounds_of_mem_bytesRead (by omega) ha
          omega
        rw [if_pos hkind]
        refine ⟨_, ?_, congrArg (·, _) ?_⟩
        · simp only [List.forall_mem_append]
          exact ⟨⟨hsizes, htype⟩, hname'⟩
        · unfold IsBuildId
          simp only [hkind, true_and]
      · have hother : ¬ IsBuildId mem note := fun h => hkind ⟨h.1, h.2.1⟩
        rw [if_neg hkind, if_neg hother]
        refine ⟨_, ?_, rfl⟩
        exact List.forall_mem_append.2 ⟨hsizes, htype⟩
    · rw [if_pos hfits, if_pos (not_le.1 hfits)]
      exact ⟨_, hsizes, rfl⟩
  · have hlong : stop < noteEnd mem note := by omega
    refine ⟨[], nofun, ?_⟩
    unfold noteTurn
    dsimp only
    rw [hnamePtr, if_pos hheader, if_pos hlong]

/-! ## The search -/

theorem firstBuildId_of_long (h : stop < noteEnd mem note) : firstBuildId mem stop note = none := by
  unfold firstBuildId
  rw [notesFrom, if_neg (not_le.2 h)]
  rfl

theorem firstBuildId_of_id (h : noteEnd mem note ≤ stop) (hid : IsBuildId mem note) :
    firstBuildId mem stop note = some note := by
  unfold firstBuildId
  rw [notesFrom, if_pos h, List.find?_cons, decide_eq_true hid]

theorem firstBuildId_of_other (h : noteEnd mem note ≤ stop) (hother : ¬ IsBuildId mem note) :
    firstBuildId mem stop note = firstBuildId mem stop (noteEnd mem note) := by
  unfold firstBuildId
  rw [notesFrom, if_pos h, List.find?_cons, decide_eq_false hother]

theorem searchRight_of_next {reads : List ℕ} (hlt : note < stop)
    (hturn : noteTurn mem stop note = (.next (noteEnd mem note), reads))
    (hreads : ∀ a ∈ reads, note ≤ a ∧ a < stop) (hfits : noteEnd mem note ≤ stop)
    (hother : ¬ IsBuildId mem note) (hrest : SearchRight mem (noteEnd mem note) stop) :
    SearchRight mem note stop := by
  have hnext := lt_noteEnd mem note
  obtain ⟨turns, result, reads', hrun, hreads', hfound, hin⟩ := hrest
  refine ⟨turns + 1, result, reads ++ reads', ?_, ?_, ?_, fun desc size h => ?_⟩
  · unfold getBuildIdFromNotes
    rw [if_pos hlt, hturn]
    dsimp only
    rw [hrun]
    rfl
  · refine List.forall_mem_append.2 ⟨hreads, fun a ha => ?_⟩
    have hbounds := hreads' a ha
    omega
  · rw [firstBuildId_of_other hfits hother, hfound]
  · have hbounds := hin desc size h
    omega

theorem searchRight_of_sizesFit (hle : start ≤ stop) (hstop : stop < 2 ^ 32)
    (hfit : SizesFit mem start stop) : SearchRight mem start stop := by
  suffices h : ∀ k note, stop - note = k → NoteReached mem stop start note → note ≤ stop →
      SearchRight mem note stop from h _ start rfl .start hle
  intro k
  induction k using Nat.strongRecOn with
  | _ k ih =>
    intro note hk hreached hle
    by_cases hlt : note < stop
    · obtain ⟨hname, hend⟩ := hfit note hreached hlt
      obtain ⟨reads, hreads, hturn⟩ := noteTurn_eq hstop hname hend
      by_cases hlong : stop < noteEnd mem note
      · rw [if_pos hlong] at hturn
        refine ⟨1, .assertFails, reads, ?_, hreads, ?_, nofun⟩
        · unfold getBuildIdFromNotes
          rw [if_pos hlt, hturn]
        · rw [firstBuildId_of_long hlong]
          rfl
      · rw [if_neg hlong] at hturn
        have hfits := not_lt.1 hlong
        by_cases hid : IsBuildId mem note
        · rw [if_pos hid] at hturn
          have hdesc := header_le_descAt mem note
          have hdescEnd := desc_le_noteEnd mem note
          refine ⟨1, .returns (some (descAt mem note, noteDescsz mem note)), reads, ?_, hreads, ?_,
            fun desc size h => ?_⟩
          · unfold getBuildIdFromNotes
            rw [if_pos hlt, hturn]
          · rw [firstBuildId_of_id hfits hid]
            rfl
          · cases h
            omega
        · rw [if_neg hid] at hturn
          have hnext := lt_noteEnd mem note
          exact searchRight_of_next hlt hturn hreads hfits hid
            (ih (stop - noteEnd mem note) (by omega) _ rfl (hreached.next hfits hid) hfits)
    · refine ⟨1, .returns none, [], ?_, nofun, ?_, nofun⟩
      · unfold getBuildIdFromNotes
        rw [if_neg hlt]
      · have hnext := lt_noteEnd mem note
        rw [firstBuildId_of_long (by omega)]
        rfl

/-! ## Sizes that wrap -/

/-- There is no room for a header, and looking for one does not wrap. -/
def AreaShort (start stop : ℕ) : Prop :=
  start = stop ∨ stop < start + sizeofElf32Nhdr ∧ start + sizeofElf32Nhdr < 2 ^ 32

instance (start stop : ℕ) : Decidable (AreaShort start stop) :=
  inferInstanceAs (Decidable (_ ∨ _))

theorem sizesFit_of_areaShort (h : AreaShort start stop) : SizesFit mem start stop := by
  have hsize : sizeofElf32Nhdr = 12 := rfl
  unfold AreaShort at h
  intro note hreached hlt
  cases hreached with
  | start => omega
  | @next note' hreached hfits hother =>
    have hstart : ∀ note, NoteReached mem stop start note → start ≤ note := by
      intro note h
      induction h with
      | start => exact le_rfl
      | next h hfits hother ih => exact ih.trans (lt_noteEnd mem _).le
    have hge := hstart note' hreached
    have hdesc := header_le_descAt mem note'
    have hend := desc_le_noteEnd mem note'
    omega

theorem reads_subset {turns : ℕ} {result : NoteResult} {reads : List ℕ} (hlt : note < stop)
    (hrun : getBuildIdFromNotes mem stop turns note = some (result, reads)) :
    (noteTurn mem stop note).2 ⊆ reads := by
  cases turns with
  | zero => cases hrun
  | succ turns =>
    unfold getBuildIdFromNotes at hrun
    rw [if_pos hlt] at hrun
    split at hrun
    · next hturn =>
      cases hrun
      rw [hturn]
      exact List.Subset.refl _
    · next hturn =>
      cases hrun
      rw [hturn]
      exact List.Subset.refl _
    · next hturn =>
      obtain ⟨r, -, hr⟩ := Option.map_eq_some_iff.1 hrun
      cases hr
      rw [hturn]
      exact List.subset_append_left _ _

theorem not_searchRight_of_read (hlt : start < stop) (ha : a ∈ (noteTurn mem stop start).2)
    (hout : ¬ (start ≤ a ∧ a < stop)) : ¬ SearchRight mem start stop := by
  rintro ⟨turns, result, reads, hrun, hin, -, -⟩
  exact hout (hin a (reads_subset hlt hrun ha))

theorem sizes_subset (hname : (note + sizeofElf32Nhdr) % 2 ^ 32 ≤ stop) :
    bytesRead note 8 ⊆ (noteTurn mem stop note).2 := by
  intro a ha
  unfold noteTurn
  dsimp only
  rw [if_neg (not_not.2 hname)]
  split_ifs <;> simp [ha]

/-- The type is read once the second assertion holds, which it does near the end of the address
space. -/
theorem type_subset (hname : (note + sizeofElf32Nhdr) % 2 ^ 32 ≤ stop) (hend : 2 ^ 32 - 4 ≤ stop) :
    bytesRead (note + 8) 4 ⊆ (noteTurn mem stop note).2 := by
  have halign (v : ℕ) : noteAlign v ≤ 2 ^ 32 - 4 := by
    unfold noteAlign
    omega
  intro a ha
  unfold noteTurn
  dsimp only
  rw [if_neg (not_not.2 hname), if_neg (not_not.2 ((halign _).trans hend))]
  split_ifs <;> simp [ha]

theorem not_searchRight_of_end (hlt : start < stop) (hstop : stop < 2 ^ 32)
    (hwrap : 2 ^ 32 ≤ start + 12) : ¬ SearchRight mem start stop := by
  have hname : (start + sizeofElf32Nhdr) % 2 ^ 32 ≤ stop := by
    have hsize : sizeofElf32Nhdr = 12 := rfl
    omega
  by_cases hshort : stop < start + 8
  · apply not_searchRight_of_read (a := (start + 7) % 2 ^ 32) hlt ?_ (by omega)
    exact sizes_subset hname (mem_bytesRead.2 ⟨7, by decide, rfl⟩)
  · apply not_searchRight_of_read (a := (start + 11) % 2 ^ 32) hlt ?_ (by omega)
    exact type_subset hname (by omega) (mem_bytesRead.2 ⟨3, by decide, rfl⟩)

/-- A note whose name has so many bytes that the next note is at 0. -/
def noteToZero (start : ℕ) : ℕ → UInt8 :=
  write (fun _ => 0) start (leBytes 4 (2 ^ 32 - (start + 12)))

theorem noteTurn_toZero (hroom : start + 12 ≤ stop) (hstop : stop < 2 ^ 32) :
    (noteTurn (noteToZero start) stop start).1 = .next 0 := by
  have hwrapped {i : ℕ} (hlow : start ≤ i) (hi : i < start + 12) :
      wrapped (noteToZero start) i = noteToZero start i := by
    unfold wrapped
    rw [Nat.mod_eq_of_lt (by omega)]
  have hnamesz : noteNamesz (noteToZero start) start = 2 ^ 32 - (start + 12) := by
    apply wordAt_of_holds ?_ (by omega)
    exact (holds_write _ _ _).congr fun i hlow hi => hwrapped hlow (by
      rw [length_leBytes] at hi
      omega)
  have hzero {k : ℕ} (hk : 4 ≤ k) (hk' : k ≤ 8) :
      wordAt (wrapped (noteToZero start)) 4 (start + k) = 0 := by
    apply wordAt_of_holds ?_ (by decide)
    apply holds_iff.2
    intro i hi
    rw [length_leBytes] at hi
    rw [hwrapped (by omega) (by omega), noteToZero, write_eq_of_out (by
      rw [length_leBytes]
      omega)]
    exact (by decide : ∀ i < 4, (leBytes 4 0)[i]? = some 0) i hi
  have hdescsz : noteDescsz (noteToZero start) start = 0 := hzero (by decide) (by decide)
  have htype : noteType (noteToZero start) start = 0 := hzero (by decide) (by decide)
  have hname : (start + sizeofElf32Nhdr) % 2 ^ 32 = start + 12 :=
    Nat.mod_eq_of_lt (hroom.trans_lt hstop)
  have hsum : (start + 12 + (2 ^ 32 - (start + 12))) % 2 ^ 32 = 0 := by omega
  have hkind : ¬ (noteType (noteToZero start) start = ntGnuBuildId ∧
      noteNamesz (noteToZero start) start = elfNoteGnu.length) := fun h => by
    rw [htype] at h
    exact absurd h.1 (by decide)
  unfold noteTurn
  dsimp only
  rw [hname, if_neg (not_not.2 hroom), if_neg ?_, if_neg hkind, hnamesz, hdescsz, hsum]
  · rfl
  · rw [hnamesz, hdescsz, hsum]
    exact not_not.2 (Nat.zero_le _)

theorem not_searchRight_toZero (hroom : start + 12 ≤ stop) (hstop : stop < 2 ^ 32) :
    ¬ SearchRight (noteToZero start) start stop := by
  have hturn := noteTurn_toZero hroom hstop
  have hlt : start < stop := by omega
  rcases Nat.eq_zero_or_pos start with rfl | hpos
  · -- The note is its own next.
    have hnever (turns : ℕ) : getBuildIdFromNotes (noteToZero 0) stop turns 0 = none := by
      induction turns with
      | zero => rfl
      | succ turns ih =>
        unfold getBuildIdFromNotes
        rw [if_pos hlt, ← Prod.mk.eta (p := noteTurn (noteToZero 0) stop 0), hturn]
        dsimp only
        rw [ih]
        rfl
    rintro ⟨turns, result, reads, hrun, -⟩
    rw [hnever] at hrun
    cases hrun
  · -- The bytes at 0 are not in the area.
    rintro ⟨turns, result, reads, hrun, hin, -⟩
    cases turns with
    | zero => cases hrun
    | succ turns =>
      unfold getBuildIdFromNotes at hrun
      rw [if_pos hlt, ← Prod.mk.eta (p := noteTurn (noteToZero start) stop start), hturn] at hrun
      obtain ⟨r, hr, heq⟩ := Option.map_eq_some_iff.1 hrun
      cases heq
      have hmem : 0 ∈ (noteTurn (noteToZero start) stop 0).2 := by
        have hname : (0 + sizeofElf32Nhdr) % 2 ^ 32 ≤ stop := by
          have hsize : sizeofElf32Nhdr = 12 := rfl
          omega
        exact sizes_subset hname (mem_bytesRead.2 ⟨0, by decide, rfl⟩)
      have hbounds := hin 0 (List.mem_append_right _ (reads_subset (by omega) hr hmem))
      omega

/-- The search is right for all contents of an area exactly when the area is too short for a note;
and in any area it is right for the contents whose sizes do not wrap. -/
theorem search_right_iff (start stop : ℕ) (hle : start ≤ stop) (hstop : stop < 2 ^ 32) :
    ((∀ mem, SearchRight mem start stop) ↔ AreaShort start stop) ∧
      ∀ mem, SizesFit mem start stop → SearchRight mem start stop := by
  refine ⟨⟨fun h => ?_, fun h mem => ?_⟩, fun mem => searchRight_of_sizesFit hle hstop⟩
  · by_contra hlong
    have hsize : sizeofElf32Nhdr = 12 := rfl
    unfold AreaShort at hlong
    by_cases hwrap : 2 ^ 32 ≤ start + 12
    · exact not_searchRight_of_end (by omega) hstop hwrap (h fun _ => 0)
    · exact not_searchRight_toZero (by omega) hstop (h _)
  · exact searchRight_of_sizesFit hle hstop (sizesFit_of_areaShort h)

theorem search_right_iff_page :
    ((∀ mem, SearchRight mem 0x10000 0x20000) ↔ AreaShort 0x10000 0x20000) ∧
      ∀ mem, SizesFit mem 0x10000 0x20000 → SearchRight mem 0x10000 0x20000 :=
  search_right_iff 0x10000 0x20000 (by decide) (by decide)

/-- An area with one note, whose name has 2³² - 12 bytes: it is its own next. -/
theorem not_search_right_loop :
    let mem := write (fun _ => 0) 0x1000 (leBytes 4 (2 ^ 32 - 12))
    (∀ turns, getBuildIdFromNotes mem 0x1010 turns 0x1000 = none) ∧
      ¬ SearchRight mem 0x1000 0x1010 := by
  intro mem
  have hturn : noteTurn mem 0x1010 0x1000 =
      (.next 0x1000, bytesRead 0x1000 8 ++ bytesRead 0x1008 4) := by decide +kernel
  have hnever (turns : ℕ) : getBuildIdFromNotes mem 0x1010 turns 0x1000 = none := by
    induction turns with
    | zero => rfl
    | succ turns ih =>
      unfold getBuildIdFromNotes
      rw [if_pos (by decide), hturn]
      dsimp only
      rw [ih]
      rfl
  refine ⟨hnever, ?_⟩
  rintro ⟨turns, result, reads, hrun, -⟩
  rw [hnever] at hrun
  cases hrun

end

end SandboxingNaCl
