import SandboxingNaCl.Lib.ByteImage
import SandboxingNaCl.Lib.Runs

/-!
# Directory streams

`linux/nacl_host_dir.c`: the records that the host's `getdents` gives are buffered, and copied one
after another to the buffers of the caller in the format of untrusted code.
-/

namespace SandboxingNaCl

open Patches ByteImage Runs

/-! ## The host -/

/-- `struct linux_dirent`.  The record has room for the name with its NUL, and fits a buffer of
`NACL_DIRENT_BUF_BYTES`. -/
structure LinuxDirent where
  (ino off reclen : ℕ)
  name : List UInt8
  noNul : 0 ∉ name
  length_le : name.length ≤ 255
  lt_reclen : name.length < reclen
  reclen_le : reclen ≤ 4096

def naclDirentBufBytes : ℕ := 4096

/-- What the host's `getdents` does in a call. -/
inductive GetdentsAnswer
  | error (errno : ℕ) (ne : errno ≠ 0)
  /-- It gives one entry and up to this many more, as far as they fit. -/
  | batch (more : ℕ)

/-- The entries that fit in the rest of the buffer, at most `n` of them. -/
def fitting : ℕ → ℕ → List LinuxDirent → List LinuxDirent
  | _, 0, _ | _, _, [] => []
  | room, n + 1, e :: es =>
    if e.reclen ≤ room then e :: fitting (room - e.reclen) n es else []

def linuxSize (es : List LinuxDirent) : ℕ := (es.map LinuxDirent.reclen).sum

/-- The host errnos that `NaClXlateErrno` knows; they have the same values in the sandbox. -/
def isMappedErrno (errnum : ℤ) : Bool :=
  1 ≤ errnum ∧ errnum ≤ 131 ∧
    errnum ∉ [15, 26, 41, 58, 85, 86, 117, 118, 119, 120, 121, 124, 126, 127, 128, 129]

def naclAbiEinval : ℤ := 22

def naclXlateErrno (errnum : ℤ) : ℤ :=
  if errnum = 0 then 0 else if isMappedErrno errnum then errnum else naclAbiEinval

/-! ## The directory object -/

/-- `struct NaClHostDir`, with the records that lie in `dirent_buf`. -/
structure NaClHostDir where
  (curByte nbytes : ℕ)
  direntBuf : List LinuxDirent

/-- The object, the number of the next entry the host will give, the number of calls of `getdents`
and the memory of the caller. -/
structure DirWorld where
  d : NaClHostDir
  pos : ℕ
  calls : ℕ
  mem : ℕ → UInt8

inductive HostDirFault
  /-- A `CHECK` that is false. -/
  | checkFailed
  | noRecord
  | outOfFuel

def naclHostDirCtor : NaClHostDir where
  curByte := 0
  nbytes := 0
  direntBuf := []

/-- The record at an offset in the buffer. -/
def recordAt : List LinuxDirent → ℕ → Option LinuxDirent
  | [], _ => none
  | e :: es, offset =>
    if offset = 0 then some e else if offset < e.reclen then none else recordAt es (offset - e.reclen)

/-- `sizeof (nacl_abi_ino_t)`. -/
def sizeofInoT : ℕ := 8

/-- `offsetof (struct nacl_abi_dirent, nacl_abi_d_name)`. -/
def offsetofDName : ℕ := 18

def LinuxDirent.adjustedSize (ldp : LinuxDirent) : ℕ :=
  (offsetofDName + ldp.name.length + 1 + (sizeofInoT - 1)) / sizeofInoT * sizeofInoT

/-- The `nacl_abi_dirent` that is stored for a record, without the padding behind it. -/
def LinuxDirent.abiBytes (ldp : LinuxDirent) : List UInt8 :=
  leBytes 8 ldp.ino ++ leBytes 8 ldp.off ++ leBytes 2 ldp.adjustedSize ++ ldp.name ++ [0]

def naclCopyDirent (w : DirWorld) (buf len : ℕ) : Except HostDirFault (ℤ × DirWorld) :=
  let d := w.d
  if buf % sizeofInoT ≠ 0 then .error .checkFailed
  else if d.curByte = d.nbytes then .ok (0, w)
  else if ¬ d.curByte < d.nbytes then .error .checkFailed
  else
    match recordAt d.direntBuf d.curByte with
    | none => .error .noRecord
    | some ldp =>
      if ¬ ldp.reclen ≤ d.nbytes - d.curByte then .error .checkFailed
      else if len < ldp.adjustedSize then .ok (-naclAbiEinval, w)
      else
        .ok (ldp.adjustedSize, { w with
          mem := write w.mem buf ldp.abiBytes
          d := { d with curByte := d.curByte + ldp.reclen } })

/-- The host's `getdents` into `dirent_buf`. -/
def DirWorld.getdents (host : ℕ → GetdentsAnswer) (dir : List LinuxDirent) (w : DirWorld) :
    Except ℕ ℕ × DirWorld :=
  match host w.calls with
  | .error errno _ => (.error errno, { w with calls := w.calls + 1 })
  | .batch more =>
    let es := fitting naclDirentBufBytes (more + 1) (dir.drop w.pos)
    (.ok (linuxSize es), { w with
      calls := w.calls + 1
      pos := w.pos + es.length
      d := { w.d with direntBuf := if es = [] then w.d.direntBuf else es } })

/-- The loop of `NaClStreamDirents`.  The first argument bounds the number of rounds. -/
def streamLoop (host : ℕ → GetdentsAnswer) (dir : List LinuxDirent) :
    ℕ → DirWorld → ℕ → ℕ → ℕ → Except HostDirFault (ℤ × DirWorld)
  | 0, _, _, _, _ => .error .outOfFuel
  | fuel + 1, w, buf, len, xferred =>
    if len = 0 then .ok (xferred, w)
    else
      match naclCopyDirent w buf len with
      | .error fault => .error fault
      | .ok (entrySize, w) =>
        if entrySize = 0 then
          if w.d.curByte ≠ w.d.nbytes then .error .checkFailed
          else
            match w.getdents host dir with
            | (.error errno, w) =>
              if 0 < xferred then .ok (xferred, w) else .ok (-naclXlateErrno errno, w)
            | (.ok nbytes, w) =>
              if nbytes = 0 then .ok (xferred, w)
              else
                streamLoop host dir fuel
                  { w with d := { w.d with curByte := 0, nbytes := nbytes } } buf len xferred
        else if entrySize < 0 then
          if 0 < xferred then .ok (xferred, w) else .ok (entrySize, w)
        else if len < entrySize.toNat then .error .checkFailed
        else
          streamLoop host dir fuel w (buf + entrySize.toNat) (len - entrySize.toNat)
            (xferred + entrySize.toNat)

def naclStreamDirents (host : ℕ → GetdentsAnswer) (dir : List LinuxDirent) (w : DirWorld)
    (buf len : ℕ) : Except HostDirFault (ℤ × DirWorld) :=
  streamLoop host dir (2 * len + 2) w buf len 0

/-- `NaClHostDirGetdents`.  The result goes through an `int`. -/
def naclHostDirGetdents (host : ℕ → GetdentsAnswer) (dir : List LinuxDirent) (w : DirWorld)
    (buf len : ℕ) : Except HostDirFault (ℤ × DirWorld) :=
  if buf % sizeofInoT ≠ 0 then .ok (-naclAbiEinval, w)
  else
    match naclStreamDirents host dir w buf len with
    | .error fault => .error fault
    | .ok (retval, w) => .ok (Int.bmod retval (2 ^ 32), w)

/-- `NaClHostDirRewind`; `seeks` says whether `lseek64` succeeds. -/
def naclHostDirRewind (w : DirWorld) (seeks : Bool) : ℤ × DirWorld :=
  if seeks then (-naclXlateErrno 0, { w with pos := 0 }) else (-naclXlateErrno (-1), w)

/-! ## Runs -/

inductive DirCall
  | getdents (buf len : ℕ)
  | rewind (seeks : Bool)

/-- A call that has returned, with the memory before and after it. -/
structure DirReturn where
  call : DirCall
  retval : ℤ
  (before after : ℕ → UInt8)

/-- One call, with what has been returned so far. -/
def dirStep (host : ℕ → GetdentsAnswer) (dir : List LinuxDirent) :
    DirWorld × List DirReturn → DirCall → Except HostDirFault (DirWorld × List DirReturn)
  | (w, rs), .getdents buf len =>
    match naclHostDirGetdents host dir w buf len with
    | .error fault => .error fault
    | .ok (retval, w') => .ok (w', rs ++ [⟨.getdents buf len, retval, w.mem, w'.mem⟩])
  | (w, rs), .rewind seeks =>
    let r := naclHostDirRewind w seeks
    .ok (r.2, rs ++ [⟨.rewind seeks, r.1, w.mem, r.2.mem⟩])

/-! ## What a stream is to give -/

/-- The bytes that records take in the format of untrusted code. -/
def abiSize (es : List LinuxDirent) : ℕ := (es.map LinuxDirent.adjustedSize).sum

/-- The records follow one another from an address on, each aligned and each with its NUL. -/
def RecordsAt (m : ℕ → UInt8) : ℕ → List LinuxDirent → Prop
  | _, [] => True
  | a, e :: es => a % sizeofInoT = 0 ∧ Holds m a e.abiBytes ∧ RecordsAt m (a + e.adjustedSize) es

/-- A call of `NaClHostDirGetdents` returns exactly these entries: inside the caller's buffer, none
where it fails, and none without an error only where none was asked for or none is left. -/
structure ReturnsEntries (buf len : ℕ) (r : DirReturn) (es left : List LinuxDirent) : Prop where
  records : RecordsAt r.after buf es
  outside : ∀ a, a < buf ∨ buf + len ≤ a → r.after a = r.before a
  inside : abiSize es ≤ len
  retval_eq : r.retval = abiSize es ∨ r.retval < 0 ∧ es = []
  at_end : r.retval = 0 → len = 0 ∨ left = []

/-- The returns stream the directory, of which some entries have been delivered since the start or
the last rewind: each call returns the entries that come next, and a rewind goes back to the
start. -/
def StreamsDir (dir : List LinuxDirent) : List LinuxDirent → List DirReturn → Prop
  | _, [] => True
  | delivered, r :: rs =>
    match r.call with
    | .getdents buf len => ∃ es left, dir = delivered ++ es ++ left ∧
        ReturnsEntries buf len r es left ∧ StreamsDir dir (delivered ++ es) rs
    | .rewind seeks =>
      r.after = r.before ∧
        if seeks then r.retval = 0 ∧ StreamsDir dir [] rs
        else r.retval < 0 ∧ StreamsDir dir delivered rs

def recordsFrom : List LinuxDirent → ℕ → List LinuxDirent
  | [], _ => []
  | e :: es, offset => if offset = 0 then e :: es else recordsFrom es (offset - e.reclen)

/-- The entries that are still to be delivered: those in the buffer, and those the host has. -/
def entriesLeft (dir : List LinuxDirent) (w : DirWorld) : List LinuxDirent :=
  recordsFrom w.d.direntBuf w.d.curByte ++ dir.drop w.pos

/-! ## The buffer -/

section

variable {e : LinuxDirent} {es before after : List LinuxDirent} {m : ℕ → UInt8} {a room n : ℕ}

theorem LinuxDirent.reclen_pos (e : LinuxDirent) : 0 < e.reclen := Nat.zero_lt_of_lt e.lt_reclen

theorem linuxSize_append (es es' : List LinuxDirent) :
    linuxSize (es ++ es') = linuxSize es + linuxSize es' := by simp [linuxSize]

theorem linuxSize_pos (h : es ≠ []) : 0 < linuxSize es := by
  obtain ⟨e, es, rfl⟩ := List.exists_cons_of_ne_nil h
  have := e.reclen_pos
  simp only [linuxSize, List.map_cons, List.sum_cons]
  omega

theorem recordsFrom_append (before after : List LinuxDirent) :
    recordsFrom (before ++ after) (linuxSize before) = after := by
  induction before with
  | nil =>
    cases after with
    | nil => rfl
    | cons e es => exact if_pos rfl
  | cons e before ih =>
    have := e.reclen_pos
    simp only [linuxSize, List.map_cons, List.sum_cons] at ih ⊢
    rw [List.cons_append, recordsFrom, if_neg (by omega), Nat.add_sub_cancel_left, ih]

theorem recordAt_eq_head? (es : List LinuxDirent) (before : List LinuxDirent) :
    recordAt (before ++ es) (linuxSize before) = es.head? := by
  induction before with
  | nil =>
    cases es with
    | nil => rfl
    | cons e es => exact if_pos rfl
  | cons e before ih =>
    have := e.reclen_pos
    simp only [linuxSize, List.map_cons, List.sum_cons] at ih ⊢
    rw [List.cons_append, recordAt, if_neg (by omega), if_neg (by omega),
      Nat.add_sub_cancel_left, ih]

theorem fitting_prefix (room n : ℕ) (es : List LinuxDirent) : fitting room n es <+: es := by
  induction n generalizing room es with
  | zero => simp [fitting]
  | succ n ih =>
    cases es with
    | nil => simp [fitting]
    | cons e es =>
      rw [fitting]
      split_ifs
      · exact (List.prefix_cons_inj e).2 (ih _ es)
      · exact List.nil_prefix

theorem fitting_ne_nil (h : es ≠ []) : fitting naclDirentBufBytes (n + 1) es ≠ [] := by
  obtain ⟨e, es, rfl⟩ := List.exists_cons_of_ne_nil h
  rw [fitting, if_pos (show e.reclen ≤ naclDirentBufBytes from e.reclen_le)]
  exact List.cons_ne_nil _ _

theorem LinuxDirent.length_abiBytes (e : LinuxDirent) :
    e.abiBytes.length = offsetofDName + e.name.length + 1 := by
  simp only [abiBytes, List.length_append, length_leBytes, List.length_singleton, offsetofDName]

theorem LinuxDirent.adjustedSize_spec (e : LinuxDirent) :
    e.abiBytes.length ≤ e.adjustedSize ∧ e.adjustedSize % sizeofInoT = 0 ∧ 0 < e.adjustedSize := by
  rw [e.length_abiBytes, adjustedSize]
  simp only [sizeofInoT, offsetofDName]
  omega

/-! ## One record -/

/-- The records that have been read are followed by these ones. -/
def HasUnread (d : NaClHostDir) (after : List LinuxDirent) : Prop :=
  ∃ before, d.direntBuf = before ++ after ∧ d.curByte = linuxSize before ∧
    d.nbytes = linuxSize d.direntBuf

variable {w w' : DirWorld} {buf len : ℕ} {d : NaClHostDir}

theorem HasUnread.nbytes_eq (h : HasUnread d after) : d.nbytes = d.curByte + linuxSize after := by
  obtain ⟨before, hbuf, hcur, hn⟩ := h
  rw [hn, hbuf, linuxSize_append, hcur]

theorem HasUnread.recordsFrom_eq (h : HasUnread d after) : recordsFrom d.direntBuf d.curByte = after := by
  obtain ⟨before, hbuf, hcur, -⟩ := h
  rw [hbuf, hcur, recordsFrom_append]

theorem naclCopyDirent_nil (h : HasUnread w.d []) (hbuf : buf % sizeofInoT = 0) :
    naclCopyDirent w buf len = .ok (0, w) ∧ w.d.curByte = w.d.nbytes := by
  have heq : w.d.curByte = w.d.nbytes := h.nbytes_eq.symm
  refine ⟨?_, heq⟩
  unfold naclCopyDirent
  dsimp only
  rw [if_neg (not_not.2 hbuf), if_pos heq]

/-- The world after a record has been copied. -/
def DirWorld.copied (w : DirWorld) (buf : ℕ) (e : LinuxDirent) : DirWorld :=
  { w with
    mem := write w.mem buf e.abiBytes
    d := { w.d with curByte := w.d.curByte + e.reclen } }

theorem naclCopyDirent_cons (h : HasUnread w.d (e :: after)) (hbuf : buf % sizeofInoT = 0) :
    naclCopyDirent w buf len =
      if len < e.adjustedSize then .ok (-naclAbiEinval, w)
      else .ok (e.adjustedSize, w.copied buf e) := by
  have hn := h.nbytes_eq
  have hpos := e.reclen_pos
  obtain ⟨before, hrecords, hcur, -⟩ := h
  have hrecord : recordAt w.d.direntBuf w.d.curByte = some e := by
    rw [hrecords, hcur, recordAt_eq_head?, List.head?_cons]
  simp only [linuxSize, List.map_cons, List.sum_cons] at hn
  unfold naclCopyDirent
  dsimp only
  rw [if_neg (not_not.2 hbuf), if_neg (by omega), if_neg (by omega), hrecord]
  dsimp only
  rw [if_neg (by omega)]
  rfl

theorem HasUnread.copied (h : HasUnread w.d (e :: after)) (buf : ℕ) : HasUnread (w.copied buf e).d after := by
  obtain ⟨before, hrecords, hcur, hn⟩ := h
  refine ⟨before ++ [e], ?_, ?_, hn⟩
  · rw [List.append_assoc]
    exact hrecords
  · rw [linuxSize_append]
    change w.d.curByte + e.reclen = _
    rw [hcur]
    rfl

theorem RecordsAt.cons (haligned : buf % sizeofInoT = 0) (hholds : Holds m buf e.abiBytes)
    (hrest : RecordsAt m (buf + e.adjustedSize) es) : RecordsAt m buf (e :: es) :=
  ⟨haligned, hholds, hrest⟩

/-! ## The loop -/

/-- The entries that are left, in the buffer and with the host. -/
def HasLeft (dir : List LinuxDirent) (w : DirWorld) (left : List LinuxDirent) : Prop :=
  ∃ after, HasUnread w.d after ∧ left = after ++ dir.drop w.pos

variable {host : ℕ → GetdentsAnswer} {dir left : List LinuxDirent}

theorem HasLeft.eq (h : HasLeft dir w left) : left = entriesLeft dir w := by
  obtain ⟨after, hunread, rfl⟩ := h
  rw [entriesLeft, hunread.recordsFrom_eq]

/-- What the loop does from a memory: it delivers the entries `es` and leaves `left`. -/
structure LoopDelivers (dir : List LinuxDirent) (m : ℕ → UInt8) (buf len xferred : ℕ)
    (r : ℤ × DirWorld) (es left : List LinuxDirent) : Prop where
  leaves : HasLeft dir r.2 left
  records : RecordsAt r.2.mem buf es
  outside : ∀ a, a < buf ∨ buf + len ≤ a → r.2.mem a = m a
  inside : abiSize es ≤ len
  retval_eq : r.1 = xferred + abiSize es ∨ r.1 < 0 ∧ es = [] ∧ xferred = 0
  retval_ge : -(2 ^ 31) ≤ r.1
  at_end : r.1 = 0 → len = 0 ∨ left = []

theorem LoopDelivers.stop {xferred : ℕ} (hleft : HasLeft dir w left) (hmem : w.mem = m)
    (hend : xferred = 0 → len = 0 ∨ left = []) :
    LoopDelivers dir m buf len xferred (xferred, w) [] left where
  leaves := hleft
  records := trivial
  outside a _ := congrFun hmem a
  inside := Nat.zero_le _
  retval_eq := Or.inl (by simp [abiSize])
  retval_ge := by
    dsimp only
    omega
  at_end h := hend (by simpa using h)

theorem LoopDelivers.fail {errno : ℤ} (hleft : HasLeft dir w left) (hmem : w.mem = m)
    (hpos : 0 < errno) (hle : errno ≤ 131) :
    LoopDelivers dir m buf len 0 (-errno, w) [] left where
  leaves := hleft
  records := trivial
  outside a _ := congrFun hmem a
  inside := Nat.zero_le _
  retval_eq := Or.inr ⟨by dsimp only; omega, rfl, rfl⟩
  retval_ge := by
    dsimp only
    omega
  at_end h := by
    dsimp only at h
    omega

theorem LoopDelivers.copied {xferred : ℕ} {r : ℤ × DirWorld} (haligned : buf % sizeofInoT = 0)
    (hfits : e.adjustedSize ≤ len)
    (h : LoopDelivers dir (write m buf e.abiBytes) (buf + e.adjustedSize) (len - e.adjustedSize)
      (xferred + e.adjustedSize) r es left) :
    LoopDelivers dir m buf len xferred r (e :: es) left := by
  have hspec := e.adjustedSize_spec
  have hsize : abiSize (e :: es) = e.adjustedSize + abiSize es := by simp [abiSize]
  have hinside := h.inside
  have hretval : r.1 = xferred + e.adjustedSize + abiSize es := by
    rcases h.retval_eq with heq | ⟨-, -, hzero⟩
    · exact_mod_cast heq
    · omega
  exact
    { leaves := h.leaves
      records := .cons haligned ((holds_write m buf e.abiBytes).congr fun i hle hlt =>
        h.outside i (by omega)) h.records
      outside := fun i hi => by
        rw [h.outside i (by omega)]
        exact write_eq_of_out (by omega)
      inside := by omega
      retval_eq := Or.inl (by omega)
      retval_ge := h.retval_ge
      at_end := fun hzero => by omega }

theorem naclXlateErrno_spec {errnum : ℤ} (h : errnum ≠ 0) :
    0 < naclXlateErrno errnum ∧ naclXlateErrno errnum ≤ 131 := by
  unfold naclXlateErrno
  rw [if_neg h]
  split_ifs with hmapped
  · obtain ⟨hge, hle, -⟩ := of_decide_eq_true hmapped
    exact ⟨hge, hle⟩
  · decide

def DirWorld.refilled (w : DirWorld) (nbytes : ℕ) : DirWorld :=
  { w with d := { w.d with curByte := 0, nbytes := nbytes } }

/-- With an empty buffer the host gives an error, says that the directory is at its end, or gives
the entries that come next. -/
theorem getdents_spec (host : ℕ → GetdentsAnswer) (h : HasUnread w.d []) :
    (∃ errno w', errno ≠ 0 ∧ w.getdents host dir = (.error errno, w') ∧
      HasLeft dir w' (dir.drop w.pos) ∧ w'.mem = w.mem) ∨
    (∃ w', w.getdents host dir = (.ok 0, w') ∧
      HasLeft dir w' (dir.drop w.pos) ∧ dir.drop w.pos = [] ∧ w'.mem = w.mem) ∨
    ∃ nbytes w', nbytes ≠ 0 ∧ w.getdents host dir = (.ok nbytes, w') ∧
      HasLeft dir (w'.refilled nbytes) (dir.drop w.pos) ∧ w'.mem = w.mem := by
  unfold DirWorld.getdents
  cases hhost : host w.calls with
  | error errno hne => exact Or.inl ⟨errno, _, hne, rfl, ⟨[], h, rfl⟩, rfl⟩
  | batch more =>
    right
    dsimp only
    obtain ⟨es, hes⟩ :
      ∃ es, es = fitting naclDirentBufBytes (more + 1) (dir.drop w.pos) := ⟨_, rfl⟩
    rw [← hes]
    by_cases hnil : es = []
    · left
      have hend : dir.drop w.pos = [] :=
        by_contra fun hne => fitting_ne_nil hne (hes.symm.trans hnil)
      rw [hnil, if_pos rfl]
      exact ⟨_, rfl, ⟨[], h, rfl⟩, hend, rfl⟩
    · right
      rw [if_neg hnil]
      refine ⟨_, _, (linuxSize_pos hnil).ne', rfl, ⟨es, ⟨[], rfl, rfl, rfl⟩, ?_⟩, rfl⟩
      -- the batch and what is behind it are what was left
      obtain ⟨behind, hbehind⟩ := fitting_prefix naclDirentBufBytes (more + 1) (dir.drop w.pos)
      rw [← hes] at hbehind
      have hdrop : dir.drop (w.pos + es.length) = behind := by
        rw [← List.drop_drop, ← hbehind, List.drop_left]
      exact (congrArg (es ++ ·) hdrop).trans hbehind |>.symm

theorem streamLoop_spec (host : ℕ → GetdentsAnswer) {fuel xferred : ℕ} (h : HasLeft dir w left)
    (hbuf : buf % sizeofInoT = 0)
    (hfuel : 2 * len + (if w.d.curByte = w.d.nbytes then 1 else 0) < fuel) :
    ∃ r es left', streamLoop host dir fuel w buf len xferred = .ok r ∧ left = es ++ left' ∧
      LoopDelivers dir w.mem buf len xferred r es left' := by
  induction fuel generalizing w buf len xferred left with
  | zero => omega
  | succ fuel ih =>
    have hleft := h
    obtain ⟨after, hunread, rfl⟩ := h
    rw [streamLoop]
    by_cases hlen : len = 0
    · rw [if_pos hlen]
      exact ⟨_, [], _, rfl, rfl, .stop hleft rfl fun _ => Or.inl hlen⟩
    rw [if_neg hlen]
    cases after with
    | nil =>
      obtain ⟨hcopy, hempty⟩ := @naclCopyDirent_nil w buf len hunread hbuf
      rw [hcopy]
      dsimp only
      rw [if_pos rfl, if_neg (not_not.2 hempty)]
      rw [if_pos hempty] at hfuel
      rcases getdents_spec host hunread with ⟨errno, w', hne, hget, hleft', hmem⟩ |
        ⟨w', hget, hleft', hend, hmem⟩ | ⟨nbytes, w', hne, hget, hleft', hmem⟩
      · rw [hget]
        dsimp only
        have herrno := @naclXlateErrno_spec errno (Int.natCast_ne_zero.2 hne)
        split_ifs with hx
        · exact ⟨_, [], _, rfl, rfl, .stop hleft' hmem fun hzero => by omega⟩
        · obtain rfl : xferred = 0 := by omega
          exact ⟨_, [], _, rfl, rfl, .fail hleft' hmem herrno.1 herrno.2⟩
      · rw [hget]
        exact ⟨_, [], _, rfl, rfl, .stop hleft' hmem fun _ => Or.inr hend⟩
      · rw [hget]
        dsimp only
        rw [if_neg hne]
        obtain ⟨r, es, left', hrun, hes, hdelivers⟩ := @ih _ buf len _ xferred hleft' hbuf
          (by rw [if_neg (fun heq => hne heq.symm)]; omega)
        exact ⟨r, es, left', hrun, hes, hmem ▸ hdelivers⟩
    | cons e after =>
      have hne : ¬ w.d.curByte = w.d.nbytes := by
        have := hunread.nbytes_eq
        have := linuxSize_pos (List.cons_ne_nil e after)
        omega
      rw [if_neg hne] at hfuel
      have hsize := e.adjustedSize_spec
      have haligned : (buf + e.adjustedSize) % sizeofInoT = 0 := by
        rw [Nat.add_mod, hbuf, hsize.2.1]
        rfl
      rw [naclCopyDirent_cons hunread hbuf]
      by_cases hfits : len < e.adjustedSize
      · rw [if_pos hfits]
        dsimp only
        rw [if_neg (by decide), if_pos (by decide)]
        split_ifs with hx
        · exact ⟨_, [], _, rfl, rfl, .stop hleft rfl fun hzero => by omega⟩
        · obtain rfl : xferred = 0 := by omega
          exact ⟨_, [], _, rfl, rfl, .fail hleft rfl (by decide) (by decide)⟩
      · rw [if_neg hfits]
        dsimp only
        rw [if_neg (by omega), if_neg (by omega), Int.toNat_natCast, if_neg hfits]
        have hcopied : HasLeft dir (w.copied buf e) (after ++ dir.drop w.pos) :=
          ⟨after, hunread.copied buf, rfl⟩
        obtain ⟨r, es, left', hrun, hes, hdelivers⟩ := @ih (w.copied buf e)
          (buf + e.adjustedSize) (len - e.adjustedSize) _ (xferred + e.adjustedSize) hcopied
          haligned (by split_ifs <;> omega)
        refine ⟨r, e :: es, left', hrun, ?_, hdelivers.copied hbuf (not_lt.1 hfits)⟩
        rw [List.cons_append, hes, List.cons_append]

/-! ## Calls and runs -/

/-- The call does not come to what the code gets wrong: the records of a call are fewer than `2 ^ 31`
bytes, and the object is rewound with an empty buffer. -/
def DirReady (dir : List LinuxDirent) (w : DirWorld) : DirCall → Prop
  | .getdents _ len => min len (abiSize (entriesLeft dir w)) < 2 ^ 31
  | .rewind seeks => seeks = true → w.d.curByte = w.d.nbytes

instance (dir : List LinuxDirent) (w : DirWorld) (call : DirCall) : Decidable (DirReady dir w call) :=
  match call with
  | .getdents _ len => inferInstanceAs (Decidable (min len (abiSize (entriesLeft dir w)) < 2 ^ 31))
  | .rewind seeks => inferInstanceAs (Decidable (seeks = true → w.d.curByte = w.d.nbytes))

theorem abiSize_append (es es' : List LinuxDirent) :
    abiSize (es ++ es') = abiSize es + abiSize es' := by simp [abiSize]

theorem naclHostDirGetdents_spec (host : ℕ → GetdentsAnswer) (h : HasLeft dir w left)
    (hready : DirReady dir w (.getdents buf len)) :
    ∃ retval w' es left', naclHostDirGetdents host dir w buf len = .ok (retval, w') ∧
      left = es ++ left' ∧ HasLeft dir w' left' ∧
      ReturnsEntries buf len ⟨.getdents buf len, retval, w.mem, w'.mem⟩ es left' := by
  unfold naclHostDirGetdents naclStreamDirents
  by_cases hbuf : buf % sizeofInoT = 0
  · rw [if_neg (not_not.2 hbuf)]
    obtain ⟨⟨retval, w'⟩, es, left', hrun, hes, hdelivers⟩ :=
      @streamLoop_spec w buf len dir left host (2 * len + 2) 0 h hbuf (by split_ifs <;> omega)
    rw [hrun]
    rw [DirReady, ← h.eq, hes, abiSize_append] at hready
    have hinside := hdelivers.inside
    have hge := hdelivers.retval_ge
    have hretval := hdelivers.retval_eq
    dsimp only at hge hretval
    -- the result fits the `int` it goes through
    have hint : Int.bmod retval (2 ^ 32) = retval := by
      apply Int.bmod_eq_of_le <;> omega
    refine ⟨_, w', es, left', rfl, hes, hdelivers.leaves, ?_⟩
    rw [hint]
    exact
      { records := hdelivers.records
        outside := hdelivers.outside
        inside := hinside
        retval_eq := by
          rcases hretval with heq | ⟨hneg, hnil, -⟩
          · exact Or.inl (by simpa using heq)
          · exact Or.inr ⟨hneg, hnil⟩
        at_end := hdelivers.at_end }
  · rw [if_pos hbuf]
    exact ⟨_, w, [], left, rfl, rfl, h,
      { records := trivial
        outside := fun _ _ => rfl
        inside := Nat.zero_le _
        retval_eq := Or.inr ⟨show -naclAbiEinval < 0 by decide, rfl⟩
        at_end := fun hzero => absurd hzero (show -naclAbiEinval ≠ 0 by decide) }⟩

theorem HasLeft.rewind (h : HasLeft dir w left) (hempty : w.d.curByte = w.d.nbytes) :
    HasLeft dir { w with pos := 0 } dir := by
  obtain ⟨after, hunread, -⟩ := h
  obtain rfl : after = [] := by
    by_contra hne
    have hn := hunread.nbytes_eq
    have hpos := linuxSize_pos hne
    omega
  exact ⟨[], hunread, rfl⟩

theorem foldlM_dirStep_cons {call : DirCall} {calls : List DirCall} {rs rs' : List DirReturn}
    {r : DirReturn} {w₁ : DirWorld} (hstep : dirStep host dir (w, rs) call = .ok (w₁, rs ++ [r]))
    (hrun : calls.foldlM (dirStep host dir) (w₁, rs ++ [r]) = .ok (w', rs ++ [r] ++ rs')) :
    (call :: calls).foldlM (dirStep host dir) (w, rs) = .ok (w', rs ++ r :: rs') := by
  rw [List.foldlM_cons, hstep, List.append_cons rs r rs']
  exact hrun

theorem streams_of_left (host : ℕ → GetdentsAnswer) {calls : List DirCall}
    {delivered : List LinuxDirent} (rs : List DirReturn) (h : HasLeft dir w left)
    (hdir : dir = delivered ++ left)
    (hcalls : Guarded (dirStep host dir) (fun s => DirReady dir s.1) (w, rs) calls) :
    ∃ w' rs', calls.foldlM (dirStep host dir) (w, rs) = .ok (w', rs ++ rs') ∧
      StreamsDir dir delivered rs' := by
  induction calls generalizing w rs delivered left with
  | nil => exact ⟨w, [], by rw [List.append_nil]; rfl, trivial⟩
  | cons call calls ih =>
    cases call with
    | getdents buf len =>
      obtain ⟨retval, w₁, es, left₁, hget, rfl, hleft₁, hreturns⟩ :=
        naclHostDirGetdents_spec host h hcalls.1
      have hstep : dirStep host dir (w, rs) (.getdents buf len) =
          .ok (w₁, rs ++ [⟨.getdents buf len, retval, w.mem, w₁.mem⟩]) := by
        simp only [dirStep, hget]
      rw [← List.append_assoc] at hdir
      obtain ⟨w', rs', hrun, hstreams⟩ := ih _ hleft₁ hdir (hcalls.2 _ hstep)
      exact ⟨w', _, foldlM_dirStep_cons hstep hrun, es, left₁, hdir, hreturns, hstreams⟩
    | rewind seeks =>
      cases seeks with
      | false =>
        have hstep : dirStep host dir (w, rs) (.rewind false) =
            .ok (w, rs ++ [⟨.rewind false, -naclAbiEinval, w.mem, w.mem⟩]) := rfl
        obtain ⟨w', rs', hrun, hstreams⟩ := ih _ h hdir (hcalls.2 _ hstep)
        exact ⟨w', _, foldlM_dirStep_cons hstep hrun, rfl,
          show -naclAbiEinval < 0 by decide, hstreams⟩
      | true =>
        have hstep : dirStep host dir (w, rs) (.rewind true) =
            .ok ({ w with pos := 0 }, rs ++ [⟨.rewind true, 0, w.mem, w.mem⟩]) := rfl
        have hleft₁ := h.rewind (hcalls.1 rfl)
        obtain ⟨w', rs', hrun, hstreams⟩ :=
          @ih _ _ [] _ hleft₁ (List.nil_append dir).symm (hcalls.2 _ hstep)
        exact ⟨w', _, foldlM_dirStep_cons hstep hrun, rfl, rfl, hstreams⟩

def DirWorld.opened (mem : ℕ → UInt8) : DirWorld := ⟨naclHostDirCtor, 0, 0, mem⟩

/-- In every run whose calls do not come to what the code gets wrong, the directory is streamed. -/
theorem streams_of_guarded (host : ℕ → GetdentsAnswer) (dir : List LinuxDirent) (mem : ℕ → UInt8)
    (calls : List DirCall)
    (hcalls : Guarded (dirStep host dir) (fun s => DirReady dir s.1) (.opened mem, []) calls) :
    ∃ w rs, calls.foldlM (dirStep host dir) (.opened mem, []) = .ok (w, rs) ∧
      StreamsDir dir [] rs :=
  streams_of_left host [] ⟨[], ⟨[], rfl, rfl, rfl⟩, rfl⟩ rfl hcalls

/-- A directory with the files `a` and `b`. -/
def smallDir : List LinuxDirent :=
  [⟨1, 1, 24, [0x61], by decide, by decide, by decide, by decide⟩,
    ⟨2, 2, 24, [0x62], by decide, by decide, by decide, by decide⟩]

/-- Read to its end the directory is rewound to its first entry. -/
theorem streams_smallDir :
    ∃ w rs, [.getdents 0x1000 100, .rewind true, .getdents 0x1000 24].foldlM
        (dirStep (fun _ => .batch 7) smallDir) (.opened fun _ => 0, []) = .ok (w, rs) ∧
      StreamsDir smallDir [] rs :=
  streams_of_guarded (fun _ => .batch 7) smallDir (fun _ => 0)
    [.getdents 0x1000 100, .rewind true, .getdents 0x1000 24] (.of_check (by decide +kernel))

theorem first_of_streams {r : DirReturn} {rs : List DirReturn}
    (h : StreamsDir smallDir [] (r :: rs)) (hcall : r.call = .getdents buf len)
    (hretval : r.retval = 24) : r.after buf = 1 := by
  rw [StreamsDir, hcall] at h
  obtain ⟨es, left, hdir, hreturns, -⟩ := h
  have hsize : (24 : ℤ) = abiSize es := by
    rcases hreturns.retval_eq with heq | ⟨hneg, -⟩ <;> omega
  cases es with
  | nil => cases hsize
  | cons e es =>
    obtain ⟨rfl, -⟩ := List.cons.inj hdir
    have hfirst := holds_iff.1 hreturns.records.2.1 0 (by decide)
    rw [Nat.add_zero] at hfirst
    exact (Option.some.inj hfirst).symm

/-- Rewound after one entry of a batch of two, the stream goes on with the second one. -/
theorem not_streams_after_rewind :
    ∃ w rs, [.getdents 0x1000 24, .rewind true, .getdents 0x1000 24].foldlM
        (dirStep (fun _ => .batch 7) smallDir) (.opened fun _ => 0, []) = .ok (w, rs) ∧
      ¬ StreamsDir smallDir [] rs := by
  obtain ⟨⟨w, rs⟩, hrun, r₁, r₂, r₃, rfl, hcall₁, hcall₂, hcall₃, hretval, hafter⟩ :
      ∃ s : DirWorld × List DirReturn, [.getdents 0x1000 24, .rewind true, .getdents 0x1000 24].foldlM
          (dirStep (fun _ => .batch 7) smallDir) (.opened fun _ => 0, []) = .ok s ∧
        ∃ r₁ r₂ r₃, s.2 = [r₁, r₂, r₃] ∧ r₁.call = .getdents 0x1000 24 ∧ r₂.call = .rewind true ∧
          r₃.call = .getdents 0x1000 24 ∧ r₃.retval = 24 ∧ r₃.after 0x1000 = 2 :=
    ⟨_, rfl, _, _, _, rfl, rfl, rfl, rfl, rfl, rfl⟩
  refine ⟨w, _, hrun, fun hstreams => ?_⟩
  rw [StreamsDir, hcall₁] at hstreams
  obtain ⟨es, left, -, -, hstreams⟩ := hstreams
  rw [StreamsDir, hcall₂] at hstreams
  have hfirst := first_of_streams hstreams.2.2 hcall₃ hretval
  rw [hafter] at hfirst
  cases hfirst

end

end SandboxingNaCl
