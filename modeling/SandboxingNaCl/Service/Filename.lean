import SandboxingNaCl.Lib.LexicalPath
import SandboxingNaCl.Service.App

/-!
# File names under a mounted root

The conversion of path names between the user and the host in `sel_ldr_filename.cc`, with the
canonical form of `filename_util.cc`.  A C string is the list of its bytes, without the NUL.
-/

namespace SandboxingNaCl

open LexicalPath MachineInt

abbrev Path : Type := List UInt8

/-- `'/'`. -/
def slash : UInt8 := 0x2f

/-- `'.'`. -/
def dot : UInt8 := 0x2e

def naclConfigPathMax : ℕ := 1024

/-- The errors the conversions return; `host` are those of the host, translated. -/
inductive PathErrno
  | enoent | eacces | enametoolong | efault
  | host (errno : ℕ)
deriving DecidableEq

/-- What `stat` says of a path. -/
inductive StatResult
  | found
  /-- `ELOOP`, `EOVERFLOW` or `ENOMEM`. -/
  | unexpected
  | failed (errno : ℕ)

/-- The answers of the host.  Its answers to `stat` come in the order of the calls. -/
structure PathHost where
  getcwd : Except ℕ Path
  stat : ℕ → Path → StatResult
  isSymbolicLink : Path → Bool

/-! ## Canonical paths -/

def appendPartsToPath (parts : List Path) (path : Path) : Path :=
  parts.foldl (fun path part => path ++ [slash] ++ part) path

/-- The variables of `CanonicalizeAbsolutePath`. -/
structure Canonicalization where
  parts : List Path
  requiredSubpaths : List Path
  hasTrailingSlash : Bool

/-- The body of the loop of `CanonicalizeAbsolutePath` on one component. -/
def Canonicalization.component (c : Canonicalization) (part : Path) (followed : Bool) :
    Canonicalization :=
  let c := { c with hasTrailingSlash := followed }
  if part = [dot, dot] then
    if c.parts ≠ [] then
      { c with
        requiredSubpaths := c.requiredSubpaths ++ [appendPartsToPath c.parts [] ++ [slash]]
        parts := c.parts.dropLast }
    else c
  else if part ≠ [dot] then
    { c with parts := c.parts ++ [part] }
  else
    { c with hasTrailingSlash := true }

/-- The loop of `CanonicalizeAbsolutePath`.  The first argument bounds the number of components. -/
def canonicalizeLoop : ℕ → Path → Canonicalization → Canonicalization
  | 0, _, c => c
  | n + 1, pos, c =>
    if pos = [] then c
    else
      let part := pos.takeWhile (· ≠ slash)
      let rest := pos.dropWhile (· ≠ slash)
      canonicalizeLoop n (rest.dropWhile (· = slash)) (c.component part (rest.head? = some slash))

/-- `CanonicalizeAbsolutePath`: the canonical path and the subpaths that have to exist. -/
def canonicalizeAbsolutePath (absPath : Path) : Except Fault (Path × List Path) :=
  if absPath.head? ≠ some slash then
    .error .checkFailed
  else
    let c := canonicalizeLoop absPath.length (absPath.dropWhile (· = slash)) ⟨[], [], false⟩
    let realPath :=
      if c.parts ≠ [] then
        appendPartsToPath c.parts [] ++ if c.hasTrailingSlash then [slash] else []
      else [slash]
    .ok (realPath, c.requiredSubpaths)

/-! ## Into the host -/

def pathContainsRootPrefix (naclRootDir path : Path) : Bool :=
  if path.length < naclRootDir.length then false
  else if path.take naclRootDir.length ≠ naclRootDir then false
  else if naclRootDir.length < path.length ∧ path[naclRootDir.length]? ≠ some slash then false
  else true

def virtualToAbsolutePath (naclRootDir : Path) (host : PathHost) (virtualPath : Path) :
    Except Fault (Except PathErrno Path) :=
  match virtualPath with
  | [] => .error .checkFailed
  | c :: _ =>
    if c ≠ slash then
      match host.getcwd with
      | .error errno => .ok (.error (.host errno))
      | .ok cwdPath =>
        if !pathContainsRootPrefix naclRootDir cwdPath then
          .ok (.error .eacces)
        else
          .ok (.ok (cwdPath.drop naclRootDir.length ++ [slash] ++ virtualPath))
    else
      .ok (.ok virtualPath)

/-- `ValidateSubpaths`, from the `i`-th call of `stat` on. -/
def validateSubpaths (naclRootDir : Path) (host : PathHost) :
    ℕ → List Path → Except Fault (Except PathErrno Unit)
  | _, [] => .ok (.ok ())
  | i, subpath :: subpaths =>
    match host.stat i (naclRootDir ++ subpath) with
    | .unexpected => .error .fatal
    | .failed errno => .ok (.error (.host errno))
    | .found => validateSubpaths naclRootDir host (i + 1) subpaths

def validatePath (naclRootDir : Path) (host : PathHost) (path : Path) :
    Except Fault (Except PathErrno Unit) :=
  if path = [] ∨ !pathContainsRootPrefix naclRootDir path then
    .error .checkFailed
  else if host.isSymbolicLink path then
    .ok (.error .eacces)
  else
    .ok (.ok ())

/-- `CopyHostPathMounted`: the path it leaves in `dest`. -/
def copyHostPathMounted (naclRootDir : Path) (host : PathHost) (dest : Path) (destMaxSize : ℕ) :
    Except Fault (Except PathErrno Path) :=
  if dest = [] then
    .ok (.error .enoent)
  else if destMaxSize ≠ naclConfigPathMax ∨ ¬ dest.length < naclConfigPathMax then
    .error .checkFailed
  else
    match virtualToAbsolutePath naclRootDir host dest with
    | .error fault => .error fault
    | .ok (.error errno) => .ok (.error errno)
    | .ok (.ok absPath) =>
      match canonicalizeAbsolutePath absPath with
      | .error fault => .error fault
      | .ok (realPath, requiredSubpaths) =>
        match validateSubpaths naclRootDir host 0 requiredSubpaths with
        | .error fault => .error fault
        | .ok (.error errno) => .ok (.error errno)
        | .ok (.ok ()) =>
          let realPath := naclRootDir ++ realPath
          match validatePath naclRootDir host realPath with
          | .error fault => .error fault
          | .ok (.error errno) => .ok (.error errno)
          | .ok (.ok ()) =>
            if destMaxSize < realPath.length + 1 then
              .ok (.error .enametoolong)
            else
              .ok (.ok realPath)

/-! ## Out to the user -/

/-- `NaClCopyOutToUser` of a string with its NUL: the string written at `dstUsrAddr`. -/
def naclCopyOutToUser (space : AddressSpace) (dstUsrAddr : ℕ) (path : Path) :
    Except PathErrno Path :=
  if naclUserToSysAddrRange space dstUsrAddr (path.length + 1) = kNaClBadAddress then
    .error .efault
  else
    .ok path

def copyHostPathOutToUser (space : AddressSpace) (naclRootDir : Option Path) (dstUsrAddr : ℕ)
    (path : Path) : Except PathErrno Path :=
  match naclRootDir with
  | none => naclCopyOutToUser space dstUsrAddr path
  | some root =>
    if !pathContainsRootPrefix root path then
      .error .eacces
    else if path[root.length]? = none then
      naclCopyOutToUser space dstUsrAddr [slash]
    else
      naclCopyOutToUser space dstUsrAddr (path.drop root.length)

/-! ## The mounted root -/

/-- A directory that `NaClMountRootDir` accepts: `realpath` gives an absolute path of proper names
with no slash at the end, and it is neither `/` nor too long. -/
structure MountedRoot where
  parts : List Path
  names : ∀ part ∈ parts, IsName slash dot part
  ne_nil : parts ≠ []
  lt : (render slash parts).length < naclConfigPathMax

/-- `NaClRootDir`. -/
def MountedRoot.path (root : MountedRoot) : Path := render slash root.parts

/-- `NaClMountRootDir`, after `realpath`. -/
def naclMountRootDir (realpath : Option Path) : Option Path :=
  match realpath with
  | none => none
  | some root =>
    if root.length ≤ 1 then none
    else if naclConfigPathMax ≤ root.length then none
    else some root

/-! ## The canonical form -/

section

variable {root path part : Path} {host : PathHost}

theorem appendPartsToPath_eq (parts : List Path) (path : Path) :
    appendPartsToPath parts path = path ++ render slash parts := by
  unfold appendPartsToPath render
  induction parts generalizing path with
  | nil => simp
  | cons part parts ih =>
    rw [List.foldl_cons, ih, List.flatMap_cons]
    simp

theorem Canonicalization.component_parts (c : Canonicalization) (part : Path) (followed : Bool) :
    (c.component part followed).parts = follow dot c.parts part := by
  unfold component follow
  by_cases hdotdot : part = [dot, dot]
  · rw [if_pos hdotdot, if_pos hdotdot]
    by_cases hparts : c.parts = []
    · rw [if_neg (not_not.2 hparts)]
      dsimp only
      rw [hparts]
      rfl
    · rw [if_pos hparts]
  · rw [if_neg hdotdot, if_neg hdotdot]
    by_cases hdot : part = [dot]
    · rw [if_neg (not_not.2 hdot), if_pos hdot]
    · rw [if_pos hdot, if_neg hdot]

theorem Canonicalization.component_requiredSubpaths (c : Canonicalization) (followed : Bool)
    (h : part ≠ [dot, dot]) :
    (c.component part followed).requiredSubpaths = c.requiredSubpaths := by
  unfold component
  rw [if_neg h]
  split_ifs <;> rfl

theorem head?_dropWhile_slash (path : Path) : (path.dropWhile (· = slash)).head? ≠ some slash := by
  intro h
  have := List.head?_dropWhile_not (· = slash) path
  rw [h] at this
  simp at this

theorem length_afterComponent_lt {pos : Path} (hpos : pos ≠ []) (hhead : pos.head? ≠ some slash) :
    ((pos.dropWhile (· ≠ slash)).dropWhile (· = slash)).length < pos.length := by
  have hsum := congrArg List.length (List.takeWhile_append_dropWhile (p := (· ≠ slash)) (l := pos))
  rw [List.length_append] at hsum
  have hle := (List.dropWhile_sublist (· = slash) (l := pos.dropWhile (· ≠ slash))).length_le
  have hfirst := List.length_pos_of_ne_nil (components_eq_cons hpos hhead).1
  omega

theorem canonicalizeLoop_spec (n : ℕ) (pos : Path) (c : Canonicalization) (hn : pos.length ≤ n)
    (hhead : pos.head? ≠ some slash) :
    (canonicalizeLoop n pos c).parts = (components slash pos).foldl (follow dot) c.parts ∧
      ((∀ part ∈ components slash pos, part ≠ [dot, dot]) →
        (canonicalizeLoop n pos c).requiredSubpaths = c.requiredSubpaths) := by
  induction n generalizing pos c with
  | zero =>
    obtain rfl : pos = [] := List.length_eq_zero_iff.1 (Nat.le_zero.1 hn)
    exact ⟨rfl, fun _ => rfl⟩
  | succ n ih =>
    unfold canonicalizeLoop
    by_cases hpos : pos = []
    · rw [if_pos hpos, hpos]
      exact ⟨rfl, fun _ => rfl⟩
    rw [if_neg hpos]
    obtain ⟨-, hcomponents⟩ := components_eq_cons hpos hhead
    have hlen := length_afterComponent_lt hpos hhead
    obtain ⟨hparts, hsubpaths⟩ := ih _ (c.component (pos.takeWhile (· ≠ slash))
      ((pos.dropWhile (· ≠ slash)).head? = some slash))
      (Nat.le_of_lt_succ (hlen.trans_le hn)) (head?_dropWhile_slash _)
    refine ⟨?_, fun hdotdot => ?_⟩
    · rw [hparts, hcomponents, List.foldl_cons, c.component_parts]
    · rw [hcomponents] at hdotdot
      rw [hsubpaths fun part hpart => hdotdot part (List.mem_cons_of_mem _ hpart)]
      exact c.component_requiredSubpaths _ (hdotdot _ List.mem_cons_self)

theorem canonicalizeAbsolutePath_spec (h : path.head? = some slash) :
    ∃ (c : Canonical slash dot) (subpaths : List Path),
      canonicalizeAbsolutePath path = .ok (c.toPath, subpaths) ∧ c.parts = locate slash dot path ∧
      ((∀ part ∈ components slash path, part ≠ [dot, dot]) → subpaths = []) := by
  obtain ⟨c, hc⟩ : ∃ c, c = canonicalizeLoop path.length (path.dropWhile (· = slash))
    ⟨[], [], false⟩ := ⟨_, rfl⟩
  obtain ⟨hparts, hsubpaths⟩ := canonicalizeLoop_spec path.length (path.dropWhile (· = slash))
    ⟨[], [], false⟩ (List.dropWhile_sublist _).length_le (head?_dropWhile_slash path)
  rw [← hc, components_dropWhile] at hparts hsubpaths
  have hnames : ∀ part ∈ c.parts, IsName slash dot part := by
    rw [hparts]
    exact names_foldl_follow (fun part => of_mem_components) (by simp)
  unfold canonicalizeAbsolutePath
  rw [if_neg (not_not.2 h), ← hc]
  dsimp only
  by_cases hnil : c.parts = []
  · refine ⟨⟨[], true, by simp, fun _ => rfl⟩, c.requiredSubpaths, ?_, ?_, hsubpaths⟩
    · rw [if_neg (not_not.2 hnil)]
      rfl
    · exact hnil.symm.trans hparts
  · refine ⟨⟨c.parts, c.hasTrailingSlash, hnames, fun h => absurd h hnil⟩, c.requiredSubpaths, ?_,
      hparts, hsubpaths⟩
    rw [if_pos hnil, appendPartsToPath_eq]
    rfl

/-! ## The prefix -/

theorem pathContainsRootPrefix_append {rest : Path} (h : rest = [] ∨ rest.head? = some slash) :
    pathContainsRootPrefix root (root ++ rest) = true := by
  unfold pathContainsRootPrefix
  rw [if_neg (by simp), if_neg (by simp), if_neg]
  rintro ⟨hlt, hne⟩
  rw [List.getElem?_append_right le_rfl, Nat.sub_self, ← List.head?_eq_getElem?] at hne
  rcases h with rfl | h
  · simp at hlt
  · exact hne h

theorem validatePath_append (c : Canonical slash dot) :
    validatePath root host (root ++ c.toPath) =
      if host.isSymbolicLink (root ++ c.toPath) then .ok (.error .eacces) else .ok (.ok ()) := by
  have hhead := c.head?_toPath
  unfold validatePath
  rw [if_neg]
  rw [pathContainsRootPrefix_append (Or.inr hhead)]
  rintro (hnil | hfalse)
  · rw [List.append_eq_nil_iff] at hnil
    rw [hnil.2] at hhead
    cases hhead
  · cases hfalse

theorem head?_of_virtualToAbsolutePath {absPath : Path}
    (h : virtualToAbsolutePath root host path = .ok (.ok absPath)) :
    absPath.head? = some slash := by
  unfold virtualToAbsolutePath at h
  split at h
  · cases h
  · next c virtualPath =>
    split_ifs at h with hslash
    · split at h
      · cases h
      · next cwdPath hcwd =>
        by_cases hpre : (!pathContainsRootPrefix root cwdPath) = true
        · rw [if_pos hpre] at h
          cases h
        rw [if_neg hpre] at h
        obtain rfl := Except.ok.inj (Except.ok.inj h)
        -- behind the root there is nothing or a slash
        unfold pathContainsRootPrefix at hpre
        split_ifs at hpre with hlen htake hnext
        · simp at hpre
        · simp at hpre
        · simp at hpre
        · rw [List.append_assoc, List.head?_append, List.head?_drop]
          cases hget : cwdPath[root.length]? with
          | none => rfl
          | some b =>
            have hlt := (List.getElem?_eq_some_iff.1 hget).1
            rw [hget] at hnext
            have hb : some b = some slash := by_contra fun hne => hnext ⟨hlt, hne⟩
            exact hb
    · cases h
      rw [not_not.1 hslash]
      rfl

/-- What becomes of a host path that a conversion ends with. -/
def hostPathResult (host : PathHost) (path : Path) : Except PathErrno Path :=
  if host.isSymbolicLink path then .error .eacces
  else if naclConfigPathMax < path.length + 1 then .error .enametoolong
  else .ok path

theorem copyHostPathMounted_of_absolute {absPath : Path} (hne : path ≠ [])
    (hlen : path.length < naclConfigPathMax)
    (habs : virtualToAbsolutePath root host path = .ok (.ok absPath)) :
    ∃ (c : Canonical slash dot) (subpaths : List Path), c.parts = locate slash dot absPath ∧
      ((∀ part ∈ components slash absPath, part ≠ [dot, dot]) → subpaths = []) ∧
      copyHostPathMounted root host path naclConfigPathMax =
        match validateSubpaths root host 0 subpaths with
        | .error fault => .error fault
        | .ok (.error errno) => .ok (.error errno)
        | .ok (.ok ()) => .ok (hostPathResult host (root ++ c.toPath)) := by
  obtain ⟨c, subpaths, hcanonical, hparts, hsubpaths⟩ :=
    canonicalizeAbsolutePath_spec (head?_of_virtualToAbsolutePath habs)
  refine ⟨c, subpaths, hparts, hsubpaths, ?_⟩
  unfold copyHostPathMounted
  rw [if_neg hne, if_neg (by simpa using hlen), habs]
  dsimp only
  rw [hcanonical]
  dsimp only
  rw [validatePath_append]
  split
  · rfl
  · rfl
  · unfold hostPathResult
    split_ifs <;> rfl

/-- Every path accepted is the root followed by a canonical path, which spells where the path leads
from the virtual root. -/
theorem exists_of_copyHostPathMounted {result : Path} {destMaxSize : ℕ}
    (h : copyHostPathMounted root host path destMaxSize = .ok (.ok result)) :
    ∃ (absPath : Path) (c : Canonical slash dot),
      virtualToAbsolutePath root host path = .ok (.ok absPath) ∧
      c.parts = locate slash dot absPath ∧ result = root ++ c.toPath := by
  have hrun := h
  unfold copyHostPathMounted at h
  split_ifs at h with hne hsize
  · cases h
  obtain ⟨hmax, hlen⟩ := not_or.1 hsize
  rw [not_not.1 hmax] at hrun
  split at h
  · cases h
  · cases h
  · next absPath habs =>
    obtain ⟨c, subpaths, hparts, -, hcopy⟩ :=
      copyHostPathMounted_of_absolute hne (not_not.1 hlen) habs
    rw [hcopy] at hrun
    refine ⟨absPath, c, habs, hparts, ?_⟩
    split at hrun
    · cases hrun
    · cases hrun
    · have hresult := Except.ok.inj hrun
      unfold hostPathResult at hresult
      split_ifs at hresult
      exact (Except.ok.inj hresult).symm

end

/-! ## The round trip -/

/-- The host path that `CopyHostPathOutToUser` shows as `userPath`: the root itself is `/`, and a
canonical path under the root loses the root. -/
inductive MountedRoot.Shows (root : MountedRoot) : Path → Path → Prop
  | self : root.Shows root.path [slash]
  | below (c : Canonical slash dot) : root.Shows (root.path ++ c.toPath) c.toPath

def SameUpToSlash (path path' : Path) : Prop :=
  ∃ base, (path = base ∨ path = base ++ [slash]) ∧ (path' = base ∨ path' = base ++ [slash])

namespace MountedRoot

variable {root : MountedRoot} {hostPath userPath : Path}

theorem Shows.canonical (h : root.Shows hostPath userPath) : ∃ c : Canonical slash dot,
    userPath = c.toPath ∧ SameUpToSlash (root.path ++ c.toPath) hostPath := by
  cases h with
  | self => exact ⟨⟨[], true, by simp, fun _ => rfl⟩, rfl, root.path, Or.inr rfl, Or.inl rfl⟩
  | below c => exact ⟨c, rfl, _, Or.inl rfl, Or.inl rfl⟩

theorem Shows.copyHostPathOutToUser (h : root.Shows hostPath userPath) (space : AddressSpace)
    (dstUsrAddr : ℕ) : SandboxingNaCl.copyHostPathOutToUser space (some root.path) dstUsrAddr hostPath =
      naclCopyOutToUser space dstUsrAddr userPath := by
  unfold SandboxingNaCl.copyHostPathOutToUser
  cases h with
  | self =>
    have hpre := @pathContainsRootPrefix_append root.path [] (Or.inl rfl)
    rw [List.append_nil] at hpre
    simp [hpre]
  | below c =>
    have hhead := c.head?_toPath
    have hpre := @pathContainsRootPrefix_append root.path c.toPath (Or.inr hhead)
    have hnext : (root.path ++ c.toPath)[root.path.length]? ≠ none := by
      rw [List.getElem?_append_right le_rfl, Nat.sub_self, ← List.head?_eq_getElem?, hhead]
      exact Option.some_ne_none _
    dsimp only
    rw [hpre, if_neg (by decide), if_neg hnext, List.drop_left]

theorem copyHostPathMounted_of_shows (h : root.Shows hostPath userPath)
    (hlen : hostPath.length < naclConfigPathMax) (host : PathHost) :
    ∃ path, SameUpToSlash path hostPath ∧
      copyHostPathMounted root.path host userPath naclConfigPathMax =
        .ok (hostPathResult host path) := by
  obtain ⟨c, huser, hsame⟩ := h.canonical
  obtain ⟨rest, hrest⟩ := c.exists_toPath_eq
  have huserLen : userPath.length < naclConfigPathMax := by
    cases h with
    | self => decide
    | below c => exact lt_of_le_of_lt (by simp) hlen
  have hne : userPath ≠ [] := by
    rw [huser, hrest]
    exact List.cons_ne_nil _ _
  have habs : virtualToAbsolutePath root.path host userPath = .ok (.ok userPath) := by
    rw [huser, hrest]
    rfl
  obtain ⟨c', subpaths, hspells, hsubpaths, hcopy⟩ :=
    copyHostPathMounted_of_absolute hne huserLen habs
  have hcomponents : components slash userPath = c.parts := by
    rw [huser, c.components_toPath]
  -- a canonical path has no `..` in it and spells itself
  obtain rfl := hsubpaths fun part hpart => (c.names part (hcomponents ▸ hpart)).ne_dotdot
  have hparts : c'.parts = c.parts := by
    rw [hspells]
    unfold locate
    rw [hcomponents, foldl_follow_of_names c.names, List.nil_append]
  refine ⟨root.path ++ c'.toPath, ?_, hcopy⟩
  cases h with
  | self =>
    have hnil : c.parts = [] := by
      rw [← hcomponents]
      rfl
    rw [hnil] at hparts
    refine ⟨root.path, Or.inr ?_, Or.inl rfl⟩
    unfold Canonical.toPath
    rw [hparts, c'.root hparts]
    rfl
  | below d =>
    have hd : d.parts = c.parts := by rw [← hcomponents, d.components_toPath]
    refine ⟨root.path ++ render slash c.parts, ?_, ?_⟩
    · unfold Canonical.toPath
      rw [hparts]
      cases c'.trailing <;> simp
    · unfold Canonical.toPath
      rw [hd]
      cases d.trailing <;> simp

end MountedRoot

/-- Every path that is accepted names a location under the root, in canonical form, and a canonical
host path under the root is shown without the root and comes back to where it was. -/
theorem pathSandbox (root : MountedRoot) :
    (∀ host dest destMaxSize path,
      copyHostPathMounted root.path host dest destMaxSize = .ok (.ok path) →
        ∃ c : Canonical slash dot, path = root.path ++ c.toPath ∧
          locate slash dot path = root.parts ++ c.parts) ∧
    ∀ hostPath userPath, root.Shows hostPath userPath →
      (∀ space dstUsrAddr, copyHostPathOutToUser space (some root.path) dstUsrAddr hostPath =
        naclCopyOutToUser space dstUsrAddr userPath) ∧
      (hostPath.length < naclConfigPathMax → ∀ host, ∃ path, SameUpToSlash path hostPath ∧
        copyHostPathMounted root.path host userPath naclConfigPathMax =
          .ok (hostPathResult host path)) := by
  refine ⟨fun host dest destMaxSize path hcopy => ?_, fun hostPath userPath hshows => ?_⟩
  · obtain ⟨-, c, -, -, rfl⟩ := exists_of_copyHostPathMounted hcopy
    exact ⟨c, rfl, c.locate_render_append root.names⟩
  · exact ⟨hshows.copyHostPathOutToUser, fun hlen host =>
      MountedRoot.copyHostPathMounted_of_shows hshows hlen host⟩

/-- The root `/r`. -/
def smallRoot : MountedRoot where
  parts := [[0x72]]
  names part hpart := by
    rw [List.mem_singleton.1 hpart]
    exact ⟨by decide, by decide, by decide, by decide⟩
  ne_nil := by decide
  lt := by decide

/-- A host without symbolic links, whose current directory is `/r/a`. -/
def smallHost : PathHost := ⟨.ok [slash, 0x72, slash, 0x61], fun _ _ => .found, fun _ => false⟩

/-- `../../b/` is `/r/b/`, and `/r/b/` is shown as `/b/`. -/
theorem pathSandbox_smallRoot :
    copyHostPathMounted smallRoot.path smallHost
        [dot, dot, slash, dot, dot, slash, 0x62, slash] naclConfigPathMax =
      .ok (.ok [slash, 0x72, slash, 0x62, slash]) ∧
    (∃ c : Canonical slash dot, [slash, 0x72, slash, 0x62, slash] = smallRoot.path ++ c.toPath ∧
      locate slash dot [slash, 0x72, slash, 0x62, slash] = smallRoot.parts ++ c.parts) ∧
    copyHostPathOutToUser smallApp.space (some smallRoot.path) 0x50000 smallRoot.path =
      .ok [slash] :=
  ⟨by decide, (pathSandbox smallRoot).1 smallHost
      [dot, dot, slash, dot, dot, slash, 0x62, slash] naclConfigPathMax _ (by decide),
    ((pathSandbox smallRoot).2 _ _ .self).1 smallApp.space 0x50000⟩

end SandboxingNaCl
