import SandboxingNaCl.Lib.ByteImage
import SandboxingNaCl.Service.Filename

/-!
# The current directory

`NaClSysGetcwd` has two buffers to respect: its own, of `NACL_CONFIG_PATH_MAX` bytes, which the
host's `getcwd` fills, and the one of the user, of the length the user gives.
-/

namespace SandboxingNaCl

open Patches ByteImage LexicalPath

/-- The host's `getcwd` in a directory, by the size it is called with.  Where it succeeds, the name
of the directory is in the buffer with its NUL; where it fails, it may have used the buffer. -/
structure GetcwdHost where
  cwd : Path
  noNul : 0 ∉ cwd
  getcwd : ℕ → Except ℕ Path
  /-- How many bytes of the buffer a call may have written. -/
  extent : ℕ → ℕ
  eq_cwd : ∀ {size path}, getcwd size = .ok path → path = cwd
  extent_eq : ∀ {size path}, getcwd size = .ok path → extent size = path.length + 1
  extent_le : ∀ size, extent size ≤ size

/-- What a call of `NaClSysGetcwd` does: the bytes of `path` that are written, and the strings that
are copied to the user. -/
structure GetcwdCall where
  retval : Except PathErrno Unit
  hostBytes : ℕ
  userWrites : List (Patch UInt8)

def GetcwdCall.mem (call : GetcwdCall) (m : ℕ → UInt8) : ℕ → UInt8 :=
  call.userWrites.foldl (fun m p => write m p.1 p.2) m

/-- The conversion of an `int` to `size_t`. -/
def sizeT (arch : NaClArch) (n : ℤ) : ℕ := (n % 2 ^ arch.ptrBits).toNat

/-- `NaClSysGetcwd`.  Past the end of `path` the host goes on writing. -/
def naclSysGetcwd (arch : NaClArch) (space : AddressSpace) (fileAccessEnabled : Bool)
    (naclRootDir : Option Path) (host : GetcwdHost) (buffer : ℕ) (len : ℤ) : GetcwdCall :=
  if !fileAccessEnabled then
    ⟨.error .eacces, 0, []⟩
  else
    let len := if len ≥ naclConfigPathMax then (naclConfigPathMax : ℤ) - 1 else len
    let size := sizeT arch len
    match host.getcwd size with
    | .error errno => ⟨.error (.host errno), host.extent size, []⟩
    | .ok path =>
      match copyHostPathOutToUser space naclRootDir buffer path with
      | .error errno => ⟨.error errno, host.extent size, []⟩
      | .ok userPath => ⟨.ok (), host.extent size, [(buffer, userPath ++ [0])]⟩

/-- The path the user sees for a path of the host: the root itself is `/`, and a path below the root
loses the root. -/
inductive VirtualPath : Option Path → Path → Path → Prop
  | unmounted (path : Path) : VirtualPath none path path
  | self (root : Path) : VirtualPath (some root) root [slash]
  | below (root rest : Path) (h : rest.head? = some slash) :
      VirtualPath (some root) (root ++ rest) rest

/-- The call keeps to both buffers, and leaves the virtual path exactly where it succeeds. -/
structure GetcwdCall.RespectsBuffers (call : GetcwdCall) (naclRootDir : Option Path) (cwd : Path)
    (buffer : ℕ) (len : ℤ) : Prop where
  hostBytes_le : call.hostBytes ≤ naclConfigPathMax
  userWrites_within : ∀ p ∈ call.userWrites, ∀ a, Covers p a → buffer ≤ a ∧ (a : ℤ) < buffer + len
  holds_of_ok : call.retval = .ok () → ∃ userPath, VirtualPath naclRootDir cwd userPath ∧
    0 ∉ userPath ∧ ∀ m, Holds (call.mem m) buffer (userPath ++ [0])
  mem_eq_of_error : ∀ errno, call.retval = .error errno → ∀ m, call.mem m = m

/-- The directory has no virtual path that can be copied to the buffer. -/
def CopyRefused (space : AddressSpace) (naclRootDir : Option Path) (buffer : ℕ) (cwd : Path) :
    Prop :=
  ∀ userPath, VirtualPath naclRootDir cwd userPath →
    naclUserToSysAddrRange space buffer (userPath.length + 1) = kNaClBadAddress

/-! ## The virtual path -/

section

theorem MountedRoot.length_path_pos (root : MountedRoot) : 0 < root.path.length := by
  obtain ⟨part, parts, hparts⟩ := List.exists_cons_of_ne_nil root.ne_nil
  rw [MountedRoot.path, hparts, render, List.flatMap_cons]
  simp

variable {naclRootDir : Option Path} {root path userPath userPath' : Path}

theorem VirtualPath.unique (h : VirtualPath naclRootDir path userPath)
    (h' : VirtualPath naclRootDir path userPath') : userPath = userPath' := by
  -- a root does not go on below itself
  have hself : ∀ root rest : Path, root = root ++ rest → rest.head? ≠ some slash := by
    intro root rest heq hhead
    rw [List.self_eq_append_right.1 heq] at hhead
    cases hhead
  generalize hdir : naclRootDir = naclRootDir' at h'
  generalize hpath : path = path' at h'
  cases h with
  | unmounted =>
    cases h' with
    | unmounted => exact hpath
    | self => cases hdir
    | below => cases hdir
  | self root =>
    cases h' with
    | unmounted => cases hdir
    | self => rfl
    | below root' rest hrest =>
      rw [hpath, Option.some_inj] at hdir
      exact absurd hrest (hself _ _ hdir.symm)
  | below root rest hrest =>
    cases h' with
    | unmounted => cases hdir
    | self =>
      rw [Option.some_inj] at hdir
      rw [hdir] at hpath
      exact absurd hrest (hself _ _ hpath.symm)
    | below root' rest' hrest' =>
      rw [Option.some_inj] at hdir
      rw [hdir] at hpath
      exact List.append_cancel_left hpath

theorem pathContainsRootPrefix_self (root : Path) : pathContainsRootPrefix root root = true := by
  have hroot := @pathContainsRootPrefix_append root [] (Or.inl rfl)
  rwa [List.append_nil] at hroot

theorem exists_of_pathContainsRootPrefix (h : pathContainsRootPrefix root path = true) :
    path = root ∨ ∃ rest, rest.head? = some slash ∧ path = root ++ rest := by
  unfold pathContainsRootPrefix at h
  split_ifs at h with hlen htake hnext
  have htake : path.take root.length = root := not_not.1 htake
  have hpath : path = root ++ path.drop root.length := by
    conv_lhs => rw [← List.take_append_drop root.length path, htake]
  by_cases hlt : root.length < path.length
  · refine Or.inr ⟨path.drop root.length, ?_, hpath⟩
    rw [List.head?_drop]
    exact by_contra fun hne => hnext ⟨hlt, hne⟩
  · left
    rwa [List.drop_of_length_le (not_lt.1 hlt), List.append_nil] at hpath

theorem copyHostPathOutToUser_spec (space : AddressSpace) (naclRootDir : Option Path) (buffer : ℕ)
    (path : Path) :
    (∃ userPath, VirtualPath naclRootDir path userPath ∧
      copyHostPathOutToUser space naclRootDir buffer path =
        naclCopyOutToUser space buffer userPath) ∨
    (∀ userPath, ¬ VirtualPath naclRootDir path userPath) ∧
      copyHostPathOutToUser space naclRootDir buffer path = .error .eacces := by
  cases naclRootDir with
  | none => exact Or.inl ⟨path, .unmounted path, rfl⟩
  | some root =>
    unfold copyHostPathOutToUser
    dsimp only
    by_cases hpre : pathContainsRootPrefix root path = true
    · left
      rw [hpre, if_neg (by decide)]
      rcases exists_of_pathContainsRootPrefix hpre with rfl | ⟨rest, hrest, rfl⟩
      · exact ⟨[slash], .self path, if_pos (List.getElem?_eq_none le_rfl)⟩
      · have hnext : (root ++ rest)[root.length]? ≠ none := by
          rw [List.getElem?_append_right le_rfl, Nat.sub_self, ← List.head?_eq_getElem?, hrest]
          exact Option.some_ne_none _
        refine ⟨rest, .below root rest hrest, ?_⟩
        rw [if_neg hnext, List.drop_left]
    · right
      rw [Bool.not_eq_true] at hpre
      refine ⟨fun userPath hvirtual => ?_, by rw [hpre, Bool.not_false, if_pos rfl]⟩
      cases hvirtual with
      | self =>
        rw [pathContainsRootPrefix_self] at hpre
        cases hpre
      | below _ _ hrest =>
        rw [pathContainsRootPrefix_append (Or.inr hrest)] at hpre
        cases hpre

theorem VirtualPath.length_le {root : Option MountedRoot}
    (h : VirtualPath (root.map MountedRoot.path) path userPath) :
    userPath.length ≤ path.length := by
  generalize hroot : root.map MountedRoot.path = naclRootDir at h
  cases h with
  | unmounted => exact le_rfl
  | self =>
    obtain ⟨mounted, -, rfl⟩ := Option.map_eq_some_iff.1 hroot
    exact mounted.length_path_pos
  | below => exact (List.suffix_append _ userPath).length_le

theorem VirtualPath.noNul (h : VirtualPath naclRootDir path userPath) (hpath : 0 ∉ path) :
    0 ∉ userPath := by
  cases h with
  | unmounted => exact hpath
  | self => decide
  | below => exact fun hmem => hpath (List.mem_append_right _ hmem)

end

/-! ## The call -/

section

variable {arch : NaClArch} {space : AddressSpace} {fileAccessEnabled : Bool}
  {root : Option MountedRoot} {host : GetcwdHost} {buffer : ℕ} {len : ℤ}

theorem sizeT_of_lt (arch : NaClArch) {n : ℤ} (h₀ : 0 ≤ n) (h : n < naclConfigPathMax) :
    (sizeT arch n : ℤ) = n := by
  have hbits : (2 : ℤ) ^ 32 ≤ 2 ^ arch.ptrBits := by cases arch <;> decide
  have hlt : n < 2 ^ arch.ptrBits := h.trans_le (le_trans (by decide) hbits)
  rw [sizeT, Int.emod_eq_of_lt h₀ hlt, Int.toNat_of_nonneg h₀]

theorem copyRefused_iff (space : AddressSpace) (naclRootDir : Option Path) (buffer : ℕ)
    (cwd : Path) : CopyRefused space naclRootDir buffer cwd ↔
      ∃ errno, copyHostPathOutToUser space naclRootDir buffer cwd = .error errno := by
  rcases copyHostPathOutToUser_spec space naclRootDir buffer cwd with
    ⟨userPath, hvirtual, hcopy⟩ | ⟨hnone, hcopy⟩
  · rw [hcopy, naclCopyOutToUser]
    constructor
    · intro hrefused
      exact ⟨.efault, if_pos (hrefused userPath hvirtual)⟩
    · rintro ⟨errno, herror⟩ userPath' hvirtual'
      rw [← hvirtual.unique hvirtual']
      by_contra hgood
      rw [if_neg hgood] at herror
      cases herror
  · exact iff_of_true (fun userPath hvirtual => absurd hvirtual (hnone userPath)) ⟨_, hcopy⟩

theorem respectsBuffers_error_iff (errno : PathErrno) (hostBytes : ℕ) (naclRootDir : Option Path)
    (cwd : Path) (buffer : ℕ) (len : ℤ) :
    (GetcwdCall.mk (.error errno) hostBytes []).RespectsBuffers naclRootDir cwd buffer len ↔
      hostBytes ≤ naclConfigPathMax where
  mp h := h.hostBytes_le
  mpr h :=
    { hostBytes_le := h
      userWrites_within := by simp
      holds_of_ok := by simp
      mem_eq_of_error := by simp [GetcwdCall.mem] }

theorem respectsBuffers_ok {naclRootDir : Option Path} {cwd userPath : Path} {hostBytes : ℕ}
    (hhost : hostBytes ≤ naclConfigPathMax) (hvirtual : VirtualPath naclRootDir cwd userPath)
    (hcwd : 0 ∉ cwd) (hfits : (userPath.length + 1 : ℤ) ≤ len) :
    (GetcwdCall.mk (.ok ()) hostBytes [(buffer, userPath ++ [0])]).RespectsBuffers naclRootDir cwd
      buffer len where
  hostBytes_le := hhost
  userWrites_within := by
    simp only [List.mem_singleton, forall_eq, Covers, List.length_append, List.length_singleton]
    omega
  holds_of_ok _ := ⟨userPath, hvirtual, hvirtual.noNul hcwd, fun m => holds_write m buffer _⟩
  mem_eq_of_error := by simp

theorem not_respectsBuffers_of_neg (hlen : len < 0) {retval : Except PathErrno Unit}
    {hostBytes : ℕ} {naclRootDir : Option Path} {cwd userPath : Path} :
    ¬ (GetcwdCall.mk retval hostBytes [(buffer, userPath ++ [0])]).RespectsBuffers naclRootDir cwd
      buffer len := by
  intro h
  have hcovers : Covers (buffer, userPath ++ [0]) buffer := ⟨le_rfl, by simp⟩
  have hlt := (h.userWrites_within _ List.mem_cons_self buffer hcovers).2
  omega

/-- `NaClSysGetcwd` respects both buffers exactly where the length is not negative, or where the
call does not come to use it: without file access, and where the host's `getcwd` fails or the copy
to the user is refused, with no more than its own buffer used. -/
theorem naclSysGetcwd_respectsBuffers_iff (arch : NaClArch) (space : AddressSpace)
    (fileAccessEnabled : Bool) (root : Option MountedRoot) (host : GetcwdHost) (buffer : ℕ)
    (len : ℤ) :
    (naclSysGetcwd arch space fileAccessEnabled (root.map MountedRoot.path) host buffer
        len).RespectsBuffers (root.map MountedRoot.path) host.cwd buffer len ↔
      0 ≤ len ∨ fileAccessEnabled = false ∨
        host.extent (sizeT arch len) ≤ naclConfigPathMax ∧
          ((∃ errno, host.getcwd (sizeT arch len) = .error errno) ∨
            CopyRefused space (root.map MountedRoot.path) buffer host.cwd) := by
  generalize hdir : root.map MountedRoot.path = naclRootDir
  unfold naclSysGetcwd
  by_cases hacc : fileAccessEnabled = false
  · rw [hacc, Bool.not_false, if_pos rfl, respectsBuffers_error_iff]
    exact iff_of_true (Nat.zero_le _) (Or.inr (Or.inl rfl))
  rw [Bool.not_eq_false] at hacc
  rw [hacc, Bool.not_true, if_neg Bool.false_ne_true]
  dsimp only
  by_cases hlen : 0 ≤ len
  · refine iff_of_true ?_ (Or.inl hlen)
    obtain ⟨len', hlen'⟩ : ∃ len' : ℤ, len' =
      if len ≥ naclConfigPathMax then (naclConfigPathMax : ℤ) - 1 else len := ⟨_, rfl⟩
    rw [← hlen']
    have hclamped : 0 ≤ len' ∧ len' ≤ len ∧ len' < naclConfigPathMax := by
      unfold naclConfigPathMax at hlen' ⊢
      split_ifs at hlen' <;> omega
    have hsize := sizeT_of_lt arch hclamped.1 hclamped.2.2
    have hextent := host.extent_le (sizeT arch len')
    cases hgetcwd : host.getcwd (sizeT arch len') with
    | error errno =>
      dsimp only
      rw [respectsBuffers_error_iff]
      omega
    | ok path =>
      obtain rfl := host.eq_cwd hgetcwd
      have hpath := host.extent_eq hgetcwd
      dsimp only
      rcases copyHostPathOutToUser_spec space naclRootDir buffer host.cwd with
        ⟨userPath, hvirtual, hcopy⟩ | ⟨-, hcopy⟩
      · rw [hcopy, naclCopyOutToUser]
        by_cases hbad : naclUserToSysAddrRange space buffer (userPath.length + 1) =
          kNaClBadAddress
        · rw [if_pos hbad]
          dsimp only
          rw [respectsBuffers_error_iff]
          omega
        · rw [if_neg hbad]
          have hle := VirtualPath.length_le (hdir ▸ hvirtual)
          exact respectsBuffers_ok (by omega) hvirtual host.noNul (by omega)
      · rw [hcopy]
        dsimp only
        rw [respectsBuffers_error_iff]
        omega
  · have hclamped : ¬ len ≥ naclConfigPathMax := fun hge =>
      hlen ((Int.natCast_nonneg _).trans hge)
    rw [if_neg hclamped, or_iff_right hlen, or_iff_right (by simp)]
    cases hgetcwd : host.getcwd (sizeT arch len) with
    | error errno =>
      dsimp only
      rw [respectsBuffers_error_iff]
      exact (and_iff_left (Or.inl ⟨errno, rfl⟩)).symm
    | ok path =>
      obtain rfl := host.eq_cwd hgetcwd
      dsimp only
      rw [or_iff_right (by simp), copyRefused_iff]
      cases hcopy : copyHostPathOutToUser space naclRootDir buffer host.cwd with
      | error errno =>
        dsimp only
        rw [respectsBuffers_error_iff]
        exact (and_iff_left ⟨errno, rfl⟩).symm
      | ok userPath =>
        refine iff_of_false (not_respectsBuffers_of_neg (not_le.1 hlen)) ?_
        rintro ⟨-, errno, herror⟩
        cases herror

/-- A host whose `getcwd` fails only where its buffer is too small. -/
def GetcwdHost.ofCwd (cwd : Path) (h : 0 ∉ cwd) : GetcwdHost where
  cwd := cwd
  noNul := h
  getcwd size := if size < cwd.length + 1 then .error 34 else .ok cwd
  extent size := if size < cwd.length + 1 then 0 else cwd.length + 1
  eq_cwd hok := by
    split_ifs at hok
    exact (Except.ok.inj hok).symm
  extent_eq hok := by
    split_ifs at hok with hlt
    rw [if_neg hlt, Except.ok.inj hok]
  extent_le size := by split_ifs <;> omega

def longCwd : Path := slash :: List.replicate 1023 0x61

theorem noNul_longCwd : 0 ∉ longCwd := by
  rw [longCwd, List.mem_cons, List.mem_replicate]
  decide

/-- With length `-1` the name is not kept from the end of the call's own buffer. -/
theorem not_respectsBuffers_longCwd :
    ¬ (naclSysGetcwd .x8664 smallApp.space true none (.ofCwd longCwd noNul_longCwd) 0x50000
        (-1)).RespectsBuffers none longCwd 0x50000 (-1) := by
  intro h
  exact absurd h.hostBytes_le (by decide +kernel)

end

end SandboxingNaCl
