import SandboxingNaCl.Lib.ByteImage
import SandboxingNaCl.Lib.PathWalk
import SandboxingNaCl.Service.Filename

/-!
# Canonical paths

What `CanonicalizeAbsolutePath` of `filename_util.cc` gives for each absolute path: the path itself,
and the subpaths that the caller has to check for it.
-/

namespace SandboxingNaCl

open LexicalPath

/-- The subpath for a directory that a `..` leaves. -/
def subpathOf (dir : List Path) : Path := render slash dir ++ [slash]

/-- The place of a path, with a slash at the end if it is a directory for sure. -/
def canonicalPath (path : Path) : Path :=
  let parts := locate slash dot path
  if parts = [] then [slash]
  else render slash parts ++ if NamesDir slash dot path then [slash] else []

/-- What `CanonicalizeAbsolutePath` is to give for a path. -/
structure Canonicalizes (path realPath : Path) (requiredSubpaths : List Path) : Prop where
  path_eq : realPath = canonicalPath path
  names : ∀ part ∈ components slash realPath, IsName slash dot part
  /-- There is one slash before each name, and at the end one or none. -/
  slashes : realPath = [slash] ∨ realPath = render slash (components slash realPath) ∨
    realPath = render slash (components slash realPath) ++ [slash]
  idempotent : canonicalizeAbsolutePath realPath = .ok (realPath, [])
  subpaths_eq : requiredSubpaths = (popped dot [] (components slash path)).map subpathOf
  traversable_iff : ∀ tree : FileTree UInt8, tree.Traversable slash dot path ↔
    (∀ subpath ∈ requiredSubpaths, tree.Traversable slash dot subpath) ∧
      tree.Traversable slash dot realPath

section

variable {path part pos : Path}

theorem Canonicalization.component_hasTrailingSlash (c : Canonicalization) (followed : Bool) :
    (c.component part followed).hasTrailingSlash = (followed || part = [dot]) := by
  unfold component
  by_cases hdotdot : part = [dot, dot]
  · rw [if_pos hdotdot, hdotdot]
    split_ifs <;> simp
  · rw [if_neg hdotdot]
    by_cases hdot : part = [dot]
    · rw [if_neg (not_not.2 hdot)]
      simp [hdot]
    · rw [if_pos hdot]
      simp [hdot]

theorem Canonicalization.component_subpaths (c : Canonicalization) (followed : Bool) :
    (c.component part followed).requiredSubpaths = c.requiredSubpaths ++
      (if part = [dot, dot] ∧ c.parts ≠ [] then [c.parts] else []).map subpathOf := by
  unfold component
  by_cases hdotdot : part = [dot, dot]
  · rw [if_pos hdotdot]
    by_cases hparts : c.parts = []
    · rw [if_neg (not_not.2 hparts), if_neg (fun h => h.2 hparts)]
      simp
    · rw [if_pos hparts, if_pos ⟨hdotdot, hparts⟩]
      simp [subpathOf, appendPartsToPath_eq]
  · have hleft : ¬ (part = [dot, dot] ∧ c.parts ≠ []) := fun h => hdotdot h.1
    rw [if_neg hdotdot, if_neg hleft]
    split_ifs <;> simp

theorem head?_dropWhile_ne_slash (h : pos.dropWhile (· ≠ slash) ≠ []) :
    (pos.dropWhile (· ≠ slash)).head? = some slash := by
  obtain ⟨c, rest, hrest⟩ := List.exists_cons_of_ne_nil h
  have hc := List.head?_dropWhile_not (· ≠ slash) pos
  rw [hrest] at hc ⊢
  simpa using hc

theorem getLast?_eq_slash_iff (pos : Path) : pos.getLast? = some slash ↔
    if (pos.dropWhile (· ≠ slash)).dropWhile (· = slash) = [] then
      (pos.dropWhile (· ≠ slash)).head? = some slash
    else ((pos.dropWhile (· ≠ slash)).dropWhile (· = slash)).getLast? = some slash := by
  have hpos := List.takeWhile_append_dropWhile (p := (· ≠ slash)) (l := pos)
  have hrest := List.takeWhile_append_dropWhile (p := (· = slash)) (l := pos.dropWhile (· ≠ slash))
  split_ifs with hnil
  · rw [hnil, List.append_nil] at hrest
    by_cases hdrop : pos.dropWhile (· ≠ slash) = []
    · -- There is no slash at all.
      rw [hdrop, List.append_nil] at hpos
      rw [hdrop, ← hpos]
      refine iff_of_false (fun h => ?_) (by simp)
      simpa using List.mem_takeWhile_imp (List.mem_of_getLast? h)
    · refine iff_of_true ?_ (head?_dropWhile_ne_slash hdrop)
      rw [← hpos, List.getLast?_append_of_ne_nil _ hdrop, List.getLast?_eq_some_getLast hdrop]
      have hall : ∀ c ∈ pos.dropWhile (· ≠ slash), c = slash := by
        rw [← hrest]
        exact fun c hc => by simpa using List.mem_takeWhile_imp hc
      exact congrArg some (hall _ (List.getLast_mem hdrop))
  · have hdrop : pos.dropWhile (· ≠ slash) ≠ [] := fun h => hnil (by rw [h]; rfl)
    rw [← hpos, List.getLast?_append_of_ne_nil _ hdrop, ← hrest, List.getLast?_append_of_ne_nil _ hnil,
      hrest, hpos]

theorem namesDir_iff (hpos : pos ≠ []) (hhead : pos.head? ≠ some slash) : NamesDir slash dot pos ↔
    if (pos.dropWhile (· ≠ slash)).dropWhile (· = slash) = [] then
      (pos.dropWhile (· ≠ slash)).head? = some slash ∨ pos.takeWhile (· ≠ slash) = [dot]
    else NamesDir slash dot ((pos.dropWhile (· ≠ slash)).dropWhile (· = slash)) := by
  obtain ⟨-, hcomponents⟩ := components_eq_cons hpos hhead
  rw [NamesDir, getLast?_eq_slash_iff, hcomponents]
  by_cases hnil : (pos.dropWhile (· ≠ slash)).dropWhile (· = slash) = []
  · rw [if_pos hnil, if_pos hnil, hnil]
    simp
  · obtain ⟨-, hrest⟩ := components_eq_cons hnil (head?_dropWhile_slash _)
    have hne : components slash ((pos.dropWhile (· ≠ slash)).dropWhile (· = slash)) ≠ [] := by
      rw [hrest]
      exact List.cons_ne_nil _ _
    rw [if_neg hnil, if_neg hnil, List.getLast?_cons_of_ne_nil hne, NamesDir]

theorem canonicalizeLoop_records (n : ℕ) (pos : Path) (c : Canonicalization) (hn : pos.length ≤ n)
    (hhead : pos.head? ≠ some slash) :
    (canonicalizeLoop n pos c).requiredSubpaths =
        c.requiredSubpaths ++ (popped dot c.parts (components slash pos)).map subpathOf ∧
      (canonicalizeLoop n pos c).hasTrailingSlash =
        if pos = [] then c.hasTrailingSlash else decide (NamesDir slash dot pos) := by
  induction n generalizing pos c with
  | zero =>
    obtain rfl : pos = [] := List.length_eq_zero_iff.1 (Nat.le_zero.1 hn)
    simp [canonicalizeLoop, popped]
  | succ n ih =>
    unfold canonicalizeLoop
    by_cases hpos : pos = []
    · rw [if_pos hpos, if_pos hpos, hpos]
      simp [popped]
    rw [if_neg hpos, if_neg hpos]
    obtain ⟨-, hcomponents⟩ := components_eq_cons hpos hhead
    have hlen := length_afterComponent_lt hpos hhead
    have hnext := head?_dropWhile_slash (pos.dropWhile (· ≠ slash))
    obtain ⟨hsubpaths, htrailing⟩ := ih _ (c.component (pos.takeWhile (· ≠ slash))
      ((pos.dropWhile (· ≠ slash)).head? = some slash))
      (Nat.le_of_lt_succ (hlen.trans_le hn)) hnext
    constructor
    · rw [hsubpaths, c.component_parts, c.component_subpaths, hcomponents, popped, List.map_append,
        List.append_assoc]
    · rw [htrailing, c.component_hasTrailingSlash]
      have hiff := namesDir_iff hpos hhead
      by_cases hnil : (pos.dropWhile (· ≠ slash)).dropWhile (· = slash) = []
      · rw [if_pos hnil] at hiff ⊢
        simp [hiff]
      · rw [if_neg hnil] at hiff ⊢
        simp [hiff]

theorem namesDir_dropWhile_iff (h : path.dropWhile (· = slash) ≠ []) :
    NamesDir slash dot (path.dropWhile (· = slash)) ↔ NamesDir slash dot path := by
  have hpath := List.takeWhile_append_dropWhile (p := (· = slash)) (l := path)
  have hlast : path.getLast? = (path.dropWhile (· = slash)).getLast? := by
    conv_lhs => rw [← hpath]
    exact List.getLast?_append_of_ne_nil _ h
  rw [NamesDir, NamesDir, components_dropWhile, hlast]

theorem canonicalizeAbsolutePath_eq (h : path.head? = some slash) : canonicalizeAbsolutePath path =
    .ok (canonicalPath path, (popped dot [] (components slash path)).map subpathOf) := by
  obtain ⟨c, hc⟩ : ∃ c, c = canonicalizeLoop path.length (path.dropWhile (· = slash))
    ⟨[], [], false⟩ := ⟨_, rfl⟩
  obtain ⟨hparts, -⟩ := canonicalizeLoop_spec path.length (path.dropWhile (· = slash))
    ⟨[], [], false⟩ (List.dropWhile_sublist _).length_le (head?_dropWhile_slash path)
  obtain ⟨hsubpaths, htrailing⟩ := canonicalizeLoop_records path.length (path.dropWhile (· = slash))
    ⟨[], [], false⟩ (List.dropWhile_sublist _).length_le (head?_dropWhile_slash path)
  rw [← hc, components_dropWhile] at hparts hsubpaths
  rw [← hc] at htrailing
  have hlocate : c.parts = locate slash dot path := hparts
  rw [canonicalizeAbsolutePath, if_neg (not_not.2 h), ← hc]
  dsimp only
  rw [hsubpaths, List.nil_append, canonicalPath, hlocate]
  by_cases hnil : locate slash dot path = []
  · rw [if_neg (not_not.2 hnil), if_pos hnil]
  · have hne : path.dropWhile (· = slash) ≠ [] := fun hdrop => hnil (by
      rw [locate, ← components_dropWhile, hdrop]
      rfl)
    rw [if_neg hne] at htrailing
    rw [if_pos hnil, if_neg hnil, appendPartsToPath_eq, htrailing]
    simp only [namesDir_dropWhile_iff hne, decide_eq_true_eq, List.nil_append]

end

/-! ## The canonical path as a value -/

section

variable {path : Path}

theorem names_locate (path : Path) : ∀ part ∈ locate slash dot path, IsName slash dot part :=
  names_foldl_follow (fun _ => of_mem_components) (by simp)

/-- The canonical path with its names. -/
def canonicalOf (path : Path) : Canonical slash dot where
  parts := locate slash dot path
  trailing := locate slash dot path = [] ∨ NamesDir slash dot path
  names := names_locate path
  root := fun h => by simp [h]

theorem toPath_canonicalOf (path : Path) : (canonicalOf path).toPath = canonicalPath path := by
  rw [Canonical.toPath, canonicalPath, canonicalOf]
  by_cases hnil : locate slash dot path = []
  · simp [hnil, render]
  · simp [hnil]

theorem canonicalPath_toPath (c : Canonical slash dot) : canonicalPath c.toPath = c.toPath := by
  rw [canonicalPath, c.locate_toPath, Canonical.toPath]
  by_cases hnil : c.parts = []
  · rw [if_pos hnil, hnil, c.root hnil]
    rfl
  · have hnamesDir := c.namesDir_iff
    rw [Canonical.toPath] at hnamesDir
    simp only [hnil, if_false, hnamesDir]

theorem canonicalizeAbsolutePath_toPath (c : Canonical slash dot) :
    canonicalizeAbsolutePath c.toPath = .ok (c.toPath, []) := by
  rw [canonicalizeAbsolutePath_eq c.head?_toPath, canonicalPath_toPath, c.components_toPath,
    popped_of_names c.names]
  rfl

theorem traversable_subpathOf {tree : FileTree UInt8} {dir : List Path}
    (hnames : ∀ part ∈ dir, IsName slash dot part) :
    tree.Traversable slash dot (subpathOf dir) ↔ tree.isDir dir := by
  have hiff : tree.Traversable slash dot (subpathOf dir) ↔
      tree.here dir ∧ (true = true → tree.isDir dir) :=
    Canonical.traversable_iff ⟨dir, true, hnames, fun _ => rfl⟩
  exact hiff.trans ⟨fun h => h.2 rfl, fun h => ⟨tree.here_of_isDir dir h, fun _ => h⟩⟩

theorem traversable_iff_subpaths (tree : FileTree UInt8) (path : Path) :
    tree.Traversable slash dot path ↔
      (∀ subpath ∈ (popped dot [] (components slash path)).map subpathOf,
        tree.Traversable slash dot subpath) ∧ tree.Traversable slash dot (canonicalPath path) := by
  have hnames : ∀ dir ∈ popped dot [] (components slash path), ∀ part ∈ dir, IsName slash dot part :=
    names_popped (fun _ => of_mem_components) (by simp)
  rw [LexicalPath.traversable_iff, ← toPath_canonicalOf, (canonicalOf path).traversable_iff,
    List.forall_mem_map]
  refine and_congr (forall₂_congr fun dir hmem => (traversable_subpathOf (hnames dir hmem)).symm)
    (and_congr_right fun _ => ⟨fun h htrailing => ?_, fun h hnamesDir => h ?_⟩)
  · rcases of_decide_eq_true htrailing with hnil | hnamesDir
    · change tree.isDir (locate slash dot path)
      rw [hnil]
      exact tree.isDir_root
    · exact h hnamesDir
  · exact decide_eq_true (Or.inr hnamesDir)

/-- For every absolute path, the two results of `CanonicalizeAbsolutePath` are as they are to be. -/
theorem canonicalizes (h : path.head? = some slash) : ∃ realPath requiredSubpaths,
    canonicalizeAbsolutePath path = .ok (realPath, requiredSubpaths) ∧
      Canonicalizes path realPath requiredSubpaths := by
  have hpath := toPath_canonicalOf path
  refine ⟨_, _, canonicalizeAbsolutePath_eq h, rfl, ?_, ?_, ?_, rfl, fun tree =>
    traversable_iff_subpaths tree path⟩
  · rw [← hpath, Canonical.components_toPath]
    exact names_locate path
  · rw [← hpath, Canonical.components_toPath, Canonical.toPath]
    cases (canonicalOf path).trailing <;> simp
  · rw [← hpath]
    exact canonicalizeAbsolutePath_toPath _

theorem canonicalizes_dots : ∃ realPath requiredSubpaths,
    canonicalizeAbsolutePath (ByteImage.ofString "//a/./b/../c/.") = .ok (realPath, requiredSubpaths) ∧
      Canonicalizes (ByteImage.ofString "//a/./b/../c/.") realPath requiredSubpaths :=
  canonicalizes (by decide)

end

end SandboxingNaCl
