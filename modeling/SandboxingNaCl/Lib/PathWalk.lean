import SandboxingNaCl.Lib.LexicalPath

/-!
# Paths in a tree of directories

A `FileTree` is a tree of directories and files without symbolic links.  To follow a path, each place
where there is another component to come has to be a directory.  A path can be followed exactly when
the directories that its `dot dot` components leave are there and the path that is left can be
followed (`traverses_iff`).
-/

namespace LexicalPath

variable {α : Type*} [DecidableEq α]

/-- The places with something, and those of them with a directory. -/
structure FileTree (α : Type*) where
  here : List (List α) → Prop
  isDir : List (List α) → Prop
  here_of_isDir : ∀ place, isDir place → here place
  isDir_root : isDir []
  isDir_of_here : ∀ place name, here (place ++ [name]) → isDir place

/-- The components are followed from a place in a tree. -/
def FileTree.Traverse (tree : FileTree α) (dot : α) :
    List (List α) → List (List α) → Prop
  | _, [] => True
  | place, part :: parts =>
    tree.isDir place ∧ tree.here (follow dot place part) ∧ tree.Traverse dot (follow dot place part) parts

/-- The places that the `dot dot` components leave, when they are followed from a place. -/
def popped (dot : α) : List (List α) → List (List α) → List (List (List α))
  | _, [] => []
  | place, part :: parts =>
    (if part = [dot, dot] ∧ place ≠ [] then [place] else []) ++
      popped dot (follow dot place part) parts

/-- A path with a separator at its end, or `dot` as its last component, is that of a directory. -/
def NamesDir (sep dot : α) (path : List α) : Prop :=
  path.getLast? = some sep ∨ (components sep path).getLast? = some [dot]

instance (sep dot : α) (path : List α) : Decidable (NamesDir sep dot path) :=
  inferInstanceAs (Decidable (_ ∨ _))

/-- An absolute path can be followed: from the root, to a directory if a separator is at its end. -/
def FileTree.Traversable (tree : FileTree α) (sep dot : α) (path : List α) : Prop :=
  tree.Traverse dot [] (components sep path) ∧
    (path.getLast? = some sep → tree.isDir (locate sep dot path))

section

variable {tree : FileTree α} {sep dot : α} {place parts : List (List α)} {part : List α}

@[simp] theorem follow_dot (place : List (List α)) : follow dot place [dot] = place := by
  simp [follow]

omit [DecidableEq α] in
theorem getLast?_cons_of_getLast? (part : List α) {last : List α} (h : parts.getLast? = some last) :
    (part :: parts).getLast? = some last := by
  rw [List.getLast?_cons, h]
  rfl

/-- If the last place is there, and the ones that were left for the directory above, there is
something at each place on the way. -/
theorem isDir_of_popped (hpopped : ∀ dir ∈ popped dot place parts, tree.isDir dir)
    (hhere : tree.here (parts.foldl (follow dot) place))
    (hdot : parts.getLast? = some [dot] → tree.isDir (parts.foldl (follow dot) place)) :
    tree.here place ∧ (parts ≠ [] → tree.isDir place) := by
  induction parts generalizing place with
  | nil => exact ⟨hhere, fun h => absurd rfl h⟩
  | cons part parts ih =>
    rw [popped, List.forall_mem_append] at hpopped
    obtain ⟨hnext, hnextDir⟩ := ih hpopped.2 hhere fun h => hdot (getLast?_cons_of_getLast? part h)
    have hplace : tree.isDir place := by
      by_cases hdotdot : part = [dot, dot]
      · -- The place is left for the one above, unless it is the root.
        by_cases hnil : place = []
        · rw [hnil]
          exact tree.isDir_root
        · exact hpopped.1 place (by simp [hdotdot, hnil])
      · by_cases hpart : part = [dot]
        · subst hpart
          rw [follow_dot] at hnextDir
          by_cases hparts : parts = []
          · subst hparts
            simpa using hdot rfl
          · exact hnextDir hparts
        · rw [follow, if_neg hdotdot, if_neg hpart] at hnext
          exact tree.isDir_of_here place part hnext
    exact ⟨tree.here_of_isDir place hplace, fun _ => hplace⟩

theorem traverse_iff (hplace : tree.here place) (ended : Prop) :
    tree.Traverse dot place parts ∧ (ended → tree.isDir (parts.foldl (follow dot) place)) ↔
      (∀ dir ∈ popped dot place parts, tree.isDir dir) ∧
        tree.here (parts.foldl (follow dot) place) ∧
        (ended ∨ parts.getLast? = some [dot] → tree.isDir (parts.foldl (follow dot) place)) := by
  induction parts generalizing place with
  | nil => simp [FileTree.Traverse, popped, hplace]
  | cons part parts ih =>
    rw [FileTree.Traverse, popped, List.forall_mem_append, List.foldl_cons]
    constructor
    · rintro ⟨⟨hdir, hnext, htraverse⟩, hended⟩
      obtain ⟨hpopped, hhere, hlast⟩ := (ih hnext).1 ⟨htraverse, hended⟩
      refine ⟨⟨fun dir hmem => ?_, hpopped⟩, hhere, fun h => ?_⟩
      · obtain rfl : dir = place := by
          split_ifs at hmem
          · exact List.mem_singleton.1 hmem
          · cases hmem
        exact hdir
      · rcases h with h | h
        · exact hended h
        · by_cases hparts : parts = []
          · subst hparts
            obtain rfl : part = [dot] := by simpa using h
            simpa using hdir
          · refine hlast (Or.inr ?_)
            rwa [List.getLast?_cons_of_ne_nil hparts] at h
    · rintro ⟨⟨hleft, hpopped⟩, hhere, hlast⟩
      have hlast' : ended ∨ parts.getLast? = some [dot] →
          tree.isDir (parts.foldl (follow dot) (follow dot place part)) :=
        fun h => hlast (h.imp_right (getLast?_cons_of_getLast? part))
      have hnext := (isDir_of_popped hpopped hhere fun h => hlast' (Or.inr h)).1
      have hall : ∀ dir ∈ popped dot place (part :: parts), tree.isDir dir :=
        List.forall_mem_append.2 ⟨hleft, hpopped⟩
      have hdir := (isDir_of_popped hall hhere fun h => hlast (Or.inr h)).2
        (List.cons_ne_nil part parts)
      obtain ⟨htraverse, hended⟩ := (ih hnext).2 ⟨hpopped, hhere, hlast'⟩
      exact ⟨⟨hdir, hnext, htraverse⟩, hended⟩

theorem traversable_iff (path : List α) : tree.Traversable sep dot path ↔
    (∀ dir ∈ popped dot [] (components sep path), tree.isDir dir) ∧
      tree.here (locate sep dot path) ∧
      (NamesDir sep dot path → tree.isDir (locate sep dot path)) :=
  traverse_iff (tree.here_of_isDir [] tree.isDir_root) (path.getLast? = some sep)

end

section Canonical

variable {tree : FileTree α} {sep dot : α}

/-- The places that are left are spelt by proper names. -/
theorem names_popped {place parts : List (List α)} (hparts : ∀ part ∈ parts, part ≠ [] ∧ sep ∉ part)
    (hplace : ∀ part ∈ place, IsName sep dot part) :
    ∀ dir ∈ popped dot place parts, ∀ part ∈ dir, IsName sep dot part := by
  induction parts generalizing place with
  | nil => exact fun dir h => nomatch h
  | cons part parts ih =>
    obtain ⟨hne, hsep⟩ := hparts part List.mem_cons_self
    rw [popped, List.forall_mem_append]
    refine ⟨fun dir hmem => ?_, ih (fun p hp => hparts p (List.mem_cons_of_mem _ hp))
      (names_follow hplace hne hsep)⟩
    split_ifs at hmem
    · rw [List.mem_singleton.1 hmem]
      exact hplace
    · cases hmem

theorem popped_of_names {place parts : List (List α)} (h : ∀ part ∈ parts, IsName sep dot part) :
    popped dot place parts = [] := by
  induction parts generalizing place with
  | nil => rfl
  | cons part parts ih =>
    rw [popped, ih fun p hp => h p (List.mem_cons_of_mem _ hp), if_neg]
    · rfl
    · exact fun hdotdot => (h part List.mem_cons_self).ne_dotdot hdotdot.1

omit [DecidableEq α] in
theorem getLast?_ne_dot_of_names {parts : List (List α)} (h : ∀ part ∈ parts, IsName sep dot part) :
    parts.getLast? ≠ some [dot] := fun hlast =>
  (h [dot] (List.mem_of_getLast? hlast)).ne_dot rfl

omit [DecidableEq α] in
theorem Canonical.getLast?_toPath (c : Canonical sep dot) :
    c.toPath.getLast? = some sep ↔ c.trailing = true := by
  unfold toPath
  cases htrailing : c.trailing with
  | true => simp
  | false =>
    rw [if_neg Bool.false_ne_true, List.append_nil]
    refine iff_of_false (fun hlast => ?_) Bool.false_ne_true
    have hne : c.parts ≠ [] := fun h => by
      rw [c.root h] at htrailing
      cases htrailing
    -- The last character is that of the last name.
    obtain ⟨parts, part, hparts⟩ := (List.eq_nil_or_concat' c.parts).resolve_left hne
    have hname := c.names part (by simp [hparts])
    rw [hparts, render, List.flatMap_append, List.flatMap_singleton,
      List.getLast?_append_of_ne_nil _ (List.cons_ne_nil sep part),
      List.getLast?_cons_of_ne_nil hname.ne_nil] at hlast
    exact hname.notMem (List.mem_of_getLast? hlast)

theorem Canonical.namesDir_iff (c : Canonical sep dot) :
    NamesDir sep dot c.toPath ↔ c.trailing = true := by
  rw [NamesDir, c.components_toPath, c.getLast?_toPath]
  exact or_iff_left (getLast?_ne_dot_of_names c.names)

theorem Canonical.locate_toPath (c : Canonical sep dot) : locate sep dot c.toPath = c.parts := by
  rw [locate, c.components_toPath, foldl_follow_of_names c.names, List.nil_append]

theorem Canonical.traversable_iff (c : Canonical sep dot) :
    tree.Traversable sep dot c.toPath ↔
      tree.here c.parts ∧ (c.trailing = true → tree.isDir c.parts) := by
  rw [LexicalPath.traversable_iff, c.components_toPath, popped_of_names c.names, c.locate_toPath,
    c.namesDir_iff]
  simp

end Canonical

end LexicalPath
