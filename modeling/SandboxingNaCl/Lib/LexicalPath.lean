import Mathlib.Data.List.Basic
import Mathlib.Data.List.Induction

/-!
# Path names

A path is a list of characters in which `sep` separates names, and `locate` is the list of names it
leads to from the root when `dot` stands for a directory itself and `dot dot` for the one above it,
the root being above itself.  A `Canonical` path is one that spells its location.
-/

namespace LexicalPath

variable {α : Type*} [DecidableEq α]

/-- What stands between the separators, without the empty names. -/
def components (sep : α) (path : List α) : List (List α) :=
  (path.splitOn sep).filter (· ≠ [])

/-- One name followed from a directory. -/
def follow (dot : α) (dir : List (List α)) (part : List α) : List (List α) :=
  if part = [dot, dot] then dir.dropLast
  else if part = [dot] then dir
  else dir ++ [part]

def locate (sep dot : α) (path : List α) : List (List α) :=
  (components sep path).foldl (follow dot) []

def render (sep : α) (parts : List (List α)) : List α := parts.flatMap (sep :: ·)

/-- The name of a file or a directory. -/
structure IsName (sep dot : α) (part : List α) : Prop where
  ne_nil : part ≠ []
  notMem : sep ∉ part
  ne_dot : part ≠ [dot]
  ne_dotdot : part ≠ [dot, dot]

/-- An absolute path of proper names, with a separator at the end or none. -/
structure Canonical (sep dot : α) where
  parts : List (List α)
  trailing : Bool
  names : ∀ part ∈ parts, IsName sep dot part
  root : parts = [] → trailing = true

def Canonical.toPath {sep dot : α} (c : Canonical sep dot) : List α :=
  render sep c.parts ++ if c.trailing then [sep] else []

section Components

variable {sep dot : α} {part path path' : List α} {parts dir : List (List α)}

@[simp] theorem components_nil : components sep [] = [] := rfl

theorem components_append_sep (path path' : List α) :
    components sep (path ++ sep :: path') = components sep path ++ components sep path' := by
  unfold components
  rw [List.splitOn_append_cons_self, List.filter_append]

@[simp] theorem components_sep_cons (path : List α) :
    components sep (sep :: path) = components sep path :=
  components_append_sep [] path

theorem components_of_notMem (hne : part ≠ []) (hsep : sep ∉ part) :
    components sep part = [part] := by
  unfold components
  rw [List.splitOn_eq_singleton hsep]
  simpa using hne

theorem components_render (h : ∀ part ∈ parts, IsName sep dot part) :
    components sep (render sep parts) = parts := by
  induction parts using List.reverseRecOn with
  | nil => rfl
  | append_singleton parts part ih =>
    have hpart := h part (by simp)
    have hparts : ∀ p ∈ parts, IsName sep dot p := fun p hp => h p (by simp [hp])
    have hrender : render sep (parts ++ [part]) = render sep parts ++ sep :: part := by
      simp [render]
    rw [hrender, components_append_sep, ih hparts,
      components_of_notMem hpart.ne_nil hpart.notMem]

/-- A component is not empty and has no separator in it. -/
theorem of_mem_components (h : part ∈ components sep path) : part ≠ [] ∧ sep ∉ part := by
  obtain ⟨hmem, hne⟩ := List.mem_filter.1 h
  refine ⟨of_decide_eq_true hne, ?_⟩
  clear h hne
  induction path generalizing part with
  | nil =>
    rw [List.splitOn_nil, List.mem_singleton] at hmem
    rw [hmem]
    exact List.not_mem_nil
  | cons c path ih =>
    rw [List.splitOn_cons_eq_if_modifyHead] at hmem
    split_ifs at hmem with hc
    · rcases List.mem_cons.1 hmem with rfl | hmem
      · exact List.not_mem_nil
      · exact ih hmem
    · have hsep : sep ≠ c := fun heq => hc (by rw [heq]; exact beq_self_eq_true c)
      obtain ⟨first, rest, hsplit⟩ := List.exists_cons_of_ne_nil (List.splitOn_ne_nil sep path)
      rw [hsplit] at hmem ih
      rw [List.modifyHead_cons] at hmem
      rcases List.mem_cons.1 hmem with rfl | hmem
      · have := ih List.mem_cons_self
        simp [hsep, this]
      · exact ih (List.mem_cons_of_mem _ hmem)

theorem components_dropWhile (path : List α) :
    components sep (path.dropWhile (· = sep)) = components sep path := by
  induction path with
  | nil => rfl
  | cons c path ih =>
    by_cases hc : c = sep
    · rw [List.dropWhile_cons_of_pos (by simpa using hc), ih, hc, components_sep_cons]
    · rw [List.dropWhile_cons_of_neg (by simpa using hc)]

/-- The first component of a path that does not begin with a separator, and the others. -/
theorem components_eq_cons (hne : path ≠ []) (hhead : path.head? ≠ some sep) :
    path.takeWhile (· ≠ sep) ≠ [] ∧ components sep path = path.takeWhile (· ≠ sep) ::
      components sep ((path.dropWhile (· ≠ sep)).dropWhile (· = sep)) := by
  have hfirst : path.takeWhile (· ≠ sep) ≠ [] := by
    cases path with
    | nil => exact absurd rfl hne
    | cons c path =>
      have hc : c ≠ sep := fun h => hhead (congrArg some h)
      rw [List.takeWhile_cons_of_pos (by simpa using hc)]
      exact List.cons_ne_nil _ _
  have hsep : sep ∉ path.takeWhile (· ≠ sep) := fun h => by
    simpa using List.all_eq_true.1 List.all_takeWhile sep h
  refine ⟨hfirst, ?_⟩
  rw [components_dropWhile]
  obtain ⟨first, hfirstEq⟩ : ∃ first, first = path.takeWhile (· ≠ sep) := ⟨_, rfl⟩
  obtain ⟨rest, hrestEq⟩ : ∃ rest, rest = path.dropWhile (· ≠ sep) := ⟨_, rfl⟩
  have hpath : path = first ++ rest := by
    rw [hfirstEq, hrestEq, List.takeWhile_append_dropWhile]
  have hrest : rest.head? = none ∨ rest.head? = some sep := by
    cases hhead' : rest.head? with
    | none => exact Or.inl rfl
    | some c =>
      have hc := List.head?_dropWhile_not (· ≠ sep) path
      rw [← hrestEq, hhead'] at hc
      exact Or.inr (congrArg some (by simpa using hc))
  rw [← hfirstEq] at hfirst hsep ⊢
  rw [← hrestEq, hpath]
  cases rest with
  | nil => rw [List.append_nil, components_of_notMem hfirst hsep, components_nil]
  | cons c rest =>
    obtain rfl : c = sep := by simpa using hrest
    rw [components_append_sep, components_of_notMem hfirst hsep, components_sep_cons]
    rfl

theorem names_follow (hdir : ∀ p ∈ dir, IsName sep dot p) (hne : part ≠ []) (hsep : sep ∉ part) :
    ∀ p ∈ follow dot dir part, IsName sep dot p := by
  intro p hp
  unfold follow at hp
  split_ifs at hp with hdotdot hdot
  · exact hdir p ((List.dropLast_subset dir) hp)
  · exact hdir p hp
  · rcases List.mem_append.1 hp with hp | hp
    · exact hdir p hp
    · rw [List.mem_singleton.1 hp]
      exact ⟨hne, hsep, hdot, hdotdot⟩

theorem names_foldl_follow (hparts : ∀ part ∈ parts, part ≠ [] ∧ sep ∉ part)
    (hdir : ∀ p ∈ dir, IsName sep dot p) :
    ∀ p ∈ parts.foldl (follow dot) dir, IsName sep dot p := by
  induction parts generalizing dir with
  | nil => exact hdir
  | cons part parts ih =>
    obtain ⟨hne, hsep⟩ := hparts part List.mem_cons_self
    exact ih (fun p hp => hparts p (List.mem_cons_of_mem _ hp)) (names_follow hdir hne hsep)

theorem foldl_follow_of_names (h : ∀ part ∈ parts, IsName sep dot part) (dir : List (List α)) :
    parts.foldl (follow dot) dir = dir ++ parts := by
  induction parts generalizing dir with
  | nil => simp
  | cons part parts ih =>
    have hpart := h part List.mem_cons_self
    rw [List.foldl_cons, ih fun p hp => h p (List.mem_cons_of_mem _ hp)]
    unfold follow
    rw [if_neg hpart.ne_dotdot, if_neg hpart.ne_dot]
    simp

end Components

/-! ## Canonical paths -/

namespace Canonical

variable {sep dot : α}

theorem components_toPath (c : Canonical sep dot) : components sep c.toPath = c.parts := by
  unfold toPath
  cases c.trailing with
  | false =>
    rw [if_neg Bool.false_ne_true, List.append_nil]
    exact components_render c.names
  | true =>
    rw [if_pos rfl, components_append_sep, components_render c.names, components_nil,
      List.append_nil]

omit [DecidableEq α] in
theorem exists_toPath_eq (c : Canonical sep dot) : ∃ rest, c.toPath = sep :: rest := by
  unfold toPath
  cases hparts : c.parts with
  | nil =>
    rw [c.root hparts]
    exact ⟨[], rfl⟩
  | cons part parts => exact ⟨_, rfl⟩

omit [DecidableEq α] in
theorem head?_toPath (c : Canonical sep dot) : c.toPath.head? = some sep := by
  obtain ⟨rest, hrest⟩ := c.exists_toPath_eq
  rw [hrest]
  rfl

theorem locate_render_append (c : Canonical sep dot) {dir : List (List α)}
    (hdir : ∀ part ∈ dir, IsName sep dot part) :
    locate sep dot (render sep dir ++ c.toPath) = dir ++ c.parts := by
  obtain ⟨rest, hrest⟩ := c.exists_toPath_eq
  have hparts : components sep rest = c.parts := by
    rw [← c.components_toPath, hrest, components_sep_cons]
  unfold locate
  rw [hrest, components_append_sep, hparts, components_render hdir, List.foldl_append,
    foldl_follow_of_names hdir, foldl_follow_of_names c.names, List.nil_append]

end Canonical

end LexicalPath
