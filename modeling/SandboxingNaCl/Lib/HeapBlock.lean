import Mathlib.Data.List.Basic

/-!
# Heap blocks

A block from the heap is the list of its elements, or has been freed.  `reallocFill` is a `realloc`
followed by a `memset` of the new elements, the pattern of an array that grows.
-/

namespace HeapBlock

inductive Fault
  | outOfBounds
  | freed

/-- How the host answers a `realloc`: whether there is memory, and what the new elements hold. -/
structure Answer (α : Type*) where
  memory : Bool
  content : ℕ → α

variable {α : Type*}

/-- The elements of a block in one of `n` elements. -/
def resized (block : List α) (n : ℕ) (content : ℕ → α) : List α :=
  (List.range n).map fun i => block[i]?.getD (content i)

/-- `memset` of `n` elements from the `i`-th on. -/
def fill (block : List α) (i n : ℕ) (a : α) : Except Fault (List α) :=
  if n = 0 then .ok block
  else if i + n ≤ block.length then
    .ok (block.take i ++ List.replicate n a ++ block.drop (i + n))
  else .error .outOfBounds

def read (block : Option (List α)) (i : ℕ) : Except Fault α :=
  match block with
  | none => .error .freed
  | some block =>
    match block[i]? with
    | none => .error .outOfBounds
    | some a => .ok a

def write (block : Option (List α)) (i : ℕ) (a : α) : Except Fault (List α) :=
  match block with
  | none => .error .freed
  | some block => if i < block.length then .ok (block.set i a) else .error .outOfBounds

/-- `realloc` to `n` elements and `memset` of `count` elements from the `i`-th on.  The block, and
whether there was memory; a block that is reallocated to nothing has been freed if the result is
null. -/
def reallocFill (block : Option (List α)) (n i count : ℕ) (a : α) (ans : Answer α) :
    Except Fault (Option (List α) × Bool) :=
  match block with
  | none => .error .freed
  | some block =>
    if ans.memory then
      (fill (resized block n ans.content) i count a).map fun block => (some block, true)
    else .ok (if n = 0 then none else some block, false)

variable {block block' : List α} {n i j count : ℕ} {a : α} {ans : Answer α}

@[simp] theorem length_resized (block : List α) (n : ℕ) (content : ℕ → α) :
    (resized block n content).length = n := by
  rw [resized, List.length_map, List.length_range]

theorem getElem?_resized {content : ℕ → α} (hn : j < n) (hblock : j < block.length) :
    (resized block n content)[j]? = block[j]? := by
  rw [resized, List.getElem?_map, List.getElem?_range hn, Option.map_some,
    List.getElem?_eq_getElem hblock]
  rfl

theorem length_fill (h : fill block i n a = .ok block') : block'.length = block.length := by
  unfold fill at h
  split_ifs at h with hzero hin
  · cases h
    rfl
  · cases h
    simp only [List.length_append, List.length_take, List.length_replicate, List.length_drop]
    omega

/-- A block that grows keeps its elements and gets new ones. -/
theorem reallocFill_spec (hi : i ≤ block.length) (hn : i ≤ n) (hpos : 0 < n) :
    reallocFill (some block) n i (n - i) a ans = .ok (some block, false) ∨
      ∃ new, reallocFill (some block) n i (n - i) a ans = .ok (some new, true) ∧ new.length = n ∧
        (∀ j < i, new[j]? = block[j]?) ∧ ∀ j, i ≤ j → j < n → new[j]? = some a := by
  unfold reallocFill
  cases ans.memory with
  | false =>
    refine Or.inl ?_
    dsimp only
    rw [if_neg (by decide), if_neg (by omega)]
  | true =>
    have hadd : i + (n - i) = n := by omega
    have hlength := length_resized block n ans.content
    have hfill : fill (resized block n ans.content) i (n - i) a =
        .ok ((resized block n ans.content).take i ++ List.replicate (n - i) a) := by
      by_cases hzero : n - i = 0
      · rw [fill, if_pos hzero, hzero, List.take_of_length_le (by omega)]
        exact congrArg _ (List.append_nil _).symm
      · rw [fill, if_neg hzero, if_pos (by omega), hadd, List.drop_of_length_le (by omega),
          List.append_nil]
    have htake : ((resized block n ans.content).take i).length = i := by
      rw [List.length_take]
      omega
    refine Or.inr ⟨(resized block n ans.content).take i ++ List.replicate (n - i) a, ?_, ?_,
      fun j hj => ?_, fun j hle hlt => ?_⟩
    · dsimp only
      rw [if_pos rfl, hfill]
      rfl
    · rw [List.length_append, htake, List.length_replicate, hadd]
    · rw [List.getElem?_append_left (by omega), List.getElem?_take_of_lt hj,
        getElem?_resized (by omega) (by omega)]
    · rw [List.getElem?_append_right (by omega), htake, List.getElem?_replicate,
        if_pos (by omega)]

end HeapBlock
