import Mathlib.Data.Int.Notation
import Mathlib.Data.List.Basic

/-!
# Binary search

`bsearch cmp table` looks for an entry that `cmp` finds equal to a key, which the comparison has
fixed: `cmp entry` is positive if the key comes after the entry.  If the comparison fits the order of
the table, an entry is found exactly when there is one.
-/

namespace BinarySearch

variable {α : Type*} {cmp : α → ℤ} {table : List α}

/-- The search among the entries from the `l`-th to before the `u`-th. -/
def searchRange (cmp : α → ℤ) (table : List α) (l u : ℕ) : Option ℕ :=
  if l < u then
    match table[(l + u) / 2]? with
    | none => none
    | some entry =>
      if cmp entry < 0 then searchRange cmp table l ((l + u) / 2)
      else if 0 < cmp entry then searchRange cmp table ((l + u) / 2 + 1) u
      else some ((l + u) / 2)
  else none
termination_by u - l

/-- The index of an entry that is equal to the key. -/
def bsearch (cmp : α → ℤ) (table : List α) : Option ℕ := searchRange cmp table 0 table.length

/-- The entries that the key comes after are the first ones, those that it comes before the last. -/
def Fits (cmp : α → ℤ) (table : List α) : Prop :=
  table.Pairwise fun a b => (cmp a < 0 → cmp b < 0) ∧ (0 < cmp b → 0 < cmp a)

theorem exists_of_searchRange {l u i : ℕ} (h : searchRange cmp table l u = some i) :
    ∃ entry, table[i]? = some entry ∧ cmp entry = 0 := by
  fun_induction searchRange cmp table l u with
  | case1 l u hlt hnone => cases h
  | case2 l u hlt entry hentry hneg ih => exact ih h
  | case3 l u hlt entry hentry hneg hpos ih => exact ih h
  | case4 l u hlt entry hentry hneg hpos =>
    cases h
    exact ⟨entry, hentry, by omega⟩
  | case5 l u hlt => cases h

theorem Fits.neg_of_lt (h : Fits cmp table) {i j : ℕ} {a b : α} (hij : i < j)
    (ha : table[i]? = some a) (hb : table[j]? = some b) (hneg : cmp a < 0) : cmp b < 0 := by
  obtain ⟨hi, rfl⟩ := List.getElem?_eq_some_iff.1 ha
  obtain ⟨hj, rfl⟩ := List.getElem?_eq_some_iff.1 hb
  exact (List.pairwise_iff_getElem.1 h i j hi hj hij).1 hneg

theorem Fits.pos_of_lt (h : Fits cmp table) {i j : ℕ} {a b : α} (hij : i < j)
    (ha : table[i]? = some a) (hb : table[j]? = some b) (hpos : 0 < cmp b) : 0 < cmp a := by
  obtain ⟨hi, rfl⟩ := List.getElem?_eq_some_iff.1 ha
  obtain ⟨hj, rfl⟩ := List.getElem?_eq_some_iff.1 hb
  exact (List.pairwise_iff_getElem.1 h i j hi hj hij).2 hpos

theorem isSome_searchRange (h : Fits cmp table) {l u k : ℕ} {key : α} (hu : u ≤ table.length)
    (hl : l ≤ k) (hk : k < u) (hkey : table[k]? = some key) (hzero : cmp key = 0) :
    (searchRange cmp table l u).isSome := by
  fun_induction searchRange cmp table l u with
  | case1 l u hlt hnone =>
    have := List.getElem?_eq_none_iff.1 hnone
    omega
  | case2 l u hlt entry hentry hneg ih =>
    -- The key comes before the entry in the middle, so its equal does not come later.
    have hmid : k < (l + u) / 2 := by
      rcases Nat.lt_trichotomy k ((l + u) / 2) with hlt' | heq | hgt
      · exact hlt'
      · rw [heq, hentry] at hkey
        cases hkey
        omega
      · have := h.neg_of_lt hgt hentry hkey hneg
        omega
    exact ih (by omega) hl hmid
  | case3 l u hlt entry hentry hneg hpos ih =>
    have hmid : (l + u) / 2 < k := by
      rcases Nat.lt_trichotomy k ((l + u) / 2) with hlt' | heq | hgt
      · have := h.pos_of_lt hlt' hkey hentry hpos
        omega
      · rw [heq, hentry] at hkey
        cases hkey
        omega
      · exact hgt
    exact ih hu hmid hk
  | case4 l u hlt entry hentry hneg hpos => rfl
  | case5 l u hlt => omega

theorem isSome_bsearch_iff (h : Fits cmp table) :
    (bsearch cmp table).isSome ↔ ∃ entry ∈ table, cmp entry = 0 := by
  constructor
  · intro hsome
    obtain ⟨i, hi⟩ := Option.isSome_iff_exists.1 hsome
    obtain ⟨entry, hentry, hzero⟩ := exists_of_searchRange hi
    exact ⟨entry, List.mem_of_getElem? hentry, hzero⟩
  · rintro ⟨entry, hmem, hzero⟩
    obtain ⟨k, hk⟩ := List.mem_iff_getElem?.1 hmem
    obtain ⟨hlt, -⟩ := List.getElem?_eq_some_iff.1 hk
    exact isSome_searchRange h (Nat.le_refl _) (Nat.zero_le k) hlt hk hzero

end BinarySearch
