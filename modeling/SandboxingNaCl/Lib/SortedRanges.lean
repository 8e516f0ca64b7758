import Mathlib.Data.List.InsertIdx
import Mathlib.Order.Lattice

/-!
# Sorted tables of ranges

A list of ranges `[start a, stop a)`, none of them empty, each of which ends before the next one
starts.  The last range that starts at an address or before it (`IsLastLE`) is enough to tell
whether a range is free, and where in the table it goes.
-/

namespace SortedRanges

variable {α : Type*} {start stop : α → ℕ} {l : List α} {a b x : α} {i j k lo hi ptr : ℕ}

/-- The ranges of `l` are non-empty and follow each other. -/
structure Separated (start stop : α → ℕ) (l : List α) : Prop where
  nonempty : ∀ a ∈ l, start a < stop a
  pairwise : l.Pairwise fun a b => stop a ≤ start b

theorem Separated.nil : Separated start stop [] :=
  ⟨by simp, List.Pairwise.nil⟩

theorem Separated.sublist {l' : List α} (h : Separated start stop l) (hl : l'.Sublist l) :
    Separated start stop l' :=
  ⟨fun a ha => h.nonempty a (hl.subset ha), h.pairwise.sublist hl⟩

theorem Separated.stop_le (h : Separated start stop l) (hij : i < j) (ha : l[i]? = some a)
    (hb : l[j]? = some b) : stop a ≤ start b := by
  obtain ⟨hi, rfl⟩ := List.getElem?_eq_some_iff.1 ha
  obtain ⟨hj, rfl⟩ := List.getElem?_eq_some_iff.1 hb
  exact List.pairwise_iff_getElem.1 h.pairwise i j hi hj hij

theorem Separated.lt_stop (h : Separated start stop l) (ha : l[i]? = some a) : start a < stop a :=
  h.nonempty a (List.mem_of_getElem? ha)

theorem Separated.start_le (h : Separated start stop l) (hij : i ≤ j) (ha : l[i]? = some a)
    (hb : l[j]? = some b) : start a ≤ start b := by
  rcases hij.lt_or_eq with hlt | rfl
  · exact (h.lt_stop ha).le.trans (h.stop_le hlt ha hb)
  · rw [ha, Option.some.injEq] at hb
    rw [hb]

theorem Separated.nodup (h : Separated start stop l) : l.Nodup := by
  refine h.pairwise.imp_of_mem fun {a b} ha _ hab => ?_
  rintro rfl
  exact absurd (h.nonempty a ha) (not_lt.2 hab)

theorem Separated.of_sorted (hne : ∀ a ∈ l, start a < stop a)
    (happart : l.Pairwise fun a b => stop a ≤ start b ∨ stop b ≤ start a)
    (hs : l.Pairwise fun a b => start a ≤ start b) : Separated start stop l := by
  refine ⟨hne, (happart.and hs).imp_of_mem fun {a b} _ hb hab => ?_⟩
  obtain ⟨hle | hle, hstart⟩ := hab
  · exact hle
  · exact absurd ((hne b hb).trans_le hle) (not_lt.2 hstart)

/-- `found` is the place of the last range that starts at `ptr` or before. -/
def IsLastLE (start : α → ℕ) (l : List α) (ptr : ℕ) : Option ℕ → Prop
  | none => ∀ a ∈ l, ptr < start a
  | some k => (∃ a, l[k]? = some a ∧ start a ≤ ptr) ∧
      ∀ j b, l[j]? = some b → k < j → ptr < start b

/-- A range meets one of the table exactly when it meets the last that starts before its end. -/
theorem Separated.exists_overlap_iff (h : Separated start stop l) (hlt : lo < hi)
    {found : Option ℕ} (hfound : IsLastLE start l (hi - 1) found) :
    (∃ a ∈ l, lo < stop a ∧ start a < hi) ↔
      ∃ k a, found = some k ∧ l[k]? = some a ∧ lo < stop a := by
  constructor
  · rintro ⟨a, ha, hstop, hstart⟩
    obtain ⟨j, hj⟩ := List.mem_iff_getElem?.1 ha
    cases found with
    | none =>
      have := hfound a ha
      omega
    | some k =>
      obtain ⟨⟨b, hb, -⟩, hafter⟩ := hfound
      refine ⟨k, b, rfl, hb, ?_⟩
      rcases lt_trichotomy j k with hjk | rfl | hjk
      · have := h.stop_le hjk hj hb
        have := h.lt_stop hb
        omega
      · rw [hj, Option.some.injEq] at hb
        exact hb ▸ hstop
      · have := hafter j a hj hjk
        omega
  · rintro ⟨k, a, rfl, ha, hstop⟩
    obtain ⟨⟨b, hb, hle⟩, -⟩ := hfound
    rw [ha, Option.some.injEq] at hb
    subst hb
    exact ⟨a, List.mem_of_getElem? ha, hstop, by omega⟩

def insertionPoint : Option ℕ → ℕ
  | none => 0
  | some k => k + 1

theorem IsLastLE.insertionPoint_le {found : Option ℕ} (h : IsLastLE start l ptr found) :
    insertionPoint found ≤ l.length := by
  cases found with
  | none => exact Nat.zero_le _
  | some k =>
    obtain ⟨⟨a, ha, -⟩, -⟩ := h
    exact (List.getElem?_eq_some_iff.1 ha).1

theorem insertIdx_eq_take_append_cons_drop (h : k ≤ l.length) :
    l.insertIdx k x = l.take k ++ x :: l.drop k := by
  induction k generalizing l with
  | zero => rfl
  | succ k ih =>
    cases l with
    | nil => exact absurd h (Nat.not_succ_le_zero k)
    | cons b l =>
      rw [List.insertIdx_succ_cons, ih (Nat.le_of_succ_le_succ h)]
      rfl

/-- A table stays one when a free range is inserted behind the last that starts before its end. -/
theorem Separated.insertIdx (h : Separated start stop l) (hx : start x < stop x)
    {found : Option ℕ} (hfound : IsLastLE start l (stop x - 1) found)
    (hfree : ∀ k a, found = some k → l[k]? = some a → stop a ≤ start x) :
    Separated start stop (l.insertIdx (insertionPoint found) x) := by
  have hbefore : ∀ a ∈ l.take (insertionPoint found), stop a ≤ start x := by
    intro a ha
    obtain ⟨j, hj⟩ := List.mem_iff_getElem?.1 ha
    rw [List.getElem?_take] at hj
    split_ifs at hj with hjk
    cases found with
    | none => exact absurd hjk (Nat.not_lt_zero j)
    | some k =>
      obtain ⟨⟨b, hb, -⟩, -⟩ := hfound
      rcases (Nat.lt_succ_iff.1 hjk).lt_or_eq with hlt | rfl
      · exact (h.stop_le hlt hj hb).trans ((h.lt_stop hb).le.trans (hfree k b rfl hb))
      · exact hfree j a rfl hj
  have hafter : ∀ a ∈ l.drop (insertionPoint found), stop x ≤ start a := by
    intro a ha
    obtain ⟨j, hj⟩ := List.mem_iff_getElem?.1 ha
    rw [List.getElem?_drop] at hj
    have hlt : stop x - 1 < start a := by
      cases found with
      | none => exact hfound a (List.mem_of_getElem? hj)
      | some k => exact hfound.2 _ a hj (Nat.lt_add_right j (Nat.lt_succ_self k))
    omega
  have hsplit := h.pairwise
  rw [← List.take_append_drop (insertionPoint found) l, List.pairwise_append] at hsplit
  obtain ⟨htake, hdrop, hcross⟩ := hsplit
  rw [insertIdx_eq_take_append_cons_drop hfound.insertionPoint_le]
  refine ⟨fun a ha => ?_, List.pairwise_append.2 ⟨htake, List.pairwise_cons.2 ⟨hafter, hdrop⟩, ?_⟩⟩
  · rcases List.mem_append.1 ha with ha | ha
    · exact h.nonempty a (List.mem_of_mem_take ha)
    · rcases List.mem_cons.1 ha with rfl | ha
      · exact hx
      · exact h.nonempty a (List.mem_of_mem_drop ha)
  · intro a ha b hb
    rcases List.mem_cons.1 hb with rfl | hb
    · exact hbefore a ha
    · exact hcross a ha b hb

end SortedRanges
