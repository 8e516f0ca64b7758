import Mathlib.Data.List.Basic

/-!
# Reference counts

Objects with a count of references each, destroyed when it drops to zero.  `Sound` says that the
counts are those of the owners: then taking and dropping references never touches an object that is
gone, and an object is gone exactly when nobody owns it.
-/

namespace RefCount

inductive Fault
  | overflow
  | alreadyZero
  | useAfterFree
deriving DecidableEq

/-- The objects made so far, the counts of those that exist and those destroyed, the latest first. -/
structure Objects (α : Type*) where
  created : List α
  count : α → Option ℕ
  destroyed : List α

variable {α : Type*}

/-- The counts are the numbers of owners. -/
structure Sound (objs : Objects α) (owners : α → ℕ) : Prop where
  counted : ∀ a, (objs.count a).getD 0 = owners a
  positive : ∀ a, objs.count a ≠ some 0
  created : ∀ a, objs.count a ≠ none → a ∈ objs.created
  destroyed_iff : ∀ a, a ∈ objs.destroyed ↔ a ∈ objs.created ∧ objs.count a = none
  nodup : objs.destroyed.Nodup

variable {objs objs' : Objects α} {owners owners' : α → ℕ} {a : α} {limit : ℕ}

theorem Sound.congr (h : Sound objs owners) (heq : ∀ a, owners' a = owners a) :
    Sound objs owners' := by
  obtain rfl : owners' = owners := funext heq
  exact h

theorem Sound.count_eq (h : Sound objs owners) (ha : 0 < owners a) :
    objs.count a = some (owners a) := by
  have hcount := h.counted a
  cases hget : objs.count a with
  | none =>
    rw [hget] at hcount
    simp at hcount
    omega
  | some n =>
    rw [hget] at hcount
    simpa using hcount

theorem Sound.count_eq_none (h : Sound objs owners) : objs.count a = none ↔ owners a = 0 := by
  refine ⟨fun hnone => ?_, fun hzero => ?_⟩
  · have hcount := h.counted a
    rw [hnone] at hcount
    exact hcount.symm
  · by_contra hsome
    obtain ⟨n, hn⟩ := Option.ne_none_iff_exists'.1 hsome
    have hcount := h.counted a
    rw [hn, hzero] at hcount
    exact h.positive a (hn.trans (congrArg some hcount))

theorem Sound.mem_destroyed (h : Sound objs owners) :
    a ∈ objs.destroyed ↔ a ∈ objs.created ∧ owners a = 0 := by
  rw [h.destroyed_iff, h.count_eq_none]

variable [DecidableEq α]

def create (objs : Objects α) (a : α) : Objects α :=
  { objs with created := a :: objs.created, count := Function.update objs.count a (some 1) }

/-- A reference more, as long as the count stays below `limit`. -/
def ref (limit : ℕ) (objs : Objects α) (a : α) : Except Fault (Objects α) :=
  match objs.count a with
  | none => .error .useAfterFree
  | some n =>
    if n + 1 < limit then
      .ok { objs with count := Function.update objs.count a (some (n + 1)) }
    else .error .overflow

/-- A reference less; the last one destroys the object. -/
def unref (objs : Objects α) (a : α) : Except Fault (Objects α) :=
  match objs.count a with
  | none => .error .useAfterFree
  | some 0 => .error .alreadyZero
  | some 1 =>
    .ok { objs with
      count := Function.update objs.count a none, destroyed := a :: objs.destroyed }
  | some (n + 2) => .ok { objs with count := Function.update objs.count a (some (n + 1)) }

/-- A count that is set to another number of references. -/
theorem Sound.update {n : ℕ} (h : Sound objs owners) (ha : a ∈ objs.created)
    (hcount : objs.count a ≠ none) (hn : 0 < n)
    (howners : owners' = Function.update owners a n) :
    Sound { objs with count := Function.update objs.count a (some n) } owners' := by
  subst howners
  refine ⟨fun b => ?_, fun b => ?_, fun b hb => ?_, fun b => ?_, h.nodup⟩
  · by_cases hb : b = a
    · simp [hb]
    · simpa [hb] using h.counted b
  · by_cases hb : b = a
    · simp [hb]
      omega
    · simpa [hb] using h.positive b
  · by_cases hba : b = a
    · exact hba ▸ ha
    · exact h.created b (by simpa [hba] using hb)
  · by_cases hb : b = a
    · subst hb
      simp only [Function.update_self, reduceCtorEq, and_false, iff_false]
      exact fun hmem => hcount ((h.destroyed_iff b).1 hmem).2
    · simpa [hb] using h.destroyed_iff b

theorem Sound.create (h : Sound objs owners) (ha : a ∉ objs.created)
    (howners : owners' = Function.update owners a 1) : Sound (create objs a) owners' := by
  have hnone : objs.count a = none := by
    by_contra hcount
    exact ha (h.created a hcount)
  subst howners
  refine ⟨fun b => ?_, fun b => ?_, fun b hb => ?_, fun b => ?_, h.nodup⟩
  · by_cases hb : b = a
    · simp [RefCount.create, hb]
    · simpa [RefCount.create, hb] using h.counted b
  · by_cases hb : b = a
    · simp [RefCount.create, hb]
    · simpa [RefCount.create, hb] using h.positive b
  · by_cases hba : b = a
    · simp [RefCount.create, hba]
    · refine List.mem_cons_of_mem _ (h.created b ?_)
      simpa [RefCount.create, hba] using hb
  · by_cases hb : b = a
    · subst hb
      simp only [RefCount.create, Function.update_self, reduceCtorEq, and_false, iff_false]
      exact fun hmem => ha ((h.destroyed_iff b).1 hmem).1
    · simpa [RefCount.create, hb] using h.destroyed_iff b

/-- Taking a reference to an object that has an owner fails only where the count does not fit. -/
theorem Sound.ref (h : Sound objs owners) (limit : ℕ) (ha : 0 < owners a)
    (howners : owners' = Function.update owners a (owners a + 1)) :
    ref limit objs a = .error .overflow ∨
      ∃ objs', ref limit objs a = .ok objs' ∧ objs'.created = objs.created ∧ Sound objs' owners' := by
  have hcount := h.count_eq ha
  have hsome : objs.count a ≠ none := by rw [hcount]; exact Option.some_ne_none _
  unfold RefCount.ref
  rw [hcount]
  by_cases hlt : owners a + 1 < limit
  · exact Or.inr ⟨_, if_pos hlt, rfl,
      h.update (h.created a hsome) hsome (Nat.succ_pos _) howners⟩
  · exact Or.inl (if_neg hlt)

/-- Dropping a reference of an owner succeeds. -/
theorem Sound.unref (h : Sound objs owners) (ha : 0 < owners a)
    (howners : owners' = Function.update owners a (owners a - 1)) :
    ∃ objs', unref objs a = .ok objs' ∧ objs'.created = objs.created ∧ Sound objs' owners' := by
  have hcount := h.count_eq ha
  have hsome : objs.count a ≠ none := by rw [hcount]; exact Option.some_ne_none _
  have hcreated := h.created a hsome
  unfold RefCount.unref
  rw [hcount]
  obtain hone | ⟨n, hn⟩ : owners a = 1 ∨ ∃ n, owners a = n + 2 := by
    rcases Nat.lt_or_ge (owners a) 2 with hlt | hge
    · exact Or.inl (by omega)
    · exact Or.inr ⟨owners a - 2, by omega⟩
  · rw [hone] at howners ⊢
    subst howners
    refine ⟨_, rfl, rfl, fun b => ?_, fun b => ?_, fun b hb => ?_, fun b => ?_, ?_⟩
    · by_cases hb : b = a
      · simp [hb]
      · simpa [hb] using h.counted b
    · by_cases hb : b = a
      · simp [hb]
      · simpa [hb] using h.positive b
    · by_cases hba : b = a
      · exact hba ▸ hcreated
      · exact h.created b (by simpa [hba] using hb)
    · by_cases hb : b = a
      · simp [hb, hcreated]
      · simpa [hb] using h.destroyed_iff b
    · exact List.nodup_cons.2 ⟨fun hmem => hsome ((h.destroyed_iff a).1 hmem).2, h.nodup⟩
  · rw [hn] at howners ⊢
    exact ⟨_, rfl, rfl, h.update hcreated hsome (Nat.succ_pos _) howners⟩

end RefCount
