import Mathlib.Data.List.Basic

/-!
# Histories whose events fit their past

A history lists the events of a run, the latest first.  `Consistent fits` says that each event stands in
the relation `fits` to the events before it; it is kept by adding an event that does.
-/

namespace History

variable {ε : Type*} {fits : List ε → ε → Prop} {history later past : List ε} {e : ε}

def Consistent (fits : List ε → ε → Prop) : List ε → Prop
  | [] => True
  | e :: past => fits past e ∧ Consistent fits past

theorem Consistent.of_append (h : Consistent fits (later ++ past)) : Consistent fits past := by
  induction later with
  | nil => exact h
  | cons e later ih => exact ih h.2

theorem Consistent.fits_past (h : Consistent fits (later ++ e :: past)) : fits past e :=
  h.of_append.1

theorem Consistent.exists_past (h : Consistent fits history) (he : e ∈ history) :
    ∃ past, past ⊆ history ∧ fits past e := by
  obtain ⟨later, past, rfl⟩ := List.append_of_mem he
  refine ⟨past, fun x hx => ?_, h.fits_past⟩
  exact List.mem_append_right _ (List.mem_cons_of_mem _ hx)

/-- Of two events of a history, one is the earlier. -/
theorem mem_past_of_ne {e' : ε} (he : e ∈ history) (he' : e' ∈ history) (hne : e ≠ e') :
    (∃ later past, history = later ++ e :: past ∧ e' ∈ past) ∨
      ∃ later past, history = later ++ e' :: past ∧ e ∈ past := by
  induction history with
  | nil => cases he
  | cons x past ih =>
    rcases List.mem_cons.1 he with rfl | hmem
    · have hmem' := (List.mem_cons.1 he').resolve_left hne.symm
      exact .inl ⟨[], past, rfl, hmem'⟩
    · rcases List.mem_cons.1 he' with rfl | hmem'
      · exact .inr ⟨[], past, rfl, hmem⟩
      · obtain ⟨later, l, rfl, hl⟩ | ⟨later, l, rfl, hl⟩ := ih hmem hmem'
        · exact .inl ⟨x :: later, l, rfl, hl⟩
        · exact .inr ⟨x :: later, l, rfl, hl⟩

end History
