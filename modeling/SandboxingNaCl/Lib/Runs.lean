import Mathlib.Data.List.Basic

/-!
# Guarded runs

A run applies a fallible step to each action of a list in turn.  `Guarded` says that every action
meets a condition in the state the run has reached; under it, `Guarded.simulates` turns a
simulation of one step into one of the whole run.  `since` cuts the history of a run off at an event.
-/

namespace Runs

variable {σ τ α ε : Type*}

/-- Every action of the run from `s` meets `ok` in the state it is applied to. -/
def Guarded (step : σ → α → Except ε σ) (ok : σ → α → Prop) : σ → List α → Prop
  | _, [] => True
  | s, a :: l => ok s a ∧ ∀ s', step s a = .ok s' → Guarded step ok s' l

variable {step : σ → α → Except ε σ} {ok : σ → α → Prop} {s : σ} {l l' : List α}

theorem Guarded.cons {a : α} (s' : σ) (ha : ok s a) (hs : step s a = .ok s')
    (h : Guarded step ok s' l) : Guarded step ok s (a :: l) :=
  ⟨ha, fun t ht => by rw [hs] at ht; cases ht; exact h⟩

theorem Guarded.of_prefix (h : Guarded step ok s l) (hl : l' <+: l) : Guarded step ok s l' := by
  induction l' generalizing s l with
  | nil => trivial
  | cons a l' ih =>
    obtain ⟨l, rfl⟩ := hl
    exact ⟨h.1, fun s' hs => ih (h.2 s' hs) (List.prefix_append _ _)⟩

/-- The last action of a guarded run meets the condition in the state it is applied to. -/
theorem Guarded.last {a : α} {s' : σ} (h : Guarded step ok s (l ++ [a]))
    (hrun : l.foldlM step s = .ok s') : ok s' a := by
  induction l generalizing s with
  | nil => cases hrun; exact h.1
  | cons b l ih =>
    rw [List.foldlM_cons] at hrun
    cases hb : step s b with
    | error e => rw [hb] at hrun; cases hrun
    | ok t =>
      rw [hb] at hrun
      exact ih (h.2 t hb) hrun

theorem Guarded.of_forall (h : ∀ s a, ok s a) : Guarded step ok s l := by
  induction l generalizing s with
  | nil => trivial
  | cons a l ih => exact ⟨h s a, fun _ _ => ih⟩

theorem Guarded.of_forall_mem {p : α → Prop} (h : ∀ a ∈ l, p a) :
    Guarded step (fun _ a => p a) s l := by
  induction l generalizing s with
  | nil => trivial
  | cons a l ih =>
    exact ⟨h a List.mem_cons_self, fun _ _ => ih fun b hb => h b (List.mem_cons_of_mem a hb)⟩

theorem Guarded.imp_of_invariant (inv : σ → Prop) {ok' : σ → α → Prop}
    (hstep : ∀ s a s', inv s → ok s a → step s a = .ok s' → inv s')
    (himp : ∀ s a, inv s → ok s a → ok' s a) (hs : inv s) (h : Guarded step ok s l) :
    Guarded step ok' s l := by
  induction l generalizing s with
  | nil => trivial
  | cons a l ih =>
    exact ⟨himp s a hs h.1, fun s' ha => ih (hstep s a s' hs h.1 ha) (h.2 s' ha)⟩

/-- Runs the steps as long as the condition and the step go through. -/
def checkGuarded (step : σ → α → Except ε σ) (ok : σ → α → Prop) [∀ s a, Decidable (ok s a)] :
    σ → List α → Bool
  | _, [] => true
  | s, a :: l => decide (ok s a) && match step s a with
    | .ok s' => checkGuarded step ok s' l
    | .error _ => true

theorem Guarded.of_check [∀ s a, Decidable (ok s a)] (h : checkGuarded step ok s l = true) :
    Guarded step ok s l := by
  induction l generalizing s with
  | nil => trivial
  | cons a l ih =>
    obtain ⟨ha, hl⟩ := Bool.and_eq_true_iff.1 h
    refine ⟨of_decide_eq_true ha, fun s' hs => ih ?_⟩
    rwa [hs] at hl

/-- What each guarded step keeps, a guarded run keeps. -/
theorem Guarded.invariant {inv : σ → Prop} {s' : σ}
    (hstep : ∀ s a s', inv s → ok s a → step s a = .ok s' → inv s')
    (hs : inv s) (h : Guarded step ok s l) (hrun : l.foldlM step s = .ok s') : inv s' := by
  induction l generalizing s with
  | nil => cases hrun; exact hs
  | cons a l ih =>
    rw [List.foldlM_cons] at hrun
    cases ha : step s a with
    | error e => rw [ha] at hrun; cases hrun
    | ok t =>
      rw [ha] at hrun
      exact ih (hstep s a t hs h.1 ha) (h.2 t ha) hrun

theorem invariant {inv : σ → Prop} {s' : σ}
    (hstep : ∀ s a s', inv s → step s a = .ok s' → inv s') (hs : inv s)
    (hrun : l.foldlM step s = .ok s') : inv s' :=
  have h : Guarded step (fun _ _ => True) s l := Guarded.of_forall fun _ _ => trivial
  h.invariant (fun s a s' h _ ha => hstep s a s' h ha) hs hrun

/-- What the result of each guarded step satisfies, the result of a guarded run does. -/
theorem Guarded.result {good : Except ε σ → Prop}
    (hstep : ∀ s a, good (.ok s) → ok s a → good (step s a))
    (hs : good (.ok s)) (h : Guarded step ok s l) : good (l.foldlM step s) := by
  induction l generalizing s with
  | nil => exact hs
  | cons a l ih =>
    have ha := hstep s a hs h.1
    rw [List.foldlM_cons]
    cases hok : step s a with
    | error e => rwa [hok] at ha
    | ok t =>
      rw [hok] at ha
      exact ih ha (h.2 t hok)

/-- If each guarded step succeeds, keeps `inv` and acts on `abs` as `astep` does, so does a guarded
run. -/
theorem Guarded.simulates {inv : σ → Prop} {abs : σ → τ} {astep : τ → α → τ}
    (hstep : ∀ s a, inv s → ok s a → ∃ s', step s a = .ok s' ∧ inv s' ∧ abs s' = astep (abs s) a)
    (hs : inv s) (h : Guarded step ok s l) :
    ∃ s', l.foldlM step s = .ok s' ∧ inv s' ∧ abs s' = l.foldl astep (abs s) := by
  induction l generalizing s with
  | nil => exact ⟨s, rfl, hs, rfl⟩
  | cons a l ih =>
    obtain ⟨s', hok, hs', habs⟩ := hstep s a hs h.1
    obtain ⟨s'', hrun, hs'', habs'⟩ := ih hs' (h.2 s' hok)
    refine ⟨s'', ?_, hs'', ?_⟩
    · rw [List.foldlM_cons, hok]
      exact hrun
    · rw [habs', habs, List.foldl_cons]

theorem Guarded.exists_run {inv : σ → Prop}
    (hstep : ∀ s a, inv s → ok s a → ∃ s', step s a = .ok s' ∧ inv s') (hs : inv s)
    (h : Guarded step ok s l) : ∃ s', l.foldlM step s = .ok s' ∧ inv s' := by
  induction l generalizing s with
  | nil => exact ⟨s, rfl, hs⟩
  | cons a l ih =>
    obtain ⟨s', hok, hs'⟩ := hstep s a hs h.1
    rw [List.foldlM_cons, hok]
    exact ih hs' (h.2 s' hok)

/-- If `rel` relates the states of two systems, and the second one takes each guarded step of the first,
then it takes every guarded run. -/
theorem Guarded.refines {ε' : Type*} {astep : τ → α → Except ε' τ} {rel : σ → τ → Prop} {s' : σ}
    {t : τ} (h : Guarded step ok s l)
    (hstep : ∀ s t a s', rel s t → ok s a → step s a = .ok s' →
      ∃ t', astep t a = .ok t' ∧ rel s' t')
    (hs : rel s t) (hrun : l.foldlM step s = .ok s') :
    ∃ t', l.foldlM astep t = .ok t' ∧ rel s' t' := by
  induction l generalizing s t with
  | nil =>
    cases hrun
    exact ⟨t, rfl, hs⟩
  | cons a l ih =>
    rw [List.foldlM_cons] at hrun ⊢
    cases ha : step s a with
    | error e => rw [ha] at hrun; cases hrun
    | ok u =>
      rw [ha] at hrun
      obtain ⟨t₁, ht₁, hrel⟩ := hstep s t a u hs h.1 ha
      rw [ht₁]
      exact ih (h.2 u ha) hrel hrun

/-- What each step extends to the action it performs, a run extends to its actions. -/
theorem invariant_append {inv : List α → σ → Prop} {pre : List α} {s' : σ}
    (hstep : ∀ pre s a s', inv pre s → step s a = .ok s' → inv (pre ++ [a]) s')
    (hs : inv pre s) (hrun : l.foldlM step s = .ok s') : inv (pre ++ l) s' := by
  induction l generalizing s pre with
  | nil =>
    cases hrun
    rwa [List.append_nil]
  | cons a l ih =>
    rw [List.foldlM_cons] at hrun
    cases ha : step s a with
    | error e => rw [ha] at hrun; cases hrun
    | ok t =>
      rw [ha] at hrun
      rw [List.append_cons]
      exact ih (hstep pre s a t hs ha) hrun

/-- If a step between two good states meets the condition, a run through good states is guarded. -/
theorem Guarded.of_prefixes {good : σ → Prop} {s' : σ}
    (hback : ∀ s a s', good s → step s a = .ok s' → good s' → ok s a)
    (hrun : l.foldlM step s = .ok s')
    (h : ∀ l', l' <+: l → ∀ t, l'.foldlM step s = .ok t → good t) : Guarded step ok s l := by
  induction l generalizing s with
  | nil => trivial
  | cons a l ih =>
    rw [List.foldlM_cons] at hrun
    cases ha : step s a with
    | error e => rw [ha] at hrun; cases hrun
    | ok t =>
      rw [ha] at hrun
      have hinit {l' : List α} (hl : l' <+: l) (u : σ) (hu : l'.foldlM step t = .ok u) :
          good u := by
        refine h (a :: l') ((List.prefix_cons_inj a).2 hl) u ?_
        rw [List.foldlM_cons, ha]
        exact hu
      have hs := h [] (List.nil_prefix) s rfl
      exact .cons t (hback s a t hs ha (hinit List.nil_prefix t rfl)) ha
        (ih hrun fun l' hl u hu => hinit hl u hu)

/-- If the result of a step from a good state is good exactly when the step meets the condition, all
results of a run are good exactly when it is guarded. -/
theorem guarded_iff {inv : σ → Prop} {good : Except ε σ → Prop}
    (hinv : ∀ s a s', inv s → step s a = .ok s' → inv s')
    (hgood : ∀ s a, inv s → good (.ok s) → (good (step s a) ↔ ok s a))
    (hs : inv s) (hstart : good (.ok s)) :
    (∀ l', l' <+: l → good (l'.foldlM step s)) ↔ Guarded step ok s l := by
  induction l generalizing s with
  | nil =>
    refine iff_of_true (fun l' hl => ?_) trivial
    rw [List.prefix_nil.1 hl]
    exact hstart
  | cons a l ih =>
    have hone : good ([a].foldlM step s) ↔ ok s a := by
      rw [← hgood s a hs hstart]
      cases ha : step s a with
      | error e => simp [List.foldlM_cons, ha, bind, Except.bind]
      | ok s' => simp [List.foldlM_cons, ha, bind, Except.bind, pure, Except.pure]
    refine ⟨fun h => ⟨hone.1 (h [a] (by simp)), fun s' ha => ?_⟩, fun h l' hl => ?_⟩
    · refine (ih (hinv s a s' hs ha) ?_).1 fun l' hl => ?_
      · have hstep := (hgood s a hs hstart).2 (hone.1 (h [a] (by simp)))
        rwa [ha] at hstep
      · have hrun := h (a :: l') ((List.prefix_cons_inj a).2 hl)
        rwa [List.foldlM_cons, ha] at hrun
    · cases l' with
      | nil => exact hstart
      | cons b l' =>
        obtain ⟨rfl, hpre⟩ := List.cons_prefix_cons.1 hl
        have hstep := (hgood s b hs hstart).2 h.1
        rw [List.foldlM_cons]
        cases ha : step s b with
        | error e => rwa [ha] at hstep
        | ok s' =>
          rw [ha] at hstep
          exact (ih (hinv s b s' hs ha) hstep).2 (h.2 s' ha) l' hpre

theorem exists_ok_of_check {x : Except ε α} {P : α → Prop} (check : α → Bool)
    (hcheck : ∀ a, check a = true → P a)
    (h : (match x with | .ok a => check a | .error _ => false) = true) : ∃ a, x = .ok a ∧ P a := by
  cases x with
  | error e => cases h
  | ok a => exact ⟨a, rfl, hcheck a h⟩

/-! ## Histories -/

section History

variable [DecidableEq ε] {history : List ε} {e x new : ε}

/-- A history lists the events of a run, the latest first; these are the ones after `e`. -/
def since (e : ε) (history : List ε) : List ε := history.takeWhile (· ≠ e)

theorem mem_since_cons (hne : new ≠ e) (h : x ∈ since e history) : x ∈ since e (new :: history) := by
  unfold since at *
  rw [List.takeWhile_cons_of_pos (by simpa using hne)]
  exact List.mem_cons_of_mem _ h

theorem self_mem_since_cons (hne : new ≠ e) : new ∈ since e (new :: history) := by
  unfold since
  rw [List.takeWhile_cons_of_pos (by simpa using hne)]
  exact List.mem_cons_self

end History

end Runs
