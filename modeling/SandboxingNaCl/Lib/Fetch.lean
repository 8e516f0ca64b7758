import Mathlib.Data.List.Basic

/-!
# Reads from a memory that others write

A `Fetch` is a program that reads cells of a memory one at a time.  Other threads write the memory
between its reads: an interleaving is the list of the writes that come just before each read, and
`Fetch.runWith` is the result under one.  `Fetch.Returns` collects the results over all sequences of
values read, and `Fetch.returns_iff_exists_runWith` shows that these are the results over all
interleavings.
-/

/-- A program that reads cells of type `W` at addresses of type `A`. -/
inductive Fetch (A W α : Type)
  | pure (a : α)
  | read (addr : A) (next : W → Fetch A W α)

namespace Fetch

variable {A W α β : Type}

protected def bind : Fetch A W α → (α → Fetch A W β) → Fetch A W β
  | pure a, f => f a
  | read addr next, f => read addr fun v => (next v).bind f

instance : Monad (Fetch A W) where
  pure := pure
  bind := Fetch.bind

def fetch (addr : A) : Fetch A W W := read addr pure

/-- Read several cells in order. -/
def fetchList : List A → Fetch A W (List W)
  | [] => return []
  | addr :: addrs => do
      let v ← fetch addr
      let vs ← fetchList addrs
      return v :: vs

/-! ## Interleavings -/

section Run

variable [DecidableEq A]

def applyWrites (m : A → W) (writes : List (A × W)) : A → W :=
  writes.foldl (fun m w => Function.update m w.1 w.2) m

/-- The result when the writes `writes n` come just before the `n`-th read. -/
def runWith : Fetch A W α → (A → W) → (ℕ → List (A × W)) → α
  | pure a, _, _ => a
  | read addr next, m, writes =>
    (next (applyWrites m (writes 0) addr)).runWith (applyWrites m (writes 0))
      fun n => writes (n + 1)

/-- The result on a memory nobody else writes. -/
def run : Fetch A W α → (A → W) → α
  | pure a, _ => a
  | read addr next, m => (next (m addr)).run m

omit [DecidableEq A] in
@[simp] theorem run_pure (a : α) (m : A → W) : (Pure.pure a : Fetch A W α).run m = a := rfl

omit [DecidableEq A] in
@[simp] theorem run_fetch (addr : A) (m : A → W) : (fetch addr).run m = m addr := rfl

omit [DecidableEq A] in
@[simp] theorem run_ite (c : Prop) [Decidable c] (p q : Fetch A W α) (m : A → W) :
    (if c then p else q).run m = if c then p.run m else q.run m := by
  split_ifs <;> rfl

omit [DecidableEq A] in
@[simp] theorem run_bind (p : Fetch A W α) (f : α → Fetch A W β) (m : A → W) :
    (p >>= f).run m = (f (p.run m)).run m := by
  induction p with
  | pure a => rfl
  | read addr next ih => exact ih (m addr)

omit [DecidableEq A] in
@[simp] theorem run_fetchList (addrs : List A) (m : A → W) : (fetchList addrs).run m = addrs.map m := by
  induction addrs with
  | nil => rfl
  | cons addr addrs ih =>
    rw [fetchList, run_bind, run_bind, ih]
    rfl

theorem applyWrites_of_notMem {m : A → W} {writes : List (A × W)} {addr : A}
    (h : ∀ w ∈ writes, w.1 ≠ addr) : applyWrites m writes addr = m addr := by
  induction writes generalizing m with
  | nil => rfl
  | cons w writes ih =>
    rw [List.forall_mem_cons] at h
    exact (ih h.2).trans (Function.update_of_ne h.1.symm _ _)

end Run

/-! ## All results -/

/-- Some sequence of values read makes the program return `a`. -/
def Returns : Fetch A W α → α → Prop
  | pure a, b => a = b
  | read _ next, b => ∃ v, (next v).Returns b

@[simp] theorem returns_pure {a b : α} : (Pure.pure a : Fetch A W α).Returns b ↔ a = b := Iff.rfl

@[simp] theorem returns_fetch {addr : A} {v : W} : (fetch addr : Fetch A W W).Returns v :=
  ⟨v, rfl⟩

@[simp] theorem returns_bind {p : Fetch A W α} {f : α → Fetch A W β} {b : β} :
    (p >>= f).Returns b ↔ ∃ a, p.Returns a ∧ (f a).Returns b := by
  induction p with
  | pure a =>
    show (f a).Returns b ↔ _
    simp [Returns]
  | read addr next ih =>
    show (∃ v, (next v >>= f).Returns b) ↔ _
    simp only [ih, Returns]
    constructor
    · rintro ⟨v, a, ha, hb⟩
      exact ⟨a, ⟨v, ha⟩, hb⟩
    · rintro ⟨a, ⟨v, ha⟩, hb⟩
      exact ⟨v, a, ha, hb⟩

@[simp] theorem returns_fetchList {addrs : List A} {vs : List W} :
    (fetchList addrs).Returns vs ↔ vs.length = addrs.length := by
  induction addrs generalizing vs with
  | nil => simp [fetchList, eq_comm]
  | cons addr addrs ih =>
    cases vs with
    | nil => simp [fetchList]
    | cons v vs => simp [fetchList, ih]

/-- The program can return exactly the results it has over all interleavings. -/
theorem returns_iff_exists_runWith [DecidableEq A] (p : Fetch A W α) (m : A → W) (a : α) :
    p.Returns a ↔ ∃ writes, p.runWith m writes = a := by
  induction p generalizing m with
  | pure b => simp [Returns, runWith]
  | read addr next ih =>
    constructor
    · rintro ⟨v, hv⟩
      obtain ⟨writes, hw⟩ := (ih v (Function.update m addr v)).1 hv
      refine ⟨fun | 0 => [(addr, v)] | n + 1 => writes n, ?_⟩
      simpa only [runWith, applyWrites, List.foldl_cons, List.foldl_nil,
        Function.update_self] using hw
    · rintro ⟨writes, hw⟩
      exact ⟨_, (ih _ _).2 ⟨_, hw⟩⟩

/-! ## Postconditions -/

/-- Every result of the program satisfies `post`. -/
def Ensures (p : Fetch A W α) (post : α → Prop) : Prop := ∀ a, p.Returns a → post a

@[simp] theorem ensures_pure {a : α} {post : α → Prop} :
    (Pure.pure a : Fetch A W α).Ensures post ↔ post a := by
  simp [Ensures]

@[simp] theorem ensures_bind {p : Fetch A W α} {f : α → Fetch A W β} {post : β → Prop} :
    (p >>= f).Ensures post ↔ p.Ensures fun a => (f a).Ensures post := by
  simp only [Ensures, returns_bind]
  exact ⟨fun h a ha b hb => h b ⟨a, ha, hb⟩, fun h b ⟨a, ha, hb⟩ => h a ha b hb⟩

@[simp] theorem ensures_ite {c : Prop} [Decidable c] {p q : Fetch A W α} {post : α → Prop} :
    (if c then p else q).Ensures post ↔ (c → p.Ensures post) ∧ (¬ c → q.Ensures post) := by
  split_ifs with h <;> simp [h]

@[simp] theorem ensures_fetch {addr : A} {post : W → Prop} :
    (fetch addr).Ensures post ↔ ∀ v, post v := by
  simp [Ensures]

@[simp] theorem ensures_fetchList {addrs : List A} {post : List W → Prop} :
    (fetchList addrs).Ensures post ↔ ∀ vs, vs.length = addrs.length → post vs := by
  simp [Ensures]

theorem ensures_of_forall {p : Fetch A W α} {post : α → Prop} (h : ∀ a, post a) :
    p.Ensures post := fun a _ => h a

theorem ensures_iff_forall_runWith [DecidableEq A] (p : Fetch A W α) (m : A → W)
    (post : α → Prop) : p.Ensures post ↔ ∀ writes, post (p.runWith m writes) := by
  constructor
  · exact fun h writes => h _ ((returns_iff_exists_runWith p m _).2 ⟨writes, rfl⟩)
  · intro h a ha
    obtain ⟨writes, rfl⟩ := (returns_iff_exists_runWith p m a).1 ha
    exact h writes

/-! ## Programs that read a fixed set of cells -/

/-- Every cell the program can read is in `s`. -/
def ReadsIn (s : Set A) : Fetch A W α → Prop
  | pure _ => True
  | read addr next => addr ∈ s ∧ ∀ v, (next v).ReadsIn s

variable {s : Set A}

theorem readsIn_pure (a : α) : (Pure.pure a : Fetch A W α).ReadsIn s := trivial

theorem readsIn_fetch {addr : A} (h : addr ∈ s) : (fetch addr : Fetch A W W).ReadsIn s :=
  ⟨h, fun _ => trivial⟩

theorem ReadsIn.ite {c : Prop} [Decidable c] {p q : Fetch A W α} (hp : p.ReadsIn s)
    (hq : q.ReadsIn s) : (if c then p else q).ReadsIn s := by
  split_ifs <;> assumption

theorem ReadsIn.bind {p : Fetch A W α} {f : α → Fetch A W β} (hp : p.ReadsIn s)
    (hf : ∀ a, (f a).ReadsIn s) : (p >>= f).ReadsIn s := by
  induction p with
  | pure a => exact hf a
  | read addr next ih => exact ⟨hp.1, fun v => ih v (hp.2 v)⟩

theorem readsIn_fetchList {addrs : List A} (h : ∀ addr ∈ addrs, addr ∈ s) :
    (fetchList addrs : Fetch A W (List W)).ReadsIn s := by
  induction addrs with
  | nil => trivial
  | cons addr addrs ih =>
    rw [List.forall_mem_cons] at h
    exact ⟨h.1, fun v => (ih h.2).bind fun _ => trivial⟩

theorem ReadsIn.run_congr {p : Fetch A W α} (hp : p.ReadsIn s) {m m' : A → W}
    (h : ∀ addr ∈ s, m addr = m' addr) : p.run m = p.run m' := by
  induction p with
  | pure a => rfl
  | read addr next ih =>
    rw [run, run, h addr hp.1]
    exact ih _ (hp.2 _)

/-- Without writes to the cells after the first read, a run is one on an unchanging memory. -/
theorem ReadsIn.runWith_eq_run [DecidableEq A] {p : Fetch A W α} (hp : p.ReadsIn s)
    {m : A → W} {writes : ℕ → List (A × W)} (h : ∀ n, ∀ w ∈ writes (n + 1), w.1 ∉ s) :
    p.runWith m writes = p.run (applyWrites m (writes 0)) := by
  have aux : ∀ (q : Fetch A W α) (m : A → W) (writes : ℕ → List (A × W)), q.ReadsIn s →
      (∀ n, ∀ w ∈ writes n, w.1 ∉ s) → q.runWith m writes = q.run m := by
    intro q
    induction q with
    | pure a => exact fun _ _ _ _ => rfl
    | read addr next ih =>
      intro m writes hq hw
      have hm : ∀ a ∈ s, applyWrites m (writes 0) a = m a := fun a ha =>
        applyWrites_of_notMem fun w hmem heq => hw 0 w hmem (heq ▸ ha)
      rw [runWith, ih _ _ _ (hq.2 _) fun n => hw (n + 1), run, hm addr hq.1]
      exact (hq.2 _).run_congr hm
  cases p with
  | pure a => rfl
  | read addr next => exact aux _ _ _ (hp.2 _) h

end Fetch
