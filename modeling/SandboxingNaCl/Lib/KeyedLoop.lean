import Mathlib.Data.Finmap

/-!
# Loops over keys

A loop that makes an entry of a dictionary for each of its keys and carries a state, and one that
joins the lists it gets for its keys.
-/

namespace KeyedLoop

variable {κ β σ ε : Type*}

theorem bind_eq_ok {α β : Type} {ε : Type} {x : Except ε α} {f : α → Except ε β} {b : β} :
    (x >>= f) = .ok b ↔ ∃ a, x = .ok a ∧ f a = .ok b := by
  constructor
  · intro h
    cases hx : x with
    | error e => rw [hx] at h; cases h
    | ok a => rw [hx] at h; exact ⟨a, rfl, h⟩
  · rintro ⟨a, rfl, h⟩
    exact h

theorem map_eq_ok {α β : Type} {ε : Type} {x : Except ε α} {f : α → β} {b : β} :
    x.map f = .ok b ↔ ∃ a, x = .ok a ∧ f a = b := by
  cases x with
  | error e => exact ⟨nofun, fun ⟨a, ha, _⟩ => nomatch ha⟩
  | ok a =>
    constructor
    · intro h
      exact ⟨a, rfl, Except.ok.inj h⟩
    · rintro ⟨a', ha, rfl⟩
      cases ha
      rfl

/-- `for k in keys: entries[k] = f(k)`. -/
def build [DecidableEq κ] (f : κ → σ → Except ε (β × σ)) :
    List κ → Finmap (fun _ : κ => β) → σ → Except ε (Finmap (fun _ : κ => β) × σ)
  | [], entries, s => .ok (entries, s)
  | k :: keys, entries, s =>
    match f k s with
    | .error e => .error e
    | .ok (b, s) => build f keys (entries.insert k b) s

/-- `for k in keys: yield from f(k)`. -/
def concat (f : κ → Except ε (List β)) : List κ → Except ε (List β)
  | [] => .ok []
  | k :: keys =>
    match f k with
    | .error e => .error e
    | .ok l => (concat f keys).map (l ++ ·)

/-- `dict(items)`. -/
def dictOf [DecidableEq κ] (items : List (κ × β)) : Finmap (fun _ : κ => β) :=
  items.foldl (fun d item => d.insert item.1 item.2) ∅

section Build

variable [DecidableEq κ] {f : κ → σ → Except ε (β × σ)} {keys : List κ}
  {entries entries' : Finmap fun _ : κ => β} {s s' : σ} {I : σ → Prop} {R : σ → σ → Prop}
  {Q : κ → β → σ → Prop}

/-- What each step keeps and says of its entry holds behind the loop. -/
theorem build_spec (hrefl : ∀ s, R s s) (htrans : ∀ s t u, R s t → R t u → R s u)
    (hstable : ∀ k b s t, I s → I t → Q k b s → R s t → Q k b t)
    (hstep : ∀ k ∈ keys, ∀ s, I s → ∀ b t, f k s = .ok (b, t) → I t ∧ R s t ∧ Q k b t)
    (hs : I s) (h : build f keys entries s = .ok (entries', s')) :
    I s' ∧ R s s' ∧ (∀ k ∈ keys, ∃ b, entries'.lookup k = some b ∧ Q k b s') ∧
      ∀ k, k ∉ keys → entries'.lookup k = entries.lookup k := by
  induction keys generalizing entries s with
  | nil =>
    cases h
    refine ⟨hs, hrefl _, ?_, fun k _ => rfl⟩
    intro k hk
    cases hk
  | cons k keys ih =>
    simp only [build] at h
    cases hf : f k s with
    | error e => rw [hf] at h; cases h
    | ok r =>
      obtain ⟨b, t⟩ := r
      rw [hf] at h
      obtain ⟨ht, hle, hb⟩ := hstep k List.mem_cons_self s hs b t hf
      obtain ⟨hs', hle', hin, hout⟩ :=
        ih (fun k' hk' => hstep k' (List.mem_cons_of_mem k hk')) ht h
      refine ⟨hs', htrans s t s' hle hle', ?_, ?_⟩
      · intro k' hk'
        by_cases hmem : k' ∈ keys
        · exact hin k' hmem
        · -- the entry of a key that is not met again is the one made here
          have hkk : k' = k := (List.mem_cons.1 hk').resolve_right hmem
          subst hkk
          refine ⟨b, ?_, hstable k' b t s' ht hs' hb hle'⟩
          rw [hout k' hmem, Finmap.lookup_insert]
      · intro k' hk'
        obtain ⟨hne, hmem⟩ := not_or.1 (List.mem_cons.not.1 hk')
        rw [hout k' hmem, Finmap.lookup_insert_of_ne _ hne]

theorem build_total {e : Finmap fun _ : κ => β}
    (hstep : ∀ k ∈ keys, ∀ s, I s → ∃ b t, f k s = .ok (b, t) ∧ I t) (hs : I s) :
    ∃ r s', build f keys e s = .ok (r, s') := by
  induction keys generalizing e s with
  | nil => exact ⟨e, s, rfl⟩
  | cons k keys ih =>
    obtain ⟨b, t, hf, ht⟩ := hstep k List.mem_cons_self s hs
    simp only [build, hf]
    exact ih (fun k' hk' => hstep k' (List.mem_cons_of_mem k hk')) ht

/-- Both at once, for steps that go through. -/
theorem build_run {e : Finmap fun _ : κ => β} (hrefl : ∀ s, R s s)
    (htrans : ∀ s t u, R s t → R t u → R s u)
    (hstable : ∀ k b s t, I s → I t → Q k b s → R s t → Q k b t)
    (hstep : ∀ k ∈ keys, ∀ s, I s → ∃ b t, f k s = .ok (b, t) ∧ I t ∧ R s t ∧ Q k b t)
    (hs : I s) : ∃ r s', build f keys e s = .ok (r, s') ∧ I s' ∧ R s s' ∧
      (∀ k ∈ keys, ∃ b, r.lookup k = some b ∧ Q k b s') ∧
      ∀ k, k ∉ keys → r.lookup k = e.lookup k := by
  obtain ⟨r, s', h⟩ := build_total (e := e)
    (fun k hk s hs => by
      obtain ⟨b, t, hf, ht, -⟩ := hstep k hk s hs
      exact ⟨b, t, hf, ht⟩) hs
  refine ⟨r, s', h, build_spec hrefl htrans hstable ?_ hs h⟩
  intro k hk s hs b t hf
  obtain ⟨b', t', hf', hspec⟩ := hstep k hk s hs
  rw [hf] at hf'
  cases hf'
  exact hspec

end Build

section Concat

variable {f : κ → Except ε (List β)} {keys : List κ} {l : List β}

theorem concat_total (h : ∀ k ∈ keys, ∃ l, f k = .ok l) : ∃ l, concat f keys = .ok l := by
  induction keys with
  | nil => exact ⟨[], rfl⟩
  | cons k keys ih =>
    obtain ⟨l, hl⟩ := h k List.mem_cons_self
    obtain ⟨m, hm⟩ := ih fun k' hk' => h k' (List.mem_cons_of_mem k hk')
    exact ⟨l ++ m, by simp only [concat, hl, hm]; rfl⟩

theorem concat_cons_ok {k : κ} (h : concat f (k :: keys) = .ok l) :
    ∃ l₁ l₂, f k = .ok l₁ ∧ concat f keys = .ok l₂ ∧ l = l₁ ++ l₂ := by
  simp only [concat] at h
  cases hk : f k with
  | error e => rw [hk] at h; cases h
  | ok l₁ =>
    rw [hk] at h
    cases hl : concat f keys with
    | error e => rw [hl] at h; cases h
    | ok l₂ => rw [hl] at h; cases h; exact ⟨l₁, l₂, rfl, rfl, rfl⟩

theorem concat_ok (h : concat f keys = .ok l) : ∀ k ∈ keys, ∃ l, f k = .ok l := by
  induction keys generalizing l with
  | nil => intro k hk; cases hk
  | cons k keys ih =>
    obtain ⟨l₁, l₂, h₁, h₂, -⟩ := concat_cons_ok h
    intro k' hk'
    rcases List.mem_cons.1 hk' with rfl | hk'
    · exact ⟨l₁, h₁⟩
    · exact ih h₂ k' hk'

theorem mem_concat {b : β} (h : concat f keys = .ok l) :
    b ∈ l ↔ ∃ k ∈ keys, ∃ l', f k = .ok l' ∧ b ∈ l' := by
  induction keys generalizing l with
  | nil =>
    cases h
    simp only [List.not_mem_nil, false_and, exists_false]
  | cons k keys ih =>
    obtain ⟨l₁, l₂, h₁, h₂, rfl⟩ := concat_cons_ok h
    rw [List.mem_append, ih h₂]
    constructor
    · rintro (hb | ⟨k', hk', l', hl', hb⟩)
      · exact ⟨k, List.mem_cons_self, l₁, h₁, hb⟩
      · exact ⟨k', List.mem_cons_of_mem k hk', l', hl', hb⟩
    · rintro ⟨k', hk', l', hl', hb⟩
      rcases List.mem_cons.1 hk' with rfl | hk'
      · rw [h₁] at hl'
        cases hl'
        exact Or.inl hb
      · exact Or.inr ⟨k', hk', l', hl', hb⟩

theorem nodup_concat {γ : Type*} {g : β → γ} (hkeys : keys.Nodup) (h : concat f keys = .ok l)
    (hone : ∀ k ∈ keys, ∀ l', f k = .ok l' → (l'.map g).Nodup)
    (htwo : ∀ k ∈ keys, ∀ k' ∈ keys, k ≠ k' → ∀ l₁ l₂, f k = .ok l₁ → f k' = .ok l₂ →
      ∀ x ∈ l₁, ∀ y ∈ l₂, g x ≠ g y) : (l.map g).Nodup := by
  induction keys generalizing l with
  | nil => cases h; exact List.nodup_nil
  | cons k keys ih =>
    obtain ⟨l₁, l₂, h₁, h₂, rfl⟩ := concat_cons_ok h
    obtain ⟨hk, hkeys⟩ := List.nodup_cons.1 hkeys
    have hrest : (l₂.map g).Nodup := by
      apply ih hkeys h₂
      · exact fun k' hk' => hone k' (List.mem_cons_of_mem k hk')
      · exact fun a ha b hb => htwo a (List.mem_cons_of_mem k ha) b (List.mem_cons_of_mem k hb)
    rw [List.map_append, List.nodup_append]
    refine ⟨hone k List.mem_cons_self l₁ h₁, hrest, fun a ha b hb => ?_⟩
    obtain ⟨x, hx, rfl⟩ := List.mem_map.1 ha
    obtain ⟨y, hy, rfl⟩ := List.mem_map.1 hb
    obtain ⟨k', hk', l', hl', hy'⟩ := (mem_concat h₂).1 hy
    have hne : k ≠ k' := fun he => hk (he ▸ hk')
    exact htwo k List.mem_cons_self k' (List.mem_cons_of_mem k hk') hne l₁ l' h₁ hl' x hx y hy'

end Concat

section DictOf

variable [DecidableEq κ] {items : List (κ × β)} {k : κ} {b : β}

theorem lookup_foldl_of_notMem (d : Finmap fun _ : κ => β) (h : ∀ b, (k, b) ∉ items) :
    (items.foldl (fun d item => d.insert item.1 item.2) d).lookup k = d.lookup k := by
  induction items generalizing d with
  | nil => rfl
  | cons item items ih =>
    rw [List.foldl_cons, ih _ fun b hb => h b (List.mem_cons_of_mem item hb)]
    apply Finmap.lookup_insert_of_ne
    rintro rfl
    exact h item.2 List.mem_cons_self

theorem lookup_dictOf_of_notMem (h : ∀ b, (k, b) ∉ items) : (dictOf items).lookup k = none := by
  rw [dictOf, lookup_foldl_of_notMem ∅ h, Finmap.lookup_empty]

/-- The entry of a key is the one item that names it. -/
theorem lookup_dictOf (hmem : (k, b) ∈ items) (huniq : ∀ b', (k, b') ∈ items → b' = b) :
    (dictOf items).lookup k = some b := by
  rw [dictOf]
  generalize (∅ : Finmap fun _ : κ => β) = d
  induction items generalizing d with
  | nil => cases hmem
  | cons item items ih =>
    rw [List.foldl_cons]
    by_cases hrest : (k, b) ∈ items
    · exact ih hrest (fun b' hb' => huniq b' (List.mem_cons_of_mem item hb')) _
    · have hitem : (k, b) = item := (List.mem_cons.1 hmem).resolve_right hrest
      subst hitem
      rw [lookup_foldl_of_notMem, Finmap.lookup_insert]
      intro b' hb'
      exact hrest (huniq b' (List.mem_cons_of_mem _ hb') ▸ hb')

/-- What the items say of a key is what the dictionary has. -/
theorem lookup_dictOf_eq {v : Option β} (h : ∀ b, (k, b) ∈ items ↔ v = some b) :
    (dictOf items).lookup k = v := by
  cases v with
  | none =>
    apply lookup_dictOf_of_notMem
    intro b hb
    cases (h b).1 hb
  | some b =>
    apply lookup_dictOf ((h b).2 rfl)
    intro b' hb'
    exact (Option.some.inj ((h b').1 hb')).symm

end DictOf

end KeyedLoop
