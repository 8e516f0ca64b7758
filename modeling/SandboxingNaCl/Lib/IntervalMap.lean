import Mathlib.Data.List.Basic
import Mathlib.Data.List.Pairwise
import Mathlib.Order.Lattice

/-!
# Interval maps

A list of pieces, each occupying a half-open interval of `ℕ` and holding a value at every point of
it, stands for a partial function on `ℕ` (`Extent.lookup`).  `Extent.Tiles` says that the pieces
are non-empty and pairwise apart, `Extent.carve` cuts an interval out of every piece, and
`Extent.lookup_carve` says what the cut does to the function.
-/

namespace IntervalMap

/-- How pieces occupy intervals, what they hold at each point, and how one is cut down to a part
of its interval. -/
structure Extent (α β : Type*) where
  lo : α → ℕ
  hi : α → ℕ
  val : α → ℕ → β
  restrict : α → ℕ → ℕ → α
  lo_restrict : ∀ a s t, lo (restrict a s t) = s
  hi_restrict : ∀ a s t, s ≤ t → hi (restrict a s t) = t
  val_restrict : ∀ a s t p, val (restrict a s t) p = val a p
  restrict_self : ∀ a, lo a ≤ hi a → restrict a (lo a) (hi a) = a

/-- The partial function `f` with its values on `[s, t)` replaced by those of `g`. -/
def override {β : Type*} (f : ℕ → Option β) (s t : ℕ) (g : ℕ → Option β) : ℕ → Option β :=
  fun p => if s ≤ p ∧ p < t then g p else f p

theorem override_of_le {β : Type*} {f g : ℕ → Option β} {s t : ℕ} (h : t ≤ s) :
    override f s t g = f :=
  funext fun p => if_neg (by omega)

namespace Extent

variable {α β : Type*} (x : Extent α β)

/-- The point `p` lies in the interval of `a`. -/
def Covers (a : α) (p : ℕ) : Prop := x.lo a ≤ p ∧ p < x.hi a

instance (a : α) (p : ℕ) : Decidable (x.Covers a p) := inferInstanceAs (Decidable (_ ∧ _))

/-- The intervals of `a` and `b` do not meet. -/
def Apart (a b : α) : Prop := x.hi a ≤ x.lo b ∨ x.hi b ≤ x.lo a

instance (a b : α) : Decidable (x.Apart a b) := inferInstanceAs (Decidable (_ ∨ _))

/-- Non-empty pieces, pairwise apart. -/
structure Tiles (l : List α) : Prop where
  lt : ∀ a ∈ l, x.lo a < x.hi a
  apart : l.Pairwise x.Apart

/-- The partial function a list of pieces stands for. -/
def lookup (l : List α) (p : ℕ) : Option β :=
  (l.find? fun a => decide (x.Covers a p)).map (x.val · p)

variable {x} {l l' : List α} {a b : α} {s t p : ℕ} {v : β}

theorem Apart.symm (h : x.Apart a b) : x.Apart b a := Or.symm h

instance : Std.Symm x.Apart := ⟨fun _ _ => Apart.symm⟩

theorem Apart.not_covers (h : x.Apart a b) (ha : x.Covers a p) : ¬ x.Covers b p := by
  unfold Apart Covers at *
  omega

/-! ## The function of a tiling -/

theorem Tiles.eq_of_covers (h : x.Tiles l) (ha : a ∈ l) (hb : b ∈ l) (hap : x.Covers a p)
    (hbp : x.Covers b p) : a = b := by
  by_contra hne
  exact (h.apart.forall ha hb hne).not_covers hap hbp

theorem lookup_eq_none_iff : x.lookup l p = none ↔ ∀ a ∈ l, ¬ x.Covers a p := by
  simp [lookup]

theorem Tiles.lookup_of_mem (h : x.Tiles l) (ha : a ∈ l) (hp : x.Covers a p) :
    x.lookup l p = some (x.val a p) := by
  cases hf : l.find? fun a => decide (x.Covers a p) with
  | none =>
    rw [List.find?_eq_none] at hf
    exact absurd hp (by simpa using hf a ha)
  | some b =>
    have hb : x.Covers b p := by simpa using List.find?_some hf
    have : b = a := h.eq_of_covers (List.mem_of_find?_eq_some hf) ha hb hp
    rw [lookup, hf, this]
    rfl

theorem Tiles.lookup_eq_some_iff (h : x.Tiles l) :
    x.lookup l p = some v ↔ ∃ a ∈ l, x.Covers a p ∧ x.val a p = v := by
  constructor
  · intro hv
    obtain ⟨a, hf, rfl⟩ := Option.map_eq_some_iff.1 hv
    exact ⟨a, List.mem_of_find?_eq_some hf, by simpa using List.find?_some hf, rfl⟩
  · rintro ⟨a, ha, hp, rfl⟩
    exact h.lookup_of_mem ha hp

theorem lookup_append : x.lookup (l ++ l') p = (x.lookup l p).or (x.lookup l' p) := by
  unfold lookup
  rw [List.find?_append]
  cases l.find? fun a => decide (x.Covers a p) <;> rfl

theorem Tiles.perm (h : x.Tiles l) (hl : l.Perm l') : x.Tiles l' :=
  ⟨fun a ha => h.lt a (hl.mem_iff.2 ha), hl.pairwise h.apart Apart.symm⟩

theorem Tiles.lookup_perm (h : x.Tiles l) (hl : l.Perm l') : x.lookup l' = x.lookup l := by
  funext p
  refine Option.ext fun v => ?_
  rw [(h.perm hl).lookup_eq_some_iff, h.lookup_eq_some_iff]
  simp only [hl.mem_iff]

theorem Tiles.pairwise_hi_le_lo (h : x.Tiles l) (hs : l.Pairwise fun a b => x.lo a ≤ x.lo b) :
    l.Pairwise fun a b => x.hi a ≤ x.lo b := by
  refine (h.apart.and hs).imp_of_mem fun {a b} ha hb hab => ?_
  have := h.lt b hb
  obtain ⟨hab | hab, hle⟩ := hab <;> omega

/-! ## Gaps -/

/-- The interval `[s, t)` meets no piece and lies between two of them. -/
structure Gap (x : Extent α β) (l : List α) (s t : ℕ) : Prop where
  apart : ∀ a ∈ l, x.hi a ≤ s ∨ t ≤ x.lo a
  below : ∃ a ∈ l, x.hi a ≤ s
  above : ∃ a ∈ l, t ≤ x.lo a

theorem Gap.congr (hl : ∀ a, a ∈ l ↔ a ∈ l') : x.Gap l s t ↔ x.Gap l' s t := by
  constructor
  · rintro ⟨hapart, ⟨a, ha, hlo⟩, b, hb, hhi⟩
    exact ⟨fun c hc => hapart c ((hl c).2 hc), ⟨a, (hl a).1 ha, hlo⟩, b, (hl b).1 hb, hhi⟩
  · rintro ⟨hapart, ⟨a, ha, hlo⟩, b, hb, hhi⟩
    exact ⟨fun c hc => hapart c ((hl c).1 hc), ⟨a, (hl a).2 ha, hlo⟩, b, (hl b).2 hb, hhi⟩

theorem not_gap_singleton (ha : x.lo a < x.hi a) (hst : s ≤ t) : ¬ x.Gap [a] s t := by
  rintro ⟨-, ⟨b, hb, hlo⟩, c, hc, hhi⟩
  obtain rfl := List.mem_singleton.1 hb
  obtain rfl := List.mem_singleton.1 hc
  omega

/-- Of two lists of pieces, one below the other, `a` is the highest piece of the lower and `b` the
lowest of the upper.  A gap is one of either list or lies between `a` and `b`. -/
theorem gap_append_iff (hpos : ∀ c ∈ l ++ l', x.lo c < x.hi c) (ha : a ∈ l) (hb : b ∈ l')
    (hla : ∀ c ∈ l, x.hi c ≤ x.hi a) (hlb : ∀ c ∈ l', x.lo b ≤ x.lo c) (hab : x.hi a ≤ x.lo b)
    (hst : s ≤ t) :
    x.Gap (l ++ l') s t ↔ x.Gap l s t ∨ (x.hi a ≤ s ∧ t ≤ x.lo b) ∨ x.Gap l' s t := by
  have hposa := hpos a (List.mem_append_left _ ha)
  have hposb := hpos b (List.mem_append_right _ hb)
  constructor
  · rintro ⟨hapart, ⟨c, hc, hlo⟩, d, hd, hhi⟩
    have hposc := hpos c hc
    have hposd := hpos d hd
    rcases hapart a (List.mem_append_left _ ha) with hsa | hta
    · rcases hapart b (List.mem_append_right _ hb) with hsb | htb
      · refine Or.inr (Or.inr ⟨fun e he => hapart e (List.mem_append_right _ he), ⟨b, hb, hsb⟩,
          d, (List.mem_append.1 hd).resolve_left fun hdl => ?_, hhi⟩)
        have := hla d hdl
        omega
      · exact Or.inr (Or.inl ⟨hsa, htb⟩)
    · refine Or.inl ⟨fun e he => hapart e (List.mem_append_left _ he),
        ⟨c, (List.mem_append.1 hc).resolve_right fun hcl => ?_, hlo⟩, a, ha, hta⟩
      have := hlb c hcl
      omega
  · rintro (⟨hapart, ⟨c, hc, hlo⟩, d, hd, hhi⟩ | ⟨hsa, htb⟩ | ⟨hapart, ⟨c, hc, hlo⟩, d, hd, hhi⟩)
    · have hposd := hpos d (List.mem_append_left _ hd)
      refine ⟨fun e he => (List.mem_append.1 he).elim (hapart e) fun he => ?_,
        ⟨c, List.mem_append_left _ hc, hlo⟩, d, List.mem_append_left _ hd, hhi⟩
      have := hla d hd
      have := hlb e he
      omega
    · refine ⟨fun e he => (List.mem_append.1 he).imp (fun he => (hla e he).trans hsa)
        fun he => htb.trans (hlb e he), ⟨a, List.mem_append_left _ ha, hsa⟩, b,
        List.mem_append_right _ hb, htb⟩
    · have hposc := hpos c (List.mem_append_right _ hc)
      refine ⟨fun e he => (List.mem_append.1 he).elim (fun he => ?_) (hapart e),
        ⟨c, List.mem_append_right _ hc, hlo⟩, d, List.mem_append_right _ hd, hhi⟩
      have := hla e he
      have := hlb c hc
      omega

/-! ## Building tilings -/

theorem tiles_nil : x.Tiles [] := ⟨by simp, List.Pairwise.nil⟩

theorem Tiles.of_cons (h : x.Tiles (a :: l)) : x.Tiles l :=
  ⟨fun b hb => h.lt b (List.mem_cons_of_mem _ hb), (List.pairwise_cons.1 h.apart).2⟩

theorem tiles_singleton (h : x.lo a < x.hi a) : x.Tiles [a] :=
  ⟨by simpa using h, List.pairwise_singleton _ _⟩

theorem Tiles.append (h : x.Tiles l) (h' : x.Tiles l') (hl : ∀ a ∈ l, ∀ b ∈ l', x.Apart a b) :
    x.Tiles (l ++ l') :=
  ⟨fun a ha => (List.mem_append.1 ha).elim (h.lt a) (h'.lt a),
    List.pairwise_append.2 ⟨h.apart, h'.apart, hl⟩⟩

/-- Replacing every piece by a tiling of a part of its interval leaves a tiling. -/
theorem Tiles.flatMap (h : x.Tiles l) (f : α → List α) (hf : ∀ a ∈ l, x.Tiles (f a))
    (hin : ∀ a ∈ l, ∀ b ∈ f a, x.lo a ≤ x.lo b ∧ x.hi b ≤ x.hi a) : x.Tiles (l.flatMap f) := by
  induction l with
  | nil => exact tiles_nil
  | cons a l ih =>
    obtain ⟨hlt, hap⟩ := h
    rw [List.pairwise_cons] at hap
    rw [List.flatMap_cons]
    refine Tiles.append (hf a List.mem_cons_self) (ih ⟨?_, hap.2⟩ ?_ ?_) ?_
    · exact fun b hb => hlt b (List.mem_cons_of_mem _ hb)
    · exact fun b hb => hf b (List.mem_cons_of_mem _ hb)
    · exact fun b hb => hin b (List.mem_cons_of_mem _ hb)
    · intro c hc d hd
      obtain ⟨b, hb, hd⟩ := List.mem_flatMap.1 hd
      have hca := hin a List.mem_cons_self c hc
      have hdb := hin b (List.mem_cons_of_mem _ hb) d hd
      have := hap.1 b hb
      unfold Apart at this ⊢
      omega

/-- A piece that grows over points nothing covers extends the function by its own values. -/
theorem Tiles.lookup_extend {pre post : List α} (h : x.Tiles (pre ++ a :: post))
    (h' : x.Tiles (pre ++ b :: post)) (hlo : x.lo b = x.lo a) (hval : x.val b = x.val a)
    (hhi : x.hi a ≤ x.hi b) : x.lookup (pre ++ b :: post) =
      override (x.lookup (pre ++ a :: post)) (x.hi a) (x.hi b) fun p => some (x.val a p) := by
  have hlt := h.lt a (by simp)
  funext p
  unfold override
  split_ifs with hp
  · rw [h'.lookup_of_mem (a := b) (by simp) ⟨by omega, hp.2⟩, hval]
  · have hcov : x.Covers b p ↔ x.Covers a p := by
      unfold Covers
      omega
    refine Option.ext fun v => ?_
    rw [h'.lookup_eq_some_iff, h.lookup_eq_some_iff]
    simp only [List.mem_append, List.mem_cons, or_and_right, exists_or, exists_eq_left, hcov, hval]

/-! ## Carving an interval out of a list -/

/-- The part of `a` on `[s, t)`, as a list that is empty when the interval is. -/
def piece (x : Extent α β) (a : α) (s t : ℕ) : List α := if s < t then [x.restrict a s t] else []

/-- The parts of `a` outside `[s, t)`. -/
def outside (x : Extent α β) (s t : ℕ) (a : α) : List α :=
  x.piece a (x.lo a) (min (x.hi a) s) ++ x.piece a (max (x.lo a) t) (x.hi a)

/-- Every piece of `l` cut down to its parts outside `[s, t)`. -/
def carve (x : Extent α β) (l : List α) (s t : ℕ) : List α := l.flatMap (x.outside s t)

theorem mem_piece : b ∈ x.piece a s t ↔ s < t ∧ b = x.restrict a s t := by
  unfold piece
  split_ifs with h <;> simp [h]

theorem tiles_piece : x.Tiles (x.piece a s t) := by
  unfold piece
  split_ifs with h
  · exact tiles_singleton (by rwa [x.lo_restrict, x.hi_restrict a s t h.le])
  · exact tiles_nil

theorem lo_hi_of_mem_piece (hb : b ∈ x.piece a s t) :
    s < t ∧ x.lo b = s ∧ x.hi b = t := by
  obtain ⟨h, rfl⟩ := mem_piece.1 hb
  exact ⟨h, x.lo_restrict a s t, x.hi_restrict a s t h.le⟩

theorem val_of_mem_piece (hb : b ∈ x.piece a s t) (p : ℕ) : x.val b p = x.val a p := by
  obtain ⟨-, rfl⟩ := mem_piece.1 hb
  exact x.val_restrict a s t p

theorem lo_hi_of_mem_outside (hb : b ∈ x.outside s t a) :
    x.lo a ≤ x.lo b ∧ x.hi b ≤ x.hi a ∧ x.lo b < x.hi b ∧ (x.hi b ≤ s ∨ t ≤ x.lo b) := by
  rcases List.mem_append.1 hb with hb | hb
  all_goals have := lo_hi_of_mem_piece hb; omega

theorem val_of_mem_outside (hb : b ∈ x.outside s t a) (p : ℕ) : x.val b p = x.val a p := by
  rcases List.mem_append.1 hb with hb | hb <;> exact val_of_mem_piece hb p

theorem tiles_outside (hst : s ≤ t) : x.Tiles (x.outside s t a) := by
  refine tiles_piece.append tiles_piece fun b hb c hc => ?_
  have hb := lo_hi_of_mem_piece hb
  have hc := lo_hi_of_mem_piece hc
  unfold Apart
  omega

/-- A point of `a` outside `[s, t)` is a point of one of its outer parts. -/
theorem exists_mem_outside (hp : x.Covers a p) (hout : ¬ (s ≤ p ∧ p < t)) :
    ∃ b ∈ x.outside s t a, x.Covers b p := by
  obtain ⟨hlo, hhi⟩ := hp
  by_cases hs : p < s
  · have hlt : x.lo a < min (x.hi a) s := by omega
    refine ⟨_, List.mem_append_left _ (mem_piece.2 ⟨hlt, rfl⟩), ?_⟩
    unfold Covers
    rw [x.lo_restrict, x.hi_restrict _ _ _ hlt.le]
    omega
  · have hlt : max (x.lo a) t < x.hi a := by omega
    refine ⟨_, List.mem_append_right _ (mem_piece.2 ⟨hlt, rfl⟩), ?_⟩
    unfold Covers
    rw [x.lo_restrict, x.hi_restrict _ _ _ hlt.le]
    omega

theorem outside_eq_self (hlt : x.lo a < x.hi a) (hst : s ≤ t) (h : x.hi a ≤ s ∨ t ≤ x.lo a) :
    x.outside s t a = [a] := by
  have hself := x.restrict_self a hlt.le
  unfold outside piece
  rcases h with h | h
  · rw [min_eq_left h, if_pos hlt, hself, if_neg (by omega)]
    rfl
  · rw [max_eq_left h, if_neg (by omega), if_pos hlt, hself]
    rfl

/-! The four ways an interval that is not apart from `[s, t)` can meet it. -/

theorem outside_of_lt_of_lt (hs : x.lo a < s) (ht : t < x.hi a) (hst : s ≤ t) :
    x.outside s t a = [x.restrict a (x.lo a) s, x.restrict a t (x.hi a)] := by
  unfold outside piece
  rw [min_eq_right (by omega), max_eq_right (by omega), if_pos hs, if_pos ht]
  rfl

theorem outside_of_lt_of_le (hs : x.lo a < s) (hs' : s < x.hi a) (ht : x.hi a ≤ t) :
    x.outside s t a = [x.restrict a (x.lo a) s] := by
  unfold outside piece
  rw [min_eq_right hs'.le, if_pos hs, if_neg (by omega)]
  rfl

theorem outside_of_le_of_lt (hs : s ≤ x.lo a) (ht' : x.lo a < t) (ht : t < x.hi a) :
    x.outside s t a = [x.restrict a t (x.hi a)] := by
  unfold outside piece
  rw [if_neg (by omega), max_eq_right ht'.le, if_pos ht]
  rfl

theorem outside_of_le_of_le (hs : s ≤ x.lo a) (ht : x.hi a ≤ t) : x.outside s t a = [] := by
  unfold outside piece
  rw [if_neg (by omega), if_neg (by omega)]
  rfl

theorem carve_cons : x.carve (a :: l) s t = x.outside s t a ++ x.carve l s t :=
  List.flatMap_cons

theorem carve_eq_self (h : ∀ a ∈ l, x.lo a < x.hi a) (hst : s ≤ t)
    (hl : ∀ a ∈ l, x.hi a ≤ s ∨ t ≤ x.lo a) : x.carve l s t = l := by
  induction l with
  | nil => rfl
  | cons a l ih =>
    rw [List.forall_mem_cons] at h hl
    rw [carve_cons, outside_eq_self h.1 hst hl.1, ih h.2 hl.2]
    rfl

theorem carve_congr {s' : ℕ} (h : ∀ a ∈ l, s ≤ x.lo a ∧ s' ≤ x.lo a) :
    x.carve l s t = x.carve l s' t := by
  refine List.flatMap_congr fun a ha => ?_
  obtain ⟨hs, hs'⟩ := h a ha
  have hpiece : ∀ r ≤ x.lo a, x.piece a (x.lo a) (min (x.hi a) r) = [] := fun r hr =>
    if_neg (by omega)
  rw [outside, outside, hpiece s hs, hpiece s' hs']

theorem carve_eq_nil_iff (h : ∀ a ∈ l, x.lo a < x.hi a) :
    x.carve l s t = [] ↔ ∀ a ∈ l, s ≤ x.lo a ∧ x.hi a ≤ t := by
  rw [carve, List.flatMap_eq_nil_iff]
  refine forall₂_congr fun a ha => ?_
  have := h a ha
  unfold outside piece
  split_ifs <;> simp <;> omega

theorem apart_of_mem_carve (hb : b ∈ x.carve l s t) : x.hi b ≤ s ∨ t ≤ x.lo b := by
  obtain ⟨a, -, hb⟩ := List.mem_flatMap.1 hb
  exact (lo_hi_of_mem_outside hb).2.2.2

theorem Tiles.carve (h : x.Tiles l) (hst : s ≤ t) : x.Tiles (x.carve l s t) :=
  h.flatMap _ (fun _ _ => tiles_outside hst) fun _ _ _ hb =>
    have hb := lo_hi_of_mem_outside hb
    ⟨hb.1, hb.2.1⟩

/-- Carving erases the function on the interval and leaves it alone elsewhere. -/
theorem Tiles.lookup_carve (h : x.Tiles l) (hst : s ≤ t) :
    x.lookup (x.carve l s t) = override (x.lookup l) s t fun _ => none := by
  funext p
  unfold override
  split_ifs with hp
  · refine lookup_eq_none_iff.2 fun b hb hbp => ?_
    have := apart_of_mem_carve hb
    unfold Covers at hbp
    omega
  · refine Option.ext fun v => ?_
    rw [(h.carve hst).lookup_eq_some_iff, h.lookup_eq_some_iff]
    constructor
    · rintro ⟨b, hb, hbp, rfl⟩
      obtain ⟨a, ha, hb⟩ := List.mem_flatMap.1 hb
      have hin := lo_hi_of_mem_outside hb
      exact ⟨a, ha, ⟨hin.1.trans hbp.1, hbp.2.trans_le hin.2.1⟩, (val_of_mem_outside hb p).symm⟩
    · rintro ⟨a, ha, hap, rfl⟩
      obtain ⟨b, hb, hbp⟩ := exists_mem_outside hap hp
      exact ⟨b, List.mem_flatMap.2 ⟨a, ha, hb⟩, hbp, val_of_mem_outside hb p⟩

/-- Pieces on `[s, t)` added to a list carved there override its function on `[s, t)`. -/
theorem Tiles.lookup_carve_append (h : x.Tiles l) (hst : s ≤ t)
    (hin : ∀ b ∈ l', s ≤ x.lo b ∧ x.hi b ≤ t) :
    x.lookup (x.carve l s t ++ l') = override (x.lookup l) s t (x.lookup l') := by
  funext p
  rw [lookup_append, h.lookup_carve hst]
  unfold override
  split_ifs with hp
  · rfl
  · have : x.lookup l' p = none := by
      refine lookup_eq_none_iff.2 fun b hb hbp => ?_
      have := hin b hb
      unfold Covers at hbp
      omega
    rw [this, Option.or_none]

theorem Tiles.carve_append (h : x.Tiles l) (h' : x.Tiles l') (hst : s ≤ t)
    (hin : ∀ b ∈ l', s ≤ x.lo b ∧ x.hi b ≤ t) : x.Tiles (x.carve l s t ++ l') := by
  refine (h.carve hst).append h' fun a ha b hb => ?_
  have ha := apart_of_mem_carve ha
  have hb := hin b hb
  unfold Apart
  omega

end Extent

end IntervalMap
