import Mathlib.Data.Set.Basic
import Mathlib.Tactic.Common

/-!
# Labelled graphs

A node has at most one child for each key and may have a label.  `valueAt` is the label a node gives
to a sequence of keys.  In a set of nodes that are made once for each label and each map of children
(`HashConsed`) two nodes that give the same labels are the same node.
-/

namespace LabelledGraph

variable {ν κ ι : Type*}

def follow (child : ν → κ → Option ν) : ν → List κ → Option ν
  | n, [] => some n
  | n, k :: s => (child n k).bind fun c => follow child c s

def valueAt (child : ν → κ → Option ν) (label : ν → Option ι) (n : ν) (s : List κ) : Option ι :=
  (follow child n s).bind label

/-- No sequence of more than `d` keys leads anywhere. -/
def DepthLE (child : ν → κ → Option ν) : ℕ → ν → Prop
  | 0, n => ∀ k, child n k = none
  | d + 1, n => ∀ k c, child n k = some c → DepthLE child d c

/-- The children of the nodes of `C` are in `C`. -/
def Closed (child : ν → κ → Option ν) (C : Set ν) : Prop :=
  ∀ n ∈ C, ∀ k c, child n k = some c → c ∈ C

/-- Every node below `n` has a label or a child. -/
def LiveBelow (child : ν → κ → Option ν) (label : ν → Option ι) (n : ν) : Prop :=
  ∀ k s c, follow child n (k :: s) = some c → label c ≠ none ∨ ∃ k', child c k' ≠ none

variable {child child' : ν → κ → Option ν} {label label' : ν → Option ι} {C : Set ν} {n c : ν}
  {k : κ} {s : List κ} {d : ℕ}

@[simp] theorem follow_nil : follow child n [] = some n := rfl

@[simp] theorem valueAt_nil : valueAt child label n [] = label n := rfl

theorem follow_cons_of_child (h : child n k = some c) :
    follow child n (k :: s) = follow child c s := by
  simp only [follow, h, Option.bind_some]

theorem valueAt_cons (n : ν) (k : κ) (s : List κ) :
    valueAt child label n (k :: s) = (child n k).bind fun c => valueAt child label c s := by
  cases h : child n k with
  | none => simp only [valueAt, follow, h, Option.bind_none]
  | some c => simp only [valueAt, follow, h, Option.bind_some]

theorem valueAt_cons_of_child (h : child n k = some c) :
    valueAt child label n (k :: s) = valueAt child label c s := by
  rw [valueAt_cons, h, Option.bind_some]

theorem valueAt_cons_of_none (h : child n k = none) :
    valueAt child label n (k :: s) = none := by
  rw [valueAt_cons, h, Option.bind_none]

theorem valueAt_of_leaf (hc : ∀ k, child n k = none) (hl : label n = none) (s : List κ) :
    valueAt child label n s = none := by
  cases s with
  | nil => exact hl
  | cons k s => exact valueAt_cons_of_none (hc k)

theorem DepthLE.of_leaf (h : ∀ k, child n k = none) : DepthLE child d n := by
  cases d with
  | zero => exact h
  | succ d => intro k c hc; rw [h k] at hc; cases hc

theorem DepthLE.mono {d' : ℕ} (h : DepthLE child d n) (hd : d ≤ d') : DepthLE child d' n := by
  induction d generalizing n d' with
  | zero => exact .of_leaf h
  | succ d ih =>
    obtain ⟨e, rfl⟩ : ∃ e, d' = e + 1 := ⟨d' - 1, by omega⟩
    exact fun k c hc => ih (h k c hc) (by omega)

theorem DepthLE.of_child (h : DepthLE child (d + 1) n) (hc : child n k = some c) :
    DepthLE child d c := h k c hc

theorem Closed.follow_mem (hC : Closed child C) (hn : n ∈ C) (h : follow child n s = some c) :
    c ∈ C := by
  induction s generalizing n with
  | nil => cases h; exact hn
  | cons k s ih =>
    cases hk : child n k with
    | none => simp only [follow, hk, Option.bind_none] at h; cases h
    | some m =>
      rw [follow_cons_of_child hk] at h
      exact ih (hC n hn k m hk) h

/-- What a node leads to depends on the children of a closed set around it only. -/
theorem Closed.follow_congr (hC : Closed child C) (h : ∀ n ∈ C, child' n = child n)
    (hn : n ∈ C) (s : List κ) : follow child' n s = follow child n s := by
  induction s generalizing n with
  | nil => rfl
  | cons k s ih =>
    have hchild : child' n k = child n k := congrFun (h n hn) k
    cases hk : child n k with
    | none => simp only [follow, hchild, hk, Option.bind_none]
    | some m =>
      rw [follow_cons_of_child (hchild.trans hk), follow_cons_of_child hk]
      exact ih (hC n hn k m hk)

theorem Closed.valueAt_congr (hC : Closed child C) (h : ∀ n ∈ C, child' n = child n)
    (hlabel : ∀ n ∈ C, label' n = label n) (hn : n ∈ C) (s : List κ) :
    valueAt child' label' n s = valueAt child label n s := by
  rw [valueAt, valueAt, hC.follow_congr h hn]
  cases hf : follow child n s with
  | none => rfl
  | some c => exact hlabel c (hC.follow_mem hn hf)

theorem Closed.depthLE_congr (hC : Closed child C) (h : ∀ n ∈ C, child' n = child n)
    (hn : n ∈ C) (hd : DepthLE child d n) : DepthLE child' d n := by
  induction d generalizing n with
  | zero => exact fun k => (congrFun (h n hn) k).trans (hd k)
  | succ d ih =>
    intro k c hc
    rw [h n hn] at hc
    exact ih (hC n hn k c hc) (hd k c hc)

theorem Closed.liveBelow_congr (hC : Closed child C) (h : ∀ n ∈ C, child' n = child n)
    (hlabel : ∀ n ∈ C, label' n = label n) (hn : n ∈ C) (hl : LiveBelow child label n) :
    LiveBelow child' label' n := by
  intro k s c hc
  rw [hC.follow_congr h hn] at hc
  have hcC : c ∈ C := hC.follow_mem hn hc
  rw [hlabel c hcC, h c hcC]
  exact hl k s c hc

theorem LiveBelow.of_child (h : LiveBelow child label n) (hc : child n k = some c) :
    LiveBelow child label c :=
  fun k' s m hm => h k (k' :: s) m (by rw [follow_cons_of_child hc]; exact hm)

theorem LiveBelow.child_live (h : LiveBelow child label n) (hc : child n k = some c) :
    label c ≠ none ∨ ∃ k', child c k' ≠ none :=
  h k [] c (follow_cons_of_child hc)

/-- A node that is not a dead end gives some sequence a label. -/
theorem LiveBelow.exists_valueAt (hl : LiveBelow child label n) (hd : DepthLE child d n)
    (hn : label n ≠ none ∨ ∃ k, child n k ≠ none) : ∃ s, valueAt child label n s ≠ none := by
  induction d generalizing n with
  | zero =>
    rcases hn with hn | ⟨k, hk⟩
    · exact ⟨[], hn⟩
    · exact absurd (hd k) hk
  | succ d ih =>
    rcases hn with hn | ⟨k, hk⟩
    · exact ⟨[], hn⟩
    · obtain ⟨c, hc⟩ := Option.ne_none_iff_exists'.1 hk
      obtain ⟨s, hs⟩ := ih (hl.of_child hc) (hd k c hc) (hl.child_live hc)
      exact ⟨k :: s, by rwa [valueAt_cons_of_child hc]⟩

/-- The nodes of `C` are made once for each label and each map of children, and the one without
either is the child of none. -/
structure HashConsed (child : ν → κ → Option ν) (label : ν → Option ι) (rank : ν → ℕ) (C : Set ν)
    (empty : ν) : Prop where
  closed : Closed child C
  empty_mem : empty ∈ C
  empty_leaf : ∀ k, child empty k = none
  empty_label : label empty = none
  ne_empty : ∀ n ∈ C, ∀ k c, child n k = some c → c ≠ empty
  rank_lt : ∀ n ∈ C, ∀ k c, child n k = some c → rank c < rank n
  unique : ∀ a ∈ C, ∀ b ∈ C, label a = label b → child a = child b → a = b

namespace HashConsed

variable {rank : ν → ℕ} {empty : ν} {a b : ν}

theorem live (h : HashConsed child label rank C empty) (hn : n ∈ C) (hne : n ≠ empty) :
    label n ≠ none ∨ ∃ k, child n k ≠ none := by
  by_contra hnone
  push Not at hnone
  apply hne
  apply h.unique n hn empty h.empty_mem
  · rw [hnone.1, h.empty_label]
  · funext k
    rw [hnone.2 k, h.empty_leaf k]

theorem follow_ne_empty (h : HashConsed child label rank C empty) (hn : n ∈ C) (hne : n ≠ empty)
    (hc : follow child n s = some c) : c ≠ empty := by
  induction s generalizing n with
  | nil => cases hc; exact hne
  | cons k s ih =>
    cases hk : child n k with
    | none => simp only [follow, hk, Option.bind_none] at hc; cases hc
    | some m =>
      rw [follow_cons_of_child hk] at hc
      exact ih (h.closed n hn k m hk) (h.ne_empty n hn k m hk) hc

theorem liveBelow (h : HashConsed child label rank C empty) (hn : n ∈ C) :
    LiveBelow child label n := by
  intro k s c hc
  have hcC : c ∈ C := h.closed.follow_mem hn hc
  cases hk : child n k with
  | none => simp only [follow, hk, Option.bind_none] at hc; cases hc
  | some m =>
    rw [follow_cons_of_child hk] at hc
    have hm : m ∈ C := h.closed n hn k m hk
    exact h.live hcC (h.follow_ne_empty hm (h.ne_empty n hn k m hk) hc)

theorem depthLE (h : HashConsed child label rank C empty) (hn : n ∈ C) (hd : rank n ≤ d) :
    DepthLE child d n := by
  induction d generalizing n with
  | zero =>
    intro k
    cases hk : child n k with
    | none => rfl
    | some c => exact absurd (h.rank_lt n hn k c hk) (by omega)
  | succ d ih =>
    intro k c hc
    have hlt := h.rank_lt n hn k c hc
    exact ih (h.closed n hn k c hc) (by omega)

theorem exists_valueAt (h : HashConsed child label rank C empty) (hn : n ∈ C) (hne : n ≠ empty) :
    ∃ s, valueAt child label n s ≠ none :=
  (h.liveBelow hn).exists_valueAt (h.depthLE hn le_rfl) (h.live hn hne)

/-- A child of one of two nodes that give the same labels is matched by a child of the other. -/
theorem exists_child (h : HashConsed child label rank C empty) (ha : a ∈ C)
    (heq : ∀ s, valueAt child label a s = valueAt child label b s) (hc : child a k = some c) :
    ∃ c', child b k = some c' ∧ ∀ s, valueAt child label c s = valueAt child label c' s := by
  obtain ⟨s, hs⟩ := h.exists_valueAt (h.closed a ha k c hc) (h.ne_empty a ha k c hc)
  cases hb : child b k with
  | none =>
    exfalso
    apply hs
    rw [← valueAt_cons_of_child hc, heq, valueAt_cons_of_none hb]
  | some c' =>
    refine ⟨c', rfl, fun s => ?_⟩
    rw [← valueAt_cons_of_child hc, heq, valueAt_cons_of_child hb]

/-- Two nodes that give the same labels are the same node. -/
theorem eq_of_valueAt (h : HashConsed child label rank C empty) (ha : a ∈ C) (hb : b ∈ C)
    (heq : ∀ s, valueAt child label a s = valueAt child label b s) : a = b := by
  have hdepth := h.depthLE ha le_rfl
  generalize rank a = d at hdepth
  -- the induction is on the depth of the first node; a child has a smaller one
  induction d generalizing a b with
  | zero =>
    apply h.unique a ha b hb (heq [])
    funext k
    rw [hdepth k]
    cases hk : child b k with
    | none => rfl
    | some c =>
      obtain ⟨c', hc', -⟩ := h.exists_child hb (fun s => (heq s).symm) hk
      rw [hdepth k] at hc'
      cases hc'
  | succ d ih =>
    apply h.unique a ha b hb (heq [])
    funext k
    cases hk : child a k with
    | some c =>
      obtain ⟨c', hc', hval⟩ := h.exists_child ha heq hk
      rw [hc']
      exact congrArg some
        (ih (h.closed a ha k c hk) (h.closed b hb k c' hc') hval (hdepth k c hk))
    | none =>
      cases hk' : child b k with
      | none => rfl
      | some c =>
        obtain ⟨c', hc', -⟩ := h.exists_child hb (fun s => (heq s).symm) hk'
        rw [hk] at hc'
        cases hc'

theorem eq_iff (h : HashConsed child label rank C empty) (ha : a ∈ C) (hb : b ∈ C) :
    a = b ↔ ∀ s, valueAt child label a s = valueAt child label b s :=
  ⟨fun heq s => by rw [heq], h.eq_of_valueAt ha hb⟩

theorem congr (h : HashConsed child label rank C empty) (hchild : ∀ m ∈ C, child' m = child m)
    (hlabel : ∀ m ∈ C, label' m = label m) : HashConsed child' label' rank C empty where
  closed n hn k c hc := h.closed n hn k c (hchild n hn ▸ hc)
  empty_mem := h.empty_mem
  empty_leaf k := (congrFun (hchild empty h.empty_mem) k).trans (h.empty_leaf k)
  empty_label := (hlabel empty h.empty_mem).trans h.empty_label
  ne_empty n hn k c hc := h.ne_empty n hn k c (hchild n hn ▸ hc)
  rank_lt n hn k c hc := h.rank_lt n hn k c (hchild n hn ▸ hc)
  unique a ha b hb hl hc := by
    rw [hlabel a ha, hlabel b hb] at hl
    rw [hchild a ha, hchild b hb] at hc
    exact h.unique a ha b hb hl hc

theorem subset {D : Set ν} (h : HashConsed child label rank C empty) (hD : D ⊆ C)
    (hempty : empty ∈ D) (hclosed : Closed child D) : HashConsed child label rank D empty where
  closed := hclosed
  empty_mem := hempty
  empty_leaf := h.empty_leaf
  empty_label := h.empty_label
  ne_empty n hn := h.ne_empty n (hD hn)
  rank_lt n hn := h.rank_lt n (hD hn)
  unique a ha b hb := h.unique a (hD ha) b (hD hb)

/-- One more node over `C` keeps it hash-consed if none of its label and children is there yet. -/
theorem insert (h : HashConsed child label rank C empty) (hn : n ∉ C)
    (hchild : ∀ m ∈ C, child' m = child m) (hlabel : ∀ m ∈ C, label' m = label m)
    (hmem : ∀ k c, child' n k = some c → c ∈ C) (hne : ∀ k c, child' n k = some c → c ≠ empty)
    (hrank : ∀ k c, child' n k = some c → rank c < rank n)
    (hnew : ∀ m ∈ C, label' n = label m → child' n ≠ child m) :
    HashConsed child' label' rank (insert n C) empty := by
  have h' := h.congr hchild hlabel
  refine
    { closed := ?_
      empty_mem := Or.inr h.empty_mem
      empty_leaf := h'.empty_leaf
      empty_label := h'.empty_label
      ne_empty := ?_
      rank_lt := ?_
      unique := ?_ }
  · rintro m (rfl | hm) k c hc
    · exact Or.inr (hmem k c hc)
    · exact Or.inr (h'.closed m hm k c hc)
  · rintro m (rfl | hm) k c hc
    · exact hne k c hc
    · exact h'.ne_empty m hm k c hc
  · rintro m (rfl | hm) k c hc
    · exact hrank k c hc
    · exact h'.rank_lt m hm k c hc
  · rintro a (rfl | ha) b (rfl | hb) hl hc
    · rfl
    · rw [hlabel b hb] at hl
      rw [hchild b hb] at hc
      exact absurd hc (hnew b hb hl)
    · rw [hlabel a ha] at hl
      rw [hchild a ha] at hc
      exact absurd hc.symm (hnew a ha hl.symm)
    · exact h'.unique a ha b hb hl hc

end HashConsed

end LabelledGraph
