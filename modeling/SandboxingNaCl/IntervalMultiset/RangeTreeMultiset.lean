import Mathlib.Algebra.BigOperators.Group.Multiset.Basic
import Mathlib.Data.Multiset.Filter
import Mathlib.Tactic.Ring
import SandboxingNaCl.IntervalMultiset.RangeTreeRight
import SandboxingNaCl.Lib.Runs

/-!
# The range tree as a multiset of intervals

`nacl_interval_list.c` keeps the intervals in a list.  The tree keeps their end points only: each is
a mark, 1 at a start and -1 at an end, and a node stands for the marks at its value.  An interval is
found by the marks before the probed values, or by a gap that is not the same for both.
-/

namespace SandboxingNaCl

open AvlTree

/-! ## The list -/

/-- `NaClIntervalListMultisetRemove: [%u,%u] not found`. -/
inductive IntervalListFault
  | notFound
deriving DecidableEq

def naclIntervalListMultisetAddInterval (intervals : List (ℕ × ℕ)) (firstVal lastVal : ℕ) :
    List (ℕ × ℕ) :=
  (firstVal, lastVal) :: intervals

def naclIntervalListMultisetRemoveInterval : List (ℕ × ℕ) → ℕ → ℕ →
    Except IntervalListFault (List (ℕ × ℕ))
  | [], _, _ => .error .notFound
  | p :: next, firstVal, lastVal =>
    if p.1 = firstVal ∧ lastVal = p.2 then .ok next
    else (naclIntervalListMultisetRemoveInterval next firstVal lastVal).map (p :: ·)

def naclIntervalListMultisetOverlapsWith (intervals : List (ℕ × ℕ)) (firstVal lastVal : ℕ) : Bool :=
  intervals.any fun p => p.1 ≤ lastVal && firstVal ≤ p.2

theorem cons_eq_of_removeInterval {l l' : List (ℕ × ℕ)} {firstVal lastVal : ℕ}
    (h : naclIntervalListMultisetRemoveInterval l firstVal lastVal = .ok l') :
    (l : Multiset (ℕ × ℕ)) = (firstVal, lastVal) ::ₘ l' := by
  induction l generalizing l' with
  | nil => cases h
  | cons p l ih =>
    unfold naclIntervalListMultisetRemoveInterval at h
    split_ifs at h with heq
    · cases h
      obtain ⟨rfl, rfl⟩ := heq
      rfl
    · cases hrest : naclIntervalListMultisetRemoveInterval l firstVal lastVal with
      | error fault => rw [hrest] at h; cases h
      | ok rest =>
        rw [hrest] at h
        cases h
        rw [← Multiset.cons_coe, ih hrest, Multiset.cons_swap, Multiset.cons_coe]

/-! ## The marks -/

abbrev Marks := Multiset (ℕ × BitVec 32)

/-- The marks of the end points of these intervals. -/
def endPoints (s : Multiset (ℕ × ℕ)) : Marks :=
  s.map (fun p => (p.2, -1)) + s.map (fun p => (p.1, 1))

def Marks.here (m : Marks) (v : ℕ) : Marks := m.filter (·.1 = v)

def Marks.before (m : Marks) (v : ℕ) : Marks := m.filter (·.1 < v)

def Marks.total (m : Marks) : BitVec 32 := (m.map Prod.snd).sum

/-- The node that stands for the marks at a value. -/
def Marks.node (m : Marks) (v : ℕ) : Option RangeTreeNode :=
  if m.here v = 0 then none else some ⟨v, (m.here v).total, (m.here v).card⟩

/-- The sum of the deltas of the nodes before a value. -/
def deltaBefore (v : ℕ) (items : List RangeTreeNode) : BitVec 32 :=
  ((items.filter (·.value < v)).map RangeTreeNode.valueContainmentDelta).sum

/-- A sound tree whose nodes stand for these marks. -/
structure RangeTreeMarked (t : RangeTree) (m : Marks) : Prop where
  sound : t.Sound naclRangeStatsUpdate
  order : InValueOrder t.items
  entry_eq : ∀ v, entryOf v t.items = m.node v
  delta_eq : ∀ v, deltaBefore v t.items = (m.before v).total

section

variable {m : Marks} {s : Multiset (ℕ × ℕ)} {t : RangeTree} {items l r : List RangeTreeNode}
  {node key p : RangeTreeNode} {u v : ℕ} {d : BitVec 32}

theorem endPoints_cons (p : ℕ × ℕ) :
    endPoints (p ::ₘ s) = (p.2, -1) ::ₘ (p.1, 1) ::ₘ endPoints s := by
  unfold endPoints
  rw [Multiset.map_cons, Multiset.map_cons, Multiset.cons_add, Multiset.add_cons]

theorem card_endPoints : (endPoints s).card = 2 * s.card := by
  unfold endPoints
  rw [Multiset.card_add, Multiset.card_map, Multiset.card_map]
  omega

theorem Marks.here_cons_self : Marks.here ((v, d) ::ₘ m) v = (v, d) ::ₘ m.here v :=
  Multiset.filter_cons_of_pos _ rfl

theorem Marks.node_cons_of_ne (h : u ≠ v) : Marks.node ((u, d) ::ₘ m) v = m.node v := by
  unfold Marks.node Marks.here
  rw [Multiset.filter_cons_of_neg (p := fun mark => mark.1 = v) m h]

theorem Marks.node_cons_self :
    Marks.node ((v, d) ::ₘ m) v = some ⟨v, d + (m.here v).total, (m.here v).card + 1⟩ := by
  unfold Marks.node
  rw [here_cons_self, if_neg Multiset.cons_ne_zero, Multiset.card_cons]
  unfold Marks.total
  rw [Multiset.map_cons, Multiset.sum_cons, Nat.cast_add, Nat.cast_one]

theorem Marks.total_before_cons : (Marks.before ((u, d) ::ₘ m) v).total =
    (if u < v then d else 0) + (m.before v).total := by
  unfold Marks.before Marks.total
  split_ifs with h
  · rw [Multiset.filter_cons_of_pos (p := fun mark => mark.1 < v) m h, Multiset.map_cons,
      Multiset.sum_cons]
  · rw [Multiset.filter_cons_of_neg (p := fun mark => mark.1 < v) m h, zero_add]

/-- An operation at one value leaves the entries of the others alone. -/
theorem entryOf_eq_of_othersOf (h : u ≠ v) (hothers : othersOf u l = othersOf u r) :
    entryOf v l = entryOf v r := by
  have hentry (items : List RangeTreeNode) : entryOf v (othersOf u items) = entryOf v items := by
    unfold entryOf othersOf
    rw [List.find?_filter]
    congr 1
    funext q
    by_cases hq : q.value = v
    · simp [hq, h.symm]
    · simp [hq]
  rw [← hentry l, hothers, hentry r]

/-! ## The sums before a value -/

theorem deltaBefore_append : deltaBefore v (l ++ r) = deltaBefore v l + deltaBefore v r := by
  unfold deltaBefore
  rw [List.filter_append, List.map_append, List.sum_append]

theorem deltaBefore_cons : deltaBefore v (p :: items) =
    (if p.value < v then p.valueContainmentDelta else 0) + deltaBefore v items := by
  unfold deltaBefore
  rw [List.filter_cons]
  by_cases h : p.value < v
  · rw [if_pos (decide_eq_true h), if_pos h, List.map_cons, List.sum_cons]
  · rw [if_neg (by simpa using h), if_neg h, zero_add]

theorem deltaBefore_of_lt (h : ∀ q ∈ l, q.value < v) :
    deltaBefore v l = (l.map RangeTreeNode.valueContainmentDelta).sum := by
  unfold deltaBefore
  rw [List.filter_eq_self.2 fun q hq => decide_eq_true (h q hq)]

theorem deltaBefore_of_le (h : ∀ q ∈ r, v ≤ q.value) : deltaBefore v r = 0 := by
  unfold deltaBefore
  rw [List.filter_eq_nil_iff.2 fun q hq => by simpa using h q hq]
  rfl

theorem deltaBefore_insertItem : deltaBefore v (insertItem node items) =
    (if node.value < v then node.valueContainmentDelta else 0) + deltaBefore v items := by
  induction items with
  | nil => exact deltaBefore_cons
  | cons tmp items ih =>
    unfold insertItem
    by_cases heq : node.value = tmp.value
    · rw [if_pos heq, deltaBefore_cons, deltaBefore_cons, heq]
      show (if tmp.value < v then tmp.valueContainmentDelta + node.valueContainmentDelta else 0) +
        deltaBefore v items = _
      split_ifs <;> ring
    rw [if_neg heq]
    by_cases hlt : node.value < tmp.value
    · rw [if_pos hlt, deltaBefore_cons]
    · rw [if_neg hlt, deltaBefore_cons, deltaBefore_cons, ih]
      exact add_left_comm _ _ _

theorem deltaBefore_extractItem (hentry : entryOf key.value items = some p)
    (hlast : p.refcount - 1 = 0 → p.valueContainmentDelta = key.valueContainmentDelta) :
    deltaBefore v items = (if key.value < v then key.valueContainmentDelta else 0) +
      deltaBefore v (extractItem key items) := by
  induction items with
  | nil => cases hentry
  | cons q items ih =>
    unfold extractItem
    by_cases heq : q.value = key.value
    · rw [entryOf_cons_eq heq] at hentry
      cases hentry
      rw [if_pos heq]
      by_cases href : p.refcount - 1 = 0
      · rw [if_neg (not_not.2 href), deltaBefore_cons, heq, hlast href]
      · rw [if_pos href, deltaBefore_cons, deltaBefore_cons, ← heq]
        show _ = _ + ((if p.value < v then p.valueContainmentDelta - key.valueContainmentDelta
          else 0) + deltaBefore v items)
        split_ifs <;> ring
    · rw [entryOf_cons_ne heq] at hentry
      rw [if_neg heq, deltaBefore_cons, deltaBefore_cons, ih hentry]
      exact add_left_comm _ _ _

/-! ## Insertion and extraction of a mark -/

theorem rangeTreeMarked_null : RangeTreeMarked .null 0 :=
  ⟨trivial, List.Pairwise.nil, fun _ => rfl, fun _ => rfl⟩

theorem RangeTreeMarked.insert (h : RangeTreeMarked t m) (v : ℕ) (d : BitVec 32) :
    ∃ t' higher, naclAvlTreeInsert t (naclIntervalRangeTreeNodeInit v d) = .ok (t', higher) ∧
      RangeTreeMarked t' ((v, d) ::ₘ m) := by
  obtain ⟨⟨t', higher⟩, hrun, hgrown⟩ :=
    @insert_grown _ (naclIntervalRangeTreeNodeInit v d) h.sound h.order
  have hitems : t'.items = insertItem (naclIntervalRangeTreeNodeInit v d) t.items :=
    hgrown.items_eq
  refine ⟨t', higher, hrun, hgrown.sound, hitems ▸ inValueOrder_insertItem h.order, fun u => ?_,
    fun u => ?_⟩
  · rw [hitems]
    by_cases hv : v = u
    · subst hv
      have hentry := @entryOf_insertItem (naclIntervalRangeTreeNodeInit v d) _ h.order
      rw [Marks.node_cons_self]
      refine hentry.trans (congrArg _ ?_)
      show ((entryOf v t.items).map _).getD _ = _
      rw [h.entry_eq]
      unfold Marks.node
      split_ifs with hhere
      · rw [hhere]
        show _ = RangeTreeNode.mk v (d + 0) (0 + 1)
        rw [add_zero, zero_add]
        rfl
      · exact congrArg (RangeTreeNode.mk v · _) (add_comm _ _)
    · rw [Marks.node_cons_of_ne hv, ← h.entry_eq]
      exact entryOf_eq_of_othersOf hv
        (@othersOf_insertItem (naclIntervalRangeTreeNodeInit v d) t.items)
  · rw [hitems, deltaBefore_insertItem, Marks.total_before_cons, h.delta_eq]
    rfl

theorem RangeTreeMarked.extract (h : RangeTreeMarked t ((v, d) ::ₘ m)) (hcard : m.card < 2 ^ 32) :
    ∃ t' changed, naclAvlTreeExtract t (naclIntervalRangeTreeNodeInit v d) = .ok (t', changed) ∧
      RangeTreeMarked t' m := by
  have hentry := h.entry_eq v
  rw [Marks.node_cons_self] at hentry
  have hmem : ∃ p ∈ t.items, p.value = v := ⟨_, List.mem_of_find?_eq_some hentry, rfl⟩
  obtain ⟨⟨t', changed⟩, hrun, hshrunk⟩ :=
    @extract_shrunk _ (naclIntervalRangeTreeNodeInit v d) h.sound h.order hmem
  have hitems : t'.items = extractItem (naclIntervalRangeTreeNodeInit v d) t.items :=
    hshrunk.items_eq
  -- no other mark is at the value if the last reference is released
  have hzero : ((m.here v).card + 1 : BitVec 32) - 1 = 0 ↔ m.here v = 0 := by
    have hle : (m.here v).card ≤ m.card := Multiset.card_le_card (Multiset.filter_le _ _)
    rw [add_sub_cancel_right, ← Multiset.card_eq_zero, ← BitVec.toNat_inj,
      BitVec.natCast_eq_ofNat, BitVec.toNat_ofNat, Nat.mod_eq_of_lt (hle.trans_lt hcard)]
    rfl
  refine ⟨t', changed, hrun, hshrunk.sound, hitems ▸ inValueOrder_extractItem h.order, fun u => ?_,
    fun u => ?_⟩
  · rw [hitems]
    by_cases hv : v = u
    · subst hv
      refine (@entryOf_extractItem (naclIntervalRangeTreeNodeInit v d) _ h.order).trans ?_
      show (entryOf v t.items).bind _ = _
      rw [hentry, Option.bind_some]
      unfold Marks.node
      by_cases hhere : m.here v = 0
      · rw [if_neg (not_not.2 (hzero.2 hhere)), if_pos hhere]
      · rw [if_pos (mt hzero.1 hhere), if_neg hhere]
        simp [RangeTreeNode.released, naclIntervalRangeTreeNodeInit]
    · rw [← @Marks.node_cons_of_ne m _ _ d hv, ← h.entry_eq]
      exact entryOf_eq_of_othersOf hv
        (@othersOf_extractItem (naclIntervalRangeTreeNodeInit v d) t.items)
  · have hdelta := h.delta_eq u
    rw [Marks.total_before_cons,
      @deltaBefore_extractItem _ (naclIntervalRangeTreeNodeInit v d) _ u hentry fun href => ?_]
      at hdelta
    · rw [hitems]
      exact add_left_cancel hdelta
    · show d + (m.here v).total = d
      rw [hzero.1 href]
      exact add_zero d

/-! ## The query -/

theorem RootSummarises.delta_eq (h : RootSummarises t) :
    (match t.stats? with
      | some s => s.subtreeContainmentDelta
      | none => 0) = (t.items.map RangeTreeNode.valueContainmentDelta).sum := by
  cases hstats : t.stats? with
  | none =>
    rw [h.2 hstats]
    rfl
  | some s => exact (h.1 s hstats).sum_eq

/-- The count is not zero at a node.  Between the nodes it is the sum of the deltas before the value,
and the gap starts behind the last node before it. -/
theorem naclAvlTreeFindValue_spec (ht : t.Sound naclRangeStatsUpdate) (ho : InValueOrder t.items)
    (leftDelta : BitVec 32) (leftRange v : ℕ) :
    ((∃ p ∈ t.items, p.value = v) → (naclAvlTreeFindValue t leftDelta leftRange v).1 ≠ 0) ∧
    ((∀ p ∈ t.items, p.value ≠ v) → ∃ gap,
      naclAvlTreeFindValue t leftDelta leftRange v =
        (leftDelta + deltaBefore v t.items, some gap) ∧
      (gap = leftRange ∨ ∃ p ∈ t.items, p.value < v ∧ gap = p.value + 1) ∧
      ∀ p ∈ t.items, p.value < v → p.value < gap) := by
  induction t generalizing leftDelta leftRange with
  | null =>
    refine ⟨nofun, fun _ => ⟨leftRange, ?_, Or.inl rfl, nofun⟩⟩
    exact congrArg (·, _) (add_zero _).symm
  | node l r bal node s ihl ihr =>
    obtain ⟨hl, hr, -, -, -, -⟩ := ht
    obtain ⟨hlo, hro, hleft, hright⟩ := inValueOrder_append.1 ho
    rw [items_node, List.forall_mem_append, List.forall_mem_cons, deltaBefore_append,
      deltaBefore_cons]
    unfold naclAvlTreeFindValue
    by_cases hlt : v < node.value
    · have hafter : ∀ q ∈ r.items, v < q.value := fun q hq => hlt.trans (hright q hq)
      obtain ⟨hfound, hgap⟩ := ihl hl hlo leftDelta leftRange
      rw [if_pos hlt, if_neg hlt.not_gt, deltaBefore_of_le fun q hq => (hafter q hq).le, add_zero,
        add_zero]
      refine ⟨?_, fun ⟨hnot, _, _⟩ => ?_⟩
      · rintro ⟨q, hq, rfl⟩
        rcases List.mem_append.1 hq with hmem | hmem
        · exact hfound ⟨q, hmem, rfl⟩
        · rcases List.mem_cons.1 hmem with rfl | hmem
          · exact absurd hlt (lt_irrefl _)
          · exact absurd (hafter q hmem) (lt_irrefl _)
      · obtain ⟨gap, hrun, hwhere, hbound⟩ := hgap hnot
        refine ⟨gap, hrun, hwhere.imp_right ?_, ?_⟩
        · rintro ⟨q, hq, hvalue⟩
          exact ⟨q, List.mem_append_left _ hq, hvalue⟩
        · rw [List.forall_mem_append, List.forall_mem_cons]
          refine ⟨hbound, fun h => absurd h hlt.not_gt, fun q hq h => absurd h (hafter q hq).not_gt⟩
    rw [if_neg hlt]
    by_cases heq : v = node.value
    · rw [if_pos heq]
      refine ⟨fun _ => ?_, fun ⟨_, hnot, _⟩ => absurd heq.symm hnot⟩
      dsimp only
      split_ifs with hzero
      · decide
      · exact hzero
    have hgt : node.value < v := by omega
    have hbefore : ∀ q ∈ l.items, q.value < v := fun q hq => (hleft q hq).trans hgt
    have hsum := (rootSummarises_of_sound hl hlo).delta_eq
    obtain ⟨hfound, hgap⟩ := ihr hr hro
      (leftDelta + (l.items.map RangeTreeNode.valueContainmentDelta).sum +
        node.valueContainmentDelta) (node.value + 1)
    rw [← hsum] at hfound hgap
    rw [if_neg heq, if_pos hgt, deltaBefore_of_lt hbefore, ← hsum]
    refine ⟨?_, fun ⟨_, _, hnot⟩ => ?_⟩
    · rintro ⟨q, hq, rfl⟩
      rcases List.mem_append.1 hq with hmem | hmem
      · exact absurd (hbefore q hmem) (lt_irrefl _)
      · rcases List.mem_cons.1 hmem with rfl | hmem
        · exact absurd rfl heq
        · exact hfound ⟨q, hmem, rfl⟩
    · obtain ⟨gap, hrun, hwhere, hbound⟩ := hgap hnot
      have hnode : node.value < gap := by
        rcases hwhere with rfl | ⟨q, hq, -, rfl⟩
        · exact Nat.lt_succ_self _
        · exact Nat.lt_succ_of_lt (hright q hq)
      refine ⟨gap, hrun.trans ?_, Or.inr ?_, ?_⟩
      · rw [add_assoc, add_assoc]
      · rcases hwhere with rfl | ⟨q, hq, hvalue⟩
        · exact ⟨node, List.mem_append_right _ List.mem_cons_self, hgt, rfl⟩
        · exact ⟨q, List.mem_append_right _ (List.mem_cons_of_mem _ hq), hvalue⟩
      · rw [List.forall_mem_append, List.forall_mem_cons]
        exact ⟨fun q hq _ => (hleft q hq).trans hnode, fun _ => hnode, hbound⟩

/-- The marks before a value add up to the intervals that are open there. -/
theorem total_before_endPoints (hs : ∀ p ∈ s, p.1 ≤ p.2) :
    ((endPoints s).before v).total = (s.countP fun p => p.1 < v ∧ v ≤ p.2 : ℕ) := by
  induction s using Multiset.induction_on with
  | empty => rfl
  | cons p s ih =>
    rw [Multiset.forall_mem_cons] at hs
    rw [endPoints_cons, Marks.total_before_cons, Marks.total_before_cons, ih hs.2,
      Multiset.countP_cons, Nat.cast_add]
    have hp := hs.1
    by_cases hstart : p.1 < v
    · by_cases hend : p.2 < v
      · rw [if_pos hstart, if_pos hend, if_neg (by omega), Nat.cast_zero]
        ring
      · rw [if_pos hstart, if_neg hend, if_pos (by omega), Nat.cast_one]
        ring
    · rw [if_neg hstart, if_neg (by omega), if_neg (by omega), Nat.cast_zero]
      ring

/-- There are nodes at the end points of the intervals. -/
theorem RangeTreeMarked.exists_node_iff (h : RangeTreeMarked t (endPoints s)) :
    (∃ q ∈ t.items, q.value = v) ↔ ∃ p ∈ s, p.1 = v ∨ p.2 = v := by
  have hnode : (∃ q ∈ t.items, q.value = v) ↔ (endPoints s).here v ≠ 0 := by
    rw [← not_iff_not, not_not]
    have hentry := h.entry_eq v
    unfold Marks.node at hentry
    constructor
    · intro hnone
      rw [entryOf_eq_none fun q hq hvalue => hnone ⟨q, hq, hvalue⟩] at hentry
      by_contra hhere
      rw [if_neg hhere] at hentry
      cases hentry
    · rintro hhere ⟨q, hq, hvalue⟩
      rw [if_pos hhere] at hentry
      exact absurd hvalue (by simpa using List.find?_eq_none.1 hentry q hq)
  have hmark : (endPoints s).here v ≠ 0 ↔ ∃ mark ∈ endPoints s, mark.1 = v := by
    unfold Marks.here
    rw [ne_eq, Multiset.filter_eq_nil]
    push Not
    rfl
  rw [hnode, hmark]
  unfold endPoints
  simp only [Multiset.mem_add, Multiset.mem_map]
  constructor
  · rintro ⟨_, ⟨p, hp, rfl⟩ | ⟨p, hp, rfl⟩, hvalue⟩
    · exact ⟨p, hp, Or.inr hvalue⟩
    · exact ⟨p, hp, Or.inl hvalue⟩
  · rintro ⟨p, hp, hvalue | hvalue⟩
    · exact ⟨_, Or.inr ⟨p, hp, rfl⟩, hvalue⟩
    · exact ⟨_, Or.inl ⟨p, hp, rfl⟩, hvalue⟩

/-- The count at a value is not zero if and only if an interval contains it. -/
theorem RangeTreeMarked.count_ne_zero_iff (h : RangeTreeMarked t (endPoints s))
    (hs : ∀ p ∈ s, p.1 ≤ p.2) (hcard : s.card < 2 ^ 32) :
    (naclAvlTreeFindValue t 0 0 v).1 ≠ 0 ↔ ∃ p ∈ s, p.1 ≤ v ∧ v ≤ p.2 := by
  obtain ⟨hfound, hgap⟩ := naclAvlTreeFindValue_spec h.sound h.order 0 0 v
  by_cases hnode : ∃ q ∈ t.items, q.value = v
  · refine iff_of_true (hfound hnode) ?_
    obtain ⟨p, hp, hvalue⟩ := h.exists_node_iff.1 hnode
    have hle := hs p hp
    exact ⟨p, hp, by omega, by omega⟩
  obtain ⟨gap, hrun, -⟩ := hgap fun q hq hvalue => hnode ⟨q, hq, hvalue⟩
  have hcount : s.countP (fun p => p.1 < v ∧ v ≤ p.2) < 2 ^ 32 :=
    (Multiset.countP_le_card _ _).trans_lt hcard
  rw [hrun, h.delta_eq, total_before_endPoints hs, zero_add, ne_eq, ← BitVec.toNat_inj,
    BitVec.natCast_eq_ofNat, BitVec.toNat_ofNat, Nat.mod_eq_of_lt hcount]
  show _ ≠ 0 ↔ _
  rw [← Nat.pos_iff_ne_zero, Multiset.countP_pos]
  refine exists_congr fun p => and_congr_right fun hp => ?_
  have hstart : p.1 ≠ v := fun hvalue => hnode (h.exists_node_iff.2 ⟨p, hp, Or.inl hvalue⟩)
  omega

/-- Where the count is zero, the gap ends before the value and behind all nodes before it. -/
theorem RangeTreeMarked.gap_spec (h : RangeTreeMarked t (endPoints s))
    (hzero : (naclAvlTreeFindValue t 0 0 v).1 = 0) : ∃ gap,
    (naclAvlTreeFindValue t 0 0 v).2 = some gap ∧
      (gap = 0 ∨ ∃ q ∈ t.items, q.value < v ∧ gap = q.value + 1) ∧
      ∀ q ∈ t.items, q.value < v → q.value < gap := by
  obtain ⟨hfound, hgap⟩ := naclAvlTreeFindValue_spec h.sound h.order 0 0 v
  obtain ⟨gap, hrun, hwhere, hbound⟩ := hgap fun q hq hvalue => hfound ⟨q, hq, hvalue⟩ hzero
  exact ⟨gap, by rw [hrun], hwhere, hbound⟩

theorem RangeTreeMarked.overlapsWith_iff (h : RangeTreeMarked t (endPoints s))
    (hs : ∀ p ∈ s, p.1 ≤ p.2) (hcard : s.card < 2 ^ 32) {a b : ℕ} (hab : a ≤ b) :
    naclIntervalRangeTreeOverlapsWith t a b = true ↔ ∃ p ∈ s, p.1 ≤ b ∧ a ≤ p.2 := by
  unfold naclIntervalRangeTreeOverlapsWith
  dsimp only
  by_cases ha : (naclAvlTreeFindValue t 0 0 a).1 ≠ 0
  · rw [if_pos ha]
    obtain ⟨p, hp, hstart, hend⟩ := (h.count_ne_zero_iff hs hcard).1 ha
    exact iff_of_true rfl ⟨p, hp, hstart.trans hab, hend⟩
  rw [if_neg ha]
  by_cases hb : (naclAvlTreeFindValue t 0 0 b).1 ≠ 0
  · rw [if_pos hb]
    obtain ⟨p, hp, hstart, hend⟩ := (h.count_ne_zero_iff hs hcard).1 hb
    exact iff_of_true rfl ⟨p, hp, hstart, hab.trans hend⟩
  rw [if_neg hb]
  obtain ⟨gapA, hrunA, hwhereA, hboundA⟩ := h.gap_spec (not_not.1 ha)
  obtain ⟨gapB, hrunB, hwhereB, hboundB⟩ := h.gap_spec (not_not.1 hb)
  rw [h.count_ne_zero_iff hs hcard] at ha hb
  rw [hrunA, hrunB, decide_eq_true_iff, ne_eq, Option.some.injEq]
  constructor
  · -- the later gap starts at an end point between the probes
    intro hne
    rcases hwhereB with rfl | ⟨q, hq, hlt, rfl⟩
    · rcases hwhereA with rfl | ⟨q, hq, hlt, rfl⟩
      · exact absurd rfl hne
      · exact absurd (hboundB q hq (hlt.trans_le hab)) (Nat.not_lt_zero _)
    · obtain ⟨p, hp, hvalue⟩ := h.exists_node_iff.1 ⟨q, hq, rfl⟩
      have hle := hs p hp
      refine ⟨p, hp, by omega, ?_⟩
      by_contra hend
      have hbefore := hboundA q hq (by omega)
      rcases hwhereA with rfl | ⟨q', hq', hlt', rfl⟩
      · exact absurd hbefore (Nat.not_lt_zero _)
      · have hafter := hboundB q' hq' (hlt'.trans_le hab)
        omega
  · -- an interval that contains neither probe starts between them
    rintro ⟨p, hp, hstart, hend⟩ rfl
    have hnotA : ¬ (p.1 ≤ a ∧ a ≤ p.2) := fun hin => ha ⟨p, hp, hin⟩
    have hnotB : ¬ (p.1 ≤ b ∧ b ≤ p.2) := fun hin => hb ⟨p, hp, hin⟩
    have hle := hs p hp
    obtain ⟨q, hq, hvalue⟩ := h.exists_node_iff.2 ⟨p, hp, Or.inl rfl⟩
    have hafter := hboundB q hq (by omega)
    rcases hwhereA with rfl | ⟨q', hq', hlt', rfl⟩
    · exact absurd hafter (Nat.not_lt_zero _)
    · omega

end

/-! ## Runs -/

/-- A call that changes an interval multiset. -/
inductive IntervalCall
  | addInterval (firstVal lastVal : ℕ)
  | removeInterval (firstVal lastVal : ℕ)
deriving DecidableEq

namespace IntervalCall

def onList (intervals : List (ℕ × ℕ)) : IntervalCall → Except IntervalListFault (List (ℕ × ℕ))
  | addInterval firstVal lastVal =>
    .ok (naclIntervalListMultisetAddInterval intervals firstVal lastVal)
  | removeInterval firstVal lastVal =>
    naclIntervalListMultisetRemoveInterval intervals firstVal lastVal

def onTree (root : RangeTree) : IntervalCall → Except RangeTreeFault RangeTree
  | addInterval firstVal lastVal => naclIntervalRangeTreeAddInterval root firstVal lastVal
  | removeInterval firstVal lastVal => naclIntervalRangeTreeRemoveInterval root firstVal lastVal

/-- An interval that is added is not inverted, and there is room for it in the 32-bit counters. -/
def Allowed (intervals : List (ℕ × ℕ)) : IntervalCall → Prop
  | addInterval firstVal lastVal => firstVal ≤ lastVal ∧ intervals.length + 1 < 2 ^ 31
  | removeInterval _ _ => True

instance (intervals : List (ℕ × ℕ)) (call : IntervalCall) : Decidable (Allowed intervals call) := by
  cases call <;> unfold Allowed <;> infer_instance

end IntervalCall

/-- The tree holds the intervals of the list. -/
structure RangeTreeHolds (intervals : List (ℕ × ℕ)) (t : RangeTree) : Prop where
  marked : RangeTreeMarked t (endPoints intervals)
  ordered : ∀ p ∈ intervals, p.1 ≤ p.2
  room : intervals.length < 2 ^ 31

theorem RangeTreeHolds.step {intervals intervals' : List (ℕ × ℕ)} {t : RangeTree}
    {call : IntervalCall} (h : RangeTreeHolds intervals t) (hallowed : call.Allowed intervals)
    (hstep : call.onList intervals = .ok intervals') :
    ∃ t', call.onTree t = .ok t' ∧ RangeTreeHolds intervals' t' := by
  cases call with
  | addInterval firstVal lastVal =>
    obtain ⟨hle, hroom⟩ := hallowed
    cases hstep
    obtain ⟨t₁, _, hrun₁, hmarked₁⟩ := h.marked.insert firstVal 1
    obtain ⟨t₂, _, hrun₂, hmarked₂⟩ := hmarked₁.insert lastVal (-1)
    refine ⟨t₂, ?_, ?_, List.forall_mem_cons.2 ⟨hle, h.ordered⟩, hroom⟩
    · show naclIntervalRangeTreeAddInterval t firstVal lastVal = _
      unfold naclIntervalRangeTreeAddInterval
      rw [hrun₁]
      show naclAvlTreeInsert t₁ _ >>= _ = _
      rw [hrun₂]
      rfl
    · rw [← endPoints_cons (firstVal, lastVal)] at hmarked₂
      exact hmarked₂
  | removeInterval firstVal lastVal =>
    have hcons := cons_eq_of_removeInterval hstep
    have hlength := congrArg Multiset.card hcons
    rw [Multiset.card_cons, Multiset.coe_card, Multiset.coe_card] at hlength
    have hroom := h.room
    have hmarked := h.marked
    rw [hcons, endPoints_cons] at hmarked
    dsimp only at hmarked
    obtain ⟨t₁, _, hrun₁, hmarked₁⟩ := hmarked.extract (by
      rw [Multiset.card_cons, card_endPoints, Multiset.coe_card]
      omega)
    obtain ⟨t₂, _, hrun₂, hmarked₂⟩ := hmarked₁.extract (by
      rw [card_endPoints, Multiset.coe_card]
      omega)
    refine ⟨t₂, ?_, hmarked₂, fun p hp => h.ordered p ?_, by omega⟩
    · show naclIntervalRangeTreeRemoveInterval t firstVal lastVal = _
      unfold naclIntervalRangeTreeRemoveInterval naclIntervalRangeTreeRemoveVal
      rw [hrun₁]
      show naclAvlTreeExtract t₁ _ >>= _ = _
      rw [hrun₂]
      rfl
    · rw [← Multiset.mem_coe, hcons]
      exact Multiset.mem_cons_of_mem hp

theorem RangeTreeHolds.overlapsWith_eq {intervals : List (ℕ × ℕ)} {t : RangeTree}
    (h : RangeTreeHolds intervals t) {a b : ℕ} (hab : a ≤ b) :
    naclIntervalRangeTreeOverlapsWith t a b =
      naclIntervalListMultisetOverlapsWith intervals a b := by
  have hcard : (intervals : Multiset (ℕ × ℕ)).card < 2 ^ 32 := h.room.trans (by decide)
  rw [Bool.eq_iff_iff, h.marked.overlapsWith_iff h.ordered hcard hab]
  unfold naclIntervalListMultisetOverlapsWith
  simp

/-- On every run of allowed calls that the list takes, no check of the tree fails, and the tree
answers every query as the list does. -/
theorem rangeTree_refines_list (calls : List IntervalCall) (intervals : List (ℕ × ℕ))
    (h : Runs.Guarded IntervalCall.onList IntervalCall.Allowed [] calls)
    (hrun : calls.foldlM IntervalCall.onList [] = .ok intervals) :
    ∃ t, calls.foldlM IntervalCall.onTree .null = .ok t ∧ ∀ a b, a ≤ b →
      naclIntervalRangeTreeOverlapsWith t a b =
        naclIntervalListMultisetOverlapsWith intervals a b := by
  have hempty : RangeTreeHolds [] .null := ⟨rangeTreeMarked_null, nofun, by decide⟩
  obtain ⟨t, ht, hholds⟩ := h.refines (fun _ _ _ _ hrel hallowed => hrel.step hallowed) hempty hrun
  exact ⟨t, ht, fun a b => hholds.overlapsWith_eq⟩

/-- Two intervals that touch, of which the first one is removed. -/
theorem rangeTree_refines_list_touching : ∃ t,
    [.addInterval 1 4, .addInterval 4 9, .removeInterval 1 4].foldlM IntervalCall.onTree .null =
        .ok t ∧
      naclIntervalRangeTreeOverlapsWith t 0 3 = false ∧
      naclIntervalRangeTreeOverlapsWith t 0 4 = true := by
  obtain ⟨t, hrun, hquery⟩ := rangeTree_refines_list
    [.addInterval 1 4, .addInterval 4 9, .removeInterval 1 4] [(4, 9)] (.of_check (by decide)) rfl
  exact ⟨t, hrun, hquery 0 3 (by decide), hquery 0 4 (by decide)⟩

end SandboxingNaCl
