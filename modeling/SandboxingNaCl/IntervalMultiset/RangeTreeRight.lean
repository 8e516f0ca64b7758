import Mathlib.Order.Bounds.Basic
import SandboxingNaCl.IntervalMultiset.RangeTreeRotations

/-!
# The range tree stays well formed

Insertion and extraction as operations on the nodes in order, and what they keep: the order, the
balances, the summaries and the other nodes.
-/

namespace SandboxingNaCl

open AvlTree

/-! ## The nodes in order -/

def InValueOrder (items : List RangeTreeNode) : Prop :=
  items.Pairwise fun p q => p.value < q.value

/-- A node with the reference that is inserted. -/
def RangeTreeNode.merged (tmp node : RangeTreeNode) : RangeTreeNode :=
  { tmp with
    valueContainmentDelta := tmp.valueContainmentDelta + node.valueContainmentDelta
    refcount := tmp.refcount + 1 }

/-- A node without the reference that is extracted. -/
def RangeTreeNode.released (p key : RangeTreeNode) : RangeTreeNode :=
  { p with
    valueContainmentDelta := p.valueContainmentDelta - key.valueContainmentDelta
    refcount := p.refcount - 1 }

/-- Inserts a node at its place, or a reference if there is a node with its value. -/
def insertItem (node : RangeTreeNode) : List RangeTreeNode → List RangeTreeNode
  | [] => [node]
  | tmp :: items =>
    if node.value = tmp.value then tmp.merged node :: items
    else if node.value < tmp.value then node :: tmp :: items
    else tmp :: insertItem node items

/-- Extracts a reference, and the node with the last one. -/
def extractItem (key : RangeTreeNode) : List RangeTreeNode → List RangeTreeNode
  | [] => []
  | p :: items =>
    if p.value = key.value then
      if p.refcount - 1 ≠ 0 then p.released key :: items else items
    else p :: extractItem key items

section

variable {node key p : RangeTreeNode} {items l r : List RangeTreeNode} {v : ℕ}

theorem inValueOrder_append : InValueOrder (l ++ p :: r) ↔ InValueOrder l ∧ InValueOrder r ∧
    (∀ q ∈ l, q.value < p.value) ∧ (∀ q ∈ r, p.value < q.value) := by
  unfold InValueOrder
  rw [List.pairwise_append, List.pairwise_cons]
  constructor
  · rintro ⟨hl, ⟨hp, hr⟩, hlr⟩
    exact ⟨hl, hr, fun q hq => hlr q hq p List.mem_cons_self, hp⟩
  · rintro ⟨hl, hr, hlp, hp⟩
    refine ⟨hl, ⟨hp, hr⟩, fun q hq q' hq' => ?_⟩
    rcases List.mem_cons.1 hq' with rfl | hmem
    · exact hlp q hq
    · exact (hlp q hq).trans (hp q' hmem)

theorem insertItem_append_left (h : node.value < p.value) :
    insertItem node (l ++ p :: r) = insertItem node l ++ p :: r := by
  induction l with
  | nil =>
    show insertItem node (p :: r) = node :: p :: r
    rw [insertItem, if_neg h.ne, if_pos h]
  | cons q l ih =>
    rw [List.cons_append, insertItem, insertItem, ih]
    split_ifs <;> rfl

theorem insertItem_append_right (hl : ∀ q ∈ l, q.value < node.value) :
    insertItem node (l ++ r) = l ++ insertItem node r := by
  induction l with
  | nil => rfl
  | cons q l ih =>
    rw [List.forall_mem_cons] at hl
    rw [List.cons_append, insertItem, if_neg hl.1.ne', if_neg hl.1.not_gt, ih hl.2]
    rfl

theorem extractItem_append_right (hl : ∀ q ∈ l, q.value ≠ key.value) :
    extractItem key (l ++ r) = l ++ extractItem key r := by
  induction l with
  | nil => rfl
  | cons q l ih =>
    rw [List.forall_mem_cons] at hl
    rw [List.cons_append, extractItem, if_neg hl.1, ih hl.2]
    rfl

theorem extractItem_of_not_mem (h : ∀ q ∈ items, q.value ≠ key.value) :
    extractItem key items = items := by
  have happend := extractItem_append_right (r := []) h
  rw [List.append_nil] at happend
  exact happend.trans (List.append_nil _)

theorem extractItem_append_left (h : ∀ q ∈ r, q.value ≠ key.value) :
    extractItem key (l ++ r) = extractItem key l ++ r := by
  induction l with
  | nil => exact extractItem_of_not_mem h
  | cons q l ih =>
    rw [List.cons_append, extractItem, extractItem, ih]
    split_ifs <;> rfl

theorem mem_insertItem {q : RangeTreeNode} (h : q ∈ insertItem node items) :
    q.value = node.value ∨ q ∈ items := by
  induction items with
  | nil => exact Or.inl (congrArg _ (List.mem_singleton.1 h))
  | cons tmp items ih =>
    unfold insertItem at h
    split_ifs at h with heq hlt
    · rcases List.mem_cons.1 h with rfl | hmem
      · exact Or.inl heq.symm
      · exact Or.inr (List.mem_cons_of_mem _ hmem)
    · rcases List.mem_cons.1 h with rfl | hmem
      · exact Or.inl rfl
      · exact Or.inr hmem
    · rcases List.mem_cons.1 h with rfl | hmem
      · exact Or.inr List.mem_cons_self
      · exact (ih hmem).imp_right (List.mem_cons_of_mem _)

theorem inValueOrder_insertItem (h : InValueOrder items) :
    InValueOrder (insertItem node items) := by
  induction items with
  | nil => exact List.pairwise_singleton _ _
  | cons tmp items ih =>
    obtain ⟨htmp, hitems⟩ := List.pairwise_cons.1 h
    unfold insertItem
    split_ifs with heq hlt
    · exact List.pairwise_cons.2 ⟨htmp, hitems⟩
    · refine List.pairwise_cons.2 ⟨fun q hq => ?_, h⟩
      rcases List.mem_cons.1 hq with rfl | hmem
      · exact hlt
      · exact hlt.trans (htmp q hmem)
    · refine List.pairwise_cons.2 ⟨fun q hq => ?_, ih hitems⟩
      rcases mem_insertItem hq with hvalue | hmem
      · omega
      · exact htmp q hmem

theorem mem_extractItem {q : RangeTreeNode} (h : q ∈ extractItem key items) :
    ∃ p ∈ items, q.value = p.value := by
  induction items with
  | nil => cases h
  | cons p items ih =>
    unfold extractItem at h
    split_ifs at h with heq href
    · rcases List.mem_cons.1 h with rfl | hmem
      · exact ⟨p, List.mem_cons_self, rfl⟩
      · exact ⟨q, List.mem_cons_of_mem _ hmem, rfl⟩
    · exact ⟨q, List.mem_cons_of_mem _ h, rfl⟩
    · rcases List.mem_cons.1 h with rfl | hmem
      · exact ⟨q, List.mem_cons_self, rfl⟩
      · obtain ⟨p', hp', hvalue⟩ := ih hmem
        exact ⟨p', List.mem_cons_of_mem _ hp', hvalue⟩

theorem inValueOrder_extractItem (h : InValueOrder items) :
    InValueOrder (extractItem key items) := by
  induction items with
  | nil => exact List.Pairwise.nil
  | cons p items ih =>
    obtain ⟨hp, hitems⟩ := List.pairwise_cons.1 h
    unfold extractItem
    split_ifs with heq href
    · exact List.pairwise_cons.2 ⟨hp, hitems⟩
    · exact hitems
    · refine List.pairwise_cons.2 ⟨fun q hq => ?_, ih hitems⟩
      obtain ⟨p', hp', hvalue⟩ := mem_extractItem hq
      rw [hvalue]
      exact hp p' hp'

def othersOf (v : ℕ) (items : List RangeTreeNode) : List RangeTreeNode :=
  items.filter (·.value ≠ v)

def entryOf (v : ℕ) (items : List RangeTreeNode) : Option RangeTreeNode :=
  items.find? (·.value = v)

theorem othersOf_insertItem : othersOf node.value (insertItem node items) =
    othersOf node.value items := by
  unfold othersOf
  induction items with
  | nil => simp [insertItem]
  | cons tmp items ih =>
    unfold insertItem
    split_ifs with heq hlt
    · simp [RangeTreeNode.merged, heq]
    · simp
    · rw [List.filter_cons, List.filter_cons, ih]

theorem othersOf_extractItem : othersOf key.value (extractItem key items) =
    othersOf key.value items := by
  unfold othersOf
  induction items with
  | nil => rfl
  | cons p items ih =>
    unfold extractItem
    split_ifs with heq href
    · simp [RangeTreeNode.released, heq]
    · simp [heq]
    · rw [List.filter_cons, List.filter_cons, ih]

theorem entryOf_cons_eq (h : p.value = v) : entryOf v (p :: items) = some p := by
  unfold entryOf
  rw [List.find?_cons, decide_eq_true h]

theorem entryOf_cons_ne (h : p.value ≠ v) : entryOf v (p :: items) = entryOf v items := by
  unfold entryOf
  rw [List.find?_cons, decide_eq_false h]

theorem entryOf_eq_none (h : ∀ q ∈ items, q.value ≠ v) : entryOf v items = none :=
  List.find?_eq_none.2 fun q hq => by simpa using h q hq

theorem entryOf_insertItem (h : InValueOrder items) : entryOf node.value (insertItem node items) =
    some (((entryOf node.value items).map (·.merged node)).getD node) := by
  induction items with
  | nil =>
    unfold insertItem
    rw [entryOf_cons_eq rfl]
    rfl
  | cons tmp items ih =>
    obtain ⟨htmp, hitems⟩ := List.pairwise_cons.1 h
    unfold insertItem
    split_ifs with heq hlt
    · rw [entryOf_cons_eq heq.symm, entryOf_cons_eq (p := tmp.merged node) heq.symm]
      rfl
    · rw [entryOf_cons_eq rfl, entryOf_eq_none]
      · rfl
      · intro q hq
        rcases List.mem_cons.1 hq with rfl | hmem
        · exact hlt.ne'
        · exact (hlt.trans (htmp q hmem)).ne'
    · rw [entryOf_cons_ne (Ne.symm heq), entryOf_cons_ne (Ne.symm heq), ih hitems]

theorem entryOf_extractItem (h : InValueOrder items) : entryOf key.value (extractItem key items) =
    (entryOf key.value items).bind fun p =>
      if p.refcount - 1 ≠ 0 then some (p.released key) else none := by
  induction items with
  | nil => rfl
  | cons p items ih =>
    obtain ⟨hp, hitems⟩ := List.pairwise_cons.1 h
    unfold extractItem
    by_cases heq : p.value = key.value
    · rw [if_pos heq, entryOf_cons_eq heq, Option.bind_some]
      split_ifs with href
      · exact entryOf_cons_eq heq
      · apply entryOf_eq_none
        intro q hq hvalue
        have hlt := hp q hq
        omega
    · rw [if_neg heq, entryOf_cons_ne heq, entryOf_cons_ne heq, ih hitems]

end

/-! ## Insertion -/

/-- The tree after an insertion, which has grown by one if that is reported; then it leans to a side
unless it was empty. -/
structure Grown (height : ℕ) (items : List RangeTreeNode) (r : RangeTree × Bool) : Prop where
  sound : r.1.Sound naclRangeStatsUpdate
  height_eq : r.1.height = height + r.2.toNat
  leans : r.2 = true → height = 0 ∨ r.1.balance ≠ 0
  items_eq : r.1.items = items

theorem Rebuilt.grown {height n : ℕ} {items : List RangeTreeNode} {t : RangeTree}
    (h : Rebuilt n items t) (hn : n = height) : Grown height items (t, false) :=
  ⟨h.sound, h.height_eq.trans hn, nofun, h.items_eq⟩

section

variable {l r t : RangeTree} {p node key : RangeTreeNode} {bal : ℤ} {s : RangeTreeStats}

theorem grown_left {higher : Bool} (hr : r.Sound naclRangeStatsUpdate)
    (ht : t.Sound naclRangeStatsUpdate) (hheight : t.height = l.height + higher.toNat)
    (hleans : higher = true → l.height = 0 ∨ t.balance ≠ 0) (hbal : bal = r.height - l.height)
    (hlo : -1 ≤ bal) (hhi : bal ≤ 1) :
    ∃ res, (if !higher then .ok (updated t r bal p, false)
        else if bal - 1 = 0 then .ok (updated t r 0 p, false)
        else if bal - 1 = -1 then .ok (updated t r (-1) p, true)
        else (insertPivotLeft t r p).map (·, false)) = .ok res ∧
      Grown (max l.height r.height + 1) (t.items ++ p :: r.items) res := by
  cases higher with
  | false =>
    refine ⟨_, rfl, (rebuilt_updated ht hr ?_ ⟨hlo, hhi⟩).grown ?_⟩
    · rw [hheight]
      exact hbal
    · rw [hheight]
      rfl
  | true =>
    rw [Bool.toNat_true] at hheight
    rw [if_neg (by decide)]
    by_cases hzero : bal - 1 = 0
    · refine ⟨_, if_pos hzero, (rebuilt_updated ht hr ?_ (by decide)).grown ?_⟩
      · omega
      · omega
    rw [if_neg hzero]
    by_cases hone : bal - 1 = -1
    · refine ⟨_, if_pos hone, .mk ht hr ?_ (by decide) (by decide), ?_,
        fun _ => Or.inr (by decide : (-1 : ℤ) ≠ 0), rfl⟩
      · omega
      · rw [height_mk, Bool.toNat_true]
        omega
    rw [if_neg hone]
    obtain ⟨t', ht', hrebuilt⟩ := @insertPivotLeft_rebuilt _ _ p ht hr (by omega)
      ((hleans rfl).resolve_left (by omega))
    rw [ht']
    exact ⟨_, rfl, hrebuilt.grown (by omega)⟩

theorem grown_right {higher : Bool} (hl : l.Sound naclRangeStatsUpdate)
    (ht : t.Sound naclRangeStatsUpdate) (hheight : t.height = r.height + higher.toNat)
    (hleans : higher = true → r.height = 0 ∨ t.balance ≠ 0) (hbal : bal = r.height - l.height)
    (hlo : -1 ≤ bal) (hhi : bal ≤ 1) :
    ∃ res, (if !higher then .ok (updated l t bal p, false)
        else if bal + 1 = 0 then .ok (updated l t 0 p, false)
        else if bal + 1 = 1 then .ok (updated l t 1 p, true)
        else (insertPivotRight l t p).map (·, false)) = .ok res ∧
      Grown (max l.height r.height + 1) (l.items ++ p :: t.items) res := by
  cases higher with
  | false =>
    refine ⟨_, rfl, (rebuilt_updated hl ht ?_ ⟨hlo, hhi⟩).grown ?_⟩
    · rw [hheight]
      exact hbal
    · rw [hheight]
      rfl
  | true =>
    rw [Bool.toNat_true] at hheight
    rw [if_neg (by decide)]
    by_cases hzero : bal + 1 = 0
    · refine ⟨_, if_pos hzero, (rebuilt_updated hl ht ?_ (by decide)).grown ?_⟩
      · omega
      · omega
    rw [if_neg hzero]
    by_cases hone : bal + 1 = 1
    · refine ⟨_, if_pos hone, .mk hl ht ?_ (by decide) (by decide), ?_,
        fun _ => Or.inr (by decide : (1 : ℤ) ≠ 0), rfl⟩
      · omega
      · rw [height_mk, Bool.toNat_true]
        omega
    rw [if_neg hone]
    obtain ⟨t', ht', hrebuilt⟩ := @insertPivotRight_rebuilt _ _ p hl ht (by omega)
      ((hleans rfl).resolve_left (by omega))
    rw [ht']
    exact ⟨_, rfl, hrebuilt.grown (by omega)⟩

theorem naclRangeStatsUpdate_add (tmp : RangeTreeNode) (left right : Option RangeTreeStats)
    (d refs : BitVec 32) :
    { naclRangeStatsUpdate tmp left right with
      subtreeContainmentDelta := (naclRangeStatsUpdate tmp left right).subtreeContainmentDelta + d } =
    naclRangeStatsUpdate
      { tmp with valueContainmentDelta := tmp.valueContainmentDelta + d, refcount := refs } left
      right := by
  simp only [naclRangeStatsUpdate, RangeTreeStats.mk.injEq, true_and]
  ac_rfl

theorem insert_grown (ht : t.Sound naclRangeStatsUpdate) (horder : InValueOrder t.items) :
    ∃ res, naclAvlTreeInsert t node = .ok res ∧
      Grown t.height (insertItem node t.items) res := by
  induction t with
  | null =>
    refine ⟨_, rfl, ⟨trivial, trivial, rfl, by decide, by decide, ?_⟩, rfl, fun _ => Or.inl rfl,
      rfl⟩
    simp [naclRangeStatsUpdate, stats?]
  | node l r bal tmp s ihl ihr =>
    obtain ⟨hl, hr, hbal, hlo, hhi, hs⟩ := ht
    obtain ⟨hlo', hro, hleft, hright⟩ := inValueOrder_append.1 horder
    rw [items_node, height_node]
    unfold naclAvlTreeInsert
    by_cases heq : node.value = tmp.value
    · refine ⟨_, if_pos heq, ⟨hl, hr, hbal, hlo, hhi, ?_⟩, rfl, nofun, ?_⟩
      · rw [hs, naclRangeStatsUpdate_add]
      · rw [insertItem_append_right (fun q hq => heq ▸ hleft q hq), insertItem, if_pos heq]
        rfl
    rw [if_neg heq]
    by_cases hlt : node.value < tmp.value
    · obtain ⟨⟨t', higher⟩, hrun, hgrown⟩ := ihl hl hlo'
      rw [if_pos hlt, hrun, insertItem_append_left hlt, ← hgrown.items_eq]
      exact grown_left hr hgrown.sound hgrown.height_eq hgrown.leans hbal hlo hhi
    · obtain ⟨⟨t', higher⟩, hrun, hgrown⟩ := ihr hr hro
      rw [if_neg hlt, hrun, insertItem_append_right (fun q hq => ?_), insertItem, if_neg heq,
        if_neg hlt, ← hgrown.items_eq]
      · exact grown_right hl hgrown.sound hgrown.height_eq hgrown.leans hbal hlo hhi
      · have hbefore := hleft q hq
        omega

/-! ## Extraction -/

theorem findRightMost_shrunk (ht : t.Sound naclRangeStatsUpdate) (hpos : 0 < t.height) :
    ∃ res tmp items, naclAvlFindRightMost t = .ok (res, tmp) ∧ Shrunk t.height items res ∧
      t.items = items ++ [tmp] := by
  induction t with
  | null => exact absurd hpos (lt_irrefl 0)
  | node l r bal p s ihl ihr =>
    obtain ⟨hl, hr, hbal, hlo, hhi, hs⟩ := ht
    rw [height_node, items_node]
    cases r with
    | null =>
      refine ⟨_, p, l.items, rfl, ⟨hl, ?_, rfl⟩, rfl⟩
      rw [height_null, Bool.toNat_true]
      dsimp only
      omega
    | node rl rr rbal rp rs =>
      obtain ⟨⟨t', shrunk⟩, tmp, items, hrun, hshrunk, hitems⟩ := ihr hr (by simp)
      obtain ⟨res, hres, hbalanced⟩ := rebalanceRight_shrunk (x := p) hl hshrunk.sound
        hshrunk.height_eq hbal hlo hhi
      refine ⟨res, tmp, _, ?_, hbalanced, ?_⟩
      · rw [naclAvlFindRightMost, hrun]
        · dsimp only
          rw [hres]
          rfl
        · rintro h
          cases h
      · rw [hitems, hshrunk.items_eq, List.append_assoc, List.cons_append]

theorem findLeftMost_shrunk (ht : t.Sound naclRangeStatsUpdate) (hpos : 0 < t.height) :
    ∃ res tmp items, naclAvlFindLeftMost t = .ok (res, tmp) ∧ Shrunk t.height items res ∧
      t.items = tmp :: items := by
  induction t with
  | null => exact absurd hpos (lt_irrefl 0)
  | node l r bal p s ihl ihr =>
    obtain ⟨hl, hr, hbal, hlo, hhi, hs⟩ := ht
    rw [height_node, items_node]
    cases l with
    | null =>
      refine ⟨_, p, r.items, rfl, ⟨hr, ?_, rfl⟩, rfl⟩
      rw [height_null, Bool.toNat_true]
      dsimp only
      omega
    | node ll lr lbal lp ls =>
      obtain ⟨⟨t', shrunk⟩, tmp, items, hrun, hshrunk, hitems⟩ := ihl hl (by simp)
      obtain ⟨res, hres, hbalanced⟩ := rebalanceLeft_shrunk (x := p) hshrunk.sound hr
        hshrunk.height_eq hbal hlo hhi
      refine ⟨res, tmp, _, ?_, hbalanced, ?_⟩
      · rw [naclAvlFindLeftMost, hrun]
        · dsimp only
          rw [hres]
          rfl
        · rintro h
          cases h
      · rw [hitems, hshrunk.items_eq, List.cons_append]

theorem removeNode_shrunk (hl : l.Sound naclRangeStatsUpdate) (hr : r.Sound naclRangeStatsUpdate)
    (hbal : bal = r.height - l.height) (hlo : -1 ≤ bal) (hhi : bal ≤ 1) :
    ∃ res, removeNode l r bal = .ok res ∧
      Shrunk (max l.height r.height + 1) (l.items ++ r.items) res := by
  cases r with
  | null =>
    refine ⟨(l, true), by rw [removeNode], hl, ?_, (List.append_nil _).symm⟩
    rw [height_null, Bool.toNat_true]
    dsimp only
    omega
  | node rl rr rbal rp rs =>
    cases l with
    | null =>
      refine ⟨_, rfl, hr, ?_, rfl⟩
      rw [height_null, Bool.toNat_true]
      dsimp only
      omega
    | node ll lr lbal lp ls =>
      unfold removeNode
      by_cases hside : bal ≤ 0
      · obtain ⟨⟨t', shrunk⟩, tmp, items, hrun, hshrunk, hitems⟩ :=
          findRightMost_shrunk hl (by simp)
        obtain ⟨res, hres, hbalanced⟩ := rebalanceLeft_shrunk (x := tmp) hshrunk.sound hr
          hshrunk.height_eq hbal hlo hhi
        rw [hshrunk.items_eq] at hbalanced
        refine ⟨res, ?_, ?_⟩
        · dsimp only
          rw [if_pos hside, hrun]
          exact hres
        · rw [hitems, List.append_assoc]
          exact hbalanced
      · obtain ⟨⟨t', shrunk⟩, tmp, items, hrun, hshrunk, hitems⟩ :=
          findLeftMost_shrunk hr (by simp)
        obtain ⟨res, hres, hbalanced⟩ := rebalanceRight_shrunk (x := tmp) hl hshrunk.sound
          hshrunk.height_eq hbal hlo hhi
        rw [hshrunk.items_eq] at hbalanced
        refine ⟨res, ?_, ?_⟩
        · dsimp only
          rw [if_neg hside, hrun]
          exact hres
        · rw [hitems]
          exact hbalanced

theorem extract_shrunk (ht : t.Sound naclRangeStatsUpdate) (horder : InValueOrder t.items)
    (hmem : ∃ p ∈ t.items, p.value = key.value) :
    ∃ res, naclAvlTreeExtract t key = .ok res ∧
      Shrunk t.height (extractItem key t.items) res := by
  induction t with
  | null => obtain ⟨p, hp, -⟩ := hmem; cases hp
  | node l r bal p s ihl ihr =>
    obtain ⟨hl, hr, hbal, hlo, hhi, hs⟩ := ht
    obtain ⟨hlo', hro, hleft, hright⟩ := inValueOrder_append.1 horder
    obtain ⟨q, hq, hvalue⟩ := hmem
    rw [items_node] at hq ⊢
    rw [height_node]
    have hwhere := List.mem_append.1 hq
    rw [List.mem_cons] at hwhere
    unfold naclAvlTreeExtract
    by_cases hlt : key.value < p.value
    · have hql : q ∈ l.items := by
        rcases hwhere with hql | rfl | hqr
        · exact hql
        · omega
        · have hafter := hright q hqr
          omega
      obtain ⟨⟨t', shrunk⟩, hrun, hshrunk⟩ := ihl hl hlo' ⟨q, hql, hvalue⟩
      have hnot : ∀ q ∈ p :: r.items, q.value ≠ key.value := by
        refine List.forall_mem_cons.2 ⟨hlt.ne', fun q hq => ?_⟩
        exact (hlt.trans (hright q hq)).ne'
      rw [if_pos hlt, hrun, extractItem_append_left hnot, ← hshrunk.items_eq]
      exact rebalanceLeft_shrunk hshrunk.sound hr hshrunk.height_eq hbal hlo hhi
    rw [if_neg hlt]
    by_cases hgt : p.value < key.value
    · have hqr : q ∈ r.items := by
        rcases hwhere with hql | rfl | hqr
        · have hbefore := hleft q hql
          omega
        · omega
        · exact hqr
      obtain ⟨⟨t', shrunk⟩, hrun, hshrunk⟩ := ihr hr hro ⟨q, hqr, hvalue⟩
      rw [if_pos hgt, hrun, extractItem_append_right fun q hq => ((hleft q hq).trans hgt).ne,
        extractItem, if_neg hgt.ne, ← hshrunk.items_eq]
      exact rebalanceRight_shrunk hl hshrunk.sound hshrunk.height_eq hbal hlo hhi
    have heq : p.value = key.value := by omega
    rw [if_neg hgt, extractItem_append_right fun q hq => heq ▸ (hleft q hq).ne, extractItem,
      if_pos heq]
    by_cases href : p.refcount - 1 ≠ 0
    · rw [if_pos href, if_pos href]
      refine ⟨_, rfl, ⟨hl, hr, hbal, hlo, hhi, ?_⟩, rfl, rfl⟩
      rw [hs]
      have hsub (d : BitVec 32) : d - key.valueContainmentDelta =
          d + -key.valueContainmentDelta := BitVec.sub_eq_add_neg _ _
      rw [hsub, hsub]
      exact naclRangeStatsUpdate_add p _ _ (-key.valueContainmentDelta) (p.refcount - 1)
    · rw [if_neg href, if_neg href]
      obtain ⟨res, hres, hshrunk⟩ := removeNode_shrunk hl hr hbal hlo hhi
      exact ⟨res, hres, hshrunk⟩

theorem extract_notFound (h : ∀ p ∈ t.items, p.value ≠ key.value) :
    naclAvlTreeExtract t key = .error .notFound := by
  induction t with
  | null => rfl
  | node l r bal p s ihl ihr =>
    rw [items_node, List.forall_mem_append, List.forall_mem_cons] at h
    unfold naclAvlTreeExtract
    by_cases hlt : key.value < p.value
    · rw [if_pos hlt, ihl h.1]
    · rw [if_neg hlt, if_pos (by omega), ihr h.2.2]

end

/-! ## Well formed trees -/

/-- The summary has the extreme keys, and the sum of the deltas. -/
structure RangeTreeStats.Summarises (s : RangeTreeStats) (items : List RangeTreeNode) : Prop where
  least : IsLeast {v | ∃ p ∈ items, p.value = v} s.rangeLeft
  greatest : IsGreatest {v | ∃ p ∈ items, p.value = v} s.rangeRight
  sum_eq : s.subtreeContainmentDelta = (items.map RangeTreeNode.valueContainmentDelta).sum

/-- At each node the balance is the difference of the heights, and is -1, 0 or 1, and the summary is
that of the subtree. -/
def NodesRight : RangeTree → Prop
  | .null => True
  | .node l r bal p s => NodesRight l ∧ NodesRight r ∧ bal = r.height - l.height ∧
      (bal = -1 ∨ bal = 0 ∨ bal = 1) ∧ s.Summarises (l.items ++ p :: r.items)

/-- The end points are in search order, and the nodes are right. -/
structure RangeTreeWellFormed (t : RangeTree) : Prop where
  order : InValueOrder t.items
  nodes : NodesRight t

section

variable {t l r : RangeTree} {p : RangeTreeNode} {s s' : RangeTreeStats}
  {items : List RangeTreeNode}

theorem RangeTreeStats.Summarises.unique (h : s.Summarises items) (h' : s'.Summarises items) :
    s = s' := by
  obtain ⟨left, right, delta⟩ := s
  obtain ⟨left', right', delta'⟩ := s'
  obtain rfl : left = left' := h.least.unique h'.least
  obtain rfl : right = right' := h.greatest.unique h'.greatest
  obtain rfl : delta = delta' := h.sum_eq.trans h'.sum_eq.symm
  rfl

/-- The root says of the tree what a summary has to; of the empty tree there is none. -/
def RootSummarises (t : RangeTree) : Prop :=
  (∀ s ∈ t.stats?, s.Summarises t.items) ∧ (t.stats? = none → t.items = [])

theorem summarises_update (hl : RootSummarises l) (hr : RootSummarises r)
    (horder : InValueOrder (l.items ++ p :: r.items)) :
    (naclRangeStatsUpdate p l.stats? r.stats?).Summarises (l.items ++ p :: r.items) := by
  obtain ⟨-, -, hleft, hright⟩ := inValueOrder_append.1 horder
  refine ⟨?_, ?_, ?_⟩
  · cases hstats : l.stats? with
    | none =>
      rw [hl.2 hstats]
      refine ⟨⟨p, List.mem_cons_self, rfl⟩, ?_⟩
      rintro _ ⟨q, hq, rfl⟩
      rcases List.mem_cons.1 hq with rfl | hmem
      · exact le_rfl
      · exact (hright q hmem).le
    | some s =>
      obtain ⟨⟨q, hq, hvalue⟩, hlow⟩ := (hl.1 s hstats).least
      refine ⟨⟨q, List.mem_append_left _ hq, hvalue⟩, ?_⟩
      rintro _ ⟨q', hq', rfl⟩
      have hpoint : s.rangeLeft < p.value := hvalue ▸ hleft q hq
      rcases List.mem_append.1 hq' with hmem | hmem
      · exact hlow ⟨q', hmem, rfl⟩
      · rcases List.mem_cons.1 hmem with rfl | hmem
        · exact hpoint.le
        · exact (hpoint.trans (hright q' hmem)).le
  · cases hstats : r.stats? with
    | none =>
      rw [hr.2 hstats]
      refine ⟨⟨p, List.mem_append_right _ (List.mem_singleton_self p), rfl⟩, ?_⟩
      rintro _ ⟨q, hq, rfl⟩
      rcases List.mem_append.1 hq with hmem | hmem
      · exact (hleft q hmem).le
      · rw [List.mem_singleton.1 hmem]
        exact le_rfl
    | some s =>
      obtain ⟨⟨q, hq, hvalue⟩, hhigh⟩ := (hr.1 s hstats).greatest
      refine ⟨⟨q, List.mem_append_right _ (List.mem_cons_of_mem _ hq), hvalue⟩, ?_⟩
      rintro _ ⟨q', hq', rfl⟩
      have hpoint : p.value < s.rangeRight := hvalue ▸ hright q hq
      rcases List.mem_append.1 hq' with hmem | hmem
      · exact ((hleft q' hmem).trans hpoint).le
      · rcases List.mem_cons.1 hmem with rfl | hmem
        · exact hpoint.le
        · exact hhigh ⟨q', hmem, rfl⟩
  · have hdelta (t : RangeTree) (ht : RootSummarises t) :
        t.stats?.elim 0 (·.subtreeContainmentDelta) = (t.items.map RangeTreeNode.valueContainmentDelta).sum := by
      cases hstats : t.stats? with
      | none =>
        rw [ht.2 hstats]
        rfl
      | some s => exact (ht.1 s hstats).sum_eq
    rw [List.map_append, List.map_cons, List.sum_append, List.sum_cons, ← hdelta l hl,
      ← hdelta r hr]
    unfold naclRangeStatsUpdate
    cases l.stats? <;> cases r.stats? <;> ac_rfl

theorem rootSummarises_of_sound (h : t.Sound naclRangeStatsUpdate) (horder : InValueOrder t.items) :
    RootSummarises t := by
  induction t with
  | null => exact ⟨nofun, fun _ => rfl⟩
  | node l r bal p s ihl ihr =>
    obtain ⟨hl, hr, -, -, -, rfl⟩ := h
    obtain ⟨hlo, hro, -, -⟩ := inValueOrder_append.1 horder
    refine ⟨fun s hs => ?_, nofun⟩
    cases hs
    exact summarises_update (ihl hl hlo) (ihr hr hro) horder

/-- A tree in order is right at its nodes if and only if its balances are and its summaries are up to
date. -/
theorem nodesRight_iff_sound (horder : InValueOrder t.items) :
    NodesRight t ↔ t.Sound naclRangeStatsUpdate := by
  induction t with
  | null => exact Iff.rfl
  | node l r bal p s ihl ihr =>
    obtain ⟨hlo, hro, -, -⟩ := inValueOrder_append.1 horder
    unfold NodesRight Sound
    rw [ihl hlo, ihr hro]
    refine and_congr_right fun hl => and_congr_right fun hr => and_congr_right fun _ => ?_
    have hupdate := summarises_update (p := p) (rootSummarises_of_sound hl hlo)
      (rootSummarises_of_sound hr hro) horder
    constructor
    · rintro ⟨hbal, hs⟩
      exact ⟨by omega, by omega, hs.unique hupdate⟩
    · rintro ⟨hlow, hhigh, rfl⟩
      exact ⟨by omega, hupdate⟩

/-- Insertion and extraction keep the tree well formed, say whether its height has changed, and leave
the other nodes alone. -/
theorem range_tree_maintained (t : RangeTree) (node : RangeTreeNode) (h : RangeTreeWellFormed t) :
    (∃ t' higher, naclAvlTreeInsert t node = .ok (t', higher) ∧ RangeTreeWellFormed t' ∧
      t'.height = t.height + higher.toNat ∧
      othersOf node.value t'.items = othersOf node.value t.items ∧
      entryOf node.value t'.items =
        some (((entryOf node.value t.items).map (·.merged node)).getD node)) ∧
    ((∃ p ∈ t.items, p.value = node.value) →
      ∃ t' changed, naclAvlTreeExtract t node = .ok (t', changed) ∧ RangeTreeWellFormed t' ∧
        t'.height + changed.toNat = t.height ∧
        othersOf node.value t'.items = othersOf node.value t.items ∧
        entryOf node.value t'.items = (entryOf node.value t.items).bind fun p =>
          if p.refcount - 1 ≠ 0 then some (p.released node) else none) ∧
    ((∀ p ∈ t.items, p.value ≠ node.value) →
      naclAvlTreeExtract t node = .error .notFound) := by
  have hsound := (nodesRight_iff_sound h.order).1 h.nodes
  refine ⟨?_, fun hmem => ?_, extract_notFound⟩
  · obtain ⟨⟨t', higher⟩, hrun, hgrown⟩ := @insert_grown _ node hsound h.order
    have horder : InValueOrder t'.items := hgrown.items_eq ▸ inValueOrder_insertItem h.order
    refine ⟨t', higher, hrun, ⟨horder, (nodesRight_iff_sound horder).2 hgrown.sound⟩,
      hgrown.height_eq, ?_, ?_⟩
    · rw [hgrown.items_eq, othersOf_insertItem]
    · rw [hgrown.items_eq, entryOf_insertItem h.order]
  · obtain ⟨⟨t', changed⟩, hrun, hshrunk⟩ := extract_shrunk hsound h.order hmem
    have horder : InValueOrder t'.items := hshrunk.items_eq ▸ inValueOrder_extractItem h.order
    refine ⟨t', changed, hrun, ⟨horder, (nodesRight_iff_sound horder).2 hshrunk.sound⟩,
      hshrunk.height_eq, ?_, ?_⟩
    · rw [hshrunk.items_eq, othersOf_extractItem]
    · rw [hshrunk.items_eq, entryOf_extractItem h.order]

def sampleRangeTree : RangeTree :=
  updated (updated .null .null 0 ⟨2, 1, 1⟩) (updated .null .null 0 ⟨6, -1, 1⟩) 0 ⟨4, 0, 2⟩

theorem sampleRangeTree_wellFormed : RangeTreeWellFormed sampleRangeTree := by
  have horder : InValueOrder sampleRangeTree.items := by
    unfold InValueOrder
    decide
  refine ⟨horder, (nodesRight_iff_sound horder).2 ?_⟩
  exact .mk (.mk trivial trivial rfl (by decide) (by decide))
    (.mk trivial trivial rfl (by decide) (by decide)) rfl (by decide) (by decide)

theorem range_tree_maintained_sample :
    ∃ t' changed, naclAvlTreeExtract sampleRangeTree ⟨6, -1, 1⟩ = .ok (t', changed) ∧
      RangeTreeWellFormed t' ∧ t'.height + changed.toNat = 2 ∧
      othersOf 6 t'.items = [⟨2, 1, 1⟩, ⟨4, 0, 2⟩] := by
  obtain ⟨t', changed, hrun, hwell, hheight, hothers, -⟩ :=
    (range_tree_maintained sampleRangeTree ⟨6, -1, 1⟩ sampleRangeTree_wellFormed).2.1
      ⟨⟨6, -1, 1⟩, by decide, rfl⟩
  exact ⟨t', changed, hrun, hwell, hheight, hothers.trans (by decide)⟩

end

end SandboxingNaCl
