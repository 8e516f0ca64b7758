import SandboxingNaCl.IntervalMultiset.RangeTree

/-!
# The rotations of the range tree

Each rotation puts the nodes of two sound subtrees and the one between them together again: the tree
is sound, has the height that is reported, and has its items in the same order.
-/

namespace SandboxingNaCl

open AvlTree

/-- The tree is sound, and has a height and items. -/
structure Rebuilt (height : ℕ) (items : List RangeTreeNode) (t : RangeTree) : Prop where
  sound : t.Sound naclRangeStatsUpdate
  height_eq : t.height = height
  items_eq : t.items = items

/-- The tree after a node has been taken out, whose height has shrunk by one if that is reported. -/
structure Shrunk (height : ℕ) (items : List RangeTreeNode) (r : RangeTree × Bool) : Prop where
  sound : r.1.Sound naclRangeStatsUpdate
  height_eq : r.1.height + r.2.toNat = height
  items_eq : r.1.items = items

section

variable {left right a c e g : RangeTree} {x y z node : RangeTreeNode} {bal bal' : ℤ} {n : ℕ}
  {s : RangeTreeStats} {shrunk : Bool}

theorem rebuilt_double (ha : a.Sound naclRangeStatsUpdate) (hc : c.Sound naclRangeStatsUpdate)
    (he : e.Sound naclRangeStatsUpdate) (hg : g.Sound naclRangeStatsUpdate)
    (ha' : a.height = n) (hg' : g.height = n) (hce : max c.height e.height = n)
    (hc' : n ≤ c.height + 1) (he' : n ≤ e.height + 1) (hbal : bal = c.height - a.height)
    (hbal' : bal' = g.height - e.height) :
    Rebuilt (n + 2) (a.items ++ x :: (c.items ++ y :: (e.items ++ z :: g.items)))
      (updated (updated a c bal x) (updated e g bal' z) 0 y) := by
  refine ⟨.mk (.mk ha hc hbal ?_ ?_) (.mk he hg hbal' ?_ ?_) ?_ (by decide) (by decide), ?_, ?_⟩
  · omega
  · omega
  · omega
  · omega
  · rw [height_mk, height_mk]
    omega
  · rw [height_mk, height_mk, height_mk]
    omega
  · simp

theorem rebuilt_left (ha : a.Sound naclRangeStatsUpdate) (hc : c.Sound naclRangeStatsUpdate)
    (he : e.Sound naclRangeStatsUpdate) (hbal : bal = e.height - c.height)
    (hbal' : bal' = max c.height e.height + 1 - a.height) (hlo : -1 ≤ bal ∧ bal ≤ 1)
    (hlo' : -1 ≤ bal' ∧ bal' ≤ 1) :
    Rebuilt (max a.height (max c.height e.height + 1) + 1)
      (a.items ++ x :: (c.items ++ y :: e.items)) (updated a (updated c e bal y) bal' x) := by
  refine ⟨.mk ha (.mk hc he hbal hlo.1 hlo.2) ?_ hlo'.1 hlo'.2, rfl, rfl⟩
  rw [height_mk, hbal']
  norm_cast

theorem rebuilt_right (ha : a.Sound naclRangeStatsUpdate) (hc : c.Sound naclRangeStatsUpdate)
    (he : e.Sound naclRangeStatsUpdate) (hbal : bal = c.height - a.height)
    (hbal' : bal' = e.height - (max a.height c.height + 1)) (hlo : -1 ≤ bal ∧ bal ≤ 1)
    (hlo' : -1 ≤ bal' ∧ bal' ≤ 1) :
    Rebuilt (max (max a.height c.height + 1) e.height + 1)
      (a.items ++ x :: (c.items ++ y :: e.items)) (updated (updated a c bal x) e bal' y) := by
  refine ⟨.mk (.mk ha hc hbal hlo.1 hlo.2) he ?_ hlo'.1 hlo'.2, rfl, by simp⟩
  rw [height_mk, hbal']
  norm_cast

/-! ## Insertion -/

theorem insertPivotLeft_rebuilt (hl : left.Sound naclRangeStatsUpdate)
    (hr : right.Sound naclRangeStatsUpdate) (hheight : left.height = right.height + 2)
    (hbal : left.balance ≠ 0) : ∃ t, insertPivotLeft left right node = .ok t ∧
      Rebuilt left.height (left.items ++ node :: right.items) t := by
  obtain ⟨a, c, bal, b, s, rfl⟩ := exists_node_of_height_pos (by omega : 0 < left.height)
  obtain ⟨ha, hc, hb, hlo, hhi, -⟩ := hl
  rw [height_node] at hheight ⊢
  rw [balance_node] at hbal
  rw [items_node, List.append_assoc, List.cons_append]
  unfold insertPivotLeft
  by_cases hcase : bal = -1
  · have htop := rebuilt_left (x := b) (y := node) ha hc hr (by omega : (0 : ℤ) = _)
      (by omega : (0 : ℤ) = _) (by decide) (by decide)
    have hsame : max a.height (max c.height right.height + 1) = max a.height c.height := by omega
    rw [hsame] at htop
    exact ⟨_, if_pos hcase, htop⟩
  · obtain ⟨c, e, bal', d, s', rfl⟩ := exists_node_of_height_pos (by omega : 0 < c.height)
    obtain ⟨hc, he, hd, hlo', hhi', -⟩ := hc
    rw [height_node] at hb hheight ⊢
    have hbal : (if bal' ≤ 0 then 0 else -1 : ℤ) = c.height - a.height := by split_ifs <;> omega
    have hbal' : (if 0 ≤ bal' then 0 else 1 : ℤ) = right.height - e.height := by
      split_ifs <;> omega
    have htop := rebuilt_double (n := a.height) (x := b) (y := d) (z := node) ha hc he hr rfl
      (by omega) (by omega) (by omega) (by omega) hbal hbal'
    have hsame : max a.height (max c.height e.height + 1) + 1 = a.height + 2 := by omega
    rw [hsame, items_node, List.append_assoc, List.cons_append]
    exact ⟨_, if_neg hcase, htop⟩

theorem insertPivotRight_rebuilt (hl : left.Sound naclRangeStatsUpdate)
    (hr : right.Sound naclRangeStatsUpdate) (hheight : right.height = left.height + 2)
    (hbal : right.balance ≠ 0) : ∃ t, insertPivotRight left right node = .ok t ∧
      Rebuilt right.height (left.items ++ node :: right.items) t := by
  obtain ⟨c, e, bal, d, s, rfl⟩ := exists_node_of_height_pos (by omega : 0 < right.height)
  obtain ⟨hc, he, hd, hlo, hhi, -⟩ := hr
  rw [height_node] at hheight ⊢
  rw [balance_node] at hbal
  rw [items_node]
  unfold insertPivotRight
  by_cases hcase : bal = 1
  · have htop := rebuilt_right (x := node) (y := d) hl hc he (by omega : (0 : ℤ) = _)
      (by omega : (0 : ℤ) = _) (by decide) (by decide)
    have hsame : max (max left.height c.height + 1) e.height = max c.height e.height := by omega
    rw [hsame] at htop
    exact ⟨_, if_pos hcase, htop⟩
  · obtain ⟨a, c, bal', b, s', rfl⟩ := exists_node_of_height_pos (by omega : 0 < c.height)
    obtain ⟨ha, hc, hb, hlo', hhi', -⟩ := hc
    rw [height_node] at hd hheight ⊢
    have hbal : (if bal' ≤ 0 then 0 else -1 : ℤ) = a.height - left.height := by
      split_ifs <;> omega
    have hbal' : (if 0 ≤ bal' then 0 else 1 : ℤ) = e.height - c.height := by split_ifs <;> omega
    have htop := rebuilt_double (n := e.height) (x := node) (y := b) (z := d) hl ha hc he
      (by omega) rfl (by omega) (by omega) (by omega) hbal hbal'
    have hsame : max (max a.height c.height + 1) e.height + 1 = e.height + 2 := by omega
    rw [hsame, items_node, List.append_assoc, List.cons_append]
    exact ⟨_, if_neg hcase, htop⟩

/-! ## Removal -/

theorem Rebuilt.toShrunk {t : RangeTree} {items : List RangeTreeNode} {m : ℕ}
    (h : Rebuilt n items t) (hm : n + shrunk.toNat = m) : Shrunk m items (t, shrunk) :=
  ⟨h.sound, by rw [h.height_eq, hm], h.items_eq⟩

theorem rebuilt_updated (ha : a.Sound naclRangeStatsUpdate) (hc : c.Sound naclRangeStatsUpdate)
    (hbal : bal = c.height - a.height) (hlo : -1 ≤ bal ∧ bal ≤ 1) :
    Rebuilt (max a.height c.height + 1) (a.items ++ x :: c.items) (updated a c bal x) :=
  ⟨.mk ha hc hbal hlo.1 hlo.2, rfl, rfl⟩

theorem balanceLeft_shrunk (ha : a.Sound naclRangeStatsUpdate)
    (hr : right.Sound naclRangeStatsUpdate) (hbal : bal = right.height - (a.height + 1))
    (hlo : -1 ≤ bal) (hhi : bal ≤ 1) :
    ∃ r, naclAvlTreeBalanceLeft (updated a right bal x) true = .ok r ∧
      Shrunk (max (a.height + 1) right.height + 1) (a.items ++ x :: right.items) r := by
  unfold naclAvlTreeBalanceLeft updated AvlTree.mk
  dsimp only
  by_cases hzero : bal + 1 = 0
  · refine ⟨_, if_pos hzero, (rebuilt_updated ha hr (by omega) (by decide)).toShrunk ?_⟩
    rw [Bool.toNat_true]
    omega
  rw [if_neg hzero]
  by_cases hone : bal + 1 = 1
  · refine ⟨_, if_pos hone, (rebuilt_updated ha hr (by omega) (by decide)).toShrunk ?_⟩
    rw [Bool.toNat_false]
    omega
  rw [if_neg hone]
  obtain ⟨c, e, bal', d, s, rfl⟩ := exists_node_of_height_pos (by omega : 0 < right.height)
  obtain ⟨hc, he, hd, hlo', hhi', -⟩ := hr
  rw [height_node] at hbal ⊢
  rw [items_node]
  dsimp only
  by_cases hright : 0 ≤ bal'
  · rw [if_pos hright]
    by_cases heven : bal' = 0
    · refine ⟨_, if_pos heven,
        (rebuilt_right ha hc he (by omega) (by omega) (by decide) (by decide)).toShrunk ?_⟩
      rw [Bool.toNat_false]
      omega
    · refine ⟨_, if_neg heven,
        (rebuilt_right ha hc he (by omega) (by omega) (by decide) (by decide)).toShrunk ?_⟩
      rw [Bool.toNat_true]
      omega
  · rw [if_neg hright]
    obtain ⟨c, c', bal'', f, s', rfl⟩ := exists_node_of_height_pos (by omega : 0 < c.height)
    obtain ⟨hc, hc', hf, hlo'', hhi'', -⟩ := hc
    rw [height_node] at hd hbal ⊢
    rw [items_node, List.append_assoc, List.cons_append]
    refine ⟨_, rfl, (rebuilt_double (n := a.height) ha hc hc' he rfl (by omega) (by omega)
      (by omega) (by omega) (by split_ifs <;> omega) (by split_ifs <;> omega)).toShrunk ?_⟩
    rw [Bool.toNat_true]
    omega

theorem balanceRight_shrunk (hl : left.Sound naclRangeStatsUpdate)
    (he : e.Sound naclRangeStatsUpdate) (hbal : bal = e.height + 1 - left.height)
    (hlo : -1 ≤ bal) (hhi : bal ≤ 1) :
    ∃ r, naclAvlTreeBalanceRight (updated left e bal x) true = .ok r ∧
      Shrunk (max left.height (e.height + 1) + 1) (left.items ++ x :: e.items) r := by
  unfold naclAvlTreeBalanceRight updated AvlTree.mk
  dsimp only
  by_cases hzero : bal - 1 = 0
  · refine ⟨_, if_pos hzero, (rebuilt_updated hl he (by omega) (by decide)).toShrunk ?_⟩
    rw [Bool.toNat_true]
    omega
  rw [if_neg hzero]
  by_cases hone : bal - 1 = -1
  · refine ⟨_, if_pos hone, (rebuilt_updated hl he (by omega) (by decide)).toShrunk ?_⟩
    rw [Bool.toNat_false]
    omega
  rw [if_neg hone]
  obtain ⟨a, c, bal', b, s, rfl⟩ := exists_node_of_height_pos (by omega : 0 < left.height)
  obtain ⟨ha, hc, hb, hlo', hhi', -⟩ := hl
  rw [height_node] at hbal ⊢
  rw [items_node, List.append_assoc, List.cons_append]
  dsimp only
  by_cases hleft : bal' ≤ 0
  · rw [if_pos hleft]
    by_cases heven : bal' = 0
    · refine ⟨_, if_pos heven,
        (rebuilt_left ha hc he (by omega) (by omega) (by decide) (by decide)).toShrunk ?_⟩
      rw [Bool.toNat_false]
      omega
    · refine ⟨_, if_neg heven,
        (rebuilt_left ha hc he (by omega) (by omega) (by decide) (by decide)).toShrunk ?_⟩
      rw [Bool.toNat_true]
      omega
  · rw [if_neg hleft]
    obtain ⟨c, c', bal'', f, s', rfl⟩ := exists_node_of_height_pos (by omega : 0 < c.height)
    obtain ⟨hc, hc', hf, hlo'', hhi'', -⟩ := hc
    rw [height_node] at hb hbal ⊢
    rw [items_node, List.append_assoc, List.cons_append]
    refine ⟨_, rfl, (rebuilt_double (n := a.height) ha hc hc' he rfl (by omega) (by omega)
      (by omega) (by omega) (by split_ifs <;> omega) (by split_ifs <;> omega)).toShrunk ?_⟩
    rw [Bool.toNat_true]
    omega

theorem rebalanceLeft_shrunk {m : ℕ} {t : RangeTree} (ht : t.Sound naclRangeStatsUpdate)
    (hr : right.Sound naclRangeStatsUpdate) (hm : t.height + shrunk.toNat = m)
    (hbal : bal = right.height - m) (hlo : -1 ≤ bal) (hhi : bal ≤ 1) :
    ∃ r, rebalanceIf naclAvlTreeBalanceLeft (updated t right bal x) shrunk = .ok r ∧
      Shrunk (max m right.height + 1) (t.items ++ x :: right.items) r := by
  subst hm
  cases shrunk with
  | true => exact balanceLeft_shrunk ht hr hbal hlo hhi
  | false => exact ⟨_, rfl, (rebuilt_updated ht hr hbal ⟨hlo, hhi⟩).toShrunk rfl⟩

theorem rebalanceRight_shrunk {m : ℕ} {t : RangeTree} (hl : left.Sound naclRangeStatsUpdate)
    (ht : t.Sound naclRangeStatsUpdate) (hm : t.height + shrunk.toNat = m)
    (hbal : bal = m - left.height) (hlo : -1 ≤ bal) (hhi : bal ≤ 1) :
    ∃ r, rebalanceIf naclAvlTreeBalanceRight (updated left t bal x) shrunk = .ok r ∧
      Shrunk (max left.height m + 1) (left.items ++ x :: t.items) r := by
  subst hm
  cases shrunk with
  | true => exact balanceRight_shrunk hl ht hbal hlo hhi
  | false => exact ⟨_, rfl, (rebuilt_updated hl ht hbal ⟨hlo, hhi⟩).toShrunk rfl⟩

end

end SandboxingNaCl
