import SandboxingNaCl.Ragel.TrieCache

/-!
# Merging tries

A merge that goes through gives the union of the two tries out of nodes of the cache; it goes through
iff the two tries accept no sequence with two objects.
-/

namespace SandboxingNaCl

open LabelledGraph

theorem combineAcceptInfo_eq_ok {info1 info2 info : Option InfoRef}
    (h : combineAcceptInfo info1 info2 = .ok info) :
    info = info1.or info2 ∧ ∀ i j, info1 = some i → info2 = some j → i = j := by
  cases info1 with
  | none =>
    cases h
    exact ⟨rfl, fun i j hi _ => by cases hi⟩
  | some i =>
    cases info2 with
    | none =>
      cases h
      exact ⟨rfl, fun i j _ hj => by cases hj⟩
    | some j =>
      by_cases hij : i = j
      · subst hij
        rw [combineAcceptInfo, if_neg (not_not.2 rfl)] at h
        cases h
        refine ⟨rfl, fun a b ha hb => ?_⟩
        cases ha
        cases hb
        rfl
      · rw [combineAcceptInfo, if_pos hij] at h
        cases h

theorem combineAcceptInfo_total {info1 info2 : Option InfoRef}
    (h : ∀ i j, info1 = some i → info2 = some j → i = j) :
    ∃ info, combineAcceptInfo info1 info2 = .ok info := by
  cases info1 with
  | none => exact ⟨info2, rfl⟩
  | some i =>
    cases info2 with
    | none => exact ⟨some i, rfl⟩
    | some j =>
      obtain rfl := h i j rfl rfl
      exact ⟨some i, if_neg (not_not.2 rfl)⟩

namespace NodeCache

variable {κ : Type} [DecidableEq κ] {order : SetOrder κ} {S T U : NodeCache κ}
  {r node1 node2 depth : ℕ} {k : κ}

/-- `r` is a node of `T` for the union of two tries of `S`, and what these have in common is held in
common objects. -/
structure Merged (S : NodeCache κ) (node1 node2 r : ℕ) (T : NodeCache κ) : Prop where
  inv : T.Inv
  ext : Extends S T
  mem : r ∈ T.cache
  infoAt : ∀ s, T.heap.infoAt r s = (S.heap.infoAt node1 s).or (S.heap.infoAt node2 s)
  shared : S.heap.Shared node1 node2

namespace Merged

theorem of_extends (h : Merged T node1 node2 r U) (hS : S.Inv) (hext : Extends S T)
    (h1 : node1 < S.heap.nodes.length) (h2 : node2 < S.heap.nodes.length) :
    Merged S node1 node2 r U where
  inv := h.inv
  ext := hext.trans h.ext
  mem := h.mem
  infoAt s := by
    rw [h.infoAt, hext.infoAt_eq hS.heapClosed h1, hext.infoAt_eq hS.heapClosed h2]
  shared := (hext.shared hS.heapClosed h1 h2).1 h.shared

theorem extends_right (h : Merged S node1 node2 r T) (hext : Extends T U) (hU : U.Inv) :
    Merged S node1 node2 r U where
  inv := hU
  ext := h.ext.trans hext
  mem := hext.cache r h.mem
  infoAt s := by rw [hext.infoAt_eq h.inv.heapClosed (h.inv.bound r h.mem), h.infoAt]
  shared := h.shared

theorem ne_emptyNode {e1 e2 : ℕ} (h : Merged S e1 e2 r T) {s : List κ}
    (hne : S.heap.infoAt e1 s ≠ none ∨ S.heap.infoAt e2 s ≠ none) : r ≠ T.emptyNode := by
  apply h.inv.ne_emptyNode
  rw [h.infoAt, Ne, Option.or_eq_none_iff, not_and_or]
  exact hne

theorem emptyNode (hS : S.Inv) (h1 : node1 ∈ S.cache) : Merged S node1 S.emptyNode node1 S where
  inv := hS
  ext := .refl S
  mem := h1
  infoAt s := by rw [hS.infoAt_emptyNode, Option.or_none]
  shared s i j _ hj := by rw [hS.acceptAt_emptyNode] at hj; cases hj

end Merged

theorem merged_of_children {children : Dict κ ℕ} {info : Option InfoRef} (hS : S.Inv)
    (h1 : S.heap.IsTrie node1) (h2 : S.heap.IsTrie node2) (hT : T.Inv) (hext : Extends S T)
    (hin : ∀ k ∈ S.heap.unionOfChildKeys node1 node2, ∃ c, children.lookup k = some c ∧
      Merged S (S.heap.childOr S.emptyNode node1 k) (S.heap.childOr S.emptyNode node2 k) c T)
    (hout : ∀ k, k ∉ S.heap.unionOfChildKeys node1 node2 → children.lookup k = none)
    (hinfo : combineAcceptInfo (S.heap.acceptInfo node1) (S.heap.acceptInfo node2) = .ok info)
    (h : T.getOrMakeNode children info = (r, U)) : Merged S node1 node2 r U := by
  have hchildren : ∀ k c, children.lookup k = some c → c ∈ T.cache ∧ c ≠ T.emptyNode := by
    intro k c hc
    have hk : k ∈ S.heap.unionOfChildKeys node1 node2 := by
      by_contra hk
      rw [hout k hk] at hc
      cases hc
    obtain ⟨c', hc', hm⟩ := hin k hk
    obtain rfl : c' = c := Option.some.inj (hc'.symm.trans hc)
    refine ⟨hm.mem, ?_⟩
    rcases TrieHeap.mem_unionOfChildKeys.1 hk with hk | hk
    · obtain ⟨s, hs⟩ := Inv.exists_infoAt_of_child h1 hk
      exact hm.ne_emptyNode (Or.inl (by rwa [hS.infoAt_childOr]))
    · obtain ⟨s, hs⟩ := Inv.exists_infoAt_of_child h2 hk
      exact hm.ne_emptyNode (Or.inr (by rwa [hS.infoAt_childOr]))
  obtain ⟨hU, hTU, hmem, hval, hch⟩ := getOrMakeNode_spec hT hchildren h
  obtain ⟨rfl, hsame⟩ := combineAcceptInfo_eq_ok hinfo
  have hchild : ∀ k, U.heap.child r k = children.lookup k := fun k => by
    rw [TrieHeap.child, hch]
  refine ⟨hU, hext.trans hTU, hmem, fun s => ?_, fun s i j hi hj => ?_⟩
  · cases s with
    | nil =>
      rw [TrieHeap.infoAt_nil, TrieHeap.infoAt_nil, TrieHeap.infoAt_nil, hval, Option.map_or]
      rfl
    | cons k s =>
      by_cases hk : k ∈ S.heap.unionOfChildKeys node1 node2
      · obtain ⟨c, hc, hm⟩ := hin k hk
        have hr : U.heap.infoAt r (k :: s) = U.heap.infoAt c s :=
          valueAt_cons_of_child ((hchild k).trans hc)
        rw [hr, hTU.infoAt_eq hT.heapClosed (hT.bound c hm.mem), hm.infoAt, hS.infoAt_childOr,
          hS.infoAt_childOr]
      · have hnone := mt TrieHeap.mem_unionOfChildKeys.2 hk
        push Not at hnone
        have hr : U.heap.infoAt r (k :: s) = none :=
          valueAt_cons_of_none ((hchild k).trans (hout k hk))
        have hn1 : S.heap.infoAt node1 (k :: s) = none := valueAt_cons_of_none hnone.1
        have hn2 : S.heap.infoAt node2 (k :: s) = none := valueAt_cons_of_none hnone.2
        rw [hr, hn1, hn2, Option.or_none]
  · cases s with
    | nil => exact hsame i j hi hj
    | cons k s =>
      have hk : k ∈ S.heap.unionOfChildKeys node1 node2 := by
        rw [TrieHeap.mem_unionOfChildKeys]
        left
        intro hnone
        rw [TrieHeap.acceptAt, valueAt_cons_of_none hnone] at hi
        cases hi
      obtain ⟨c, -, hm⟩ := hin k hk
      rw [← hS.acceptAt_childOr] at hi hj
      exact hm.shared s i j hi hj

theorem mergeChild_eq_ok {f : ℕ → ℕ → NodeCache κ → Except TrieError (ℕ × NodeCache κ)}
    (h : S.mergeChild f node1 node2 k T = .ok (r, U)) :
    f (S.heap.childOr S.emptyNode node1 k) (S.heap.childOr S.emptyNode node2 k) T = .ok (r, U) := by
  obtain ⟨⟨c, V⟩, hf, hr⟩ := KeyedLoop.bind_eq_ok.1 h
  by_cases hfrozen : (V.heap.node c).frozen = true
  · simp only [if_pos hfrozen] at hr
    cases hr
    exact hf
  · simp only [if_neg hfrozen] at hr
    cases hr

theorem mergeChild_of_ok {f : ℕ → ℕ → NodeCache κ → Except TrieError (ℕ × NodeCache κ)}
    (h : f (S.heap.childOr S.emptyNode node1 k) (S.heap.childOr S.emptyNode node2 k) T = .ok (r, U))
    (hfrozen : (U.heap.node r).frozen = true) :
    S.mergeChild f node1 node2 k T = .ok (r, U) :=
  KeyedLoop.bind_eq_ok.2 ⟨(r, U), h, if_pos hfrozen⟩

theorem merge_spec (hS : S.Inv) (h1 : node1 ∈ S.cache) (h2 : S.heap.IsTrie node2)
    (h : merge order depth node1 node2 S = .ok (r, T)) : Merged S node1 node2 r T := by
  induction depth generalizing S node1 node2 r T with
  | zero => cases h
  | succ depth ih =>
    rw [merge] at h
    by_cases hempty : node2 = S.emptyNode
    · rw [if_pos hempty] at h
      cases h
      rw [hempty]
      exact .emptyNode hS h1
    · rw [if_neg hempty] at h
      obtain ⟨⟨children, V⟩, hloop, h⟩ := KeyedLoop.bind_eq_ok.1 h
      obtain ⟨info, hinfo, h⟩ := KeyedLoop.bind_eq_ok.1 h
      have hstep := KeyedLoop.build_spec (f := S.mergeChild (merge order depth) node1 node2)
        (I := fun V => V.Inv ∧ Extends S V) (R := Extends)
        (Q := fun k c V => Merged S (S.heap.childOr S.emptyNode node1 k)
          (S.heap.childOr S.emptyNode node2 k) c V)
        Extends.refl (fun _ _ _ => Extends.trans)
        (fun k c V W _ hW hm hext => hm.extends_right hext hW.1)
        (fun k _ V hV c W hc => ?_) ⟨hS, .refl S⟩ hloop
      · obtain ⟨⟨hV, hext⟩, -, hin, hout⟩ := hstep
        refine merged_of_children hS (hS.isTrie h1) h2 hV hext (fun k hk => hin k ?_)
          (fun k hk => hout k ?_) hinfo (Except.ok.inj h)
        · exact (order.mem_toList _ _).2 hk
        · exact mt (order.mem_toList _ _).1 hk
      · have hc1 := hS.childOr_mem h1 k
        have hc2 := hS.isTrie_childOr h2 k
        have hm := ih hV.1 (hV.2.cache _ hc1) (hV.2.isTrie hS.heapClosed hc2)
          (mergeChild_eq_ok hc)
        exact ⟨⟨hm.inv, hV.2.trans hm.ext⟩, hm.ext,
          hm.of_extends hS hV.2 (hS.bound _ hc1) hc2.bound⟩

theorem shared_childOr (hS : S.Inv) (h : S.heap.Shared node1 node2) (k : κ) :
    S.heap.Shared (S.heap.childOr S.emptyNode node1 k) (S.heap.childOr S.emptyNode node2 k) := by
  intro s i j hi hj
  rw [hS.acceptAt_childOr] at hi hj
  exact h (k :: s) i j hi hj

/-- A merge goes through if there is depth enough for the second trie and what the two tries have in
common is held in common objects. -/
theorem merge_total (order : SetOrder κ) {d : ℕ} (hS : S.Inv) (h1 : node1 ∈ S.cache) (h2 : S.heap.IsTrie node2)
    (hd : DepthLE S.heap.child d node2) (hshared : S.heap.Shared node1 node2)
    (hdepth : d + 2 ≤ depth) : ∃ r T, merge order depth node1 node2 S = .ok (r, T) := by
  induction depth generalizing S node1 node2 d with
  | zero => omega
  | succ depth ih =>
    rw [merge]
    by_cases hempty : node2 = S.emptyNode
    · exact ⟨node1, S, if_pos hempty⟩
    · rw [if_neg hempty]
      have hchild : ∀ k ∈ order.toList (S.heap.unionOfChildKeys node1 node2), ∀ V,
          V.Inv ∧ Extends S V → ∃ c W,
            S.mergeChild (merge order depth) node1 node2 k V = .ok (c, W) ∧
              W.Inv ∧ Extends S W := by
        intro k _ V hV
        have hc1 := hS.childOr_mem h1 k
        have hc2 := hS.isTrie_childOr h2 k
        have hsh : V.heap.Shared (S.heap.childOr S.emptyNode node1 k)
            (S.heap.childOr S.emptyNode node2 k) :=
          (hV.2.shared hS.heapClosed (hS.bound _ hc1) hc2.bound).2 (shared_childOr hS hshared k)
        have hok : ∃ c W, merge order depth (S.heap.childOr S.emptyNode node1 k)
            (S.heap.childOr S.emptyNode node2 k) V = .ok (c, W) := by
          cases hc : S.heap.child node2 k with
          | none =>
            -- the second trie ends here, and the call returns at once
            obtain ⟨e, rfl⟩ : ∃ e, depth = e + 1 := ⟨depth - 1, by omega⟩
            have hor : S.heap.childOr S.emptyNode node2 k = V.emptyNode := by
              rw [TrieHeap.childOr, hc, Option.getD_none, hV.2.emptyNode]
            exact ⟨_, V, by rw [merge, if_pos hor]⟩
          | some c2 =>
            cases d with
            | zero => rw [hd k] at hc; cases hc
            | succ d =>
              have hdc : DepthLE V.heap.child d (S.heap.childOr S.emptyNode node2 k) :=
                hS.heapClosed.depthLE_congr (fun _ => hV.2.child_eq) hc2.bound
                  (TrieHeap.depthLE_childOr hS.emptyNode_leaf hd k)
              exact ih hV.1 (hV.2.cache _ hc1) (hV.2.isTrie hS.heapClosed hc2) hdc hsh
                (by omega)
        obtain ⟨c, W, hok⟩ := hok
        have hm := merge_spec hV.1 (hV.2.cache _ hc1) (hV.2.isTrie hS.heapClosed hc2) hok
        exact ⟨c, W, mergeChild_of_ok hok (hm.inv.frozen c hm.mem), hm.inv, hV.2.trans hm.ext⟩
      obtain ⟨children, V, hloop⟩ := KeyedLoop.build_total (e := ∅)
        (I := fun V => V.Inv ∧ Extends S V) hchild ⟨hS, .refl S⟩
      obtain ⟨info, hinfo⟩ := combineAcceptInfo_total fun i j hi hj => hshared [] i j hi hj
      refine ⟨(V.getOrMakeNode children info).1, (V.getOrMakeNode children info).2, ?_⟩
      rw [KeyedLoop.bind_eq_ok]
      exact ⟨(children, V), hloop, KeyedLoop.bind_eq_ok.2 ⟨info, hinfo, rfl⟩⟩

end NodeCache

end SandboxingNaCl
