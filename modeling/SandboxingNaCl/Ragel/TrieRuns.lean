import SandboxingNaCl.Ragel.TrieMerge
import SandboxingNaCl.Ragel.TrieDiff
import SandboxingNaCl.Ragel.TrieDict

/-!
# Runs over tries

The caches that come about while tries are built, merged, written out, read and dropped.
`AcceptInfo` lacks `__ne__`, so `Merge` raises an error for equal information in two objects and
`DiffTries` lists it as a difference.
-/

namespace SandboxingNaCl

open LabelledGraph

variable {κ : Type}

namespace TrieHeap

section Update

variable {h : TrieHeap κ} {n m : ℕ} {node : TrieNode κ}

theorem node_update_of_ne (hne : m ≠ n) : (h.update n node).node m = h.node m := by
  rw [TrieHeap.node, TrieHeap.node, update, List.getD_eq_getElem?_getD, List.getD_eq_getElem?_getD,
    List.getElem?_set_ne hne.symm]

theorem node_update_self (hn : n < h.nodes.length) : (h.update n node).node n = node := by
  rw [TrieHeap.node, update, List.getD_eq_getElem?_getD, List.getElem?_set_self hn,
    Option.getD_some]

theorem length_update : (h.update n node).nodes.length = h.nodes.length := List.length_set

theorem length_alloc : (h.alloc node).nodes.length = h.nodes.length + 1 := List.length_append

theorem node_alloc_of_lt (hm : m < h.nodes.length) : (h.alloc node).node m = h.node m :=
  List.getD_append _ _ _ _ hm

theorem closed_update [DecidableEq κ] (hclosed : Closed h.child h.dom)
    (hnode : ∀ k c, node.children.lookup k = some c → c < h.nodes.length) :
    Closed (h.update n node).child (h.update n node).dom := by
  intro m hm k c hc
  have hm' : m < h.nodes.length := length_update ▸ hm
  have hc' : c < h.nodes.length := by
    by_cases hne : m = n
    · rw [hne] at hc hm'
      rw [child, node_update_self hm'] at hc
      exact hnode k c hc
    · rw [child, node_update_of_ne hne] at hc
      exact hclosed m hm' k c hc
  exact (length_update.symm ▸ hc' : c < (h.update n node).nodes.length)

end Update

variable [DecidableEq κ] {h h' : TrieHeap κ} {info : InfoRef} {n : ℕ} {bytes : List κ}

theorem addToUncompressedTrie_spec (hclosed : Closed h.child h.dom) (hn : n < h.nodes.length)
    (hfrozen : (h.node n).frozen = false) (hadd : addToUncompressedTrie info n bytes h = .ok h') :
    Closed h'.child h'.dom ∧ h.nodes.length ≤ h'.nodes.length ∧
      ∀ m, m < h.nodes.length → (h.node m).frozen = true → h'.node m = h.node m := by
  have hne : ∀ m, (h.node m).frozen = true → m ≠ n := by
    rintro m hm rfl
    rw [hfrozen] at hm
    cases hm
  induction bytes generalizing h n with
  | nil =>
    rw [addToUncompressedTrie] at hadd
    by_cases hsome : (h.acceptInfo n).isSome = true
    · rw [if_pos hsome] at hadd
      cases hadd
    · rw [if_neg hsome] at hadd
      cases hadd
      refine ⟨closed_update hclosed fun k c hc => hclosed n hn k c hc, ?_, ?_⟩
      · exact length_update.ge
      · exact fun m _ hm => node_update_of_ne (hne m hm)
  | cons byte bytes ih =>
    rw [addToUncompressedTrie] at hadd
    cases hc : h.child n byte with
    | some c =>
      simp only [hc] at hadd
      by_cases hf : (h.node c).frozen = true
      · rw [if_pos hf] at hadd
        cases hadd
      · rw [if_neg hf] at hadd
        rw [Bool.not_eq_true] at hf
        refine ih hclosed (hclosed n hn byte c hc) hf hadd ?_
        rintro m hm rfl
        rw [hf] at hm
        cases hm
    | none =>
      simp only [hc] at hadd
      set node : TrieNode κ :=
        { h.node n with children := (h.node n).children.insert byte h.nodes.length } with hnode
      have hlen : ((h.alloc .new).update n node).nodes.length = h.nodes.length + 1 :=
        length_update.trans length_alloc
      have hself : ((h.alloc .new).update n node).node h.nodes.length = .new := by
        rw [node_update_of_ne hn.ne', node_alloc]
      have hclosed' : Closed ((h.alloc .new).update n node).child
          ((h.alloc .new).update n node).dom := by
        apply closed_update
        · exact closed_alloc hclosed fun k c hc => by cases hc
        · intro k c hk
          rw [length_alloc]
          by_cases hkb : k = byte
          · rw [hkb, hnode, Finmap.lookup_insert] at hk
            exact Option.some.inj hk ▸ Nat.lt_succ_self _
          · rw [hnode, Finmap.lookup_insert_of_ne _ hkb] at hk
            exact Nat.lt_succ_of_lt (hclosed n hn k c hk)
      have hold : ∀ m, m < h.nodes.length → (h.node m).frozen = true →
          ((h.alloc .new).update n node).node m = h.node m := by
        intro m hm hf
        rw [node_update_of_ne (hne m hf), node_alloc_of_lt hm]
      obtain ⟨hcl, hle, hkeep⟩ := ih hclosed' (by omega) (by rw [hself]; rfl) hadd (by
        rintro m hm rfl
        rw [hself] at hm
        cases hm)
      refine ⟨hcl, by omega, fun m hm hf => ?_⟩
      rw [hkeep m (by omega) (by rw [hold m hm hf]; exact hf), hold m hm hf]

end TrieHeap

namespace NodeCache

theorem new_inv [DecidableEq κ] {h : TrieHeap κ} (hclosed : Closed h.child h.dom) :
    (NodeCache.new h).Inv := by
  have hnode : (h.alloc ⟨none, true, ∅⟩).node h.nodes.length = ⟨none, true, ∅⟩ := h.node_alloc _
  have hleaf : ∀ k, (h.alloc ⟨none, true, ∅⟩).child h.nodes.length k = none := fun k => by
    rw [TrieHeap.child, hnode]
    exact Finmap.lookup_empty k
  have hmem : ∀ n ∈ (NodeCache.new h).cache, n = h.nodes.length := fun n => List.mem_singleton.1
  refine
    { heapClosed := TrieHeap.closed_alloc hclosed fun k c hc => by cases hc
      bound := fun n hn => ?_
      frozen := fun n hn => ?_
      hashConsed :=
        { closed := fun n hn k c hc => ?_
          empty_mem := List.mem_cons_self
          empty_leaf := hleaf
          empty_label := ?_
          ne_empty := fun n hn k c hc => ?_
          rank_lt := fun n hn k c hc => ?_
          unique := fun a ha b hb _ _ => (hmem a ha).trans (hmem b hb).symm } }
  · rw [hmem n hn]
    exact (List.length_append).symm ▸ Nat.lt_succ_self _
  · rw [hmem n hn]
    exact congrArg TrieNode.frozen hnode
  · rw [hmem n hn] at hc
    cases (hleaf k).symm.trans hc
  · exact congrArg (fun node => node.acceptInfo.map (·.value)) hnode
  · rw [hmem n hn] at hc
    cases (hleaf k).symm.trans hc
  · rw [hmem n hn] at hc
    cases (hleaf k).symm.trans hc

/-- The caches of a run. -/
inductive Reachable [LinearOrder κ] (order : SetOrder κ) : NodeCache κ → Prop
  | new {h : TrieHeap κ} (hclosed : Closed h.child h.dom) : Reachable order (NodeCache.new h)
  | build {S : NodeCache κ} {h : TrieHeap κ} (hS : Reachable order S)
      (hclosed : Closed h.child h.dom) (hlen : S.heap.nodes.length ≤ h.nodes.length)
      (hnode : ∀ n ∈ S.cache, h.node n = S.heap.node n) : Reachable order { S with heap := h }
  | merge {S T : NodeCache κ} {node1 node2 r depth : ℕ} (hS : Reachable order S)
      (h1 : node1 ∈ S.cache) (h2 : S.heap.IsTrie node2)
      (hmerge : S.merge order depth node1 node2 = .ok (r, T)) : Reachable order T
  /-- A trie is read that was written, maybe from another heap. -/
  | load {S T : NodeCache κ} {h : TrieHeap κ} {n r d depth : ℕ} {dict : TrieDict κ}
      (hS : Reachable order S) (hclosed : Closed h.child h.dom) (hn : h.IsTrie n)
      (hd : DepthLE h.child d n) (hdepth : d < depth) (hdict : h.trieToDict depth n = .ok dict)
      (hload : trieFromDict order depth dict S = .ok (r, T)) : Reachable order T
  /-- Nodes that nothing refers to are dropped from the `WeakValueDictionary`. -/
  | collect {S : NodeCache κ} {kept : List ℕ} (hS : Reachable order S)
      (hkept : ∀ n ∈ kept, n ∈ S.cache) (hempty : S.emptyNode ∈ kept)
      (hclosed : ∀ n ∈ kept, ∀ k c, S.heap.child n k = some c → c ∈ kept) :
      Reachable order { S with cache := kept }

variable [LinearOrder κ] {order : SetOrder κ} {S T : NodeCache κ}

theorem Inv.build {h : TrieHeap κ} (hS : S.Inv) (hclosed : Closed h.child h.dom)
    (hlen : S.heap.nodes.length ≤ h.nodes.length) (hnode : ∀ n ∈ S.cache, h.node n = S.heap.node n) :
    Inv { S with heap := h } := by
  have hchild : ∀ n ∈ S.cache, h.child n = S.heap.child n := fun n hn => by
    funext k
    rw [TrieHeap.child, TrieHeap.child, hnode n hn]
  have hvalue : ∀ n ∈ S.cache, h.acceptValue n = S.heap.acceptValue n := fun n hn => by
    rw [TrieHeap.acceptValue, TrieHeap.acceptValue, TrieHeap.acceptInfo, TrieHeap.acceptInfo,
      hnode n hn]
  exact
    { heapClosed := hclosed
      bound := fun n hn => (hS.bound n hn).trans_le hlen
      frozen := fun n hn => (congrArg TrieNode.frozen (hnode n hn)).trans (hS.frozen n hn)
      hashConsed := hS.hashConsed.congr hchild hvalue }

theorem Inv.collect {kept : List ℕ} (hS : S.Inv) (hkept : ∀ n ∈ kept, n ∈ S.cache)
    (hempty : S.emptyNode ∈ kept)
    (hclosed : ∀ n ∈ kept, ∀ k c, S.heap.child n k = some c → c ∈ kept) :
    Inv { S with cache := kept } where
  heapClosed := hS.heapClosed
  bound n hn := hS.bound n (hkept n hn)
  frozen n hn := hS.frozen n (hkept n hn)
  hashConsed := hS.hashConsed.subset hkept hempty hclosed

theorem Reachable.inv (hS : Reachable order S) : S.Inv := by
  induction hS with
  | new hclosed => exact new_inv hclosed
  | build _ hclosed hlen hnode ih => exact ih.build hclosed hlen hnode
  | merge _ h1 h2 hmerge ih => exact (merge_spec ih h1 h2 hmerge).inv
  | load _ hclosed hn hd hdepth hdict hload ih =>
    obtain ⟨dict', r', T', hdict', hload', hT, -⟩ :=
      trieFromDict_trieToDict _ ih hclosed hn hd hdepth
    rw [hdict] at hdict'
    cases hdict'
    rw [hload] at hload'
    cases hload'
    exact hT
  | collect _ hkept hempty hclosed ih => exact ih.collect hkept hempty hclosed

theorem Reachable.add {h : TrieHeap κ} {info : InfoRef} {root : ℕ} {bytes : List κ}
    (hS : Reachable order S) (hroot : root < S.heap.nodes.length)
    (hfrozen : (S.heap.node root).frozen = false)
    (hadd : S.heap.addToUncompressedTrie info root bytes = .ok h) :
    Reachable order { S with heap := h } := by
  have hinv := hS.inv
  obtain ⟨hclosed, hlen, hkeep⟩ :=
    TrieHeap.addToUncompressedTrie_spec hinv.heapClosed hroot hfrozen hadd
  exact .build hS hclosed hlen fun n hn => hkeep n (hinv.bound n hn) (hinv.frozen n hn)

end NodeCache

end SandboxingNaCl
