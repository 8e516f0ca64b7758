import SandboxingNaCl.Ragel.Trie
import Mathlib.Data.List.GetD

/-!
# The cache of trie nodes

The nodes of a cache are frozen and made once for each accept info and children, so that a node is
known by the sequences it accepts.  `Merge` keeps this and gives the union of two tries, or raises an
error where both accept a sequence with two objects.
-/

namespace SandboxingNaCl

open LabelledGraph

variable {κ : Type}

def TrieHeap.dom (h : TrieHeap κ) : Set ℕ := {n | n < h.nodes.length}

theorem TrieHeap.node_alloc (h : TrieHeap κ) (node : TrieNode κ) :
    (h.alloc node).node h.nodes.length = node := by
  rw [TrieHeap.node, TrieHeap.alloc, List.getD_append_right _ _ _ _ le_rfl, Nat.sub_self]
  rfl

theorem TrieHeap.IsTrie.of_child [DecidableEq κ] {h : TrieHeap κ} {n c : ℕ} {k : κ}
    (hn : h.IsTrie n) (hclosed : Closed h.child h.dom) (hc : h.child n k = some c) :
    h.IsTrie c where
  bound := hclosed n hn.bound k c hc
  depth := hn.depth.imp fun d hd => (hd.mono (Nat.le_succ d)).of_child hc
  live := hn.live.of_child hc

theorem TrieHeap.closed_alloc [DecidableEq κ] {h : TrieHeap κ} {node : TrieNode κ} (hclosed : Closed h.child h.dom)
    (hchildren : ∀ k c, node.children.lookup k = some c → c < h.nodes.length) :
    Closed (h.alloc node).child (h.alloc node).dom := by
  have hlen : (h.alloc node).nodes.length = h.nodes.length + 1 := List.length_append
  intro n hn k c hc
  have hc' : c < h.nodes.length := by
    rcases Nat.lt_succ_iff_lt_or_eq.1 (hlen ▸ hn : n < h.nodes.length + 1) with hlt | rfl
    · have hnode : (h.alloc node).node n = h.node n := List.getD_append _ _ _ _ hlt
      rw [TrieHeap.child, hnode] at hc
      exact hclosed n hlt k c hc
    · rw [TrieHeap.child, TrieHeap.node_alloc] at hc
      exact hchildren k c hc
  exact (hlen ▸ Nat.lt_succ_of_lt hc' : c < (h.alloc node).nodes.length)

namespace NodeCache

structure Inv [DecidableEq κ] (S : NodeCache κ) : Prop where
  heapClosed : Closed S.heap.child S.heap.dom
  bound : ∀ n ∈ S.cache, n < S.heap.nodes.length
  frozen : ∀ n ∈ S.cache, (S.heap.node n).frozen = true
  hashConsed : HashConsed S.heap.child S.heap.acceptValue id {n | n ∈ S.cache} S.emptyNode

/-- `T` has the nodes of `S`, unchanged, and maybe more. -/
structure Extends (S T : NodeCache κ) : Prop where
  nodes : S.heap.nodes <+: T.heap.nodes
  cache : ∀ n ∈ S.cache, n ∈ T.cache
  emptyNode : T.emptyNode = S.emptyNode

variable {S T U : NodeCache κ} {n m c r node1 node2 : ℕ} {k : κ} {s : List κ} {d : ℕ}

namespace Extends

theorem refl (S : NodeCache κ) : Extends S S := ⟨List.prefix_refl _, fun _ hn => hn, rfl⟩

theorem trans (h : Extends S T) (h' : Extends T U) : Extends S U where
  nodes := h.nodes.trans h'.nodes
  cache n hn := h'.cache n (h.cache n hn)
  emptyNode := h'.emptyNode.trans h.emptyNode

theorem length_le (h : Extends S T) : S.heap.nodes.length ≤ T.heap.nodes.length :=
  h.nodes.length_le

theorem node_eq (h : Extends S T) (hn : n < S.heap.nodes.length) :
    T.heap.node n = S.heap.node n := by
  obtain ⟨l, hl⟩ := h.nodes
  rw [TrieHeap.node, TrieHeap.node, ← hl, List.getD_append _ _ _ _ hn]

theorem acceptInfo_eq (h : Extends S T) (hn : n ∈ S.heap.dom) :
    T.heap.acceptInfo n = S.heap.acceptInfo n := by
  rw [TrieHeap.acceptInfo, TrieHeap.acceptInfo, h.node_eq hn]

theorem acceptValue_eq (h : Extends S T) (hn : n ∈ S.heap.dom) :
    T.heap.acceptValue n = S.heap.acceptValue n := by
  rw [TrieHeap.acceptValue, TrieHeap.acceptValue, h.acceptInfo_eq hn]

variable [DecidableEq κ]

theorem child_eq (h : Extends S T) (hn : n ∈ S.heap.dom) :
    T.heap.child n = S.heap.child n := by
  funext k
  rw [TrieHeap.child, TrieHeap.child, h.node_eq hn]

variable (hS : Closed S.heap.child S.heap.dom)
include hS

theorem acceptAt_eq (h : Extends S T) (hn : n < S.heap.nodes.length) (s : List κ) :
    T.heap.acceptAt n s = S.heap.acceptAt n s :=
  hS.valueAt_congr (fun _ => h.child_eq) (fun _ => h.acceptInfo_eq) hn s

theorem infoAt_eq (h : Extends S T) (hn : n < S.heap.nodes.length) (s : List κ) :
    T.heap.infoAt n s = S.heap.infoAt n s :=
  hS.valueAt_congr (fun _ => h.child_eq) (fun _ => h.acceptValue_eq) hn s

theorem isTrie (h : Extends S T) (hn : S.heap.IsTrie n) : T.heap.IsTrie n where
  bound := hn.bound.trans_le h.length_le
  depth := hn.depth.imp fun _ hd => hS.depthLE_congr (fun _ => h.child_eq) hn.bound hd
  live := hS.liveBelow_congr (fun _ => h.child_eq) (fun _ => h.acceptInfo_eq) hn.bound hn.live

theorem shared (h : Extends S T) (h1 : node1 < S.heap.nodes.length)
    (h2 : node2 < S.heap.nodes.length) :
    T.heap.Shared node1 node2 ↔ S.heap.Shared node1 node2 := by
  unfold TrieHeap.Shared
  simp only [h.acceptAt_eq hS h1, h.acceptAt_eq hS h2]

end Extends

variable [DecidableEq κ]

namespace Inv

theorem emptyNode_mem (hS : S.Inv) : S.emptyNode ∈ S.cache := hS.hashConsed.empty_mem

theorem emptyNode_leaf (hS : S.Inv) (k : κ) : S.heap.child S.emptyNode k = none :=
  hS.hashConsed.empty_leaf k

theorem acceptInfo_emptyNode (hS : S.Inv) : S.heap.acceptInfo S.emptyNode = none :=
  Option.map_eq_none_iff.1 hS.hashConsed.empty_label

theorem acceptAt_emptyNode (hS : S.Inv) (s : List κ) : S.heap.acceptAt S.emptyNode s = none :=
  valueAt_of_leaf hS.emptyNode_leaf hS.acceptInfo_emptyNode s

theorem infoAt_emptyNode (hS : S.Inv) (s : List κ) : S.heap.infoAt S.emptyNode s = none :=
  valueAt_of_leaf hS.emptyNode_leaf hS.hashConsed.empty_label s

theorem acceptAt_childOr (hS : S.Inv) (n : ℕ) (k : κ) (s : List κ) :
    S.heap.acceptAt (S.heap.childOr S.emptyNode n k) s = S.heap.acceptAt n (k :: s) :=
  TrieHeap.acceptAt_childOr hS.emptyNode_leaf hS.acceptInfo_emptyNode n k s

theorem infoAt_childOr (hS : S.Inv) (n : ℕ) (k : κ) (s : List κ) :
    S.heap.infoAt (S.heap.childOr S.emptyNode n k) s = S.heap.infoAt n (k :: s) := by
  rw [TrieHeap.infoAt_eq, hS.acceptAt_childOr, TrieHeap.infoAt_eq]

theorem child_mem (hS : S.Inv) (hn : n ∈ S.cache) (hc : S.heap.child n k = some c) :
    c ∈ S.cache := hS.hashConsed.closed n hn k c hc

theorem childOr_mem (hS : S.Inv) (hn : n ∈ S.cache) (k : κ) :
    S.heap.childOr S.emptyNode n k ∈ S.cache := by
  cases hk : S.heap.child n k with
  | none => rw [TrieHeap.childOr, hk]; exact hS.emptyNode_mem
  | some c => rw [TrieHeap.childOr, hk]; exact hS.child_mem hn hk

theorem ne_emptyNode (hS : S.Inv) (h : S.heap.infoAt n s ≠ none) : n ≠ S.emptyNode := by
  rintro rfl
  exact h (hS.infoAt_emptyNode s)

theorem live_of_value {h : TrieHeap κ} (hl : LiveBelow h.child h.acceptValue n) :
    LiveBelow h.child h.acceptInfo n :=
  fun k s c hc => (hl k s c hc).imp_left fun hne hnone => hne (Option.map_eq_none_iff.2 hnone)

theorem isTrie (hS : S.Inv) (hn : n ∈ S.cache) : S.heap.IsTrie n where
  bound := hS.bound n hn
  depth := ⟨n, hS.hashConsed.depthLE hn le_rfl⟩
  live := live_of_value (hS.hashConsed.liveBelow hn)

theorem isTrie_childOr (hS : S.Inv) (hn : S.heap.IsTrie n) (k : κ) :
    S.heap.IsTrie (S.heap.childOr S.emptyNode n k) := by
  cases hk : S.heap.child n k with
  | none =>
    rw [TrieHeap.childOr, hk]
    exact hS.isTrie hS.emptyNode_mem
  | some c =>
    rw [TrieHeap.childOr, hk]
    exact hn.of_child hS.heapClosed hk

theorem exists_infoAt_of_child {h : TrieHeap κ} (hn : h.IsTrie n) (hc : h.child n k ≠ none) :
    ∃ s, h.infoAt n (k :: s) ≠ none := by
  obtain ⟨c, hc⟩ := Option.ne_none_iff_exists'.1 hc
  obtain ⟨d, hd⟩ := hn.depth
  have hdc : DepthLE h.child d c := (hd.mono (Nat.le_succ d)).of_child hc
  obtain ⟨s, hs⟩ := (hn.live.of_child hc).exists_valueAt hdc (hn.live.child_live hc)
  refine ⟨s, fun hnone => hs ?_⟩
  rw [TrieHeap.infoAt_eq, Option.map_eq_none_iff] at hnone
  rw [← hnone, TrieHeap.acceptAt, valueAt_cons_of_child hc]

theorem eq_iff (hS : S.Inv) (hn : n ∈ S.cache) (hm : m ∈ S.cache) :
    n = m ↔ ∀ s, S.heap.infoAt n s = S.heap.infoAt m s :=
  hS.hashConsed.eq_iff hn hm

end Inv

section GetOrMakeNode

variable {children : Dict κ ℕ} {info : Option InfoRef}

theorem hasKey_iff : S.hasKey children info n = true ↔
    S.heap.acceptValue n = info.map (·.value) ∧ (S.heap.node n).children = children := by
  rw [hasKey, decide_eq_true_iff]

theorem getOrMakeNode_spec (hS : S.Inv)
    (hchildren : ∀ k c, children.lookup k = some c → c ∈ S.cache ∧ c ≠ S.emptyNode)
    (h : S.getOrMakeNode children info = (n, T)) :
    T.Inv ∧ Extends S T ∧ n ∈ T.cache ∧ T.heap.acceptValue n = info.map (·.value) ∧
      (T.heap.node n).children = children := by
  cases hfind : S.cache.find? (S.hasKey children info) with
  | some m =>
    simp only [getOrMakeNode, hfind] at h
    cases h
    obtain ⟨hval, hch⟩ := hasKey_iff.1 (List.find?_some hfind)
    exact ⟨hS, .refl S, List.mem_of_find?_eq_some hfind, hval, hch⟩
  | none =>
    simp only [getOrMakeNode, hfind] at h
    cases h
    set node : TrieNode κ := ⟨info, true, children⟩ with hnode
    have hext : Extends S
        { S with heap := S.heap.alloc node, cache := S.cache ++ [S.heap.nodes.length] } :=
      ⟨List.prefix_append _ _, fun n hn => List.mem_append_left _ hn, rfl⟩
    have hnew : (S.heap.alloc node).node S.heap.nodes.length = node := TrieHeap.node_alloc _ _
    have hfresh : S.heap.nodes.length ∉ S.cache := fun hmem =>
      absurd (hS.bound _ hmem) (lt_irrefl _)
    refine ⟨?_, hext, List.mem_append_right _ List.mem_cons_self, ?_, ?_⟩
    · refine
        { heapClosed := TrieHeap.closed_alloc hS.heapClosed fun k c hc => hS.bound c (hchildren k c hc).1
          bound := fun n hn => ?_
          frozen := fun n hn => ?_
          hashConsed := ?_ }
      · change n < (S.heap.nodes ++ [node]).length
        rw [List.length_append, List.length_singleton]
        rcases List.mem_append.1 hn with hn | hn
        · exact Nat.lt_succ_of_lt (hS.bound n hn)
        · rw [List.mem_singleton.1 hn]
          exact Nat.lt_succ_self _
      · rcases List.mem_append.1 hn with hn | hn
        · rw [hext.node_eq (hS.bound n hn)]
          exact hS.frozen n hn
        · rw [List.mem_singleton.1 hn]
          exact congrArg TrieNode.frozen hnew
      · have hset : {n | n ∈ S.cache ++ [S.heap.nodes.length]} =
            insert S.heap.nodes.length {n | n ∈ S.cache} := by
          ext n
          simp only [List.mem_append, List.mem_singleton, Set.mem_ofPred_eq, Set.mem_insert_iff]
          exact or_comm
        have hchild : ∀ k, (S.heap.alloc node).child S.heap.nodes.length k =
            children.lookup k := fun k => by rw [TrieHeap.child, hnew]
        change HashConsed (S.heap.alloc node).child (S.heap.alloc node).acceptValue id
          {n | n ∈ S.cache ++ [S.heap.nodes.length]} S.emptyNode
        rw [hset]
        apply hS.hashConsed.insert hfresh
        · exact fun m hm => hext.child_eq (hS.bound m hm)
        · exact fun m hm => hext.acceptValue_eq (hS.bound m hm)
        · exact fun k c hc => (hchildren k c (hchild k ▸ hc)).1
        · exact fun k c hc => (hchildren k c (hchild k ▸ hc)).2
        · exact fun k c hc => hS.bound c (hchildren k c (hchild k ▸ hc)).1
        · -- a node with this key would have been found
          intro m hm hval hch
          apply List.find?_eq_none.1 hfind m hm
          rw [hasKey_iff]
          constructor
          · rw [← hval, TrieHeap.acceptValue, TrieHeap.acceptInfo, hnew]
          · exact Finmap.ext_lookup fun k => by
              rw [← hchild k, hch]; rfl
    · change ((S.heap.alloc node).node S.heap.nodes.length).acceptInfo.map _ = _
      rw [hnew]
    · change ((S.heap.alloc node).node S.heap.nodes.length).children = _
      rw [hnew]

end GetOrMakeNode

end NodeCache

end SandboxingNaCl
