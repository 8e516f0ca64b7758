import SandboxingNaCl.Ragel.TrieRuns
import Mathlib.Tactic.IntervalCases

/-!
# Equal information in two objects

In the caches of a run, merging, comparing and reading back tries do what they are for iff equal
information that the two merged, or the two compared, tries have in common is one object.
-/

namespace SandboxingNaCl

open LabelledGraph

namespace NodeCache

variable {κ : Type} [LinearOrder κ]

/-- A merge gives the union as a frozen trie, and the nodes of the cache are known by what they
accept. -/
def MergeRight (order : SetOrder κ) (S : NodeCache κ) (node1 node2 : ℕ) : Prop :=
  ∃ d, ∀ depth, d ≤ depth → ∃ r T, S.merge order depth node1 node2 = .ok (r, T) ∧
    (∀ s, T.heap.infoAt r s = (S.heap.infoAt node1 s).or (S.heap.infoAt node2 s)) ∧
    (∀ s n, follow T.heap.child r s = some n → (T.heap.node n).frozen = true) ∧
    ∀ a ∈ T.cache, ∀ b ∈ T.cache, a = b ↔ ∀ s, T.heap.infoAt a s = T.heap.infoAt b s

/-- `DiffTries` yields nothing for tries that accept the same, and else each difference once. -/
def DiffRight (S : NodeCache κ) (node1 node2 : ℕ) : Prop :=
  ∃ d, ∀ depth, d ≤ depth → ∃ l, S.heap.diffTries S.emptyNode depth node1 node2 [] = .ok l ∧
    (l = [] ↔ ∀ s, S.heap.infoAt node1 s = S.heap.infoAt node2 s) ∧
    (∀ x, x ∈ l ↔ S.heap.infoAt node1 x.context ≠ S.heap.infoAt node2 x.context ∧
      x = S.heap.diffAt node1 node2 [] x.context) ∧
    (l.map (·.context)).Nodup

/-- A trie that is written and read accepts the same, and is the same node if it is in the cache. -/
def RoundTripRight (order : SetOrder κ) (S : NodeCache κ) (t : ℕ) : Prop :=
  ∃ d, ∀ depth, d ≤ depth → ∃ dict r T, S.heap.trieToDict depth t = .ok dict ∧
    trieFromDict order depth dict S = .ok (r, T) ∧
    (∀ s, T.heap.infoAt r s = S.heap.infoAt t s) ∧ (t ∈ S.cache → r = t)

variable {order : SetOrder κ} {S : NodeCache κ} {node1 node2 t : ℕ}

theorem mergeRight_iff (hS : S.Inv) (h1 : node1 ∈ S.cache) (h2 : S.heap.IsTrie node2) :
    MergeRight order S node1 node2 ↔ S.heap.Shared node1 node2 := by
  constructor
  · rintro ⟨d, hd⟩
    obtain ⟨r, T, hmerge, -⟩ := hd d le_rfl
    exact (merge_spec hS h1 h2 hmerge).shared
  · intro hshared
    obtain ⟨d, hd⟩ := h2.depth
    refine ⟨d + 2, fun depth hdepth => ?_⟩
    obtain ⟨r, T, hmerge⟩ := merge_total order hS h1 h2 hd hshared hdepth
    have hm := merge_spec hS h1 h2 hmerge
    refine ⟨r, T, hmerge, hm.infoAt, fun s n hn => ?_, fun a ha b hb => hm.inv.eq_iff ha hb⟩
    exact hm.inv.frozen n (hm.inv.hashConsed.closed.follow_mem hm.mem hn)

theorem acceptAt_eq_iff {h : TrieHeap κ} (hsame : h.SameObjects node1 node2) (s : List κ) :
    h.acceptAt node1 s = h.acceptAt node2 s ↔ h.infoAt node1 s = h.infoAt node2 s := by
  rw [TrieHeap.infoAt_eq, TrieHeap.infoAt_eq]
  constructor
  · intro heq
    rw [heq]
  · intro heq
    cases hi : h.acceptAt node1 s with
    | none =>
      rw [hi, Option.map_none, eq_comm, Option.map_eq_none_iff] at heq
      exact heq.symm
    | some i =>
      rw [hi, Option.map_some, eq_comm, Option.map_eq_some_iff] at heq
      obtain ⟨j, hj, hval⟩ := heq
      rw [hj, hsame s i j hi hj hval.symm]

theorem diffRight_iff (hS : S.Inv) (h1 : S.heap.IsTrie node1) (h2 : S.heap.IsTrie node2) :
    DiffRight S node1 node2 ↔ S.heap.SameObjects node1 node2 := by
  obtain ⟨d1, hd1⟩ := h1.depth
  obtain ⟨d2, hd2⟩ := h2.depth
  have hspec : ∀ depth, max d1 d2 < depth → ∃ l,
      S.heap.diffTries S.emptyNode depth node1 node2 [] = .ok l ∧
        S.heap.ListsDiffs node1 node2 [] l := fun depth hdepth =>
    TrieHeap.diffTries_spec hS.emptyNode_leaf hS.acceptInfo_emptyNode
      (hd1.mono (le_max_left d1 d2)) (hd2.mono (le_max_right d1 d2)) hdepth []
  constructor
  · rintro ⟨d, hd⟩ s i j hi hj hval
    by_contra hne
    obtain ⟨l, hl, hlists⟩ := hspec (max d (max d1 d2 + 1)) (by omega)
    obtain ⟨l', hl', -, hmem, -⟩ := hd (max d (max d1 d2 + 1)) (le_max_left _ _)
    obtain rfl : l = l' := Except.ok.inj (hl.symm.trans hl')
    -- the sequence is listed although the information is equal
    have hin : S.heap.diffAt node1 node2 [] s ∈ l := by
      rw [hlists.mem_iff]
      refine ⟨s, ?_, rfl⟩
      rw [hi, hj]
      exact fun heq => hne (Option.some.inj heq)
    apply ((hmem _).1 hin).1
    change S.heap.infoAt node1 s = S.heap.infoAt node2 s
    rw [TrieHeap.infoAt_eq, TrieHeap.infoAt_eq, hi, hj, Option.map_some, Option.map_some, hval]
  · intro hsame
    refine ⟨max d1 d2 + 1, fun depth hdepth => ?_⟩
    obtain ⟨l, hl, hlists⟩ := hspec depth (by omega)
    have hmem : ∀ x, x ∈ l ↔ S.heap.infoAt node1 x.context ≠ S.heap.infoAt node2 x.context ∧
        x = S.heap.diffAt node1 node2 [] x.context := by
      intro x
      rw [hlists.mem_iff]
      constructor
      · rintro ⟨s, hne, rfl⟩
        exact ⟨mt (acceptAt_eq_iff hsame s).2 hne, rfl⟩
      · rintro ⟨hne, hx⟩
        exact ⟨x.context, mt (acceptAt_eq_iff hsame x.context).1 hne, hx⟩
    refine ⟨l, hl, ?_, hmem, hlists.nodup⟩
    rw [List.eq_nil_iff_forall_not_mem]
    constructor
    · intro hnil s
      by_contra hne
      exact hnil (S.heap.diffAt node1 node2 [] s) ((hmem _).2 ⟨hne, rfl⟩)
    · intro heq x hx
      exact ((hmem x).1 hx).1 (heq x.context)

theorem roundTripRight (hS : S.Inv) (ht : S.heap.IsTrie t) : RoundTripRight order S t := by
  obtain ⟨d, hd⟩ := ht.depth
  refine ⟨d + 1, fun depth hdepth => ?_⟩
  obtain ⟨dict, r, T, hdict, hload, hT, hext, hr⟩ :=
    trieFromDict_trieToDict order hS hS.heapClosed ht hd hdepth
  refine ⟨dict, r, T, hdict, hload, hr.infoAt, fun hmem => ?_⟩
  rw [hT.eq_iff hr.mem (hext.cache t hmem)]
  intro s
  rw [hr.infoAt, hext.infoAt_eq hS.heapClosed ht.bound]

/-- Merging, comparing and reading back are right iff no equal information is in two objects. -/
theorem tries_right_iff {m1 m2 : ℕ} (hS : Reachable order S) (h1 : node1 ∈ S.cache)
    (h2 : S.heap.IsTrie node2) (heq : S.heap.EqualInfo node1 node2) (hm1 : m1 ∈ S.cache)
    (hm2 : m2 ∈ S.cache) (ht : S.heap.IsTrie t) :
    (MergeRight order S node1 node2 ∧ DiffRight S m1 m2 ∧ RoundTripRight order S t) ↔
      S.heap.SameObjects node1 node2 ∧ S.heap.SameObjects m1 m2 := by
  have hinv := hS.inv
  rw [mergeRight_iff hinv h1 h2, TrieHeap.shared_iff heq,
    diffRight_iff hinv (hinv.isTrie hm1) (hinv.isTrie hm2),
    and_iff_left (roundTripRight hinv ht : RoundTripRight order S t)]

end NodeCache

/-- A trie that accepts one sequence of one byte. -/
structure TrieHeap.OneByte {κ : Type} [DecidableEq κ] (h : TrieHeap κ) (n c : ℕ) (byte : κ)
    (info : InfoRef) : Prop where
  bound : n < h.nodes.length
  root : h.acceptInfo n = none
  edge : h.child n byte = some c
  other : ∀ k, k ≠ byte → h.child n k = none
  leaf : ∀ k, h.child c k = none
  info : h.acceptInfo c = some info

namespace TrieHeap.OneByte

variable {κ : Type} [DecidableEq κ] {h : TrieHeap κ} {n c : ℕ} {byte : κ} {info i : InfoRef}
  {s : List κ}

theorem acceptAt_eq_some (hb : h.OneByte n c byte info) (hs : h.acceptAt n s = some i) :
    s = [byte] ∧ i = info := by
  cases s with
  | nil =>
    rw [TrieHeap.acceptAt_nil, hb.root] at hs
    cases hs
  | cons k s =>
    by_cases hk : k = byte
    · subst hk
      rw [TrieHeap.acceptAt, valueAt_cons_of_child hb.edge] at hs
      cases s with
      | nil =>
        rw [valueAt_nil, hb.info] at hs
        exact ⟨rfl, (Option.some.inj hs).symm⟩
      | cons k' s =>
        rw [valueAt_cons_of_none (hb.leaf k')] at hs
        cases hs
    · rw [TrieHeap.acceptAt, valueAt_cons_of_none (hb.other k hk)] at hs
      cases hs

theorem acceptAt_self (hb : h.OneByte n c byte info) : h.acceptAt n [byte] = some info := by
  rw [TrieHeap.acceptAt, valueAt_cons_of_child hb.edge, valueAt_nil, hb.info]

theorem isTrie (hb : h.OneByte n c byte info) : h.IsTrie n where
  bound := hb.bound
  depth := by
    refine ⟨1, fun k m hm k' => ?_⟩
    by_cases hk : k = byte
    · rw [hk, hb.edge] at hm
      exact Option.some.inj hm ▸ hb.leaf k'
    · rw [hb.other k hk] at hm
      cases hm
  live := by
    intro k s m hm
    by_cases hk : k = byte
    · rw [hk, follow_cons_of_child hb.edge] at hm
      cases s with
      | nil =>
        cases hm
        left
        rw [hb.info]
        exact Option.some_ne_none _
      | cons k' s =>
        simp only [follow, hb.leaf k', Option.bind_none] at hm
        cases hm
    · simp only [follow, hb.other k hk, Option.bind_none] at hm
      cases hm

end TrieHeap.OneByte

def SetOrder.sorted : SetOrder ℕ where
  toList s := s.sort (· ≤ ·)
  nodup s := s.sort_nodup _
  mem_toList _ _ := Finset.mem_sort _

/-! Two tries that accept the byte 0 with equal information, the first of them compressed. -/

namespace TwoTries

open NodeCache

def info (serial : ℕ) : InfoRef := ⟨serial, "%eax", "%edx"⟩

def edge (n : ℕ) : Dict ℕ ℕ := (∅ : Dict ℕ ℕ).insert 0 n

def leaf (serial : ℕ) (frozen : Bool) : TrieNode ℕ := ⟨some (info serial), frozen, ∅⟩

/-- Two calls of `Node()` and two of `AcceptInfo()`. -/
def start : TrieHeap ℕ := ⟨[.new, .new], 2⟩

def firstBuilt : TrieHeap ℕ := ⟨[⟨none, false, edge 3⟩, .new, ⟨none, true, ∅⟩, leaf 0 false], 2⟩

def built : TrieHeap ℕ where
  nodes := [⟨none, false, edge 3⟩, ⟨none, false, edge 4⟩, ⟨none, true, ∅⟩, leaf 0 false,
    leaf 1 false]
  infos := 2

def compressed : NodeCache ℕ where
  heap := ⟨built.nodes ++ [leaf 0 true, ⟨none, true, edge 5⟩], 2⟩
  cache := [2, 5, 6]
  emptyNode := 2

theorem lookup_edge {n k : ℕ} (hk : k ≠ 0) : (edge n).lookup k = none :=
  (Finmap.lookup_insert_of_ne ∅ hk).trans (Finmap.lookup_empty k)

theorem closed_start : Closed start.child start.dom := by
  intro n hn k c hc
  have hn' : n < 2 := hn
  interval_cases n
  · cases (Finmap.lookup_empty k).symm.trans hc
  · cases (Finmap.lookup_empty k).symm.trans hc

theorem oneByte_built : built.OneByte 0 3 0 (info 0) where
  bound := by decide
  root := rfl
  edge := rfl
  other _ hk := lookup_edge hk
  leaf := Finmap.lookup_empty
  info := rfl

theorem oneByte_first : compressed.heap.OneByte 0 3 0 (info 0) where
  bound := by decide
  root := rfl
  edge := rfl
  other _ hk := lookup_edge hk
  leaf := Finmap.lookup_empty
  info := rfl

theorem oneByte_second : compressed.heap.OneByte 1 4 0 (info 1) where
  bound := by decide
  root := rfl
  edge := rfl
  other _ hk := lookup_edge hk
  leaf := Finmap.lookup_empty
  info := rfl

theorem oneByte_merged : compressed.heap.OneByte 6 5 0 (info 0) where
  bound := by decide
  root := rfl
  edge := rfl
  other _ hk := lookup_edge hk
  leaf := Finmap.lookup_empty
  info := rfl

theorem reachable_compressed : Reachable .sorted compressed := by
  have hnew : Reachable .sorted (NodeCache.new start) := .new closed_start
  have hfirst : Reachable .sorted ⟨firstBuilt, [2], 2⟩ :=
    @Reachable.add _ _ _ _ firstBuilt (info 0) 0 [0] hnew (by decide) rfl (by decide +kernel)
  have hbuilt : Reachable .sorted ⟨built, [2], 2⟩ :=
    @Reachable.add _ _ _ _ built (info 1) 1 [0] hfirst (by decide) rfl (by decide +kernel)
  have hmerge : NodeCache.merge .sorted 3 2 0 ⟨built, [2], 2⟩ = .ok (6, compressed) := by
    decide +kernel
  exact .merge hbuilt (by decide) oneByte_built.isTrie hmerge

end TwoTries

open TwoTries in
/-- A trie merged with itself, compared with the empty one and read back. -/
theorem tries_right_again : NodeCache.MergeRight .sorted compressed 6 0 ∧
    NodeCache.DiffRight compressed 6 2 ∧ NodeCache.RoundTripRight .sorted compressed 0 := by
  have hsame : ∀ s i j, compressed.heap.acceptAt 6 s = some i →
      compressed.heap.acceptAt 0 s = some j → i = j := fun s i j hi hj =>
    (oneByte_merged.acceptAt_eq_some hi).2.trans (oneByte_first.acceptAt_eq_some hj).2.symm
  refine (NodeCache.tries_right_iff reachable_compressed (by decide) oneByte_first.isTrie
    (fun s i j hi hj => congrArg InfoRef.value (hsame s i j hi hj)) (by decide) (by decide)
    oneByte_first.isTrie).2 ⟨fun s i j hi hj _ => hsame s i j hi hj, fun s i j _ hj _ => ?_⟩
  have hnone : compressed.heap.acceptAt 2 s = none :=
    valueAt_of_leaf Finmap.lookup_empty rfl s
  rw [hnone] at hj
  cases hj

open TwoTries in
/-- The second trie has its information in another object: its merge raises an error. -/
theorem not_mergeRight_other_object : NodeCache.Reachable .sorted compressed ∧
    6 ∈ compressed.cache ∧ compressed.heap.IsTrie 1 ∧ compressed.heap.EqualInfo 6 1 ∧
      ¬ NodeCache.MergeRight .sorted compressed 6 1 := by
  refine ⟨reachable_compressed, by decide, oneByte_second.isTrie, fun s i j hi hj => ?_, ?_⟩
  · rw [(oneByte_merged.acceptAt_eq_some hi).2, (oneByte_second.acceptAt_eq_some hj).2]
    rfl
  · rw [NodeCache.mergeRight_iff reachable_compressed.inv (by decide) oneByte_second.isTrie]
    intro hshared
    have heq : info 0 = info 1 :=
      hshared [0] _ _ oneByte_merged.acceptAt_self oneByte_second.acceptAt_self
    exact absurd heq (by decide)

end SandboxingNaCl
