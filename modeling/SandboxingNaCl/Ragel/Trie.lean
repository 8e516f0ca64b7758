import SandboxingNaCl.Lib.LabelledGraph
import SandboxingNaCl.Lib.KeyedLoop
import Mathlib.Data.Finset.Sort

/-!
# Tries of accepted byte sequences

`trie.py` of the validator.  A `Node` object is its place on the heap, so that Python's comparison of
two nodes is the comparison of two numbers.  `AcceptInfo` has `__eq__` and `__hash__` but no `__ne__`:
`==` and the keys of a dictionary compare the values, `!=` compares the objects.
-/

namespace SandboxingNaCl

structure AcceptInfo where
  inputRr : String
  outputRr : String
deriving DecidableEq

/-- An `AcceptInfo` object. -/
structure InfoRef where
  serial : ℕ
  value : AcceptInfo
deriving DecidableEq

inductive TrieError where
  | inconsistentInfo
  | addedTwice
  | notFrozen
  | frozen
  | deadEnd
  | inconsistentRr
  | keyError
  | recursionDepth
deriving DecidableEq

abbrev Dict (κ β : Type) := Finmap fun _ : κ => β

structure TrieNode (κ : Type) where
  acceptInfo : Option InfoRef
  frozen : Bool
  children : Dict κ ℕ
deriving DecidableEq

/-- The nodes made so far, and how many `AcceptInfo` objects there are. -/
structure TrieHeap (κ : Type) where
  nodes : List (TrieNode κ)
  infos : ℕ
deriving DecidableEq

/-- In which order Python goes through a set or the keys of a dictionary. -/
structure SetOrder (κ : Type) where
  toList : Finset κ → List κ
  nodup : ∀ s, (toList s).Nodup
  mem_toList : ∀ s k, k ∈ toList s ↔ k ∈ s

variable {κ : Type}

/-- `Node()`. -/
def TrieNode.new : TrieNode κ := ⟨none, false, ∅⟩

def combineAcceptInfo : Option InfoRef → Option InfoRef → Except TrieError (Option InfoRef)
  | none, info2 => .ok info2
  | some info1, none => .ok (some info1)
  | some info1, some info2 =>
    if info1 ≠ info2 then .error .inconsistentInfo else .ok (some info2)

namespace TrieHeap

variable [DecidableEq κ] (h : TrieHeap κ)

def node (n : ℕ) : TrieNode κ := h.nodes.getD n .new

def child (n : ℕ) (k : κ) : Option ℕ := (h.node n).children.lookup k

def acceptInfo (n : ℕ) : Option InfoRef := (h.node n).acceptInfo

/-- What `==` compares. -/
def acceptValue (n : ℕ) : Option AcceptInfo := (h.acceptInfo n).map (·.value)

def alloc (node : TrieNode κ) : TrieHeap κ := { h with nodes := h.nodes ++ [node] }

def update (n : ℕ) (node : TrieNode κ) : TrieHeap κ := { h with nodes := h.nodes.set n node }

/-- The loop and the rest of `AddToUncompressedTrie`. -/
def addToUncompressedTrie (info : InfoRef) : ℕ → List κ → TrieHeap κ → Except TrieError (TrieHeap κ)
  | n, [], h =>
    if (h.acceptInfo n).isSome then .error .addedTwice
    else .ok (h.update n { h.node n with acceptInfo := some info })
  | n, byte :: bytes, h =>
    match h.child n byte with
    | some c =>
      if (h.node c).frozen then .error .frozen else addToUncompressedTrie info c bytes h
    | none =>
      let c := h.nodes.length
      let node := { h.node n with children := (h.node n).children.insert byte c }
      addToUncompressedTrie info c bytes ((h.alloc .new).update n node)

/-- `GetUnionOfChildKeys`. -/
def unionOfChildKeys (n1 n2 : ℕ) : Finset κ :=
  (h.node n1).children.keys ∪ (h.node n2).children.keys

/-- `children.get(key, empty_node)`. -/
def childOr (emptyNode n : ℕ) (k : κ) : ℕ := (h.child n k).getD emptyNode

end TrieHeap

/-- `sorted(children.iteritems())`. -/
def sortedItems [LinearOrder κ] {β : Type} (children : Dict κ β) : List (κ × β) :=
  (children.keys.sort (· ≤ ·)).filterMap fun k => (children.lookup k).map (k, ·)

theorem mem_sortedItems [LinearOrder κ] {β : Type} {children : Dict κ β} {k : κ} {b : β} :
    (k, b) ∈ sortedItems children ↔ children.lookup k = some b := by
  rw [sortedItems, List.mem_filterMap]
  constructor
  · rintro ⟨a, -, ha⟩
    obtain ⟨b', hb', he⟩ := Option.map_eq_some_iff.1 ha
    cases he
    exact hb'
  · intro hb
    refine ⟨k, ?_, by rw [hb]; rfl⟩
    rw [Finset.mem_sort, Finmap.mem_keys]
    exact Finmap.mem_of_lookup_eq_some hb

structure NodeCache (κ : Type) where
  heap : TrieHeap κ
  cache : List ℕ
  emptyNode : ℕ
deriving DecidableEq

namespace NodeCache

variable [DecidableEq κ] (order : SetOrder κ) (S : NodeCache κ)

/-- The key of a node in `_cache` is that of its accept info and its children: it is frozen. -/
def hasKey (children : Dict κ ℕ) (info : Option InfoRef) (n : ℕ) : Bool :=
  S.heap.acceptValue n = info.map (·.value) ∧ (S.heap.node n).children = children

def getOrMakeNode (children : Dict κ ℕ) (info : Option InfoRef) : ℕ × NodeCache κ :=
  match S.cache.find? (S.hasKey children info) with
  | some n => (n, S)
  | none =>
    (S.heap.nodes.length,
      { S with
        heap := S.heap.alloc ⟨info, true, children⟩
        cache := S.cache ++ [S.heap.nodes.length] })

/-- `NodeCache()`. -/
def new (h : TrieHeap κ) : NodeCache κ where
  heap := h.alloc ⟨none, true, ∅⟩
  cache := [h.nodes.length]
  emptyNode := h.nodes.length

/-- The body of the loop of `Merge`, where `merge` is the recursive call. -/
def mergeChild (merge : ℕ → ℕ → NodeCache κ → Except TrieError (ℕ × NodeCache κ)) (node1 node2 : ℕ)
    (key : κ) (T : NodeCache κ) : Except TrieError (ℕ × NodeCache κ) := do
  let c1 := S.heap.childOr S.emptyNode node1 key
  let c2 := S.heap.childOr S.emptyNode node2 key
  let (c, T) ← merge c1 c2 T
  if (T.heap.node c).frozen then .ok (c, T) else .error .notFrozen

/-- `Merge`, where the recursion goes no deeper than `depth`. -/
def merge : ℕ → ℕ → ℕ → NodeCache κ → Except TrieError (ℕ × NodeCache κ)
  | 0, _, _, _ => .error .recursionDepth
  | depth + 1, node1, node2, S =>
    if node2 = S.emptyNode then .ok (node1, S)
    else do
      let keys := order.toList (S.heap.unionOfChildKeys node1 node2)
      let (children, T) ← KeyedLoop.build (S.mergeChild (merge depth) node1 node2) keys ∅ S
      let info ← combineAcceptInfo (S.heap.acceptInfo node1) (S.heap.acceptInfo node2)
      .ok (T.getOrMakeNode children info)

end NodeCache

namespace TrieHeap

open LabelledGraph

variable [DecidableEq κ] (h : TrieHeap κ)

def acceptAt (n : ℕ) (s : List κ) : Option InfoRef := valueAt h.child h.acceptInfo n s

def infoAt (n : ℕ) (s : List κ) : Option AcceptInfo := valueAt h.child h.acceptValue n s

/-- The trie has a finite depth and no dead end below its root. -/
structure IsTrie (n : ℕ) : Prop where
  bound : n < h.nodes.length
  depth : ∃ d, DepthLE h.child d n
  live : LiveBelow h.child h.acceptInfo n

/-- Two tries accept a sequence with equal information or one of them does not accept it. -/
def EqualInfo (n1 n2 : ℕ) : Prop :=
  ∀ s i j, h.acceptAt n1 s = some i → h.acceptAt n2 s = some j → i.value = j.value

/-- A sequence that two tries accept is accepted with one object. -/
def Shared (n1 n2 : ℕ) : Prop :=
  ∀ s i j, h.acceptAt n1 s = some i → h.acceptAt n2 s = some j → i = j

/-- Equal information that two tries accept a sequence with is one object. -/
def SameObjects (n1 n2 : ℕ) : Prop :=
  ∀ s i j, h.acceptAt n1 s = some i → h.acceptAt n2 s = some j → i.value = j.value → i = j

variable {h} {n n1 n2 c : ℕ} {k : κ} {s : List κ} {emptyNode : ℕ}

theorem infoAt_eq (n : ℕ) (s : List κ) : h.infoAt n s = (h.acceptAt n s).map (·.value) := by
  unfold infoAt acceptAt valueAt acceptValue
  cases follow h.child n s with
  | none => rfl
  | some c => rfl

theorem shared_iff (heq : h.EqualInfo n1 n2) : h.Shared n1 n2 ↔ h.SameObjects n1 n2 :=
  ⟨fun hs s i j hi hj _ => hs s i j hi hj, fun hs s i j hi hj => hs s i j hi hj (heq s i j hi hj)⟩

theorem acceptAt_nil : h.acceptAt n [] = h.acceptInfo n := rfl

theorem infoAt_nil : h.infoAt n [] = h.acceptValue n := rfl

theorem acceptAt_childOr (hleaf : ∀ k, h.child emptyNode k = none)
    (hinfo : h.acceptInfo emptyNode = none) (n : ℕ) (k : κ) (s : List κ) :
    h.acceptAt (h.childOr emptyNode n k) s = h.acceptAt n (k :: s) := by
  cases hk : h.child n k with
  | none =>
    rw [childOr, hk, Option.getD_none, acceptAt, acceptAt, valueAt_cons_of_none hk]
    exact valueAt_of_leaf hleaf hinfo s
  | some c => rw [childOr, hk, Option.getD_some, acceptAt, acceptAt, valueAt_cons_of_child hk]

theorem depthLE_childOr {d : ℕ} (hleaf : ∀ k, h.child emptyNode k = none)
    (hd : DepthLE h.child (d + 1) n) (k : κ) : DepthLE h.child d (h.childOr emptyNode n k) := by
  cases hk : h.child n k with
  | none => rw [childOr, hk]; exact .of_leaf hleaf
  | some c => rw [childOr, hk]; exact hd.of_child hk

theorem mem_unionOfChildKeys :
    k ∈ h.unionOfChildKeys n1 n2 ↔ h.child n1 k ≠ none ∨ h.child n2 k ≠ none := by
  rw [unionOfChildKeys, Finset.mem_union, Finmap.mem_keys, Finmap.mem_keys, child, child,
    Ne, Ne, Finmap.lookup_eq_none, Finmap.lookup_eq_none, not_not, not_not]

end TrieHeap

end SandboxingNaCl
