import SandboxingNaCl.Ragel.TrieCache
import Std.Data.String.ToNat

/-!
# Tries as dictionaries

`TrieToDict` and `TrieFromDict`.  A node is named by the decimal digits of its place among the nodes
of the trie; the nodes made from a dictionary accept what those they are named after accept.
-/

namespace SandboxingNaCl

open LabelledGraph

variable {κ : Type}

/-- What `TrieToDict` returns. -/
structure TrieDict (κ : Type) where
  start : String
  map : Dict String (Dict κ String)
  inputRr : Dict String String
  outputRr : Dict String String

namespace TrieHeap

/-- `str(index)`; no node is twice in the list. -/
def nodeToId (nodeList : List ℕ) (n : ℕ) : String := Nat.repr (nodeList.idxOf n)

/-- The entries of one attribute for the nodes that have an accept info. -/
def infoDict (h : TrieHeap κ) (nodeList : List ℕ) (attr : AcceptInfo → String) : Dict String String :=
  KeyedLoop.dictOf (nodeList.filterMap fun n =>
    (h.acceptInfo n).map fun info => (nodeToId nodeList n, attr info.value))

theorem nodeToId_inj {n m : ℕ} {l : List ℕ} (hn : n ∈ l) (heq : nodeToId l n = nodeToId l m) :
    n = m :=
  (List.idxOf_inj hn).1 (Nat.repr_injective heq)

theorem lookup_infoDict {h : TrieHeap κ} {n : ℕ} {l : List ℕ} (hn : n ∈ l)
    (attr : AcceptInfo → String) :
    (h.infoDict l attr).lookup (nodeToId l n) = (h.acceptValue n).map attr := by
  apply KeyedLoop.lookup_dictOf_eq
  intro b
  rw [List.mem_filterMap, acceptValue, Option.map_map]
  constructor
  · rintro ⟨m, -, hb⟩
    obtain ⟨info, hinfo, he⟩ := Option.map_eq_some_iff.1 hb
    obtain ⟨hid, rfl⟩ := Prod.mk.inj he
    obtain rfl := nodeToId_inj hn hid.symm
    rw [hinfo]
    rfl
  · intro hb
    obtain ⟨info, hinfo, rfl⟩ := Option.map_eq_some_iff.1 hb
    exact ⟨n, hn, by rw [hinfo]; rfl⟩

variable [LinearOrder κ] (h : TrieHeap κ)

/-- `AddNodes` of `GetAllUniqueNodes`; the set has the elements of the list. -/
def addNodes : ℕ → ℕ → List ℕ → Except TrieError (List ℕ)
  | 0, _, _ => .error .recursionDepth
  | depth + 1, n, nodeList =>
    if n ∈ nodeList then .ok nodeList
    else (sortedItems (h.node n).children).foldlM (fun l item => addNodes depth item.2 l)
      (nodeList ++ [n])

def trieToDict (depth root : ℕ) : Except TrieError (TrieDict κ) := do
  let nodeList ← h.addNodes depth root []
  .ok
    { start := nodeToId nodeList root
      map := KeyedLoop.dictOf (nodeList.map fun n => (nodeToId nodeList n,
        KeyedLoop.dictOf ((sortedItems (h.node n).children).map fun item =>
          (item.1, nodeToId nodeList item.2))))
      inputRr := h.infoDict nodeList AcceptInfo.inputRr
      outputRr := h.infoDict nodeList AcceptInfo.outputRr }

end TrieHeap

/-- `id_cache` and the node cache. -/
structure LoadState (κ : Type) where
  ids : Dict String ℕ
  cache : NodeCache κ

namespace LoadState

/-- The accept info of a node is a new object. -/
def makeInfo (S : NodeCache κ) :
    Option String → Option String → Except TrieError (Option InfoRef × NodeCache κ)
  | none, none => .ok (none, S)
  | some inputRr, some outputRr =>
    .ok (some ⟨S.heap.infos, inputRr, outputRr⟩,
      { S with heap := { S.heap with infos := S.heap.infos + 1 } })
  | _, _ => .error .inconsistentRr

theorem makeInfo_spec (S : NodeCache κ) (value : Option AcceptInfo) :
    ∃ info T, makeInfo S (value.map (·.inputRr)) (value.map (·.outputRr)) = .ok (info, T) ∧
      info.map (·.value) = value ∧ T.heap.nodes = S.heap.nodes ∧ T.cache = S.cache ∧
      T.emptyNode = S.emptyNode := by
  cases value with
  | none => exact ⟨none, S, rfl, rfl, rfl, rfl, rfl⟩
  | some v => exact ⟨_, _, rfl, rfl, rfl, rfl, rfl⟩

variable [DecidableEq κ]

/-- `d[key]`. -/
def getItem {α β : Type} [DecidableEq α] (d : Dict α β) (key : α) : Except TrieError β :=
  match d.lookup key with
  | some b => .ok b
  | none => .error .keyError

/-- `MakeNode` of `TrieFromDict`, where the recursion goes no deeper than `depth`. -/
def makeNode (order : SetOrder κ) (dict : TrieDict κ) :
    ℕ → String → LoadState κ → Except TrieError (ℕ × LoadState κ)
  | 0, _, _ => .error .recursionDepth
  | depth + 1, id, X =>
    match X.ids.lookup id with
    | some n => .ok (n, X)
    | none => do
        let edges ← getItem dict.map id
        let makeChild (key : κ) (Y : LoadState κ) : Except TrieError (ℕ × LoadState κ) := do
          let childId ← getItem edges key
          makeNode order dict depth childId Y
        let (children, Y) ← KeyedLoop.build makeChild (order.toList edges.keys) ∅ X
        let (info, S) ← makeInfo Y.cache (dict.inputRr.lookup id) (dict.outputRr.lookup id)
        let (n, S) := S.getOrMakeNode children info
        .ok (n, { ids := Y.ids.insert id n, cache := S })

end LoadState

def trieFromDict [DecidableEq κ] (order : SetOrder κ) (depth : ℕ) (dict : TrieDict κ)
    (S : NodeCache κ) : Except TrieError (ℕ × NodeCache κ) := do
  let (n, X) ← LoadState.makeNode order dict depth dict.start ⟨∅, S⟩
  .ok (n, X.cache)

/-- The dictionary has, under the name of each node of a set, what the heap has of the node. -/
structure TrieDict.Describes [DecidableEq κ] (dict : TrieDict κ) (h : TrieHeap κ)
    (nodes : Set ℕ) (id : ℕ → String) : Prop where
  closed : ∀ n ∈ nodes, ∀ k c, h.child n k = some c → c ∈ nodes
  inj : ∀ n ∈ nodes, ∀ m ∈ nodes, id n = id m → n = m
  edges : ∀ n ∈ nodes, ∃ edges, dict.map.lookup (id n) = some edges ∧
    ∀ k, edges.lookup k = (h.child n k).map id
  inputRr : ∀ n ∈ nodes, dict.inputRr.lookup (id n) = (h.acceptValue n).map (·.inputRr)
  outputRr : ∀ n ∈ nodes, dict.outputRr.lookup (id n) = (h.acceptValue n).map (·.outputRr)

namespace TrieHeap

variable [LinearOrder κ] {h : TrieHeap κ} {n m d depth : ℕ} {l l' l'' : List ℕ}

/-- The nodes of `l` are kept, and the children of a new one are there. -/
structure AddsNodes (h : TrieHeap κ) (l l' : List ℕ) : Prop where
  sub : ∀ m ∈ l, m ∈ l'
  closed : ∀ m ∈ l', m ∈ l ∨ ∀ k c, h.child m k = some c → c ∈ l'

theorem AddsNodes.refl (l : List ℕ) : h.AddsNodes l l := ⟨fun _ hm => hm, fun _ hm => Or.inl hm⟩

theorem AddsNodes.trans (h₁ : h.AddsNodes l l') (h₂ : h.AddsNodes l' l'') : h.AddsNodes l l'' where
  sub m hm := h₂.sub m (h₁.sub m hm)
  closed m hm := by
    rcases h₂.closed m hm with hm' | hm'
    · exact (h₁.closed m hm').imp_right fun hc k c hk => h₂.sub c (hc k c hk)
    · exact Or.inr hm'

theorem foldlM_addNodes {items : List (κ × ℕ)}
    (hitem : ∀ item ∈ items, ∀ l, ∃ l', h.addNodes depth item.2 l = .ok l' ∧ h.AddsNodes l l' ∧
      item.2 ∈ l') (l : List ℕ) :
    ∃ l', items.foldlM (fun l item => h.addNodes depth item.2 l) l = .ok l' ∧ h.AddsNodes l l' ∧
      ∀ item ∈ items, item.2 ∈ l' := by
  induction items generalizing l with
  | nil => exact ⟨l, rfl, .refl l, fun item hitem => by cases hitem⟩
  | cons item items ih =>
    obtain ⟨l₁, hl₁, hadd₁, hmem₁⟩ := hitem item List.mem_cons_self l
    obtain ⟨l₂, hl₂, hadd₂, hmem₂⟩ :=
      ih (fun item' h' => hitem item' (List.mem_cons_of_mem item h')) l₁
    refine ⟨l₂, ?_, hadd₁.trans hadd₂, ?_⟩
    · rw [List.foldlM_cons]
      exact KeyedLoop.bind_eq_ok.2 ⟨l₁, hl₁, hl₂⟩
    · intro item' h'
      rcases List.mem_cons.1 h' with rfl | h'
      · exact hadd₂.sub _ hmem₁
      · exact hmem₂ item' h'

theorem addNodes_spec (hd : DepthLE h.child d n) (hdepth : d < depth) (l : List ℕ) :
    ∃ l', h.addNodes depth n l = .ok l' ∧ h.AddsNodes l l' ∧ n ∈ l' := by
  induction depth generalizing d n l with
  | zero => omega
  | succ depth ih =>
    rw [addNodes]
    by_cases hn : n ∈ l
    · rw [if_pos hn]
      exact ⟨l, rfl, .refl l, hn⟩
    · rw [if_neg hn]
      have hitem : ∀ item ∈ sortedItems (h.node n).children, ∀ l, ∃ l',
          h.addNodes depth item.2 l = .ok l' ∧ h.AddsNodes l l' ∧ item.2 ∈ l' := by
        rintro ⟨k, c⟩ hkc l
        have hc : h.child n k = some c := mem_sortedItems.1 hkc
        cases d with
        | zero => rw [hd k] at hc; cases hc
        | succ d => exact ih (hd k c hc) (by omega) l
      obtain ⟨l', hl', hadd, hmem⟩ := foldlM_addNodes hitem (l ++ [n])
      refine ⟨l', hl', ⟨fun m hm => hadd.sub m (List.mem_append_left _ hm), fun m hm => ?_⟩,
        hadd.sub n (List.mem_append_right _ List.mem_cons_self)⟩
      rcases hadd.closed m hm with hm' | hm'
      · rcases List.mem_append.1 hm' with hm' | hm'
        · exact Or.inl hm'
        · -- the children of the node itself are the items of the loop
          obtain rfl := List.mem_singleton.1 hm'
          exact Or.inr fun k c hc => hmem (k, c) (mem_sortedItems.2 hc)
      · exact Or.inr hm'

theorem lookup_dictOf_sortedItems (children : Dict κ ℕ) (f : ℕ → String) (k : κ) :
    (KeyedLoop.dictOf ((sortedItems children).map fun item => (item.1, f item.2))).lookup k =
      (children.lookup k).map f := by
  apply KeyedLoop.lookup_dictOf_eq
  intro b
  rw [List.mem_map, Option.map_eq_some_iff]
  constructor
  · rintro ⟨⟨k', c⟩, hmem, he⟩
    obtain ⟨rfl, rfl⟩ := Prod.mk.inj he
    exact ⟨c, mem_sortedItems.1 hmem, rfl⟩
  · rintro ⟨c, hc, rfl⟩
    exact ⟨(k, c), mem_sortedItems.2 hc, rfl⟩

theorem trieToDict_spec (hd : DepthLE h.child d n) (hdepth : d < depth) :
    ∃ dict l, h.trieToDict depth n = .ok dict ∧ n ∈ l ∧ dict.start = nodeToId l n ∧
      dict.Describes h {m | m ∈ l} (nodeToId l) := by
  obtain ⟨l, hl, hadd, hn⟩ := addNodes_spec hd hdepth []
  refine ⟨_, l, KeyedLoop.bind_eq_ok.2 ⟨l, hl, rfl⟩, hn, rfl, ?_⟩
  refine
    { closed := fun m hm => (hadd.closed m hm).resolve_left List.not_mem_nil
      inj := fun m hm m' _ heq => nodeToId_inj hm heq
      edges := fun m hm => ⟨_, ?_, lookup_dictOf_sortedItems (h.node m).children (nodeToId l)⟩
      inputRr := fun m hm => lookup_infoDict hm _
      outputRr := fun m hm => lookup_infoDict hm _ }
  apply KeyedLoop.lookup_dictOf
  · exact List.mem_map.2 ⟨m, hm, rfl⟩
  · intro b hb
    obtain ⟨m', -, he⟩ := List.mem_map.1 hb
    obtain ⟨hid, rfl⟩ := Prod.mk.inj he
    obtain rfl := nodeToId_inj hm hid.symm
    rfl

end TrieHeap

namespace LoadState

variable [DecidableEq κ] {dict : TrieDict κ} {h : TrieHeap κ}
  {nodes : Set ℕ} {id : ℕ → String} {X Y : LoadState κ} {n r d depth : ℕ}

/-- The node `r` accepts what the node `n` that is described accepts. -/
structure Loaded (h : TrieHeap κ) (n r : ℕ) (S : NodeCache κ) : Prop where
  mem : r ∈ S.cache
  infoAt : ∀ s, S.heap.infoAt r s = h.infoAt n s

theorem Loaded.of_extends {S T : NodeCache κ} (hr : Loaded h n r S) (hS : S.Inv)
    (hext : NodeCache.Extends S T) : Loaded h n r T where
  mem := hext.cache r hr.mem
  infoAt s := by rw [hext.infoAt_eq hS.heapClosed (hS.bound r hr.mem), hr.infoAt]

/-- The names in `id_cache` are those of nodes that have been made. -/
structure Inv (h : TrieHeap κ) (nodes : Set ℕ) (id : ℕ → String) (X : LoadState κ) : Prop where
  cache : X.cache.Inv
  ids : ∀ n ∈ nodes, ∀ r, X.ids.lookup (id n) = some r → Loaded h n r X.cache

theorem getItem_of_lookup {α β : Type} [DecidableEq α] {e : Dict α β} {key : α} {b : β}
    (he : e.lookup key = some b) : getItem e key = .ok b := by
  rw [getItem, he]

theorem inv_of_nodes_eq {S T : NodeCache κ} (hS : S.Inv) (hn : T.heap.nodes = S.heap.nodes)
    (hc : T.cache = S.cache) (he : T.emptyNode = S.emptyNode) :
    T.Inv ∧ NodeCache.Extends S T := by
  obtain ⟨⟨nodes, infos⟩, cache, emptyNode⟩ := T
  obtain rfl : nodes = S.heap.nodes := hn
  obtain rfl : cache = S.cache := hc
  obtain rfl : emptyNode = S.emptyNode := he
  exact ⟨⟨hS.heapClosed, hS.bound, hS.frozen, hS.hashConsed⟩,
    List.prefix_refl _, fun n hn => hn, rfl⟩

theorem loaded_of_children {S T : NodeCache κ} {children : Dict κ ℕ} {info : Option InfoRef}
    (hn : h.IsTrie n) (hS : S.Inv)
    (hin : ∀ k c, h.child n k = some c → ∃ c', children.lookup k = some c' ∧ Loaded h c c' S)
    (hout : ∀ k, h.child n k = none → children.lookup k = none)
    (hinfo : info.map (·.value) = h.acceptValue n)
    (hmake : S.getOrMakeNode children info = (r, T)) :
    T.Inv ∧ NodeCache.Extends S T ∧ Loaded h n r T := by
  have hchildren : ∀ k c', children.lookup k = some c' → c' ∈ S.cache ∧ c' ≠ S.emptyNode := by
    intro k c' hc'
    cases hk : h.child n k with
    | none => rw [hout k hk] at hc'; cases hc'
    | some c =>
      obtain ⟨c'', hc'', hload⟩ := hin k c hk
      obtain rfl : c'' = c' := Option.some.inj (hc''.symm.trans hc')
      refine ⟨hload.mem, ?_⟩
      obtain ⟨s, hs⟩ := NodeCache.Inv.exists_infoAt_of_child hn (k := k) (by rw [hk]; simp)
      apply hS.ne_emptyNode (s := s)
      rwa [hload.infoAt, TrieHeap.infoAt, ← valueAt_cons_of_child hk]
  obtain ⟨hT, hext, hmem, hval, hch⟩ := NodeCache.getOrMakeNode_spec hS hchildren hmake
  have hchild : ∀ k, T.heap.child r k = children.lookup k := fun k => by rw [TrieHeap.child, hch]
  refine ⟨hT, hext, hmem, fun s => ?_⟩
  cases s with
  | nil => exact hval.trans hinfo
  | cons k s =>
    cases hk : h.child n k with
    | none =>
      have hl : T.heap.infoAt r (k :: s) = none :=
        valueAt_cons_of_none ((hchild k).trans (hout k hk))
      have hr : h.infoAt n (k :: s) = none := valueAt_cons_of_none hk
      rw [hl, hr]
    | some c =>
      obtain ⟨c', hc', hload⟩ := hin k c hk
      have hl : T.heap.infoAt r (k :: s) = T.heap.infoAt c' s :=
        valueAt_cons_of_child ((hchild k).trans hc')
      have hr : h.infoAt n (k :: s) = h.infoAt c s := valueAt_cons_of_child hk
      rw [hl, hr, (hload.of_extends hS hext).infoAt]

variable (hdesc : dict.Describes h nodes id)
include hdesc

theorem Inv.insert {S : NodeCache κ} (hS : S.Inv)
    (hY : ∀ m ∈ nodes, ∀ a, Y.ids.lookup (id m) = some a → Loaded h m a S)
    (hn : n ∈ nodes) (hr : Loaded h n r S) :
    Inv h nodes id ⟨Y.ids.insert (id n) r, S⟩ where
  cache := hS
  ids m hm a ha := by
    by_cases hid : id m = id n
    · obtain rfl := hdesc.inj m hm n hn hid
      rw [Finmap.lookup_insert] at ha
      exact Option.some.inj ha ▸ hr
    · rw [Finmap.lookup_insert_of_ne _ hid] at ha
      exact hY m hm a ha

theorem makeNode_spec (order : SetOrder κ) (htrie : ∀ m ∈ nodes, h.IsTrie m) (hX : X.Inv h nodes id)
    (hn : n ∈ nodes) (hd : DepthLE h.child d n) (hdepth : d < depth) :
    ∃ r Y, makeNode order dict depth (id n) X = .ok (r, Y) ∧ Y.Inv h nodes id ∧
      NodeCache.Extends X.cache Y.cache ∧ Loaded h n r Y.cache := by
  induction depth generalizing d n X with
  | zero => omega
  | succ depth ih =>
    rw [makeNode]
    cases hids : X.ids.lookup (id n) with
    | some r => exact ⟨r, X, rfl, hX, .refl _, hX.ids n hn r hids⟩
    | none =>
      obtain ⟨edges, hedges, hlook⟩ := hdesc.edges n hn
      set makeChild : κ → LoadState κ → Except TrieError (ℕ × LoadState κ) := fun key Y => do
        let childId ← getItem edges key
        makeNode order dict depth childId Y with hmake
      have hstep : ∀ k ∈ order.toList edges.keys, ∀ Y : LoadState κ, Y.Inv h nodes id →
          ∃ r Z, makeChild k Y = .ok (r, Z) ∧ Z.Inv h nodes id ∧
            NodeCache.Extends Y.cache Z.cache ∧
            ∀ c, h.child n k = some c → Loaded h c r Z.cache := by
        intro k hk Y hY
        rw [order.mem_toList, Finmap.mem_keys, Finmap.mem_iff] at hk
        obtain ⟨childId, hchild⟩ := hk
        obtain ⟨c, hc, rfl⟩ := Option.map_eq_some_iff.1 ((hlook k).symm.trans hchild)
        cases d with
        | zero => rw [hd k] at hc; cases hc
        | succ d =>
          obtain ⟨r, Z, hok, hZ, hext, hload⟩ :=
            ih hY (hdesc.closed n hn k c hc) (hd k c hc) (by omega)
          refine ⟨r, Z, ?_, hZ, hext, fun c' hc' => ?_⟩
          · exact KeyedLoop.bind_eq_ok.2 ⟨id c, getItem_of_lookup hchild, hok⟩
          · obtain rfl : c' = c := Option.some.inj (hc'.symm.trans hc)
            exact hload
      obtain ⟨children, Y, hloop, hY, hext, hin, hout⟩ := KeyedLoop.build_run
        (e := ∅) (f := makeChild) (R := fun Y Z => NodeCache.Extends Y.cache Z.cache)
        (fun Y => .refl Y.cache) (fun _ _ _ => NodeCache.Extends.trans)
        (fun k r Y Z hY _ hload hext c hc => (hload c hc).of_extends hY.cache hext) hstep hX
      obtain ⟨info, S, hinfo, hvalue, hheap, hcache, hempty⟩ :=
        makeInfo_spec Y.cache (h.acceptValue n)
      obtain ⟨hS, hYS⟩ := inv_of_nodes_eq hY.cache hheap hcache hempty
      have hkey : ∀ k, k ∈ order.toList edges.keys ↔ (h.child n k).map id ≠ none := fun k => by
        rw [order.mem_toList, Finmap.mem_keys, ← hlook, Ne, Finmap.lookup_eq_none, not_not]
      have hchildren : ∀ k c, h.child n k = some c →
          ∃ c', children.lookup k = some c' ∧ Loaded h c c' S := by
        intro k c hc
        obtain ⟨c', hc', hload⟩ := hin k ((hkey k).2 (by rw [hc]; exact Option.some_ne_none _))
        exact ⟨c', hc', (hload c hc).of_extends hY.cache hYS⟩
      have hnone : ∀ k, h.child n k = none → children.lookup k = none := fun k hc =>
        hout k fun hk => (hkey k).1 hk (by rw [hc]; rfl)
      cases hget : S.getOrMakeNode children info with
      | mk r T =>
        obtain ⟨hT, hST, hr⟩ :=
          loaded_of_children (htrie n hn) hS hchildren hnone hvalue hget
        have hYT := hYS.trans hST
        refine ⟨r, ⟨Y.ids.insert (id n) r, T⟩, ?_, ?_, hext.trans hYT, hr⟩
        · refine KeyedLoop.bind_eq_ok.2 ⟨edges, getItem_of_lookup hedges, ?_⟩
          refine KeyedLoop.bind_eq_ok.2 ⟨(children, Y), hloop, ?_⟩
          refine KeyedLoop.bind_eq_ok.2 ⟨(info, S), ?_, ?_⟩
          · rw [hdesc.inputRr n hn, hdesc.outputRr n hn]
            exact hinfo
          · simp only [hget]
        · exact Inv.insert hdesc hT
            (fun m hm a ha => (hY.ids m hm a ha).of_extends hY.cache hYT) hn hr

end LoadState

section RoundTrip

variable [LinearOrder κ] {h : TrieHeap κ} {S : NodeCache κ} {n d : ℕ}

theorem TrieDict.Describes.tries {dict : TrieDict κ} {nodes : Set ℕ} {id : ℕ → String}
    (hdesc : dict.Describes h nodes id) (hclosed : Closed h.child h.dom) :
    dict.Describes h {m | m ∈ nodes ∧ h.IsTrie m} id where
  closed m hm k c hc := ⟨hdesc.closed m hm.1 k c hc, hm.2.of_child hclosed hc⟩
  inj m hm m' hm' := hdesc.inj m hm.1 m' hm'.1
  edges m hm := hdesc.edges m hm.1
  inputRr m hm := hdesc.inputRr m hm.1
  outputRr m hm := hdesc.outputRr m hm.1

theorem trieFromDict_trieToDict (order : SetOrder κ) (hS : S.Inv) (hclosed : Closed h.child h.dom) (hn : h.IsTrie n)
    (hd : DepthLE h.child d n) {depth : ℕ} (hdepth : d < depth) :
    ∃ dict r T, h.trieToDict depth n = .ok dict ∧
      trieFromDict order depth dict S = .ok (r, T) ∧ T.Inv ∧ NodeCache.Extends S T ∧
      LoadState.Loaded h n r T := by
  obtain ⟨dict, l, hdict, hmem, hstart, hdesc⟩ := TrieHeap.trieToDict_spec hd hdepth
  have hX : LoadState.Inv h {m | m ∈ {m | m ∈ l} ∧ h.IsTrie m} (TrieHeap.nodeToId l) ⟨∅, S⟩ :=
    ⟨hS, fun m _ r hr => by rw [Finmap.lookup_empty] at hr; cases hr⟩
  obtain ⟨r, Y, hok, hY, hext, hload⟩ := LoadState.makeNode_spec
    (hdesc.tries hclosed) order (fun m hm => hm.2) hX ⟨hmem, hn⟩ hd hdepth
  refine ⟨dict, r, Y.cache, hdict, ?_, hY.cache, hext, hload⟩
  rw [trieFromDict, hstart]
  exact KeyedLoop.bind_eq_ok.2 ⟨(r, Y), hok, rfl⟩

end RoundTrip

end SandboxingNaCl
