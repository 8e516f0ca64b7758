import SandboxingNaCl.Ragel.TrieCache

/-!
# Accepted sequences and differences of tries

`GetAllAcceptSequences` and `DiffTries`.  A difference is left out where the two nodes are the same
object, and one is listed wherever the two tries do not accept with the same object.
-/

namespace SandboxingNaCl

open LabelledGraph

/-- What `DiffTries` yields. -/
structure TrieDiff (κ : Type) where
  context : List κ
  info1 : Option InfoRef
  info2 : Option InfoRef

namespace TrieHeap

variable {κ : Type} [LinearOrder κ] (h : TrieHeap κ)

local instance leTrans : IsTrans κ (· ≤ ·) := inferInstance

local instance leAntisymm : Std.Antisymm (fun a b : κ => a ≤ b) := inferInstance

/-- `AddAcceptSequences` of `GetAllAcceptSequences`, where the recursion goes no deeper than
`depth`. -/
def addAcceptSequences : ℕ → ℕ → List κ → Except TrieError (List (InfoRef × List κ))
  | 0, _, _ => .error .recursionDepth
  | depth + 1, n, context =>
    let keys := (h.node n).children.keys
    if h.acceptInfo n = none ∧ keys = ∅ then .error .deadEnd
    else
      let below := KeyedLoop.concat
        (fun key => addAcceptSequences depth (h.childOr n n key) (context ++ [key]))
        (keys.sort (· ≤ ·))
      below.map ((h.acceptInfo n).toList.map (·, context) ++ ·)

def getAllAcceptSequences (depth root : ℕ) : Except TrieError (List (InfoRef × List κ)) :=
  h.addAcceptSequences depth root []

def diffTries (emptyNode : ℕ) : ℕ → ℕ → ℕ → List κ → Except TrieError (List (TrieDiff κ))
  | 0, _, _, _ => .error .recursionDepth
  | depth + 1, node1, node2, context =>
    if node1 = node2 then .ok []
    else
      let here := if h.acceptInfo node1 ≠ h.acceptInfo node2
        then [⟨context, h.acceptInfo node1, h.acceptInfo node2⟩] else []
      let below := KeyedLoop.concat
        (fun key => diffTries emptyNode depth (h.childOr emptyNode node1 key)
          (h.childOr emptyNode node2 key) (context ++ [key]))
        ((h.unionOfChildKeys node1 node2).sort (· ≤ ·))
      below.map (here ++ ·)

def diffAt (node1 node2 : ℕ) (context s : List κ) : TrieDiff κ :=
  ⟨context ++ s, h.acceptAt node1 s, h.acceptAt node2 s⟩

/-- The entries of a list are those of the sequences that two nodes do not accept with one object,
each once. -/
structure ListsDiffs (node1 node2 : ℕ) (context : List κ) (l : List (TrieDiff κ)) : Prop where
  mem_iff : ∀ x, x ∈ l ↔
    ∃ s, h.acceptAt node1 s ≠ h.acceptAt node2 s ∧ x = h.diffAt node1 node2 context s
  nodup : (l.map (·.context)).Nodup

variable {h} {emptyNode node1 node2 depth d : ℕ} {context : List κ}

theorem ListsDiffs.nil (node : ℕ) : h.ListsDiffs node node context [] where
  mem_iff x := by simp only [List.not_mem_nil, ne_eq, not_true, false_and, exists_false]
  nodup := List.nodup_nil

theorem diffAt_childOr (hleaf : ∀ k, h.child emptyNode k = none)
    (hinfo : h.acceptInfo emptyNode = none) (k : κ) (s : List κ) :
    h.diffAt (h.childOr emptyNode node1 k) (h.childOr emptyNode node2 k) (context ++ [k]) s =
      h.diffAt node1 node2 context (k :: s) := by
  rw [diffAt, diffAt, acceptAt_childOr hleaf hinfo, acceptAt_childOr hleaf hinfo, List.append_assoc,
    List.singleton_append]

theorem mem_keys_of_acceptAt_ne {k : κ} {s : List κ}
    (hne : h.acceptAt node1 (k :: s) ≠ h.acceptAt node2 (k :: s)) :
    k ∈ h.unionOfChildKeys node1 node2 := by
  by_contra hk
  have hnone := mt mem_unionOfChildKeys.2 hk
  push Not at hnone
  apply hne
  rw [acceptAt, acceptAt, valueAt_cons_of_none hnone.1, valueAt_cons_of_none hnone.2]

theorem ListsDiffs.of_children {f : κ → Except TrieError (List (TrieDiff κ))}
    {below : List (TrieDiff κ)} (hleaf : ∀ k, h.child emptyNode k = none)
    (hinfo : h.acceptInfo emptyNode = none)
    (hchild : ∀ k ∈ (h.unionOfChildKeys node1 node2).sort (· ≤ ·), ∀ l, f k = .ok l →
      h.ListsDiffs (h.childOr emptyNode node1 k) (h.childOr emptyNode node2 k) (context ++ [k]) l)
    (hbelow : KeyedLoop.concat f ((h.unionOfChildKeys node1 node2).sort (· ≤ ·)) = .ok below) :
    h.ListsDiffs node1 node2 context
      ((if h.acceptInfo node1 ≠ h.acceptInfo node2
        then [⟨context, h.acceptInfo node1, h.acceptInfo node2⟩] else []) ++ below) := by
  have hmem : ∀ x, x ∈ below ↔ ∃ k s, h.acceptAt node1 (k :: s) ≠ h.acceptAt node2 (k :: s) ∧
      x = h.diffAt node1 node2 context (k :: s) := by
    intro x
    rw [KeyedLoop.mem_concat hbelow]
    constructor
    · rintro ⟨k, hk, l, hl, hx⟩
      obtain ⟨s, hne, rfl⟩ := ((hchild k hk l hl).mem_iff x).1 hx
      rw [acceptAt_childOr hleaf hinfo, acceptAt_childOr hleaf hinfo] at hne
      exact ⟨k, s, hne, diffAt_childOr hleaf hinfo k s⟩
    · rintro ⟨k, s, hne, rfl⟩
      have hk := (Finset.mem_sort (· ≤ ·)).2 (mem_keys_of_acceptAt_ne hne)
      obtain ⟨l, hl⟩ := KeyedLoop.concat_ok hbelow k hk
      refine ⟨k, hk, l, hl, ((hchild k hk l hl).mem_iff _).2 ⟨s, ?_, ?_⟩⟩
      · rwa [acceptAt_childOr hleaf hinfo, acceptAt_childOr hleaf hinfo]
      · exact (diffAt_childOr hleaf hinfo k s).symm
  have hhere : ∀ x : TrieDiff κ, x ∈ (if h.acceptInfo node1 ≠ h.acceptInfo node2
      then [⟨context, h.acceptInfo node1, h.acceptInfo node2⟩] else [] : List (TrieDiff κ)) ↔
      h.acceptAt node1 [] ≠ h.acceptAt node2 [] ∧ x = h.diffAt node1 node2 context [] := by
    intro x
    have hdiff : h.diffAt node1 node2 context [] =
        ⟨context, h.acceptInfo node1, h.acceptInfo node2⟩ := by
      rw [diffAt, List.append_nil, acceptAt_nil, acceptAt_nil]
    rw [hdiff, acceptAt_nil, acceptAt_nil]
    by_cases hne : h.acceptInfo node1 ≠ h.acceptInfo node2
    · rw [if_pos hne, List.mem_singleton]
      exact (and_iff_right hne).symm
    · rw [if_neg hne]
      exact iff_of_false List.not_mem_nil fun hx => hne hx.1
  constructor
  · intro x
    rw [List.mem_append, hhere, hmem]
    constructor
    · rintro (hx | ⟨k, s, hx⟩)
      · exact ⟨[], hx⟩
      · exact ⟨k :: s, hx⟩
    · rintro ⟨s, hx⟩
      cases s with
      | nil => exact Or.inl hx
      | cons k s => exact Or.inr ⟨k, s, hx⟩
  · rw [List.map_append, List.nodup_append]
    refine ⟨?_, ?_, ?_⟩
    · by_cases hne : h.acceptInfo node1 ≠ h.acceptInfo node2
      · rw [if_pos hne]
        exact List.nodup_singleton _
      · rw [if_neg hne]
        exact List.nodup_nil
    · apply KeyedLoop.nodup_concat (Finset.sort_nodup _ _) hbelow
      · exact fun k hk l hl => (hchild k hk l hl).nodup
      · -- the contexts of two keys differ behind the common one
        intro k hk k' hk' hne l₁ l₂ hl₁ hl₂ x hx y hy heq
        obtain ⟨s, -, rfl⟩ := ((hchild k hk l₁ hl₁).mem_iff x).1 hx
        obtain ⟨s', -, rfl⟩ := ((hchild k' hk' l₂ hl₂).mem_iff y).1 hy
        simp only [diffAt, List.append_assoc, List.singleton_append, List.append_cancel_left_eq,
          List.cons.injEq] at heq
        exact hne heq.1
    · intro a ha b hb heq
      obtain ⟨x, hx, rfl⟩ := List.mem_map.1 ha
      obtain ⟨y, hy, rfl⟩ := List.mem_map.1 hb
      obtain ⟨-, rfl⟩ := (hhere x).1 hx
      obtain ⟨k, s, -, rfl⟩ := (hmem y).1 hy
      simp only [diffAt, List.append_cancel_left_eq] at heq
      cases heq

theorem diffTries_spec (hleaf : ∀ k, h.child emptyNode k = none)
    (hinfo : h.acceptInfo emptyNode = none) (hd1 : DepthLE h.child d node1)
    (hd2 : DepthLE h.child d node2) (hdepth : d < depth) (context : List κ) :
    ∃ l, h.diffTries emptyNode depth node1 node2 context = .ok l ∧
      h.ListsDiffs node1 node2 context l := by
  induction depth generalizing d node1 node2 context with
  | zero => omega
  | succ depth ih =>
    rw [diffTries]
    by_cases heq : node1 = node2
    · rw [if_pos heq]
      subst heq
      exact ⟨[], rfl, .nil node1⟩
    · rw [if_neg heq]
      have hchild : ∀ k ∈ (h.unionOfChildKeys node1 node2).sort (· ≤ ·), ∃ l,
          h.diffTries emptyNode depth (h.childOr emptyNode node1 k)
            (h.childOr emptyNode node2 k) (context ++ [k]) = .ok l ∧
          h.ListsDiffs (h.childOr emptyNode node1 k) (h.childOr emptyNode node2 k)
            (context ++ [k]) l := by
        intro k hk
        have hkeys := mem_unionOfChildKeys.1 ((Finset.mem_sort (· ≤ ·)).1 hk)
        cases d with
        | zero => exact absurd hkeys (by simp only [hd1 k, hd2 k]; decide)
        | succ d =>
          exact ih (depthLE_childOr hleaf hd1 k) (depthLE_childOr hleaf hd2 k) (by omega) _
      obtain ⟨below, hbelow⟩ := KeyedLoop.concat_total fun k hk =>
        (hchild k hk).imp fun l hl => hl.1
      refine ⟨_, congrArg (Except.map _) hbelow, .of_children hleaf hinfo ?_ hbelow⟩
      intro k hk l hl
      obtain ⟨l', hl', hlists⟩ := hchild k hk
      obtain rfl : l' = l := Except.ok.inj (hl'.symm.trans hl)
      exact hlists

/-- The pairs of a list are those of the sequences a trie accepts, each once. -/
structure ListsAccepts (h : TrieHeap κ) (n : ℕ) (context : List κ)
    (l : List (InfoRef × List κ)) : Prop where
  mem_iff : ∀ p, p ∈ l ↔ ∃ s, h.acceptAt n s = some p.1 ∧ p.2 = context ++ s
  nodup : (l.map (·.2)).Nodup

theorem ListsAccepts.of_children {n : ℕ} {f : κ → Except TrieError (List (InfoRef × List κ))}
    {below : List (InfoRef × List κ)}
    (hchild : ∀ k c, h.child n k = some c → ∀ l, f k = .ok l → h.ListsAccepts c (context ++ [k]) l)
    (hbelow : KeyedLoop.concat f ((h.node n).children.keys.sort (· ≤ ·)) = .ok below) :
    h.ListsAccepts n context ((h.acceptInfo n).toList.map (·, context) ++ below) := by
  have hkeys : ∀ k, k ∈ (h.node n).children.keys.sort (· ≤ ·) ↔ ∃ c, h.child n k = some c :=
    fun k => by rw [Finset.mem_sort, Finmap.mem_keys, Finmap.mem_iff]; rfl
  have hmem : ∀ p, p ∈ below ↔ ∃ k s, h.acceptAt n (k :: s) = some p.1 ∧
      p.2 = context ++ k :: s := by
    intro p
    rw [KeyedLoop.mem_concat hbelow]
    constructor
    · rintro ⟨k, hk, l, hl, hp⟩
      obtain ⟨c, hc⟩ := (hkeys k).1 hk
      obtain ⟨s, hs, hcontext⟩ := ((hchild k c hc l hl).mem_iff p).1 hp
      refine ⟨k, s, ?_, ?_⟩
      · rw [acceptAt, valueAt_cons_of_child hc]
        exact hs
      · rw [hcontext, List.append_assoc, List.singleton_append]
    · rintro ⟨k, s, hs, hcontext⟩
      cases hc : h.child n k with
      | none =>
        rw [acceptAt, valueAt_cons_of_none hc] at hs
        cases hs
      | some c =>
        rw [acceptAt, valueAt_cons_of_child hc] at hs
        have hk := (hkeys k).2 ⟨c, hc⟩
        obtain ⟨l, hl⟩ := KeyedLoop.concat_ok hbelow k hk
        refine ⟨k, hk, l, hl, ((hchild k c hc l hl).mem_iff p).2 ⟨s, hs, ?_⟩⟩
        rw [hcontext, List.append_assoc, List.singleton_append]
  have hhere : ∀ p, p ∈ (h.acceptInfo n).toList.map (·, context) ↔
      h.acceptAt n [] = some p.1 ∧ p.2 = context := by
    rintro ⟨info, s⟩
    rw [List.mem_map, acceptAt_nil]
    constructor
    · rintro ⟨i, hi, he⟩
      cases he
      exact ⟨Option.mem_toList.1 hi, rfl⟩
    · rintro ⟨hi, rfl⟩
      exact ⟨info, Option.mem_toList.2 hi, rfl⟩
  constructor
  · intro p
    rw [List.mem_append, hhere, hmem]
    constructor
    · rintro (⟨hs, hp⟩ | ⟨k, s, hs⟩)
      · exact ⟨[], hs, hp.trans (List.append_nil context).symm⟩
      · exact ⟨k :: s, hs⟩
    · rintro ⟨s, hs, hp⟩
      cases s with
      | nil => exact Or.inl ⟨hs, hp.trans (List.append_nil context)⟩
      | cons k s => exact Or.inr ⟨k, s, hs, hp⟩
  · rw [List.map_append, List.nodup_append]
    refine ⟨?_, ?_, ?_⟩
    · cases h.acceptInfo n with
      | none => exact List.nodup_nil
      | some info => exact List.nodup_singleton _
    · apply KeyedLoop.nodup_concat (Finset.sort_nodup _ _) hbelow
      · intro k hk l hl
        obtain ⟨c, hc⟩ := (hkeys k).1 hk
        exact (hchild k c hc l hl).nodup
      · intro k hk k' hk' hne l₁ l₂ hl₁ hl₂ x hx y hy heq
        obtain ⟨c, hc⟩ := (hkeys k).1 hk
        obtain ⟨c', hc'⟩ := (hkeys k').1 hk'
        obtain ⟨s, -, hxs⟩ := ((hchild k c hc l₁ hl₁).mem_iff x).1 hx
        obtain ⟨s', -, hys⟩ := ((hchild k' c' hc' l₂ hl₂).mem_iff y).1 hy
        rw [hxs, hys, List.append_assoc, List.append_assoc, List.singleton_append,
          List.singleton_append, List.append_cancel_left_eq, List.cons.injEq] at heq
        exact hne heq.1
    · intro a ha b hb heq
      obtain ⟨x, hx, rfl⟩ := List.mem_map.1 ha
      obtain ⟨y, hy, rfl⟩ := List.mem_map.1 hb
      obtain ⟨k, s, -, hys⟩ := (hmem y).1 hy
      rw [((hhere x).1 hx).2, hys, List.self_eq_append_right] at heq
      cases heq

theorem addAcceptSequences_spec {n : ℕ} (hd : DepthLE h.child d n)
    (hlive : LiveBelow h.child h.acceptInfo n)
    (hn : h.acceptInfo n ≠ none ∨ ∃ k, h.child n k ≠ none) (hdepth : d < depth)
    (context : List κ) :
    ∃ l, h.addAcceptSequences depth n context = .ok l ∧ h.ListsAccepts n context l := by
  induction depth generalizing d n context with
  | zero => omega
  | succ depth ih =>
    have hend : ¬ (h.acceptInfo n = none ∧ (h.node n).children.keys = ∅) := by
      rintro ⟨hinfo, hkeys⟩
      rcases hn with hn | ⟨k, hk⟩
      · exact hn hinfo
      · apply hk
        rw [child, Finmap.lookup_eq_none, ← Finmap.mem_keys, hkeys]
        exact Finset.notMem_empty k
    rw [addAcceptSequences, if_neg hend]
    have hchild : ∀ k c, h.child n k = some c → ∃ l,
        h.addAcceptSequences depth (h.childOr n n k) (context ++ [k]) = .ok l ∧
          h.ListsAccepts c (context ++ [k]) l := by
      intro k c hc
      rw [childOr, hc, Option.getD_some]
      cases d with
      | zero => rw [hd k] at hc; cases hc
      | succ d =>
        exact ih (hd k c hc) (hlive.of_child hc) (hlive.child_live hc) (by omega) _
    have htotal : ∀ k ∈ (h.node n).children.keys.sort (· ≤ ·), ∃ l,
        h.addAcceptSequences depth (h.childOr n n k) (context ++ [k]) = .ok l := by
      intro k hk
      rw [Finset.mem_sort, Finmap.mem_keys, Finmap.mem_iff] at hk
      obtain ⟨c, hc⟩ := hk
      exact (hchild k c hc).imp fun l hl => hl.1
    obtain ⟨below, hbelow⟩ := KeyedLoop.concat_total htotal
    refine ⟨_, congrArg (Except.map _) hbelow, .of_children (fun k c hc l hl => ?_) hbelow⟩
    obtain ⟨l', hl', hlists⟩ := hchild k c hc
    obtain rfl : l' = l := Except.ok.inj (hl'.symm.trans hl)
    exact hlists

end TrieHeap

end SandboxingNaCl
