import SandboxingNaCl.Lib.AvlTree
import Mathlib.Data.BitVec

/-!
# The tree of interval end points

`nacl_interval_range_tree.c`: an AVL tree with a node for each value at which intervals of the
multiset start or end.  The 32-bit counters of a node wrap around.  Memory is taken to be there: the
code treats its lack as fatal.
-/

namespace SandboxingNaCl

/-- What a `NaClIntervalRangeTreeNode` says about its value. -/
structure RangeTreeNode where
  value : ℕ
  valueContainmentDelta : BitVec 32
  refcount : BitVec 32
deriving DecidableEq

/-- What a `NaClIntervalRangeTreeNode` says about its subtree. -/
structure RangeTreeStats where
  rangeLeft : ℕ
  rangeRight : ℕ
  subtreeContainmentDelta : BitVec 32

abbrev RangeTree := AvlTree RangeTreeNode RangeTreeStats

/-- The ways an operation on the tree brings the process down. -/
inductive RangeTreeFault
  /-- `NaClAvlTreeExtract: node not found`. -/
  | notFound
  | badAccess

def naclRangeStatsUpdate (node : RangeTreeNode) (left right : Option RangeTreeStats) :
    RangeTreeStats where
  rangeLeft := match left with
    | some left => left.rangeLeft
    | none => node.value
  rangeRight := match right with
    | some right => right.rangeRight
    | none => node.value
  subtreeContainmentDelta := node.valueContainmentDelta +
    (match left with
      | some left => left.subtreeContainmentDelta
      | none => 0) +
    match right with
      | some right => right.subtreeContainmentDelta
      | none => 0

/-- A node after `NaClRangeStatsUpdate`. -/
abbrev updated (left right : RangeTree) (balance : ℤ) (node : RangeTreeNode) : RangeTree :=
  AvlTree.mk naclRangeStatsUpdate left right balance node

/-- `NaClIntervalRangeTreeNodeInit`: `lr` is 1 for a start and -1 for an end. -/
def naclIntervalRangeTreeNodeInit (value : ℕ) (lr : BitVec 32) : RangeTreeNode := ⟨value, lr, 1⟩

/-! ## Insertion -/

/-- The pivot of `NaClAvlTreeInsert` after the left subtree has grown: an L rotation, or an LR
rotation. -/
def insertPivotLeft (left right : RangeTree) (node : RangeTreeNode) :
    Except RangeTreeFault RangeTree :=
  match left with
  | .null => .error .badAccess
  | .node a c bal b _ =>
    if bal = -1 then
      .ok (updated a (updated c right 0 node) 0 b)
    else
      match c with
      | .null => .error .badAccess
      | .node c e bal d _ =>
        .ok (updated (updated a c (if bal ≤ 0 then 0 else -1) b)
          (updated e right (if 0 ≤ bal then 0 else 1) node) 0 d)

/-- The pivot of `NaClAvlTreeInsert` after the right subtree has grown. -/
def insertPivotRight (left right : RangeTree) (node : RangeTreeNode) :
    Except RangeTreeFault RangeTree :=
  match right with
  | .null => .error .badAccess
  | .node c e bal d _ =>
    if bal = 1 then
      .ok (updated (updated left c 0 node) e 0 d)
    else
      match c with
      | .null => .error .badAccess
      | .node a c bal b _ =>
        .ok (updated (updated left a (if bal ≤ 0 then 0 else -1) node)
          (updated c e (if 0 ≤ bal then 0 else 1) d) 0 b)

/-- `NaClAvlTreeInsert`: the tree, and whether it grew in height. -/
def naclAvlTreeInsert : RangeTree → RangeTreeNode → Except RangeTreeFault (RangeTree × Bool)
  | .null, node =>
    .ok (.node .null .null 0 node ⟨node.value, node.value, node.valueContainmentDelta⟩, true)
  | .node left right balance tmp stats, node =>
    if node.value = tmp.value then
      .ok (.node left right balance
        { tmp with
          valueContainmentDelta := tmp.valueContainmentDelta + node.valueContainmentDelta
          refcount := tmp.refcount + 1 }
        { stats with
          subtreeContainmentDelta := stats.subtreeContainmentDelta + node.valueContainmentDelta },
        false)
    else if node.value < tmp.value then
      match naclAvlTreeInsert left node with
      | .error fault => .error fault
      | .ok (left, higher) =>
        if !higher then .ok (updated left right balance tmp, false)
        else if balance - 1 = 0 then .ok (updated left right 0 tmp, false)
        else if balance - 1 = -1 then .ok (updated left right (-1) tmp, true)
        else (insertPivotLeft left right tmp).map (·, false)
    else
      match naclAvlTreeInsert right node with
      | .error fault => .error fault
      | .ok (right, higher) =>
        if !higher then .ok (updated left right balance tmp, false)
        else if balance + 1 = 0 then .ok (updated left right 0 tmp, false)
        else if balance + 1 = 1 then .ok (updated left right 1 tmp, true)
        else (insertPivotRight left right tmp).map (·, false)

/-! ## Removal -/

/-- `NaClAvlTreeBalanceLeft`: the tree, and `*height_changed`. -/
def naclAvlTreeBalanceLeft (tree : RangeTree) (heightChanged : Bool) :
    Except RangeTreeFault (RangeTree × Bool) :=
  match tree with
  | .null => .error .badAccess
  | .node a right bal b stats =>
    if bal + 1 = 0 then
      .ok (.node a right 0 b stats, heightChanged)
    else if bal + 1 = 1 then
      .ok (.node a right 1 b stats, false)
    else
      match right with
      | .null => .error .badAccess
      | .node c e bal d _ =>
        if 0 ≤ bal then
          if bal = 0 then .ok (updated (updated a c 1 b) e (-1) d, false)
          else .ok (updated (updated a c 0 b) e 0 d, heightChanged)
        else
          match c with
          | .null => .error .badAccess
          | .node c c' bal f _ =>
            .ok (updated (updated a c (if 0 < bal then -1 else 0) b)
              (updated c' e (if bal < 0 then 1 else 0) d) 0 f, heightChanged)

/-- `NaClAvlTreeBalanceRight`: the tree, and `*height_changed`. -/
def naclAvlTreeBalanceRight (tree : RangeTree) (heightChanged : Bool) :
    Except RangeTreeFault (RangeTree × Bool) :=
  match tree with
  | .null => .error .badAccess
  | .node left e bal d stats =>
    if bal - 1 = 0 then
      .ok (.node left e 0 d stats, heightChanged)
    else if bal - 1 = -1 then
      .ok (.node left e (-1) d stats, false)
    else
      match left with
      | .null => .error .badAccess
      | .node a c bal b _ =>
        if bal ≤ 0 then
          if bal = 0 then .ok (updated a (updated c e (-1) d) 1 b, false)
          else .ok (updated a (updated c e 0 d) 0 b, heightChanged)
        else
          match c with
          | .null => .error .badAccess
          | .node c c' bal f _ =>
            .ok (updated (updated a c (if 0 < bal then -1 else 0) b)
              (updated c' e (if bal < 0 then 1 else 0) d) 0 f, heightChanged)

/-- The step after a subtree has lost a node: `balance` is called if its height changed. -/
def rebalanceIf (balance : RangeTree → Bool → Except RangeTreeFault (RangeTree × Bool))
    (tree : RangeTree) (heightChanged : Bool) : Except RangeTreeFault (RangeTree × Bool) :=
  if heightChanged then balance tree heightChanged else .ok (tree, heightChanged)

/-- `NaClAvlFindRightMost`: the tree without its last node, that node, and `*height_changed`. -/
def naclAvlFindRightMost : RangeTree → Except RangeTreeFault ((RangeTree × Bool) × RangeTreeNode)
  | .null => .error .badAccess
  | .node left .null _ node _ => .ok ((left, true), node)
  | .node left right balance node _ =>
    match naclAvlFindRightMost right with
    | .error fault => .error fault
    | .ok ((right, heightChanged), tmp) =>
      (rebalanceIf naclAvlTreeBalanceRight (updated left right balance node) heightChanged).map
        (·, tmp)

/-- `NaClAvlFindLeftMost`: the tree without its first node, that node, and `*height_changed`. -/
def naclAvlFindLeftMost : RangeTree → Except RangeTreeFault ((RangeTree × Bool) × RangeTreeNode)
  | .null => .error .badAccess
  | .node .null right _ node _ => .ok ((right, true), node)
  | .node left right balance node _ =>
    match naclAvlFindLeftMost left with
    | .error fault => .error fault
    | .ok ((left, heightChanged), tmp) =>
      (rebalanceIf naclAvlTreeBalanceLeft (updated left right balance node) heightChanged).map
        (·, tmp)

/-- The part of `NaClAvlTreeExtract` that takes out a node with these subtrees and balance. -/
def removeNode (left right : RangeTree) (balance : ℤ) : Except RangeTreeFault (RangeTree × Bool) :=
  match left, right with
  | left, .null => .ok (left, true)
  | .null, right => .ok (right, true)
  | left, right =>
    if balance ≤ 0 then
      match naclAvlFindRightMost left with
      | .error fault => .error fault
      | .ok ((left, heightChanged), tmp) =>
        rebalanceIf naclAvlTreeBalanceLeft (updated left right balance tmp) heightChanged
    else
      match naclAvlFindLeftMost right with
      | .error fault => .error fault
      | .ok ((right, heightChanged), tmp) =>
        rebalanceIf naclAvlTreeBalanceRight (updated left right balance tmp) heightChanged

/-- `NaClAvlTreeExtract`: the tree, and `*height_changed`.  The node that is taken out is freed by the
caller. -/
def naclAvlTreeExtract : RangeTree → RangeTreeNode → Except RangeTreeFault (RangeTree × Bool)
  | .null, _ => .error .notFound
  | .node left right balance p stats, key =>
    if key.value < p.value then
      match naclAvlTreeExtract left key with
      | .error fault => .error fault
      | .ok (left, heightChanged) =>
        rebalanceIf naclAvlTreeBalanceLeft (updated left right balance p) heightChanged
    else if p.value < key.value then
      match naclAvlTreeExtract right key with
      | .error fault => .error fault
      | .ok (right, heightChanged) =>
        rebalanceIf naclAvlTreeBalanceRight (updated left right balance p) heightChanged
    else if p.refcount - 1 ≠ 0 then
      .ok (.node left right balance
        { p with
          valueContainmentDelta := p.valueContainmentDelta - key.valueContainmentDelta
          refcount := p.refcount - 1 }
        { stats with
          subtreeContainmentDelta := stats.subtreeContainmentDelta - key.valueContainmentDelta },
        false)
    else
      removeNode left right balance

/-! ## The query -/

/-- `NaClAvlTreeFindValue`: the count, and `*gap_left` if it is set. -/
def naclAvlTreeFindValue : RangeTree → BitVec 32 → ℕ → ℕ → BitVec 32 × Option ℕ
  | .null, leftDelta, leftRange, _ => (leftDelta, some leftRange)
  | .node left right _ node _, leftDelta, leftRange, value =>
    let delta := leftDelta + (match left.stats? with
      | some left => left.subtreeContainmentDelta
      | none => 0) + node.valueContainmentDelta
    if value < node.value then
      naclAvlTreeFindValue left leftDelta leftRange value
    else if value = node.value then
      (if delta = 0 then 1 else delta, none)
    else
      naclAvlTreeFindValue right delta (node.value + 1) value

/-! ## The multiset -/

def naclIntervalRangeTreeAddInterval (root : RangeTree) (firstVal lastVal : ℕ) :
    Except RangeTreeFault RangeTree := do
  let (root, _) ← naclAvlTreeInsert root (naclIntervalRangeTreeNodeInit firstVal 1)
  let (root, _) ← naclAvlTreeInsert root (naclIntervalRangeTreeNodeInit lastVal (-1))
  return root

def naclIntervalRangeTreeRemoveVal (root : RangeTree) (value : ℕ) (lr : BitVec 32) :
    Except RangeTreeFault RangeTree := do
  let (root, _) ← naclAvlTreeExtract root (naclIntervalRangeTreeNodeInit value lr)
  return root

def naclIntervalRangeTreeRemoveInterval (root : RangeTree) (firstVal lastVal : ℕ) :
    Except RangeTreeFault RangeTree := do
  let root ← naclIntervalRangeTreeRemoveVal root lastVal (-1)
  naclIntervalRangeTreeRemoveVal root firstVal 1

def naclIntervalRangeTreeOverlapsWith (root : RangeTree) (firstVal lastVal : ℕ) : Bool :=
  let (countFirst, gapLeftFirst) := naclAvlTreeFindValue root 0 0 firstVal
  let (countLast, gapLeftLast) := naclAvlTreeFindValue root 0 0 lastVal
  if countFirst ≠ 0 then true
  else if countLast ≠ 0 then true
  else gapLeftFirst ≠ gapLeftLast

end SandboxingNaCl
