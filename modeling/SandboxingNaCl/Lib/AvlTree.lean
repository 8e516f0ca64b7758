import Mathlib.Data.List.Basic
import Mathlib.Data.Int.Basic

/-!
# Balanced trees whose nodes summarise their subtrees

A node holds an item, the difference of the heights of its children and a summary of the subtree,
which `stat` computes from the item and the summaries of the children.  The tree is sound when the
differences are right and at most one either way, and every summary is up to date.
-/

namespace SandboxingNaCl

/-- A tree, whose nodes hold items of `α` and summaries of `σ`. -/
inductive AvlTree (α σ : Type*)
  | null
  | node (left right : AvlTree α σ) (balance : ℤ) (item : α) (stats : σ)

namespace AvlTree

variable {α σ : Type*} {stat : α → Option σ → Option σ → σ} {t l r a b c d e f g : AvlTree α σ}
  {x y z : α} {s s' : σ} {bal bal' bal'' : ℤ}

def stats? : AvlTree α σ → Option σ
  | null => none
  | node _ _ _ _ s => some s

def mk (stat : α → Option σ → Option σ → σ) (l r : AvlTree α σ) (bal : ℤ) (x : α) : AvlTree α σ :=
  node l r bal x (stat x l.stats? r.stats?)

/-- The number of nodes on the longest way down. -/
def height : AvlTree α σ → ℕ
  | null => 0
  | node l r _ _ _ => max l.height r.height + 1

def items : AvlTree α σ → List α
  | null => []
  | node l r _ x _ => l.items ++ x :: r.items

def balance : AvlTree α σ → ℤ
  | null => 0
  | node _ _ bal _ _ => bal

/-- Every balance is the difference of the heights and at most one either way, and every summary is up
to date. -/
def Sound (stat : α → Option σ → Option σ → σ) : AvlTree α σ → Prop
  | null => True
  | node l r bal x s => l.Sound stat ∧ r.Sound stat ∧ bal = r.height - l.height ∧ -1 ≤ bal ∧ bal ≤ 1 ∧
      s = stat x l.stats? r.stats?

@[simp] theorem height_null : (null : AvlTree α σ).height = 0 := rfl

@[simp] theorem height_node : (node l r bal x s).height = max l.height r.height + 1 := rfl

@[simp] theorem height_mk : (mk stat l r bal x).height = max l.height r.height + 1 := rfl

@[simp] theorem items_null : (null : AvlTree α σ).items = [] := rfl

@[simp] theorem items_node : (node l r bal x s).items = l.items ++ x :: r.items := rfl

@[simp] theorem items_mk : (mk stat l r bal x).items = l.items ++ x :: r.items := rfl

@[simp] theorem balance_node : (node l r bal x s).balance = bal := rfl

@[simp] theorem balance_mk : (mk stat l r bal x).balance = bal := rfl

theorem sound_null : (null : AvlTree α σ).Sound stat := trivial

theorem Sound.mk (hl : l.Sound stat) (hr : r.Sound stat) (hbal : bal = r.height - l.height)
    (hlo : -1 ≤ bal) (hhi : bal ≤ 1) : (mk stat l r bal x).Sound stat :=
  ⟨hl, hr, hbal, hlo, hhi, rfl⟩

theorem exists_node_of_height_pos (h : 0 < t.height) : ∃ l r bal x s, t = node l r bal x s := by
  cases t with
  | null => exact absurd h (lt_irrefl 0)
  | node l r bal x s => exact ⟨l, r, bal, x, s, rfl⟩

end AvlTree

end SandboxingNaCl
