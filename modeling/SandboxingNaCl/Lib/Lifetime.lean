import Mathlib.Tactic.Common

/-!
# Blocks of a heap

A block is made once, and freed at most once.  Following a pointer to a block that is not there, or
freeing it, is a fault; a caller that has to wait is not.
-/

namespace Lifetime

/-- What stops a step: it is not possible now, or it goes wrong. -/
inductive Stop
  | blocked
  | useAfterFree
  | doubleFree
deriving DecidableEq

/-- A block of memory. -/
inductive Cell (α : Type*)
  | fresh
  | live (content : α)
  | freed

namespace Cell

variable {α : Type*}

def isFresh : Cell α → Bool
  | .fresh => true
  | _ => false

def isLive : Cell α → Bool
  | .live _ => true
  | _ => false

def read : Cell α → Except Stop α
  | .live content => .ok content
  | _ => .error .useAfterFree

def free : Cell α → Except Stop (Cell α)
  | .live _ => .ok .freed
  | _ => .error .doubleFree

theorem exists_of_isLive {c : Cell α} (h : c.isLive = true) : ∃ content, c = .live content := by
  cases c with
  | live content => exact ⟨content, rfl⟩
  | _ => cases h

theorem read_eq_ok {c : Cell α} {content : α} : c.read = .ok content ↔ c = .live content := by
  cases c with
  | live content' => exact ⟨fun h => congrArg live (Except.ok.inj h), fun h => by cases h; rfl⟩
  | fresh => exact ⟨nofun, nofun⟩
  | freed => exact ⟨nofun, nofun⟩

theorem eq_of_free {c c' : Cell α} (h : c.free = .ok c') : c' = .freed := by
  cases c with
  | live content => cases h; rfl
  | fresh => cases h
  | freed => cases h

end Cell

/-- A step that does not go wrong ends in a state that meets `P`, or has to wait. -/
def Fine {σ : Type*} (P : σ → Prop) : Except Stop σ → Prop
  | .ok s => P s
  | .error e => e = .blocked

variable {σ τ : Type} {P : σ → Prop} {Q : τ → Prop}

theorem Fine.imp {R : σ → Prop} {r : Except Stop σ} (h : Fine P r) (hP : ∀ s, P s → R s) : Fine R r := by
  cases r with
  | ok s => exact hP s h
  | error e => exact h

theorem Fine.bind {r : Except Stop σ} {f : σ → Except Stop τ} (h : Fine P r)
    (hf : ∀ s, P s → Fine Q (f s)) : Fine Q (r >>= f) := by
  cases r with
  | ok s => exact hf s h
  | error e => exact h

end Lifetime
