import Mathlib.Data.List.Basic

/-!
# Resources taken and given back

A call records in a ledger what it takes and what it gives back.  A resource is settled when the call
has not taken it, or has taken it once and then given it back once.
-/

namespace SandboxingNaCl

/-- A resource is taken or given back. -/
inductive LedgerEntry (ρ : Type*)
  | take (r : ρ)
  | give (r : ρ)
deriving DecidableEq

namespace LedgerEntry

variable {ρ : Type*} [DecidableEq ρ]

def resource : LedgerEntry ρ → ρ
  | take r => r
  | give r => r

/-- What a ledger says about `r`. -/
def about (r : ρ) (ledger : List (LedgerEntry ρ)) : List (LedgerEntry ρ) :=
  ledger.filter (·.resource = r)

/-- `r` is not taken, or it is taken once and then given back once. -/
def Settled (r : ρ) (ledger : List (LedgerEntry ρ)) : Prop :=
  about r ledger = [] ∨ about r ledger = [take r, give r]

variable {r r' : ρ} {ledger : List (LedgerEntry ρ)}

instance : Decidable (Settled r ledger) := inferInstanceAs (Decidable (_ ∨ _))

theorem settled_nil (r : ρ) : Settled r [] := Or.inl rfl

/-- The ledger of a call that holds `r` while it makes the entries `ledger`. -/
def holding (r : ρ) (ledger : List (LedgerEntry ρ)) : List (LedgerEntry ρ) :=
  take r :: ledger ++ [give r]

theorem about_holding_self : about r (holding r ledger) = take r :: about r ledger ++ [give r] := by
  simp [about, holding, resource]

theorem about_holding_of_ne (h : r ≠ r') : about r' (holding r ledger) = about r' ledger := by
  simp [about, holding, resource, h]

theorem settled_holding_self (h : about r ledger = []) : Settled r (holding r ledger) := by
  refine Or.inr ?_
  rw [about_holding_self, h]
  rfl

theorem settled_holding_of_ne (h : r ≠ r') : Settled r' (holding r ledger) ↔ Settled r' ledger := by
  unfold Settled
  rw [about_holding_of_ne h]

end LedgerEntry

end SandboxingNaCl
