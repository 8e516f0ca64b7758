import Mathlib.Data.Int.Notation
import SandboxingNaCl.DecoderGen.BitExpr

/-!
# Negation of bit expressions

`negate` of the classes of `validator_arm/dgen_core.py`, against the meaning of the C++ that is generated.
What the texts of integers and of calls mean is a parameter; comparisons, connectives and conditionals have
the meaning of C++.
-/

namespace SandboxingNaCl

namespace DecoderGen

/-! ## The meaning of a boolean -/

/-- An integer of C++ with 32 bits. -/
structure CppInt where
  bits : Word
  signed : Bool

/-- What the texts of integers and of calls mean for an instruction, if they are defined. -/
structure Meaning where
  value : String → Word → Option CppInt
  bool : String → Word → Option Bool

/-- A comparison is unsigned unless both sides are signed. -/
def CompareOp.holds (op : CompareOp) (a b : CppInt) : Bool :=
  let (x, y) := if a.signed && b.signed then (a.bits.toInt, b.bits.toInt)
    else ((a.bits.toNat : ℤ), (b.bits.toNat : ℤ))
  match op with
  | lt => x < y
  | le => x ≤ y
  | eq => x = y
  | ne => x ≠ y
  | ge => y ≤ x
  | gt => y < x

/-- The value of a boolean for an instruction, if it is defined. -/
def Cpp.eval (meaning : Meaning) (inst : Word) : Cpp → Option Bool
  | lit value => some value
  | call text => meaning.bool text inst
  | nonzero text => (meaning.value text inst).map fun x => x.bits ≠ 0
  | compare op arg1 arg2 => do return op.holds (← meaning.value arg1 inst) (← meaning.value arg2 inst)
  | masked text mask value op => (meaning.value text inst).map fun x =>
    match op with
    | .eq => x.bits &&& mask = value
    | .ne => x.bits &&& mask ≠ value
  | and a b => do if ← a.eval meaning inst then b.eval meaning inst else some false
  | or a b => do if ← a.eval meaning inst then some true else b.eval meaning inst
  | not a => (a.eval meaning inst).map Bool.not
  | cond test thenValue elseValue => do
    if ← test.eval meaning inst then thenValue.eval meaning inst else elseValue.eval meaning inst
  | paren a => a.eval meaning inst

namespace BitExpr

variable (meaning : Meaning) (options : Options)

/-- What the boolean of an expression denotes for an instruction. -/
def denotes (exp : BitExpr) (inst : Word) : Option Bool :=
  (exp.methods.toBool options).bind (Cpp.eval meaning inst)

/-- The negation denotes the complement, and a safety action other than `MAY_BE_SAFE` the words that its
test does not match. -/
def Negated (exp : BitExpr) (inst : Word) : Prop :=
  exp.negate.denotes meaning options inst = (exp.denotes meaning options inst).map Bool.not ∧
    ∀ action ≠ SafetyLevel.mayBeSafe,
      (safetyActionToBool exp action options).bind (Cpp.eval meaning inst) =
        (exp.denotes meaning options inst).map Bool.not

/-- Through the parentheses, the expression is no pattern without significant bits, and no conditional but
one whose branches are opposite (if it can be generated, and its test is defined). -/
def Negatable (inst : Word) : BitExpr → Prop
  | parenthesized exp => exp.Negatable inst
  | bitPattern mask _ _ _ => mask ≠ 0
  | ifThenElse test thenValue elseValue =>
    (test.methods.toBool options).isSome → (thenValue.methods.toBool options).isSome →
      (elseValue.methods.toBool options).isSome → test.denotes meaning options inst ≠ none →
        elseValue.denotes meaning options inst = (thenValue.denotes meaning options inst).map Bool.not
  | _ => True

end BitExpr

/-! ## One class at a time -/

theorem CompareOp.holds_negated (op : CompareOp) (a b : CppInt) : op.negated.holds a b = !op.holds a b := by
  unfold holds
  generalize (if a.signed && b.signed then _ else _ : ℤ × ℤ) = xy
  rw [Bool.eq_iff_iff]
  cases op <;> simp [negated]

namespace BitExpr

section

variable {meaning : Meaning} {options : Options} {inst : Word}

theorem denotes_negatedTest (exp : BitExpr) :
    (negatedTest exp).denotes meaning options inst = (exp.denotes meaning options inst).map Bool.not := by
  simp only [denotes, methods, Methods.negatedTest]
  cases exp.methods.toBool options with
  | none => rfl
  | some value => rfl

theorem denotes_parenthesized (exp : BitExpr) :
    (parenthesized exp).denotes meaning options inst = exp.denotes meaning options inst := by
  simp only [denotes, methods, Methods.parenthesized]
  cases exp.methods.toBool options with
  | none => rfl
  | some value => rfl

theorem map_not_not (value : Option Bool) : (value.map Bool.not).map Bool.not = value := by
  cases value <;> simp

theorem denotes_compareExp_negated (op : CompareOp) (arg1 arg2 : BitExpr) :
    (compareExp op.negated arg1 arg2).denotes meaning options inst =
      ((compareExp op arg1 arg2).denotes meaning options inst).map Bool.not := by
  simp only [denotes, methods, Methods.compareExp]
  cases arg1.methods.toUint32 options with
  | none => rfl
  | some text1 =>
    cases arg2.methods.toUint32 options with
    | none => rfl
    | some text2 =>
      simp only [Option.bind_eq_bind, Option.bind_some, Option.pure_def, Cpp.eval]
      cases meaning.value text1 inst with
      | none => rfl
      | some a =>
        cases meaning.value text2 inst with
        | none => rfl
        | some b => exact congrArg some (op.holds_negated a b)

theorem denotes_bitPattern_flipped {mask value : Word} {op : PatternOp} {name : BitExpr}
    (hmask : mask ≠ 0) :
    (bitPattern mask value (match op with | .eq => .ne | .ne => .eq) name).denotes meaning options inst =
      ((bitPattern mask value op name).denotes meaning options inst).map Bool.not := by
  simp only [denotes, methods, Methods.bitPattern, if_neg hmask]
  cases name.methods.toUint32 options with
  | none => rfl
  | some text =>
    simp only [Option.map_some, Option.bind_some, Cpp.eval, Option.map_map]
    congr 1
    funext x
    cases op <;> simp

theorem denotes_bitPattern_zero (value : Word) (op : PatternOp) (name : BitExpr) :
    (bitPattern 0 value op name).denotes meaning options inst = some true := rfl

theorem denotes_ifThenElse_iff (test thenValue elseValue : BitExpr) :
    (ifThenElse test elseValue thenValue).denotes meaning options inst =
        ((ifThenElse test thenValue elseValue).denotes meaning options inst).map Bool.not ↔
      Negatable meaning options inst (ifThenElse test thenValue elseValue) := by
  simp only [denotes, methods, Methods.ifThenElse, Negatable]
  cases test.methods.toBool options with
  | none => simp
  | some t =>
    cases thenValue.methods.toBool options with
    | none => cases elseValue.methods.toBool options <;> simp
    | some a =>
      cases elseValue.methods.toBool options with
      | none => simp
      | some b =>
        simp only [Option.bind_eq_bind, Option.bind_some, Option.pure_def, Cpp.eval, Option.isSome_some,
          forall_const]
        cases t.eval meaning inst with
        | none => simp
        | some selected =>
          cases selected with
          | true => simp
          | false =>
            simp
            constructor
            · rintro h
              rw [h, map_not_not]
            · rintro h
              rw [h, map_not_not]

theorem denotes_negate_iff : ∀ exp : BitExpr,
    exp.negate.denotes meaning options inst = (exp.denotes meaning options inst).map Bool.not ↔
      Negatable meaning options inst exp
  | parenthesized exp => by
    change (parenthesized exp.negate).denotes meaning options inst = _ ↔ _
    rw [denotes_parenthesized, denotes_parenthesized]
    exact denotes_negate_iff exp
  | compareExp op arg1 arg2 => iff_of_true (denotes_compareExp_negated op arg1 arg2) trivial
  | ifThenElse test thenValue elseValue => denotes_ifThenElse_iff test thenValue elseValue
  | negatedTest test => by
    refine iff_of_true ?_ trivial
    rw [denotes_negatedTest, map_not_not]
    rfl
  | bitPattern mask value op name => by
    by_cases hmask : mask = 0
    · subst hmask
      refine iff_of_false ?_ fun h => h rfl
      change (bitPattern 0 value _ name).denotes meaning options inst ≠ _
      rw [denotes_bitPattern_zero, denotes_bitPattern_zero]
      decide
    · exact iff_of_true (denotes_bitPattern_flipped hmask) hmask
  | idRef _ _ | andExp _ _ | orExp _ _ | shiftOp _ _ _ | addOp _ _ _ | mulOp _ _ _ | concat _ _ | bitSet _
  | typeCast _ _ | functionCall _ _ | inUintSet _ _ | inBitSet _ _ | literal _ | boolValue _ | bitField _ _ _
  | instruction => iff_of_true (denotes_negatedTest _) trivial

end

/-- Negation is logical, also in safety actions, exactly for the expressions that can be negated. -/
theorem negated_iff (meaning : Meaning) (options : Options) (exp : BitExpr) (inst : Word) :
    exp.Negated meaning options inst ↔ Negatable meaning options inst exp := by
  rw [← denotes_negate_iff]
  constructor
  · intro h
    exact h.1
  · intro h
    refine ⟨h, fun action haction => ?_⟩
    rw [safetyActionToBool, if_neg haction]
    exact h

/-- `Rt=1111 if W=1 else Rn=1111`. -/
def isPcOfWriteback : BitExpr :=
  ifThenElse (bitPattern 0x00200000 0x00200000 .eq (idRef "inst" instruction))
    (bitPattern 0x0000F000 0x0000F000 .eq (idRef "inst" instruction))
    (bitPattern 0x000F0000 0x000F0000 .eq (idRef "inst" instruction))

/-- The text `inst.Bits()` means the instruction. -/
def instMeaning : Meaning where
  value text inst := if text = "inst.Bits()" then some ⟨inst, false⟩ else none
  bool _ _ := none

/-- If both registers are `Pc`, the conditional and its negation are true. -/
theorem not_negated_isPcOfWriteback : ¬ isPcOfWriteback.Negated instMeaning .default 0x002FF000 := by
  rintro ⟨h, -⟩
  exact absurd h (by decide +kernel)

end BitExpr

end DecoderGen

end SandboxingNaCl
