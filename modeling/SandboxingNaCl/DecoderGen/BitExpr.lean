import Mathlib.Algebra.Ring.Nat
import Mathlib.Data.Option.Basic
import SandboxingNaCl.DecoderGen.BitPattern

/-!
# Bit expressions of the decoder language

The subclasses of `BitExpr` in `validator_arm/dgen_core.py` that an expression is built from, and the C++
they generate.  An expression is seen through its conversions: each gives the C++ text, or `none` where the
generator raises an exception.  The text of a boolean is kept with its structure, as a `Cpp`.
-/

namespace SandboxingNaCl

namespace DecoderGen

/-- Operators of `CompareExp`. -/
inductive CompareOp
  | lt
  | le
  | eq
  | ne
  | ge
  | gt

/-- `_NEGATED_COMPARE_OP`. -/
def CompareOp.negated : CompareOp → CompareOp
  | lt => ge
  | le => gt
  | eq => ne
  | ne => eq
  | ge => lt
  | gt => le

def CompareOp.text : CompareOp → String
  | lt => "<"
  | le => "<="
  | eq => "=="
  | ne => "!="
  | ge => ">="
  | gt => ">"

/-- `0x%08X`. -/
def hexText (n : ℕ) : String :=
  let digits := (Nat.toDigits 16 n).map Char.toUpper
  "0x" ++ String.ofList (List.replicate (8 - digits.length) '0' ++ digits)

/-- A boolean of C++, in the forms that are generated. -/
inductive Cpp
  | lit (value : Bool)
  | call (text : String)
  | nonzero (text : String)
  | compare (op : CompareOp) (arg1 arg2 : String)
  | masked (text : String) (mask value : Word) (op : PatternOp)
  | and (a b : Cpp)
  | or (a b : Cpp)
  | not (a : Cpp)
  | cond (test thenValue elseValue : Cpp)
  | paren (a : Cpp)

/-- `_IF_THEN_ELSE_CPP_FORMAT`. -/
def ifThenElseText (test thenValue elseValue : String) : String :=
  "(" ++ test ++ "\n       ? " ++ thenValue ++ "\n       : " ++ elseValue ++ ")"

/-- The text of a boolean. -/
def Cpp.text : Cpp → String
  | lit value => if value then "true" else "false"
  | call text => text
  | nonzero text => "(" ++ text ++ " != 0)"
  | compare op arg1 arg2 => "((" ++ arg1 ++ ") " ++ op.text ++ " (" ++ arg2 ++ "))"
  | masked text mask value op =>
    "(" ++ text ++ " & " ++ hexText mask.toNat ++ ")  " ++ (match op with | .eq => "==" | .ne => "!=") ++
      "\n          " ++ hexText value.toNat
  | and a b => a.text ++ " &&\n       (" ++ b.text ++ ")"
  | or a b => a.text ++ " ||\n       (" ++ b.text ++ ")"
  | not a => "!(" ++ a.text ++ ")"
  | cond test thenValue elseValue => ifThenElseText test.text thenValue.text elseValue.text
  | paren a => "(" ++ a.text ++ ")"

/-! ## Conversions -/

/-- The types of parameters and results. -/
inductive ExpType
  | bool
  | uint32
  | register
  | registerList
deriving DecidableEq

/-- `options`, with the parameters that `InstallParameter` has installed. -/
structure Options where
  inst : Option String
  cppNamespace : Option String
  params : List (String × ExpType)

def Options.default : Options := ⟨none, none, []⟩

/-- A `BitField`: what it is a field of, and its bits. -/
structure Field where
  name : Options → Option String
  hi : ℕ
  lo : ℕ

namespace Field

def numBits (field : Field) : ℕ := field.hi - field.lo + 1

def mask (field : Field) : ℕ := (2 ^ field.numBits - 1) <<< field.lo

/-- `BitField.to_uint32`. -/
def toUint32 (field : Field) (options : Options) : Option String := do
  let name ← field.name options
  let maskedValue := "(" ++ name ++ " & " ++ hexText field.mask ++ ")"
  return if field.lo ≠ 0 then "(" ++ maskedValue ++ " >> " ++ toString field.lo ++ ")" else maskedValue

end Field

/-- An expression, as the others see it. -/
structure Methods where
  toBool : Options → Option Cpp
  toUint32 : Options → Option String
  toRegister : Options → Option String
  toRegisterList : Options → Option String
  toBitfield : Option Field
  /-- It is a `Literal`. -/
  literal : Option ℕ
  /-- It is a `TypeCast`. -/
  isTypeCast : Bool

namespace Methods

/-- The methods of `BitExpr`, for a `to_uint32`. -/
def base (toUint32 : Options → Option String) : Methods where
  toBool options := (toUint32 options).map .nonzero
  toUint32 := toUint32
  toRegister options := (toUint32 options).map fun text => "Register(" ++ text ++ ")"
  toRegisterList _ := none
  toBitfield := some ⟨toUint32, 31, 0⟩
  literal := none
  isTypeCast := false

/-- `IdRef` has the conversions of its value. -/
def idRef (value : Methods) : Methods := { value with literal := none, isTypeCast := false }

/-- The texts of the arguments with an operator between them. -/
def joined (op : String) (first : Methods) (rest : List Methods) (options : Options) : Option String := do
  let value ← first.toUint32 options
  let value ← rest.foldlM (fun value arg => (arg.toUint32 options).map (value ++ op ++ ·)) value
  return "(" ++ value ++ ")"

def andExp (first : Methods) (rest : List Methods) : Methods :=
  { base (joined " & " first rest) with
    toBool := fun options => do
      let value ← first.toBool options
      rest.foldlM (fun value arg => (arg.toBool options).map (.and value)) (.paren value)
    toRegister := fun _ => none }

/-- `OrExp`.  Its `to_uint32` always raises an exception: it takes the first of `self.args`, which is a
method. -/
def orExp (first : Methods) (rest : List Methods) : Methods :=
  { base fun _ => none with
    toBool := fun options => do
      let value ← first.toBool options
      rest.foldlM (fun value arg => (arg.toBool options).map (.or value)) (.paren value) }

def compareExp (op : CompareOp) (arg1 arg2 : Methods) : Methods :=
  { base fun _ => none with
    toBool := fun options => do return .compare op (← arg1.toUint32 options) (← arg2.toUint32 options) }

/-- `ShiftOp`, with `<<` or `>>`. -/
def shiftOp (left : Bool) (arg1 arg2 : Methods) : Methods :=
  base fun options => do
    return "(" ++ (← arg1.toUint32 options) ++ (if left then " << " else " >> ") ++
      (← arg2.toUint32 options) ++ ")"

/-- The names of `DGEN_TYPE_TO_CPP_TYPE`. -/
def castText (int : Bool) (text : String) : String :=
  "static_cast<" ++ (if int then "int32_t" else "uint32_t") ++ ">(" ++ text ++ ")"

/-- `TypeCast`, to `int` or `unsigned`. -/
def typeCast (int : Bool) (arg : Methods) : Methods :=
  { base (fun options => (arg.toUint32 options).map (castText int)) with isTypeCast := true }

def isSubtractBitfields (plus : Bool) (arg1 arg2 : Methods) : Bool :=
  !plus && (!arg1.isTypeCast && arg1.toBitfield.isSome) && (!arg2.isTypeCast && arg2.toBitfield.isSome)

/-- `AddOp`, with `+` or `-`. -/
def addOp (plus : Bool) (arg1 arg2 : Methods) : Methods :=
  { base fun options =>
      if isSubtractBitfields plus arg1 arg2 then do
        -- the constructor of `TypeCast` converts its argument
        let _ ← arg1.toUint32 .default
        let _ ← arg2.toUint32 .default
        return castText true (← arg1.toUint32 options) ++ " - " ++
          castText true (← arg2.toUint32 options)
      else do
        return (← arg1.toUint32 options) ++ (if plus then " + " else " - ") ++
          (← arg2.toUint32 options) with
    toRegisterList := fun options => do
      return (← arg1.toRegisterList options) ++ (if plus then ".\n   Add(" else ".\n   Remove(") ++
        (← arg2.toRegister options) ++ ")" }

/-- Operators of `MulOp`. -/
inductive MulOperator
  | mul
  | div
  | mod

/-- `_CPP_MULOP`. -/
def MulOperator.text : MulOperator → String
  | mul => "*"
  | div => "/"
  | mod => "%%"

def mulOp (op : MulOperator) (arg1 arg2 : Methods) : Methods :=
  base fun options => do
    return (← arg1.toUint32 options) ++ " " ++ op.text ++ " " ++ (← arg2.toUint32 options)

/-- `Concat`.  Options are not handed on to the first argument, nor to the bit fields of the others. -/
def concat (first : Methods) (rest : List Methods) : Methods :=
  let toUint32 := fun _ : Options => do
    let value ← first.toUint32 .default
    rest.foldlM (fun value arg => do
      let bitfield ← arg.toBitfield
      let text ← bitfield.toUint32 .default
      return "(((" ++ value ++ ") << " ++ toString bitfield.numBits ++ ") | " ++ text ++ ")") value
  { base toUint32 with
    toBitfield := match (first :: rest).mapM Methods.toBitfield with
      | none => some ⟨toUint32, 31, 0⟩
      | some fields =>
        let bits := (fields.map Field.numBits).sum
        if 32 < bits then some ⟨toUint32, 31, 0⟩ else some ⟨toUint32, bits - 1, 0⟩ }

def bitSet (values : List Methods) : Methods :=
  { base fun _ => none with
    toRegisterList := fun options =>
      values.foldlM (fun code value =>
        (value.toRegister options).map fun text => code ++ ".\n   Add(" ++ text ++ ")") "RegisterList()" }

def boolValue (value : Bool) : Methods :=
  { base fun _ => some (if value then "1" else "0") with toBool := fun _ => some (.lit value) }

/-- `BitPattern`, for the bits of a named value.  A pattern without significant bits is `true`, whatever
its operator. -/
def bitPattern (mask value : Word) (op : PatternOp) (name : Options → Option String) : Methods :=
  { base fun _ => none with
    toBool := fun options =>
      if mask = 0 then some (.lit true) else (name options).map fun text => .masked text mask value op }

/-- `InSet`, from the tests that `_simplify_test` builds. -/
def inSet (tests : List Methods) : Methods :=
  let simplified := match tests with
    | [] => boolValue false
    | [test] => test
    | test :: tests => orExp test tests
  { base simplified.toUint32 with
    toBool := simplified.toBool
    toRegister := fun _ => none
    toBitfield := none }

def ifThenElse (test thenValue elseValue : Methods) : Methods :=
  { base fun options => do
      return ifThenElseText (← test.toBool options).text (← thenValue.toUint32 options)
        (← elseValue.toUint32 options) with
    toBool := fun options => do
      return .cond (← test.toBool options) (← thenValue.toBool options) (← elseValue.toBool options)
    toRegisterList := fun options => do
      return ifThenElseText (← test.toBool options).text (← thenValue.toRegisterList options)
        (← elseValue.toRegisterList options) }

/-- `ParenthesizedExp`. -/
def parenthesized (exp : Methods) : Methods where
  toBool options := (exp.toBool options).map .paren
  toUint32 options := (exp.toUint32 options).map fun text => "(" ++ text ++ ")"
  toRegister options := (exp.toRegister options).map fun text => "(" ++ text ++ ")"
  toRegisterList options := (exp.toRegisterList options).map fun text => "(" ++ text ++ ")"
  toBitfield := exp.toBitfield
  literal := none
  isTypeCast := false

def negatedTest (test : Methods) : Methods :=
  { base fun options => (test.toBool options).map fun test => "((uint32_t) " ++ test.not.text ++ ")" with
    toBool := fun options => (test.toBool options).map .not
    toRegister := fun _ => none
    toBitfield := none }

/-- `Literal`. -/
def literalValue (value : ℕ) : Methods :=
  { base fun _ => some (toString value) with literal := some value }

def bitField (name : Methods) (hi lo : ℕ) : Methods :=
  { base (Field.toUint32 ⟨name.toUint32, hi, lo⟩) with toBitfield := some ⟨name.toUint32, hi, lo⟩ }

def instruction : Methods :=
  base fun options => some ((options.inst.getD "inst") ++ ".Bits()")

/-! ## Calls -/

/-- `to_type`; a call only takes texts as arguments. -/
def toType (arg : Methods) (type : ExpType) (options : Options) : Option String :=
  match type with
  | .bool => (arg.toBool options).map Cpp.text
  | .uint32 => arg.toUint32 options
  | .register => arg.toRegister options
  | .registerList => arg.toRegisterList options

/-- `_FUNCTION_SIGNATURE_MAP`. -/
def functionSignatures (name : String) : Option (List (List ExpType × ExpType)) :=
  if name = "Add" then some [([.registerList, .register], .registerList)]
  else if name = "Contains" then some [([.registerList, .register], .bool)]
  else if name = "Union" then some [([.registerList, .registerList], .registerList)]
  else if name = "NumGPRs" then some [([.registerList], .uint32)]
  else if name = "SmallestGPR" then some [([.registerList], .uint32)]
  else if name = "Register" then some [([.uint32], .register)]
  else if name = "RegisterList" then some [([], .registerList), ([.uint32], .registerList)]
  else none

/-- `matches_signature`: the arguments, or `none` in the result if the call does not match. -/
def matchesSignature (args : List Methods) (returnType : ExpType) (options : Options)
    (signature : List ExpType × ExpType) : Option (Option (List String)) :=
  if signature.2 ≠ returnType ∨ signature.1.length ≠ args.length then some none
  else ((signature.1.zip args).mapM fun (param : ExpType × Methods) =>
    param.2.toType param.1 options).map some

def extractExtendArgs (args : List Methods) (returnType : ExpType) : Option (ℕ × Methods × ℕ) :=
  if returnType ≠ .uint32 then none
  else match args with
    | [x, i] => do
      let bf ← x.toBitfield
      let i ← i.literal
      if 32 < i ∨ i < bf.numBits then none else some (i, x, bf.numBits)
    | _ => none

/-- `_TranslateSignExtend`, of a value with `len` bits to `i` bits. -/
def signExtendText (i : ℕ) (value : String) (len : ℕ) : String :=
  if i = len then value
  else
    "(((" ++ value ++ ") & " ++ hexText (1 <<< (len - 1)) ++ ")\n       ? ((" ++ value ++ ") | " ++
      hexText ((2 ^ (i - len) - 1) <<< len) ++ ")\n       : " ++ value ++ ")"

/-- The functions of `_FUNCTION_TRANSLATION_MAP`, if there is one for the call.  `_TranslateZeroExtend`
raises an exception where it applies: it does not take its value out of the arguments. -/
def translate (name : String) (args : List Methods) (returnType : ExpType) (options : Options) :
    Option (Option String) :=
  if (name, returnType) ∈ options.params ∧ args.length = 0 then some (some name)
  else match extractExtendArgs args returnType with
    | none => some none
    | some (i, x, len) =>
      if name = "SignExtend" then (x.toUint32 options).map fun value => some (signExtendText i value len)
      else if name = "ZeroExtend" then none
      else some none

/-- `_to_call`.  All signatures are tried, and the arguments are those of the last one. -/
def toCall (name : String) (args : List Methods) (returnType : ExpType) (options : Options) :
    Option String := do
  match ← translate name args returnType options with
  | some text => return text
  | none =>
    let texts ← match functionSignatures name with
      | none => args.mapM fun arg => arg.toUint32 options
      | some signatures => do (← signatures.mapM (matchesSignature args returnType options)).getLast?.join
    return (options.cppNamespace.getD "nacl_arm_dec") ++ "::" ++ name ++
      "(" ++ ", ".intercalate texts ++ ")"

def functionCall (name : String) (args : List Methods) : Methods where
  toBool options := (toCall name args .bool options).map .call
  toUint32 := toCall name args .uint32
  toRegister := toCall name args .register
  toRegisterList := toCall name args .registerList
  toBitfield := none
  literal := none
  isTypeCast := false

end Methods

/-! ## Expressions -/

/-- An expression that has been constructed.  `AndExp`, `OrExp` and `Concat` have a first argument. -/
inductive BitExpr
  | idRef (name : String) (value : BitExpr)
  | andExp (first : BitExpr) (rest : List BitExpr)
  | orExp (first : BitExpr) (rest : List BitExpr)
  | compareExp (op : CompareOp) (arg1 arg2 : BitExpr)
  | shiftOp (left : Bool) (arg1 arg2 : BitExpr)
  | addOp (plus : Bool) (arg1 arg2 : BitExpr)
  | mulOp (op : Methods.MulOperator) (arg1 arg2 : BitExpr)
  | concat (first : BitExpr) (rest : List BitExpr)
  | bitSet (values : List BitExpr)
  | typeCast (int : Bool) (arg : BitExpr)
  | functionCall (name : String) (args : List BitExpr)
  | inUintSet (value : BitExpr) (bitset : List BitExpr)
  | inBitSet (value : BitExpr) (bitset : List String)
  | ifThenElse (test thenValue elseValue : BitExpr)
  | parenthesized (exp : BitExpr)
  | literal (value : ℕ)
  | boolValue (value : Bool)
  | negatedTest (test : BitExpr)
  | bitField (name : BitExpr) (hi lo : ℕ)
  | instruction
  | bitPattern (mask value : Word) (op : PatternOp) (name : BitExpr)

namespace BitExpr

/-- `_simplify_test` of `InBitSet`. -/
def patternTest (value : Methods) (pattern : String) : Option Methods := do
  let column ← value.toBitfield
  let p ← (BitPattern.parse pattern.toList column.hi column.lo (some ()) : Option (BitPattern Unit))
  return .bitPattern p.mask p.value p.op column.name

mutual

/-- The conversions of an expression. -/
def methods : BitExpr → Methods
  | idRef _ value => .idRef value.methods
  | andExp first rest => .andExp first.methods (methodsList rest)
  | orExp first rest => .orExp first.methods (methodsList rest)
  | compareExp op arg1 arg2 => .compareExp op arg1.methods arg2.methods
  | shiftOp left arg1 arg2 => .shiftOp left arg1.methods arg2.methods
  | addOp plus arg1 arg2 => .addOp plus arg1.methods arg2.methods
  | mulOp op arg1 arg2 => .mulOp op arg1.methods arg2.methods
  | concat first rest => .concat first.methods (methodsList rest)
  | bitSet values => .bitSet (methodsList values)
  | typeCast int arg => .typeCast int arg.methods
  | functionCall name args => .functionCall name (methodsList args)
  | inUintSet value bitset => .inSet ((methodsList bitset).map (.compareExp .eq value.methods))
  | inBitSet value bitset =>
    match bitset.mapM (patternTest value.methods) with
    | none => .base fun _ => none
    | some tests => .inSet tests
  | ifThenElse test thenValue elseValue => .ifThenElse test.methods thenValue.methods elseValue.methods
  | parenthesized exp => .parenthesized exp.methods
  | literal value => .literalValue value
  | boolValue value => .boolValue value
  | negatedTest test => .negatedTest test.methods
  | bitField name hi lo => .bitField name.methods hi lo
  | instruction => .instruction
  | bitPattern mask value op name => .bitPattern mask value op name.methods.toUint32

def methodsList : List BitExpr → List Methods
  | [] => []
  | exp :: exps => exp.methods :: methodsList exps

end

def negate : BitExpr → BitExpr
  | compareExp op arg1 arg2 => compareExp op.negated arg1 arg2
  | ifThenElse test thenValue elseValue => ifThenElse test elseValue thenValue
  | parenthesized exp => parenthesized exp.negate
  | negatedTest test => test
  | bitPattern mask value op name => bitPattern mask value (match op with | .eq => .ne | .ne => .eq) name
  | exp => negatedTest exp

end BitExpr

/-- The safety levels of a `SafetyAction`. -/
inductive SafetyLevel
  | uninitialized
  | unknown
  | undefined
  | notImplemented
  | unpredictable
  | deprecated
  | forbidden
  | forbiddenOperands
  | decoderError
  | mayBeSafe
deriving DecidableEq

def safetyActionToBool (test : BitExpr) (action : SafetyLevel) (options : Options) : Option Cpp :=
  if action = .mayBeSafe then test.methods.toBool options else test.negate.methods.toBool options

end DecoderGen

end SandboxingNaCl
