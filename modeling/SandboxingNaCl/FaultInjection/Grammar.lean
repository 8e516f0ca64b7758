import Mathlib.Algebra.Ring.Nat
import SandboxingNaCl.Lib.CountedRuns

/-!
# The grammar of `NACL_FAULT_INJECTION`

The configurations that `fault_injection.h` documents, as trees: what each looks like as a string,
and which sequence of symbols its fault control expressions generate.  `<digits>` is an integer as
it is written in C, and one that is too large for a `uintptr_t` stands for the largest, as `@`
does.  An `F` right behind a hexadecimal number would be one more digit of it.
-/

namespace SandboxingNaCl

namespace FaultInjection

open CountedRuns

/-- `~(uintptr_t) 0`. -/
def uintptrMax : ℕ := 2 ^ 64 - 1

/-- The value of a digit, or 36 for what is none. -/
def digitValue (c : Char) : ℕ :=
  if c.isDigit then c.toNat - '0'.toNat
  else if c.isLower then c.toNat - 'a'.toNat + 10
  else if c.isUpper then c.toNat - 'A'.toNat + 10
  else 36

def numeral (base : ℕ) (digits : List Char) : ℕ :=
  digits.foldl (fun n c => base * n + digitValue c) 0

inductive Radix
  | octal
  | decimal
  /-- With `0x` or `0X` in front. -/
  | hex (upper : Bool)
deriving DecidableEq

def Radix.base : Radix → ℕ
  | octal => 8
  | decimal => 10
  | hex _ => 16

theorem Radix.base_le (radix : Radix) : radix.base ≤ 16 := by
  cases radix with
  | octal => decide
  | decimal => decide
  | hex upper => exact Nat.le_refl 16

/-- What is in front of the digits. -/
def Radix.intro : Radix → List Char
  | octal => ['0']
  | decimal => []
  | hex upper => ['0', if upper then 'X' else 'x']

structure Digits where
  radix : Radix
  chars : List Char
  isDigit : ∀ c ∈ chars, digitValue c < radix.base
  nonempty : radix = .octal ∨ chars ≠ []
  noZero : radix = .decimal → chars.head? ≠ some '0'

def Digits.render (d : Digits) : List Char := d.radix.intro ++ d.chars

def Digits.value (d : Digits) : ℕ := min (numeral d.radix.base d.chars) uintptrMax

def Digits.IsHex (d : Digits) : Prop := d.radix.base = 16

inductive Count
  | digits (d : Digits)
  /-- `@`. -/
  | infinite

def Count.render : Count → List Char
  | digits d => d.render
  | infinite => ['@']

def Count.value : Count → ℕ
  | digits d => d.value
  | infinite => uintptrMax

def Count.EndsInHex : Count → Prop
  | digits d => d.IsHex
  | infinite => False

/-- What becomes of a call: the real function is called, or it fails with a value. -/
inductive Symbol
  | pass
  | fault (value : ℕ)

def Symbol.isFault : Symbol → Bool
  | pass => false
  | fault _ => true

inductive PassOrFail
  | pass (count : Count)
  | fail (value : Option Digits) (count : Option Count)

namespace PassOrFail

def render : PassOrFail → List Char
  | pass count => 'P' :: count.render
  | fail value count =>
    'F' :: (value.elim [] Digits.render ++ count.elim [] fun count => '/' :: count.render)

def run : PassOrFail → Symbol × ℕ
  | pass count => (.pass, count.value)
  | fail value count => (.fault (value.elim 0 Digits.value), count.elim 1 Count.value)

def EndsInHex : PassOrFail → Prop
  | pass count => count.EndsInHex
  | fail _ (some count) => count.EndsInHex
  | fail value none => ∃ d ∈ value, d.IsHex

def IsFail : PassOrFail → Prop
  | pass _ => False
  | fail _ _ => True

end PassOrFail

inductive PassOrFailSeq
  | single (p : PassOrFail)
  | cons (p : PassOrFail) (plus : Bool) (later : PassOrFailSeq)

namespace PassOrFailSeq

def head : PassOrFailSeq → PassOrFail
  | single p => p
  | cons p _ _ => p

def render : PassOrFailSeq → List Char
  | single p => p.render
  | cons p plus later => p.render ++ ((if plus then ['+'] else []) ++ later.render)

def runs : PassOrFailSeq → List (Symbol × ℕ)
  | single p => [p.run]
  | cons p _ later => p.run :: later.runs

/-- There is a `+` between a hexadecimal number and an `F`. -/
def Separated : PassOrFailSeq → Prop
  | single _ => True
  | cons p plus later => (p.EndsInHex → later.head.IsFail → plus = true) ∧ later.Separated

end PassOrFailSeq

structure FaultControlExpression where
  threadSpecific : Bool
  seq : PassOrFailSeq
  separated : seq.Separated

def FaultControlExpression.render (expr : FaultControlExpression) : List Char :=
  (if expr.threadSpecific then 'T' else 'G') :: expr.seq.render

/-- The symbol of the `n`-th call: once the sequence is exhausted, it is always to pass. -/
def FaultControlExpression.symbol (expr : FaultControlExpression) (n : ℕ) : Symbol :=
  (generated expr.seq.runs)[n]?.getD .pass

/-- A pair of a site's name and its fault control expression. -/
structure Entry where
  siteName : List Char
  isName : ∀ c ∈ siteName, c ≠ '=' ∧ c ≠ ',' ∧ c ≠ ':'
  expr : FaultControlExpression

def Entry.render (entry : Entry) : List Char := entry.siteName ++ '=' :: entry.expr.render

inductive Separator
  | comma
  | colon

def Separator.char : Separator → Char
  | comma => ','
  | colon => ':'

/-- The value of `NACL_FAULT_INJECTION`. -/
inductive Config
  | empty
  | list (first : Entry) (later : List (Separator × Entry))

namespace Config

def entries : Config → List Entry
  | empty => []
  | list first later => first :: later.map Prod.snd

def render : Config → List Char
  | empty => []
  | list first later => first.render ++ later.flatMap fun (sep, entry) => sep.char :: entry.render

def exprOf (config : Config) (site : List Char) : Option FaultControlExpression :=
  (config.entries.find? (·.siteName = site)).map Entry.expr

end Config

/-! ## The calls of a run -/

/-- What threads do that concerns the sites, the calls of `NaClFaultInjectionFaultP` and of
`NaClFaultInjectionPreThreadExitCleanup`. -/
inductive Event
  | faultP (tid : ℕ) (site : List Char)
  | exit (tid : ℕ)

/-- The calls for a site of a thread, since it was started.  The latest event is the first. -/
def threadCalls (tid : ℕ) (site : List Char) : List Event → ℕ
  | [] => 0
  | .faultP tid' site' :: past =>
    if tid' = tid ∧ site' = site then threadCalls tid site past + 1 else threadCalls tid site past
  | .exit tid' :: past => if tid' = tid then 0 else threadCalls tid site past

/-- The calls for a site of all threads. -/
def globalCalls (site : List Char) : List Event → ℕ
  | [] => 0
  | .faultP _ site' :: past =>
    if site' = site then globalCalls site past + 1 else globalCalls site past
  | .exit _ :: past => globalCalls site past

namespace Config

variable (symbol : FaultControlExpression → ℕ → Symbol) (config : Config)

/-- The symbol for a thread's call after the events of the past. -/
def symbolAt (past : List Event) (tid : ℕ) (site : List Char) : Symbol :=
  match config.exprOf site with
  | none => .pass
  | some expr =>
    symbol expr (if expr.threadSpecific then threadCalls tid site past else globalCalls site past)

/-- The value of the last `F` among the symbols for a thread's calls. -/
def lastValue (tid : ℕ) : List Event → ℕ
  | [] => 0
  | .faultP tid' site :: past =>
    if tid' = tid then
      match symbolAt symbol config past tid site with
      | .pass => lastValue tid past
      | .fault value => value
    else lastValue tid past
  | .exit _ :: past => lastValue tid past

end Config

end FaultInjection

end SandboxingNaCl
