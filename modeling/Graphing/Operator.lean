import Graphing.Text.Basic
import Graphing.Binary64.Power

/-!
# Operators, built-in functions and the numbers they work on

The operators and functions of the formula language are closed lists. What they
compute is left to an instance of `Arithmetic`, so that trees can be lowered
and evaluated over any kind of number; `Binary64` is the one that is plotted.
-/

namespace Graphing

/-- The operators that join two formulas. -/
inductive Operator where
  | add
  | sub
  | mul
  | div
  | pow
  | mod
  deriving DecidableEq

namespace Operator

/-- The operator as written in a formula. -/
def symbol : Operator → String
  | add => "+"
  | sub => "-"
  | mul => "*"
  | div => "/"
  | pow => "^"
  | mod => "%"

/-- How strongly an operator binds; a higher number binds tighter. -/
def precedence : Operator → Nat
  | add => 1
  | sub => 1
  | mul => 2
  | div => 2
  | mod => 2
  | pow => 3

/-- Products and quotients, whose constants may be brought together. -/
def isMultiplicative : Operator → Bool
  | mul => true
  | div => true
  | _ => false

end Operator

/-- The functions of one argument that a formula may call. -/
inductive Builtin where
  | sin
  | cos
  | tan
  | abs
  | ln
  | log
  | sqrt
  deriving DecidableEq

namespace Builtin

/-- Every built-in function, in the order in which messages list them. -/
def all : List Builtin :=
  [sin, tan, cos, abs, ln, log, sqrt]

/-- The canonical name, in small letters. -/
def name : Builtin → String
  | sin => "sin"
  | cos => "cos"
  | tan => "tan"
  | abs => "abs"
  | ln => "ln"
  | log => "log"
  | sqrt => "sqrt"

/-- The function that a name stands for, whatever the case of its letters. -/
def ofName? (s : String) : Option Builtin :=
  all.find? fun f => Text.equalIgnoringCase f.name s

/-- The canonical names, with commas between them. -/
def allNames : String :=
  String.intercalate "," (all.map name)

end Builtin

/-- The numbers of a formula: two constants, negation, the operators and the
built-in functions, and a test for the exponent whose power is a square. -/
class Arithmetic (α : Type) where
  pi : α
  e : α
  neg : α → α
  apply : Operator → α → α → α
  call : Builtin → α → α
  isTwo : α → Bool

instance : Arithmetic Binary64 where
  pi := Binary64.pi
  e := Binary64.e
  neg := Binary64.neg
  apply
    | .add => Binary64.add
    | .sub => Binary64.sub
    | .mul => Binary64.mul
    | .div => Binary64.div
    | .pow => Binary64.pow
    | .mod => Binary64.rem
  call
    | .sin => Binary64.sin
    | .cos => Binary64.cos
    | .tan => Binary64.tan
    | .abs => Binary64.abs
    | .ln => Binary64.ln
    | .log => Binary64.log10
    | .sqrt => Binary64.sqrt
  isTwo x := Binary64.ieeeEq x Binary64.two

/-- The name of the variable. -/
def variableName : String := "x"

/-- The number that a constant's name stands for: `e` as it is, `pi` in any
mixture of capitals and small letters. -/
def constant? {α : Type} [Arithmetic α] (name : String) : Option α :=
  if name = "e" then some Arithmetic.e
  else if Text.equalIgnoringCase name "pi" then some Arithmetic.pi
  else none

end Graphing
