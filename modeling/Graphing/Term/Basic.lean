import Graphing.Operator

/-!
# Terms

A term is a formula whose names are resolved and whose signs and parentheses
without meaning are gone. Evaluating a term cannot fail.
-/

namespace Graphing

/-- A resolved formula of one variable. -/
inductive Term (α : Type) where
  /-- A number known beforehand. -/
  | const (value : α)
  /-- The variable. -/
  | var
  /-- The opposite of a term. -/
  | neg (operand : Term α)
  /-- Two terms joined by an operator. -/
  | binary (op : Operator) (left right : Term α)
  /-- A built-in function applied to a term. -/
  | call (function : Builtin) (argument : Term α)
  deriving DecidableEq

namespace Term

variable {α : Type}

/-- The number that a constant term is. -/
def constant? : Term α → Option α
  | .const value => some value
  | _ => none

/-- The number of nodes. -/
def size : Term α → Nat
  | .const _ => 1
  | .var => 1
  | .neg operand => 1 + operand.size
  | .binary _ left right => 1 + left.size + right.size
  | .call _ argument => 1 + argument.size

/-- The value of a term at a point. -/
def eval [Arithmetic α] (x : α) : Term α → α
  | .const value => value
  | .var => x
  | .neg operand => Arithmetic.neg (operand.eval x)
  | .binary op left right => Arithmetic.apply op (left.eval x) (right.eval x)
  | .call function argument => Arithmetic.call function (argument.eval x)

/-- Whether two terms have one shape and constants of equal value. A term that
holds a NaN differs from itself. -/
def ieeeEq : Term Binary64 → Term Binary64 → Bool
  | .const a, .const b => a.ieeeEq b
  | .var, .var => true
  | .neg a, .neg b => a.ieeeEq b
  | .binary op a b, .binary op' a' b' => op == op' && a.ieeeEq a' && b.ieeeEq b'
  | .call f a, .call g b => f == g && a.ieeeEq b
  | _, _ => false

end Term

end Graphing
