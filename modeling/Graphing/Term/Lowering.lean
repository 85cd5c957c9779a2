import Graphing.Error
import Graphing.Expr.Basic
import Graphing.Term.Basic

/-!
# Lowering formulas to terms

Names are resolved, parentheses and plus signs vanish, and whatever does not read
the variable becomes one constant. In addition the constants of a product or
quotient are brought together when the right operand is itself a product or
quotient in parentheses that begins with a constant:

* `a * (b * r)` becomes `(a * b) * r`
* `a * (b / r)` becomes `(a * b) / r`
* `a / (b * r)` becomes `(a / b) / r`
* `a / (b / r)` becomes `(a / b) * r`

These identities hold of real numbers; with rounding the last digits may change.
-/

namespace Graphing

namespace Term

variable {α : Type} [Arithmetic α]

/-- The opposite of a term, worked out if it is constant. -/
def negate : Term α → Term α
  | .const value => .const (Arithmetic.neg value)
  | term => .neg term

/-- A function applied to a term, worked out if it is constant. -/
def applyBuiltin (function : Builtin) : Term α → Term α
  | .const value => .const (Arithmetic.call function value)
  | term => .call function term

/-- Two terms joined by an operator, worked out if both are constant. -/
def join (op : Operator) : Term α → Term α → Term α
  | .const a, .const b => .const (Arithmetic.apply op a b)
  | left, right => .binary op left right

/-- The operator in front of `r` once `a outer (b inner r)` is written as
`(a outer b) … r`. -/
def regroup : Operator → Operator → Operator
  | .div, .mul => .div
  | .div, .div => .mul
  | _, inner => inner

end Term

/-- A lowered formula. If the formula, parentheses aside, is a product or quotient,
its operator and lowered operands are kept beside the term. -/
structure Lowered (α : Type) where
  term : Term α
  product : Option (Operator × Term α × Term α)

namespace Lowered

variable {α : Type} [Arithmetic α]

/-- A term that is no product. -/
def plain (term : Term α) : Lowered α :=
  ⟨term, none⟩

/-- Joins a lowered left operand with a lowered right one, bringing constants
together where the rules allow it. -/
def combine (op : Operator) (left : Term α) (right : Lowered α) : Term α :=
  match op.isMultiplicative, left, right.product with
  | true, .const a, some (inner, .const b, rest) =>
      Term.join (Term.regroup op inner) (.const (Arithmetic.apply op a b)) rest
  | _, _, _ => Term.join op left right.term

/-- Two lowered operands joined by an operator. -/
def binary (op : Operator) (left right : Lowered α) : Lowered α :=
  ⟨combine op left.term right,
    if op.isMultiplicative then some (op, left.term, right.term) else none⟩

end Lowered

namespace Expr

variable {α : Type} [Arithmetic α]

/-- What a name stands for. -/
def lowerName (name : String) : Except CompileError (Term α) :=
  if name = variableName then .ok .var
  else
    match constant? name with
    | some value => .ok (.const value)
    | none => .error (.unknownSymbol name)

/-- Lowers a formula, keeping its outer product. The first name without a meaning,
from left to right, is the error. -/
def lowered : Expr α → Except CompileError (Lowered α)
  | .lit value => .ok (.plain (.const value))
  | .ident name =>
      match lowerName name with
      | .error error => .error error
      | .ok term => .ok (.plain term)
  | .group inner => inner.lowered
  | .pos operand =>
      match operand.lowered with
      | .error error => .error error
      | .ok inner => .ok (.plain inner.term)
  | .neg operand =>
      match operand.lowered with
      | .error error => .error error
      | .ok inner => .ok (.plain inner.term.negate)
  | .call name argument =>
      match Builtin.ofName? name with
      | none => .error (.unknownFunction name)
      | some function =>
          match argument.lowered with
          | .error error => .error error
          | .ok inner => .ok (.plain (inner.term.applyBuiltin function))
  | .binary op left right =>
      match left.lowered with
      | .error error => .error error
      | .ok left =>
          match right.lowered with
          | .error error => .error error
          | .ok right => .ok (.binary op left right)

theorem lowered_ident_eq_ok_iff {name : String} {result : Lowered α} :
    (Expr.ident name : Expr α).lowered = .ok result ↔
      ∃ term, lowerName name = .ok term ∧ result = .plain term := by
  rw [lowered]
  cases (lowerName name : Except CompileError (Term α)) with
  | error error => simp
  | ok term => simp [eq_comm]

/-- The term of a formula. -/
def lower (formula : Expr α) : Except CompileError (Term α) :=
  match formula.lowered with
  | .error error => .error error
  | .ok result => .ok result.term

end Expr

end Graphing
