import Graphing.Term.Basic

/-!
# Terms as functions

`closure` turns a term into a function once, so that sampling it does not look at
the term again. Operands that are the variable or a constant are taken directly, and
a power with the exponent two becomes one multiplication.
-/

namespace Graphing.Term

variable {α : Type}

/-- Joins two operands, given as terms and as functions, by the shape of the
terms. -/
def joinShapes (f : α → α → α) (left right : Term α) (l r : α → α) : α → α :=
  match left, right with
  | .var, .var => fun x => f x x
  | .var, .const b => fun x => f x b
  | .const a, .var => fun x => f a x
  | .const a, _ => fun x => f a (r x)
  | _, .const b => fun x => f (l x) b
  | _, _ => fun x => f (l x) (r x)

variable [Arithmetic α]

/-- A power, by the shape of its operands. -/
def powerShapes (base exponent : Term α) (l r : α → α) : α → α :=
  match base, exponent with
  | .var, .const c =>
      if Arithmetic.isTwo c then fun x => Arithmetic.apply .mul x x
      else joinShapes (Arithmetic.apply .pow) base exponent l r
  | _, .const c =>
      if Arithmetic.isTwo c then
        fun x =>
          let b := l x
          Arithmetic.apply .mul b b
      else joinShapes (Arithmetic.apply .pow) base exponent l r
  | _, _ => joinShapes (Arithmetic.apply .pow) base exponent l r

/-- The function of a term. -/
def closure : Term α → α → α
  | .const value => fun _ => value
  | .var => fun x => x
  | .neg .var => fun x => Arithmetic.neg x
  | .neg operand =>
      let f := operand.closure
      fun x => Arithmetic.neg (f x)
  | .call function .var => Arithmetic.call function
  | .call function argument =>
      let f := argument.closure
      fun x => Arithmetic.call function (f x)
  | .binary .pow base exponent => powerShapes base exponent base.closure exponent.closure
  | .binary op left right =>
      joinShapes (Arithmetic.apply op) left right left.closure right.closure

end Graphing.Term
