import Graphing.Operator

/-!
# Syntax trees of formulas

Names are kept as written; what they stand for is settled when a tree is
lowered. Two trees are equal if they have the same shape, operators and names and
literals of the same word, so `0` and `-0` are different literals and every tree
equals itself.
-/

namespace Graphing

/-- A formula over literals of a type. -/
inductive Expr (α : Type) where
  /-- A number. -/
  | lit (value : α)
  /-- The variable or a named constant. -/
  | ident (name : String)
  /-- A minus sign in front. -/
  | neg (operand : Expr α)
  /-- A plus sign in front. -/
  | pos (operand : Expr α)
  /-- Two formulas joined by an operator. -/
  | binary (op : Operator) (left right : Expr α)
  /-- A call with one argument. -/
  | call (name : String) (argument : Expr α)
  /-- A formula in parentheses. -/
  | group (inner : Expr α)

/-- The formulas that are plotted. -/
abbrev Formula := Expr Binary64

/-- The formula without the parentheses around it. -/
def Expr.ungrouped {α : Type} : Expr α → Expr α
  | .group inner => inner.ungrouped
  | formula => formula

/-- Whether two formulas are equal. Parentheses count, and literals are compared as
words, not as values. -/
def Expr.equal : Formula → Formula → Bool
  | .lit a, .lit b => a.bits == b.bits
  | .ident a, .ident b => a == b
  | .neg a, .neg b => a.equal b
  | .pos a, .pos b => a.equal b
  | .binary op a b, .binary op' a' b' => op == op' && a.equal a' && b.equal b'
  | .call f a, .call g b => f == g && a.equal b
  | .group a, .group b => a.equal b
  | _, _ => false

theorem Expr.equal_eq_true_iff {a b : Formula} : a.equal b = true ↔ a = b := by
  induction a generalizing b with
  | lit value =>
      cases b with
      | lit other =>
          cases value
          cases other
          simp [equal]
      | _ => simp [equal]
  | ident name => cases b <;> simp [equal]
  | neg operand ih => cases b <;> simp [equal, ih]
  | pos operand ih => cases b <;> simp [equal, ih]
  | binary op left right ihLeft ihRight =>
      cases b <;> simp [equal, ihLeft, ihRight, and_assoc]
  | call name argument ih => cases b <;> simp [equal, ih]
  | group inner ih => cases b <;> simp [equal, ih]

instance : DecidableEq Formula := fun _ _ =>
  decidable_of_iff _ Expr.equal_eq_true_iff

end Graphing
