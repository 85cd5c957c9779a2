import Graphing.Expr.Basic
import Graphing.Term.Basic
import Graphing.Decimal.Numeral

/-!
# Formulas and terms as text

A formula is written so that reading the text gives the formula back.
Parentheses stand where the tree has them and where an operand binds less tightly than
its place asks for. A negative literal is written with a sign in front, and literals that
are not finite as divisions by zero.

In the text of a term every binary operation is in parentheses, so the shape of the term can be
read off its text.
-/

namespace Graphing.Expr

/-- How tightly signs bind. -/
def signPrecedence : Nat := 4

/-- How tightly numbers, names, calls and parentheses bind. -/
def primaryPrecedence : Nat := 5

/-- How tightly the text of a formula holds together. A negative literal begins
with a sign. -/
def precedence : Formula → Nat
  | .binary op _ _ => op.precedence
  | .neg _ => signPrecedence
  | .pos _ => signPrecedence
  | .lit value =>
      if value.isFinite && value.isNegative then signPrecedence else primaryPrecedence
  | _ => primaryPrecedence

/-- A literal as text. -/
def literalText (value : Binary64) : String :=
  if value.isNaN then "(0 / 0)"
  else if value.isInfinite then if value.isNegative then "(-1 / 0)" else "(1 / 0)"
  else value.text

/-- Text between parentheses. -/
def parenthesized (cs : List Char) : List Char :=
  '(' :: cs ++ [')']

/-- An operand's text, in parentheses if it binds less tightly than `least`. -/
def operandChars (least precedence : Nat) (cs : List Char) : List Char :=
  if precedence < least then parenthesized cs else cs

/-- The characters of a formula. Operators of one strength group to the left, so
a right operand has to bind tighter than its operator. -/
def chars : Formula → List Char
  | .lit value => (literalText value).toList
  | .ident name => name.toList
  | .neg operand => '-' :: operandChars signPrecedence operand.precedence operand.chars
  | .pos operand => '+' :: operandChars signPrecedence operand.precedence operand.chars
  | .binary op left right =>
      operandChars op.precedence left.precedence left.chars ++
        (' ' :: op.symbol.toList) ++
        ' ' :: operandChars (op.precedence + 1) right.precedence right.chars
  | .call name argument => name.toList ++ parenthesized argument.chars
  | .group inner => parenthesized inner.chars

/-- The text of a formula. -/
def text (formula : Formula) : String :=
  String.ofList formula.chars

end Graphing.Expr

namespace Graphing.Term

/-- The characters of a term. -/
def chars : Term Binary64 → List Char
  | .const value => value.text.toList
  | .var => variableName.toList
  | .neg operand => '-' :: '(' :: operand.chars ++ [')']
  | .binary op left right =>
      '(' :: left.chars ++ (' ' :: op.symbol.toList) ++ (' ' :: right.chars) ++ [')']
  | .call function argument => function.name.toList ++ '(' :: argument.chars ++ [')']

/-- The text of a term. -/
def text (term : Term Binary64) : String :=
  String.ofList term.chars

end Graphing.Term
