import Graphing.Expr.Basic
import Graphing.Text.Digest

/-!
# Fingerprints

A fingerprint is a 64-bit digest of a formula. It is worked out from `items`, the
formula spelled in order as a list of node kinds, literal words, names and
operators, so equal formulas have equal fingerprints. The items are turned into
words, and the words are the coefficients of a polynomial that is evaluated at a
fixed odd number.
-/

namespace Graphing

/-- The kinds of nodes of a formula. -/
inductive NodeKind where
  | lit
  | ident
  | neg
  | pos
  | binary
  | call
  | group
  deriving DecidableEq

/-- What a formula is spelled with. -/
inductive Item where
  | node (kind : NodeKind)
  | word (bits : UInt64)
  | name (name : String)
  | operator (op : Operator)
  deriving DecidableEq

/-- A formula spelled in order, each node before its parts. -/
def Expr.items : Formula → List Item
  | .lit value => [.node .lit, .word value.bits]
  | .ident name => [.node .ident, .name name]
  | .neg operand => .node .neg :: operand.items
  | .pos operand => .node .pos :: operand.items
  | .binary op left right => .node .binary :: .operator op :: (left.items ++ right.items)
  | .call name argument => .node .call :: .name name :: argument.items
  | .group inner => .node .group :: inner.items

/-- The digest of a formula. -/
structure Fingerprint where
  value : UInt64
  deriving DecidableEq

namespace Fingerprint

/-- The number at which the polynomial is evaluated. -/
def base : UInt64 := 0xf1357aea2e62a9c5

/-- Adds one word to a digest. -/
def absorb (digest word : UInt64) : UInt64 :=
  (digest + word) * base

/-- The number of a node kind. -/
def kindWord : NodeKind → UInt64
  | .lit => 0
  | .ident => 1
  | .neg => 2
  | .pos => 3
  | .binary => 4
  | .call => 5
  | .group => 6

/-- The number of an operator. -/
def operatorWord : Operator → UInt64
  | .add => 0
  | .sub => 1
  | .mul => 2
  | .div => 3
  | .pow => 4
  | .mod => 5

/-- The words of an item. A name is one word, its own digest, and a mark that ends
it, so names do not run into what follows. -/
def itemWords : Item → List UInt64
  | .node kind => [kindWord kind]
  | .word bits => [bits]
  | .name name => [Text.digest name, 0xff]
  | .operator op => [operatorWord op]

/-- The word with its bits moved up, the upper ones coming in again below, where the
digest varies least by itself. -/
def rotate (word : UInt64) : UInt64 :=
  (word <<< 26) ||| (word >>> 38)

/-- The digest of a list of items. -/
def ofItems (items : List Item) : Fingerprint :=
  ⟨rotate ((items.flatMap itemWords).foldl absorb 0)⟩

/-- The sixteen hexadecimal digits of a fingerprint, in small letters. -/
def text (fingerprint : Fingerprint) : String :=
  let digits := Nat.toDigits 16 fingerprint.value.toNat
  String.ofList (List.replicate (16 - digits.length) '0' ++ digits)

end Fingerprint

/-- The fingerprint of a formula. -/
def Expr.fingerprint (formula : Formula) : Fingerprint :=
  .ofItems formula.items

end Graphing
