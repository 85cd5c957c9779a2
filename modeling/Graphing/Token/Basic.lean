/-!
# Tokens

A formula is read as a list of tokens. Beside the tokens that formulas are made
of there are those of richer languages: they are recognised, so that a formula
that uses one can be refused for what it is.
-/

namespace Graphing

/-- Constructs of richer languages that formulas do not have. -/
inductive Construct where
  | logical
  | relational
  | bitwise
  | assignment
  | conditional
  | bracket
  | member
  | quotation
  deriving DecidableEq

/-- What a construct is called in messages. -/
def Construct.description : Construct → String
  | logical => "logical operator"
  | relational => "relational operator"
  | bitwise => "bitwise operator"
  | assignment => "assignment"
  | conditional => "conditional expression"
  | bracket => "array or struct syntax"
  | member => "member access"
  | quotation => "string or character literal"

/-- The kinds of tokens. -/
inductive TokenKind where
  | number
  | name
  | plus
  | minus
  | times
  | divide
  | modulo
  | power
  | openParen
  | closeParen
  | comma
  | foreign (construct : Construct)
  deriving DecidableEq

/-- The construct that a kind of token belongs to, if formulas do not have it. -/
def TokenKind.unsupported? : TokenKind → Option Construct
  | foreign construct => some construct
  | _ => none

/-- A token and its place in the text: the bytes from `start` up to `stop`, and
the column of its first character, counted in characters from one. -/
structure Token where
  kind : TokenKind
  start : Nat
  stop : Nat
  column : Nat
  lexeme : String
  deriving DecidableEq

namespace Text

/-- The column of the character at a byte offset, counted from one; none if the
offset lies past the end or inside a character. -/
def columnAt? : List Char → Nat → Option Nat
  | _, 0 => some 1
  | [], _ + 1 => none
  | c :: cs, offset =>
      if offset < c.utf8Size then none
      else (columnAt? cs (offset - c.utf8Size)).map (· + 1)

end Text

end Graphing
