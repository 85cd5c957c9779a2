import Graphing.Expr.Basic
import Graphing.Decimal.Basic
import Graphing.Text.Basic
import Graphing.Token.Scanner

/-!
# Reading formulas

Sums are chains of products, products chains of powers and powers chains of signed
operands; every chain groups to the left. All parsers share one depth budget: a
sign, a parenthesis or a call spends one while its inside is read, and each operator
of a chain spends one until the chain ends. The budget bounds the recursion.

A parser takes the tokens that are left and returns a formula with the tokens
after it; `fin` is the column one past the text, where errors at the end point. Reading
stops at the first error.
-/

namespace Graphing

/-- The three kinds of operator chains, from the loosest to the tightest. -/
inductive ChainLevel where
  | sum
  | product
  | power
  deriving DecidableEq

namespace ChainLevel

/-- The operator that continues a chain, if a token is one. -/
def operator? : ChainLevel → TokenKind → Option Operator
  | sum, .plus => some .add
  | sum, .minus => some .sub
  | product, .times => some .mul
  | product, .divide => some .div
  | product, .modulo => some .mod
  | power, .power => some .pow
  | _, _ => none

/-- How many kinds of chains an operand may still hold, itself included. -/
def rank : ChainLevel → Nat
  | sum => 3
  | product => 2
  | power => 1

theorem rank_le (level : ChainLevel) : level.rank ≤ 3 := by
  cases level <;> decide

end ChainLevel

namespace Parser

/-- The depth that every formula is given. -/
def depthBudget : Nat := 200

/-- The error for a token that cannot stand where it does. -/
def unexpectedToken (token : Token) : ParseError :=
  match token.kind.unsupported? with
  | some construct => .unsupported token.column construct token.lexeme
  | none => .unexpected token.column token.lexeme

/-- The tokens after a closing parenthesis that has to come next. -/
def closing (fin : Nat) (expected : Expected) : List Token → Except ParseError (List Token)
  | [] => .error (.missing fin expected)
  | token :: rest =>
      if token.kind = .closeParen then .ok rest
      else
        match token.kind.unsupported? with
        | some construct => .error (.unsupported token.column construct token.lexeme)
        | none => .error (.mismatch token.column expected token.lexeme)

/-- The literal of a number token. -/
def number (token : Token) : Except ParseError Formula :=
  match Decimal.read? token.lexeme.toList with
  | some decimal =>
      if decimal.toBinary64.isFinite then .ok (.lit decimal.toBinary64)
      else .error (.outOfRange token.column token.lexeme)
  | none => .error (.outOfRange token.column token.lexeme)

/-- What a parser returns. -/
abbrev Parsed (β : Type) := Except ParseError (β × List Token)

/-- The number of further arguments, each after a comma, that `argument` reads.
Each comma takes a token, so as many steps as there are tokens are enough. -/
def furtherArguments (argument : List Token → Parsed Formula) :
    Nat → List Token → Parsed Nat
  | 0, tokens => .ok (0, tokens)
  | _ + 1, [] => .ok (0, [])
  | steps + 1, token :: rest =>
      if token.kind = .comma then
        match argument rest with
        | .error error => .error error
        | .ok (_, rest) =>
            match furtherArguments argument steps rest with
            | .error error => .error error
            | .ok (count, rest) => .ok (count + 1, rest)
      else .ok (0, token :: rest)

/-- The end of a call of `function`, after its arguments: the closing parenthesis,
and then exactly one argument must have been given. -/
def finishCall (fin : Nat) (name : Token) (function : Builtin) (first : Option Formula)
    (count : Nat) (tokens : List Token) : Parsed Formula :=
  match closing fin .closeParenOrComma tokens with
  | .error error => .error error
  | .ok rest =>
      match first, count with
      | some argument, 1 => .ok (.call name.lexeme argument, rest)
      | _, _ => .error (.arity name.column function count)

mutual

/-- Reads a chain of a level. -/
def chain (fin budget : Nat) (level : ChainLevel) (tokens : List Token) : Parsed Formula :=
  match operand fin budget level tokens with
  | .error error => .error error
  | .ok (first, rest) => chainRest fin budget level first rest
  termination_by 10 * budget + 2 * level.rank + 1

/-- Reads an operand of a chain: a chain of the next tighter level, or a signed
operand in a power. -/
def operand (fin budget : Nat) (level : ChainLevel) (tokens : List Token) : Parsed Formula :=
  match level with
  | .sum => chain fin budget .product tokens
  | .product => chain fin budget .power tokens
  | .power => signed fin budget tokens
  termination_by 10 * budget + 2 * level.rank
  decreasing_by all_goals simp [ChainLevel.rank]

/-- Reads the rest of a chain whose first operands make up `left`. -/
def chainRest (fin budget : Nat) (level : ChainLevel) (left : Formula) (tokens : List Token) :
    Parsed Formula :=
  match tokens with
  | [] => .ok (left, [])
  | token :: rest =>
      match level.operator? token.kind with
      | none => .ok (left, token :: rest)
      | some op =>
          match budget with
          | 0 => .error (.tooLong token.column)
          | budget + 1 =>
              match operand fin budget level rest with
              | .error error => .error error
              | .ok (right, rest) =>
                  chainRest fin budget level (.binary op left right) rest
  termination_by 10 * budget
  decreasing_by
    · have := level.rank_le
      omega
    · omega

/-- Reads an operand with any number of signs in front. -/
def signed (fin budget : Nat) (tokens : List Token) : Parsed Formula :=
  match tokens with
  | [] => .error (.endOfText fin)
  | token :: rest =>
      match token.kind with
      | .minus =>
          match budget with
          | 0 => .error (.tooDeep token.column)
          | budget + 1 =>
              match signed fin budget rest with
              | .error error => .error error
              | .ok (inner, rest) => .ok (.neg inner, rest)
      | .plus =>
          match budget with
          | 0 => .error (.tooDeep token.column)
          | budget + 1 =>
              match signed fin budget rest with
              | .error error => .error error
              | .ok (inner, rest) => .ok (.pos inner, rest)
      | _ => primary fin budget token rest
  termination_by 10 * budget + 1

/-- Reads a number, a name, a call or a formula in parentheses that begins with
`token`. -/
def primary (fin budget : Nat) (token : Token) (rest : List Token) : Parsed Formula :=
  match token.kind with
  | .number =>
      match number token with
      | .error error => .error error
      | .ok literal => .ok (literal, rest)
  | .name =>
      match rest with
      | [] => .ok (.ident token.lexeme, [])
      | next :: inside =>
          if next.kind = .openParen then
            match budget with
            | 0 => .error (.tooDeep token.column)
            | budget + 1 =>
                match Builtin.ofName? token.lexeme with
                | none => .error (.unknownFunction token.column token.lexeme)
                | some function => arguments fin budget token function inside
          else .ok (.ident token.lexeme, next :: inside)
  | .openParen =>
      match budget with
      | 0 => .error (.tooDeep token.column)
      | budget + 1 =>
          match chain fin budget .sum rest with
          | .error error => .error error
          | .ok (inner, rest) =>
              match closing fin .closeParen rest with
              | .error error => .error error
              | .ok rest => .ok (.group inner, rest)
  | _ => .error (unexpectedToken token)
  termination_by 10 * budget
  decreasing_by all_goals simp only [ChainLevel.rank]; omega

/-- Reads the arguments of a call and what closes it, after the opening
parenthesis. -/
def arguments (fin budget : Nat) (name : Token) (function : Builtin) (tokens : List Token) :
    Parsed Formula :=
  if tokens.head?.map Token.kind = some .closeParen then
    finishCall fin name function none 0 tokens
  else
    match chain fin budget .sum tokens with
    | .error error => .error error
    | .ok (first, rest) =>
        match furtherArguments (chain fin budget .sum) rest.length rest with
        | .error error => .error error
        | .ok (count, rest) => finishCall fin name function (some first) (count + 1) rest
  termination_by 10 * budget + 2 * ChainLevel.sum.rank + 2

end

end Parser

namespace Expr

/-- The column one past the last character. -/
def endColumn (text : String) : Nat :=
  text.toList.length + 1

/-- Reads a list of tokens as one formula. -/
def ofTokens (fin : Nat) (tokens : List Token) : Except ParseError Formula :=
  match Parser.chain fin Parser.depthBudget .sum tokens with
  | .error error => .error error
  | .ok (formula, []) => .ok formula
  | .ok (_, token :: _) => .error (Parser.unexpectedToken token)

/-- Reads a text as a formula. -/
def parse (text : String) : Except ParseError Formula :=
  if Text.isBlank text then .error .empty
  else
    match Token.scan text with
    | .error error => .error error
    | .ok tokens => ofTokens (endColumn text) tokens

end Expr

end Graphing
