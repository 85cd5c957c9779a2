import Graphing.Token.Basic
import Graphing.Operator

/-!
# Errors

Why a text is no formula, why a tree has no meaning, and why a function cannot be
defined. The wording of every message is here and nowhere else.
-/

namespace Graphing

/-- What a formula needed at a place where something else stood. -/
inductive Expected where
  | closeParen
  | closeParenOrComma
  deriving DecidableEq

/-- The wording of what was needed. -/
def Expected.description : Expected → String
  | closeParen => "`)`"
  | closeParenOrComma => "`)` or `,`"

/-- Why a text is no formula. Columns count characters from one. -/
inductive ParseError where
  /-- There is nothing but white space. -/
  | empty
  /-- No token begins with this character. -/
  | strayCharacter (column : Nat) (char : Char)
  /-- An operand was due and the text is over. -/
  | endOfText (column : Nat)
  /-- A closing token was due and the text is over. -/
  | missing (column : Nat) (expected : Expected)
  /-- A closing token was due and another one stands there. -/
  | mismatch (column : Nat) (expected : Expected) (lexeme : String)
  /-- This token cannot stand here. -/
  | unexpected (column : Nat) (lexeme : String)
  /-- The numeral is past the largest finite number. -/
  | outOfRange (column : Nat) (lexeme : String)
  /-- Signs, parentheses or calls use up the depth budget. -/
  | tooDeep (column : Nat)
  /-- Chained operators use up the depth budget. -/
  | tooLong (column : Nat)
  /-- The token belongs to a construct that formulas do not have. -/
  | unsupported (column : Nat) (construct : Construct) (lexeme : String)
  /-- The called name is none of the built-in functions. -/
  | unknownFunction (column : Nat) (name : String)
  /-- A function was called with other than one argument. -/
  | arity (column : Nat) (function : Builtin) (count : Nat)
  deriving DecidableEq

namespace ParseError

/-- The column that an error points at. -/
def column? : ParseError → Option Nat
  | empty => none
  | strayCharacter column _ => some column
  | endOfText column => some column
  | missing column _ => some column
  | mismatch column _ _ => some column
  | unexpected column _ => some column
  | outOfRange column _ => some column
  | tooDeep column => some column
  | tooLong column => some column
  | unsupported column _ _ => some column
  | unknownFunction column _ => some column
  | arity column _ _ => some column

/-- The message without its column. -/
def detail : ParseError → String
  | empty => "Given expression must not be empty!"
  | strayCharacter _ char => "unexpected character `" ++ char.toString ++ "`"
  | endOfText _ => "unexpected end of expression"
  | missing _ expected => "expected " ++ expected.description
  | mismatch _ expected lexeme =>
      "expected " ++ expected.description ++ ", found `" ++ lexeme ++ "`"
  | unexpected _ lexeme => "unexpected `" ++ lexeme ++ "`"
  | outOfRange _ lexeme => "number `" ++ lexeme ++ "` is out of range"
  | tooDeep _ => "expression is nested too deeply"
  | tooLong _ => "expression is too long"
  | unsupported _ construct lexeme =>
      construct.description ++ " `" ++ lexeme ++ "` is not supported"
  | unknownFunction _ name =>
      "unknown function `" ++ name ++ "`. Only " ++ Builtin.allNames ++ " will be accepted!"
  | arity _ function count =>
      "`" ++ function.name ++ "` takes exactly one argument, got " ++ toString count

/-- The whole message, which begins with the column if there is one. -/
def message (error : ParseError) : String :=
  match error.column? with
  | none => error.detail
  | some column => "Column " ++ toString column ++ ": " ++ error.detail

end ParseError

/-- Why a tree has no meaning. -/
inductive CompileError where
  /-- The name is neither the variable nor a constant. -/
  | unknownSymbol (name : String)
  /-- The called name is none of the built-in functions. -/
  | unknownFunction (name : String)
  deriving DecidableEq

/-- The wording of a compile error. -/
def CompileError.message : CompileError → String
  | unknownSymbol name => "Unknown symbol " ++ name
  | unknownFunction name =>
      "Unknown method " ++ name ++ ". Only " ++ Builtin.allNames ++ " will be accepted!"

/-- Why a function cannot be defined, found or added. -/
inductive FormulaError where
  | parse (error : ParseError)
  | compile (error : CompileError)
  | tooManyFunctions (limit : Nat)
  | functionNotFound (name : String)
  deriving DecidableEq

namespace FormulaError

/-- The wording of a formula error. -/
def message : FormulaError → String
  | parse error => "Invalid expression: " ++ error.message
  | compile error => "Error during compiling the expression: " ++ error.message
  | tooManyFunctions limit =>
      "Too many functions: at most " ++ toString limit ++ " can be plotted at once"
  | functionNotFound name => "Function not found: " ++ name

/-- The column that an error points at. -/
def column? : FormulaError → Option Nat
  | parse error => error.column?
  | _ => none

end FormulaError

end Graphing
