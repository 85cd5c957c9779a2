import Graphing.Error

/-!
# Scanning text into tokens

At each place the longest token that begins there is taken. Numbers and names
are found by the run of characters they may hold, the other tokens in a table in
which the longer of two symbols with one beginning comes first. Five kinds of
white space between tokens are passed over.
-/

namespace Graphing.Token

-- zero is that of core, whatever other instances there are
attribute [local instance (high)] Zero.ofOfNat0

/-- White space between tokens: blank, tab, carriage return, line feed and form
feed. -/
def isSkipped (c : Char) : Bool :=
  c == ' ' || c == '\t' || c == '\r' || c == '\n' || c == '\x0c'

/-- The length of the row of digits at the front. -/
def digitCount (cs : List Char) : Nat :=
  (cs.takeWhile Char.isDigit).length

/-- The length of the exponent at the front of a text: a letter, an optional sign
and at least one digit. It is zero if any of these is missing. -/
def exponentLength : List Char → Nat
  | c :: sign :: cs =>
      if c == 'e' || c == 'E' then
        if sign == '+' || sign == '-' then
          if digitCount cs = 0 then 0 else digitCount cs + 2
        else if digitCount (sign :: cs) = 0 then 0
        else digitCount (sign :: cs) + 1
      else 0
  | _ => 0

/-- The length of the number at the front of a text, zero if there is none. -/
def numberLength (cs : List Char) : Nat :=
  let whole := digitCount cs
  match cs.drop whole with
  | '.' :: rest =>
      let fraction := digitCount rest
      if whole + fraction = 0 then 0
      else whole + 1 + fraction + exponentLength (rest.drop fraction)
  | rest => if whole = 0 then 0 else whole + exponentLength rest

/-- The characters that a name may begin with. -/
def isNameStart (c : Char) : Bool :=
  c.isAlpha || c == '_'

/-- The characters that a name may go on with. -/
def isNamePart (c : Char) : Bool :=
  c.isAlphanum || c == '_'

/-- The length of the name at the front of a text, zero if there is none. -/
def nameLength : List Char → Nat
  | [] => 0
  | c :: cs => if isNameStart c then (cs.takeWhile isNamePart).length + 1 else 0

/-- Every token that is neither a number nor a name, longer ones first. -/
def symbols : List (List Char × TokenKind) :=
  [ (['^', '^'], .power)
  , (['&', '&'], .foreign .logical)
  , (['|', '|'], .foreign .logical)
  , (['=', '='], .foreign .relational)
  , (['!', '='], .foreign .relational)
  , (['<', '='], .foreign .relational)
  , (['>', '='], .foreign .relational)
  , (['<', '<'], .foreign .bitwise)
  , (['>', '>'], .foreign .bitwise)
  , (['+'], .plus)
  , (['-'], .minus)
  , (['*'], .times)
  , (['/'], .divide)
  , (['%'], .modulo)
  , (['^'], .power)
  , (['('], .openParen)
  , ([')'], .closeParen)
  , ([','], .comma)
  , (['!'], .foreign .logical)
  , (['<'], .foreign .relational)
  , (['>'], .foreign .relational)
  , (['&'], .foreign .bitwise)
  , (['|'], .foreign .bitwise)
  , (['~'], .foreign .bitwise)
  , (['='], .foreign .assignment)
  , (['?'], .foreign .conditional)
  , ([':'], .foreign .conditional)
  , (['['], .foreign .bracket)
  , ([']'], .foreign .bracket)
  , (['\x7b'], .foreign .bracket)
  , (['\x7d'], .foreign .bracket)
  , (['.'], .foreign .member)
  , (['\x22'], .foreign .quotation)
  , (['\x27'], .foreign .quotation) ]

/-- The symbol at the front of a text. -/
def symbolAt? (cs : List Char) : Option (TokenKind × Nat) :=
  (symbols.find? fun entry => entry.1.isPrefixOf cs).map fun entry =>
    (entry.2, entry.1.length)

/-- The kind and the length of the longest token at the front of a text. -/
def longest? (cs : List Char) : Option (TokenKind × Nat) :=
  if numberLength cs ≠ 0 then some (.number, numberLength cs)
  else if nameLength cs ≠ 0 then some (.name, nameLength cs)
  else symbolAt? cs

/-- The number of bytes that characters take. -/
def byteLength (cs : List Char) : Nat :=
  (cs.map Char.utf8Size).sum

/-- Scans the text that begins at a byte offset and a column. A token takes at
least one character, so each step leaves a shorter text. -/
def scanFrom (offset column : Nat) (cs : List Char) : Except ParseError (List Token) :=
  match cs with
  | [] => .ok []
  | c :: rest =>
      if isSkipped c then scanFrom (offset + c.utf8Size) (column + 1) rest
      else
        match longest? (c :: rest) with
        | none => .error (.strayCharacter column c)
        | some (kind, length) =>
            let lexeme := c :: rest.take (length - 1)
            let stop := offset + byteLength lexeme
            match scanFrom stop (column + lexeme.length) (rest.drop (length - 1)) with
            | .error error => .error error
            | .ok tokens => .ok (⟨kind, offset, stop, column, String.ofList lexeme⟩ :: tokens)
  termination_by cs.length
  decreasing_by
    · simp
    · simp only [List.length_drop, List.length_cons]
      omega

/-- The tokens of a text, or the first character that none begins with. -/
def scan (text : String) : Except ParseError (List Token) :=
  scanFrom 0 1 text.toList

end Graphing.Token
