import Graphing.Binary64.Arithmetic

/-!
# Decimal numerals

A `Decimal` is a natural number with a count of decimal places. `text` writes
it positionally, and `read?` reads numerals with an optional point and an
optional exponent. The double precision number of a numeral is the nearest
one, ties to even, however many digits the numeral has.
-/

namespace Graphing

-- powers are those of core, whatever other instances there are
attribute [local instance (high)] instPowNat

/-- The decimal fraction `digits / 10 ^ places`. -/
structure Decimal where
  digits : Nat
  places : Nat
  deriving DecidableEq

namespace Decimal

/-- The double precision number nearest to a decimal. -/
def toBinary64 (d : Decimal) : Binary64 :=
  Binary64.ofRatio false d.digits (10 ^ d.places)

/-- The digits of a natural number, zeros put in front up to a width. -/
def paddedDigits (width n : Nat) : List Char :=
  let digits := Nat.toDigits 10 n
  List.replicate (width - digits.length) '0' ++ digits

/-- The numeral in positional form: all whole digits, then the point and exactly
`places` digits if there are any places. -/
def chars (d : Decimal) : List Char :=
  if d.places = 0 then Nat.toDigits 10 d.digits
  else
    Nat.toDigits 10 (d.digits / 10 ^ d.places) ++
      '.' :: paddedDigits d.places (d.digits % 10 ^ d.places)

/-- The numeral as text. -/
def text (d : Decimal) : String :=
  String.ofList d.chars

/-- The number that a row of digits spells. -/
def ofDigits (cs : List Char) : Nat :=
  cs.foldl (fun n c => 10 * n + (c.toNat - '0'.toNat)) 0

/-- The exponent that a row of digits spells. Once it has reached `65536`, which
is past the range of every double precision number, further digits are ignored. -/
def exponentOfDigits (cs : List Char) : Nat :=
  cs.foldl (fun n c => if n < 65536 then 10 * n + (c.toNat - '0'.toNat) else n) 0

/-- Moves the point by an exponent, to the left if it is negative. -/
def shift (d : Decimal) (left : Bool) (exponent : Nat) : Decimal :=
  if left then ⟨d.digits, d.places + exponent⟩
  else ⟨d.digits * 10 ^ (exponent - d.places), d.places - exponent⟩

/-- The digits of an exponent, after its sign. -/
def readExponentDigits? (d : Decimal) (left : Bool) (cs : List Char) : Option Decimal :=
  if cs.isEmpty || !cs.all Char.isDigit then none
  else some (d.shift left (exponentOfDigits cs))

/-- What may follow the digits of a numeral: nothing, or an exponent that reaches
to the end. -/
def readExponent? (d : Decimal) : List Char → Option Decimal
  | [] => some d
  | c :: cs =>
      if c = 'e' || c = 'E' then
        match cs with
        | '-' :: rest => readExponentDigits? d true rest
        | '+' :: rest => readExponentDigits? d false rest
        | rest => readExponentDigits? d false rest
      else none

/-- Reads an unsigned numeral: digits with at most one point among them, at least
one digit, then an optional exponent. -/
def read? (cs : List Char) : Option Decimal :=
  let whole := cs.takeWhile Char.isDigit
  match cs.dropWhile Char.isDigit with
  | '.' :: rest =>
      let fraction := rest.takeWhile Char.isDigit
      if whole.isEmpty && fraction.isEmpty then none
      else readExponent? ⟨ofDigits (whole ++ fraction), fraction.length⟩
        (rest.dropWhile Char.isDigit)
  | rest =>
      if whole.isEmpty then none else readExponent? ⟨ofDigits whole, 0⟩ rest

end Decimal

end Graphing
