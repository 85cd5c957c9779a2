import Graphing.Text.Basic
import Graphing.Decimal.Basic

/-!
# Numerals

* **Shortest** — the numeral of a double precision number has the fewest digits that read back
  as the same number. For one digit, two digits and so on up to seventeen, the two multiples of
  the last place next to the number are tried, the nearer one first and the upper one at a tie;
  a numeral is taken only if the reader gives the number back. It is written positionally, never
  with an exponent, and without a fraction if it is whole.
* **Fixed** — a number is written to a given number of decimal places by rounding its exact
  value, a half going to the even digit. The sign stays even if all digits are zero.
* **Signed** — bounds given on the command line are numerals with an optional sign; infinity and
  not-a-number may be spelled out, in letters of any case.
-/

namespace Graphing.Decimal

/-! ## Shortest -/

-- powers are those of core, whatever other instances there are
attribute [local instance (high)] instPowNat

/-- The same fraction without zeros at the end of its places. -/
def trim (digits : Nat) : Nat → Decimal
  | 0 => ⟨digits, 0⟩
  | places + 1 =>
      if digits % 10 = 0 then trim (digits / 10) places else ⟨digits, places + 1⟩

/-- Where the digits of a number of `units` units begin: the number is below the
power of ten with this exponent, and not far below. -/
def leadingExponent (units : Nat) : Int :=
  if Binary64.unitsPerOne ≤ units then
    (Nat.toDigits 10 (units / Binary64.unitsPerOne)).length
  else 1 - ((Nat.toDigits 10 (Binary64.unitsPerOne / units)).length : Int)

/-- A whole multiple of a power of ten. -/
def multiple (n : Nat) (exponent : Int) : Decimal :=
  trim (n * 10 ^ exponent.toNat) (-exponent).toNat

/-- The multiples of `10 ^ exponent` on both sides of a number, the nearer first. -/
def neighbours (units : Nat) (exponent : Int) : List Decimal :=
  let num := units * 10 ^ (-exponent).toNat
  let den := Binary64.unitsPerOne * 10 ^ exponent.toNat
  let below := num / den
  let rest := num % den
  if rest = 0 then [multiple below exponent]
  else if den ≤ 2 * rest then [multiple (below + 1) exponent, multiple below exponent]
  else [multiple below exponent, multiple (below + 1) exponent]

/-- The numeral with every digit of the number. -/
def exact (units : Nat) : Decimal :=
  trim (units * 5 ^ (1074 : Nat)) 1074

/-- The first numeral that reads back as `target`, from multiples of `10 ^ exponent`
down through as many finer grids as there are `tries`; failing those, every digit. -/
def firstReadingBack (units : Nat) (target : Binary64) : Nat → Int → Decimal
  | 0, _ => exact units
  | tries + 1, exponent =>
      match (neighbours units exponent).find? fun d => d.toBinary64 == target with
      | some d => d
      | none => firstReadingBack units target tries (exponent - 1)

/-- The shortest numeral of a number above zero. -/
def shortest (units : Nat) : Decimal :=
  firstReadingBack units (Binary64.round false units 1) 17 (leadingExponent units - 1)

end Graphing.Decimal

namespace Graphing.Binary64

/-- The sign of a numeral. -/
def signText (negative : Bool) : String :=
  if negative then "-" else ""

/-- The shortest text of a number. -/
def text (x : Binary64) : String :=
  match x.view with
  | .nan => "NaN"
  | .infinite s => signText s ++ "inf"
  | .finite s a =>
      if a = 0 then signText s ++ "0" else signText s ++ (Decimal.shortest a).text

/-! ## Fixed -/

-- powers are those of core, whatever other instances there are
attribute [local instance (high)] instPowNat

/-- The text of a number to a number of places. -/
def fixedText (places : Nat) (x : Binary64) : String :=
  match x.view with
  | .nan => "NaN"
  | .infinite s => signText s ++ "inf"
  | .finite s a =>
      signText s ++
        (Decimal.mk (divNearest (a * 10 ^ places) unitsPerOne) places).text

/-! ## Signed -/

/-- Reads an unsigned bound. -/
def ofUnsignedText? (cs : List Char) : Option Binary64 :=
  let word := String.ofList cs
  if Text.equalIgnoringCase word "inf" || Text.equalIgnoringCase word "infinity" then
    some (infinity false)
  else if Text.equalIgnoringCase word "nan" then some nan
  else (Decimal.read? cs).map Decimal.toBinary64

/-- Reads a bound with an optional sign. -/
def ofText? (s : String) : Option Binary64 :=
  match s.toList with
  | '-' :: cs => (ofUnsignedText? cs).map neg
  | '+' :: cs => ofUnsignedText? cs
  | cs => ofUnsignedText? cs

end Graphing.Binary64
