/-!
# Double precision numbers

A `Binary64` is the 64-bit word of a binary floating-point number. Every
finite number of the format is a whole multiple of the least positive one,
`2 ^ (-1074)`; that number is the *unit* here, and `view` reads a word as
not-a-number, an infinity, or a sign with a count of units. Arithmetic is
exact on counts of units, followed by one call of `round`, which picks the
nearest representable count and sends ties to the even word.

Words, not values, are what equality compares: `0` and `-0` differ, and a
word that is not a number equals itself. The comparison of values is `ieeeEq`.
-/

namespace Graphing

-- powers are those of core, whatever other instances there are
attribute [local instance (high)] instPowNat

/-- The word of a double precision number: sign, eleven exponent bits,
fifty-two fraction bits. -/
structure Binary64 where
  bits : UInt64
  deriving DecidableEq, Inhabited

namespace Binary64

/-- A word read as a value. A finite value is a signed count of units of
`2 ^ (-1074)`; zero keeps its sign. -/
inductive Value where
  | nan
  | infinite (negative : Bool)
  | finite (negative : Bool) (units : Nat)
  deriving DecidableEq

/-- One, counted in units. -/
def unitsPerOne : Nat := 2 ^ (1074 : Nat)

/-- The sign bit. -/
def isNegative (x : Binary64) : Bool :=
  decide (2 ^ (63 : Nat) ≤ x.bits.toNat)

/-- The word without its sign bit. Magnitudes of numbers that are not NaN are
ordered as their absolute values. -/
def magnitude (x : Binary64) : Nat :=
  x.bits.toNat % 2 ^ (63 : Nat)

/-- The magnitude of the two infinities; above it lie the NaNs. -/
def infiniteMagnitude : Nat := 2047 * 2 ^ (52 : Nat)

/-- Puts a sign in front of a magnitude below `2 ^ 63`. -/
def ofMagnitude (negative : Bool) (magnitude : Nat) : Binary64 :=
  ⟨UInt64.ofNat (magnitude + if negative then 2 ^ (63 : Nat) else 0)⟩

/-- The number of units that a finite magnitude stands for. -/
def unitsOfMagnitude (magnitude : Nat) : Nat :=
  let field := magnitude / 2 ^ (52 : Nat)
  let fraction := magnitude % 2 ^ (52 : Nat)
  if field = 0 then fraction else (2 ^ (52 : Nat) + fraction) * 2 ^ (field - 1)

/-- Reads a word as a value. -/
def view (x : Binary64) : Value :=
  if infiniteMagnitude < x.magnitude then .nan
  else if x.magnitude = infiniteMagnitude then .infinite x.isNegative
  else .finite x.isNegative (unitsOfMagnitude x.magnitude)

/-- The quotient `num / den` as the nearest whole number, a half going to the
even neighbour. -/
def divNearest (num den : Nat) : Nat :=
  let quotient := num / den
  let rest := num % den
  if den < 2 * rest then quotient + 1
  else if 2 * rest = den then quotient + quotient % 2
  else quotient

/-- How many low bits of a count of `num / den` units lie below the fifty-three
that the format keeps. -/
def excessBits (num den : Nat) : Nat :=
  (num / den).log2 - 52

/-- The magnitude nearest to `num / den` units. A significand that rounds up to
the next power of two carries into the exponent field by itself, and whatever
lies past the largest finite magnitude is infinite. -/
def roundMagnitude (num den : Nat) : Nat :=
  let excess := excessBits num den
  min (excess * 2 ^ (52 : Nat) + divNearest num (den * 2 ^ excess)) infiniteMagnitude

/-- The number nearest to `num / den` units, with the given sign. -/
def round (negative : Bool) (num den : Nat) : Binary64 :=
  ofMagnitude negative (roundMagnitude num den)

/-- The number nearest to the fraction `num / den`, with the given sign. -/
def ofRatio (negative : Bool) (num den : Nat) : Binary64 :=
  round negative (num * unitsPerOne) den

/-- The number nearest to a natural number. -/
def ofNat (n : Nat) : Binary64 :=
  ofRatio false n 1

/-- Not a number. -/
def nan : Binary64 := ⟨0x7ff8000000000000⟩

/-- Infinity with a sign. -/
def infinity (negative : Bool) : Binary64 :=
  ofMagnitude negative infiniteMagnitude

/-- Zero with a sign. -/
def zero (negative : Bool) : Binary64 :=
  ofMagnitude negative 0

/-- One with a sign. -/
def one (negative : Bool) : Binary64 :=
  ofMagnitude negative (1023 * 2 ^ (52 : Nat))

/-- The number two. -/
def two : Binary64 := ⟨0x4000000000000000⟩

/-- The number nearest to the ratio of a circle's circumference to its
diameter. -/
def pi : Binary64 := ⟨0x400921fb54442d18⟩

/-- The number nearest to the base of the natural logarithm. -/
def e : Binary64 := ⟨0x4005bf0a8b145769⟩

/-- Whether a word is a NaN. -/
def isNaN (x : Binary64) : Bool :=
  decide (infiniteMagnitude < x.magnitude)

/-- Whether a word is an infinity. -/
def isInfinite (x : Binary64) : Bool :=
  decide (x.magnitude = infiniteMagnitude)

/-- Whether a word is a finite number. -/
def isFinite (x : Binary64) : Bool :=
  decide (x.magnitude < infiniteMagnitude)

/-- The place of a number in the order of values; both zeros stand at `0`. -/
def rank (x : Binary64) : Int :=
  if x.isNegative then -(x.magnitude : Int) else x.magnitude

/-- Equality of values: the zeros are equal and a NaN differs from itself. -/
def ieeeEq (x y : Binary64) : Bool :=
  !x.isNaN && !y.isNaN && x.rank == y.rank

/-- Order of values; a NaN is not comparable. -/
def ieeeLe (x y : Binary64) : Bool :=
  !x.isNaN && !y.isNaN && decide (x.rank ≤ y.rank)

end Binary64

end Graphing
