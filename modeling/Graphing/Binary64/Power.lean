import Graphing.Binary64.Elementary

/-!
# Powers

`pow x y` is the number nearest to `x` raised to `y`. Small whole exponents are
worked out exactly and rounded once, so that in particular `pow x 2` rounds as
`mul x x` does; the others go through `exp (y * ln x)`.
-/

namespace Graphing.Binary64

-- powers are those of core, whatever other instances there are
attribute [local instance (high)] instPowNat

/-- What the exponent of a power is, beside its size. -/
inductive Parity where
  | fractional
  | even
  | odd
  deriving DecidableEq

/-- Whether a count of units is a whole number, and then its parity. -/
def parity (units : Nat) : Parity :=
  if units % unitsPerOne ≠ 0 then .fractional
  else if units / unitsPerOne % 2 = 0 then .even
  else .odd

/-- The largest whole exponent for which powers are worked out exactly. -/
def exactExponents : Nat := 64

/-- The magnitude `(units) ^ n`, or its inverse, exactly rounded. -/
def wholePower (negative : Bool) (units : Nat) (inverse : Bool) (n : Nat) : Binary64 :=
  if inverse then ofRatio negative (unitsPerOne ^ n) (units ^ n)
  else ofRatio negative (units ^ n) (unitsPerOne ^ n)

/-- The power of a positive base other than one to an exponent other than zero,
through the exponential. An exponent of absolute value `2 ^ 80` or more leaves the range of
the format for any such base. -/
def realPower (negative : Bool) (base : Nat) (down : Bool) (exponent : Nat) : Binary64 :=
  let shrinks := if down then decide (unitsPerOne < base) else decide (base < unitsPerOne)
  if exponent.log2 ≥ 1074 + 80 then
    if shrinks then zero negative else infinity negative
  else
    let extra := exponent.log2 - 1074 + 16
    let logarithm (p : Nat) : Enclosure :=
      let l := Enclosure.ln (p + extra) base unitsPerOne
      let product := l.scale (signedUnits down exponent)
      ⟨product.mid / unitsPerOne, product.rad / unitsPerOne + 2⟩
    let rough := (logarithm startPrecision).coarsen (startPrecision + extra)
    if rough.mid ≥ 800 then infinity negative
    else if rough.mid ≤ -800 then zero negative
    else
      let value := nearest
        (fun p => some (Enclosure.exp p ((logarithm p).coarsen extra))) attempts startPrecision
      if negative then neg value else value

/-- A finite number other than zero raised to a finite power other than zero. -/
def finitePower (s : Bool) (a : Nat) (t : Bool) (b : Nat) : Binary64 :=
  let negative := s && parity b == .odd
  if s && parity b == .fractional then nan
  else if a = unitsPerOne then one negative
  else if parity b ≠ .fractional ∧ b / unitsPerOne ≤ exactExponents then
    wholePower negative a t (b / unitsPerOne)
  else realPower negative a t b

/-- The power `x ^ y`. Anything to the power zero is one, and one to any power is
one, even for a NaN. -/
def pow (x y : Binary64) : Binary64 :=
  match x.view, y.view with
  | _, .finite _ 0 => one false
  | .nan, _ => nan
  | .finite s a, .nan => if !s && a = unitsPerOne then one false else nan
  | .infinite _, .nan => nan
  | .finite _ a, .infinite t =>
      if a = unitsPerOne then one false
      else if decide (unitsPerOne < a) != t then infinity false
      else zero false
  | .infinite _, .infinite t => if t then zero false else infinity false
  | .infinite s, .finite t b =>
      let negative := s && parity b == .odd
      if t then zero negative else infinity negative
  | .finite s 0, .finite t b =>
      let negative := s && parity b == .odd
      if t then infinity negative else zero negative
  | .finite s a, .finite t b => finitePower s a t b

end Graphing.Binary64
