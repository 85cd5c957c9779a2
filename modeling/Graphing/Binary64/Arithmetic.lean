import Graphing.Binary64.Basic

/-!
# Arithmetic of double precision numbers

Sum, difference, product, quotient, remainder and square root are computed on
counts of units without loss and rounded once, so each result is the number
nearest to the exact one. Invalid operations give `nan`.
-/

namespace Graphing.Binary64

-- powers are those of core, whatever other instances there are
attribute [local instance (high)] instPowNat

/-- The opposite number; also turns the sign of a NaN. -/
def neg (x : Binary64) : Binary64 :=
  ofMagnitude (!x.isNegative) x.magnitude

/-- The number without its sign. -/
def abs (x : Binary64) : Binary64 :=
  ofMagnitude false x.magnitude

/-- A signed count of units. -/
def signedUnits (negative : Bool) (units : Nat) : Int :=
  if negative then -(units : Int) else units

/-- The sum. An exact zero is positive unless both operands are negative. -/
def add (x y : Binary64) : Binary64 :=
  match x.view, y.view with
  | .nan, _ => nan
  | _, .nan => nan
  | .infinite s, .infinite t => if s = t then infinity s else nan
  | .infinite s, .finite _ _ => infinity s
  | .finite _ _, .infinite t => infinity t
  | .finite s a, .finite t b =>
      let sum := signedUnits s a + signedUnits t b
      if sum = 0 then zero (s && t) else round (decide (sum < 0)) sum.natAbs 1

/-- The difference. -/
def sub (x y : Binary64) : Binary64 :=
  add x (neg y)

/-- The product. -/
def mul (x y : Binary64) : Binary64 :=
  match x.view, y.view with
  | .nan, _ => nan
  | _, .nan => nan
  | .infinite s, .infinite t => infinity (s ^^ t)
  | .infinite s, .finite t b => if b = 0 then nan else infinity (s ^^ t)
  | .finite s a, .infinite t => if a = 0 then nan else infinity (s ^^ t)
  | .finite s a, .finite t b => round (s ^^ t) (a * b) unitsPerOne

/-- The quotient. A number other than zero divided by zero is infinite. -/
def div (x y : Binary64) : Binary64 :=
  match x.view, y.view with
  | .nan, _ => nan
  | _, .nan => nan
  | .infinite _, .infinite _ => nan
  | .infinite s, .finite t _ => infinity (s ^^ t)
  | .finite s _, .infinite t => zero (s ^^ t)
  | .finite s a, .finite t b =>
      if b = 0 then if a = 0 then nan else infinity (s ^^ t)
      else round (s ^^ t) (a * unitsPerOne) b

/-- The remainder of the division that truncates toward zero. It has the sign of
the dividend and is exact. -/
def rem (x y : Binary64) : Binary64 :=
  match x.view, y.view with
  | .nan, _ => nan
  | _, .nan => nan
  | .infinite _, _ => nan
  | .finite _ _, .infinite _ => x
  | .finite s a, .finite _ b => if b = 0 then nan else round s (a % b) 1

/-- The whole part of the square root of a number below `4 ^ digits`, one binary
digit of the root for every two of the number. -/
def sqrtDigits : Nat → Nat → Nat
  | 0, _ => 0
  | digits + 1, n =>
      let root := 2 * sqrtDigits digits (n / 4)
      if (root + 1) * (root + 1) ≤ n then root + 1 else root

/-- The whole part of a square root. -/
def sqrtFloor (n : Nat) : Nat :=
  sqrtDigits (n.log2 / 2 + 1) n

/-- The square root. The count of units is scaled by `4 ^ 55`, so that its root
has more binary places than the format keeps, and one more place tells whether the root
is exact: enough to round as the exact root would. Negative numbers other than `-0` have
none. -/
def sqrt (x : Binary64) : Binary64 :=
  match x.view with
  | .nan => nan
  | .infinite s => if s then nan else infinity false
  | .finite s a =>
      if a = 0 then zero s
      else if s then nan
      else
        let square := a * 4 ^ (55 : Nat)
        let root := sqrtFloor square
        let inexact := if root * root = square then 0 else 1
        round false ((2 * root + inexact) * 2 ^ (481 : Nat)) 1

end Graphing.Binary64
