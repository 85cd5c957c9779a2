import Graphing.Binary64.Arithmetic
import Graphing.Binary64.Enclosure

/-!
# Elementary functions

Sine, cosine, tangent and the two logarithms, each the number nearest to the
exact value. A function is given as a family of enclosures, one for every
precision; `nearest` tightens them until both ends round to one number.
-/

namespace Graphing.Binary64

-- powers are those of core, whatever other instances there are
attribute [local instance (high)] instPowNat

/-- The number nearest to `n * 2 ^ exponent`. -/
def ofScaled (n : Int) (exponent : Int) : Binary64 :=
  ofRatio (decide (n < 0)) (n.natAbs * 2 ^ exponent.toNat) (2 ^ (-exponent).toNat)

/-- A family of enclosures of one real number: at a precision, an interval and
the power of two by which it is multiplied, or nothing if the precision is too
low to say. -/
abbrev Approximation := Nat → Option (Enclosure × Int)

/-- The number nearest to the real that `approximation` encloses. The precision is
doubled until both ends of the interval round alike. An interval that still
straddles two neighbours at the last attempt is around the midpoint of the two,
and the even one is taken. -/
def nearest (approximation : Approximation) : Nat → Nat → Binary64
  | 0, p =>
      match approximation p with
      | none => nan
      | some (a, k) =>
          let low := ofScaled (a.mid - a.rad) (k - p)
          if low.bits % 2 = 0 then low else ofScaled (a.mid + a.rad) (k - p)
  | attempts + 1, p =>
      match approximation p with
      | none => nearest approximation attempts (2 * p)
      | some (a, k) =>
          let low := ofScaled (a.mid - a.rad) (k - p)
          if low = ofScaled (a.mid + a.rad) (k - p) then low
          else nearest approximation attempts (2 * p)

/-- Attempts that `nearest` makes before it takes a value for a midpoint. -/
def attempts : Nat := 3

/-- The number of binary places to begin with. -/
def startPrecision : Nat := 160

/-- Places by which a number of `units` units lies below one. -/
def smallness (units : Nat) : Nat :=
  1074 - units.log2

/-- The sine. -/
def sin (x : Binary64) : Binary64 :=
  match x.view with
  | .nan => nan
  | .infinite _ => nan
  | .finite s a =>
      if a = 0 then x
      else nearest
        (fun p => some ((Enclosure.sinCos p (signedUnits s a) unitsPerOne).1, 0))
        attempts (startPrecision + smallness a)

/-- The cosine. -/
def cos (x : Binary64) : Binary64 :=
  match x.view with
  | .nan => nan
  | .infinite _ => nan
  | .finite s a =>
      nearest
        (fun p => some ((Enclosure.sinCos p (signedUnits s a) unitsPerOne).2, 0))
        attempts startPrecision

/-- The tangent. -/
def tan (x : Binary64) : Binary64 :=
  match x.view with
  | .nan => nan
  | .infinite _ => nan
  | .finite s a =>
      if a = 0 then x
      else nearest
        (fun p =>
          let (sine, cosine) := Enclosure.sinCos p (signedUnits s a) unitsPerOne
          (Enclosure.div? p sine cosine).map (·, 0))
        attempts (startPrecision + smallness a)

/-- A logarithm: `scaled` turns an enclosure of the natural logarithm into one of
the logarithm meant. -/
def logarithm (scaled : Nat → Enclosure → Option Enclosure) (x : Binary64) : Binary64 :=
  match x.view with
  | .nan => nan
  | .infinite s => if s then nan else infinity false
  | .finite s a =>
      if a = 0 then infinity true
      else if s then nan
      else if a = unitsPerOne then zero false
      else nearest (fun p => (scaled p (Enclosure.ln p a unitsPerOne)).map (·, 0))
        attempts startPrecision

/-- The natural logarithm. -/
def ln (x : Binary64) : Binary64 :=
  logarithm (fun _ l => some l) x

/-- The logarithm to base ten. -/
def log10 (x : Binary64) : Binary64 :=
  logarithm (fun p l => Enclosure.div? p l (Enclosure.ln10 p)) x

end Graphing.Binary64
