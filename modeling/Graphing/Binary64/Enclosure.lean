/-!
# Enclosures of real numbers

An `Enclosure` at precision `p` stands for the interval of reals between
`(mid - rad) / 2 ^ p` and `(mid + rad) / 2 ^ p`. Every operation rounds its
middle down to a whole number and widens the radius by what rounding and the
operands' own radii can add up to, so the exact result of an operation on
members lies in the resulting interval.

The precision is a parameter of the operations and is not stored.
-/

namespace Graphing

-- powers are those of core, whatever other instances there are
attribute [local instance (high)] instPowNat

/-- An interval of reals, in multiples of `2 ^ (-p)` for a precision `p` that
the operations are told. -/
structure Enclosure where
  mid : Int
  rad : Nat
  deriving DecidableEq

namespace Enclosure

/-- A whole number. -/
def ofInt (p : Nat) (n : Int) : Enclosure :=
  ⟨n * 2 ^ p, 0⟩

/-- The fraction `num / den` of a positive `den`. -/
def ofRatio (p : Nat) (num : Int) (den : Nat) : Enclosure :=
  ⟨num * 2 ^ p / den, 1⟩

/-- The sum of two members. -/
def add (a b : Enclosure) : Enclosure :=
  ⟨a.mid + b.mid, a.rad + b.rad⟩

/-- The opposite of a member. -/
def neg (a : Enclosure) : Enclosure :=
  ⟨-a.mid, a.rad⟩

/-- The difference of two members. -/
def sub (a b : Enclosure) : Enclosure :=
  a.add b.neg

/-- A whole multiple of a member. -/
def scale (n : Int) (a : Enclosure) : Enclosure :=
  ⟨n * a.mid, n.natAbs * a.rad⟩

/-- A member divided by a positive whole number. -/
def divNat (a : Enclosure) (n : Nat) : Enclosure :=
  ⟨a.mid / n, a.rad / n + 2⟩

/-- The product of two members. -/
def mul (p : Nat) (a b : Enclosure) : Enclosure :=
  let spread := a.mid.natAbs * b.rad + b.mid.natAbs * a.rad + a.rad * b.rad
  ⟨a.mid * b.mid / 2 ^ p, spread / 2 ^ p + 2⟩

/-- The quotient of two members, unless the divisor's interval holds zero. -/
def div? (p : Nat) (a b : Enclosure) : Option Enclosure :=
  if b.mid.natAbs ≤ b.rad then none
  else
    let spread := a.mid.natAbs * b.rad + b.mid.natAbs * a.rad
    let least := b.mid.natAbs * (b.mid.natAbs - b.rad)
    some ⟨a.mid * 2 ^ p / b.mid, spread * 2 ^ p / least + 2⟩

/-- The same interval at a precision lower by `k`. -/
def coarsen (k : Nat) (a : Enclosure) : Enclosure :=
  ⟨a.mid / 2 ^ k, a.rad / 2 ^ k + 2⟩

/-- The largest absolute value of a member. -/
def bound (a : Enclosure) : Nat :=
  a.mid.natAbs + a.rad

/-- The interval widened at both ends. -/
def widen (a : Enclosure) (n : Nat) : Enclosure :=
  ⟨a.mid, a.rad + n⟩

/-- The sum of a series whose terms shrink at least by half each time. `power` is
the `k`-th running power, `term k power` the term it gives and `next k power` the
following power. Summation stops when a power is too small to matter, or when
the steps run out, and twice the first omitted power bounds what is left. -/
def series (term next : Nat → Enclosure → Enclosure) :
    Nat → Nat → Enclosure → Enclosure → Enclosure
  | 0, _, power, sum => sum.widen (2 * power.bound)
  | steps + 1, k, power, sum =>
      if power.bound ≤ 4 then sum.widen (2 * power.bound)
      else series term next steps (k + 1) (next k power) (sum.add (term k power))

/-- The inverse hyperbolic tangent of a member of absolute value at most one half. -/
def artanh (p : Nat) (z : Enclosure) : Enclosure :=
  let square := mul p z z
  series (fun k power => power.divNat (2 * k + 1)) (fun _ power => mul p power square)
    p 0 z (ofInt p 0)

/-- The arc tangent of a member of absolute value at most one half. -/
def arctan (p : Nat) (z : Enclosure) : Enclosure :=
  let square := (mul p z z).neg
  series (fun k power => power.divNat (2 * k + 1)) (fun _ power => mul p power square)
    p 0 z (ofInt p 0)

/-- The natural logarithm of two, `2 artanh (1/3)`. -/
def ln2 (p : Nat) : Enclosure :=
  scale 2 (artanh p (ofRatio p 1 3))

/-- The natural logarithm of ten, `3 ln 2 + 2 artanh (1/9)`. -/
def ln10 (p : Nat) : Enclosure :=
  (scale 3 (ln2 p)).add (scale 2 (artanh p (ofRatio p 1 9)))

/-- Half of pi, `8 arctan (1/5) - 2 arctan (1/239)`. -/
def halfPi (p : Nat) : Enclosure :=
  (scale 8 (arctan p (ofRatio p 1 5))).sub (scale 2 (arctan p (ofRatio p 1 239)))

/-- The natural logarithm of the positive fraction `num / den`. A power of two is
split off so that the rest lies between two thirds and four thirds. -/
def ln (p : Nat) (num den : Nat) : Enclosure :=
  let rough : Int := (num.log2 : Int) - den.log2
  let scaled (k : Int) : Nat × Nat := (num * 2 ^ (-k).toNat, den * 2 ^ k.toNat)
  let fits (k : Int) : Bool := decide (3 * (scaled k).1 < 4 * (scaled k).2)
  let k := if fits (rough - 1) then rough - 1 else if fits rough then rough else rough + 1
  let (a, b) := scaled k
  (scale k (ln2 p)).add (scale 2 (artanh p (ofRatio p ((a : Int) - b) (a + b))))

/-- The sine of a member of absolute value at most one. -/
def sinSeries (p : Nat) (r : Enclosure) : Enclosure :=
  let square := (mul p r r).neg
  series (fun _ power => power)
    (fun k power => (mul p power square).divNat ((2 * k + 2) * (2 * k + 3)))
    p 0 r (ofInt p 0)

/-- The cosine of a member of absolute value at most one. -/
def cosSeries (p : Nat) (r : Enclosure) : Enclosure :=
  let square := (mul p r r).neg
  series (fun _ power => power)
    (fun k power => (mul p power square).divNat ((2 * k + 1) * (2 * k + 2)))
    p 0 (ofInt p 1) (ofInt p 0)

/-- The exponential of a member of absolute value at most one half. -/
def expSeries (p : Nat) (r : Enclosure) : Enclosure :=
  series (fun _ power => power) (fun k power => (mul p power r).divNat (k + 1))
    p 0 (ofInt p 1) (ofInt p 0)

/-- Sine and cosine of the fraction `num / den`. The nearest multiple of a right
angle is taken off, at a precision that leaves `p` places after it, and the number of right
angles says which series stands for which function. -/
def sinCos (p : Nat) (num : Int) (den : Nat) : Enclosure × Enclosure :=
  let extra := (num.natAbs / den).log2 + 4
  let fine := p + extra
  let angle := ofRatio fine num den
  let right := halfPi fine
  let turns := (2 * angle.mid + right.mid) / (2 * right.mid)
  let r := (angle.sub (scale turns right)).coarsen extra
  let s := sinSeries p r
  let c := cosSeries p r
  if turns % 4 = 0 then (s, c)
  else if turns % 4 = 1 then (c, s.neg)
  else if turns % 4 = 2 then (s.neg, c.neg)
  else (c.neg, s)

/-- The exponential of a member, as an enclosure and the power of two by which it
is to be multiplied. -/
def exp (p : Nat) (t : Enclosure) : Enclosure × Int :=
  let unit := ln2 p
  let k := (2 * t.mid + unit.mid) / (2 * unit.mid)
  (expSeries p (t.sub (scale k unit)), k)

end Enclosure

end Graphing
