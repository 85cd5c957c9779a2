import Graphing.Binary64.Arithmetic

/-!
# Sample grids

The places at which a function is sampled lie at equal steps from a first one. They
are computed with rounding: the step may be a rounded quotient, and each place is
a rounded multiple of the step added to the first place.
-/

namespace Graphing

/-- Evenly spaced places: `first`, `first + step`, and so on, `count` in all. -/
structure SampleGrid where
  first : Binary64
  step : Binary64
  count : Nat
  deriving DecidableEq

namespace SampleGrid

/-- The grid of `count` places from `low` to `high`. With fewer than two places the
step is zero. -/
def between (low high : Binary64) (count : Nat) : SampleGrid :=
  let step :=
    if 1 < count then Binary64.div (Binary64.sub high low) (Binary64.ofNat (count - 1))
    else Binary64.zero false
  ⟨low, step, count⟩

/-- Screen dots to a centimetre. -/
def dotsPerCentimetre : Nat := 40

/-- The grid of a window `width` dots wide whose left edge is at `left`, with a
place at every `density` dots and `scale` centimetres to the unit. A density of zero counts as
one. -/
def viewport (left : Binary64) (width density : Nat) (scale : Binary64) : SampleGrid :=
  let density := max density 1
  let step := Binary64.div (Binary64.ofNat density)
    (Binary64.mul (Binary64.ofNat dotsPerCentimetre) scale)
  ⟨left, step, width / density + 1⟩

/-- The place with an index. -/
def place (grid : SampleGrid) (index : Nat) : Binary64 :=
  Binary64.add grid.first (Binary64.mul (Binary64.ofNat index) grid.step)

/-- All places in order. -/
def places (grid : SampleGrid) : List Binary64 :=
  (List.range grid.count).map grid.place

end SampleGrid

end Graphing
