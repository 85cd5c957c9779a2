/-!
# Colors

A plot gives each new function the next color of a palette and starts over at its
end.
-/

namespace Graphing

/-- An opaque color by its parts of red, green and blue. -/
structure Color where
  red : UInt8
  green : UInt8
  blue : UInt8
  deriving DecidableEq

namespace Color

/-- Two hexadecimal digits. -/
def partText (n : UInt8) : String :=
  let digits := Nat.toDigits 16 n.toNat
  String.ofList (List.replicate (2 - digits.length) '0' ++ digits)

/-- A color as `#rrggbb`. -/
def text (color : Color) : String :=
  "#" ++ partText color.red ++ partText color.green ++ partText color.blue

/-- The color that a function has before it is given another: red. -/
def initial : Color := ⟨255, 0, 0⟩

/-- The palette of a plot without one of its own: red, blue, green, orange, teal. -/
def defaultPalette : List Color :=
  [initial, ⟨0, 0, 255⟩, ⟨0, 128, 0⟩, ⟨255, 165, 0⟩, ⟨0, 128, 128⟩]

end Color

/-- A palette, never empty, and the place of the next color in it. -/
structure ColorCycle where
  palette : List Color
  position : Nat
  nonempty : palette ≠ []

namespace ColorCycle

/-- The default palette from its beginning. -/
def initial : ColorCycle :=
  ⟨Color.defaultPalette, 0, by decide⟩

/-- A palette from its beginning; an empty one is replaced by the default. -/
def ofPalette (palette : List Color) : ColorCycle :=
  if h : palette = [] then initial else ⟨palette, 0, h⟩

/-- The next color. -/
def color (cycle : ColorCycle) : Color :=
  cycle.palette.get ⟨cycle.position % cycle.palette.length,
    Nat.mod_lt _ (List.length_pos_iff.mpr cycle.nonempty)⟩

/-- The cycle one color further. -/
def advance (cycle : ColorCycle) : ColorCycle :=
  { cycle with position := (cycle.position + 1) % cycle.palette.length }

/-- The next colors, as many as asked for. -/
def take (cycle : ColorCycle) : Nat → List Color
  | 0 => []
  | n + 1 => cycle.color :: cycle.advance.take n

end ColorCycle

end Graphing
