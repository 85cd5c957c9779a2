/-!
# Text

How text is compared and laid out, whatever it says.

* **Case** — built-in names are compared without regard to the case of the twenty-six ASCII
  letters; every other character stands for itself.
* **White space** — the characters that Unicode gives the property White_Space. A formula made
  of them alone counts as empty.
* **Ink** — text for a terminal is written either plainly or with escape sequences that color
  it.
-/

namespace Graphing.Text

/-! ## Case -/

/-- The text with its ASCII capitals made small. -/
def lowerCase (s : String) : String :=
  String.ofList (s.toList.map Char.toLower)

/-- Whether two texts differ at most in the case of ASCII letters. -/
def equalIgnoringCase (s t : String) : Bool :=
  decide (lowerCase s = lowerCase t)

/-! ## White space -/

/-- The ranges of code points with the property White_Space. -/
def blankRanges : List (Nat × Nat) :=
  [(0x09, 0x0d), (0x20, 0x20), (0x85, 0x85), (0xa0, 0xa0), (0x1680, 0x1680),
    (0x2000, 0x200a), (0x2028, 0x2029), (0x202f, 0x202f), (0x205f, 0x205f), (0x3000, 0x3000)]

/-- Whether a character is white space. -/
def isBlankChar (c : Char) : Bool :=
  blankRanges.any fun (low, high) => low ≤ c.toNat && c.toNat ≤ high

/-- Whether a text holds nothing but white space. -/
def isBlank (s : String) : Bool :=
  s.toList.all isBlankChar

/-! ## Ink -/

/-- Whether text may be colored. -/
inductive Ink where
  | plain
  | colored
  deriving DecidableEq

namespace Ink

/-- Puts a text between the sequence with the given code and the one that ends it. -/
def paint (ink : Ink) (code text : String) : String :=
  match ink with
  | plain => text
  | colored => "\x1b[" ++ code ++ "m" ++ text ++ "\x1b[0m"

/-- Cyan text. -/
def cyan (ink : Ink) (text : String) : String :=
  ink.paint "36" text

/-- Bold text. -/
def bold (ink : Ink) (text : String) : String :=
  ink.paint "1" text

/-- Bold red text. -/
def boldRed (ink : Ink) (text : String) : String :=
  ink.paint "1;31" text

end Ink

/-- The text with blanks in front, up to a width in characters. -/
def padLeft (width : Nat) (text : String) : String :=
  String.ofList (List.replicate (width - text.toList.length) ' ') ++ text

end Graphing.Text
