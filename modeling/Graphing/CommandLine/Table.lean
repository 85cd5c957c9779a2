import Graphing.CommandLine.Arguments
import Graphing.Decimal.Numeral
import Graphing.Plot.Basic
import Graphing.Text.Basic

/-!
# The command

The command prints the values of a formula as a table. A formula that is refused is
shown again with a caret under the place that its error points at.
-/

namespace Graphing.CommandLine

/-- What the command leaves behind. -/
structure Response where
  status : Nat
  output : String
  errors : String
  deriving DecidableEq

/-- The line of the version. -/
def versionLine : String := "plotexpr-cli 0.1.0\n"

/-- The explanation of the arguments. -/
def helpLines : List String :=
  ["Compile a formula of x and print a table of its values",
    "",
    "Usage: plotexpr-cli [OPTIONS] <EXPRESSION>",
    "",
    "Arguments:",
    "  <EXPRESSION>  Formula to compile, e.g. \"-(x^2)-sin(x*pi*8)\"",
    "",
    "Options:",
    "      --from <FROM>        First x value [default: -10]",
    "      --to <TO>            Last x value [default: 10]",
    "      --samples <SAMPLES>  Number of evenly spaced samples [default: 11]",
    "      --tree               Print the constant-folded tree",
    "  -h, --help               Print help",
    "  -V, --version            Print version"]

/-- The reminder of what the arguments are. -/
def usageLine : String :=
  "Usage: plotexpr-cli [--from X] [--to X] [--samples N] [--tree] EXPRESSION\n"

/-- The heading of the table. -/
def heading (ink : Text.Ink) (curve : Curve) : String :=
  ink.bold (Text.padLeft 16 "x") ++ "  " ++ ink.bold (Text.padLeft 24 curve.equation) ++ "\n"

/-- One row of the table: the place to six decimals and the value to twelve. -/
def row (x y : Binary64) : String :=
  Text.padLeft 16 (x.fixedText 6) ++ "  " ++ Text.padLeft 24 (y.fixedText 12) ++ "\n"

/-- The line that shows the term of a curve. -/
def termLine (ink : Text.Ink) (curve : Curve) : String :=
  ink.cyan "Folded:" ++ " " ++ curve.artifact.term.text ++ "\n"

/-- The table of a curve on a grid. -/
def table (ink : Text.Ink) (curve : Curve) (grid : SampleGrid) : String :=
  String.join (heading ink curve :: grid.places.map fun x => row x (curve.value x))

/-- The formula with a caret under a column, counted from one. -/
def pointer (ink : Text.Ink) (expression : String) (column : Nat) : String :=
  "  " ++ expression ++ "\n" ++
    "  " ++ String.ofList (List.replicate (column - 1) ' ') ++ ink.boldRed "^" ++ "\n"

/-- What is printed for a formula that is refused. -/
def complaint (ink : Text.Ink) (expression : String) (error : FormulaError) : String :=
  (error.column?.elim "" (pointer ink expression)) ++
    ink.boldRed "Error:" ++ " " ++ error.message ++ "\n"

/-- Prints the table of an invocation, or the complaint about its formula. -/
def tabulate (ink : Text.Ink) (invocation : Invocation) : Response :=
  match (Curve.ofText "f" invocation.expression Cache.empty).result with
  | .error error => ⟨1, "", complaint ink invocation.expression error⟩
  | .ok curve =>
      let grid := SampleGrid.between invocation.low invocation.high invocation.samples
      let term := if invocation.showTerm then termLine ink curve else ""
      ⟨0, term ++ table ink curve grid, ""⟩

/-- Carries out a command line. Arguments that make no sense end with status two. -/
def respond (ink : Text.Ink) (arguments : List String) : Response :=
  match understand arguments with
  | .table invocation => tabulate ink invocation
  | .version => ⟨0, versionLine, ""⟩
  | .help => ⟨0, String.join (helpLines.map (· ++ "\n")), ""⟩
  | .misuse => ⟨2, "", usageLine⟩

end Graphing.CommandLine
