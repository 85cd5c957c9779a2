import Graphing.Plot.Basic
import Graphing.Text.Basic

/-!
# Descriptions

Curves, artifacts and plots written out in full, for someone who looks for a
mistake. A curve takes one line for each property.
-/

namespace Graphing

/-- One line of a curve's description. -/
def propertyLine (ink : Text.Ink) (label value : String) : String :=
  "    " ++ ink.cyan label ++ ": " ++ value ++ "\n"

/-- A curve, one property to a line. -/
def Curve.description (ink : Text.Ink) (curve : Curve) : String :=
  "\x7b\n" ++
    propertyLine ink "Name" curve.name ++
    propertyLine ink "Expression" curve.text ++
    propertyLine ink "Folded" curve.artifact.term.text ++
    propertyLine ink "Color" curve.color.text ++
    propertyLine ink "Visible" (if curve.visible then "true" else "false") ++
    "\x7d\n"

/-- An artifact on one line; `render` writes its fingerprint. -/
def Artifact.description (render : Fingerprint → String) (artifact : Artifact) : String :=
  "CompiledArtifact \x7b fingerprint: " ++ render artifact.fingerprint ++
    ", tree: " ++ artifact.term.text ++ " \x7d"

/-- An artifact with a line for each part. -/
def Artifact.longDescription (render : Fingerprint → String) (artifact : Artifact) : String :=
  "CompiledArtifact \x7b\n    fingerprint: " ++ render artifact.fingerprint ++
    ",\n    tree: " ++ artifact.term.text ++ ",\n\x7d"

/-- A color by its parts. -/
def Color.description (color : Color) : String :=
  "Color \x7b r: " ++ toString color.red.toNat ++ ", g: " ++ toString color.green.toNat ++
    ", b: " ++ toString color.blue.toNat ++ " \x7d"

/-- A list of descriptions. -/
def listDescription (items : List String) : String :=
  "[" ++ String.intercalate ", " items ++ "]"

/-- A color cycle. -/
def ColorCycle.description (cycle : ColorCycle) : String :=
  "ColorCycle \x7b palette: " ++ listDescription (cycle.palette.map Color.description) ++
    ", position: " ++ toString cycle.position ++ " \x7d"

/-- A plot with all its curves. -/
def Plot.description (ink : Text.Ink) (plot : Plot) : String :=
  "FunctionList \x7b functions: " ++
    listDescription (plot.curves.map (Curve.description ink)) ++
    ", limit: " ++ toString plot.limit ++ ", colors: " ++ plot.colors.description ++ " \x7d"

end Graphing
