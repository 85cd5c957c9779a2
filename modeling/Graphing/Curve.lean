import Graphing.Color
import Graphing.Expr.Parser
import Graphing.SampleGrid
import Graphing.Work

/-!
# Curves

A curve is a function with a name, the text it was entered as, the formula and
artifact of that text, a color, and whether it is shown. A curve is made from a text, and
it can be given another one where it is.
-/

namespace Graphing

/-- Reads a text and fetches the artifact of its formula. -/
def compileText (text : String) (cache : Cache) : Outcome (Formula × Artifact) :=
  match Expr.parse text with
  | .error error => ⟨.error (.parse error), cache, []⟩
  | .ok formula =>
      let answered := cache.getOrCompile formula
      match answered.answer with
      | .error error => ⟨.error (.compile error), answered.cache, answered.events⟩
      | .ok artifact => ⟨.ok (formula, artifact), answered.cache, answered.events⟩

/-- Whether a text would be accepted. What was compiled stays in the cache. -/
def validate (text : String) (cache : Cache) : Outcome Unit :=
  (compileText text cache).map fun _ => ()

/-- What is kept of a curve when it is saved. -/
structure CurveRecord where
  visible : Bool
  name : String
  text : String
  deriving DecidableEq

/-- A named function ready to be plotted. -/
structure Curve where
  name : String
  text : String
  formula : Formula
  artifact : Artifact
  color : Color
  visible : Bool
  deriving DecidableEq

namespace Curve

/-- Makes a visible curve of the initial color from a text. -/
def ofText (name text : String) (cache : Cache) : Outcome Curve :=
  ((compileText text cache).map fun (formula, artifact) =>
    (⟨name, text, formula, artifact, Color.initial, true⟩ : Curve)).report
      fun curve => .defined name text curve.artifact.fingerprint

/-- Makes a curve from what was saved of it. -/
def ofRecord (record : CurveRecord) (cache : Cache) : Outcome Curve :=
  (ofText record.name record.text cache).map fun curve =>
    { curve with visible := record.visible }

/-- What is saved of a curve. -/
def record (curve : Curve) : CurveRecord :=
  ⟨curve.visible, curve.name, curve.text⟩

/-- Takes over a text with its formula and artifact, one after the other. -/
def assign (text : String) (formula : Formula) (artifact : Artifact) : Work Curve Unit := do
  let curve ← Work.look .ok
  Work.note (.redefined curve.name text artifact.fingerprint)
  Work.modify fun curve => { curve with text := text }
  Work.modify fun curve => { curve with formula := formula }
  Work.modify fun curve => { curve with artifact := artifact }

/-- Gives the curve another text. -/
def redefine (text : String) : Work (Curve × Cache) Unit := do
  let made ← Work.ask (compileText text)
  assign text made.1 made.2

/-- Changes how the curve looks and what it is called. -/
def edit (visible : Option Bool) (color : Option Color) (rename : Option String) :
    Work Curve Unit := do
  Work.modify fun curve => { curve with visible := visible.getD curve.visible }
  Work.modify fun curve => { curve with color := color.getD curve.color }
  Work.modify fun curve => { curve with name := rename.getD curve.name }

/-- The curve in another color. -/
def withColor (curve : Curve) (color : Color) : Curve :=
  { curve with color := color }

/-- The value at a place. -/
def value (curve : Curve) (x : Binary64) : Binary64 :=
  curve.artifact.function x

/-- The values at all places of a grid, in order. -/
def sample (curve : Curve) (grid : SampleGrid) : List Binary64 :=
  grid.places.map curve.artifact.function

/-- The curve as an equation. -/
def equation (curve : Curve) : String :=
  curve.name ++ "(x) = " ++ curve.text

end Curve

end Graphing
