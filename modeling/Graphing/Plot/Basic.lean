import Graphing.Curve

/-!
# Plots

A plot holds curves in the order in which they were added, up to a limit, and the
color cycle from which new curves take their colors. Names need not differ; a
name stands for the first curve that has it.
-/

namespace Graphing

/-- The curves of a plot, how many it may hold, and the colors to come. -/
structure Plot where
  curves : List Curve
  limit : Nat
  colors : ColorCycle

/-- The samples of one visible curve. -/
structure Series where
  name : String
  color : Color
  samples : List Binary64

namespace Plot

/-- How many curves a plot holds if nothing else is said. -/
def defaultLimit : Nat := 5

/-- A plot without curves. -/
def withLimit (limit : Nat) : Plot :=
  ⟨[], limit, ColorCycle.initial⟩

/-- A plot without curves, with the default limit. -/
def empty : Plot :=
  withLimit defaultLimit

/-- Whether no further curve can be added. -/
def isFull (plot : Plot) : Bool :=
  decide (plot.limit ≤ plot.curves.length)

/-- Refuses to go on if no further curve can be added. -/
def ensureRoom : Work Plot Unit :=
  Work.look fun plot =>
    if plot.isFull then .error (.tooManyFunctions plot.limit) else .ok ()

/-- Hands out the next color. -/
def nextColor : Work Plot Color := do
  let color ← Work.look fun plot => .ok plot.colors.color
  Work.modify fun plot => { plot with colors := plot.colors.advance }
  return color

/-- Puts a curve behind the others. -/
def append (curve : Curve) : Work Plot Unit :=
  Work.modify fun plot => { plot with curves := plot.curves ++ [curve] }

/-- Adds a curve as it is. -/
def push (curve : Curve) : Work Plot Unit := do
  ensureRoom
  append curve

/-- Adds a curve from a text. The limit comes first: a full plot refuses without reading the
text. A color is taken only when the curve is made. -/
def define (name text : String) : Work (Plot × Cache) Curve := do
  ensureRoom
  let curve ← Work.ask (Curve.ofText name text)
  let color ← nextColor
  append (curve.withColor color)
  return curve.withColor color

/-- Adds a curve from what was saved of it. The color is taken before the text is read. -/
def restore (record : CurveRecord) : Work (Plot × Cache) Unit := do
  ensureRoom
  let color ← nextColor
  let curve ← Work.ask (Curve.ofRecord record)
  append (curve.withColor color)

/-- The functions that a plot shows at first. -/
def defaultFunctions : List (String × String) :=
  [("f", "-(x^^2)-sin(x*pi*8)"), ("g", "sin(x*pi*2)")]

/-- A plot of the default functions. -/
def withDefaults : Cache → Outcome Plot :=
  Work.build empty (defaultFunctions.forM fun (name, text) => discard (define name text))

/-- Makes a plot from saved curves, colored anew. Loading stops at the first record that is
refused or exceeds the limit. -/
def ofRecords (records : List CurveRecord) (limit : Nat) : Cache → Outcome Plot :=
  Work.build (withLimit limit) (records.forM restore)

/-- What is saved of a plot. -/
def records (plot : Plot) : List CurveRecord :=
  plot.curves.map Curve.record

/-- The first curve of a name. -/
def find? (plot : Plot) (name : String) : Option Curve :=
  plot.curves.find? fun curve => curve.name = name

/-- Finds the first curve of a name, and refuses to go on without it. -/
def first (name : String) : Work Plot Curve :=
  Work.look fun plot =>
    match plot.find? name with
    | none => .error (.functionNotFound name)
    | some curve => .ok curve

/-- Takes off the first curve of a name. -/
def remove (name : String) : Work Plot Curve := do
  let curve ← first name
  Work.note (.removed name)
  Work.modify fun plot =>
    { plot with curves := plot.curves.eraseP fun curve => curve.name = name }
  return curve

/-- Puts another curve in the place of the first one of a name. -/
def replaceFirst (name : String) (changed : Curve) : List Curve → List Curve
  | [] => []
  | curve :: rest =>
      if curve.name = name then changed :: rest
      else curve :: replaceFirst name changed rest

/-- The plot with its first curve of a name replaced. -/
def replace (plot : Plot) (name : String) (changed : Curve) : Plot :=
  { plot with curves := replaceFirst name changed plot.curves }

/-- Works on the first curve of a name in its place, if there is one, and tells what it has
become. -/
def onFirst (name : String) (work : Work (Curve × Cache) Unit) :
    Work (Plot × Cache) (Option Curve) :=
  fun (plot, cache) =>
    match plot.find? name with
    | none => ⟨.ok none, (plot, cache), []⟩
    | some curve =>
        let change := work (curve, cache)
        ⟨change.result.map fun _ => some change.after.1,
          (plot.replace name change.after.1, change.after.2), change.events⟩

/-- The plot without its curves. Colors go on from where they are. -/
def clear (plot : Plot) : Plot :=
  { plot with curves := [] }

/-- The samples of the visible curves, in order. -/
def sampleVisible (plot : Plot) (grid : SampleGrid) : List Series :=
  (plot.curves.filter Curve.visible).map fun curve =>
    ⟨curve.name, curve.color, curve.sample grid⟩

end Plot

end Graphing
