import Graphing.Plot.Basic

/-!
# Sessions

A session is one cache, one plot, and curves set aside under names of their own.
`perform` carries out one command: it returns the session after it, a reply, and the
events of the command. A command that fails replies with its error and the session
goes on; what failed half way leaves at most its traces in the cache.
-/

namespace Graphing

/-- A cache, a plot and the curves set aside. -/
structure Session where
  cache : Cache
  plot : Plot
  slots : List (String × Curve)

/-- What a session can be asked to do. -/
inductive Command where
  /-- Start a new plot. -/
  | newPlot (limit : Option Nat) (palette : Option (List Color))
  /-- Start a plot of the default functions. -/
  | newDefaults
  /-- Take off all curves. -/
  | clear
  /-- Add a curve from a text. -/
  | define (name text : String)
  /-- Take off a curve, and set it aside if a slot is given. -/
  | remove (name : String) (slot : Option String)
  /-- Show a curve. -/
  | get (name : String)
  /-- Give a curve another text. -/
  | redefine (name text : String)
  /-- Change how a curve looks and what it is called. -/
  | edit (name : String) (visible : Option Bool) (color : Option Color)
      (rename : Option String)
  /-- Save all curves. -/
  | records
  /-- Save one curve. -/
  | record (name : String)
  /-- Replace the plot by saved curves. -/
  | load (records : List CurveRecord) (limit : Nat)
  /-- Make a curve from a text, and set it aside if a slot is given. -/
  | make (slot : Option String) (name text : String) (color : Option Color)
  /-- Make a curve from a record and set it aside. -/
  | restore (slot : String) (record : CurveRecord)
  /-- Add a copy of a curve that was set aside. -/
  | push (slot : String)
  /-- Show a curve that was set aside. -/
  | showSlot (slot : String)
  /-- The values of a curve at some places. -/
  | calculate (name : String) (xs : List Binary64)
  /-- The values of a curve on a grid. -/
  | sample (name : String) (grid : SampleGrid)
  /-- The values of all visible curves on a grid. -/
  | sampleVisible (grid : SampleGrid)
  /-- Check a text. -/
  | validate (text : String)
  /-- The artifact of a formula, compiled on first use. -/
  | compile (formula : Formula)
  /-- The artifact of a formula, if it is stored. -/
  | lookup (formula : Formula)
  /-- The artifact of a formula, asked for twice at once. -/
  | race (formula : Formula)
  /-- The plot itself. -/
  | showPlot

/-- What a session replies. -/
inductive Reply where
  /-- Nothing to say. -/
  | done
  /-- The text is accepted. -/
  | accepted
  /-- There is no such curve, slot or entry. -/
  | absent
  | curve (curve : Curve)
  | records (records : List CurveRecord)
  | record (record : CurveRecord)
  | values (values : List Binary64)
  | series (series : List Series)
  | artifact (artifact : Artifact)
  /-- The artifact that a raced request got, and the one that the other got. -/
  | raced (artifact : Artifact) (other : Option Artifact)
  | plot (plot : Plot)
  | failed (error : FormulaError)
  /-- The tree has no meaning. -/
  | uncompilable (error : CompileError)

namespace Session

/-- A session at its start. -/
def initial : Session :=
  ⟨Cache.empty, Plot.empty, []⟩

/-- The curve in a slot. -/
def slot? (session : Session) (slot : String) : Option Curve :=
  (session.slots.find? fun entry => entry.1 = slot).map Prod.snd

/-- Sets a curve aside, in place of the one that the slot held. -/
def setAside (session : Session) (slot : String) (curve : Curve) : Session :=
  { session with slots := (slot, curve) :: session.slots.filter fun entry => entry.1 ≠ slot }

/-- Sets a curve aside if a slot is given. -/
def setAside? (session : Session) (slot : Option String) (curve : Curve) : Session :=
  match slot with
  | none => session
  | some slot => session.setAside slot curve

/-- The session after a command, the reply, and what happened. -/
abbrev Performed := Session × Reply × List Event

/-- Ends a command with a result: an error is the reply, a value is put to use. -/
def finish {β : Type} (session : Session) (result : Except FormulaError β)
    (events : List Event) (succeed : Session → β → Session × Reply) : Performed :=
  match result with
  | .error error => (session, .failed error, events)
  | .ok value =>
      let (session, reply) := succeed session value
      (session, reply, events)

/-- A command that makes something new with the cache. -/
def conclude {β : Type} (session : Session) (outcome : Outcome β)
    (succeed : Session → β → Session × Reply) : Performed :=
  { session with cache := outcome.cache }.finish outcome.result outcome.events succeed

/-- A command that works on the plot where it is. The session goes on with the plot and the cache
as the work leaves them, whether it fails or not. -/
def onPlot {β : Type} (session : Session) (work : Work (Plot × Cache) β)
    (succeed : Session → β → Session × Reply) : Performed :=
  let change := work (session.plot, session.cache)
  { session with plot := change.after.1, cache := change.after.2 }.finish change.result
    change.events succeed

/-- A reply about a curve of the plot. -/
def about (session : Session) (name : String) (reply : Curve → Reply) : Performed :=
  match session.plot.find? name with
  | none => (session, .absent, [])
  | some curve => (session, reply curve, [])

/-- A new plot. -/
def newPlot (limit : Option Nat) (palette : Option (List Color)) : Plot :=
  let plot := Plot.withLimit (limit.getD Plot.defaultLimit)
  match palette with
  | none => plot
  | some palette => { plot with colors := ColorCycle.ofPalette palette }

/-- Adds a curve to the plot from a text. -/
def define (session : Session) (name text : String) : Performed :=
  session.onPlot (Plot.define name text) fun session curve => (session, .curve curve)

/-- Takes a curve off the plot. -/
def remove (session : Session) (name : String) (slot : Option String) : Performed :=
  session.onPlot (Plot.remove name) fun session curve =>
    (session.setAside? slot curve, .curve curve)

/-- Changes a curve of the plot in its place. -/
def onCurve (session : Session) (name : String) (work : Work (Curve × Cache) Unit) : Performed :=
  session.onPlot (Plot.onFirst name work) fun session changed =>
    (session, changed.elim .absent .curve)

/-- Adds a copy of a curve to the plot. -/
def pushCurve (session : Session) (curve : Curve) : Performed :=
  session.onPlot (Plot.push curve) fun session _ => (session, .done)

/-- Adds a copy of a curve that was set aside. -/
def push (session : Session) (slot : String) : Performed :=
  match session.slot? slot with
  | none => (session, .absent, [])
  | some curve => session.pushCurve curve

/-- Asks the cache for an artifact. -/
def compile (session : Session) (formula : Formula) : Performed :=
  let answered := session.cache.getOrCompile formula
  let session := { session with cache := answered.cache }
  match answered.answer with
  | .error error => (session, .uncompilable error, answered.events)
  | .ok artifact => (session, .artifact artifact, answered.events)

/-- Asks the cache for an artifact twice at once. -/
def race (session : Session) (formula : Formula) : Performed :=
  let (first, second) := session.cache.getOrCompileRaced formula
  let session := { session with cache := first.cache }
  match first.answer with
  | .error error => (session, .uncompilable error, first.events)
  | .ok artifact =>
      (session, .raced artifact (second.bind fun other => other.answer.toOption), first.events)

/-- Carries out a command. -/
def perform (session : Session) : Command → Performed
  | .newPlot limit palette =>
      ({ session with plot := newPlot limit palette }, .done, [])
  | .newDefaults =>
      session.conclude (Plot.withDefaults session.cache) fun session plot =>
        ({ session with plot := plot }, .done)
  | .clear => ({ session with plot := session.plot.clear }, .done, [])
  | .define name text => session.define name text
  | .remove name slot => session.remove name slot
  | .get name => session.about name .curve
  | .redefine name text => session.onCurve name (Curve.redefine text)
  | .edit name visible color rename => session.onCurve name (Curve.edit visible color rename)
  | .records => (session, .records session.plot.records, [])
  | .record name => session.about name fun curve => .record curve.record
  | .load records limit =>
      session.conclude (Plot.ofRecords records limit session.cache) fun session plot =>
        ({ session with plot := plot }, .done)
  | .make slot name text color =>
      session.conclude (Curve.ofText name text session.cache) fun session curve =>
        let curve := curve.withColor (color.getD curve.color)
        (session.setAside? slot curve, .curve curve)
  | .restore slot record =>
      session.conclude (Curve.ofRecord record session.cache) fun session curve =>
        (session.setAside slot curve, .curve curve)
  | .push slot => session.push slot
  | .showSlot slot => (session, (session.slot? slot).elim .absent .curve, [])
  | .calculate name xs =>
      session.about name fun curve => .values (xs.map curve.artifact.function)
  | .sample name grid => session.about name fun curve => .values (curve.sample grid)
  | .sampleVisible grid => (session, .series (session.plot.sampleVisible grid), [])
  | .validate text =>
      session.conclude (Graphing.validate text session.cache) fun session _ =>
        (session, .accepted)
  | .compile formula => session.compile formula
  | .lookup formula =>
      (session, (session.cache.lookup formula).elim .absent .artifact, [])
  | .race formula => session.race formula
  | .showPlot => (session, .plot session.plot, [])

end Session

end Graphing
