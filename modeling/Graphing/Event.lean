import Graphing.Expr.Fingerprint
import Graphing.Expr.Printer

/-!
# Events

What happens inside while functions are defined is reported as a list of events. An
event knows how serious it is, which part of the library it comes from, and its wording.
-/

namespace Graphing

/-- How serious an event is. -/
inductive Severity where
  | trace
  | debug
  | warning
  deriving DecidableEq

/-- The part of the library that reports an event. -/
inductive Reporter where
  | compiler
  | cache
  | curve
  | plot
  deriving DecidableEq

/-- Something worth reporting. -/
inductive Event where
  /-- A formula was found in the cache. -/
  | cacheHit (fingerprint : Fingerprint)
  /-- A formula was compiled. -/
  | compiled (fingerprint : Fingerprint) (term : Term Binary64)
  /-- A formula was compiled a second time while the first result was stored. -/
  | compiledTwice (fingerprint : Fingerprint)
  /-- A function was made from a text. -/
  | defined (name text : String) (fingerprint : Fingerprint)
  /-- A function was given another text. -/
  | redefined (name text : String) (fingerprint : Fingerprint)
  /-- A function was taken off a plot. -/
  | removed (name : String)
  deriving DecidableEq

namespace Event

/-- How serious an event is. -/
def severity : Event → Severity
  | cacheHit _ => .trace
  | compiledTwice _ => .warning
  | _ => .debug

/-- Where an event comes from. -/
def reporter : Event → Reporter
  | cacheHit _ => .cache
  | compiled _ _ => .compiler
  | compiledTwice _ => .cache
  | defined _ _ _ => .curve
  | redefined _ _ _ => .curve
  | removed _ => .plot

/-- The wording of an event; `render` writes a fingerprint. -/
def message (render : Fingerprint → String) : Event → String
  | cacheHit fingerprint => "cache hit for " ++ render fingerprint
  | compiled fingerprint term =>
      "compiled formula " ++ render fingerprint ++ " into " ++ toString term.size ++
        " nodes: " ++ term.text
  | compiledTwice fingerprint =>
      "formula " ++ render fingerprint ++
        " was compiled concurrently, keeping the first artifact"
  | defined name text fingerprint =>
      "defined " ++ name ++ "(x) = " ++ text ++ " [" ++ render fingerprint ++ "]"
  | redefined name text fingerprint =>
      "redefined " ++ name ++ "(x) = " ++ text ++ " [" ++ render fingerprint ++ "]"
  | removed name => "removed function " ++ name

end Event

end Graphing
