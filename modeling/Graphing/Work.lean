import Graphing.Cache.Request

/-!
# Operations that can fail

An operation makes something new or works on something where it is.

* What makes something new uses the cache at most. Its `Outcome` is the result together with the
  cache as the operation left it.
* What works on something where it is leaves it as it is by then, and so does a failure half way:
  a `Change` has a state beside the error as beside the value. Nothing is put back, so it is the
  order of the steps that decides what a failure leaves behind.

The steps of a `Work` are done one after the other, up to the first that fails.
-/

namespace Graphing

/-- The result of an operation that uses the cache. The cache keeps what happened
to it even if the operation fails. -/
structure Outcome (β : Type) where
  result : Except FormulaError β
  cache : Cache
  events : List Event

namespace Outcome

variable {β γ : Type}

/-- Changes the value of a success. -/
def map (f : β → γ) (outcome : Outcome β) : Outcome γ :=
  ⟨outcome.result.map f, outcome.cache, outcome.events⟩

/-- Reports an event after a success. -/
def report (event : β → Event) (outcome : Outcome β) : Outcome β :=
  match outcome.result with
  | .error _ => outcome
  | .ok value => { outcome with events := outcome.events ++ [event value] }

end Outcome

/-- What an operation comes to that works on something where it is: the result, what it worked on
as it is afterwards, and what happened. -/
structure Change (σ β : Type) where
  result : Except FormulaError β
  after : σ
  events : List Event

/-- An operation that works on something where it is. -/
def Work (σ β : Type) : Type :=
  σ → Change σ β

namespace Work

variable {σ β γ : Type}

instance : Monad (Work σ) where
  pure value := fun state => ⟨.ok value, state, []⟩
  bind work next := fun state =>
    let first := work state
    match first.result with
    | .error error => ⟨.error error, first.after, first.events⟩
    | .ok value =>
        let second := next value first.after
        ⟨second.result, second.after, first.events ++ second.events⟩

/-- Looks at what is there, and may refuse to go on. -/
def look (view : σ → Except FormulaError β) : Work σ β :=
  fun state => ⟨view state, state, []⟩

/-- Changes what is there. -/
def modify (f : σ → σ) : Work σ Unit :=
  fun state => ⟨.ok (), f state, []⟩

/-- Reports an event. -/
def note (event : Event) : Work σ Unit :=
  fun state => ⟨.ok (), state, [event]⟩

/-- Makes something new with the cache that is at hand. -/
def ask (make : Cache → Outcome β) : Work (σ × Cache) β :=
  fun (state, cache) =>
    let outcome := make cache
    ⟨outcome.result, (state, outcome.cache), outcome.events⟩

/-- Work that has no use for the cache that is at hand. -/
instance : MonadLift (Work σ) (Work (σ × Cache)) where
  monadLift work := fun (state, cache) =>
    let change := work state
    ⟨change.result, (change.after, cache), change.events⟩

/-- Makes something new by working on it from a start. If the work fails, what has become of it
is dropped. -/
def build (start : σ) (work : Work (σ × Cache) Unit) (cache : Cache) : Outcome σ :=
  let change := work (start, cache)
  ⟨change.result.map fun _ => change.after.1, change.after.2, change.events⟩

end Work

end Graphing
