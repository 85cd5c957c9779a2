import Graphing.Cache.Basic

/-!
# Requests to the cache

A request for the artifact of a formula goes through stages. Looking up, counting,
compiling and storing are single steps, and other requests may take theirs in
between; `advance` is the one place that says what a step does. `getOrCompile`
is a request that is not disturbed, `getOrCompileRaced` one that another request for the same
formula overtakes while it compiles.
-/

namespace Graphing

/-- How far a request has come. -/
inductive Stage where
  /-- It has not looked yet. -/
  | asked
  /-- It has found an artifact. -/
  | found (artifact : Artifact)
  /-- It has found none. -/
  | absent
  /-- It has counted its miss. -/
  | counted
  /-- It has compiled an artifact of its own. -/
  | compiled (artifact : Artifact)
  /-- It has its answer. -/
  | finished (answer : Except CompileError Artifact)

namespace Stage

/-- A bound on the steps that are left. -/
def remaining : Stage → Nat
  | asked => 4
  | absent => 3
  | counted => 2
  | found _ => 1
  | compiled _ => 1
  | finished _ => 0

/-- The answer, once there is one. -/
def answer? : Stage → Option (Except CompileError Artifact)
  | finished answer => some answer
  | _ => none

end Stage

/-- A request's stage, the cache as the request left it, and the events so far. -/
structure Progress where
  stage : Stage
  cache : Cache
  events : List Event

namespace Progress

/-- A request at its beginning. -/
def start (cache : Cache) : Progress :=
  ⟨.asked, cache, []⟩

/-- One step of a request for a formula. An artifact that another request stored
in the meantime is kept, and the own one is dropped. -/
def advance (formula : Formula) (p : Progress) : Progress :=
  match p.stage with
  | .asked =>
      match p.cache.lookup formula with
      | some artifact => { p with stage := .found artifact }
      | none => { p with stage := .absent }
  | .found artifact =>
      ⟨.finished (.ok artifact), p.cache.countHit, p.events ++ [.cacheHit artifact.fingerprint]⟩
  | .absent => { p with stage := .counted, cache := p.cache.countMiss }
  | .counted =>
      match formula.compile p.cache.nextIdentity with
      | .error error => { p with stage := .finished (.error error) }
      | .ok artifact =>
          ⟨.compiled artifact, p.cache.takeIdentity,
            p.events ++ [.compiled artifact.fingerprint artifact.term]⟩
  | .compiled artifact =>
      match p.cache.lookup formula with
      | some first =>
          ⟨.finished (.ok first), p.cache, p.events ++ [.compiledTwice artifact.fingerprint]⟩
      | none =>
          { p with stage := .finished (.ok artifact), cache := p.cache.store formula artifact }
  | .finished _ => p

theorem remaining_advance_lt {formula : Formula} {p : Progress}
    (h : p.stage.answer? = none) :
    (p.advance formula).stage.remaining < p.stage.remaining := by
  unfold advance
  split <;> rename_i hs <;> simp only [hs]
  · split <;> simp [Stage.remaining]
  · simp [Stage.remaining]
  · simp [Stage.remaining]
  · split <;> simp [Stage.remaining]
  · split <;> simp [Stage.remaining]
  · simp [hs, Stage.answer?] at h

end Progress

/-- The answer to a request, the cache after it, and what happened. -/
structure Answered where
  answer : Except CompileError Artifact
  cache : Cache
  events : List Event

namespace Progress

/-- Takes a request to its end. -/
def finish (formula : Formula) (p : Progress) : Answered :=
  match _h : p.stage.answer? with
  | some answer => ⟨answer, p.cache, p.events⟩
  | none => (p.advance formula).finish formula
  termination_by p.stage.remaining
  decreasing_by exact remaining_advance_lt ‹_›

end Progress

namespace Cache

/-- The artifact of a formula, compiled on first use. Failures are not stored. -/
def getOrCompile (cache : Cache) (formula : Formula) : Answered :=
  (Progress.start cache).finish formula

/-- A request for a stored formula counts a hit and gets what is stored. -/
theorem getOrCompile_of_lookup_eq_some {cache : Cache} {formula : Formula}
    {artifact : Artifact} (h : cache.lookup formula = some artifact) :
    cache.getOrCompile formula =
      ⟨.ok artifact, cache.countHit, [.cacheHit artifact.fingerprint]⟩ := by
  simp [getOrCompile, Progress.start, Progress.finish, Progress.advance, Stage.answer?, h]

/-- A request for a formula without meaning counts a miss and stores nothing. -/
theorem getOrCompile_of_compile_eq_error {cache : Cache} {formula : Formula}
    {error : CompileError} (h : cache.lookup formula = none)
    (hc : formula.compile cache.nextIdentity = .error error) :
    cache.getOrCompile formula = ⟨.error error, cache.countMiss, []⟩ := by
  have hm : formula.compile cache.countMiss.nextIdentity = .error error := hc
  simp [getOrCompile, Progress.start, Progress.finish, Progress.advance, Stage.answer?, h, hm]

/-- The first request for a formula counts a miss and stores what it compiles. -/
theorem getOrCompile_of_compile_eq_ok {cache : Cache} {formula : Formula}
    {artifact : Artifact} (h : cache.lookup formula = none)
    (hc : formula.compile cache.nextIdentity = .ok artifact) :
    cache.getOrCompile formula =
      ⟨.ok artifact, cache.countMiss.takeIdentity.store formula artifact,
        [.compiled artifact.fingerprint artifact.term]⟩ := by
  have hm : formula.compile cache.countMiss.nextIdentity = .ok artifact := hc
  simp [getOrCompile, Progress.start, Progress.finish, Progress.advance, Stage.answer?, h, hm]

/-- A request that is overtaken: when it has compiled, and before it stores the
result, a second request for the same formula runs to its end. If it never gets
to compile there is no second one. -/
def getOrCompileRaced (cache : Cache) (formula : Formula) : Answered × Option Answered :=
  let first := (((Progress.start cache).advance formula).advance formula).advance formula
  match first.stage with
  | .compiled _ =>
      let second := first.cache.getOrCompile formula
      ({ first with cache := second.cache, events := first.events ++ second.events }.finish
        formula, some second)
  | _ => (first.finish formula, none)

end Cache

end Graphing
