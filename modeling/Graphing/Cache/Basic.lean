import Graphing.Term.Closure
import Graphing.Term.Lowering
import Graphing.Event

/-!
# The cache of compiled formulas

The cache keeps one artifact for every formula that was compiled, and never drops
one. Formulas are told apart by equality of trees, so two that differ can never
share an artifact. Each artifact has an identity of its own, by which sharing can be
observed.
-/

namespace Graphing

/-- A compiled formula. -/
structure Artifact where
  /-- Tells artifacts apart, also those of one formula. -/
  identity : Nat
  fingerprint : Fingerprint
  term : Term Binary64
  deriving DecidableEq

/-- The function that an artifact computes. -/
def Artifact.function (artifact : Artifact) : Binary64 → Binary64 :=
  artifact.term.closure

/-- Compiles a formula into an artifact of a given identity. -/
def Expr.compile (formula : Formula) (identity : Nat) : Except CompileError Artifact :=
  match formula.lower with
  | .error error => .error error
  | .ok term => .ok ⟨identity, formula.fingerprint, term⟩

/-- Artifacts by formula, counters of requests that found or missed one, and the next
identity to give. -/
structure Cache where
  entries : List (Formula × Artifact)
  hits : Nat
  misses : Nat
  nextIdentity : Nat

namespace Cache

/-- The cache at the start. -/
def empty : Cache := ⟨[], 0, 0, 0⟩

/-- The artifact stored for a formula. -/
def lookup (cache : Cache) (formula : Formula) : Option Artifact :=
  (cache.entries.find? fun entry => entry.1 = formula).map Prod.snd

/-- The number of formulas stored. -/
def size (cache : Cache) : Nat :=
  cache.entries.length

/-- Counts a request that found its artifact. -/
def countHit (cache : Cache) : Cache :=
  { cache with hits := cache.hits + 1 }

/-- Counts a request that found none. -/
def countMiss (cache : Cache) : Cache :=
  { cache with misses := cache.misses + 1 }

/-- Takes an identity out of the supply. -/
def takeIdentity (cache : Cache) : Cache :=
  { cache with nextIdentity := cache.nextIdentity + 1 }

/-- Stores an artifact. -/
def store (cache : Cache) (formula : Formula) (artifact : Artifact) : Cache :=
  { cache with entries := (formula, artifact) :: cache.entries }

/-! ## What the operations do to the entries -/

@[simp] theorem lookup_countMiss (cache : Cache) (formula : Formula) :
    cache.countMiss.lookup formula = cache.lookup formula := rfl

@[simp] theorem lookup_takeIdentity (cache : Cache) (formula : Formula) :
    cache.takeIdentity.lookup formula = cache.lookup formula := rfl

/-- A stored artifact is found under its formula. -/
@[simp] theorem lookup_store_self (cache : Cache) (formula : Formula) (artifact : Artifact) :
    (cache.store formula artifact).lookup formula = some artifact := by
  simp [lookup, store]

/-- Storing an artifact leaves the other formulas alone. -/
theorem lookup_store_of_ne (cache : Cache) {formula other : Formula} (artifact : Artifact)
    (h : formula ≠ other) :
    (cache.store formula artifact).lookup other = cache.lookup other := by
  simp [lookup, store, h]

end Cache

end Graphing
