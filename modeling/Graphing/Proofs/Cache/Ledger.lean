import Graphing.Cache.Request

/-!
# Accounting for artifacts

A `ledger` lists the formulas that identities were given out for, in order. A cache is
`Accounted` for by a ledger if every stored artifact was made for the formula under which it
is stored and bears an identity that the ledger has for this formula. Two formulas then
never share an identity.

`Progress.Step` says once what a step of a request can do. From it follows what a step
preserves (`Progress.Sound.step`), and by induction what a whole request does
(`Cache.Accounted.getOrCompile`), overtaken or not.
-/

namespace Graphing

/-! ## Compiling -/

theorem Expr.compile_eq_ok_iff {formula : Formula} {identity : Nat} {a : Artifact} :
    formula.compile identity = .ok a ↔
      formula.lower = .ok a.term ∧ a.fingerprint = formula.fingerprint ∧
        a.identity = identity := by
  obtain ⟨i, f, t⟩ := a
  rw [compile]
  cases formula.lower with
  | error error => simp
  | ok term =>
      simp only [Except.ok.injEq, Artifact.mk.injEq]
      constructor
      · rintro ⟨rfl, rfl, rfl⟩
        exact ⟨rfl, rfl, rfl⟩
      · rintro ⟨rfl, rfl, rfl⟩
        exact ⟨rfl, rfl, rfl⟩

theorem Expr.compile_eq_error_iff {formula : Formula} {identity : Nat} {error : CompileError} :
    formula.compile identity = .error error ↔ formula.lower = .error error := by
  rw [compile]
  cases formula.lower with
  | error error => simp
  | ok term => simp

/-! ## Ledgers -/

/-- An artifact that was made for a formula, under an identity of the ledger. -/
structure Artifact.MadeFor (a : Artifact) (ledger : List Formula) (formula : Formula) :
    Prop where
  issued : ledger[a.identity]? = some formula
  term : formula.lower = .ok a.term
  fingerprint : a.fingerprint = formula.fingerprint

theorem Artifact.MadeFor.mono {a : Artifact} {ledger longer : List Formula} {formula : Formula}
    (h : a.MadeFor ledger formula) (hle : ledger <+: longer) : a.MadeFor longer formula := by
  refine ⟨?_, h.term, h.fingerprint⟩
  obtain ⟨more, rfl⟩ := hle
  have hlt := (List.getElem?_eq_some_iff.mp h.issued).1
  rw [List.getElem?_append_left hlt]
  exact h.issued

namespace Cache

/-- Nothing that was stored is replaced or removed. -/
def Kept (earlier later : Cache) : Prop :=
  ∀ (formula : Formula) (a : Artifact),
    earlier.lookup formula = some a → later.lookup formula = some a

theorem Kept.refl (cache : Cache) : cache.Kept cache := fun _ _ h => h

theorem Kept.trans {a b c : Cache} (h : a.Kept b) (h' : b.Kept c) : a.Kept c :=
  fun formula artifact hstored => h' formula artifact (h formula artifact hstored)

theorem kept_store {cache : Cache} {formula : Formula} (h : cache.lookup formula = none)
    (a : Artifact) : cache.Kept (cache.store formula a) := by
  intro other b hb
  -- what is stored already is stored under another formula
  have hne : formula ≠ other := by
    rintro rfl
    rw [h] at hb
    cases hb
  rw [lookup_store_of_ne cache a hne]
  exact hb

/-- A right answer to a request: the stored artifact, or the error of the formula. -/
def Answers (cache : Cache) (formula : Formula) : Except CompileError Artifact → Prop
  | .ok a => cache.lookup formula = some a
  | .error error => formula.lower = .error error

theorem Answers.mono {cache later : Cache} {formula : Formula}
    {answer : Except CompileError Artifact} (h : cache.Answers formula answer)
    (kept : cache.Kept later) : later.Answers formula answer := by
  cases answer with
  | ok a => exact kept formula a h
  | error error => exact h

/-- A ledger accounts for the identities of a cache and for all that is stored. -/
structure Accounted (cache : Cache) (ledger : List Formula) : Prop where
  length : ledger.length = cache.nextIdentity
  stored : ∀ {formula : Formula} {a : Artifact},
    cache.lookup formula = some a → a.MadeFor ledger formula

theorem accounted_empty : empty.Accounted [] :=
  ⟨rfl, fun h => by cases h⟩

/-- Artifacts of different formulas have different identities. -/
theorem Accounted.identity_eq_iff {cache : Cache} {ledger : List Formula}
    (h : cache.Accounted ledger) {formula other : Formula} {a b : Artifact}
    (ha : cache.lookup formula = some a) (hb : cache.lookup other = some b) :
    a.identity = b.identity ↔ formula = other := by
  constructor
  · intro heq
    -- both formulas stand on the same line of the ledger
    have hissued := (h.stored ha).issued
    rw [heq, (h.stored hb).issued] at hissued
    exact (Option.some.inj hissued).symm
  · rintro rfl
    rw [ha] at hb
    rw [Option.some.inj hb]

theorem Accounted.artifact_eq_iff {cache : Cache} {ledger : List Formula}
    (h : cache.Accounted ledger) {formula other : Formula} {a b : Artifact}
    (ha : cache.lookup formula = some a) (hb : cache.lookup other = some b) :
    a = b ↔ formula = other := by
  constructor
  · rintro rfl
    exact (h.identity_eq_iff ha hb).mp rfl
  · rintro rfl
    rw [ha] at hb
    exact Option.some.inj hb

/-- A formula without meaning has no other right answer than its error. -/
theorem Answers.eq_error {cache : Cache} {ledger : List Formula} {formula : Formula}
    {answer : Except CompileError Artifact} {error : CompileError}
    (h : cache.Answers formula answer) (haccounted : cache.Accounted ledger)
    (herror : formula.lower = .error error) : answer = .error error := by
  cases answer with
  | ok a =>
      have hterm := (haccounted.stored h).term
      rw [herror] at hterm
      cases hterm
  | error other =>
      have hother : formula.lower = .error other := h
      rw [herror] at hother
      rw [Except.error.inj hother]

theorem Accounted.takeIdentity {cache : Cache} {ledger : List Formula}
    (h : cache.Accounted ledger) (formula : Formula) :
    cache.takeIdentity.Accounted (ledger ++ [formula]) := by
  refine ⟨?_, fun hstored => (h.stored hstored).mono (List.prefix_append _ _)⟩
  rw [List.length_append, h.length]
  rfl

theorem Accounted.store {cache : Cache} {ledger : List Formula} (h : cache.Accounted ledger)
    {formula : Formula} {a : Artifact} (ha : a.MadeFor ledger formula) :
    (cache.store formula a).Accounted ledger := by
  refine ⟨h.length, ?_⟩
  intro other b hb
  by_cases heq : formula = other
  · subst heq
    rw [lookup_store_self] at hb
    rw [← Option.some.inj hb]
    exact ha
  · rw [lookup_store_of_ne cache a heq] at hb
    exact h.stored hb

end Cache

/-! ## Steps of a request -/

theorem Stage.answer?_eq_some_iff {stage : Stage} {answer : Except CompileError Artifact} :
    stage.answer? = some answer ↔ stage = .finished answer := by
  cases stage <;> simp [answer?]

/-- Everything that a step of a request can do. -/
inductive Progress.Step (formula : Formula) : Progress → Progress → Prop
  | find {cache events a} : cache.lookup formula = some a →
      Step formula ⟨.asked, cache, events⟩ ⟨.found a, cache, events⟩
  | miss {cache events} : cache.lookup formula = none →
      Step formula ⟨.asked, cache, events⟩ ⟨.absent, cache, events⟩
  | countHit {cache events a} :
      Step formula ⟨.found a, cache, events⟩
        ⟨.finished (.ok a), cache.countHit, events ++ [.cacheHit a.fingerprint]⟩
  | countMiss {cache events} :
      Step formula ⟨.absent, cache, events⟩ ⟨.counted, cache.countMiss, events⟩
  | fail {cache events error} : formula.compile cache.nextIdentity = .error error →
      Step formula ⟨.counted, cache, events⟩ ⟨.finished (.error error), cache, events⟩
  | compile {cache events a} : formula.compile cache.nextIdentity = .ok a →
      Step formula ⟨.counted, cache, events⟩
        ⟨.compiled a, cache.takeIdentity, events ++ [.compiled a.fingerprint a.term]⟩
  | drop {cache events a first} : cache.lookup formula = some first →
      Step formula ⟨.compiled a, cache, events⟩
        ⟨.finished (.ok first), cache, events ++ [.compiledTwice a.fingerprint]⟩
  | store {cache events a} : cache.lookup formula = none →
      Step formula ⟨.compiled a, cache, events⟩
        ⟨.finished (.ok a), cache.store formula a, events⟩
  | rest {cache events answer} :
      Step formula ⟨.finished answer, cache, events⟩ ⟨.finished answer, cache, events⟩

theorem Progress.step_advance (formula : Formula) (p : Progress) :
    Step formula p (p.advance formula) := by
  obtain ⟨stage, cache, events⟩ := p
  cases stage with
  | asked =>
      simp only [advance]
      cases h : cache.lookup formula with
      | none => exact .miss h
      | some a => exact .find h
  | found a => exact .countHit
  | absent => exact .countMiss
  | counted =>
      simp only [advance]
      cases h : formula.compile cache.nextIdentity with
      | error error => exact .fail h
      | ok a => exact .compile h
  | compiled a =>
      simp only [advance]
      cases h : cache.lookup formula with
      | none => exact .store h
      | some first => exact .drop h
  | finished answer => exact .rest

/-- What a request knows at a stage: an artifact that it has found is stored, and one of its
own was made for its formula. -/
def Stage.Sound (cache : Cache) (ledger : List Formula) (formula : Formula) : Stage → Prop
  | .asked => True
  | .found a => cache.lookup formula = some a
  | .absent => True
  | .counted => True
  | .compiled a => a.MadeFor ledger formula
  | .finished answer => cache.Answers formula answer

theorem Stage.Sound.mono {cache later : Cache} {ledger longer : List Formula}
    {formula : Formula} {stage : Stage} (h : stage.Sound cache ledger formula)
    (kept : cache.Kept later) (hle : ledger <+: longer) : stage.Sound later longer formula := by
  cases stage with
  | found a => exact kept formula a h
  | compiled a => exact Artifact.MadeFor.mono h hle
  | finished answer => exact Cache.Answers.mono h kept
  | _ => trivial

structure Progress.Sound (p : Progress) (ledger : List Formula) (formula : Formula) :
    Prop where
  cache : p.cache.Accounted ledger
  stage : p.stage.Sound p.cache ledger formula

/-- A step extends the ledger at most, keeps what is stored, and stays sound. -/
theorem Progress.Sound.step {p q : Progress} {ledger : List Formula} {formula : Formula}
    (h : p.Sound ledger formula) (hstep : Step formula p q) :
    ∃ longer, ledger <+: longer ∧ p.cache.Kept q.cache ∧ q.Sound longer formula := by
  cases hstep with
  | find hfound => exact ⟨ledger, List.prefix_rfl, .refl _, h.cache, hfound⟩
  | miss _ => exact ⟨ledger, List.prefix_rfl, .refl _, h.cache, trivial⟩
  | countHit =>
      exact ⟨ledger, List.prefix_rfl, .refl _, ⟨h.cache.length, h.cache.stored⟩, h.stage⟩
  | countMiss =>
      exact ⟨ledger, List.prefix_rfl, .refl _, ⟨h.cache.length, h.cache.stored⟩, trivial⟩
  | fail herror =>
      exact ⟨ledger, List.prefix_rfl, .refl _, h.cache, Expr.compile_eq_error_iff.mp herror⟩
  | @compile cache events a hok =>
      -- the identity is the next line of the ledger, and the formula is entered there
      obtain ⟨hterm, hfingerprint, hidentity⟩ := Expr.compile_eq_ok_iff.mp hok
      refine ⟨ledger ++ [formula], List.prefix_append _ _, .refl _,
        h.cache.takeIdentity formula, ?_, hterm, hfingerprint⟩
      rw [hidentity]
      show (ledger ++ [formula])[cache.nextIdentity]? = some formula
      rw [← h.cache.length, List.getElem?_concat_length]
  | drop hfirst => exact ⟨ledger, List.prefix_rfl, .refl _, h.cache, hfirst⟩
  | @store cache events a habsent =>
      exact ⟨ledger, List.prefix_rfl, Cache.kept_store habsent a, h.cache.store h.stage,
        Cache.lookup_store_self cache formula a⟩
  | rest => exact ⟨ledger, List.prefix_rfl, .refl _, h⟩

theorem Progress.Sound.advance {p : Progress} {ledger : List Formula} {formula : Formula}
    (h : p.Sound ledger formula) :
    ∃ longer, ledger <+: longer ∧ p.cache.Kept (p.advance formula).cache ∧
      (p.advance formula).Sound longer formula :=
  h.step (p.step_advance formula)

/-- A step of a request for a formula without meaning leaves the entries alone. -/
theorem Progress.Sound.entries_step {p q : Progress} {ledger : List Formula}
    {formula : Formula} {error : CompileError} (h : p.Sound ledger formula)
    (herror : formula.lower = .error error) (hstep : Step formula p q) :
    q.cache.entries = p.cache.entries := by
  cases hstep with
  | store _ =>
      -- only a request that has compiled stores, and this one cannot have
      have hterm := Artifact.MadeFor.term h.stage
      rw [herror] at hterm
      cases hterm
  | _ => rfl

/-! ## Whole requests -/

theorem Progress.Sound.finish {p : Progress} {ledger : List Formula} {formula : Formula}
    (h : p.Sound ledger formula) :
    ∃ longer, ledger <+: longer ∧ p.cache.Kept (p.finish formula).cache ∧
      (p.finish formula).cache.Accounted longer ∧
      (p.finish formula).cache.Answers formula (p.finish formula).answer := by
  fun_induction Progress.finish formula p generalizing ledger with
  | case1 p answer hanswer =>
      have hsound := h.stage
      rw [Stage.answer?_eq_some_iff.mp hanswer] at hsound
      exact ⟨ledger, List.prefix_rfl, .refl _, h.cache, hsound⟩
  | case2 p _ ih =>
      obtain ⟨between, hle, kept, hnext⟩ := h.advance
      obtain ⟨longer, hle', kept', hcache, hanswer⟩ := ih hnext
      exact ⟨longer, hle.trans hle', kept.trans kept', hcache, hanswer⟩

namespace Cache

theorem Accounted.getOrCompile {cache : Cache} {ledger : List Formula}
    (h : cache.Accounted ledger) (formula : Formula) :
    ∃ longer, ledger <+: longer ∧ cache.Kept (cache.getOrCompile formula).cache ∧
      (cache.getOrCompile formula).cache.Accounted longer ∧
      (cache.getOrCompile formula).cache.Answers formula
        (cache.getOrCompile formula).answer := by
  have hstart : (Progress.start cache).Sound ledger formula := ⟨h, trivial⟩
  exact hstart.finish

theorem Accounted.getOrCompileRaced {cache : Cache} {ledger : List Formula}
    (h : cache.Accounted ledger) (formula : Formula) :
    ∃ longer, cache.Kept (cache.getOrCompileRaced formula).1.cache ∧
      (cache.getOrCompileRaced formula).1.cache.Accounted longer := by
  have hstart : (Progress.start cache).Sound ledger formula := ⟨h, trivial⟩
  obtain ⟨_, _, kept₁, h₁⟩ := hstart.advance
  obtain ⟨_, _, kept₂, h₂⟩ := h₁.advance
  obtain ⟨ledger₃, _, kept₃, h₃⟩ := h₂.advance
  have kept := (kept₁.trans kept₂).trans kept₃
  unfold Cache.getOrCompileRaced
  extract_lets first
  split
  · -- the second request runs on the cache of the first, which then goes on with what is left
    obtain ⟨ledger₄, hle, kept₄, hcache, _⟩ := h₃.cache.getOrCompile formula
    have hfirst : Progress.Sound ⟨first.stage, (first.cache.getOrCompile formula).cache,
        first.events ++ (first.cache.getOrCompile formula).events⟩ ledger₄ formula :=
      ⟨hcache, h₃.stage.mono kept₄ hle⟩
    obtain ⟨longer, _, kept₅, hend, _⟩ := hfirst.finish
    exact ⟨longer, (kept.trans kept₄).trans kept₅, hend⟩
  · obtain ⟨longer, _, kept₄, hend, _⟩ := h₃.finish
    exact ⟨longer, kept.trans kept₄, hend⟩

end Cache

end Graphing
