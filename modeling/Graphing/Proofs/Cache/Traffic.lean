import Graphing.Proofs.Cache.Ledger

/-!
# Requests that run at once

Any number of calls share one cache. A `Traffic` is the cache with the calls made so far, and
an action is a new call or one step of a call, so a list of actions is one interleaving of
all their steps. Whatever the interleaving (`calls_converge`):

* what is stored stays stored;
* calls for one formula get one artifact, and calls for two formulas never share one;
* calls for a formula without meaning get its error and store nothing;
* four steps of its own take a call to its answer.
-/

namespace Graphing

/-- A request for the artifact of a formula, under way. -/
structure Call where
  formula : Formula
  stage : Stage

/-- A cache, what happened to it, and the calls on it in the order in which they were made. -/
structure Traffic where
  cache : Cache
  events : List Event
  calls : List Call

namespace Traffic

/-- What can happen next. -/
inductive Action where
  /-- Somebody asks for the artifact of a formula. -/
  | ask (formula : Formula)
  /-- A call takes a step. -/
  | step (index : Nat)
  deriving DecidableEq

/-- A fresh cache without calls. -/
def initial : Traffic :=
  ⟨Cache.empty, [], []⟩

/-- The cache as a call finds it when it takes its step. -/
def progress (t : Traffic) (call : Call) : Progress :=
  ⟨call.stage, t.cache, t.events⟩

/-- Lets a call take one step. -/
def step (t : Traffic) (index : Nat) : Traffic :=
  match t.calls[index]? with
  | none => t
  | some call =>
      let next := (t.progress call).advance call.formula
      ⟨next.cache, next.events, t.calls.set index ⟨call.formula, next.stage⟩⟩

def act (t : Traffic) : Action → Traffic
  | .ask formula => { t with calls := t.calls ++ [⟨formula, .asked⟩] }
  | .step index => t.step index

/-- One interleaving of calls. -/
def run (t : Traffic) (actions : List Action) : Traffic :=
  actions.foldl act t

theorem step_of_getElem? {t : Traffic} {index : Nat} {call : Call}
    (h : t.calls[index]? = some call) :
    t.step index = ⟨((t.progress call).advance call.formula).cache,
      ((t.progress call).advance call.formula).events,
      t.calls.set index ⟨call.formula, ((t.progress call).advance call.formula).stage⟩⟩ := by
  unfold step
  rw [h]

theorem step_of_getElem?_eq_none {t : Traffic} {index : Nat} (h : t.calls[index]? = none) :
    t.step index = t := by
  unfold step
  rw [h]

/-! ## What every interleaving preserves -/

/-- A ledger accounts for the cache, and every call knows what its stage says. -/
structure Sound (t : Traffic) (ledger : List Formula) : Prop where
  cache : t.cache.Accounted ledger
  calls : ∀ call ∈ t.calls, call.stage.Sound t.cache ledger call.formula

theorem sound_initial : initial.Sound [] :=
  ⟨Cache.accounted_empty, fun _ h => by cases h⟩

theorem Sound.progress {t : Traffic} {ledger : List Formula} (h : t.Sound ledger)
    {index : Nat} {call : Call} (hcall : t.calls[index]? = some call) :
    (t.progress call).Sound ledger call.formula :=
  ⟨h.cache, h.calls call (List.mem_of_getElem? hcall)⟩

theorem Sound.ask {t : Traffic} {ledger : List Formula} (h : t.Sound ledger)
    (formula : Formula) : (t.act (.ask formula)).Sound ledger := by
  refine ⟨h.cache, ?_⟩
  intro call hcall
  rcases List.mem_append.mp hcall with hold | hnew
  · exact h.calls call hold
  · rw [List.mem_singleton.mp hnew]
    trivial

theorem Sound.step {t : Traffic} {ledger : List Formula} (h : t.Sound ledger) (index : Nat) :
    ∃ longer, t.cache.Kept (t.step index).cache ∧ (t.step index).Sound longer := by
  cases hcall : t.calls[index]? with
  | none =>
      rw [step_of_getElem?_eq_none hcall]
      exact ⟨ledger, .refl _, h⟩
  | some call =>
      rw [step_of_getElem? hcall]
      obtain ⟨longer, hle, kept, hnext⟩ := (h.progress hcall).advance
      refine ⟨longer, kept, hnext.cache, ?_⟩
      intro other hother
      rcases List.mem_or_eq_of_mem_set hother with hold | rfl
      · -- the others know no less of a cache that only grew
        exact (h.calls other hold).mono kept hle
      · exact hnext.stage

theorem Sound.act {t : Traffic} {ledger : List Formula} (h : t.Sound ledger)
    (action : Action) :
    ∃ longer, t.cache.Kept (t.act action).cache ∧ (t.act action).Sound longer := by
  cases action with
  | ask formula => exact ⟨ledger, .refl _, h.ask formula⟩
  | step index => exact h.step index

theorem Sound.run {t : Traffic} {ledger : List Formula} (h : t.Sound ledger)
    (actions : List Action) :
    ∃ longer, t.cache.Kept (t.run actions).cache ∧ (t.run actions).Sound longer := by
  induction actions generalizing t ledger with
  | nil => exact ⟨ledger, .refl _, h⟩
  | cons action actions ih =>
      obtain ⟨between, kept, hact⟩ := h.act action
      obtain ⟨longer, kept', hrun⟩ := ih hact
      exact ⟨longer, kept.trans kept', hrun⟩

/-- The answer of a call that has one. -/
theorem Sound.answers {t : Traffic} {ledger : List Formula} (h : t.Sound ledger)
    {call : Call} (hcall : call ∈ t.calls) {answer : Except CompileError Artifact}
    (hanswer : call.stage = .finished answer) : t.cache.Answers call.formula answer := by
  have hsound := h.calls call hcall
  rw [hanswer] at hsound
  exact hsound

/-- A step of a call for a formula without meaning leaves the entries alone. -/
theorem Sound.entries_step {t : Traffic} {ledger : List Formula} (h : t.Sound ledger)
    {index : Nat} {call : Call} (hcall : t.calls[index]? = some call) {error : CompileError}
    (herror : call.formula.lower = .error error) :
    (t.step index).cache.entries = t.cache.entries := by
  rw [step_of_getElem? hcall]
  exact (h.progress hcall).entries_step herror ((t.progress call).step_advance call.formula)

/-! ## Every call ends -/

theorem remaining_le_four (stage : Stage) : stage.remaining ≤ 4 := by
  cases stage <;> simp [Stage.remaining]

theorem exists_finished_of_remaining {stage : Stage} (h : stage.remaining = 0) :
    ∃ answer, stage = .finished answer := by
  cases stage with
  | finished answer => exact ⟨answer, rfl⟩
  | _ => cases h

theorem remaining_advance_le (formula : Formula) (p : Progress) :
    (p.advance formula).stage.remaining ≤ p.stage.remaining - 1 := by
  cases hanswer : p.stage.answer? with
  | none =>
      have hlt : (p.advance formula).stage.remaining < p.stage.remaining :=
        Progress.remaining_advance_lt hanswer
      omega
  | some answer =>
      obtain ⟨stage, cache, events⟩ := p
      obtain rfl : stage = .finished answer := Stage.answer?_eq_some_iff.mp hanswer
      exact Nat.le_refl 0

/-- An action takes the call it steps nearer to its end, and leaves the others. -/
theorem getElem?_calls_act {t : Traffic} {index : Nat} {call : Call}
    (h : t.calls[index]? = some call) (action : Action) :
    ∃ stage, (t.act action).calls[index]? = some ⟨call.formula, stage⟩ ∧
      stage.remaining ≤ call.stage.remaining - [action].count (.step index) := by
  have hlt : index < t.calls.length := (List.getElem?_eq_some_iff.mp h).1
  cases action with
  | ask formula =>
      refine ⟨call.stage, ?_, by simp⟩
      show (t.calls ++ [⟨formula, .asked⟩])[index]? = some call
      rw [List.getElem?_append_left hlt, h]
  | step other =>
      by_cases heq : other = index
      · subst heq
        refine ⟨((t.progress call).advance call.formula).stage, ?_, ?_⟩
        · show (t.step other).calls[other]? = _
          rw [step_of_getElem? h]
          exact List.getElem?_set_self hlt
        · rw [List.count_singleton_self]
          exact remaining_advance_le call.formula (t.progress call)
      · refine ⟨call.stage, ?_, by simp [heq]⟩
        show (t.step other).calls[index]? = some call
        cases hother : t.calls[other]? with
        | none => rw [step_of_getElem?_eq_none hother, h]
        | some _ =>
            rw [step_of_getElem? hother, ← h]
            exact List.getElem?_set_ne heq

theorem getElem?_calls_run {t : Traffic} {index : Nat} {call : Call}
    (h : t.calls[index]? = some call) (actions : List Action) :
    ∃ stage, (t.run actions).calls[index]? = some ⟨call.formula, stage⟩ ∧
      stage.remaining ≤ call.stage.remaining - actions.count (.step index) := by
  induction actions generalizing t call with
  | nil => exact ⟨call.stage, h, Nat.le_refl _⟩
  | cons action actions ih =>
      obtain ⟨between, hact, hle⟩ := getElem?_calls_act h action
      obtain ⟨stage, hrun, hle'⟩ := ih hact
      refine ⟨stage, hrun, ?_⟩
      -- the steps of the call in the first action and in the others add up
      rw [← List.singleton_append, List.count_append]
      simp only at hle'
      omega

theorem exists_answer_run {t : Traffic} {index : Nat} {call : Call}
    (h : t.calls[index]? = some call) {actions : List Action}
    (hsteps : 4 ≤ actions.count (.step index)) :
    ∃ answer, (t.run actions).calls[index]? = some ⟨call.formula, .finished answer⟩ := by
  obtain ⟨stage, hrun, hle⟩ := getElem?_calls_run h actions
  have hfour := remaining_le_four call.stage
  have hzero : stage.remaining = 0 := by omega
  obtain ⟨answer, rfl⟩ := exists_finished_of_remaining hzero
  exact ⟨answer, hrun⟩

/-! ## Convergence -/

/-- Calls on one fresh cache, after some actions and after some more, in any interleaving: an
entry stays what it is; an artifact that a call returns is the stored one, so two calls return
the same one just if their formulas are equal; what is stored under a formula is what the
formula lowers to, with the fingerprint of the formula; a call whose formula does not compile
returns that error and changes no entry; and a call returns after four steps of its own. -/
theorem calls_converge (before after : List Action) :
    let early := initial.run before
    let late := early.run after
    early.cache.Kept late.cache ∧
    (∀ c ∈ late.calls, ∀ d ∈ late.calls, ∀ a b : Artifact,
      c.stage = .finished (.ok a) → d.stage = .finished (.ok b) →
        late.cache.lookup c.formula = some a ∧
        (a.identity = b.identity ↔ c.formula = d.formula) ∧
        (a = b ↔ c.formula = d.formula)) ∧
    (∀ formula a, late.cache.lookup formula = some a →
      formula.lower = .ok a.term ∧ a.fingerprint = formula.fingerprint) ∧
    (∀ index call, early.calls[index]? = some call →
      ∀ identity error, call.formula.compile identity = .error error →
        (early.act (.step index)).cache.entries = early.cache.entries ∧
        ∀ answer, call.stage = .finished answer → answer = .error error) ∧
    (∀ index call, early.calls[index]? = some call → 4 ≤ after.count (.step index) →
      ∃ answer, late.calls[index]? = some ⟨call.formula, .finished answer⟩) := by
  intro early late
  obtain ⟨ledger, _, hearly⟩ := sound_initial.run before
  obtain ⟨longer, kept, hlate⟩ := hearly.run after
  refine ⟨kept, ?_, ?_, ?_, ?_⟩
  · intro c hc d hd a b ha hb
    have hstored : late.cache.lookup c.formula = some a := hlate.answers hc ha
    have hstored' : late.cache.lookup d.formula = some b := hlate.answers hd hb
    exact ⟨hstored, hlate.cache.identity_eq_iff hstored hstored',
      hlate.cache.artifact_eq_iff hstored hstored'⟩
  · intro formula a hstored
    exact ⟨(hlate.cache.stored hstored).term, (hlate.cache.stored hstored).fingerprint⟩
  · intro index call hcall identity error herror
    have hlower := Expr.compile_eq_error_iff.mp herror
    refine ⟨hearly.entries_step hcall hlower, ?_⟩
    intro answer hanswer
    exact (hearly.answers (List.mem_of_getElem? hcall) hanswer).eq_error hearly.cache hlower
  · intro index call hcall hsteps
    exact exists_answer_run hcall hsteps

/-- Two calls for one formula that both compile before either stores; then the second one
stores. -/
def overtaking (formula : Formula) : List Action :=
  [.ask formula, .ask formula, .step 0, .step 0, .step 0, .step 1, .step 1, .step 1, .step 1]

/-- The call that is overtaken gets the artifact of the other one, and a call for a name that
means nothing ends with its error. -/
theorem calls_converge_overtaken :
    (∃ a : Artifact, a.identity = 1 ∧
      ((initial.run (overtaking (.ident "x"))).run [.step 0]).calls[0]? =
        some ⟨.ident "x", .finished (.ok a)⟩ ∧
      ((initial.run (overtaking (.ident "x"))).run [.step 0]).cache.lookup (.ident "x") =
        some a) ∧
    (initial.run [.ask (.ident "y")]).calls[0]? = some ⟨.ident "y", .asked⟩ ∧
    ((initial.run [.ask (.ident "y")]).act (.step 0)).cache.entries = [] ∧
    ∃ answer, ((initial.run [.ask (.ident "y")]).run
      [.step 0, .step 0, .step 0, .step 0]).calls[0]? =
        some ⟨.ident "y", .finished answer⟩ := by
  obtain ⟨_, hshared, _, _, _⟩ := calls_converge (overtaking (.ident "x")) [.step 0]
  obtain ⟨_, _, _, hfailed, hends⟩ :=
    calls_converge [.ask (.ident "y")] [.step 0, .step 0, .step 0, .step 0]
  have hcall : ((initial.run (overtaking (.ident "x"))).run [.step 0]).calls[0]? =
      some ⟨.ident "x", .finished (.ok ⟨1, Expr.fingerprint (.ident "x"), .var⟩)⟩ := rfl
  have hcompile : Expr.compile (.ident "y") 0 = .error (.unknownSymbol "y") := rfl
  have hmem := List.mem_of_getElem? hcall
  refine ⟨⟨_, rfl, hcall, ?_⟩, rfl, ?_, ?_⟩
  · exact (hshared _ hmem _ hmem _ _ rfl rfl).1
  · exact (hfailed 0 _ rfl 0 _ hcompile).1
  · exact hends 0 _ rfl (by decide)

end Traffic

end Graphing
