import Graphing.Proofs.Session.Coherence

/-!
# Failures change nothing

A command that fails leaves the plot, with its limit and the place in its palette, and all
curves as they were. A command that reads one text at most also leaves the cache as it was,
but for a miss that is counted if the text can be read and its formula has no meaning
(`Cache.afterFailure`). Loading many curves can fail after some of them were compiled, and then
these stay in the cache; so the cache is only accounted for where one text is read.

Plots and curves are worked on where they are, and nobody puts them back after a failure. That
they are as before (`Work.FailsCleanly`) is because every step that can fail comes before the
first step that changes anything, in each operation on a plot or a curve that is there.
-/

namespace Graphing

/-- The cache after the failure of a command that read one text. -/
def Cache.afterFailure (cache : Cache) : FormulaError → Cache
  | .compile _ => cache.countMiss
  | _ => cache

theorem Cache.cache_of_answer_eq_error {cache : Cache} {formula : Formula}
    {error : CompileError} (h : (cache.getOrCompile formula).answer = .error error) :
    (cache.getOrCompile formula).cache = cache.countMiss := by
  cases hlookup : cache.lookup formula with
  | some artifact =>
      rw [getOrCompile_of_lookup_eq_some hlookup] at h
      cases h
  | none =>
      cases hcompile : formula.compile cache.nextIdentity with
      | error _ => rw [getOrCompile_of_compile_eq_error hlookup hcompile]
      | ok artifact =>
          rw [getOrCompile_of_compile_eq_ok hlookup hcompile] at h
          cases h

/-! ## Outcomes -/

/-- A failure left the cache as the failure of one text does. -/
def Outcome.FailsCleanly {β : Type} (outcome : Outcome β) (earlier : Cache) : Prop :=
  ∀ error, outcome.result = .error error → outcome.cache = earlier.afterFailure error

namespace Outcome.FailsCleanly

variable {β γ : Type} {outcome : Outcome β} {earlier : Cache}

theorem map (h : outcome.FailsCleanly earlier) (f : β → γ) :
    (outcome.map f).FailsCleanly earlier := by
  obtain ⟨result, cache, events⟩ := outcome
  intro error herror
  cases result with
  | error other =>
      cases herror
      exact h error rfl
  | ok value => cases herror

theorem report (h : outcome.FailsCleanly earlier) (event : β → Event) :
    (outcome.report event).FailsCleanly earlier := by
  obtain ⟨result, cache, events⟩ := outcome
  cases result with
  | error error => exact h
  | ok value =>
      intro error herror
      cases herror

end Outcome.FailsCleanly

theorem failsCleanly_compileText (text : String) (cache : Cache) :
    (compileText text cache).FailsCleanly cache := by
  unfold compileText
  cases Expr.parse text with
  | error parseError =>
      -- the cache was not asked
      intro error herror
      cases herror
      rfl
  | ok formula =>
      intro error herror
      cases hanswer : (cache.getOrCompile formula).answer with
      | error compileError =>
          simp only [hanswer] at herror ⊢
          cases herror
          exact Cache.cache_of_answer_eq_error hanswer
      | ok artifact =>
          simp only [hanswer] at herror
          cases herror

theorem failsCleanly_validate (text : String) (cache : Cache) :
    (validate text cache).FailsCleanly cache :=
  (failsCleanly_compileText text cache).map _

namespace Curve

theorem failsCleanly_ofText (name text : String) (cache : Cache) :
    (ofText name text cache).FailsCleanly cache :=
  ((failsCleanly_compileText text cache).map _).report _

theorem failsCleanly_ofRecord (record : CurveRecord) (cache : Cache) :
    (ofRecord record cache).FailsCleanly cache :=
  (failsCleanly_ofText record.name record.text cache).map _

end Curve

/-! ## Work on what is there -/

/-- Work that, if it fails, leaves what it works on as it was, and the cache as the failure of one
text does. -/
def Work.FailsCleanly {σ β : Type} (work : Work (σ × Cache) β) : Prop :=
  ∀ (state : σ) (cache : Cache) (error : FormulaError),
    (work (state, cache)).result = .error error →
      (work (state, cache)).after = (state, cache.afterFailure error)

namespace Curve

/-- The text is compiled before any of the three is given up. -/
theorem failsCleanly_redefine (text : String) : (redefine text).FailsCleanly := by
  intro curve cache error h
  cases hmade : (compileText text cache).result with
  | error reason =>
      rw [redefine_of_rejected hmade] at h ⊢
      cases h
      exact congrArg (Prod.mk curve) (failsCleanly_compileText text cache error hmade)
  | ok made =>
      rw [redefine_of_accepted hmade] at h
      cases h

theorem failsCleanly_edit (visible : Option Bool) (color : Option Color)
    (rename : Option String) :
    (liftM (edit visible color rename) : Work (Curve × Cache) Unit).FailsCleanly := by
  intro curve cache error h
  rw [Work.lift_eq (edit_eq curve visible color rename)] at h
  cases h

end Curve

namespace Plot

/-- The limit comes before the text, and the text before the color. -/
theorem failsCleanly_define (name text : String) : (define name text).FailsCleanly := by
  intro plot cache error h
  cases hfull : plot.isFull with
  | true =>
      rw [define_of_isFull hfull] at h ⊢
      cases h
      rfl
  | false =>
      cases hmade : (Curve.ofText name text cache).result with
      | error reason =>
          rw [define_of_rejected hfull hmade] at h ⊢
          cases h
          exact congrArg (Prod.mk plot) (Curve.failsCleanly_ofText name text cache error hmade)
      | ok curve =>
          rw [define_of_accepted hfull hmade] at h
          cases h

theorem failsCleanly_push (curve : Curve) :
    (liftM (push curve) : Work (Plot × Cache) Unit).FailsCleanly := by
  intro plot cache error h
  cases hfull : plot.isFull with
  | true =>
      rw [Work.lift_eq (push_of_isFull hfull curve)] at h ⊢
      cases h
      rfl
  | false =>
      rw [Work.lift_eq (push_of_room hfull curve)] at h
      cases h

theorem failsCleanly_remove (name : String) :
    (liftM (remove name) : Work (Plot × Cache) Curve).FailsCleanly := by
  intro plot cache error h
  cases hfind : plot.find? name with
  | none =>
      rw [Work.lift_eq (remove_of_find?_eq_none hfind)] at h ⊢
      cases h
      rfl
  | some curve =>
      rw [Work.lift_eq (remove_of_find?_eq_some hfind)] at h
      cases h

/-- A curve in its place is left as it was, and so is the plot around it. -/
theorem failsCleanly_onFirst (name : String) {work : Work (Curve × Cache) Unit}
    (hwork : work.FailsCleanly) : (onFirst name work).FailsCleanly := by
  intro plot cache error h
  cases hfind : plot.find? name with
  | none =>
      rw [onFirst_of_find?_eq_none hfind] at h
      cases h
  | some curve =>
      rw [onFirst_of_find?_eq_some hfind] at h ⊢
      cases hresult : (work (curve, cache)).result with
      | ok _ =>
          rw [hresult] at h
          cases h
      | error reason =>
          rw [hresult] at h
          cases h
          rw [hwork curve cache error hresult, replace_of_find?_eq_some hfind]

end Plot

/-! ## Commands -/

/-- Commands that may read more than one text. -/
def Command.readsMany : Command → Bool
  | .newDefaults => true
  | .load _ _ => true
  | _ => false

/-- The error that a reply reports. -/
def Reply.error? : Reply → Option FormulaError
  | .failed error => some error
  | _ => none

theorem Reply.error?_eq_some_iff {reply : Reply} {error : FormulaError} :
    reply.error? = some error ↔ reply = .failed error := by
  cases reply <;> simp [error?]

namespace Session

/-- What a command leaves alone if it fails. -/
structure Spares (session : Session) (readsMany : Bool) (performed : Performed) : Prop where
  plot : ∀ error, performed.2.1 = .failed error → performed.1.plot = session.plot
  slots : ∀ error, performed.2.1 = .failed error → performed.1.slots = session.slots
  cache : readsMany = false → ∀ error, performed.2.1 = .failed error →
    performed.1.cache = session.cache.afterFailure error

variable {session : Session}

theorem spares_of_error? {performed : Performed} {readsMany : Bool}
    (h : performed.2.1.error? = none) : session.Spares readsMany performed := by
  have hne : ∀ error, performed.2.1 ≠ .failed error := by
    intro error herror
    rw [herror] at h
    cases h
  constructor
  · exact fun error herror => absurd herror (hne error)
  · exact fun error herror => absurd herror (hne error)
  · exact fun _ error herror => absurd herror (hne error)

theorem spares_conclude {β : Type} {outcome : Outcome β} (readsMany : Bool)
    (houtcome : readsMany = false → outcome.FailsCleanly session.cache)
    {succeed : Session → β → Session × Reply}
    (hsucceed : ∀ (later : Session) (value : β), (succeed later value).2.error? = none) :
    session.Spares readsMany (session.conclude outcome succeed) := by
  simp only [conclude, finish]
  cases hresult : outcome.result with
  | error error =>
      refine ⟨fun _ _ => rfl, fun _ _ => rfl, ?_⟩
      rintro hone _ ⟨⟩
      exact houtcome hone error hresult
  | ok value => exact spares_of_error? (hsucceed _ value)

theorem spares_onPlot {β : Type} {work : Work (Plot × Cache) β} (hwork : work.FailsCleanly)
    {succeed : Session → β → Session × Reply}
    (hsucceed : ∀ (later : Session) (value : β), (succeed later value).2.error? = none) :
    session.Spares false (session.onPlot work succeed) := by
  simp only [onPlot, finish]
  cases hresult : (work (session.plot, session.cache)).result with
  | error error =>
      have hafter := hwork session.plot session.cache error hresult
      refine ⟨fun _ _ => congrArg Prod.fst hafter, fun _ _ => rfl, ?_⟩
      rintro _ _ ⟨⟩
      exact congrArg Prod.snd hafter
  | ok value => exact spares_of_error? (hsucceed _ value)

theorem spares_about (name : String) {reply : Curve → Reply} {readsMany : Bool}
    (h : ∀ curve : Curve, (reply curve).error? = none) :
    session.Spares readsMany (session.about name reply) := by
  unfold about
  cases session.plot.find? name with
  | none => exact spares_of_error? rfl
  | some curve => exact spares_of_error? (h curve)

theorem spares_define (name text : String) :
    session.Spares false (session.define name text) :=
  spares_onPlot (Plot.failsCleanly_define name text) fun _ _ => rfl

theorem spares_remove (name : String) (slot : Option String) :
    session.Spares false (session.remove name slot) :=
  spares_onPlot (Plot.failsCleanly_remove name) fun _ _ => rfl

theorem spares_onCurve (name : String) {work : Work (Curve × Cache) Unit}
    (hwork : work.FailsCleanly) : session.Spares false (session.onCurve name work) := by
  refine spares_onPlot (Plot.failsCleanly_onFirst name hwork) ?_
  intro later changed
  cases changed with
  | none => rfl
  | some curve => rfl

theorem spares_pushCurve (curve : Curve) : session.Spares false (session.pushCurve curve) :=
  spares_onPlot (Plot.failsCleanly_push curve) fun _ _ => rfl

theorem spares_push (slot : String) : session.Spares false (session.push slot) := by
  unfold push
  cases session.slot? slot with
  | none => exact spares_of_error? rfl
  | some curve => exact spares_pushCurve curve

theorem spares_compile (formula : Formula) :
    session.Spares false (session.compile formula) := by
  simp only [compile]
  cases (session.cache.getOrCompile formula).answer with
  | error error => exact spares_of_error? rfl
  | ok artifact => exact spares_of_error? rfl

theorem spares_race (formula : Formula) : session.Spares false (session.race formula) := by
  simp only [race]
  cases (session.cache.getOrCompileRaced formula).1.answer with
  | error error => exact spares_of_error? rfl
  | ok artifact => exact spares_of_error? rfl

theorem spares_perform (session : Session) (command : Command) :
    session.Spares command.readsMany (session.perform command) := by
  cases command with
  | newPlot limit palette => exact spares_of_error? rfl
  | newDefaults =>
      simp only [perform]
      exact spares_conclude true (fun hone => Bool.noConfusion hone) fun _ _ => rfl
  | clear => exact spares_of_error? rfl
  | define name text => exact spares_define name text
  | remove name slot => exact spares_remove name slot
  | get name => exact spares_about name fun _ => rfl
  | redefine name text => exact spares_onCurve name (Curve.failsCleanly_redefine text)
  | edit name visible color rename =>
      exact spares_onCurve name (Curve.failsCleanly_edit visible color rename)
  | records => exact spares_of_error? rfl
  | record name => exact spares_about name fun _ => rfl
  | load records limit =>
      simp only [perform]
      exact spares_conclude true (fun hone => Bool.noConfusion hone) fun _ _ => rfl
  | make slot name text color =>
      simp only [perform]
      have hmake := Curve.failsCleanly_ofText name text session.cache
      exact spares_conclude false (fun _ => hmake) fun _ _ => rfl
  | restore slot record =>
      simp only [perform]
      have hrestore := Curve.failsCleanly_ofRecord record session.cache
      exact spares_conclude false (fun _ => hrestore) fun _ _ => rfl
  | push slot => exact spares_push slot
  | showSlot slot =>
      refine spares_of_error? ?_
      show ((session.slot? slot).elim Reply.absent .curve).error? = none
      cases session.slot? slot with
      | none => rfl
      | some curve => rfl
  | calculate name xs => exact spares_about name fun _ => rfl
  | sample name grid => exact spares_about name fun _ => rfl
  | sampleVisible grid => exact spares_of_error? rfl
  | validate text =>
      simp only [perform]
      exact spares_conclude false (fun _ => failsCleanly_validate text session.cache) fun _ _ => rfl
  | compile formula => exact spares_compile formula
  | lookup formula =>
      refine spares_of_error? ?_
      show ((session.cache.lookup formula).elim Reply.absent .artifact).error? = none
      cases session.cache.lookup formula with
      | none => rfl
      | some artifact => rfl
  | race formula => exact spares_race formula
  | showPlot => exact spares_of_error? rfl

theorem define_of_isFull (h : session.plot.isFull = true) (name text : String) :
    session.define name text =
      (session, .failed (.tooManyFunctions session.plot.limit), []) := by
  simp only [define, onPlot, finish, Plot.define_of_isFull h]

end Session

/-! ## Moves -/

/-- Moves that may read more than one text. -/
def Move.readsMany : Move → Bool
  | .perform command => command.readsMany
  | .push _ => false

namespace History

theorem spares_move (history : History) (move : Move) :
    history.session.Spares move.readsMany ((history.move move).session, history.reply move, []) ∧
      history.seen <:+ (history.move move).seen := by
  cases move with
  | perform command =>
      have hspares := history.session.spares_perform command
      exact ⟨⟨hspares.plot, hspares.slots, hspares.cache⟩, List.suffix_append _ _⟩
  | push index =>
      simp only [move, reply, push]
      cases history.seen[index]? with
      | none => exact ⟨Session.spares_of_error? rfl, List.suffix_rfl⟩
      | some curve =>
          have hspares := history.session.spares_pushCurve curve
          exact ⟨⟨hspares.plot, hspares.slots, hspares.cache⟩, List.suffix_rfl⟩

/-- What fails is as if it had not been tried. A move that fails leaves the plot with its
limit and its colors, the slots, and all curves handed out before as they were. If it reads one
text at most, the cache is as it was too, but for one more miss if the error is that a formula
has no meaning. A full plot refuses any definition, whatever its text, without a trace. And a
curve that is on no plot keeps its text, its tree and its artifact when it is refused another
text. -/
theorem failed_move_atomic (history : History) :
    (∀ (move : Move) (error : FormulaError), history.reply move = .failed error →
      (history.move move).session.plot = history.session.plot ∧
      (history.move move).session.slots = history.session.slots ∧
      history.seen <:+ (history.move move).seen ∧
      (move.readsMany = false →
        (history.move move).session.cache = history.session.cache.afterFailure error)) ∧
    (history.session.plot.isFull = true → ∀ name text : String,
      history.reply (.perform (.define name text)) =
          .failed (.tooManyFunctions history.session.plot.limit) ∧
        (history.move (.perform (.define name text))).session = history.session) ∧
    (∀ (curve : Curve) (text : String) (error : FormulaError),
      (Curve.redefine text (curve, history.session.cache)).result = .error error →
        (Curve.redefine text (curve, history.session.cache)).after =
          (curve, history.session.cache.afterFailure error)) := by
  refine ⟨?_, ?_, ?_⟩
  · intro move error h
    obtain ⟨hspares, hseen⟩ := history.spares_move move
    exact ⟨hspares.plot error h, hspares.slots error h, hseen,
      fun hone => hspares.cache hone error h⟩
  · intro hfull name text
    have hdefine := Session.define_of_isFull hfull name text
    exact ⟨congrArg (fun performed => performed.2.1) hdefine, congrArg Prod.fst hdefine⟩
  · intro curve text error h
    exact Curve.failsCleanly_redefine text curve history.session.cache error h

/-- A plot for a single curve, with this curve on it. -/
def fullPlot : History :=
  initial.run [.perform (.newPlot (some 1) none), .perform (.define "f" "x")]

theorem failed_move_atomic_fullPlot :
    fullPlot.reply (.perform (.redefine "f" "y")) =
        .failed (.compile (.unknownSymbol "y")) ∧
      (fullPlot.move (.perform (.redefine "f" "y"))).session.plot = fullPlot.session.plot ∧
      (fullPlot.move (.perform (.redefine "f" "y"))).session.cache =
        fullPlot.session.cache.countMiss ∧
      (fullPlot.move (.perform (.define "g" "x+"))).session = fullPlot.session := by
  have hfailed : fullPlot.reply (.perform (.redefine "f" "y")) =
      .failed (.compile (.unknownSymbol "y")) := by
    have herror : (fullPlot.reply (.perform (.redefine "f" "y"))).error? =
        some (.compile (.unknownSymbol "y")) := by decide +kernel
    exact Reply.error?_eq_some_iff.mp herror
  obtain ⟨hmoves, hdefine, _⟩ := failed_move_atomic fullPlot
  obtain ⟨hplot, _, _, hcache⟩ := hmoves _ _ hfailed
  exact ⟨hfailed, hplot, hcache rfl, (hdefine (by decide +kernel) "g" "x+").2⟩

end History

end Graphing
