import Graphing.Proofs.Plot.Anonymous
import Graphing.Proofs.Session.Coherence

/-!
# The cache does not show

Two runs of the same moves are compared: one in which all moves share one cache, whatever was
done with it before, and one in which every move is given a new cache. Once identities are
forgotten the replies are the same and so are the plot and the curves after every move
(`History.trace_transparent`). A hit can only give what compiling again would have given, and
neither a failure nor a check that went before can change what a later move sees.

The step is `Session.observed_perform`: what can be observed of a command depends on the
session without its cache alone. Only commands that ask what the cache holds are left out.
-/

namespace Graphing

/-- Commands whose reply tells whether a formula was stored before. -/
def Command.looksUp : Command → Bool
  | .lookup _ => true
  | .race _ => true
  | _ => false

/-- The reply but for identities. -/
def Reply.anonymous : Reply → Reply
  | .curve shown => .curve shown.anonymous
  | .artifact shown => .artifact shown.anonymous
  | .raced shown other => .raced shown.anonymous (other.map Artifact.anonymous)
  | .plot shown => .plot shown.anonymous
  | reply => reply

namespace Session

/-- The session without its cache and without identities. -/
def anonymous (session : Session) : Session :=
  ⟨Cache.empty, session.plot.anonymous,
    session.slots.map fun entry => (entry.1, entry.2.anonymous)⟩

/-- What can be observed of a command. -/
def observed (performed : Performed) : Session × Reply :=
  (performed.1.anonymous, performed.2.1.anonymous)

@[simp] theorem anonymous_withCache (session : Session) (cache : Cache) :
    ({ session with cache := cache }).anonymous = session.anonymous := rfl

@[simp] theorem anonymous_withPlot (session : Session) (plot : Plot) :
    ({ session with plot := plot }).anonymous =
      { session.anonymous with plot := plot.anonymous } := rfl

theorem anonymous_withPlotAndCache (session : Session) (plot : Plot) (cache : Cache) :
    ({ session with plot := plot, cache := cache }).anonymous =
      { session.anonymous with plot := plot.anonymous } := rfl

@[simp] theorem plot_anonymous (session : Session) :
    session.anonymous.plot = session.plot.anonymous := rfl

@[simp] theorem anonymous_anonymous (session : Session) :
    session.anonymous.anonymous = session.anonymous := by
  simp [anonymous, Function.comp_def]

theorem slot?_anonymous (session : Session) (slot : String) :
    session.anonymous.slot? slot = (session.slot? slot).map Curve.anonymous := by
  simp only [slot?, anonymous, List.find?_map, Option.map_map]
  rfl

theorem anonymous_setAside (session : Session) (slot : String) (curve : Curve) :
    (session.setAside slot curve).anonymous =
      session.anonymous.setAside slot curve.anonymous := by
  simp only [setAside, anonymous, List.map_cons, List.filter_map]
  rfl

theorem anonymous_setAside? (session : Session) (slot : Option String) (curve : Curve) :
    (session.setAside? slot curve).anonymous =
      session.anonymous.setAside? slot curve.anonymous := by
  cases slot with
  | none => rfl
  | some slot => exact anonymous_setAside session slot curve

/-! ## Commands that leave the cache alone -/

theorem observed_about (session : Session) (name : String) {reply : Curve → Reply}
    (h : ∀ curve : Curve, (reply curve).anonymous = (reply curve.anonymous).anonymous) :
    observed (session.about name reply) = observed (session.anonymous.about name reply) := by
  unfold about
  rw [plot_anonymous, Plot.find?_anonymous]
  cases session.plot.find? name with
  | none => simp [observed]
  | some curve => simp [observed, h curve]

/-! ## Commands that use the cache -/

/-- Commands that end alike, from sessions that look alike and with results that do. -/
theorem observed_finish {β : Type} {related : β → β → Prop} {later later' : Session}
    (hlater : later.anonymous = later'.anonymous) {result result' : Except FormulaError β}
    (hresult : SameResult related result result') {succeed succeed' : Session → β → Session × Reply}
    (hsucceed : ∀ (value value' : β), related value value' →
      (succeed later value).1.anonymous = (succeed' later' value').1.anonymous ∧
        (succeed later value).2.anonymous = (succeed' later' value').2.anonymous)
    (events events' : List Event) :
    observed (later.finish result events succeed) =
      observed (later'.finish result' events' succeed') := by
  rcases hresult.cases with ⟨error, rfl, rfl⟩ | ⟨value, value', rfl, rfl, hrelated⟩
  · simp [finish, observed, hlater, Reply.anonymous]
  · obtain ⟨hafter, hreply⟩ := hsucceed value value' hrelated
    simp only [finish, observed]
    rw [hafter, hreply]

/-- Commands that end alike if their operations do. -/
theorem observed_conclude {β : Type} {related : β → β → Prop} {session other : Session}
    (hsession : session.anonymous = other.anonymous) {outcome outcome' : Outcome β}
    (houtcome : SameResult related outcome.result outcome'.result)
    {succeed succeed' : Session → β → Session × Reply}
    (hsucceed : ∀ (later later' : Session) (value value' : β),
      later.anonymous = later'.anonymous → related value value' →
        (succeed later value).1.anonymous = (succeed' later' value').1.anonymous ∧
        (succeed later value).2.anonymous = (succeed' later' value').2.anonymous) :
    observed (session.conclude outcome succeed) =
      observed (other.conclude outcome' succeed') := by
  have hlater : ({ session with cache := outcome.cache }).anonymous =
      ({ other with cache := outcome'.cache }).anonymous := hsession
  exact observed_finish hlater houtcome (fun value value' => hsucceed _ _ value value' hlater) _ _

/-- Commands that put another plot in place. -/
theorem observed_concludePlot (session : Session) {run : Cache → Outcome Plot}
    (h : SameOnCaches Plot.anonymous run run) (hcache : session.cache.Consistent) :
    observed (session.conclude (run session.cache) fun session plot =>
        ({ session with plot := plot }, .done)) =
      observed (session.anonymous.conclude (run session.anonymous.cache) fun session plot =>
        ({ session with plot := plot }, .done)) := by
  refine observed_conclude session.anonymous_anonymous.symm
    (SameResult.of_map_eq (h _ _ hcache Cache.consistent_empty)) ?_
  intro later later' plot plot' hlater hplot
  refine ⟨?_, rfl⟩
  show ({ later with plot := plot }).anonymous = ({ later' with plot := plot' }).anonymous
  rw [anonymous_withPlot later, anonymous_withPlot later', hlater, hplot]

/-- Commands that make a curve and set it aside. -/
theorem observed_concludeCurve (session : Session) {run : Cache → Outcome Curve}
    (h : SameOnCaches Curve.anonymous run run) (hcache : session.cache.Consistent)
    (slot : Option String) (finish : Curve → Curve)
    (hfinish : ∀ curve, (finish curve).anonymous = (finish curve.anonymous).anonymous) :
    observed (session.conclude (run session.cache) fun session curve =>
        (session.setAside? slot (finish curve), .curve (finish curve))) =
      observed (session.anonymous.conclude (run session.anonymous.cache)
        fun session curve => (session.setAside? slot (finish curve), .curve (finish curve))) := by
  refine observed_conclude session.anonymous_anonymous.symm
    (SameResult.of_map_eq (h _ _ hcache Cache.consistent_empty)) ?_
  intro later later' curve curve' hlater hcurve
  have hfinished : (finish curve).anonymous = (finish curve').anonymous := by
    rw [hfinish curve, hfinish curve', hcurve]
  refine ⟨?_, congrArg Reply.curve hfinished⟩
  show (later.setAside? slot (finish curve)).anonymous =
    (later'.setAside? slot (finish curve')).anonymous
  rw [anonymous_setAside? later, anonymous_setAside? later', hlater, hfinished]

theorem observed_validate (session : Session) (hcache : session.cache.Consistent)
    (text : String) :
    observed (session.perform (.validate text)) =
      observed (session.anonymous.perform (.validate text)) := by
  refine observed_conclude session.anonymous_anonymous.symm
    (SameResult.of_map_eq (sameOnCaches_validate text _ _ hcache Cache.consistent_empty)) ?_
  intro later later' _ _ hlater _
  exact ⟨hlater, rfl⟩

theorem observed_compile (session : Session) (hcache : session.cache.Consistent)
    (formula : Formula) :
    observed (session.compile formula) = observed (session.anonymous.compile formula) := by
  have hempty : session.anonymous.cache.Consistent := Cache.consistent_empty
  have hsame := (hcache.answer_eq formula).trans (hempty.answer_eq formula).symm
  unfold compile
  rcases (SameResult.of_map_eq hsame).cases with
    ⟨error, hleft, hright⟩ | ⟨a, b, hleft, hright, hab⟩
  · simp only [hleft, hright, observed, anonymous_withCache, anonymous_anonymous]
  · simp only [hleft, hright, observed, anonymous_withCache, anonymous_anonymous,
      Reply.anonymous, hab]

/-! ## Commands that change the plot where it is -/

/-- Commands that end alike if what they do to the plot does. -/
theorem observed_onPlot {β γ : Type} {forget : β → γ} {session other : Session}
    (hsession : session.anonymous = other.anonymous) (hcache : session.cache.Consistent)
    (hother : other.cache.Consistent) {work work' : Work (Plot × Cache) β}
    (hwork : SameInPlace Plot.anonymous forget work work')
    {succeed succeed' : Session → β → Session × Reply}
    (hsucceed : ∀ (later later' : Session) (value value' : β),
      later.anonymous = later'.anonymous → forget value = forget value' →
        (succeed later value).1.anonymous = (succeed' later' value').1.anonymous ∧
        (succeed later value).2.anonymous = (succeed' later' value').2.anonymous) :
    observed (session.onPlot work succeed) = observed (other.onPlot work' succeed') := by
  have hplot : session.plot.anonymous = other.plot.anonymous := congrArg Session.plot hsession
  obtain ⟨hresult, hafter⟩ := hwork session.plot other.plot session.cache other.cache hplot
    hcache hother
  simp only [onPlot]
  generalize work (session.plot, session.cache) = change at hresult hafter
  generalize work' (other.plot, other.cache) = change' at hresult hafter
  have hlater : ({ session with plot := change.after.1, cache := change.after.2 }).anonymous =
      ({ other with plot := change'.after.1, cache := change'.after.2 }).anonymous := by
    rw [anonymous_withPlotAndCache session, anonymous_withPlotAndCache other, hsession, hafter]
  exact observed_finish hlater (SameResult.of_map_eq hresult)
    (fun value value' => hsucceed _ _ value value' hlater) _ _

variable {session : Session}

theorem observed_define (hcache : session.cache.Consistent) (name text : String) :
    observed (session.define name text) = observed (session.anonymous.define name text) := by
  refine observed_onPlot session.anonymous_anonymous.symm hcache Cache.consistent_empty
    (Plot.sameInPlace_define name text) ?_
  intro later later' curve curve' hlater hcurve
  exact ⟨hlater, congrArg Reply.curve hcurve⟩

theorem observed_remove (hcache : session.cache.Consistent) (name : String)
    (slot : Option String) :
    observed (session.remove name slot) = observed (session.anonymous.remove name slot) := by
  refine observed_onPlot session.anonymous_anonymous.symm hcache Cache.consistent_empty
    (Plot.sameInPlace_remove name) ?_
  intro later later' curve curve' hlater hcurve
  refine ⟨?_, congrArg Reply.curve hcurve⟩
  show (later.setAside? slot curve).anonymous = (later'.setAside? slot curve').anonymous
  rw [anonymous_setAside? later, anonymous_setAside? later', hlater, hcurve]

theorem observed_onCurve (hcache : session.cache.Consistent) (name : String)
    {work : Work (Curve × Cache) Unit} (hwork : SameInPlace Curve.anonymous id work work) :
    observed (session.onCurve name work) = observed (session.anonymous.onCurve name work) := by
  refine observed_onPlot session.anonymous_anonymous.symm hcache Cache.consistent_empty
    (Plot.sameInPlace_onFirst name hwork) ?_
  intro later later' changed changed' hlater hchanged
  refine ⟨hlater, ?_⟩
  show (changed.elim Reply.absent .curve).anonymous = (changed'.elim Reply.absent .curve).anonymous
  have hreply : ∀ changed : Option Curve, (changed.elim Reply.absent .curve).anonymous =
      (changed.map Curve.anonymous).elim Reply.absent .curve := by
    intro changed
    cases changed <;> rfl
  rw [hreply changed, hreply changed', hchanged]

theorem observed_pushCurve {session other : Session}
    (hsession : session.anonymous = other.anonymous) (hcache : session.cache.Consistent)
    (hother : other.cache.Consistent) {curve curve' : Curve}
    (hcurve : curve.anonymous = curve'.anonymous) :
    observed (session.pushCurve curve) = observed (other.pushCurve curve') :=
  observed_onPlot hsession hcache hother (Plot.sameInPlace_push hcurve)
    fun _ _ _ _ hlater _ => ⟨hlater, rfl⟩

theorem observed_push (hcache : session.cache.Consistent) (slot : String) :
    observed (session.push slot) = observed (session.anonymous.push slot) := by
  unfold push
  rw [slot?_anonymous]
  cases session.slot? slot with
  | none => simp [observed]
  | some curve =>
      exact observed_pushCurve session.anonymous_anonymous.symm hcache Cache.consistent_empty
        curve.anonymous_anonymous.symm

/-! ## All commands -/

/-- What can be observed of a command that does not ask what the cache holds is what can be
observed if it is given a new cache. -/
theorem observed_perform (session : Session) (hcache : session.cache.Consistent)
    {command : Command} (h : command.looksUp = false) :
    observed (session.perform command) = observed (session.anonymous.perform command) := by
  cases command with
  | newPlot limit palette => simp [perform, observed]
  | newDefaults =>
      exact session.observed_concludePlot Plot.sameOnCaches_withDefaults hcache
  | clear => simp [perform, observed]
  | define name text => exact observed_define hcache name text
  | remove name slot => exact observed_remove hcache name slot
  | get name => exact session.observed_about name fun _ => rfl
  | redefine name text =>
      exact observed_onCurve hcache name (Curve.sameInPlace_redefine text)
  | edit name visible color rename =>
      exact observed_onCurve hcache name (Curve.sameInPlace_edit visible color rename)
  | records => simp [perform, observed]
  | record name => exact session.observed_about name fun _ => rfl
  | load records limit =>
      exact session.observed_concludePlot (Plot.sameOnCaches_ofRecords records limit) hcache
  | make slot name text color =>
      exact session.observed_concludeCurve (Curve.sameOnCaches_ofText name text) hcache slot
        (fun curve => curve.withColor (color.getD curve.color)) fun _ => rfl
  | restore slot record =>
      exact session.observed_concludeCurve (Curve.sameOnCaches_ofRecord record) hcache
        (some slot) id fun _ => rfl
  | push slot => exact observed_push hcache slot
  | showSlot slot =>
      simp only [perform, observed, slot?_anonymous, anonymous_anonymous]
      cases session.slot? slot with
      | none => rfl
      | some curve => rfl
  | calculate name xs => exact session.observed_about name fun _ => rfl
  | sample name grid => exact session.observed_about name fun _ => rfl
  | sampleVisible grid => simp [perform, observed]
  | validate text => exact session.observed_validate hcache text
  | compile formula => exact session.observed_compile hcache formula
  | lookup formula => cases h
  | race formula => cases h
  | showPlot => simp [perform, observed, Reply.anonymous]

end Session

/-! ## Moves -/

/-- Moves whose reply tells whether a formula was stored before. -/
def Move.looksUp : Move → Bool
  | .perform command => command.looksUp
  | .push _ => false

namespace History

/-- The replies to moves that share the cache, each with what it leaves. -/
def trace (history : History) : List Move → List (Reply × History)
  | [] => []
  | move :: moves => (history.reply move, history.move move) :: (history.move move).trace moves

/-- The history with a new cache in place of its own. -/
def refreshed (history : History) : History :=
  { history with session := { history.session with cache := Cache.empty } }

/-- The replies to moves of which every one is given a new cache, each with what it leaves. -/
def freshTrace (history : History) : List Move → List (Reply × History)
  | [] => []
  | move :: moves =>
      (history.refreshed.reply move, history.refreshed.move move) ::
        (history.refreshed.move move).freshTrace moves

/-- The history without its cache and without identities. -/
def anonymous (history : History) : History :=
  ⟨history.session.anonymous, history.seen.map Curve.anonymous⟩

/-- What can be observed of a move. -/
def observed (history : History) (move : Move) : Reply × History :=
  ((history.reply move).anonymous, (history.move move).anonymous)

theorem curves_anonymous (reply : Reply) :
    reply.anonymous.curves = reply.curves.map Curve.anonymous := by
  cases reply <;> rfl

theorem anonymous_perform (history : History) (command : Command) :
    (history.perform command).anonymous =
      let observed := Session.observed (history.session.perform command)
      ⟨observed.1, observed.1.plot.curves ++ observed.1.asideCurves ++ observed.2.curves ++
        history.seen.map Curve.anonymous⟩ := by
  simp [anonymous, perform, Session.observed, curves_anonymous, Session.asideCurves,
    Session.anonymous, Plot.anonymous, Function.comp_def]

theorem observed_push_anonymous (history : History) (hcache : history.session.cache.Consistent)
    (index : Nat) :
    history.observed (.push index) = history.anonymous.observed (.push index) := by
  simp only [observed, reply, move, push, anonymous, List.getElem?_map]
  cases history.seen[index]? with
  | none => simp
  | some curve =>
      have hpush := Session.observed_pushCurve history.session.anonymous_anonymous.symm hcache
        Cache.consistent_empty curve.anonymous_anonymous.symm
      obtain ⟨hsession, hreply⟩ := Prod.mk.inj hpush
      simp only [Option.map_some, hsession, hreply, List.map_map, Function.comp_def,
        Curve.anonymous_anonymous]

/-- What can be observed of a move depends on the history without its cache alone. -/
theorem observed_anonymous (history : History) (hcache : history.session.cache.Consistent)
    {move : Move} (h : move.looksUp = false) :
    history.observed move = history.anonymous.observed move := by
  cases move with
  | push index => exact history.observed_push_anonymous hcache index
  | perform command =>
      have hperform := history.session.observed_perform hcache h
      have hreply := congrArg Prod.snd hperform
      refine Prod.ext hreply ?_
      show (history.perform command).anonymous = (history.anonymous.perform command).anonymous
      rw [anonymous_perform, anonymous_perform, hperform]
      simp [anonymous, Function.comp_def]

/-- A move on a shared cache and one on a new cache look alike, if what they start from
does. -/
theorem observed_eq_refreshed {history other : History}
    (hcache : history.session.cache.Consistent) (hsame : history.anonymous = other.anonymous)
    {move : Move} (h : move.looksUp = false) :
    history.observed move = other.refreshed.observed move := by
  have hother : other.refreshed.anonymous = other.anonymous := rfl
  rw [history.observed_anonymous hcache h,
    other.refreshed.observed_anonymous Cache.consistent_empty h, hother, hsame]

theorem trace_eq_freshTrace {history other : History} (hcoherent : history.Coherent)
    (hsame : history.anonymous = other.anonymous) {moves : List Move}
    (h : ∀ move ∈ moves, move.looksUp = false) :
    (history.trace moves).map (fun step => (step.1.anonymous, step.2.anonymous)) =
      (other.freshTrace moves).map fun step => (step.1.anonymous, step.2.anonymous) := by
  induction moves generalizing history other with
  | nil => rfl
  | cons move moves ih =>
      have hstep := observed_eq_refreshed hcoherent.session.cache hsame
        (h move List.mem_cons_self)
      have hnext : (history.move move).Coherent := hcoherent.run [move]
      rw [trace, freshTrace, List.map_cons, List.map_cons]
      refine List.cons_eq_cons.mpr ⟨hstep, ?_⟩
      exact ih hnext (congrArg Prod.snd hstep)
        fun other hother => h other (List.mem_cons_of_mem _ hother)

/-- The cache is transparent. From any state that can be reached, any moves that do not ask
what the cache holds have the same replies and leave the same plots and curves, whether they
share the cache or are given a new one each, once identities are forgotten; and the values of
the curves on the plot are the same after every move, everywhere. -/
theorem trace_transparent (before moves : List Move)
    (h : ∀ move ∈ moves, move.looksUp = false) :
    let start := initial.run before
    (start.trace moves).map (fun step => (step.1.anonymous, step.2.anonymous)) =
        (start.freshTrace moves).map (fun step => (step.1.anonymous, step.2.anonymous)) ∧
      ∀ x, (start.trace moves).map
          (fun step => step.2.session.plot.curves.map fun curve => curve.value x) =
        (start.freshTrace moves).map
          fun step => step.2.session.plot.curves.map fun curve => curve.value x := by
  intro start
  have hsame := trace_eq_freshTrace (coherent_initial.run before) rfl h
  refine ⟨hsame, ?_⟩
  intro x
  -- the values can be read off what is left when identities are forgotten
  have hvalues : ∀ steps : List (Reply × History),
      steps.map (fun step => step.2.session.plot.curves.map fun curve => curve.value x) =
        (steps.map fun step => (step.1.anonymous, step.2.anonymous)).map
          fun step => step.2.session.plot.curves.map fun curve => curve.value x := by
    intro steps
    simp [anonymous, Plot.anonymous, Curve.value, Function.comp_def]
  rw [hvalues (start.trace moves), hvalues (start.freshTrace moves)]
  exact congrArg (List.map _) hsame

/-- A text is checked first, so that the definitions after it are hits; one of them is refused
and a curve is taken off and put back. -/
def checkedFirst : List Move :=
  [.perform (.define "f" "x"), .perform (.redefine "f" "x+"), .perform (.define "g" " x"),
    .perform (.remove "f" none), .push 2]

theorem trace_transparent_checkedFirst :
    let start := initial.run [.perform (.validate "x")]
    (start.run checkedFirst).session.cache.hits = 2 ∧
    (start.trace checkedFirst).map (fun step => (step.1.anonymous, step.2.anonymous)) =
      (start.freshTrace checkedFirst).map fun step => (step.1.anonymous, step.2.anonymous) := by
  refine ⟨by decide +kernel, ?_⟩
  exact (trace_transparent [.perform (.validate "x")] checkedFirst (by decide)).1

end History

end Graphing
