import Graphing.Plot.Basic

/-!
# What operations on a plot come to

The operations that change a plot or a curve where it is are sequences of steps. Here each of
them is carried out once, for every way it can go: the result, what the plot or the curve is
then, and the cache.

* **Order** — a definition takes its color when the curve is made (`Plot.define_of_rejected`), a
  record before its text is read (`Plot.restore_of_rejected`), so only the first leaves the colors
  alone when it fails.
* **New plots** — a plot that is made anew is dropped if making it fails. So loading comes to the
  same as adding curves to a plot that no failure ever touches (`Plot.ofRecords_eq_addAll`).
-/

namespace Graphing

/-! ## Steps one after the other -/

/-- A change that other events came before. -/
def Change.behind {σ β : Type} (events : List Event) (change : Change σ β) : Change σ β :=
  { change with events := events ++ change.events }

/-- An outcome that other events came before. -/
def Outcome.behind {β : Type} (events : List Event) (outcome : Outcome β) : Outcome β :=
  { outcome with events := events ++ outcome.events }

namespace Work

variable {σ β γ : Type} {work : Work σ β} {next : β → Work σ γ} {state after : σ}
  {events : List Event}

/-- The first step that fails is the last, and what it left is what is left. -/
theorem bind_of_error {error : FormulaError} (h : work state = ⟨.error error, after, events⟩) :
    (work >>= next) state = ⟨.error error, after, events⟩ := by
  simp only [bind, h]

/-- A step takes what the one before it left. -/
theorem bind_of_ok {value : β} (h : work state = ⟨.ok value, after, events⟩) :
    (work >>= next) state = (next value after).behind events := by
  simp only [bind, h]
  rfl

theorem discard_eq (work : Work σ β) (state : σ) :
    (discard work : Work σ Unit) state =
      ⟨(work state).result.map fun _ => (), (work state).after, (work state).events⟩ := by
  show (work >>= fun _ => pure ()) state = _
  cases h : work state with
  | mk result after events =>
      cases result with
      | error error => exact bind_of_error h
      | ok value =>
          rw [bind_of_ok h]
          exact congrArg (Change.mk _ _) (List.append_nil _)

theorem lift_eq {change : Change σ β} (h : work state = change) (cache : Cache) :
    (liftM work : Work (σ × Cache) β) (state, cache) =
      ⟨change.result, (change.after, cache), change.events⟩ := by
  rw [← h]
  rfl

section Ask

variable {make : Cache → Outcome β} {cache : Cache}

theorem ask_of_error {error : FormulaError} (h : (make cache).result = .error error) (state : σ) :
    ask make (state, cache) = ⟨.error error, (state, (make cache).cache), (make cache).events⟩ :=
  congrArg (Change.mk · _ _) h

theorem ask_of_ok {value : β} (h : (make cache).result = .ok value) (state : σ) :
    ask make (state, cache) = ⟨.ok value, (state, (make cache).cache), (make cache).events⟩ :=
  congrArg (Change.mk · _ _) h

end Ask

end Work

/-! ## Curves -/

namespace Curve

variable {text : String} {cache : Cache}

theorem redefine_of_rejected {error : FormulaError}
    (h : (compileText text cache).result = .error error) (curve : Curve) :
    redefine text (curve, cache) = ⟨.error error, (curve, (compileText text cache).cache),
      (compileText text cache).events⟩ :=
  Work.bind_of_error (Work.ask_of_error h curve)

theorem redefine_of_accepted {made : Formula × Artifact}
    (h : (compileText text cache).result = .ok made) (curve : Curve) :
    redefine text (curve, cache) =
      ⟨.ok (), ({ curve with text := text, formula := made.1, artifact := made.2 },
          (compileText text cache).cache),
        (compileText text cache).events ++
          [.redefined curve.name text made.2.fingerprint]⟩ :=
  Work.bind_of_ok (Work.ask_of_ok h curve)

theorem edit_eq (curve : Curve) (visible : Option Bool) (color : Option Color)
    (rename : Option String) :
    edit visible color rename curve =
      ⟨.ok (), { curve with
          visible := visible.getD curve.visible
          color := color.getD curve.color
          name := rename.getD curve.name }, []⟩ :=
  rfl

end Curve

namespace Plot

variable {plot : Plot} {name text : String} {cache : Cache} {record : CurveRecord}

/-! ## Curves that are pushed and taken off -/

theorem length_lt_of_isFull_eq_false (h : plot.isFull = false) :
    plot.curves.length < plot.limit :=
  Nat.lt_of_not_le (of_decide_eq_false h)

theorem isFull_eq_false_of_lt (h : plot.curves.length < plot.limit) : plot.isFull = false :=
  decide_eq_false (Nat.not_le.mpr h)

theorem ensureRoom_of_isFull (h : plot.isFull = true) :
    ensureRoom plot = ⟨.error (.tooManyFunctions plot.limit), plot, []⟩ := by
  rw [ensureRoom, Work.look, if_pos h]

theorem ensureRoom_of_room (h : plot.isFull = false) : ensureRoom plot = ⟨.ok (), plot, []⟩ := by
  rw [ensureRoom, Work.look, if_neg (Bool.eq_false_iff.mp h)]

theorem push_of_isFull (h : plot.isFull = true) (curve : Curve) :
    push curve plot = ⟨.error (.tooManyFunctions plot.limit), plot, []⟩ :=
  Work.bind_of_error (ensureRoom_of_isFull h)

theorem push_of_room (h : plot.isFull = false) (curve : Curve) :
    push curve plot = ⟨.ok (), { plot with curves := plot.curves ++ [curve] }, []⟩ :=
  Work.bind_of_ok (ensureRoom_of_room h)

theorem remove_of_find?_eq_none (h : plot.find? name = none) :
    remove name plot = ⟨.error (.functionNotFound name), plot, []⟩ := by
  have hfirst : first name plot = ⟨.error (.functionNotFound name), plot, []⟩ := by
    simp only [first, Work.look, h]
  exact Work.bind_of_error hfirst

theorem remove_of_find?_eq_some {curve : Curve} (h : plot.find? name = some curve) :
    remove name plot =
      ⟨.ok curve, { plot with curves := plot.curves.eraseP fun curve => curve.name = name },
        [.removed name]⟩ := by
  have hfirst : first name plot = ⟨.ok curve, plot, []⟩ := by
    simp only [first, Work.look, h]
  exact Work.bind_of_ok hfirst

/-! ## Curves that are made -/

/-- The plot with a further curve in the next color. -/
def addColored (plot : Plot) (curve : Curve) : Plot :=
  { plot with
    curves := plot.curves ++ [curve.withColor plot.colors.color]
    colors := plot.colors.advance }

theorem nextColor_eq (plot : Plot) :
    nextColor plot = ⟨.ok plot.colors.color, { plot with colors := plot.colors.advance }, []⟩ :=
  rfl

theorem define_of_isFull (h : plot.isFull = true) (name text : String) (cache : Cache) :
    define name text (plot, cache) =
      ⟨.error (.tooManyFunctions plot.limit), (plot, cache), []⟩ :=
  Work.bind_of_error (Work.lift_eq (ensureRoom_of_isFull h) cache)

/-- A text that is refused takes no color. -/
theorem define_of_rejected (h : plot.isFull = false) {error : FormulaError}
    (hmade : (Curve.ofText name text cache).result = .error error) :
    define name text (plot, cache) =
      ⟨.error error, (plot, (Curve.ofText name text cache).cache),
        (Curve.ofText name text cache).events⟩ := by
  rw [define, Work.bind_of_ok (Work.lift_eq (ensureRoom_of_room h) cache),
    Work.bind_of_error (Work.ask_of_error hmade plot)]
  rfl

theorem define_of_accepted (h : plot.isFull = false) {curve : Curve}
    (hmade : (Curve.ofText name text cache).result = .ok curve) :
    define name text (plot, cache) =
      ⟨.ok (curve.withColor plot.colors.color),
        (plot.addColored curve, (Curve.ofText name text cache).cache),
        (Curve.ofText name text cache).events⟩ := by
  rw [define, Work.bind_of_ok (Work.lift_eq (ensureRoom_of_room h) cache),
    Work.bind_of_ok (Work.ask_of_ok hmade plot)]
  exact congrArg (Change.mk _ _) (List.append_nil _)

theorem restore_of_isFull (h : plot.isFull = true) (record : CurveRecord) (cache : Cache) :
    restore record (plot, cache) =
      ⟨.error (.tooManyFunctions plot.limit), (plot, cache), []⟩ :=
  Work.bind_of_error (Work.lift_eq (ensureRoom_of_isFull h) cache)

/-- A record whose text is refused has taken its color by then. -/
theorem restore_of_rejected (h : plot.isFull = false) {error : FormulaError}
    (hmade : (Curve.ofRecord record cache).result = .error error) :
    restore record (plot, cache) =
      ⟨.error error, ({ plot with colors := plot.colors.advance },
          (Curve.ofRecord record cache).cache), (Curve.ofRecord record cache).events⟩ := by
  rw [restore, Work.bind_of_ok (Work.lift_eq (ensureRoom_of_room h) cache),
    Work.bind_of_ok (Work.lift_eq plot.nextColor_eq cache),
    Work.bind_of_error (Work.ask_of_error hmade _)]
  rfl

theorem restore_of_accepted (h : plot.isFull = false) {curve : Curve}
    (hmade : (Curve.ofRecord record cache).result = .ok curve) :
    restore record (plot, cache) =
      ⟨.ok (), (plot.addColored curve, (Curve.ofRecord record cache).cache),
        (Curve.ofRecord record cache).events⟩ := by
  rw [restore, Work.bind_of_ok (Work.lift_eq (ensureRoom_of_room h) cache),
    Work.bind_of_ok (Work.lift_eq plot.nextColor_eq cache),
    Work.bind_of_ok (Work.ask_of_ok hmade _)]
  exact congrArg (Change.mk _ _) (List.append_nil _)

/-! ## Curves in their places -/

theorem onFirst_of_find?_eq_none (h : plot.find? name = none)
    (work : Work (Curve × Cache) Unit) (cache : Cache) :
    onFirst name work (plot, cache) = ⟨.ok none, (plot, cache), []⟩ := by
  simp only [onFirst, h]

theorem onFirst_of_find?_eq_some {curve : Curve} (h : plot.find? name = some curve)
    (work : Work (Curve × Cache) Unit) (cache : Cache) :
    onFirst name work (plot, cache) =
      ⟨(work (curve, cache)).result.map fun _ => some (work (curve, cache)).after.1,
        (plot.replace name (work (curve, cache)).after.1, (work (curve, cache)).after.2),
        (work (curve, cache)).events⟩ := by
  simp only [onFirst, h]

/-- A curve that is as it was leaves the plot as it was. -/
theorem replace_of_find?_eq_some {curve : Curve} (h : plot.find? name = some curve) :
    plot.replace name curve = plot := by
  have hsame : ∀ curves : List Curve, curves.find? (fun curve => curve.name = name) = some curve →
      replaceFirst name curve curves = curves := by
    intro curves hfind
    induction curves with
    | nil => cases hfind
    | cons first rest ih =>
        rw [List.find?_cons] at hfind
        unfold replaceFirst
        by_cases hname : first.name = name
        · simp only [hname, decide_true] at hfind
          rw [if_pos hname, Option.some.inj hfind]
        · simp only [hname, decide_false] at hfind
          rw [if_neg hname, ih hfind]
  rw [replace, hsame plot.curves h]

/-! ## Plots that are made anew -/

/-- Adds a curve made by `make` in the next color, if there is room. -/
def addMade (plot : Plot) (make : Cache → Outcome Curve) (cache : Cache) : Outcome Plot :=
  if plot.isFull then ⟨.error (.tooManyFunctions plot.limit), cache, []⟩
  else (make cache).map plot.addColored

/-- Adds a curve for each of a list of ways to make one, up to the first failure. -/
def addAll (plot : Plot) : List (Cache → Outcome Curve) → Cache → Outcome Plot
  | [], cache => ⟨.ok plot, cache, []⟩
  | make :: rest, cache =>
      let added := plot.addMade make cache
      match added.result with
      | .error _ => added
      | .ok plot => (plot.addAll rest added.cache).behind added.events

section AddMade

variable {make : Cache → Outcome Curve} {curve : Curve} {error : FormulaError}

theorem addMade_of_isFull (h : plot.isFull = true) (make : Cache → Outcome Curve)
    (cache : Cache) :
    plot.addMade make cache = ⟨.error (.tooManyFunctions plot.limit), cache, []⟩ := by
  rw [addMade, if_pos h]

theorem addMade_of_error (h : plot.isFull = false) (hmake : (make cache).result = .error error) :
    plot.addMade make cache = ⟨.error error, (make cache).cache, (make cache).events⟩ := by
  rw [addMade, if_neg (Bool.eq_false_iff.mp h), Outcome.map, hmake]
  rfl

theorem addMade_of_ok (h : plot.isFull = false) (hmake : (make cache).result = .ok curve) :
    plot.addMade make cache =
      ⟨.ok (plot.addColored curve), (make cache).cache, (make cache).events⟩ := by
  rw [addMade, if_neg (Bool.eq_false_iff.mp h), Outcome.map, hmake]
  rfl

theorem addAll_of_isFull (h : plot.isFull = true) (make : Cache → Outcome Curve)
    (rest : List (Cache → Outcome Curve)) (cache : Cache) :
    plot.addAll (make :: rest) cache = ⟨.error (.tooManyFunctions plot.limit), cache, []⟩ := by
  simp only [addAll, addMade_of_isFull h]

theorem addAll_of_error (h : plot.isFull = false) (hmake : (make cache).result = .error error)
    (rest : List (Cache → Outcome Curve)) :
    plot.addAll (make :: rest) cache = ⟨.error error, (make cache).cache, (make cache).events⟩ := by
  simp only [addAll, addMade_of_error h hmake]

theorem addAll_of_ok (h : plot.isFull = false) (hmake : (make cache).result = .ok curve)
    (rest : List (Cache → Outcome Curve)) :
    plot.addAll (make :: rest) cache =
      ((plot.addColored curve).addAll rest (make cache).cache).behind (make cache).events := by
  simp only [addAll, addMade_of_ok h hmake]

end AddMade

theorem build_define (plot : Plot) (name text : String) (cache : Cache) :
    Work.build plot (discard (define name text)) cache =
      plot.addMade (Curve.ofText name text) cache := by
  rw [Work.build, Work.discard_eq]
  cases hfull : plot.isFull with
  | true =>
      rw [define_of_isFull hfull, addMade_of_isFull hfull]
      rfl
  | false =>
      cases hmade : (Curve.ofText name text cache).result with
      | error error =>
          rw [define_of_rejected hfull hmade, addMade_of_error hfull hmade]
          rfl
      | ok curve =>
          rw [define_of_accepted hfull hmade, addMade_of_ok hfull hmade]
          rfl

theorem build_restore (plot : Plot) (record : CurveRecord) (cache : Cache) :
    Work.build plot (restore record) cache = plot.addMade (Curve.ofRecord record) cache := by
  rw [Work.build]
  cases hfull : plot.isFull with
  | true =>
      rw [restore_of_isFull hfull, addMade_of_isFull hfull]
      rfl
  | false =>
      cases hmade : (Curve.ofRecord record cache).result with
      | error error =>
          rw [restore_of_rejected hfull hmade, addMade_of_error hfull hmade]
          rfl
      | ok curve =>
          rw [restore_of_accepted hfull hmade, addMade_of_ok hfull hmade]
          rfl

/-- Steps that each come to adding a curve come to adding all curves. A failure leaves a plot
half made behind, which nothing goes on with. -/
theorem build_forM {ι : Type} {step : ι → Work (Plot × Cache) Unit}
    {make : ι → Cache → Outcome Curve}
    (hstep : ∀ item plot cache, Work.build plot (step item) cache = plot.addMade (make item) cache)
    (items : List ι) (plot : Plot) (cache : Cache) :
    Work.build plot (items.forM step) cache = plot.addAll (items.map make) cache := by
  induction items generalizing plot cache with
  | nil => rfl
  | cons item rest ih =>
      have hcons : (item :: rest).forM step = step item >>= fun _ => rest.forM step := rfl
      rw [List.map_cons, addAll, ← hstep, hcons]
      cases h : step item (plot, cache) with
      | mk result after events =>
          cases result with
          | error error =>
              simp only [Work.build, Work.bind_of_error h, h]
              rfl
          | ok value =>
              simp only [Work.build, Work.bind_of_ok h, h, Except.map]
              rw [← ih]
              rfl

theorem ofRecords_eq_addAll (records : List CurveRecord) (limit : Nat) (cache : Cache) :
    ofRecords records limit cache =
      (withLimit limit).addAll (records.map Curve.ofRecord) cache :=
  build_forM (fun record plot cache => build_restore plot record cache) records _ cache

theorem withDefaults_eq_addAll (cache : Cache) :
    withDefaults cache = empty.addAll
      (defaultFunctions.map fun function => Curve.ofText function.1 function.2) cache :=
  build_forM (fun function plot cache => build_define plot function.1 function.2 cache)
    defaultFunctions _ cache

end Plot

end Graphing
