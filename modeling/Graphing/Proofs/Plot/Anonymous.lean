import Graphing.Proofs.Plot.Coherence
import Graphing.Proofs.Term.Alike

/-!
# Curves and plots without identities

Two artifacts that were compiled from one formula differ in their identities alone. What is
`anonymous` has all identities forgotten: names, texts, trees, terms, colors and values are
still there. Operations on plots that leave the cache alone commute with forgetting. Those
that use a cache give the same result on any two consistent caches, once identities are
forgotten: a stored artifact is what compiling again would have made.
-/

namespace Graphing

/-- The artifact but for its identity. -/
def Artifact.anonymous (artifact : Artifact) : Artifact :=
  { artifact with identity := 0 }

/-- The curve but for the identity of its artifact. -/
def Curve.anonymous (curve : Curve) : Curve :=
  { curve with artifact := curve.artifact.anonymous }

/-- The plot but for the identities of its artifacts. -/
def Plot.anonymous (plot : Plot) : Plot :=
  { plot with curves := plot.curves.map Curve.anonymous }

namespace Curve

@[simp] theorem name_anonymous (curve : Curve) : curve.anonymous.name = curve.name := rfl

@[simp] theorem visible_anonymous (curve : Curve) : curve.anonymous.visible = curve.visible := rfl

@[simp] theorem color_anonymous (curve : Curve) : curve.anonymous.color = curve.color := rfl

@[simp] theorem record_anonymous (curve : Curve) : curve.anonymous.record = curve.record := rfl

@[simp] theorem function_anonymous (curve : Curve) :
    curve.anonymous.artifact.function = curve.artifact.function := rfl

@[simp] theorem anonymous_anonymous (curve : Curve) :
    curve.anonymous.anonymous = curve.anonymous := rfl

@[simp] theorem anonymous_withColor (curve : Curve) (color : Color) :
    (curve.withColor color).anonymous = curve.anonymous.withColor color := rfl

end Curve

namespace Plot

@[simp] theorem limit_anonymous (plot : Plot) : plot.anonymous.limit = plot.limit := rfl

@[simp] theorem colors_anonymous (plot : Plot) : plot.anonymous.colors = plot.colors := rfl

@[simp] theorem isFull_anonymous (plot : Plot) : plot.anonymous.isFull = plot.isFull := by
  simp [isFull, anonymous]

@[simp] theorem anonymous_anonymous (plot : Plot) :
    plot.anonymous.anonymous = plot.anonymous := by
  simp [anonymous, Function.comp_def]

@[simp] theorem records_anonymous (plot : Plot) : plot.anonymous.records = plot.records := by
  simp [records, anonymous, Function.comp_def]

@[simp] theorem sampleVisible_anonymous (plot : Plot) (grid : SampleGrid) :
    plot.anonymous.sampleVisible grid = plot.sampleVisible grid := by
  simp [sampleVisible, anonymous, List.filter_map, Function.comp_def, Curve.sample]

@[simp] theorem anonymous_clear (plot : Plot) : plot.clear.anonymous = plot.anonymous.clear := rfl

theorem find?_anonymous (plot : Plot) (name : String) :
    plot.anonymous.find? name = (plot.find? name).map Curve.anonymous := by
  rw [find?, anonymous, List.find?_map]
  rfl

theorem isFull_eq_of_anonymous_eq {plot plot' : Plot}
    (h : plot.anonymous = plot'.anonymous) :
    plot.isFull = plot'.isFull := by
  rw [← isFull_anonymous plot, h, isFull_anonymous]

theorem limit_eq_of_anonymous_eq {plot plot' : Plot}
    (h : plot.anonymous = plot'.anonymous) :
    plot.limit = plot'.limit := by
  rw [← limit_anonymous plot, h, limit_anonymous]

theorem colors_eq_of_anonymous_eq {plot plot' : Plot}
    (h : plot.anonymous = plot'.anonymous) : plot.colors = plot'.colors := by
  rw [← colors_anonymous plot, h, colors_anonymous]

theorem addColored_anonymous (plot : Plot) (curve : Curve) :
    plot.anonymous.addColored curve.anonymous = (plot.addColored curve).anonymous := by
  simp [addColored, anonymous]

theorem replaceFirst_anonymous (name : String) (changed : Curve) (curves : List Curve) :
    replaceFirst name changed.anonymous (curves.map Curve.anonymous) =
      (replaceFirst name changed curves).map Curve.anonymous := by
  induction curves with
  | nil => rfl
  | cons curve rest ih =>
      by_cases hname : curve.name = name
      · simp [replaceFirst, hname]
      · simp [replaceFirst, hname, ih]

theorem replace_anonymous (plot : Plot) (name : String) (changed : Curve) :
    plot.anonymous.replace name changed.anonymous = (plot.replace name changed).anonymous := by
  simp [replace, anonymous, replaceFirst_anonymous]

theorem eraseP_anonymous (curves : List Curve) (name : String) :
    (curves.map Curve.anonymous).eraseP (fun curve => curve.name = name) =
      (curves.eraseP fun curve => curve.name = name).map Curve.anonymous := by
  rw [List.eraseP_map]
  rfl

end Plot

/-! ## Operations on two caches -/

theorem Cache.consistent_empty : Cache.empty.Consistent :=
  ⟨[], Cache.accounted_empty⟩

/-- What a request is answered is what compiling the formula gives, but for the identity. -/
theorem Cache.Consistent.answer_eq {cache : Cache} (h : cache.Consistent) (formula : Formula) :
    (cache.getOrCompile formula).answer.map Artifact.anonymous = formula.compile 0 := by
  obtain ⟨_, ⟨ledger, hledger⟩, hanswer⟩ := h.getOrCompile formula
  cases hok : (cache.getOrCompile formula).answer with
  | error error =>
      rw [hok] at hanswer
      exact (Expr.compile_eq_error_iff.mpr hanswer).symm
  | ok a =>
      rw [hok] at hanswer
      have hmade := hledger.stored hanswer
      have hcompile : formula.compile 0 = .ok a.anonymous :=
        Expr.compile_eq_ok_iff.mpr ⟨hmade.term, hmade.fingerprint, rfl⟩
      exact hcompile.symm

/-- Results that are the same once something is forgotten. -/
theorem SameResult.of_map_eq {ε β γ : Type} {forget : β → γ} {x y : Except ε β}
    (h : x.map forget = y.map forget) : SameResult (fun a b => forget a = forget b) x y := by
  cases x with
  | error error =>
      cases y with
      | error other =>
          cases h
          exact .error error
      | ok b => cases h
  | ok a =>
      cases y with
      | error other => cases h
      | ok b => exact .ok (Except.ok.inj h)

/-- Two operations give the same result on any two consistent caches, once something is
forgotten. -/
def SameOnCaches {β γ : Type} (forget : β → γ) (run run' : Cache → Outcome β) : Prop :=
  ∀ cache other : Cache, cache.Consistent → other.Consistent →
    (run cache).result.map forget = (run' other).result.map forget

namespace SameOnCaches

variable {β γ δ ε : Type} {forget : β → γ} {run run' : Cache → Outcome β}

theorem map (h : SameOnCaches forget run run') {f f' : β → δ} {forget' : δ → ε} (g : γ → ε)
    (hf : ∀ value, forget' (f value) = g (forget value))
    (hf' : ∀ value, forget' (f' value) = g (forget value)) :
    SameOnCaches forget' (fun cache => (run cache).map f)
      (fun cache => (run' cache).map f') := by
  intro cache other hcache hother
  rcases (SameResult.of_map_eq (h cache other hcache hother)).cases with
    ⟨error, hleft, hright⟩ | ⟨a, b, hleft, hright, hab⟩
  · simp only [Outcome.map, hleft, hright, Except.map]
  · simp only [Outcome.map, hleft, hright, Except.map, hf, hf', hab]

theorem report (h : SameOnCaches forget run run') (event event' : β → Event) :
    SameOnCaches forget (fun cache => (run cache).report event)
      (fun cache => (run' cache).report event') := by
  have hresult : ∀ (outcome : Outcome β) (event : β → Event),
      (outcome.report event).result = outcome.result := by
    rintro ⟨result, cache, events⟩ event
    cases result <;> rfl
  intro cache other hcache hother
  rw [hresult, hresult]
  exact h cache other hcache hother

end SameOnCaches

theorem sameOnCaches_compileText (text : String) :
    SameOnCaches (fun made : Formula × Artifact => (made.1, made.2.anonymous))
      (compileText text) (compileText text) := by
  intro cache other hcache hother
  unfold compileText
  cases Expr.parse text with
  | error error => rfl
  | ok formula =>
      have hsame : (cache.getOrCompile formula).answer.map Artifact.anonymous =
          (other.getOrCompile formula).answer.map Artifact.anonymous :=
        (hcache.answer_eq formula).trans (hother.answer_eq formula).symm
      rcases (SameResult.of_map_eq hsame).cases with
        ⟨error, hleft, hright⟩ | ⟨a, b, hleft, hright, hab⟩
      · simp only [hleft, hright, Except.map]
      · simp only [hleft, hright, Except.map, hab]

theorem sameOnCaches_validate (text : String) :
    SameOnCaches id (validate text) (validate text) :=
  (sameOnCaches_compileText text).map (fun _ => ()) (fun _ => rfl) (fun _ => rfl)

namespace Curve

theorem sameOnCaches_ofText (name text : String) :
    SameOnCaches anonymous (ofText name text) (ofText name text) := by
  refine ((sameOnCaches_compileText text).map ?_ ?_ ?_).report _ _
  · exact fun made => ⟨name, text, made.1, made.2, Color.initial, true⟩
  · exact fun made => rfl
  · exact fun made => rfl

theorem sameOnCaches_ofRecord (record : CurveRecord) :
    SameOnCaches anonymous (ofRecord record) (ofRecord record) :=
  (sameOnCaches_ofText record.name record.text).map
    (fun curve => { curve with visible := record.visible }) (fun _ => rfl) (fun _ => rfl)

end Curve

namespace Plot

variable {plot plot' : Plot}

theorem sameOnCaches_addMade (h : plot.anonymous = plot'.anonymous)
    {make : Cache → Outcome Curve} (hmake : SameOnCaches Curve.anonymous make make) :
    SameOnCaches anonymous (plot.addMade make) (plot'.addMade make) := by
  have hfull := isFull_eq_of_anonymous_eq h
  have hlimit := limit_eq_of_anonymous_eq h
  intro cache other hcache hother
  unfold addMade
  rw [hfull, hlimit]
  split
  · rfl
  · refine hmake.map plot.anonymous.addColored ?_ ?_ cache other hcache hother
    · intro curve
      exact (addColored_anonymous plot curve).symm
    · intro curve
      rw [h]
      exact (addColored_anonymous plot' curve).symm

theorem consistent_addMade {cache : Cache} (hcache : cache.Consistent)
    {make : Cache → Outcome Curve} (hmake : MakesCoherent make) (plot : Plot) :
    (plot.addMade make cache).cache.Consistent := by
  unfold addMade
  split
  · exact hcache
  · exact (hmake cache hcache).consistent

theorem sameOnCaches_addAll {makes : List (Cache → Outcome Curve)}
    (hmakes : ∀ make ∈ makes, MakesCoherent make ∧ SameOnCaches Curve.anonymous make make)
    (h : plot.anonymous = plot'.anonymous) :
    SameOnCaches anonymous (plot.addAll makes) (plot'.addAll makes) := by
  intro cache other hcache hother
  induction makes generalizing plot plot' cache other with
  | nil => exact congrArg Except.ok h
  | cons make makes ih =>
      obtain ⟨hcoherent, hsame⟩ := hmakes make List.mem_cons_self
      have hadded := sameOnCaches_addMade h hsame cache other hcache hother
      simp only [addAll]
      rcases (SameResult.of_map_eq hadded).cases with
        ⟨error, hleft, hright⟩ | ⟨added, added', hleft, hright, heq⟩
      · simp only [hleft, hright]
      · -- the rest starts on two caches that have gone different ways
        simp only [hleft, hright]
        exact ih (fun other hother => hmakes other (List.mem_cons_of_mem _ hother)) heq _ _
          (consistent_addMade hcache hcoherent plot) (consistent_addMade hother hcoherent plot')

theorem sameOnCaches_withDefaults : SameOnCaches anonymous withDefaults withDefaults := by
  intro cache other hcache hother
  rw [withDefaults_eq_addAll, withDefaults_eq_addAll]
  refine sameOnCaches_addAll ?_ rfl cache other hcache hother
  intro make hmake
  obtain ⟨⟨name, text⟩, _, rfl⟩ := List.mem_map.mp hmake
  exact ⟨Curve.makesCoherent_ofText name text, Curve.sameOnCaches_ofText name text⟩

theorem sameOnCaches_ofRecords (records : List CurveRecord) (limit : Nat) :
    SameOnCaches anonymous (ofRecords records limit) (ofRecords records limit) := by
  intro cache other hcache hother
  rw [ofRecords_eq_addAll, ofRecords_eq_addAll]
  refine sameOnCaches_addAll ?_ rfl cache other hcache hother
  intro make hmake
  obtain ⟨record, _, rfl⟩ := List.mem_map.mp hmake
  exact ⟨Curve.makesCoherent_ofRecord record, Curve.sameOnCaches_ofRecord record⟩

end Plot

/-! ## Work on two caches -/

/-- Two works on what is the same in one view, on any two consistent caches, give the same result
once something is forgotten, and leave what is the same in that view. -/
def SameInPlace {σ τ β γ : Type} (view : σ → τ) (forget : β → γ)
    (work work' : Work (σ × Cache) β) : Prop :=
  ∀ (state state' : σ) (cache other : Cache), view state = view state' →
    cache.Consistent → other.Consistent →
    (work (state, cache)).result.map forget = (work' (state', other)).result.map forget ∧
      view (work (state, cache)).after.1 = view (work' (state', other)).after.1

namespace Curve

/-- A new text replaces the artifact, so that the old identity does not matter. -/
theorem sameInPlace_redefine (text : String) :
    SameInPlace anonymous id (redefine text) (redefine text) := by
  intro curve curve' cache other hsame hcache hother
  have hcompile := sameOnCaches_compileText text cache other hcache hother
  rcases (SameResult.of_map_eq hcompile).cases with
    ⟨error, hleft, hright⟩ | ⟨made, made', hleft, hright, hmade⟩
  · rw [redefine_of_rejected hleft, redefine_of_rejected hright]
    exact ⟨rfl, hsame⟩
  · obtain ⟨hformula, hartifact⟩ := Prod.mk.inj hmade
    rw [redefine_of_accepted hleft, redefine_of_accepted hright]
    refine ⟨rfl, ?_⟩
    -- name, color and visibility are those of the curve that was there
    have hfield : ∀ {β : Type} (field : Curve → β), field curve.anonymous =
        field curve'.anonymous := fun field => congrArg field hsame
    simp only [anonymous, Curve.mk.injEq]
    exact ⟨hfield Curve.name, trivial, hformula, hartifact, hfield Curve.color,
      hfield Curve.visible⟩

theorem sameInPlace_edit (visible : Option Bool) (color : Option Color)
    (rename : Option String) :
    SameInPlace anonymous id (liftM (edit visible color rename) : Work (Curve × Cache) Unit)
      (liftM (edit visible color rename)) := by
  intro curve curve' cache other hsame _ _
  rw [Work.lift_eq (edit_eq curve visible color rename),
    Work.lift_eq (edit_eq curve' visible color rename)]
  refine ⟨rfl, ?_⟩
  have hedited := congrArg (fun curve => (edit visible color rename curve).after) hsame
  exact hedited

end Curve

namespace Plot

variable {plot plot' : Plot}

theorem anonymous_addColored_eq (h : plot.anonymous = plot'.anonymous) {curve curve' : Curve}
    (hcurve : curve.anonymous = curve'.anonymous) :
    (plot.addColored curve).anonymous = (plot'.addColored curve').anonymous := by
  rw [← addColored_anonymous, h, hcurve, addColored_anonymous]

theorem sameInPlace_push {curve curve' : Curve} (h : curve.anonymous = curve'.anonymous) :
    SameInPlace anonymous id (liftM (push curve) : Work (Plot × Cache) Unit)
      (liftM (push curve')) := by
  intro plot plot' cache other hsame _ _
  have hlimit := limit_eq_of_anonymous_eq hsame
  have hfull := isFull_eq_of_anonymous_eq hsame
  cases hright : plot'.isFull with
  | true =>
      rw [Work.lift_eq (push_of_isFull (hfull.trans hright) curve),
        Work.lift_eq (push_of_isFull hright curve'), hlimit]
      exact ⟨rfl, hsame⟩
  | false =>
      rw [Work.lift_eq (push_of_room (hfull.trans hright) curve),
        Work.lift_eq (push_of_room hright curve')]
      refine ⟨rfl, ?_⟩
      have hcurves : plot.curves.map Curve.anonymous = plot'.curves.map Curve.anonymous :=
        congrArg Plot.curves hsame
      have hcolors := colors_eq_of_anonymous_eq hsame
      simp only [anonymous, List.map_append, List.map_cons, List.map_nil, hcurves, hlimit, hcolors,
        h]

theorem sameInPlace_define (name text : String) :
    SameInPlace anonymous Curve.anonymous (define name text) (define name text) := by
  intro plot plot' cache other hsame hcache hother
  have hlimit := limit_eq_of_anonymous_eq hsame
  have hfull := isFull_eq_of_anonymous_eq hsame
  cases hright : plot'.isFull with
  | true =>
      rw [define_of_isFull (hfull.trans hright), define_of_isFull hright, hlimit]
      exact ⟨rfl, hsame⟩
  | false =>
      have hmade := Curve.sameOnCaches_ofText name text cache other hcache hother
      rcases (SameResult.of_map_eq hmade).cases with
        ⟨error, hmine, htheirs⟩ | ⟨curve, curve', hmine, htheirs, hcurve⟩
      · rw [define_of_rejected (hfull.trans hright) hmine, define_of_rejected hright htheirs]
        exact ⟨rfl, hsame⟩
      · have hcolors := colors_eq_of_anonymous_eq hsame
        rw [define_of_accepted (hfull.trans hright) hmine, define_of_accepted hright htheirs]
        refine ⟨?_, anonymous_addColored_eq hsame hcurve⟩
        simp only [Except.map, Curve.anonymous_withColor, hcurve, hcolors]

/-- Plots that look alike find curves that look alike, or none. -/
theorem find?_cases (h : plot.anonymous = plot'.anonymous) (name : String) :
    plot.find? name = none ∧ plot'.find? name = none ∨
      ∃ curve curve', plot.find? name = some curve ∧ plot'.find? name = some curve' ∧
        curve.anonymous = curve'.anonymous := by
  have hfind : (plot.find? name).map Curve.anonymous = (plot'.find? name).map Curve.anonymous := by
    rw [← find?_anonymous, h, find?_anonymous]
  cases hmine : plot.find? name with
  | none =>
      rw [hmine] at hfind
      exact .inl ⟨rfl, Option.map_eq_none_iff.mp hfind.symm⟩
  | some curve =>
      rw [hmine] at hfind
      obtain ⟨curve', htheirs, hcurve⟩ := Option.map_eq_some_iff.mp hfind.symm
      exact .inr ⟨curve, curve', rfl, htheirs, hcurve.symm⟩

theorem sameInPlace_remove (name : String) :
    SameInPlace anonymous Curve.anonymous (liftM (remove name) : Work (Plot × Cache) Curve)
      (liftM (remove name)) := by
  intro plot plot' cache other hsame _ _
  rcases find?_cases hsame name with ⟨hmine, htheirs⟩ | ⟨curve, curve', hmine, htheirs, hcurve⟩
  · rw [Work.lift_eq (remove_of_find?_eq_none hmine),
      Work.lift_eq (remove_of_find?_eq_none htheirs)]
    exact ⟨rfl, hsame⟩
  · rw [Work.lift_eq (remove_of_find?_eq_some hmine),
      Work.lift_eq (remove_of_find?_eq_some htheirs)]
    refine ⟨congrArg Except.ok hcurve, ?_⟩
    have hcurves : plot.curves.map Curve.anonymous = plot'.curves.map Curve.anonymous :=
      congrArg Plot.curves hsame
    have hcolors := colors_eq_of_anonymous_eq hsame
    simp only [anonymous, ← eraseP_anonymous, hcurves, hcolors, limit_eq_of_anonymous_eq hsame]

/-- Work on a curve in its place depends on no more than work on the curve alone. -/
theorem sameInPlace_onFirst (name : String) {work work' : Work (Curve × Cache) Unit}
    (hwork : SameInPlace Curve.anonymous id work work') :
    SameInPlace anonymous (Option.map Curve.anonymous) (onFirst name work)
      (onFirst name work') := by
  intro plot plot' cache other hsame hcache hother
  rcases find?_cases hsame name with ⟨hmine, htheirs⟩ | ⟨curve, curve', hmine, htheirs, hcurve⟩
  · rw [onFirst_of_find?_eq_none hmine, onFirst_of_find?_eq_none htheirs]
    exact ⟨rfl, hsame⟩
  · obtain ⟨hresult, hafter⟩ := hwork curve curve' cache other hcurve hcache hother
    rw [onFirst_of_find?_eq_some hmine, onFirst_of_find?_eq_some htheirs]
    constructor
    · rcases (SameResult.of_map_eq hresult).cases with
        ⟨error, hleft, hright⟩ | ⟨_, _, hleft, hright, _⟩
      · simp only [hleft, hright, Except.map]
      · simp only [hleft, hright, Except.map, Option.map_some, hafter]
    · rw [← replace_anonymous, ← replace_anonymous, hsame, hafter]

end Plot

end Graphing
