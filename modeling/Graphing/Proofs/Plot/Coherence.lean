import Graphing.Proofs.Cache.Ledger
import Graphing.Proofs.Plot.Steps

/-!
# Coherent curves

A curve holds its formula three times: as a text, as a tree and as an artifact. It is
`Coherent` with a cache if the text reads as the tree and the artifact is the one that the
cache has for the tree. A cache that only grows keeps a curve coherent, so what has to be
shown is that each way to make a curve or a plot gives coherent ones, and that is an
`Outcome.Sound`: of whatever result, the cache kept what it had. What works on a plot or on a
curve where it is has to leave it coherent as well, be it that it fails (`Change.Sound`).
-/

namespace Graphing

/-! ## Caches -/

namespace Cache

/-- The cache of some ledger, as all caches that requests made. -/
def Consistent (cache : Cache) : Prop :=
  ∃ ledger, cache.Accounted ledger

theorem Consistent.getOrCompile {cache : Cache} (h : cache.Consistent) (formula : Formula) :
    cache.Kept (cache.getOrCompile formula).cache ∧
      (cache.getOrCompile formula).cache.Consistent ∧
      (cache.getOrCompile formula).cache.Answers formula
        (cache.getOrCompile formula).answer := by
  obtain ⟨ledger, hledger⟩ := h
  obtain ⟨longer, _, kept, hlonger, hanswer⟩ := hledger.getOrCompile formula
  exact ⟨kept, ⟨longer, hlonger⟩, hanswer⟩

end Cache

/-! ## Curves -/

/-- Text, tree and artifact of a curve agree, through the cache. -/
structure Curve.Coherent (curve : Curve) (cache : Cache) : Prop where
  text : Expr.parse curve.text = .ok curve.formula
  stored : cache.lookup curve.formula = some curve.artifact

theorem Curve.Coherent.mono {curve : Curve} {cache later : Cache} (h : curve.Coherent cache)
    (kept : cache.Kept later) : curve.Coherent later :=
  ⟨h.text, kept curve.formula curve.artifact h.stored⟩

/-- A color is no part of what has to agree. -/
theorem Curve.Coherent.withColor {curve : Curve} {cache : Cache} (h : curve.Coherent cache)
    (color : Color) : (curve.withColor color).Coherent cache :=
  ⟨h.text, h.stored⟩

/-- All curves of a list are coherent with the cache. -/
def Cache.Covers (cache : Cache) (curves : List Curve) : Prop :=
  ∀ curve ∈ curves, curve.Coherent cache

namespace Cache.Covers

theorem nil (cache : Cache) : cache.Covers [] := by
  intro curve h
  cases h

theorem singleton {cache : Cache} {curve : Curve} (h : curve.Coherent cache) :
    cache.Covers [curve] := by
  intro other hother
  rw [List.mem_singleton.mp hother]
  exact h

theorem append {cache : Cache} {curves more : List Curve} (h : cache.Covers curves)
    (hmore : cache.Covers more) : cache.Covers (curves ++ more) := by
  intro curve hcurve
  rcases List.mem_append.mp hcurve with hleft | hright
  · exact h curve hleft
  · exact hmore curve hright

theorem mono {cache later : Cache} {curves : List Curve} (h : cache.Covers curves)
    (kept : cache.Kept later) : later.Covers curves := by
  intro curve hcurve
  exact (h curve hcurve).mono kept

end Cache.Covers

/-! ## Outcomes -/

/-- An operation that started on a consistent cache kept what was stored and left the cache
consistent, whether it failed or not, and a success gave a good value. -/
structure Outcome.Sound {β : Type} (outcome : Outcome β) (earlier : Cache)
    (good : Cache → β → Prop) : Prop where
  kept : earlier.Kept outcome.cache
  consistent : outcome.cache.Consistent
  value : ∀ value, outcome.result = .ok value → good outcome.cache value

namespace Outcome.Sound

variable {β γ : Type} {outcome : Outcome β} {earlier : Cache} {good : Cache → β → Prop}

theorem map (h : outcome.Sound earlier good) {f : β → γ} {good' : Cache → γ → Prop}
    (hf : ∀ value, good outcome.cache value → good' outcome.cache (f value)) :
    (outcome.map f).Sound earlier good' := by
  refine ⟨h.kept, h.consistent, ?_⟩
  intro value hvalue
  obtain ⟨result, cache, events⟩ := outcome
  cases result with
  | error error => cases hvalue
  | ok made =>
      rw [← Except.ok.inj hvalue]
      exact hf made (h.value made rfl)

theorem report (h : outcome.Sound earlier good) (event : β → Event) :
    (outcome.report event).Sound earlier good := by
  obtain ⟨result, cache, events⟩ := outcome
  cases result with
  | error error => exact h
  | ok value => exact ⟨h.kept, h.consistent, h.value⟩

/-- An operation that continues another one. -/
theorem trans (h : outcome.Sound earlier good) {next : Outcome γ} {good' : Cache → γ → Prop}
    (hnext : next.Sound outcome.cache good') : next.Sound earlier good' :=
  ⟨h.kept.trans hnext.kept, hnext.consistent, hnext.value⟩

theorem failed {cache : Cache} (h : cache.Consistent) (error : FormulaError)
    (good : Cache → β → Prop) : (⟨.error error, cache, []⟩ : Outcome β).Sound cache good := by
  refine ⟨.refl _, h, ?_⟩
  intro value hvalue
  cases hvalue

end Outcome.Sound

theorem sound_compileText {cache : Cache} (h : cache.Consistent) (text : String) :
    (compileText text cache).Sound cache fun later made =>
      Expr.parse text = .ok made.1 ∧ later.lookup made.1 = some made.2 := by
  unfold compileText
  cases hparse : Expr.parse text with
  | error error => exact .failed h _ _
  | ok formula =>
      obtain ⟨kept, hconsistent, hanswer⟩ := h.getOrCompile formula
      cases hok : (cache.getOrCompile formula).answer with
      | error error =>
          simp only [hok]
          exact ⟨kept, hconsistent, fun _ hvalue => by cases hvalue⟩
      | ok artifact =>
          simp only [hok]
          refine ⟨kept, hconsistent, ?_⟩
          intro made hmade
          rw [← Except.ok.inj hmade]
          rw [hok] at hanswer
          exact ⟨rfl, hanswer⟩

theorem sound_validate {cache : Cache} (h : cache.Consistent) (text : String) :
    (validate text cache).Sound cache fun _ _ => True :=
  (sound_compileText h text).map fun _ _ => trivial

/-! ## Ways to make a curve -/

/-- Makes coherent curves, on whatever cache. -/
def MakesCoherent (make : Cache → Outcome Curve) : Prop :=
  ∀ cache : Cache, cache.Consistent →
    (make cache).Sound cache fun later curve => curve.Coherent later

namespace Curve

theorem makesCoherent_ofText (name text : String) : MakesCoherent (ofText name text) := by
  intro cache h
  refine ((sound_compileText h text).map ?_).report _
  rintro ⟨formula, artifact⟩ ⟨hparse, hstored⟩
  exact ⟨hparse, hstored⟩

theorem makesCoherent_ofRecord (record : CurveRecord) : MakesCoherent (ofRecord record) := by
  intro cache h
  refine (makesCoherent_ofText record.name record.text cache h).map ?_
  intro curve hcurve
  exact ⟨hcurve.text, hcurve.stored⟩

end Curve

/-! ## Work on what is there -/

/-- Work that started on a consistent cache kept what was stored and left the cache consistent.
What it worked on is whole afterwards, even if it failed, and a success gave a good value. -/
structure Change.Sound {σ β : Type} (change : Change (σ × Cache) β) (earlier : Cache)
    (whole : Cache → σ → Prop) (good : Cache → β → Prop) : Prop where
  kept : earlier.Kept change.after.2
  consistent : change.after.2.Consistent
  whole : whole change.after.2 change.after.1
  value : ∀ value, change.result = .ok value → good change.after.2 value

namespace Curve

variable {curve : Curve} {cache : Cache}

/-- A new text comes with its own tree and artifact, so nothing of the old ones is left. A text
that is refused leaves all three. -/
theorem sound_redefine (h : curve.Coherent cache) (hcache : cache.Consistent) (text : String) :
    (redefine text (curve, cache)).Sound cache (fun later curve => curve.Coherent later)
      fun _ _ => True := by
  have hcompile := sound_compileText hcache text
  cases hmade : (compileText text cache).result with
  | error error =>
      rw [redefine_of_rejected hmade]
      exact ⟨hcompile.kept, hcompile.consistent, h.mono hcompile.kept, fun _ _ => trivial⟩
  | ok made =>
      obtain ⟨hparse, hstored⟩ := hcompile.value made hmade
      rw [redefine_of_accepted hmade]
      exact ⟨hcompile.kept, hcompile.consistent, ⟨hparse, hstored⟩, fun _ _ => trivial⟩

theorem sound_edit (h : curve.Coherent cache) (hcache : cache.Consistent)
    (visible : Option Bool) (color : Option Color) (rename : Option String) :
    ((liftM (edit visible color rename) : Work (Curve × Cache) Unit) (curve, cache)).Sound cache
      (fun later curve => curve.Coherent later) fun _ _ => True := by
  rw [Work.lift_eq (edit_eq curve visible color rename)]
  exact ⟨.refl _, hcache, ⟨h.text, h.stored⟩, fun _ _ => trivial⟩

end Curve

/-! ## Plots -/

namespace Plot

theorem sound_addMade {plot : Plot} {cache : Cache} (h : cache.Covers plot.curves)
    (hcache : cache.Consistent) {make : Cache → Outcome Curve} (hmake : MakesCoherent make) :
    (plot.addMade make cache).Sound cache fun later added => later.Covers added.curves := by
  unfold addMade
  split
  · exact .failed hcache _ _
  · have hmade := hmake cache hcache
    refine hmade.map ?_
    intro curve hcurve
    exact (h.mono hmade.kept).append (.singleton (hcurve.withColor _))

theorem sound_addAll {makes : List (Cache → Outcome Curve)}
    (hmakes : ∀ make ∈ makes, MakesCoherent make) {plot : Plot} {cache : Cache}
    (h : cache.Covers plot.curves) (hcache : cache.Consistent) :
    (plot.addAll makes cache).Sound cache fun later added => later.Covers added.curves := by
  induction makes generalizing plot cache with
  | nil =>
      refine ⟨.refl _, hcache, ?_⟩
      intro added hadded
      rw [← Except.ok.inj hadded]
      exact h
  | cons make makes ih =>
      have hadded := sound_addMade h hcache (hmakes make List.mem_cons_self)
      simp only [addAll]
      cases hresult : (plot.addMade make cache).result with
      | error error => exact hadded
      | ok added =>
          -- the rest starts on the cache that the first curve left
          have hrest := ih (fun other hother => hmakes other (List.mem_cons_of_mem _ hother))
            (hadded.value added hresult) hadded.consistent
          have hall := hadded.trans hrest
          exact ⟨hall.kept, hall.consistent, hall.value⟩

theorem sound_withDefaults {cache : Cache} (h : cache.Consistent) :
    (withDefaults cache).Sound cache fun later plot => later.Covers plot.curves := by
  rw [withDefaults_eq_addAll]
  refine sound_addAll ?_ (.nil cache) h
  intro make hmake
  obtain ⟨⟨name, text⟩, _, rfl⟩ := List.mem_map.mp hmake
  exact Curve.makesCoherent_ofText name text

theorem sound_ofRecords (records : List CurveRecord) (limit : Nat) {cache : Cache}
    (h : cache.Consistent) :
    (ofRecords records limit cache).Sound cache fun later plot =>
      later.Covers plot.curves := by
  rw [ofRecords_eq_addAll]
  refine sound_addAll ?_ (.nil cache) h
  intro make hmake
  obtain ⟨record, _, rfl⟩ := List.mem_map.mp hmake
  exact Curve.makesCoherent_ofRecord record

theorem coherent_of_find? {plot : Plot} {cache : Cache} {name : String} {curve : Curve}
    (h : cache.Covers plot.curves) (hfind : plot.find? name = some curve) :
    curve.Coherent cache :=
  h curve (List.mem_of_find?_eq_some hfind)

theorem covers_replaceFirst {curves : List Curve} {cache : Cache} (h : cache.Covers curves)
    (name : String) {changed : Curve} (hchanged : changed.Coherent cache) :
    cache.Covers (replaceFirst name changed curves) := by
  induction curves with
  | nil => exact h
  | cons curve rest ih =>
      have hcurve := h curve List.mem_cons_self
      have hrest : cache.Covers rest := by
        intro other hother
        exact h other (List.mem_cons_of_mem _ hother)
      unfold replaceFirst
      split
      · exact Cache.Covers.append (.singleton hchanged) hrest
      · exact Cache.Covers.append (.singleton hcurve) (ih hrest)

theorem sound_push {plot : Plot} {curve : Curve} {cache : Cache} (h : cache.Covers plot.curves)
    (hcache : cache.Consistent) (hcurve : curve.Coherent cache) :
    ((liftM (push curve) : Work (Plot × Cache) Unit) (plot, cache)).Sound cache
      (fun later plot => later.Covers plot.curves) fun _ _ => True := by
  cases hfull : plot.isFull with
  | true =>
      rw [Work.lift_eq (push_of_isFull hfull curve)]
      exact ⟨.refl _, hcache, h, fun _ hvalue => by cases hvalue⟩
  | false =>
      rw [Work.lift_eq (push_of_room hfull curve)]
      exact ⟨.refl _, hcache, h.append (.singleton hcurve), fun _ _ => trivial⟩

theorem sound_define {plot : Plot} {cache : Cache} (h : cache.Covers plot.curves)
    (hcache : cache.Consistent) (name text : String) :
    (define name text (plot, cache)).Sound cache (fun later plot => later.Covers plot.curves)
      fun later curve => curve.Coherent later := by
  have hmade := Curve.makesCoherent_ofText name text cache hcache
  cases hfull : plot.isFull with
  | true =>
      rw [define_of_isFull hfull]
      exact ⟨.refl _, hcache, h, fun _ hvalue => by cases hvalue⟩
  | false =>
      cases hresult : (Curve.ofText name text cache).result with
      | error error =>
          rw [define_of_rejected hfull hresult]
          exact ⟨hmade.kept, hmade.consistent, h.mono hmade.kept, fun _ hvalue => by cases hvalue⟩
      | ok curve =>
          have hcolored := (hmade.value curve hresult).withColor plot.colors.color
          rw [define_of_accepted hfull hresult]
          refine ⟨hmade.kept, hmade.consistent,
            (h.mono hmade.kept).append (.singleton hcolored), ?_⟩
          rintro _ ⟨⟩
          exact hcolored

theorem sound_remove {plot : Plot} {cache : Cache} (h : cache.Covers plot.curves)
    (hcache : cache.Consistent) (name : String) :
    ((liftM (remove name) : Work (Plot × Cache) Curve) (plot, cache)).Sound cache
      (fun later plot => later.Covers plot.curves) fun later curve => curve.Coherent later := by
  cases hfind : plot.find? name with
  | none =>
      rw [Work.lift_eq (remove_of_find?_eq_none hfind)]
      exact ⟨.refl _, hcache, h, fun _ hvalue => by cases hvalue⟩
  | some curve =>
      have hrest : cache.Covers (plot.curves.eraseP fun curve => curve.name = name) := by
        intro other hother
        exact h other (List.mem_of_mem_eraseP hother)
      rw [Work.lift_eq (remove_of_find?_eq_some hfind)]
      refine ⟨.refl _, hcache, hrest, ?_⟩
      rintro _ ⟨⟩
      exact coherent_of_find? h hfind

/-- Work on a curve in its place is as sound as it is on the curve alone. -/
theorem sound_onFirst {plot : Plot} {cache : Cache} (h : cache.Covers plot.curves)
    (hcache : cache.Consistent) (name : String) {work : Work (Curve × Cache) Unit}
    (hwork : ∀ curve : Curve, curve.Coherent cache →
      (work (curve, cache)).Sound cache (fun later curve => curve.Coherent later)
        fun _ _ => True) :
    (onFirst name work (plot, cache)).Sound cache (fun later plot => later.Covers plot.curves)
      fun later changed => ∀ curve, changed = some curve → curve.Coherent later := by
  cases hfind : plot.find? name with
  | none =>
      rw [onFirst_of_find?_eq_none hfind]
      refine ⟨.refl _, hcache, h, ?_⟩
      rintro _ ⟨⟩ curve hcurve
      cases hcurve
  | some curve =>
      have hsound := hwork curve (coherent_of_find? h hfind)
      rw [onFirst_of_find?_eq_some hfind]
      refine ⟨hsound.kept, hsound.consistent,
        covers_replaceFirst (h.mono hsound.kept) name hsound.whole, ?_⟩
      intro changed hchanged
      cases hresult : (work (curve, cache)).result with
      | error error =>
          rw [hresult] at hchanged
          cases hchanged
      | ok _ =>
          rw [hresult] at hchanged
          rw [← Except.ok.inj hchanged]
          rintro _ ⟨⟩
          exact hsound.whole

end Plot

end Graphing
