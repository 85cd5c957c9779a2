import Graphing.Proofs.Plot.Steps
import Graphing.Session.Basic

/-!
# Limit, order and colors of a plot

A plot is followed through any actions: definitions, curves pushed as they are, removals,
clearing, and edits of a curve in its place. Each of them may fail, and the plot goes on as the
action has left it. Each definition comes with a cache of its own, so nothing is assumed about
what else uses the cache.

* `Plot.OnCourse` is the invariant for limit and colors. The place of the next color is the number
  of definitions so far, which is not the number of curves: curves leave the plot and colors do
  not come back.
* `Plot.Register` numbers the curves as they are added and carries each number along with its
  curve. The numbers on a plot increase, so the curves are in the order in which they were added.

Loading is no case of its own: with all its curves shown, a loaded plot is the plot that as many
definitions make (`Plot.run_definitionsOf`).
-/

namespace Graphing

namespace Plot

/-! ## Actions -/

/-- What can be done to a plot. -/
inductive Action where
  /-- Add a curve from a text, in the next color. -/
  | define (name text : String) (cache : Cache)
  /-- Add a curve as it is. -/
  | push (curve : Curve)
  /-- Take off the first curve of a name. -/
  | remove (name : String)
  /-- Take off all curves. -/
  | clear
  /-- Change the first curve of a name, in whatever way. -/
  | edit (name : String) (change : Curve → Curve)

/-- The plot as an action leaves it, whether it succeeds or fails. -/
def act (plot : Plot) : Action → Plot
  | .define name text cache => (define name text (plot, cache)).after.1
  | .push curve => (push curve plot).after
  | .remove name => (remove name plot).after
  | .clear => plot.clear
  | .edit name change =>
      match plot.find? name with
      | none => plot
      | some curve => plot.replace name (change curve)

def run (plot : Plot) (actions : List Action) : Plot :=
  actions.foldl act plot

/-- The curve that an action adds, if it adds one and succeeds. -/
def added? (plot : Plot) : Action → Option Curve
  | .define name text cache => (define name text (plot, cache)).result.toOption
  | .push curve => (push curve plot).result.toOption.map fun _ => curve
  | _ => none

/-- The curve that a definition adds. -/
def defined? (plot : Plot) : Action → Option Curve
  | .define name text cache => plot.added? (.define name text cache)
  | _ => none

/-- The curves that the definitions among some actions added, as they were then. -/
def definitions (plot : Plot) : List Action → List Curve
  | [] => []
  | action :: rest => (plot.defined? action).toList ++ (plot.act action).definitions rest

/-! ## What an action can do -/

/-- A definition that fails changes nothing, the colors included. -/
theorem act_define (plot : Plot) (name text : String) (cache : Cache) :
    (plot.act (.define name text cache) = plot ∧
      plot.added? (.define name text cache) = none) ∨
    ∃ curve, plot.curves.length < plot.limit ∧
      plot.act (.define name text cache) = plot.addColored curve ∧
      plot.added? (.define name text cache) = some (curve.withColor plot.colors.color) := by
  simp only [act, added?]
  cases hfull : plot.isFull with
  | true =>
      rw [define_of_isFull hfull]
      exact .inl ⟨rfl, rfl⟩
  | false =>
      cases hmade : (Curve.ofText name text cache).result with
      | error error =>
          rw [define_of_rejected hfull hmade]
          exact .inl ⟨rfl, rfl⟩
      | ok curve =>
          rw [define_of_accepted hfull hmade]
          exact .inr ⟨curve, length_lt_of_isFull_eq_false hfull, rfl, rfl⟩

theorem act_push (plot : Plot) (curve : Curve) :
    (plot.act (.push curve) = plot ∧ plot.added? (.push curve) = none) ∨
    plot.curves.length < plot.limit ∧
      plot.act (.push curve) = { plot with curves := plot.curves ++ [curve] } ∧
      plot.added? (.push curve) = some curve := by
  simp only [act, added?]
  cases hfull : plot.isFull with
  | true =>
      rw [push_of_isFull hfull]
      exact .inl ⟨rfl, rfl⟩
  | false =>
      rw [push_of_room hfull]
      exact .inr ⟨length_lt_of_isFull_eq_false hfull, rfl, rfl⟩

/-- A removal that fails takes off nothing. -/
theorem act_remove (plot : Plot) (name : String) :
    plot.act (.remove name) =
      { plot with curves := plot.curves.eraseP fun curve => curve.name = name } := by
  simp only [act]
  cases hfind : plot.find? name with
  | none =>
      have hnone : plot.curves.eraseP (fun curve => curve.name = name) = plot.curves := by
        refine List.eraseP_of_forall_not ?_
        intro curve hcurve
        exact List.find?_eq_none.mp hfind curve hcurve
      rw [remove_of_find?_eq_none hfind, hnone]
  | some curve => rw [remove_of_find?_eq_some hfind]

theorem length_replaceFirst (name : String) (changed : Curve) (curves : List Curve) :
    (replaceFirst name changed curves).length = curves.length := by
  induction curves with
  | nil => rfl
  | cons curve rest ih =>
      unfold replaceFirst
      split
      · rfl
      · rw [List.length_cons, List.length_cons, ih]

/-- The curves with the first one of a name changed, if there is one. -/
def changeFirst (name : String) (change : Curve → Curve) (curves : List Curve) : List Curve :=
  match curves.find? fun curve => curve.name = name with
  | none => curves
  | some curve => replaceFirst name (change curve) curves

theorem length_changeFirst (name : String) (change : Curve → Curve) (curves : List Curve) :
    (changeFirst name change curves).length = curves.length := by
  unfold changeFirst
  split
  · rfl
  · exact length_replaceFirst name _ curves

theorem act_edit (plot : Plot) (name : String) (change : Curve → Curve) :
    plot.act (.edit name change) =
      { plot with curves := changeFirst name change plot.curves } := by
  simp only [act, changeFirst, find?]
  cases plot.curves.find? fun curve => curve.name = name with
  | none => rfl
  | some curve => rfl

/-! ## Limit and colors -/

/-- A plot that has its limit, its palette, and has given as many colors as is said. -/
structure OnCourse (plot : Plot) (limit : Nat) (palette : List Color) (given : Nat) : Prop where
  limit_eq : plot.limit = limit
  length_le : plot.curves.length ≤ limit
  palette_eq : plot.colors.palette = palette
  position : plot.colors.position % palette.length = given % palette.length

namespace OnCourse

variable {plot : Plot} {limit : Nat} {palette : List Color} {given : Nat}

theorem isFull_iff (h : plot.OnCourse limit palette given) :
    plot.isFull = true ↔ plot.curves.length = limit := by
  have hle := h.length_le
  rw [isFull, decide_eq_true_iff, h.limit_eq]
  omega

/-- The next color is the one that comes after all that have been given. -/
theorem color (h : plot.OnCourse limit palette given) :
    palette[given % palette.length]? = some plot.colors.color := by
  rw [← h.position, ← h.palette_eq, ColorCycle.color]
  exact List.getElem?_eq_getElem _

/-- Other curves, not more than before. -/
theorem withCurves (h : plot.OnCourse limit palette given) {curves : List Curve}
    (hlength : curves.length ≤ plot.curves.length) :
    ({ plot with curves := curves }).OnCourse limit palette given :=
  ⟨h.limit_eq, Nat.le_trans hlength h.length_le, h.palette_eq, h.position⟩

theorem pushed (h : plot.OnCourse limit palette given) (hroom : plot.curves.length < plot.limit)
    (curve : Curve) :
    ({ plot with curves := plot.curves ++ [curve] }).OnCourse limit palette given := by
  refine ⟨h.limit_eq, ?_, h.palette_eq, h.position⟩
  show (plot.curves ++ [curve]).length ≤ limit
  rw [List.length_append, List.length_singleton, ← h.limit_eq]
  exact hroom

theorem addColored (h : plot.OnCourse limit palette given)
    (hroom : plot.curves.length < plot.limit) (curve : Curve) :
    (plot.addColored curve).OnCourse limit palette (given + 1) := by
  have hpushed := h.pushed hroom (curve.withColor plot.colors.color)
  refine ⟨hpushed.limit_eq, hpushed.length_le, hpushed.palette_eq, ?_⟩
  show (plot.colors.position + 1) % plot.colors.palette.length % palette.length = _
  rw [h.palette_eq, Nat.mod_mod, ← Nat.mod_add_mod, h.position, Nat.mod_add_mod]

/-- An action keeps a plot on its course, and a definition gives one more color. -/
theorem act (h : plot.OnCourse limit palette given) (action : Action) :
    (plot.act action).OnCourse limit palette (given + (plot.defined? action).toList.length) ∧
      ∀ curve, plot.defined? action = some curve →
        palette[given % palette.length]? = some curve.color := by
  cases action with
  | define name text cache =>
      rcases plot.act_define name text cache with
        ⟨hsame, hnone⟩ | ⟨curve, hroom, hadded, hsome⟩
      · rw [hsame, defined?, hnone]
        exact ⟨h, fun _ hdefined => by cases hdefined⟩
      · rw [hadded, defined?, hsome]
        refine ⟨h.addColored hroom curve, ?_⟩
        rintro _ ⟨⟩
        exact h.color
  | push curve =>
      refine ⟨?_, fun _ hdefined => by cases hdefined⟩
      rcases plot.act_push curve with ⟨hsame, _⟩ | ⟨hroom, hadded, _⟩
      · rw [hsame]
        exact h
      · rw [hadded]
        exact h.pushed hroom curve
  | remove name =>
      refine ⟨?_, fun _ hdefined => by cases hdefined⟩
      rw [act_remove]
      exact h.withCurves List.length_eraseP_le
  | clear =>
      exact ⟨h.withCurves (Nat.zero_le _), fun _ hdefined => by cases hdefined⟩
  | edit name change =>
      refine ⟨?_, fun _ hdefined => by cases hdefined⟩
      rw [act_edit]
      exact h.withCurves (Nat.le_of_eq (length_changeFirst name change plot.curves))

/-- The colors of all definitions, in order, are those of the palette from where it was. -/
theorem run (h : plot.OnCourse limit palette given) (actions : List Action) :
    (plot.run actions).OnCourse limit palette (given + (plot.definitions actions).length) ∧
      ∀ k curve, (plot.definitions actions)[k]? = some curve →
        palette[(given + k) % palette.length]? = some curve.color := by
  induction actions generalizing plot given with
  | nil =>
      refine ⟨h, ?_⟩
      intro k curve hcurve
      cases hcurve
  | cons action rest ih =>
      obtain ⟨hact, hcolor⟩ := h.act action
      obtain ⟨hrest, hcolors⟩ := ih hact
      rw [definitions]
      cases hdefined : plot.defined? action with
      | none =>
          rw [hdefined] at hrest hcolors
          exact ⟨hrest, hcolors⟩
      | some first =>
          rw [hdefined] at hrest hcolors
          refine ⟨?_, ?_⟩
          · rw [List.length_append, ← Nat.add_assoc]
            exact hrest
          · intro k curve hcurve
            cases k with
            | zero =>
                cases hcurve
                exact hcolor first hdefined
            | succ k =>
                have hnext := hcolors k curve hcurve
                rw [Nat.add_comm k 1, ← Nat.add_assoc]
                exact hnext

end OnCourse

/-! ## Order -/

/-- Curves with the numbers that they got when they were added, and the next number. -/
structure Register where
  entries : List (Curve × Nat)
  next : Nat

namespace Register

/-- The first curve of a name changed; it keeps its number. -/
def changeFirst (name : String) (change : Curve → Curve) :
    List (Curve × Nat) → List (Curve × Nat)
  | [] => []
  | (curve, number) :: rest =>
      if curve.name = name then (change curve, number) :: rest
      else (curve, number) :: changeFirst name change rest

/-- The register with a curve that was added. -/
def enter (register : Register) : Option Curve → Register
  | none => register
  | some curve => ⟨register.entries ++ [(curve, register.next)], register.next + 1⟩

/-- The register after an action on a plot. -/
def follow (register : Register) (plot : Plot) : Action → Register
  | .define name text cache => register.enter (plot.added? (.define name text cache))
  | .push curve => register.enter (plot.added? (.push curve))
  | .remove name =>
      { register with entries := register.entries.eraseP fun entry => entry.1.name = name }
  | .clear => { register with entries := [] }
  | .edit name change => { register with entries := changeFirst name change register.entries }

/-- A register of the curves of a plot, with numbers that increase. -/
structure Keeps (register : Register) (plot : Plot) : Prop where
  curves : register.entries.map Prod.fst = plot.curves
  increasing : (register.entries.map Prod.snd).Pairwise (· < ·)
  lt_next : ∀ number ∈ register.entries.map Prod.snd, number < register.next

namespace Keeps

variable {register : Register} {plot : Plot}

theorem enter (h : register.Keeps plot) (curve : Curve) {after : Plot}
    (hafter : after.curves = plot.curves ++ [curve]) :
    (register.enter (some curve)).Keeps after := by
  refine ⟨?_, ?_, ?_⟩
  · rw [hafter, ← h.curves]
    exact List.map_append
  · show ((register.entries ++ [(curve, register.next)]).map Prod.snd).Pairwise (· < ·)
    rw [List.map_append, List.pairwise_append]
    refine ⟨h.increasing, List.pairwise_singleton _ _, ?_⟩
    intro number hnumber last hlast
    rw [List.mem_singleton.mp hlast]
    exact h.lt_next number hnumber
  · intro number hnumber
    show number < register.next + 1
    rcases List.mem_append.mp (List.map_append ▸ hnumber) with hold | hlast
    · exact Nat.lt_succ_of_lt (h.lt_next number hold)
    · rw [List.mem_singleton.mp hlast]
      exact Nat.lt_succ_self _

/-- Fewer entries in the same order. -/
theorem sublist (h : register.Keeps plot) {entries : List (Curve × Nat)}
    (hsublist : entries.Sublist register.entries) {after : Plot}
    (hafter : entries.map Prod.fst = after.curves) :
    ({ register with entries := entries }).Keeps after := by
  have hnumbers := hsublist.map Prod.snd
  exact ⟨hafter, h.increasing.sublist hnumbers, fun number hnumber =>
    h.lt_next number (hnumbers.subset hnumber)⟩

end Keeps

theorem map_snd_changeFirst (name : String) (change : Curve → Curve)
    (entries : List (Curve × Nat)) :
    (changeFirst name change entries).map Prod.snd = entries.map Prod.snd := by
  induction entries with
  | nil => rfl
  | cons entry rest ih =>
      unfold changeFirst
      split
      · rfl
      · rw [List.map_cons, List.map_cons, ih]

/-- The entries of a register change as the curves do. -/
theorem map_fst_changeFirst (name : String) (change : Curve → Curve)
    (entries : List (Curve × Nat)) :
    (changeFirst name change entries).map Prod.fst =
      Plot.changeFirst name change (entries.map Prod.fst) := by
  induction entries with
  | nil => rfl
  | cons entry rest ih =>
      obtain ⟨curve, number⟩ := entry
      by_cases hname : curve.name = name
      · simp [changeFirst, Plot.changeFirst, replaceFirst, hname]
      · simp only [Plot.changeFirst] at ih
        simp only [changeFirst, Plot.changeFirst, List.map_cons, List.find?_cons, hname,
          decide_false, if_false, ih]
        cases (rest.map Prod.fst).find? fun curve => curve.name = name with
        | none => rfl
        | some found => simp [replaceFirst, hname]

theorem map_fst_eraseP (name : String) (entries : List (Curve × Nat)) :
    (entries.eraseP fun entry => entry.1.name = name).map Prod.fst =
      (entries.map Prod.fst).eraseP fun curve => curve.name = name := by
  rw [List.eraseP_map]
  rfl

/-- Whatever is done to the plot, the register keeps its curves in the order of their numbers. -/
theorem Keeps.follow {register : Register} {plot : Plot} (h : register.Keeps plot)
    (action : Action) : (register.follow plot action).Keeps (plot.act action) := by
  cases action with
  | define name text cache =>
      rcases plot.act_define name text cache with ⟨hsame, hnone⟩ | ⟨curve, _, hadded, hsome⟩
      · rw [Register.follow, hsame, hnone]
        exact h
      · rw [Register.follow, hadded, hsome]
        exact h.enter _ rfl
  | push curve =>
      rcases plot.act_push curve with ⟨hsame, hnone⟩ | ⟨_, hadded, hsome⟩
      · rw [Register.follow, hsame, hnone]
        exact h
      · rw [Register.follow, hadded, hsome]
        exact h.enter _ rfl
  | remove name =>
      refine h.sublist List.eraseP_sublist ?_
      rw [act_remove, map_fst_eraseP, h.curves]
  | clear => exact h.sublist (List.nil_sublist _) rfl
  | edit name change =>
      -- numbers stay where they are, so only the curves have to be looked at
      refine ⟨?_, ?_, ?_⟩
      · rw [act_edit, Register.follow, map_fst_changeFirst, h.curves]
      · rw [Register.follow, map_snd_changeFirst]
        exact h.increasing
      · rw [Register.follow, map_snd_changeFirst]
        exact h.lt_next

end Register

/-- The register of a plot after some actions on it. -/
def registerFrom (plot : Plot) (register : Register) : List Action → Register
  | [] => register
  | action :: rest => (plot.act action).registerFrom (register.follow plot action) rest

/-- The register of a plot that begins with the curves of the plot in their order. -/
def register (plot : Plot) (actions : List Action) : Register :=
  plot.registerFrom ⟨plot.curves.zipIdx, plot.curves.length⟩ actions

theorem keeps_registerFrom {plot : Plot} {register : Register} (h : register.Keeps plot)
    (actions : List Action) : (plot.registerFrom register actions).Keeps (plot.run actions) := by
  induction actions generalizing plot register with
  | nil => exact h
  | cons action rest ih => exact ih (h.follow action)

theorem keeps_register (plot : Plot) (actions : List Action) :
    (plot.register actions).Keeps (plot.run actions) := by
  refine keeps_registerFrom ⟨?_, ?_, ?_⟩ actions
  · exact List.zipIdx_map_fst 0 plot.curves
  · show (plot.curves.zipIdx.map Prod.snd).Pairwise (· < ·)
    rw [List.zipIdx_map_snd]
    exact List.pairwise_lt_range' ..
  · intro number hnumber
    rw [List.zipIdx_map_snd] at hnumber
    simpa using hnumber

/-! ## Loading -/

/-- The plot with all of its curves visible. -/
def shown (plot : Plot) : Plot :=
  { plot with curves := plot.curves.map fun curve => { curve with visible := true } }

/-- The definitions that make the curves of some records, each on the cache that the one before
it has left. -/
def definitionsOf : List CurveRecord → Cache → List Action
  | [], _ => []
  | record :: rest, cache =>
      .define record.name record.text cache :: definitionsOf rest (validate record.text cache).cache

end Plot

namespace Curve

theorem cache_ofText (name text : String) (cache : Cache) :
    (ofText name text cache).cache = (validate text cache).cache := by
  unfold ofText Outcome.report
  split <;> rfl

theorem visible_of_ofText {name text : String} {cache : Cache} {curve : Curve}
    (h : (ofText name text cache).result = .ok curve) : curve.visible = true := by
  unfold ofText Outcome.report at h
  cases hcompile : (compileText text cache).result with
  | error error =>
      simp only [Outcome.map, hcompile] at h
      cases h
  | ok made =>
      simp only [Outcome.map, hcompile] at h
      rw [← Except.ok.inj h]

/-- A record makes the curve of its text, shown or not. -/
theorem ofText_of_ofRecord {record : CurveRecord} {cache : Cache} {curve : Curve}
    (h : (ofRecord record cache).result = .ok curve) :
    (ofText record.name record.text cache).result = .ok { curve with visible := true } := by
  cases hmade : (ofText record.name record.text cache).result with
  | error error =>
      simp only [ofRecord, Outcome.map, hmade] at h
      cases h
  | ok made =>
      simp only [ofRecord, Outcome.map, hmade] at h
      rw [← Except.ok.inj h, ← visible_of_ofText hmade]

end Curve

namespace Plot

/-- With a curve of a record added, a plot is, all shown, what a definition makes of the plot,
all shown. -/
theorem act_define_shown {plot : Plot} (hfull : plot.isFull = false) {record : CurveRecord}
    {cache : Cache} {curve : Curve} (h : (Curve.ofRecord record cache).result = .ok curve) :
    plot.shown.act (.define record.name record.text cache) = (plot.addColored curve).shown ∧
      (plot.shown.defined? (.define record.name record.text cache)).toList.length = 1 := by
  have hshown : plot.shown.isFull = false := by
    rw [← hfull]
    simp [isFull, shown]
  have hadded : plot.shown.addColored { curve with visible := true } =
      (plot.addColored curve).shown := by
    simp [addColored, shown, Curve.withColor]
  have hdefine := define_of_accepted hshown (Curve.ofText_of_ofRecord h)
  constructor
  · simp only [act, hdefine, hadded]
  · simp only [defined?, added?, hdefine]
    rfl

/-- A loaded plot with all its curves shown is made by as many definitions. -/
theorem run_definitionsOf {records : List CurveRecord} {plot loaded : Plot} {cache : Cache}
    (h : (plot.addAll (records.map Curve.ofRecord) cache).result = .ok loaded) :
    plot.shown.run (definitionsOf records cache) = loaded.shown ∧
      (plot.shown.definitions (definitionsOf records cache)).length = records.length := by
  induction records generalizing plot cache with
  | nil =>
      cases h
      exact ⟨rfl, rfl⟩
  | cons record rest ih =>
      rw [List.map_cons] at h
      cases hfull : plot.isFull with
      | true =>
          rw [addAll_of_isFull hfull] at h
          cases h
      | false =>
          cases hmade : (Curve.ofRecord record cache).result with
          | error error =>
              rw [addAll_of_error hfull hmade] at h
              cases h
          | ok curve =>
              obtain ⟨hact, hdefined⟩ := act_define_shown hfull hmade
              have hleft : (Curve.ofRecord record cache).cache =
                  (validate record.text cache).cache :=
                Curve.cache_ofText record.name record.text cache
              rw [addAll_of_ok hfull hmade, hleft] at h
              obtain ⟨hrun, hlength⟩ := ih h
              rw [← hact] at hrun hlength
              refine ⟨hrun, ?_⟩
              rw [definitionsOf, definitions, List.length_append, hdefined, hlength,
                List.length_cons, Nat.add_comm]

/-! ## Whole runs -/

/-- What holds of a plot after some actions, if it had given some colors before: it has its limit
and is never over it, its curves stand in the order in which they were added, and the definitions
have taken the colors of the palette one after the other. -/
structure Follows (plot : Plot) (limit : Nat) (palette : List Color) (given : Nat)
    (actions : List Action) : Prop where
  limit_eq : (plot.run actions).limit = limit
  length_le : (plot.run actions).curves.length ≤ limit
  isFull_iff : (plot.run actions).isFull = true ↔ (plot.run actions).curves.length = limit
  curves : (plot.register actions).entries.map Prod.fst = (plot.run actions).curves
  increasing : ((plot.register actions).entries.map Prod.snd).Pairwise (· < ·)
  colors : ∀ k curve, (plot.definitions actions)[k]? = some curve →
    palette[(given + k) % palette.length]? = some curve.color

theorem OnCourse.follows {plot : Plot} {limit : Nat} {palette : List Color} {given : Nat}
    (h : plot.OnCourse limit palette given) (actions : List Action) :
    plot.Follows limit palette given actions := by
  obtain ⟨hrun, hcolors⟩ := h.run actions
  have hkeeps := plot.keeps_register actions
  exact ⟨hrun.limit_eq, hrun.length_le, hrun.isFull_iff, hkeeps.curves, hkeeps.increasing, hcolors⟩

/-- The palette of a new plot: an empty one is replaced by the default, as is none. -/
def chosenPalette : Option (List Color) → List Color
  | none => Color.defaultPalette
  | some palette => if palette = [] then Color.defaultPalette else palette

theorem onCourse_newPlot (limit : Option Nat) (palette : Option (List Color)) :
    (Session.newPlot limit palette).OnCourse (limit.getD defaultLimit) (chosenPalette palette)
      0 := by
  cases palette with
  | none => exact ⟨rfl, Nat.zero_le _, rfl, rfl⟩
  | some palette =>
      by_cases hempty : palette = []
      · subst hempty
        exact ⟨rfl, Nat.zero_le _, rfl, rfl⟩
      · have hcycle : ColorCycle.ofPalette palette = ⟨palette, 0, hempty⟩ := dif_neg hempty
        refine ⟨rfl, Nat.zero_le _, ?_, ?_⟩
        · show (ColorCycle.ofPalette palette).palette = _
          rw [hcycle, chosenPalette, if_neg hempty]
        · show (ColorCycle.ofPalette palette).position % _ = _
          rw [hcycle]

theorem onCourse_of_shown {plot : Plot} {limit : Nat} {palette : List Color} {given : Nat}
    (h : plot.shown.OnCourse limit palette given) : plot.OnCourse limit palette given := by
  have hlength := h.length_le
  rw [shown, List.length_map] at hlength
  exact ⟨h.limit_eq, hlength, h.palette_eq, h.position⟩

/-- Every run of a plot keeps its limit, its order and its colors. A new plot, with or without a
palette, has at most as many curves as its limit after any actions, in the order in which they were
added, and its definition number `k` takes color `k` of the palette, over and over, whatever failed,
was pushed, taken off or changed in between. A loaded plot is, but for the curves that are not
shown, the new plot after one successful definition for each record, and it goes on as such. -/
theorem run_follows :
    (∀ limit palette actions, (Session.newPlot limit palette).Follows (limit.getD defaultLimit)
      (chosenPalette palette) 0 actions) ∧
    ∀ records limit cache loaded, (ofRecords records limit cache).result = .ok loaded →
      (withLimit limit).run (definitionsOf records cache) = loaded.shown ∧
      ((withLimit limit).definitions (definitionsOf records cache)).length = records.length ∧
      ∀ actions, loaded.Follows limit Color.defaultPalette records.length actions := by
  constructor
  · intro limit palette actions
    exact (onCourse_newPlot limit palette).follows actions
  · intro records limit cache loaded h
    rw [ofRecords_eq_addAll] at h
    obtain ⟨hrun, hlength⟩ := run_definitionsOf h
    have hcourse := ((onCourse_newPlot (some limit) none).run (definitionsOf records cache)).1
    -- loading begins with an empty plot, which has nothing to show
    have hshown : loaded.shown.OnCourse limit Color.defaultPalette records.length := by
      rw [← hrun, ← hlength, ← Nat.zero_add (List.length _)]
      exact hcourse
    exact ⟨hrun, hlength, (onCourse_of_shown hshown).follows⟩

/-- Two curves, one of them not shown. -/
def twoRecords : List CurveRecord :=
  [⟨false, "f", "x"⟩, ⟨true, "g", "2*x"⟩]

/-- A curve is taken off, a definition fails, and one succeeds. -/
def replacement : List Action :=
  [.remove "f", .define "f" "x +" Cache.empty, .define "h" "x" Cache.empty]

/-- After two records and a removal the next definition takes the third color. -/
theorem run_follows_replacement :
    ∃ loaded h, (ofRecords twoRecords 3 Cache.empty).result = .ok loaded ∧
      loaded.definitions replacement = [h] ∧ Color.defaultPalette[2]? = some h.color ∧
      (loaded.run replacement).limit = 3 ∧ (loaded.run replacement).curves.length ≤ 3 := by
  have hnames : ((ofRecords twoRecords 3 Cache.empty).result.toOption.map fun loaded =>
      (loaded.definitions replacement).map Curve.name) = some ["h"] := by
    decide +kernel
  cases hload : (ofRecords twoRecords 3 Cache.empty).result with
  | error error =>
      rw [hload] at hnames
      cases hnames
  | ok loaded =>
      rw [hload] at hnames
      obtain ⟨h, rest, hdefinitions, _, hrest⟩ := List.map_eq_cons_iff.mp (Option.some.inj hnames)
      rw [List.map_eq_nil_iff.mp hrest] at hdefinitions
      have hfollows := (run_follows.2 _ _ _ _ hload).2.2 replacement
      refine ⟨loaded, h, rfl, hdefinitions, ?_, hfollows.limit_eq, hfollows.length_le⟩
      exact hfollows.colors 0 h (by rw [hdefinitions]; rfl)

end Plot

end Graphing
