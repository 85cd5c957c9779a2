import Graphing.Proofs.Session.Transparency

/-!
# Saving and loading

Of a curve its text is saved and not its tree or artifact. A coherent curve gets both back: on
the cache that it was made on its text is a hit, and the hit is its own artifact. So loading the
records of a plot on its own cache gives the very same curves, colored anew
(`Plot.ofRecords_records`). What it gives on another cache follows, since results do not depend
on the cache but for identities.

A plot need not come from one cache: `History.runAmong` makes every move on a cache of its own.
-/

namespace Graphing

/-! ## Colors -/

namespace ColorCycle

theorem length_take (cycle : ColorCycle) (n : Nat) : (cycle.take n).length = n := by
  induction n generalizing cycle with
  | zero => rfl
  | succ n ih => rw [take, List.length_cons, ih]

theorem getElem?_take (cycle : ColorCycle) {n i : Nat} (h : i < n) :
    (cycle.take n)[i]? = cycle.palette[(cycle.position + i) % cycle.palette.length]? := by
  induction n generalizing cycle i with
  | zero => omega
  | succ n ih =>
      cases i with
      | zero =>
          rw [take, List.getElem?_cons_zero, color]
          exact (List.getElem?_eq_getElem _).symm
      | succ i =>
          rw [take, List.getElem?_cons_succ, ih cycle.advance (by omega)]
          show cycle.palette[((cycle.position + 1) % cycle.palette.length + i) %
            cycle.palette.length]? = _
          rw [Nat.mod_add_mod, Nat.add_assoc, Nat.add_comm 1 i]

end ColorCycle

/-! ## Curves -/

namespace Curve

/-- The text of a coherent curve is a hit that brings back its tree and its artifact. -/
theorem ofRecord_record {curve : Curve} {cache : Cache} (h : curve.Coherent cache) :
    (ofRecord curve.record cache).result = .ok (curve.withColor Color.initial) ∧
      (ofRecord curve.record cache).cache = cache.countHit := by
  have hcompile : compileText curve.text cache = ⟨.ok (curve.formula, curve.artifact),
      cache.countHit, [.cacheHit curve.artifact.fingerprint]⟩ := by
    simp only [compileText, h.text, Cache.getOrCompile_of_lookup_eq_some h.stored]
  simp only [ofRecord, ofText, record, hcompile]
  exact ⟨rfl, rfl⟩

/-- A curve that has all of another but its color and the identity of its artifact. -/
structure Renews (again curve : Curve) : Prop where
  name : again.name = curve.name
  text : again.text = curve.text
  visible : again.visible = curve.visible
  formula : again.formula = curve.formula
  value : ∀ x, again.value x = curve.value x

theorem renews_of_anonymous_eq {again curve : Curve} {color : Color}
    (h : again.anonymous = (curve.withColor color).anonymous) :
    again.Renews curve ∧ again.color = color := by
  -- forgetting an identity touches none of these
  have hfield : ∀ {β : Type} (field : Curve → β), field again.anonymous =
      field (curve.withColor color).anonymous := fun field => congrArg field h
  exact ⟨⟨hfield Curve.name, hfield Curve.text, hfield Curve.visible, hfield Curve.formula,
    fun x => hfield fun curve => curve.value x⟩, hfield Curve.color⟩

end Curve

/-! ## Plots -/

namespace Plot

/-- The curves of a plot on a new one, in its colors. -/
def recolored (plot : Plot) (limit : Nat) : Plot :=
  plot.curves.foldl addColored (withLimit limit)

theorem curves_foldl_addColored (curves : List Curve) (plot : Plot) :
    (curves.foldl addColored plot).curves =
      plot.curves ++ List.zipWith Curve.withColor curves (plot.colors.take curves.length) := by
  induction curves generalizing plot with
  | nil => simp
  | cons curve rest ih =>
      rw [List.foldl_cons, ih]
      simp [addColored, ColorCycle.take]

theorem curves_recolored (plot : Plot) (limit : Nat) :
    (plot.recolored limit).curves =
      List.zipWith Curve.withColor plot.curves (ColorCycle.initial.take plot.curves.length) := by
  rw [recolored, curves_foldl_addColored]
  rfl

theorem length_recolored (plot : Plot) (limit : Nat) :
    (plot.recolored limit).curves.length = plot.curves.length := by
  rw [curves_recolored, List.length_zipWith, ColorCycle.length_take, Nat.min_self]

theorem getElem?_recolored {plot : Plot} {i : Nat} {curve : Curve}
    (h : plot.curves[i]? = some curve) (limit : Nat) :
    ∃ color, (plot.recolored limit).curves[i]? = some (curve.withColor color) ∧
      Color.defaultPalette[i % 5]? = some color := by
  have hi : i < plot.curves.length := (List.getElem?_eq_some_iff.mp h).1
  have htake := ColorCycle.initial.getElem?_take hi
  have hpalette : i % 5 < Color.defaultPalette.length := Nat.mod_lt _ (by decide)
  have hcolor := List.getElem?_eq_getElem hpalette
  refine ⟨Color.defaultPalette[i % 5], ?_, hcolor⟩
  have hcycle : (ColorCycle.initial.take plot.curves.length)[i]? =
      some Color.defaultPalette[i % 5] := by
    rw [htake, ← hcolor]
    show Color.defaultPalette[(0 + i) % 5]? = _
    rw [Nat.zero_add]
  rw [curves_recolored, List.getElem?_zipWith, h, hcycle]

/-- What does not read the color is not changed. -/
theorem map_recolored {β : Type} {f : Curve → β}
    (hf : ∀ curve color, f (curve.withColor color) = f curve) (plot : Plot) (limit : Nat) :
    (plot.recolored limit).curves.map f = plot.curves.map f := by
  refine List.ext_getElem? ?_
  intro i
  rw [List.getElem?_map, List.getElem?_map]
  cases hcurve : plot.curves[i]? with
  | none =>
      have hlength := List.getElem?_eq_none_iff.mp hcurve
      rw [← plot.length_recolored limit] at hlength
      rw [List.getElem?_eq_none_iff.mpr hlength]
  | some curve =>
      obtain ⟨color, hcolored, _⟩ := getElem?_recolored hcurve limit
      rw [hcolored]
      exact congrArg some (hf curve color)

theorem foldl_addColored_anonymous (curves : List Curve) (plot : Plot) :
    (curves.map Curve.anonymous).foldl addColored plot.anonymous =
      (curves.foldl addColored plot).anonymous := by
  induction curves generalizing plot with
  | nil => rfl
  | cons curve rest ih =>
      rw [List.map_cons, List.foldl_cons, List.foldl_cons, addColored_anonymous, ih]

theorem recolored_anonymous (plot : Plot) (limit : Nat) :
    plot.anonymous.recolored limit = (plot.recolored limit).anonymous :=
  foldl_addColored_anonymous plot.curves (withLimit limit)

/-- Adding what was saved of coherent curves adds these curves in the next colors, as long as
there is room, and does no more to the cache than counting hits. -/
theorem addAll_records {curves : List Curve} {cache : Cache} (h : cache.Covers curves)
    {plot : Plot} (hlimit : plot.curves.length ≤ plot.limit) :
    (plot.addAll (curves.map fun curve => Curve.ofRecord curve.record) cache).result =
        (if plot.curves.length + curves.length ≤ plot.limit then
          .ok (curves.foldl addColored plot) else .error (.tooManyFunctions plot.limit)) ∧
      ∃ hits, (plot.addAll (curves.map fun curve => Curve.ofRecord curve.record) cache).cache =
        { cache with hits := hits } := by
  induction curves generalizing plot cache with
  | nil =>
      rw [if_pos (by simpa using hlimit)]
      exact ⟨rfl, cache.hits, rfl⟩
  | cons curve rest ih =>
      rw [List.map_cons]
      cases hfull : plot.isFull with
      | true =>
          -- there is no room for this curve, and so none for all of them
          have hroom : ¬ plot.curves.length + (curve :: rest).length ≤ plot.limit := by
            have hle := of_decide_eq_true hfull
            rw [List.length_cons]
            omega
          rw [if_neg hroom, addAll_of_isFull hfull]
          exact ⟨rfl, cache.hits, rfl⟩
      | false =>
          have hlt := length_lt_of_isFull_eq_false hfull
          obtain ⟨hresult, hcache⟩ := Curve.ofRecord_record (h curve List.mem_cons_self)
          have hrest : cache.countHit.Covers rest := by
            intro other hother
            exact (h other (List.mem_cons_of_mem _ hother)).mono fun _ _ hstored => hstored
          have hlength : (plot.addColored curve).curves.length = plot.curves.length + 1 := by
            simp [addColored]
          have hroom : (plot.addColored curve).curves.length ≤ (plot.addColored curve).limit := by
            rw [hlength]
            exact hlt
          obtain ⟨hall, hits, hhits⟩ := ih hrest hroom
          rw [addAll_of_ok hfull hresult, hcache]
          refine ⟨?_, hits, hhits⟩
          rw [List.length_cons, Nat.add_comm rest.length, ← Nat.add_assoc, ← hlength]
          exact hall

/-- Loading what was saved of coherent curves gives the same curves, colored anew. -/
theorem ofRecords_records {plot : Plot} {cache : Cache} (h : cache.Covers plot.curves)
    (limit : Nat) :
    (ofRecords plot.records limit cache).result =
        (if plot.curves.length ≤ limit then .ok (plot.recolored limit)
          else .error (.tooManyFunctions limit)) ∧
      ∃ hits, (ofRecords plot.records limit cache).cache = { cache with hits := hits } := by
  have hempty : (withLimit limit).curves.length ≤ (withLimit limit).limit := Nat.zero_le limit
  have hall := addAll_records h hempty
  rw [ofRecords_eq_addAll, records, List.map_map]
  rw [show (withLimit limit).curves.length + plot.curves.length = plot.curves.length from
    Nat.zero_add _] at hall
  exact hall

/-- Loading on any cache gives what loading gives on a cache that covers the curves, but for
identities. -/
theorem sameResult_ofRecords {plot covered : Plot} {own cache : Cache}
    (hsame : plot.anonymous = covered.anonymous) (hcovers : own.Covers covered.curves)
    (hown : own.Consistent) (hcache : cache.Consistent) (limit : Nat) :
    SameResult (fun loaded loaded' => loaded.anonymous = loaded'.anonymous)
      (ofRecords plot.records limit cache).result
      (if plot.curves.length ≤ limit then .ok (plot.recolored limit)
        else .error (.tooManyFunctions limit)) := by
  have hrecords : plot.records = covered.records := by
    rw [← plot.records_anonymous, hsame, records_anonymous]
  have hlength : plot.curves.length = covered.curves.length := by
    have hcount := congrArg List.length hrecords
    rw [records, records, List.length_map, List.length_map] at hcount
    exact hcount
  have hrecolored : (covered.recolored limit).anonymous = (plot.recolored limit).anonymous := by
    rw [← recolored_anonymous, ← hsame, recolored_anonymous]
  refine SameResult.of_map_eq ?_
  rw [sameOnCaches_ofRecords plot.records limit cache own hcache hown, hrecords,
    (ofRecords_records hcovers limit).1, hlength]
  split
  · exact congrArg Except.ok hrecolored
  · rfl

/-- A plot that has, in order, what another one has, in the colors of a new plot. -/
structure Restores (loaded plot : Plot) : Prop where
  length : loaded.curves.length = plot.curves.length
  records : loaded.records = plot.records
  curves : ∀ (i : Nat) (curve : Curve), plot.curves[i]? = some curve →
    ∃ again, loaded.curves[i]? = some again ∧ again.Renews curve ∧
      Color.defaultPalette[i % 5]? = some again.color

theorem restores_of_anonymous_eq {loaded plot : Plot} {limit : Nat}
    (h : loaded.anonymous = (plot.recolored limit).anonymous) : loaded.Restores plot := by
  have hcurves : loaded.curves.map Curve.anonymous =
      (plot.recolored limit).curves.map Curve.anonymous := congrArg Plot.curves h
  refine ⟨?_, ?_, ?_⟩
  · have hlength := congrArg List.length hcurves
    rw [List.length_map, List.length_map, length_recolored] at hlength
    exact hlength
  · rw [← records_anonymous loaded, h, records_anonymous]
    exact map_recolored (fun _ _ => rfl) plot limit
  · intro i curve hcurve
    obtain ⟨color, hcolored, hpalette⟩ := getElem?_recolored hcurve limit
    have hagain : (loaded.curves.map Curve.anonymous)[i]? =
        some (curve.withColor color).anonymous := by
      rw [hcurves, List.getElem?_map, hcolored]
      rfl
    rw [List.getElem?_map] at hagain
    obtain ⟨again, hsome, hsame⟩ := Option.map_eq_some_iff.mp hagain
    obtain ⟨hrenews, hcolor⟩ := Curve.renews_of_anonymous_eq hsame
    rw [← hcolor] at hpalette
    exact ⟨again, hsome, hrenews, hpalette⟩

end Plot

/-! ## Histories -/

namespace History

theorem Coherent.kept_push {history : History} (h : history.Coherent) (index : Nat) :
    history.session.cache.Kept (history.push index).session.cache := by
  unfold History.push
  split
  · exact .refl _
  · rename_i curve hseen
    exact (h.session.pushCurve (h.seen curve (List.mem_of_getElem? hseen))).kept

/-- What is stored stays stored. -/
theorem Coherent.kept_run {history : History} (h : history.Coherent) (moves : List Move) :
    history.session.cache.Kept (history.run moves).session.cache := by
  induction moves generalizing history with
  | nil => exact .refl _
  | cons move moves ih =>
      cases move with
      | perform command =>
          exact (h.session.perform command).kept.trans (ih (h.perform command))
      | push index =>
          exact (h.kept_push index).trans (ih (h.push index))

/-- The history on another cache. -/
def onCache (history : History) (cache : Cache) : History :=
  { history with session := { history.session with cache := cache } }

/-- Makes moves, each with the cache that another session has left after its own moves. -/
def runAmong (history : History) : List (Move × List Move) → History
  | [] => history
  | (move, other) :: steps =>
      ((history.onCache (initial.run other).session.cache).move move).runAmong steps

/-- Commands that ask what the cache holds change and show no curve. -/
theorem anonymous_perform_of_looksUp (history : History) {command : Command}
    (h : command.looksUp = true) :
    (history.perform command).anonymous = (history.anonymous.perform command).anonymous := by
  have hstill : ∀ session : Session,
      (session.perform command).1.anonymous = session.anonymous ∧
        (session.perform command).2.1.anonymous.curves = [] := by
    intro session
    cases command with
    | lookup formula =>
        refine ⟨rfl, ?_⟩
        simp only [Session.perform]
        cases session.cache.lookup formula with
        | none => rfl
        | some artifact => rfl
    | race formula =>
        simp only [Session.perform, Session.race]
        cases (session.cache.getOrCompileRaced formula).1.answer with
        | error error => exact ⟨rfl, rfl⟩
        | ok artifact => exact ⟨rfl, rfl⟩
    | _ => cases h
  rw [anonymous_perform, anonymous_perform]
  simp only [Session.observed, hstill]
  simp [anonymous, Function.comp_def]

/-- What a move does to a history does not depend on the cache, but for identities. -/
theorem anonymous_move {history other : History} (hcache : history.session.cache.Consistent)
    (hother : other.session.cache.Consistent) (hsame : history.anonymous = other.anonymous)
    (move : Move) : (history.move move).anonymous = (other.move move).anonymous := by
  have hforget : ∀ history : History, history.session.cache.Consistent →
      (history.move move).anonymous = (history.anonymous.move move).anonymous := by
    intro history hcache
    cases hlooks : move.looksUp with
    | false => exact congrArg Prod.snd (history.observed_anonymous hcache hlooks)
    | true =>
        cases move with
        | perform command => exact history.anonymous_perform_of_looksUp hlooks
        | push index => cases hlooks
  rw [hforget history hcache, hsame, ← hforget other hother]

/-- Moves among many caches lead where the same moves on one cache lead, but for identities. -/
theorem anonymous_runAmong {history single : History} (hsingle : single.Coherent)
    (hsame : history.anonymous = single.anonymous) (steps : List (Move × List Move)) :
    (history.runAmong steps).anonymous = (single.run (steps.map Prod.fst)).anonymous := by
  induction steps generalizing history single with
  | nil => exact hsame
  | cons step steps ih =>
      obtain ⟨move, other⟩ := step
      have hcache : (history.onCache (initial.run other).session.cache).session.cache.Consistent :=
        (coherent_initial.run other).session.cache
      have hmoved := anonymous_move hcache hsingle.session.cache hsame move
      exact ih (hsingle.run [move]) hmoved

/-- Saving and loading gives a plot back. However the plot came about, among whatever caches,
and on whatever cache it is loaded: if there is room for its curves, loading succeeds and
restores them all in order, with the colors of a new plot; if not, it fails for lack of room. On
the cache that the plot was built on, in any later state, every curve gets its own artifact
back, no entry is added and no miss is counted. -/
theorem load_saved (limit : Nat) :
    (∀ (steps : List (Move × List Move)) (other : List Move),
      let plot := (initial.runAmong steps).session.plot
      let outcome := Plot.ofRecords plot.records limit (initial.run other).session.cache
      (plot.curves.length ≤ limit →
        ∃ loaded, outcome.result = .ok loaded ∧ loaded.Restores plot) ∧
      (limit < plot.curves.length → outcome.result = .error (.tooManyFunctions limit))) ∧
    (∀ moves more : List Move,
      let built := initial.run moves
      let plot := built.session.plot
      let own := (built.run more).session.cache
      let outcome := Plot.ofRecords plot.records limit own
      plot.curves.length ≤ limit →
        ∃ loaded, outcome.result = .ok loaded ∧ loaded.Restores plot ∧
          loaded.curves.map Curve.artifact = plot.curves.map Curve.artifact ∧
          outcome.cache.entries = own.entries ∧ outcome.cache.misses = own.misses) := by
  constructor
  · intro steps other plot outcome
    -- the same moves on one cache lead to a plot that this cache covers
    have hsingle := coherent_initial.run (steps.map Prod.fst)
    have hplot : plot.anonymous = (initial.run (steps.map Prod.fst)).session.plot.anonymous :=
      congrArg (fun history => history.session.plot)
        (anonymous_runAmong coherent_initial rfl steps)
    have hloaded := Plot.sameResult_ofRecords hplot hsingle.session.plot hsingle.session.cache
      (coherent_initial.run other).session.cache limit
    constructor
    · intro hroom
      rw [if_pos hroom] at hloaded
      rcases hloaded.cases with ⟨_, _, hright⟩ | ⟨loaded, _, hresult, hright, hsame⟩
      · cases hright
      · cases hright
        exact ⟨loaded, hresult, Plot.restores_of_anonymous_eq hsame⟩
    · intro hexceeds
      rw [if_neg (Nat.not_le.mpr hexceeds)] at hloaded
      rcases hloaded.cases with ⟨_, hresult, hright⟩ | ⟨_, _, _, hright, _⟩
      · cases hright
        exact hresult
      · cases hright
  · intro moves more built plot own outcome hroom
    have hbuilt : built.Coherent := coherent_initial.run moves
    have hcovers : own.Covers plot.curves := hbuilt.session.plot.mono (hbuilt.kept_run more)
    obtain ⟨hresult, hits, hcache⟩ := Plot.ofRecords_records hcovers limit
    rw [if_pos hroom] at hresult
    refine ⟨plot.recolored limit, hresult, Plot.restores_of_anonymous_eq rfl,
      Plot.map_recolored (fun _ _ => rfl) plot limit, ?_⟩
    show (Plot.ofRecords plot.records limit own).cache.entries = own.entries ∧
      (Plot.ofRecords plot.records limit own).cache.misses = own.misses
    rw [hcache]
    exact ⟨rfl, rfl⟩

/-- A plot of two curves, of which one was made on another cache, hidden and renamed. -/
def madeAmong : List (Move × List Move) :=
  [(.perform (.define "f" "x"), [.perform (.validate "x")]),
    (.perform (.define "g" "y+"), []), (.perform (.define "g" " x"), []),
    (.perform (.edit "f" (some false) none (some "g")), [])]

theorem load_saved_madeAmong :
    (∃ loaded, (Plot.ofRecords [⟨false, "g", "x"⟩, ⟨true, "g", " x"⟩] 2
        (initial.run [.perform (.validate "x")]).session.cache).result = .ok loaded ∧
        loaded.Restores (initial.runAmong madeAmong).session.plot) ∧
      (Plot.ofRecords [⟨false, "g", "x"⟩, ⟨true, "g", " x"⟩] 1
        (initial.run [.perform (.validate "x")]).session.cache).result =
          .error (.tooManyFunctions 1) := by
  have hrecords : (initial.runAmong madeAmong).session.plot.records =
      [⟨false, "g", "x"⟩, ⟨true, "g", " x"⟩] := by decide +kernel
  have hlength : (initial.runAmong madeAmong).session.plot.curves.length = 2 := by
    decide +kernel
  have hroom := ((load_saved 2).1 madeAmong [.perform (.validate "x")]).1 (Nat.le_of_eq hlength)
  have hexceeds :=
    ((load_saved 1).1 madeAmong [.perform (.validate "x")]).2 (Nat.le_of_eq hlength.symm)
  rw [hrecords] at hroom hexceeds
  exact ⟨hroom, hexceeds⟩

end History

end Graphing
