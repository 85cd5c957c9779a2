import Graphing.Proofs.Plot.Coherence
import Graphing.Session.Basic

/-!
# Coherent sessions

Every command, whether it succeeds or fails, keeps the curves of a session coherent with
their texts and with the cache (`Session.Coherent.perform`). A `History` is a session together
with every curve that it has shown or held so far, and a later move may put any of these
curves back on the plot. After any moves (`History.run_coherent`) all curves, past and present,
are coherent with the cache as it is now, and two of them share an artifact just if their
trees are equal.
-/

namespace Graphing

/-- The curves that a reply hands out. -/
def Reply.curves : Reply → List Curve
  | .curve shown => [shown]
  | .plot shown => shown.curves
  | _ => []

namespace Session

/-- The curves that are set aside. -/
def asideCurves (session : Session) : List Curve :=
  session.slots.map Prod.snd

/-- A consistent cache, and curves that are coherent with it. -/
structure Coherent (session : Session) : Prop where
  cache : session.cache.Consistent
  plot : session.cache.Covers session.plot.curves
  aside : session.cache.Covers session.asideCurves

theorem coherent_initial : initial.Coherent :=
  ⟨⟨[], Cache.accounted_empty⟩, .nil _, .nil _⟩

/-- What a command does to a coherent session. -/
structure Continues (session : Session) (performed : Performed) : Prop where
  kept : session.cache.Kept performed.1.cache
  coherent : performed.1.Coherent
  reply : performed.1.cache.Covers performed.2.1.curves

namespace Coherent

variable {session : Session}

/-! ## Slots -/

theorem coherent_of_slot? (h : session.Coherent) {slot : String} {curve : Curve}
    (hslot : session.slot? slot = some curve) : curve.Coherent session.cache := by
  obtain ⟨entry, hentry, rfl⟩ := Option.map_eq_some_iff.mp hslot
  exact h.aside entry.2 (List.mem_map_of_mem (List.mem_of_find?_eq_some hentry))

theorem setAside (h : session.Coherent) (slot : String) {curve : Curve}
    (hcurve : curve.Coherent session.cache) : (session.setAside slot curve).Coherent := by
  refine ⟨h.cache, h.plot, ?_⟩
  intro other hother
  obtain ⟨entry, hentry, rfl⟩ := List.mem_map.mp hother
  rcases List.mem_cons.mp hentry with rfl | hkept
  · exact hcurve
  · exact h.aside entry.2 (List.mem_map_of_mem (List.mem_filter.mp hkept).1)

theorem setAside? (h : session.Coherent) (slot : Option String) {curve : Curve}
    (hcurve : curve.Coherent session.cache) :
    (session.setAside? slot curve).Coherent ∧
      (session.setAside? slot curve).cache = session.cache := by
  cases slot with
  | none => exact ⟨h, rfl⟩
  | some slot => exact ⟨h.setAside slot hcurve, rfl⟩

/-! ## Commands that leave the cache alone -/

/-- A command that changes nothing and hands out nothing. -/
theorem still (h : session.Coherent) {reply : Reply} (hreply : reply.curves = [])
    (events : List Event) : session.Continues (session, reply, events) := by
  refine ⟨.refl _, h, ?_⟩
  show session.cache.Covers reply.curves
  rw [hreply]
  exact .nil _

theorem withPlot (h : session.Coherent) {plot : Plot}
    (hplot : session.cache.Covers plot.curves) : ({ session with plot := plot }).Coherent :=
  ⟨h.cache, hplot, h.aside⟩

theorem about (h : session.Coherent) (name : String) {reply : Curve → Reply}
    (hreply : ∀ curve : Curve, curve.Coherent session.cache →
      session.cache.Covers (reply curve).curves) :
    session.Continues (session.about name reply) := by
  unfold Session.about
  split
  · exact h.still rfl []
  · rename_i curve hfind
    exact ⟨.refl _, h, hreply curve (Plot.coherent_of_find? h.plot hfind)⟩

/-! ## Commands that use the cache -/

/-- A grown cache keeps a session coherent. -/
theorem withCache (h : session.Coherent) {cache : Cache} (kept : session.cache.Kept cache)
    (hcache : cache.Consistent) : ({ session with cache := cache }).Coherent :=
  ⟨hcache, h.plot.mono kept, h.aside.mono kept⟩

/-- What a command does with its result, once the session it has come to is coherent. -/
theorem finish {later : Session} (hlater : later.Coherent)
    (kept : session.cache.Kept later.cache) {β : Type} {result : Except FormulaError β}
    {good : β → Prop} (hgood : ∀ value, result = .ok value → good value) (events : List Event)
    {succeed : Session → β → Session × Reply}
    (hsucceed : ∀ value, good value →
      (succeed later value).1.Coherent ∧ (succeed later value).1.cache = later.cache ∧
        later.cache.Covers (succeed later value).2.curves) :
    session.Continues (later.finish result events succeed) := by
  cases result with
  | error error => exact ⟨kept, hlater, .nil _⟩
  | ok value =>
      obtain ⟨hcoherent, hcache, hreply⟩ := hsucceed value (hgood value rfl)
      refine ⟨?_, hcoherent, ?_⟩
      · show session.cache.Kept (succeed later value).1.cache
        rw [hcache]
        exact kept
      · show Cache.Covers (succeed later value).1.cache (succeed later value).2.curves
        rw [hcache]
        exact hreply

/-- A command that uses the cache: what is left to show is what it does with a good value. -/
theorem conclude (h : session.Coherent) {β : Type} {outcome : Outcome β}
    {good : Cache → β → Prop} (houtcome : outcome.Sound session.cache good)
    {succeed : Session → β → Session × Reply}
    (hsucceed : ∀ (later : Session) (value : β), later.Coherent → good later.cache value →
      (succeed later value).1.Coherent ∧ (succeed later value).1.cache = later.cache ∧
        later.cache.Covers (succeed later value).2.curves) :
    session.Continues (session.conclude outcome succeed) := by
  have hlater := h.withCache houtcome.kept houtcome.consistent
  exact finish hlater houtcome.kept houtcome.value outcome.events
    fun value hvalue => hsucceed _ value hlater hvalue

/-- Commands that put another plot in place. -/
theorem concludePlot (h : session.Coherent) {outcome : Outcome Plot}
    (houtcome : outcome.Sound session.cache fun later plot => later.Covers plot.curves) :
    session.Continues (session.conclude outcome fun session plot =>
      ({ session with plot := plot }, .done)) := by
  refine h.conclude houtcome ?_
  intro later plot hlater hplot
  exact ⟨hlater.withPlot hplot, rfl, .nil _⟩

theorem make (h : session.Coherent) (slot : Option String) (name text : String)
    (color : Option Color) :
    session.Continues (session.perform (.make slot name text color)) := by
  simp only [Session.perform]
  refine h.conclude (Curve.makesCoherent_ofText name text session.cache h.cache) ?_
  intro later curve hlater hcurve
  have hcolored := hcurve.withColor (color.getD curve.color)
  obtain ⟨hcoherent, hcache⟩ := hlater.setAside? slot hcolored
  exact ⟨hcoherent, hcache, .singleton hcolored⟩

theorem compile (h : session.Coherent) (formula : Formula) :
    session.Continues (session.compile formula) := by
  obtain ⟨kept, hconsistent, _⟩ := h.cache.getOrCompile formula
  have hlater := h.withCache kept hconsistent
  simp only [Session.compile]
  cases (session.cache.getOrCompile formula).answer with
  | error error => exact ⟨kept, hlater, .nil _⟩
  | ok artifact => exact ⟨kept, hlater, .nil _⟩

theorem race (h : session.Coherent) (formula : Formula) :
    session.Continues (session.race formula) := by
  obtain ⟨ledger, hledger⟩ := h.cache
  obtain ⟨longer, kept, hlonger⟩ := hledger.getOrCompileRaced formula
  have hlater := h.withCache kept ⟨longer, hlonger⟩
  simp only [Session.race]
  cases (session.cache.getOrCompileRaced formula).1.answer with
  | error error => exact ⟨kept, hlater, .nil _⟩
  | ok artifact => exact ⟨kept, hlater, .nil _⟩

/-! ## Commands that change the plot where it is -/

/-- A command that works on the plot: what the work has left is coherent even if it failed, and
what remains to show is what the command does with a good value. -/
theorem onPlot (h : session.Coherent) {β : Type} {work : Work (Plot × Cache) β}
    {good : Cache → β → Prop}
    (hwork : (work (session.plot, session.cache)).Sound session.cache
      (fun later plot => later.Covers plot.curves) good)
    {succeed : Session → β → Session × Reply}
    (hsucceed : ∀ (later : Session) (value : β), later.Coherent → good later.cache value →
      (succeed later value).1.Coherent ∧ (succeed later value).1.cache = later.cache ∧
        later.cache.Covers (succeed later value).2.curves) :
    session.Continues (session.onPlot work succeed) := by
  have hlater := (h.withCache hwork.kept hwork.consistent).withPlot hwork.whole
  exact finish hlater hwork.kept hwork.value _ fun value hvalue => hsucceed _ value hlater hvalue

theorem define (h : session.Coherent) (name text : String) :
    session.Continues (session.define name text) := by
  refine h.onPlot (Plot.sound_define h.plot h.cache name text) ?_
  intro later curve hlater hcurve
  exact ⟨hlater, rfl, .singleton hcurve⟩

theorem remove (h : session.Coherent) (name : String) (slot : Option String) :
    session.Continues (session.remove name slot) := by
  refine h.onPlot (Plot.sound_remove h.plot h.cache name) ?_
  intro later curve hlater hcurve
  obtain ⟨hcoherent, hcache⟩ := hlater.setAside? slot hcurve
  exact ⟨hcoherent, hcache, .singleton hcurve⟩

theorem onCurve (h : session.Coherent) (name : String) {work : Work (Curve × Cache) Unit}
    (hwork : ∀ curve : Curve, curve.Coherent session.cache →
      (work (curve, session.cache)).Sound session.cache
        (fun later curve => curve.Coherent later) fun _ _ => True) :
    session.Continues (session.onCurve name work) := by
  refine h.onPlot (Plot.sound_onFirst h.plot h.cache name hwork) ?_
  intro later changed hlater hchanged
  refine ⟨hlater, rfl, ?_⟩
  cases changed with
  | none => exact .nil _
  | some curve => exact .singleton (hchanged curve rfl)

theorem pushCurve (h : session.Coherent) {curve : Curve} (hcurve : curve.Coherent session.cache) :
    session.Continues (session.pushCurve curve) := by
  refine h.onPlot (Plot.sound_push h.plot h.cache hcurve) ?_
  intro later _ hlater _
  exact ⟨hlater, rfl, .nil _⟩

theorem push (h : session.Coherent) (slot : String) :
    session.Continues (session.push slot) := by
  unfold Session.push
  split
  · exact h.still rfl []
  · rename_i curve hslot
    exact h.pushCurve (h.coherent_of_slot? hslot)

/-! ## All commands -/

theorem perform (h : session.Coherent) (command : Command) :
    session.Continues (session.perform command) := by
  cases command with
  | newPlot limit palette =>
      refine ⟨.refl _, h.withPlot ?_, .nil _⟩
      cases palette with
      | none => exact .nil _
      | some palette => exact .nil _
  | newDefaults => exact h.concludePlot (Plot.sound_withDefaults h.cache)
  | clear => exact ⟨.refl _, h.withPlot (.nil _), .nil _⟩
  | define name text => exact h.define name text
  | remove name slot => exact h.remove name slot
  | get name => exact h.about name fun _ hcurve => .singleton hcurve
  | redefine name text =>
      exact h.onCurve name fun curve hcurve => Curve.sound_redefine hcurve h.cache text
  | edit name visible color rename =>
      exact h.onCurve name fun curve hcurve =>
        Curve.sound_edit hcurve h.cache visible color rename
  | records => exact h.still rfl []
  | record name => exact h.about name fun _ _ => .nil _
  | load records limit => exact h.concludePlot (Plot.sound_ofRecords records limit h.cache)
  | make slot name text color => exact h.make slot name text color
  | restore slot record =>
      simp only [Session.perform]
      refine h.conclude (Curve.makesCoherent_ofRecord record session.cache h.cache) ?_
      intro later curve hlater hcurve
      exact ⟨hlater.setAside slot hcurve, rfl, .singleton hcurve⟩
  | push slot => exact h.push slot
  | showSlot slot =>
      refine ⟨.refl _, h, ?_⟩
      show session.cache.Covers ((session.slot? slot).elim Reply.absent .curve).curves
      cases hslot : session.slot? slot with
      | none => exact .nil _
      | some curve => exact .singleton (h.coherent_of_slot? hslot)
  | calculate name xs => exact h.about name fun _ _ => .nil _
  | sample name grid => exact h.about name fun _ _ => .nil _
  | sampleVisible grid => exact h.still rfl []
  | validate text =>
      simp only [Session.perform]
      refine h.conclude (sound_validate h.cache text) ?_
      intro later _ hlater _
      exact ⟨hlater, rfl, .nil _⟩
  | compile formula => exact h.compile formula
  | lookup formula =>
      refine h.still ?_ []
      cases session.cache.lookup formula with
      | none => rfl
      | some artifact => rfl
  | race formula => exact h.race formula
  | showPlot => exact ⟨.refl _, h, h.plot⟩

end Coherent

end Session

/-! ## Histories -/

/-- A session, and every curve that was ever on its plot, set aside or handed out. -/
structure History where
  session : Session
  seen : List Curve

/-- What can be done next. -/
inductive Move where
  /-- Give the session a command. -/
  | perform (command : Command)
  /-- Add a curve that was seen before to the plot, as it was then. -/
  | push (index : Nat)

namespace History

def initial : History :=
  ⟨Session.initial, []⟩

/-- Carries out a command and takes note of all curves. -/
def perform (history : History) (command : Command) : History :=
  let performed := history.session.perform command
  ⟨performed.1, performed.1.plot.curves ++ performed.1.asideCurves ++
    performed.2.1.curves ++ history.seen⟩

/-- Adds a curve that was seen before. -/
def push (history : History) (index : Nat) : History :=
  match history.seen[index]? with
  | none => history
  | some curve => { history with session := (history.session.pushCurve curve).1 }

def move (history : History) : Move → History
  | .perform command => history.perform command
  | .push index => history.push index

/-- What a move replies. -/
def reply (history : History) : Move → Reply
  | .perform command => (history.session.perform command).2.1
  | .push index =>
      match history.seen[index]? with
      | none => .absent
      | some curve => (history.session.pushCurve curve).2.1

def run (history : History) (moves : List Move) : History :=
  moves.foldl move history

/-- All curves, past and present. -/
def curves (history : History) : List Curve :=
  history.session.plot.curves ++ history.session.asideCurves ++ history.seen

structure Coherent (history : History) : Prop where
  session : history.session.Coherent
  seen : history.session.cache.Covers history.seen

namespace Coherent

variable {history : History}

theorem perform (h : history.Coherent) (command : Command) :
    (history.perform command).Coherent := by
  have hcontinues := h.session.perform command
  refine ⟨hcontinues.coherent, ?_⟩
  -- what was seen before stays coherent, since the cache only grew
  exact ((hcontinues.coherent.plot.append hcontinues.coherent.aside).append
    hcontinues.reply).append (h.seen.mono hcontinues.kept)

theorem push (h : history.Coherent) (index : Nat) : (history.push index).Coherent := by
  unfold History.push
  split
  · exact h
  · rename_i curve hseen
    -- the curve may be long off the plot, but its artifact is still the stored one
    have hcurve := h.seen curve (List.mem_of_getElem? hseen)
    have hcontinues := h.session.pushCurve hcurve
    exact ⟨hcontinues.coherent, h.seen.mono hcontinues.kept⟩

theorem run (h : history.Coherent) (moves : List Move) : (history.run moves).Coherent := by
  induction moves generalizing history with
  | nil => exact h
  | cons move moves ih =>
      cases move with
      | perform command => exact ih (h.perform command)
      | push index => exact ih (h.push index)

theorem curves (h : history.Coherent) : history.session.cache.Covers history.curves :=
  (h.session.plot.append h.session.aside).append h.seen

end Coherent

theorem coherent_initial : initial.Coherent :=
  ⟨Session.coherent_initial, .nil _⟩

/-- After any moves, every curve on the plot, set aside or seen before has the tree of its
text, the artifact that the cache now has for this tree, and the term that the tree lowers
to; and two curves share an artifact just if their trees are equal. -/
theorem run_coherent (moves : List Move) :
    let history := initial.run moves
    ∀ f ∈ history.curves,
      Expr.parse f.text = .ok f.formula ∧
      history.session.cache.lookup f.formula = some f.artifact ∧
      f.formula.lower = .ok f.artifact.term ∧
      ∀ g ∈ history.curves,
        (f.artifact.identity = g.artifact.identity ↔ f.formula = g.formula) ∧
        (f.artifact = g.artifact ↔ f.formula = g.formula) := by
  intro history f hf
  have h : history.Coherent := coherent_initial.run moves
  obtain ⟨ledger, hledger⟩ := h.session.cache
  have hcoherent := h.curves f hf
  refine ⟨hcoherent.text, hcoherent.stored, (hledger.stored hcoherent.stored).term, ?_⟩
  intro g hg
  have hstored := (h.curves g hg).stored
  exact ⟨hledger.identity_eq_iff hcoherent.stored hstored,
    hledger.artifact_eq_iff hcoherent.stored hstored⟩

/-- A curve is defined, refuses a text that cannot be read, is taken off, and is pushed back
behind another curve whose text differs by a blank. -/
def pushedBack : List Move :=
  [.perform (.define "f" "x"), .perform (.redefine "f" "x+"), .perform (.remove "f" none),
    .perform (.define "g" " x"), .push 2]

theorem run_coherent_pushedBack :
    ∃ f ∈ (initial.run pushedBack).curves, ∃ g ∈ (initial.run pushedBack).curves,
      f.text = "x" ∧ g.text = " x" ∧ f.formula = g.formula ∧
      Expr.parse f.text = .ok f.formula ∧
      (initial.run pushedBack).session.cache.lookup f.formula = some f.artifact ∧
      f.formula.lower = .ok f.artifact.term ∧ f.artifact.identity = g.artifact.identity := by
  have hcurves : (initial.run pushedBack).session.plot.curves.map
      (fun curve => (curve.text, curve.formula)) =
        [(" x", .ident "x"), ("x", .ident "x")] := by decide +kernel
  obtain ⟨g, rest, hplot, hg, hrest⟩ := List.map_eq_cons_iff.mp hcurves
  obtain ⟨f, _, rfl, hf, _⟩ := List.map_eq_cons_iff.mp hrest
  obtain ⟨hgtext, hgformula⟩ := Prod.mk.inj hg
  obtain ⟨hftext, hfformula⟩ := Prod.mk.inj hf
  have hmem : ∀ curve ∈ (initial.run pushedBack).session.plot.curves,
      curve ∈ (initial.run pushedBack).curves := by
    intro curve hcurve
    exact List.mem_append_left _ (List.mem_append_left _ hcurve)
  rw [hplot] at hmem
  have hgmem := hmem g List.mem_cons_self
  have hfmem := hmem f (List.mem_cons_of_mem _ List.mem_cons_self)
  have hsame : f.formula = g.formula := by rw [hfformula, hgformula]
  obtain ⟨hparse, hstored, hlower, hshared⟩ := run_coherent pushedBack f hfmem
  exact ⟨f, hfmem, g, hgmem, hftext, hgtext, hsame, hparse, hstored, hlower,
    (hshared g hgmem).1.mpr hsame⟩

end History

end Graphing
