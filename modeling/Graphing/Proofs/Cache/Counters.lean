import Mathlib.Data.List.Infix
import Graphing.Proofs.Cache.Traffic
import Graphing.Session.Basic

/-!
# What the counters count

The counters are updated apart from the entries, and calls take their steps in any order.
What they show is compared here with what has become of every single call. The `history` of
a call lists its stages at all moments of a run, and from it alone follows the call's `fate`: not
counted yet, a hit, or a miss that is under way, failed, stored or dropped.

Each of four quantities is at every moment the number of calls of certain fates
(`amount_run`): the hits, the misses, the entries and the warnings. A step changes the fate of one
call and each quantity in step with it (`Quantity.amount_step`). That an artifact was dropped can
be seen from its identity, because no identity is given out twice (`Apart`).
-/

namespace Graphing

namespace Traffic

/-! ## Fates -/

/-- What has become of a call, as far as the counters go. -/
inductive Fate where
  /-- It has not counted yet. -/
  | uncounted
  /-- It has found an artifact and counted a hit. -/
  | hit
  /-- It has counted a miss, and has neither failed nor come to store an artifact. -/
  | underWay
  /-- Its formula has no meaning. -/
  | failed
  /-- Its own artifact is stored. -/
  | stored
  /-- Its own artifact is not, because another one was stored first. -/
  | dropped
  deriving DecidableEq

/-- The stages of a call after every beginning of a list of actions. -/
def history (actions : List Action) (index : Nat) : List Stage :=
  actions.inits.filterMap fun before => (initial.run before).calls[index]?.map Call.stage

/-- Whether a call has an artifact in hand that is not its answer yet. -/
def holdsArtifact : Stage → Bool
  | .found _ => true
  | .compiled _ => true
  | _ => false

/-- The fate that a history shows: where the call has come to, and which artifact it had in
hand before. -/
def fate (history : List Stage) : Fate :=
  match history.getLast?, history.find? holdsArtifact with
  | some .counted, _ => .underWay
  | some (.compiled _), _ => .underWay
  | some (.finished (.error _)), _ => .failed
  | some (.finished (.ok _)), some (.found _) => .hit
  | some (.finished (.ok answer)), some (.compiled own) =>
      if own.identity = answer.identity then .stored else .dropped
  | _, _ => .uncounted

/-- The fates of all calls, in the order in which they were made. -/
def fates (actions : List Action) : List Fate :=
  (List.range (initial.run actions).calls.length).map fun index => fate (history actions index)

/-! ## Histories -/

theorem run_concat (t : Traffic) (actions : List Action) (action : Action) :
    t.run (actions ++ [action]) = (t.run actions).act action := by
  simp [run]

theorem history_concat (actions : List Action) (action : Action) (index : Nat) :
    history (actions ++ [action]) index = history actions index ++
      ((initial.run (actions ++ [action])).calls[index]?.map Call.stage).toList := by
  rw [history, List.inits_append, List.filterMap_append]
  congr 1

theorem length_calls_act_le (t : Traffic) (action : Action) :
    t.calls.length ≤ (t.act action).calls.length := by
  cases action with
  | ask formula => simp [act]
  | step index =>
      show t.calls.length ≤ (t.step index).calls.length
      cases hcall : t.calls[index]? with
      | none => rw [step_of_getElem?_eq_none hcall]
      | some call => simp [step_of_getElem? hcall]

/-- A call has no history before it is made. -/
theorem history_eq_nil {actions : List Action} {index : Nat}
    (h : (initial.run actions).calls.length ≤ index) : history actions index = [] := by
  induction actions using List.reverseRecOn with
  | nil => rfl
  | append_singleton actions action ih =>
      have hle := length_calls_act_le (initial.run actions) action
      rw [history_concat, List.getElem?_eq_none h]
      rw [run_concat] at h
      rw [ih (by omega)]
      rfl

/-- The latest stage of a call is the one that it is in. -/
theorem getLast?_history {actions : List Action} {index : Nat} {call : Call}
    (h : (initial.run actions).calls[index]? = some call) :
    (history actions index).getLast? = some call.stage := by
  rcases List.eq_nil_or_concat actions with rfl | ⟨front, action, rfl⟩
  · cases h
  · rw [List.concat_eq_append] at h ⊢
    rw [history_concat, h]
    exact List.getLast?_concat

theorem find?_concat_self {history : List Stage} {stage : Stage}
    (h : history.getLast? = some stage) :
    (history ++ [stage]).find? holdsArtifact = history.find? holdsArtifact := by
  rw [List.find?_append]
  cases hfind : history.find? holdsArtifact with
  | some held => rfl
  | none =>
      have hstage := List.find?_eq_none.mp hfind stage (List.mem_of_getLast? h)
      simp [hstage]

/-- Time that a call spends at a stage does not change its fate. -/
theorem fate_concat_self {history : List Stage} {stage : Stage}
    (h : history.getLast? = some stage) : fate (history ++ [stage]) = fate history := by
  rw [fate, fate, List.getLast?_concat, find?_concat_self h, h]

/-- What the stages of a call before this one have been: it has had an artifact in hand just
if it is past that stage. -/
def Recalls (history : List Stage) : Stage → Prop
  | .found a => history.find? holdsArtifact = some (.found a)
  | .compiled a => history.find? holdsArtifact = some (.compiled a)
  | .finished _ => True
  | _ => history.find? holdsArtifact = none

theorem Recalls.stay {history : List Stage} {stage : Stage} (h : Recalls history stage)
    (hlast : history.getLast? = some stage) : Recalls (history ++ [stage]) stage := by
  have hfind := find?_concat_self hlast
  cases stage with
  | finished answer => trivial
  | _ => exact hfind.trans h

theorem Recalls.step {history : List Stage} {formula : Formula} {p q : Progress}
    (h : Recalls history p.stage) (hstep : p.Step formula q) :
    Recalls (history ++ [q.stage]) q.stage := by
  cases hstep with
  | find hfound => exact List.find?_append.trans (by rw [h]; rfl)
  | miss _ => exact List.find?_append.trans (by rw [h]; rfl)
  | countHit => trivial
  | countMiss => exact List.find?_append.trans (by rw [h]; rfl)
  | fail _ => trivial
  | compile _ => exact List.find?_append.trans (by rw [h]; rfl)
  | drop _ => trivial
  | store _ => trivial
  | rest => trivial

/-! ## Actions -/

/-- Everything that an action can do. -/
inductive Turn (t : Traffic) : Action → Traffic → Prop
  | ask (formula : Formula) :
      Turn t (.ask formula) { t with calls := t.calls ++ [⟨formula, .asked⟩] }
  | idle {index} : t.calls[index]? = none → Turn t (.step index) t
  | step {index call q} : t.calls[index]? = some call → (t.progress call).Step call.formula q →
      Turn t (.step index) ⟨q.cache, q.events, t.calls.set index ⟨call.formula, q.stage⟩⟩

theorem turn_act (t : Traffic) (action : Action) : t.Turn action (t.act action) := by
  cases action with
  | ask formula => exact .ask formula
  | step index =>
      show t.Turn (.step index) (t.step index)
      cases hcall : t.calls[index]? with
      | none =>
          rw [step_of_getElem?_eq_none hcall]
          exact .idle hcall
      | some call =>
          rw [step_of_getElem? hcall]
          exact .step hcall ((t.progress call).step_advance call.formula)

/-- A call after an addition is the new one or an old one. -/
theorem getElem?_concat_cases {calls : List Call} {new call : Call} {index : Nat}
    (h : (calls ++ [new])[index]? = some call) :
    calls[index]? = some call ∨ index = calls.length ∧ call = new := by
  rw [List.getElem?_append] at h
  split at h
  · exact .inl h
  · obtain ⟨hlt, rfl⟩ := List.getElem?_eq_some_iff.mp h
    rw [List.length_singleton] at hlt
    exact .inr ⟨by omega, by simp⟩

/-- A call after a step is the one that took it or one of the others. -/
theorem getElem?_set_cases {calls : List Call} {index other : Nat} {stepped call : Call}
    (h : (calls.set index stepped)[other]? = some call) :
    other = index ∧ call = stepped ∨ other ≠ index ∧ calls[other]? = some call := by
  by_cases heq : index = other
  · subst heq
    obtain ⟨hlt, rfl⟩ := List.getElem?_eq_some_iff.mp h
    exact .inl ⟨rfl, by simp⟩
  · rw [List.getElem?_set_ne heq] at h
    exact .inr ⟨Ne.symm heq, h⟩

theorem recalls_run {actions : List Action} {index : Nat} {call : Call}
    (h : (initial.run actions).calls[index]? = some call) :
    Recalls (history actions index) call.stage := by
  induction actions using List.reverseRecOn generalizing call with
  | nil => cases h
  | append_singleton actions action ih =>
      rw [history_concat, h]
      show Recalls (history actions index ++ [call.stage]) call.stage
      rw [run_concat] at h
      have hturn := turn_act (initial.run actions) action
      generalize (initial.run actions).act action = late at h hturn
      cases hturn with
      | ask formula =>
          rcases getElem?_concat_cases h with hold | ⟨rfl, rfl⟩
          · exact (ih hold).stay (getLast?_history hold)
          · rw [history_eq_nil (Nat.le_refl _)]
            rfl
      | idle _ => exact (ih h).stay (getLast?_history h)
      | step hmover hstep =>
          rcases getElem?_set_cases h with ⟨rfl, rfl⟩ | ⟨_, hold⟩
          · exact (ih hmover).step hstep
          · exact (ih hold).stay (getLast?_history hold)

/-! ## Artifacts in hand -/

/-- A call has compiled an artifact, and has not come to store it. -/
def Holds (t : Traffic) (index : Nat) (a : Artifact) : Prop :=
  ∃ formula, t.calls[index]? = some ⟨formula, .compiled a⟩

/-- An artifact in hand is none of the stored ones, and no two calls have the same one in
hand. -/
structure Apart (t : Traffic) : Prop where
  stored : ∀ {index : Nat} {a b : Artifact} {formula : Formula}, t.Holds index a →
    t.cache.lookup formula = some b → a.identity ≠ b.identity
  inHand : ∀ {index other : Nat} {a b : Artifact}, t.Holds index a → t.Holds other b →
    index ≠ other → a.identity ≠ b.identity

theorem apart_initial : initial.Apart := by
  constructor
  · rintro _ _ _ _ ⟨_, h⟩
    cases h
  · rintro _ _ _ _ ⟨_, h⟩
    cases h

/-- Nothing comes into conflict when nothing new is in hand or stored. -/
theorem Apart.mono {t late : Traffic} (h : t.Apart)
    (hholds : ∀ index a, late.Holds index a → t.Holds index a)
    (hlookup : late.cache.lookup = t.cache.lookup) : late.Apart := by
  constructor
  · intro index a b formula ha hb
    rw [hlookup] at hb
    exact h.stored (hholds index a ha) hb
  · intro index other a b ha hb hne
    exact h.inHand (hholds index a ha) (hholds other b hb) hne

/-- The next identity is beyond all that were given out. -/
theorem Sound.identity_lt {t : Traffic} {ledger : List Formula} (h : t.Sound ledger) :
    (∀ {formula : Formula} {b : Artifact}, t.cache.lookup formula = some b →
      b.identity < t.cache.nextIdentity) ∧
    ∀ {index : Nat} {b : Artifact}, t.Holds index b → b.identity < t.cache.nextIdentity := by
  have hissued : ∀ {formula : Formula} {b : Artifact}, b.MadeFor ledger formula →
      b.identity < t.cache.nextIdentity := by
    intro formula b hmade
    rw [← h.cache.length]
    exact (List.getElem?_eq_some_iff.mp hmade.issued).1
  constructor
  · intro formula b hstored
    exact hissued (h.cache.stored hstored)
  · rintro index b ⟨formula, hcall⟩
    exact hissued (h.calls _ (List.mem_of_getElem? hcall))

/-- What is in hand after a step: what the call that took it has compiled, and what the
others had in hand before. -/
theorem Holds.of_set {t : Traffic} {cache : Cache} {events : List Event} {index other : Nat}
    {stepped : Call} {a : Artifact}
    (h : Holds ⟨cache, events, t.calls.set index stepped⟩ other a) :
    other = index ∧ stepped.stage = .compiled a ∨ other ≠ index ∧ t.Holds other a := by
  obtain ⟨formula, hcall⟩ := h
  rcases getElem?_set_cases hcall with ⟨heq, rfl⟩ | ⟨hne, hold⟩
  · exact .inl ⟨heq, rfl⟩
  · exact .inr ⟨hne, formula, hold⟩

/-- Nothing comes into conflict when a call takes an artifact of a new identity in hand. -/
theorem Apart.take {t late : Traffic} (h : t.Apart) (index : Nat) (own : Artifact)
    (hholds : ∀ other a, late.Holds other a → other = index ∧ a = own ∨ t.Holds other a)
    (hlookup : late.cache.lookup = t.cache.lookup)
    (hstored : ∀ formula b, t.cache.lookup formula = some b → b.identity < own.identity)
    (hheld : ∀ other b, t.Holds other b → b.identity < own.identity) : late.Apart := by
  constructor
  · intro other a b formula ha hb
    rw [hlookup] at hb
    rcases hholds other a ha with ⟨_, rfl⟩ | hold
    · exact (hstored formula b hb).ne'
    · exact h.stored hold hb
  · intro other other' a b ha hb hne
    rcases hholds other a ha with ⟨rfl, rfl⟩ | hold <;>
      rcases hholds other' b hb with ⟨rfl, rfl⟩ | hold'
    · exact absurd rfl hne
    · exact (hheld other' b hold').ne'
    · exact (hheld other a hold).ne
    · exact h.inHand hold hold' hne

/-- Nor when a call stores what it has in hand. -/
theorem Apart.putDown {t late : Traffic} (h : t.Apart) {index : Nat} {own : Artifact}
    (hown : t.Holds index own)
    (hholds : ∀ other a, late.Holds other a → other ≠ index ∧ t.Holds other a)
    (hlookup : ∀ formula b, late.cache.lookup formula = some b →
      b = own ∨ t.cache.lookup formula = some b) : late.Apart := by
  constructor
  · intro other a b formula ha hb
    obtain ⟨hne, hold⟩ := hholds other a ha
    rcases hlookup formula b hb with rfl | hbefore
    · exact h.inHand hold hown hne
    · exact h.stored hold hbefore
  · intro other other' a b ha hb hne
    exact h.inHand (hholds other a ha).2 (hholds other' b hb).2 hne

theorem lookup_store_cases {cache : Cache} {formula other : Formula} {a b : Artifact}
    (h : (cache.store formula a).lookup other = some b) :
    b = a ∨ cache.lookup other = some b := by
  by_cases heq : formula = other
  · subst heq
    rw [Cache.lookup_store_self] at h
    exact .inl (Option.some.inj h).symm
  · rw [Cache.lookup_store_of_ne cache a heq] at h
    exact .inr h

theorem Apart.step {t : Traffic} {ledger : List Formula} (h : t.Apart) (hsound : t.Sound ledger)
    {index : Nat} {call : Call} (hcall : t.calls[index]? = some call) {q : Progress}
    (hstep : (t.progress call).Step call.formula q) :
    Apart ⟨q.cache, q.events, t.calls.set index ⟨call.formula, q.stage⟩⟩ := by
  obtain ⟨hstored, hheld⟩ := hsound.identity_lt
  obtain ⟨cache, events, calls⟩ := t
  obtain ⟨formula, stage⟩ := call
  change Progress.Step formula ⟨stage, cache, events⟩ q at hstep
  cases hstep with
  | @compile _ _ own hok =>
      -- the new artifact has an identity beyond all the others
      have hnew := (Expr.compile_eq_ok_iff.mp hok).2.2
      refine h.take index own ?_ rfl ?_ ?_
      · intro other a ha
        rcases ha.of_set (t := ⟨cache, events, calls⟩) with ⟨heq, hstage⟩ | ⟨_, hold⟩
        · cases hstage
          exact .inl ⟨heq, rfl⟩
        · exact .inr hold
      · intro formula' b hb
        rw [hnew]
        exact hstored hb
      · intro other b hb
        rw [hnew]
        exact hheld hb
  | @store _ _ own habsent =>
      refine h.putDown ⟨formula, hcall⟩ ?_ fun _ _ => lookup_store_cases
      intro other a ha
      rcases ha.of_set (t := ⟨cache, events, calls⟩) with ⟨_, hstage⟩ | hold
      · cases hstage
      · exact hold
  | _ =>
      refine h.mono ?_ rfl
      intro other a ha
      rcases ha.of_set (t := ⟨cache, events, calls⟩) with ⟨_, hstage⟩ | ⟨_, hold⟩
      · cases hstage
      · exact hold

theorem Apart.turn {t late : Traffic} {ledger : List Formula} {action : Action} (h : t.Apart)
    (hsound : t.Sound ledger) (hturn : t.Turn action late) : late.Apart := by
  cases hturn with
  | ask formula =>
      refine h.mono ?_ rfl
      rintro index a ⟨formula', hcall⟩
      rcases getElem?_concat_cases hcall with hold | ⟨_, hnew⟩
      · exact ⟨formula', hold⟩
      · cases hnew
  | idle _ => exact h
  | step hcall hstep => exact h.step hsound hcall hstep

theorem apart_run (actions : List Action) : (initial.run actions).Apart := by
  induction actions using List.reverseRecOn with
  | nil => exact apart_initial
  | append_singleton actions action ih =>
      obtain ⟨ledger, _, hsound⟩ := sound_initial.run actions
      rw [run_concat]
      exact ih.turn hsound (turn_act _ action)

/-! ## Quantities and fates -/

/-- What can be counted from outside. -/
inductive Quantity where
  | hits
  | misses
  | entries
  | warnings

namespace Quantity

/-- How much of it there is. -/
def amount : Quantity → Cache → List Event → Nat
  | hits, cache, _ => cache.hits
  | misses, cache, _ => cache.misses
  | entries, cache, _ => cache.size
  | warnings, _, events => events.countP fun event => event.severity = .warning

/-- The fates of the calls that it counts. -/
def counts : Quantity → Fate → Bool
  | hits, fate => fate = .hit
  | misses, fate => fate ≠ .uncounted ∧ fate ≠ .hit
  | entries, fate => fate = .stored
  | warnings, fate => fate = .dropped

/-- A quantity that counts a call before a step and after it alike does not change, and one
that begins to count it grows by one. -/
theorem amount_step {history : List Stage} {formula : Formula} {p q : Progress}
    (quantity : Quantity) (hlast : history.getLast? = some p.stage)
    (hrecalls : Recalls history p.stage) (hstep : p.Step formula q)
    (hother : ∀ a first, p.stage = .compiled a → p.cache.lookup formula = some first →
      a.identity ≠ first.identity) :
    quantity.amount q.cache q.events + (quantity.counts (fate history)).toNat =
      quantity.amount p.cache p.events +
        (quantity.counts (fate (history ++ [q.stage]))).toNat := by
  cases hstep with
  | @find cache events a _ =>
      have hbefore : fate history = .uncounted := by simp [fate, hlast]
      have hafter : fate (history ++ [.found a]) = .uncounted := by simp [fate]
      rw [hbefore, hafter]
  | miss _ =>
      have hbefore : fate history = .uncounted := by simp [fate, hlast]
      have hafter : fate (history ++ [.absent]) = .uncounted := by simp [fate]
      rw [hbefore, hafter]
  | @countHit cache events a =>
      have hheld : history.find? holdsArtifact = some (.found a) := hrecalls
      have hbefore : fate history = .uncounted := by simp [fate, hlast]
      have hafter : fate (history ++ [.finished (.ok a)]) = .hit := by simp [fate, hheld]
      rw [hbefore, hafter]
      cases quantity <;>
        simp [amount, counts, Cache.countHit, Cache.size, Event.severity]
  | countMiss =>
      have hbefore : fate history = .uncounted := by simp [fate, hlast]
      have hafter : fate (history ++ [.counted]) = .underWay := by simp [fate]
      rw [hbefore, hafter]
      cases quantity <;> simp [amount, counts, Cache.countMiss, Cache.size]
  | fail _ =>
      have hbefore : fate history = .underWay := by simp [fate, hlast]
      have hafter : ∀ error, fate (history ++ [.finished (.error error)]) = .failed := by
        simp [fate]
      rw [hbefore, hafter]
      cases quantity <;> simp [counts]
  | @compile cache events a _ =>
      have hbefore : fate history = .underWay := by simp [fate, hlast]
      have hafter : fate (history ++ [.compiled a]) = .underWay := by simp [fate]
      rw [hbefore, hafter]
      cases quantity <;>
        simp [amount, Cache.takeIdentity, Cache.size, Event.severity]
  | @drop cache events a first hfirst =>
      have hheld : history.find? holdsArtifact = some (.compiled a) := hrecalls
      have hne : a.identity ≠ first.identity := hother a first rfl hfirst
      have hbefore : fate history = .underWay := by simp [fate, hlast]
      have hafter : fate (history ++ [.finished (.ok first)]) = .dropped := by
        simp [fate, hheld, hne]
      rw [hbefore, hafter]
      cases quantity <;> simp [amount, counts, Event.severity]
  | @store cache events a _ =>
      have hheld : history.find? holdsArtifact = some (.compiled a) := hrecalls
      have hbefore : fate history = .underWay := by simp [fate, hlast]
      have hafter : fate (history ++ [.finished (.ok a)]) = .stored := by simp [fate, hheld]
      rw [hbefore, hafter]
      cases quantity <;> simp [amount, counts, Cache.store, Cache.size]
  | rest => rw [fate_concat_self hlast]

end Quantity

theorem length_fates (actions : List Action) :
    (fates actions).length = (initial.run actions).calls.length := by
  simp [fates]

theorem getElem?_fates {actions : List Action} {index : Nat} {call : Call}
    (h : (initial.run actions).calls[index]? = some call) :
    (fates actions)[index]? = some (fate (history actions index)) := by
  have hlt := (List.getElem?_eq_some_iff.mp h).1
  rw [fates, List.getElem?_map, List.getElem?_range hlt]
  rfl

/-- A call whose stage an action leaves as it is has the same fate. -/
theorem fate_history_concat {actions : List Action} {action : Action} {index : Nat} {call : Call}
    (h : (initial.run actions).calls[index]? = some call)
    (h' : (initial.run (actions ++ [action])).calls[index]? = some call) :
    fate (history (actions ++ [action]) index) = fate (history actions index) := by
  rw [history_concat, h']
  exact fate_concat_self (getLast?_history h)

/-- A list of fates is that of a run if it has one for every call, and the right one. -/
theorem fates_eq {actions : List Action} {list : List Fate}
    (hlength : list.length = (initial.run actions).calls.length)
    (h : ∀ index call, (initial.run actions).calls[index]? = some call →
      list[index]? = some (fate (history actions index))) : fates actions = list := by
  refine List.ext_getElem? fun index => ?_
  cases hcall : (initial.run actions).calls[index]? with
  | some call => rw [getElem?_fates hcall, h index call hcall]
  | none =>
      have hle := List.getElem?_eq_none_iff.mp hcall
      rw [List.getElem?_eq_none (by rw [length_fates]; exact hle),
        List.getElem?_eq_none (by rw [hlength]; exact hle)]

theorem fates_concat_ask {actions : List Action} {formula : Formula} :
    fates (actions ++ [.ask formula]) = fates actions ++ [.uncounted] := by
  have hrun : (initial.run (actions ++ [.ask formula])).calls =
      (initial.run actions).calls ++ [⟨formula, .asked⟩] := by rw [run_concat]; rfl
  refine fates_eq (by simp [length_fates, hrun]) ?_
  intro index call hcall
  have hnow := hcall
  rw [hrun] at hcall
  rcases getElem?_concat_cases hcall with hold | ⟨rfl, rfl⟩
  · have hlt := (List.getElem?_eq_some_iff.mp hold).1
    rw [List.getElem?_append_left (by rw [length_fates]; exact hlt), getElem?_fates hold,
      fate_history_concat hold hnow]
  · rw [← length_fates, List.getElem?_concat_length, history_concat, length_fates,
      history_eq_nil (Nat.le_refl _), hnow]
    rfl

theorem fates_concat_idle {actions : List Action} {action : Action}
    (h : initial.run (actions ++ [action]) = initial.run actions) :
    fates (actions ++ [action]) = fates actions := by
  refine fates_eq (by rw [length_fates, h]) ?_
  intro index call hcall
  have hold := hcall
  rw [h] at hold
  rw [getElem?_fates hold, fate_history_concat hold hcall]

theorem fates_concat_step {actions : List Action} {action : Action} {index : Nat} {stepped : Call}
    (h : (initial.run (actions ++ [action])).calls = (initial.run actions).calls.set index stepped)
    (hlt : index < (initial.run actions).calls.length) :
    fates (actions ++ [action]) =
      (fates actions).set index (fate (history actions index ++ [stepped.stage])) := by
  refine fates_eq (by rw [List.length_set, length_fates, h, List.length_set]) ?_
  intro other call hcall
  have hnow := hcall
  rw [h] at hcall
  rcases getElem?_set_cases hcall with ⟨rfl, rfl⟩ | ⟨hne, hold⟩
  · rw [List.getElem?_set_self (by rw [length_fates]; exact hlt), history_concat, hnow]
    rfl
  · rw [List.getElem?_set_ne (Ne.symm hne), getElem?_fates hold, fate_history_concat hold hnow]

theorem countP_set_add {p : Fate → Bool} {list : List Fate} {index : Nat} {old : Fate}
    (h : list[index]? = some old) (new : Fate) :
    (list.set index new).countP p + (p old).toNat = list.countP p + (p new).toNat := by
  obtain ⟨hlt, rfl⟩ := List.getElem?_eq_some_iff.mp h
  have hpos : p (list.get ⟨index, hlt⟩) = true → 0 < list.countP p := fun hp =>
    List.countP_pos_iff.mpr ⟨_, List.getElem_mem hlt, hp⟩
  rw [List.countP_set hlt]
  cases hold : p (list.get ⟨index, hlt⟩) <;> cases hnew : p new <;> simp_all

/-- At every moment of a run, each quantity is the number of calls of the fates it counts. -/
theorem amount_run (quantity : Quantity) (actions : List Action) :
    quantity.amount (initial.run actions).cache (initial.run actions).events =
      (fates actions).countP quantity.counts := by
  induction actions using List.reverseRecOn with
  | nil => cases quantity <;> rfl
  | append_singleton actions action ih =>
      have hturn := turn_act (initial.run actions) action
      rw [← run_concat] at hturn
      generalize hlate : initial.run (actions ++ [action]) = late at hturn
      cases hturn with
      | ask formula =>
          rw [fates_concat_ask, List.countP_append, ← ih]
          cases quantity <;> rfl
      | idle _ => rw [fates_concat_idle hlate, ← ih]
      | @step index call q hcall hstep =>
          have hlt := (List.getElem?_eq_some_iff.mp hcall).1
          have hcalls := congrArg Traffic.calls hlate
          -- what the call drops cannot be the artifact that it finds stored
          have hother : ∀ a first, call.stage = .compiled a →
              (initial.run actions).cache.lookup call.formula = some first →
              a.identity ≠ first.identity := by
            intro a first hstage hfirst
            have hholds : (initial.run actions).Holds index a :=
              ⟨call.formula, by rw [hcall, ← hstage]⟩
            exact (apart_run actions).stored hholds hfirst
          have hbalance := quantity.amount_step (getLast?_history hcall) (recalls_run hcall)
            hstep hother
          have hcounts := countP_set_add (p := quantity.counts) (getElem?_fates hcall)
            (fate (history actions index ++ [q.stage]))
          rw [fates_concat_step hcalls hlt]
          change quantity.amount q.cache q.events + _ =
            quantity.amount (initial.run actions).cache (initial.run actions).events + _
            at hbalance
          show quantity.amount q.cache q.events =
            ((fates actions).set index (fate (history actions index ++ [q.stage]))).countP
              quantity.counts
          omega

/-! ## Calls one after another -/

/-- At every moment of a run there is at most one call that has no answer yet. -/
def NeverOverlap (actions : List Action) : Prop :=
  ∀ before ∈ actions.inits,
    (initial.run before).calls.countP (fun call => call.stage.answer?.isNone) ≤ 1

instance (actions : List Action) : Decidable (NeverOverlap actions) :=
  inferInstanceAs (Decidable (∀ before ∈ actions.inits, _))

theorem NeverOverlap.of_concat {actions : List Action} {action : Action}
    (h : NeverOverlap (actions ++ [action])) : NeverOverlap actions := by
  intro before hmem
  refine h before (List.mem_inits _ _ |>.mpr ?_)
  exact (List.mem_inits _ _ |>.mp hmem).trans (List.prefix_append actions [action])

theorem eq_of_countP_le_one {p : Call → Bool} {calls : List Call} (h : calls.countP p ≤ 1)
    {index other : Nat} {c d : Call} (hc : calls[index]? = some c) (hd : calls[other]? = some d)
    (hpc : p c) (hpd : p d) : index = other := by
  induction calls generalizing index other with
  | nil => cases hc
  | cons call calls ih =>
      rw [List.countP_cons] at h
      -- one of the two at the front leaves no room for the other
      have hfront : ∀ {k : Nat} {e f : Call}, p e → p f → call = e → calls[k]? = some f →
          False := by
        rintro k e f hpe hpf rfl hf
        have hpos := List.countP_pos_iff.mpr ⟨f, List.mem_of_getElem? hf, hpf⟩
        simp only [hpe, if_true] at h
        omega
      match index, other with
      | 0, 0 => rfl
      | 0, _ + 1 => exact (hfront hpc hpd (Option.some.inj hc) hd).elim
      | _ + 1, 0 => exact (hfront hpd hpc (Option.some.inj hd) hc).elim
      | index + 1, other + 1 => rw [ih (by omega) hc hd]

theorem NeverOverlap.eq {actions : List Action} (h : NeverOverlap actions) {index other : Nat}
    {c d : Call} (hc : (initial.run actions).calls[index]? = some c)
    (hd : (initial.run actions).calls[other]? = some d) (hcwaits : c.stage.answer? = none)
    (hdwaits : d.stage.answer? = none) : index = other := by
  have hone := h actions (List.mem_inits _ _ |>.mpr List.prefix_rfl)
  exact eq_of_countP_le_one hone hc hd (by rw [hcwaits]; rfl) (by rw [hdwaits]; rfl)

/-- A call that has found nothing and is alone with the cache. -/
def Unopposed (cache : Cache) (call : Call) : Prop :=
  match call.stage with
  | .absent => cache.lookup call.formula = none
  | .counted => cache.lookup call.formula = none
  | .compiled _ => cache.lookup call.formula = none
  | _ => True

theorem Unopposed.step {formula : Formula} {p q : Progress}
    (h : Unopposed p.cache ⟨formula, p.stage⟩) (hstep : p.Step formula q) :
    Unopposed q.cache ⟨formula, q.stage⟩ ∧
      Quantity.warnings.amount q.cache q.events = Quantity.warnings.amount p.cache p.events := by
  cases hstep with
  | drop hfirst =>
      have habsent := hfirst.symm.trans h
      cases habsent
  | miss habsent => exact ⟨habsent, rfl⟩
  | countMiss => exact ⟨h, rfl⟩
  | compile _ => exact ⟨h, by simp [Quantity.amount, Event.severity]⟩
  | countHit => exact ⟨trivial, by simp [Quantity.amount, Event.severity]⟩
  | _ => exact ⟨trivial, rfl⟩

/-- A call that has its answer changes nothing any more. -/
theorem cache_eq_of_answer {formula : Formula} {p q : Progress}
    {answer : Except CompileError Artifact} (h : p.stage.answer? = some answer)
    (hstep : p.Step formula q) : q.cache = p.cache := by
  cases hstep with
  | rest => rfl
  | _ => cases h

theorem unopposed_of_answer {cache : Cache} {call : Call}
    {answer : Except CompileError Artifact} (h : call.stage.answer? = some answer) :
    Unopposed cache call := by
  rw [Unopposed, Stage.answer?_eq_some_iff.mp h]
  trivial

/-- A call that is the only one under way finds at its end what it has found at its beginning, so
nothing is dropped. -/
theorem NeverOverlap.unopposed {actions : List Action} (h : NeverOverlap actions) :
    Quantity.warnings.amount (initial.run actions).cache (initial.run actions).events = 0 ∧
      ∀ (index : Nat) (call : Call), (initial.run actions).calls[index]? = some call →
        Unopposed (initial.run actions).cache call := by
  induction actions using List.reverseRecOn with
  | nil =>
      refine ⟨rfl, ?_⟩
      intro index call hcall
      cases hcall
  | append_singleton actions action ih =>
      obtain ⟨hzero, hcalls⟩ := ih h.of_concat
      rw [run_concat]
      have hturn := turn_act (initial.run actions) action
      generalize (initial.run actions).act action = late at hturn
      cases hturn with
      | ask formula =>
          refine ⟨hzero, ?_⟩
          intro index call hcall
          rcases getElem?_concat_cases hcall with hold | ⟨_, rfl⟩
          · exact hcalls index call hold
          · trivial
      | idle _ => exact ⟨hzero, hcalls⟩
      | @step index mover q hmover hstep =>
          obtain ⟨hnext, hsame⟩ := Unopposed.step (hcalls index mover hmover) hstep
          refine ⟨hsame.trans hzero, ?_⟩
          intro other call hcall
          rcases getElem?_set_cases hcall with ⟨rfl, rfl⟩ | ⟨hne, hold⟩
          · exact hnext
          -- of two calls one has its answer: nothing changes, or nothing can oppose it
          · cases hmover' : mover.stage.answer? with
            | some answer =>
                have hcache : q.cache = (initial.run actions).cache :=
                  cache_eq_of_answer hmover' hstep
                show Unopposed q.cache call
                rw [hcache]
                exact hcalls other call hold
            | none =>
                cases hcall' : call.stage.answer? with
                | some answer => exact unopposed_of_answer hcall'
                | none => exact absurd (h.of_concat.eq hold hmover hcall' hmover') hne

/-! ## Conservation -/

/-- The misses by what has become of them. -/
theorem countP_misses (list : List Fate) :
    list.countP Quantity.misses.counts = list.count .stored + list.count .failed +
      list.count .dropped + list.count .underWay := by
  induction list with
  | nil => rfl
  | cons fate list ih =>
      rw [List.countP_cons, ih]
      cases fate <;> simp [Quantity.counts] <;> omega

theorem countP_counted (list : List Fate) :
    list.countP (fun fate => fate ≠ .uncounted) =
      list.count .hit + list.countP Quantity.misses.counts := by
  induction list with
  | nil => rfl
  | cons fate list ih =>
      rw [List.countP_cons, ih, List.countP_cons]
      cases fate <;> simp [Quantity.counts] <;> omega

/-- A call with an answer is not under way. -/
theorem count_underWay_eq_zero {actions : List Action}
    (h : ∀ call ∈ (initial.run actions).calls, call.stage.answer? ≠ none) :
    (fates actions).count .underWay = 0 := by
  refine List.count_eq_zero.mpr ?_
  intro hmem
  obtain ⟨index, hindex, hfate⟩ := List.mem_map.mp hmem
  have hcall := List.getElem?_eq_getElem (List.mem_range.mp hindex)
  have hlast := getLast?_history hcall
  obtain ⟨answer, hanswer⟩ := Option.ne_none_iff_exists'.mp (h _ (List.mem_of_getElem? hcall))
  rw [Stage.answer?_eq_some_iff.mp hanswer] at hlast
  rw [fate, hlast] at hfate
  -- none of the fates of a call with an answer is this one
  split at hfate <;> simp_all
  split at hfate <;> simp at hfate

/-- At every moment of any interleaving of any calls: hits and misses together are the calls
that have counted; hits are those that have found an artifact; every miss is an entry, a
failure, an artifact that was dropped, which is when there is a warning, or under way. There are
never more of them than calls, so a bound on the calls is one on both counters. If calls never
overlap, nothing is dropped, and once all have their answers the misses are the entries and the
failures. Looking an artifact up changes nothing. -/
theorem counters_account (actions : List Action) :
    let t := initial.run actions
    let outcomes := fates actions
    (t.cache.hits + t.cache.misses = outcomes.countP (fun fate => fate ≠ .uncounted) ∧
      t.cache.hits + t.cache.misses ≤ t.calls.length) ∧
    t.cache.hits = outcomes.count .hit ∧
    t.cache.misses = t.cache.size + outcomes.count .failed + outcomes.count .dropped +
      outcomes.count .underWay ∧
    t.events.countP (fun event => event.severity = .warning) = outcomes.count .dropped ∧
    (NeverOverlap actions → outcomes.count .dropped = 0 ∧
      ((∀ call ∈ t.calls, call.stage.answer? ≠ none) →
        t.cache.misses = t.cache.size + outcomes.count .failed)) ∧
    ∀ (session : Session) (formula : Formula),
      (session.perform (.lookup formula)).1 = session ∧
      (session.perform (.lookup formula)).2.2 = [] := by
  intro t outcomes
  have hhits : t.cache.hits = outcomes.count .hit := amount_run .hits actions
  have hmisses : t.cache.misses = outcomes.countP Quantity.misses.counts :=
    amount_run .misses actions
  have hentries : t.cache.size = outcomes.count .stored := amount_run .entries actions
  have hwarnings : t.events.countP (fun event => event.severity = .warning) =
      outcomes.count .dropped := amount_run .warnings actions
  have hsplit := countP_misses outcomes
  have hcounted := countP_counted outcomes
  have hle : outcomes.countP (fun fate => fate ≠ .uncounted) ≤ outcomes.length :=
    List.countP_le_length
  have hlength : outcomes.length = t.calls.length := length_fates actions
  refine ⟨⟨by omega, by omega⟩, hhits, by omega, hwarnings, ?_, ?_⟩
  · intro hnever
    have hzero : outcomes.count .dropped = 0 := hwarnings.symm.trans hnever.unopposed.1
    refine ⟨hzero, ?_⟩
    intro hanswered
    have hdone : outcomes.count .underWay = 0 := count_underWay_eq_zero hanswered
    omega
  · intro session formula
    exact ⟨rfl, rfl⟩

/-- Calls one after another: the first one stores, the second one finds, the third one fails. -/
def consecutive (formula other : Formula) : List Action :=
  [.ask formula, .step 0, .step 0, .step 0, .step 0, .ask formula, .step 1, .step 1,
    .ask other, .step 2, .step 2, .step 2]

/-- Two misses make one entry when calls do not overlap and one of them fails, and also when
they do and one artifact is dropped. -/
theorem counters_account_consecutive :
    NeverOverlap (consecutive (.ident "x") (.ident "y")) ∧
    fates (consecutive (.ident "x") (.ident "y")) = [.stored, .hit, .failed] ∧
    (initial.run (consecutive (.ident "x") (.ident "y"))).cache.misses =
      (initial.run (consecutive (.ident "x") (.ident "y"))).cache.size + 1 ∧
    ¬NeverOverlap (overtaking (.ident "x") ++ [.step 0]) ∧
    fates (overtaking (.ident "x") ++ [.step 0]) = [.dropped, .stored] ∧
    (initial.run (overtaking (.ident "x") ++ [.step 0])).cache.misses =
      (initial.run (overtaking (.ident "x") ++ [.step 0])).cache.size + 1 := by
  have hnever : NeverOverlap (consecutive (.ident "x") (.ident "y")) := by decide +kernel
  have hfates : fates (consecutive (.ident "x") (.ident "y")) = [.stored, .hit, .failed] := by
    decide +kernel
  have hanswered : ∀ call ∈ (initial.run (consecutive (.ident "x") (.ident "y"))).calls,
      call.stage.answer? ≠ none := by
    decide +kernel
  have hraced : fates (overtaking (.ident "x") ++ [.step 0]) = [.dropped, .stored] := by
    decide +kernel
  have hmisses := ((counters_account _).2.2.2.2.1 hnever).2 hanswered
  have hmisses' := (counters_account (overtaking (.ident "x") ++ [.step 0])).2.2.1
  rw [hfates] at hmisses
  rw [hraced] at hmisses'
  exact ⟨hnever, hfates, hmisses, by decide +kernel, hraced, hmisses'⟩

end Traffic

end Graphing
