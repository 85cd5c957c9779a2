import Graphing.Proofs.Cache.Traffic
import Graphing.Proofs.Plot.Succession
import Graphing.Proofs.Session.Coherence

/-!
# Loading stops at the first record that offends

A record offends if there is no room left for its curve or if its text is refused. Whether a
text is refused is a matter of the text alone (`rejection?`), so the first offending record can
be told from the records and the limit, before anything is loaded.

The records before it are loaded one after the other (`Plot.exists_addAll_front`), which does to
the cache what checking their texts does. Then loading ends, and what follows is never looked at:
the outcome is the same with any other records behind the offending one.
-/

namespace Graphing

/-! ## Texts that are refused -/

/-- Why a text is refused, whatever the cache holds: it is no formula, or its formula has no
meaning. -/
def rejection? (text : String) : Option FormulaError :=
  match Expr.parse text with
  | .error error => some (.parse error)
  | .ok formula =>
      match formula.lower with
      | .error error => some (.compile error)
      | .ok _ => none

theorem compileText_of_rejected {cache : Cache} (h : cache.Consistent) {text : String}
    {error : FormulaError} (hrejected : rejection? text = some error) :
    (compileText text cache).result = .error error := by
  unfold rejection? at hrejected
  unfold compileText
  cases hparse : Expr.parse text with
  | error reason =>
      rw [hparse] at hrejected
      rw [← Option.some.inj hrejected]
  | ok formula =>
      rw [hparse] at hrejected
      cases hlower : formula.lower with
      | ok term =>
          simp only [hlower] at hrejected
          cases hrejected
      | error reason =>
          simp only [hlower] at hrejected
          obtain ⟨_, ⟨_, haccounted⟩, hanswers⟩ := h.getOrCompile formula
          simp only [hanswers.eq_error haccounted hlower]
          rw [← Option.some.inj hrejected]

theorem exists_compileText {cache : Cache} (h : cache.Consistent) {text : String}
    (haccepted : rejection? text = none) : ∃ made, (compileText text cache).result = .ok made := by
  unfold rejection? at haccepted
  unfold compileText
  cases hparse : Expr.parse text with
  | error reason =>
      rw [hparse] at haccepted
      cases haccepted
  | ok formula =>
      obtain ⟨_, _, hanswers⟩ := h.getOrCompile formula
      cases hanswer : (cache.getOrCompile formula).answer with
      | ok artifact => exact ⟨(formula, artifact), by simp only [hanswer]⟩
      | error reason =>
          -- an error is a right answer only if the formula has no meaning
          rw [hanswer] at hanswers
          have hlower : formula.lower = .error reason := hanswers
          simp only [hparse, hlower] at haccepted
          cases haccepted

/-- The cache after texts have been checked one after the other. -/
def Cache.validated (cache : Cache) (texts : List String) : Cache :=
  texts.foldl (fun cache text => (validate text cache).cache) cache

theorem Cache.validated_cons (cache : Cache) (text : String) (texts : List String) :
    cache.validated (text :: texts) = (validate text cache).cache.validated texts := rfl

theorem Cache.validated_concat (cache : Cache) (texts : List String) (text : String) :
    cache.validated (texts ++ [text]) = (validate text (cache.validated texts)).cache := by
  rw [validated, List.foldl_append]
  rfl

theorem Cache.Consistent.validated {cache : Cache} (h : cache.Consistent) (texts : List String) :
    (cache.validated texts).Consistent := by
  induction texts generalizing cache with
  | nil => exact h
  | cons text texts ih => exact ih (sound_validate h text).consistent

/-! ## Single records -/

namespace Curve

/-- A record makes the curve of its text, with its own name and visibility. -/
theorem result_ofRecord (record : CurveRecord) (cache : Cache) :
    (ofRecord record cache).result = (compileText record.text cache).result.map fun made =>
      ⟨record.name, record.text, made.1, made.2, Color.initial, record.visible⟩ := by
  cases hcompile : (compileText record.text cache).result with
  | error error => simp only [ofRecord, ofText, Outcome.report, Outcome.map, hcompile, Except.map]
  | ok made => simp only [ofRecord, ofText, Outcome.report, Outcome.map, hcompile, Except.map]

theorem cache_ofRecord (record : CurveRecord) (cache : Cache) :
    (ofRecord record cache).cache = (validate record.text cache).cache :=
  cache_ofText record.name record.text cache

theorem ofRecord_of_rejected {cache : Cache} (h : cache.Consistent) {record : CurveRecord}
    {error : FormulaError} (hrejected : rejection? record.text = some error) :
    (ofRecord record cache).result = .error error := by
  rw [result_ofRecord, compileText_of_rejected h hrejected]
  rfl

theorem exists_ofRecord {cache : Cache} (h : cache.Consistent) {record : CurveRecord}
    (haccepted : rejection? record.text = none) :
    ∃ curve, (ofRecord record cache).result = .ok curve ∧ curve.record = record := by
  obtain ⟨made, hmade⟩ := exists_compileText h haccepted
  rw [result_ofRecord, hmade]
  exact ⟨_, rfl, rfl⟩

end Curve

namespace Plot

/-! ## The records before the first that offends -/

/-- Records for which there is room and whose texts are accepted are loaded in their order, and
then loading goes on with those behind them. -/
theorem exists_addAll_front {front : List CurveRecord}
    (haccepted : ∀ record ∈ front, rejection? record.text = none) {plot : Plot} {cache : Cache}
    (h : cache.Consistent) (hroom : plot.curves.length + front.length ≤ plot.limit) :
    ∃ (loaded : Plot) (events : List Event),
      loaded.records = plot.records ++ front ∧ loaded.limit = plot.limit ∧
      ∀ rest, plot.addAll ((front ++ rest).map Curve.ofRecord) cache =
        (loaded.addAll (rest.map Curve.ofRecord)
          (cache.validated (front.map CurveRecord.text))).behind events := by
  induction front generalizing plot cache with
  | nil => exact ⟨plot, [], (List.append_nil _).symm, rfl, fun _ => rfl⟩
  | cons record front ih =>
      rw [List.length_cons] at hroom
      obtain ⟨curve, hcurve, hrecord⟩ := Curve.exists_ofRecord h
        (haccepted record List.mem_cons_self)
      have hlength : (plot.addColored curve).curves.length = plot.curves.length + 1 := by
        simp [addColored]
      have hnext : (plot.addColored curve).curves.length + front.length ≤
          (plot.addColored curve).limit := by
        rw [hlength]
        show _ ≤ plot.limit
        omega
      -- the next record finds the cache as a check of this one's text leaves it
      have hcache := Curve.cache_ofRecord record cache
      obtain ⟨loaded, events, hloaded, hlimit, hrest⟩ := ih
        (fun other hother => haccepted other (List.mem_cons_of_mem _ hother))
        (sound_validate h record.text).consistent hnext
      have hrecords : (plot.addColored curve).records = plot.records ++ [record] := by
        rw [← hrecord]
        simp [records, addColored, Curve.withColor, Curve.record]
      refine ⟨loaded, (Curve.ofRecord record cache).events ++ events, ?_, hlimit, ?_⟩
      · rw [hloaded, hrecords, List.append_assoc]
        rfl
      · intro rest
        have hfree : plot.isFull = false := isFull_eq_false_of_lt (by omega)
        rw [List.cons_append, List.map_cons, addAll_of_ok hfree hcurve, hcache, hrest,
          List.map_cons, Cache.validated_cons]
        simp only [Outcome.behind, List.append_assoc]

/-! ## The first record that offends -/

/-- A record that cannot be loaded: there is no room for it, or its text is refused. -/
def Offends (records : List CurveRecord) (limit i : Nat) : Prop :=
  ∃ record ∈ records[i]?, limit ≤ i ∨ rejection? record.text ≠ none

instance (records : List CurveRecord) (limit i : Nat) : Decidable (Offends records limit i) :=
  inferInstanceAs (Decidable (∃ record ∈ records[i]?, _))

/-- The place of the first record that offends. -/
structure StopsAt (records : List CurveRecord) (limit i : Nat) : Prop where
  offends : Offends records limit i
  first : ∀ j, j < i → ¬ Offends records limit j

namespace StopsAt

variable {records : List CurveRecord} {limit i : Nat}

/-- Before the first record that offends there is room, since a place past the limit has the
limit before it. -/
theorem le_limit (h : StopsAt records limit i) : i ≤ limit := by
  refine Nat.le_of_not_lt ?_
  intro hlt
  obtain ⟨record, hrecord, _⟩ := h.offends
  have hi : i < records.length := (List.getElem?_eq_some_iff.mp hrecord).1
  exact h.first limit hlt
    ⟨_, List.getElem?_eq_getElem (Nat.lt_trans hlt hi), .inl (Nat.le_refl limit)⟩

theorem accepted (h : StopsAt records limit i) :
    ∀ record ∈ records.take i, rejection? record.text = none := by
  intro record hrecord
  obtain ⟨j, hj, hget⟩ := List.mem_take_iff_getElem.mp hrecord
  refine Decidable.not_not.mp ?_
  intro hrejected
  refine h.first j (Nat.lt_of_lt_of_le hj (Nat.min_le_left _ _)) ⟨record, ?_, .inr hrejected⟩
  rw [← hget]
  exact List.getElem?_eq_getElem _

end StopsAt

/-- What loading comes to if it stops at a record, whatever follows it. -/
theorem exists_ofRecords_stopped {records : List CurveRecord} {limit i : Nat}
    (h : StopsAt records limit i) {record : CurveRecord} (hrecord : records[i]? = some record)
    {cache : Cache} (hcache : cache.Consistent) :
    ∃ outcome : Outcome Plot,
      (∀ others, ofRecords (records.take i ++ record :: others) limit cache = outcome) ∧
      (i = limit → outcome.result = .error (.tooManyFunctions limit) ∧
        outcome.cache = cache.validated ((records.take i).map CurveRecord.text)) ∧
      (i ≠ limit → ∃ error, rejection? record.text = some error ∧ outcome.result = .error error ∧
        outcome.cache = cache.validated ((records.take i ++ [record]).map CurveRecord.text)) := by
  have hi : i < records.length := (List.getElem?_eq_some_iff.mp hrecord).1
  have htake : (records.take i).length = i := List.length_take_of_le (Nat.le_of_lt hi)
  have hroom : (withLimit limit).curves.length + (records.take i).length ≤
      (withLimit limit).limit := by
    rw [htake]
    show 0 + i ≤ limit
    rw [Nat.zero_add]
    exact h.le_limit
  obtain ⟨loaded, events, hrecords, hlimit, hrest⟩ := exists_addAll_front h.accepted hcache hroom
  have hlength : loaded.curves.length = i := by
    have hcount := congrArg List.length hrecords
    rw [Plot.records, List.length_map, List.length_append, htake] at hcount
    rw [hcount]
    exact Nat.zero_add i
  have hconsistent := hcache.validated ((records.take i).map CurveRecord.text)
  generalize hleft : cache.validated ((records.take i).map CurveRecord.text) = left
    at hrest hconsistent ⊢
  by_cases hfull : i = limit
  · -- the limit is asked about first, so the text of this record does not matter
    have hisFull : loaded.isFull = true := by
      rw [isFull, hlength, hlimit]
      exact decide_eq_true (Nat.le_of_eq hfull.symm)
    refine ⟨.behind events ⟨.error (.tooManyFunctions loaded.limit), left, []⟩, ?_, ?_,
      fun hne => absurd hfull hne⟩
    · intro others
      rw [ofRecords_eq_addAll, hrest, List.map_cons, addAll_of_isFull hisFull]
    · intro _
      refine ⟨?_, rfl⟩
      rw [hlimit]
      rfl
  · have hfree : loaded.isFull = false := by
      refine isFull_eq_false_of_lt ?_
      rw [hlength, hlimit]
      exact Nat.lt_of_le_of_ne h.le_limit hfull
    have hrejected : rejection? record.text ≠ none := by
      obtain ⟨offender, hoffender, hlate | hrejected⟩ := h.offends
      · exact absurd (Nat.le_antisymm h.le_limit hlate) hfull
      · rw [hrecord] at hoffender
        rw [Option.some.inj hoffender]
        exact hrejected
    obtain ⟨error, herror⟩ := Option.ne_none_iff_exists'.mp hrejected
    have hmake := Curve.ofRecord_of_rejected hconsistent herror
    refine ⟨.behind events ⟨.error error, (Curve.ofRecord record left).cache,
      (Curve.ofRecord record left).events⟩, ?_, fun heq => absurd heq hfull, ?_⟩
    · intro others
      rw [ofRecords_eq_addAll, hrest, List.map_cons, addAll_of_error hfree hmake]
    · intro _
      refine ⟨error, herror, rfl, ?_⟩
      rw [List.map_append, List.map_singleton, Cache.validated_concat, hleft]
      exact Curve.cache_ofRecord record left

/-- Records none of which offends are loaded, all of them. -/
theorem exists_ofRecords_loaded {records : List CurveRecord} {limit : Nat}
    (h : ∀ i, ¬ Offends records limit i) {cache : Cache} (hcache : cache.Consistent) :
    ∃ loaded : Plot, (ofRecords records limit cache).result = .ok loaded ∧
      loaded.records = records ∧
      (ofRecords records limit cache).cache =
        cache.validated (records.map CurveRecord.text) := by
  have haccepted : ∀ record ∈ records, rejection? record.text = none := by
    intro record hrecord
    obtain ⟨i, hi⟩ := List.mem_iff_getElem?.mp hrecord
    refine Decidable.not_not.mp ?_
    intro hrejected
    exact h i ⟨record, hi, .inr hrejected⟩
  have hroom : (withLimit limit).curves.length + records.length ≤ (withLimit limit).limit := by
    show 0 + records.length ≤ limit
    rw [Nat.zero_add]
    refine Nat.le_of_not_lt ?_
    intro hlt
    exact h limit ⟨_, List.getElem?_eq_getElem hlt, .inl (Nat.le_refl _)⟩
  obtain ⟨loaded, events, hrecords, _, hrest⟩ := exists_addAll_front haccepted hcache hroom
  have hall := hrest []
  rw [List.append_nil] at hall
  refine ⟨loaded, ?_, hrecords, ?_⟩
  · rw [ofRecords_eq_addAll, hall]
    rfl
  · rw [ofRecords_eq_addAll, hall]
    rfl

/-! ## Caches that can be met -/

/-- The cache that a session has left after some moves, once requests at once have used it as
well. -/
def cacheAfter (moves : List Move) (actions : List Traffic.Action) : Cache :=
  ((Traffic.mk (History.initial.run moves).session.cache [] []).run actions).cache

theorem consistent_cacheAfter (moves : List Move) (actions : List Traffic.Action) :
    (cacheAfter moves actions).Consistent := by
  obtain ⟨ledger, hledger⟩ := (History.coherent_initial.run moves).session.cache
  have hstart : (Traffic.mk (History.initial.run moves).session.cache [] []).Sound ledger :=
    ⟨hledger, fun _ hcall => by cases hcall⟩
  obtain ⟨longer, _, hsound⟩ := hstart.run actions
  exact ⟨longer, hsound.cache⟩

/-- Loading stops at the first record that offends. If there is none, loading succeeds with one
curve for each record, in order, with its name, text and visibility. If it is the record at the
limit, loading fails for lack of room, even if the text of the record is refused as well, and
otherwise with the error of that text. The cache is left as checking the texts leaves it, up to
the place of the stop and with the record there if it was its text that failed. Records behind
that place make no difference to anything. -/
theorem ofRecords_stops (moves : List Move) (actions : List Traffic.Action)
    (records : List CurveRecord) (limit : Nat) :
    let cache := cacheAfter moves actions
    let outcome := ofRecords records limit cache
    ((∀ i, ¬ Offends records limit i) →
      ∃ loaded : Plot, outcome.result = .ok loaded ∧ loaded.records = records ∧
        outcome.cache = cache.validated (records.map CurveRecord.text)) ∧
    ∀ i, StopsAt records limit i →
      (i = limit → outcome.result = .error (.tooManyFunctions limit) ∧
        outcome.cache = cache.validated ((records.take i).map CurveRecord.text)) ∧
      (i ≠ limit → ∃ record error, records[i]? = some record ∧
        rejection? record.text = some error ∧ outcome.result = .error error ∧
        outcome.cache = cache.validated ((records.take (i + 1)).map CurveRecord.text)) ∧
      ∀ others, ofRecords (records.take (i + 1) ++ others) limit cache = outcome := by
  intro cache outcome
  have hcache : cache.Consistent := consistent_cacheAfter moves actions
  refine ⟨fun hnone => exists_ofRecords_loaded hnone hcache, ?_⟩
  intro i hstops
  obtain ⟨record, hrecord, _⟩ := hstops.offends
  obtain ⟨stopped, hothers, hfull, hrejected⟩ := exists_ofRecords_stopped hstops hrecord hcache
  have htake : records.take (i + 1) = records.take i ++ [record] := by
    rw [List.take_add_one, hrecord]
    rfl
  have hwhole : outcome = stopped := by
    have hsplit := hothers (records.drop (i + 1))
    rw [List.append_cons, ← htake, List.take_append_drop] at hsplit
    exact hsplit
  rw [hwhole, htake]
  refine ⟨hfull, ?_, ?_⟩
  · intro hne
    obtain ⟨error, herror, hresult, hleft⟩ := hrejected hne
    exact ⟨record, error, hrecord, herror, hresult, hleft⟩
  · intro others
    rw [List.append_assoc]
    exact hothers others

/-- The second of three texts cannot be read. -/
def threeRecords : List CurveRecord :=
  [⟨true, "f", "x"⟩, ⟨false, "g", "x +"⟩, ⟨true, "h", "2*x"⟩]

/-- With room for one curve the second record fails for its place, and with room for all of them
for its text. -/
theorem ofRecords_stops_threeRecords :
    let cache := cacheAfter [.perform (.validate "2*x")] [.ask (.ident "x"), .step 0]
    StopsAt threeRecords 1 1 ∧ StopsAt threeRecords 3 1 ∧
      (ofRecords threeRecords 1 cache).result = .error (.tooManyFunctions 1) ∧
      (ofRecords threeRecords 1 cache).cache = cache.validated ["x"] ∧
      (ofRecords threeRecords 3 cache).result = .error (.parse (.endOfText 4)) ∧
      (ofRecords threeRecords 3 cache).cache = cache.validated ["x", "x +"] ∧
      ∃ loaded : Plot, (ofRecords (threeRecords.take 1) 1 cache).result = .ok loaded ∧
        loaded.records = threeRecords.take 1 := by
  intro cache
  have hone : StopsAt threeRecords 1 1 := ⟨by decide +kernel, by decide +kernel⟩
  have hthree : StopsAt threeRecords 3 1 := ⟨by decide +kernel, by decide +kernel⟩
  have hnone : ∀ i, ¬ Offends (threeRecords.take 1) 1 i := by
    intro i
    cases i with
    | zero => decide +kernel
    | succ i =>
        rintro ⟨_, hrecord, _⟩
        cases hrecord
  obtain ⟨hfull, hleft⟩ := ((ofRecords_stops _ _ threeRecords 1).2 1 hone).1 rfl
  obtain ⟨record, error, hrecord, herror, hresult, hcache⟩ :=
    ((ofRecords_stops _ _ threeRecords 3).2 1 hthree).2.1 (by decide)
  obtain ⟨loaded, hloaded, hrecords, _⟩ := (ofRecords_stops _ _ (threeRecords.take 1) 1).1 hnone
  have hend : error = .parse (.endOfText 4) := by
    have hreason : rejection? "x +" = some (.parse (.endOfText 4)) := by decide +kernel
    cases hrecord
    exact Option.some.inj (herror.symm.trans hreason)
  rw [hend] at hresult
  exact ⟨hone, hthree, hfull, hleft, hresult, hcache, loaded, hloaded, hrecords⟩

end Plot

end Graphing
