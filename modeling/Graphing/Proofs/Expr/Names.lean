import Mathlib.Control.Monad.Basic
import Graphing.Proofs.Expr.Acceptance
import Graphing.Proofs.Expr.Lowering

/-!
# Names without a meaning

`Expr.mentions` lists the names of a formula in the order in which they are written, and
`Mention.isKnown` says which of them have a meaning, without a look at how lowering finds it.
The error of lowering is that of the first name that has none, and there is no error if all
have one (`lowerError?_eq`): the errors of two operands are combined as the searches through
their names are. Regrouping looks at the parts of a right operand one by one, but never before
all of them have been lowered, so it does not show here.

Of a formula that was read from a text every called name is known.
-/

namespace Graphing

/-- A name as it is written, by itself or in front of an argument. -/
inductive Mention where
  | symbol (name : String)
  | function (name : String)
  deriving DecidableEq

namespace Mention

/-- Whether a name has a meaning: `x` and `e` as they are, and `pi` and the built-in functions
in any mixture of capitals and small letters. -/
def isKnown : Mention → Bool
  | .symbol name => name == "x" || name == "e" || Text.equalIgnoringCase name "pi"
  | .function name => Builtin.all.any fun function => Text.equalIgnoringCase function.name name

/-- What is wrong with a name that has no meaning. -/
def error : Mention → CompileError
  | .symbol name => .unknownSymbol name
  | .function name => .unknownFunction name

theorem isKnown_function (name : String) :
    (Mention.function name).isKnown = (Builtin.ofName? name).isSome := by
  rw [isKnown, Builtin.ofName?, List.isSome_find?]

theorem isKnown_function_of_named {name : String} (h : Builtin.Named name) :
    (Mention.function name).isKnown = true := by
  rw [isKnown_function, Builtin.ofName?_isSome_iff]
  exact h

/-- The error of the first name that has no meaning. -/
def firstError? (mentions : List Mention) : Option CompileError :=
  (mentions.find? fun mention => !mention.isKnown).map error

theorem firstError?_append (before after : List Mention) :
    firstError? (before ++ after) = (firstError? before).or (firstError? after) := by
  rw [firstError?, List.find?_append]
  cases hbefore : before.find? fun mention => !mention.isKnown with
  | none => simp [firstError?, hbefore]
  | some mention => simp [firstError?, hbefore]

theorem firstError?_eq_none_iff {mentions : List Mention} :
    firstError? mentions = none ↔ ∀ mention ∈ mentions, mention.isKnown = true := by
  simp [firstError?]

theorem firstError?_eq_some_iff {mentions : List Mention} {error : CompileError} :
    firstError? mentions = some error ↔
      ∃ before mention after, mentions = before ++ mention :: after ∧
        (∀ other ∈ before, other.isKnown = true) ∧ mention.isKnown = false ∧
        error = mention.error := by
  rw [firstError?, Option.map_eq_some_iff]
  constructor
  · rintro ⟨mention, hfind, rfl⟩
    obtain ⟨hunknown, before, after, hsplit, hbefore⟩ := List.find?_eq_some_iff_append.mp hfind
    refine ⟨before, mention, after, hsplit, ?_, by simpa using hunknown, rfl⟩
    intro other hother
    simpa using hbefore other hother
  · rintro ⟨before, mention, after, hsplit, hbefore, hunknown, rfl⟩
    refine ⟨mention, List.find?_eq_some_iff_append.mpr ⟨?_, before, after, hsplit, ?_⟩, rfl⟩
    · rw [hunknown]
      rfl
    · intro other hother
      rw [hbefore other hother]
      rfl

end Mention

namespace Expr

variable {α : Type}

/-- The names of a formula from left to right, a called name before those of its argument. -/
def mentions : Expr α → List Mention
  | .lit _ => []
  | .ident name => [.symbol name]
  | .neg operand => operand.mentions
  | .pos operand => operand.mentions
  | .binary _ left right => left.mentions ++ right.mentions
  | .call name argument => .function name :: argument.mentions
  | .group inner => inner.mentions

theorem mem_calledNames_of_mem_mentions {e : Expr α} {name : String}
    (h : Mention.function name ∈ e.mentions) : name ∈ e.calledNames := by
  induction e with
  | lit value => cases h
  | ident other =>
      cases List.mem_singleton.mp h
  | neg operand ih => exact ih h
  | pos operand ih => exact ih h
  | group inner ih => exact ih h
  | call other argument ih =>
      rcases List.mem_cons.mp h with hname | hargument
      · cases hname
        exact List.mem_cons_self
      · exact List.mem_cons_of_mem _ (ih hargument)
  | binary op left right ihLeft ihRight =>
      rcases List.mem_append.mp h with hleft | hright
      · exact List.mem_append_left _ (ihLeft hleft)
      · exact List.mem_append_right _ (ihRight hright)

variable [Arithmetic α]

/-- The error of lowering, if there is one. -/
def lowerError? (e : Expr α) : Option CompileError :=
  match e.lowered with
  | .error error => some error
  | .ok _ => none

theorem lowerError?_ident (name : String) :
    (Expr.ident name : Expr α).lowerError? = Mention.firstError? [.symbol name] := by
  unfold lowerError?
  rw [lowered, lowerName, variableName]
  by_cases hx : name = "x"
  · simp [Mention.firstError?, Mention.isKnown, hx]
  · rw [if_neg hx, constant?]
    by_cases he : name = "e"
    · simp [Mention.firstError?, Mention.isKnown, he]
    · rw [if_neg he]
      cases hpi : Text.equalIgnoringCase name "pi" with
      | true => simp [Mention.firstError?, Mention.isKnown, hpi]
      | false => simp [Mention.firstError?, Mention.isKnown, Mention.error, hx, he, hpi]

/-- The error of lowering is that of the first name without a meaning. -/
theorem lowerError?_eq (e : Expr α) : e.lowerError? = Mention.firstError? e.mentions := by
  induction e with
  | lit value => rfl
  | ident name => exact lowerError?_ident name
  | group inner ih => exact ih
  | neg operand ih =>
      rw [mentions, ← ih]
      unfold lowerError?
      rw [lowered]
      cases operand.lowered <;> rfl
  | pos operand ih =>
      rw [mentions, ← ih]
      unfold lowerError?
      rw [lowered]
      cases operand.lowered <;> rfl
  | call name argument ih =>
      rw [mentions, ← List.singleton_append, Mention.firstError?_append, ← ih]
      unfold lowerError?
      rw [lowered]
      have hknown := Mention.isKnown_function name
      cases hname : Builtin.ofName? name with
      | none => 
          rw [hname] at hknown
          simp [Mention.firstError?, hknown, Mention.error]
      | some function =>
          rw [hname] at hknown
          simp only [Mention.firstError?, List.find?, hknown]
          cases argument.lowered <;> rfl
  | binary op left right ihLeft ihRight =>
      rw [mentions, Mention.firstError?_append, ← ihLeft, ← ihRight]
      unfold lowerError?
      rw [lowered]
      cases left.lowered with
      | error error => rfl
      | ok l => cases right.lowered <;> rfl

theorem lower_eq_error_iff {e : Expr α} {error : CompileError} :
    e.lower = .error error ↔ Mention.firstError? e.mentions = some error := by
  rw [← lowerError?_eq, lowerError?, lower]
  cases e.lowered <;> simp

theorem exists_lower_eq_error_iff {e : Expr α} :
    (∃ error, e.lower = .error error) ↔ ∃ mention ∈ e.mentions, mention.isKnown = false := by
  constructor
  · rintro ⟨error, herror⟩
    obtain ⟨before, mention, after, hsplit, _, hunknown, _⟩ :=
      Mention.firstError?_eq_some_iff.mp (lower_eq_error_iff.mp herror)
    rw [hsplit]
    exact ⟨mention, List.mem_append_right _ List.mem_cons_self, hunknown⟩
  · rintro ⟨mention, hmention, hunknown⟩
    cases hfirst : Mention.firstError? e.mentions with
    | none =>
        have hknown := Mention.firstError?_eq_none_iff.mp hfirst mention hmention
        rw [hunknown] at hknown
        cases hknown
    | some error => exact ⟨error, lower_eq_error_iff.mpr hfirst⟩

/-- The parser has refused unknown functions already. -/
theorem isKnown_function_of_parse {text : String} {e : Formula} (h : parse text = .ok e)
    {name : String} (hname : Mention.function name ∈ e.mentions) :
    (Mention.function name).isKnown = true := by
  obtain ⟨_, tokens, _, hreads⟩ := parse_eq_ok_iff_reads.mp h
  exact Mention.isKnown_function_of_named
    (hreads.named name (mem_calledNames_of_mem_mentions hname))

/-- Lowering rejects exactly the names without a meaning and reports the first of them. It fails
if and only if the formula has such a name; its error is that of the first one from left to
right, spelled as it is written; and if the formula was read from a text, the name is never that
of a function. -/
theorem lower_rejects_first_unknown (e : Formula) :
    ((∃ error, e.lower = .error error) ↔ ∃ mention ∈ e.mentions, mention.isKnown = false) ∧
    (∀ error, e.lower = .error error ↔
      ∃ before mention after, e.mentions = before ++ mention :: after ∧
        (∀ other ∈ before, other.isKnown = true) ∧ mention.isKnown = false ∧
        error = mention.error) ∧
    ∀ text, parse text = .ok e → ∀ name, e.lower ≠ .error (.unknownFunction name) := by
  have hfirst : ∀ error, e.lower = .error error ↔
      ∃ before mention after, e.mentions = before ++ mention :: after ∧
        (∀ other ∈ before, other.isKnown = true) ∧ mention.isKnown = false ∧
        error = mention.error := by
    intro error
    rw [lower_eq_error_iff, Mention.firstError?_eq_some_iff]
  refine ⟨exists_lower_eq_error_iff, hfirst, ?_⟩
  intro text hparse name herror
  obtain ⟨before, mention, after, hsplit, _, hunknown, hsame⟩ := (hfirst _).mp herror
  cases mention with
  | symbol other => cases hsame
  | function other =>
      have hmem : Mention.function other ∈ e.mentions := by
        rw [hsplit]
        exact List.mem_append_right _ List.mem_cons_self
      rw [isKnown_function_of_parse hparse hmem] at hunknown
      cases hunknown

/-- In `2 * (PI * SQRT(Y)) - z` the capitals of a constant and of a function do not matter, and
those of `Y` are kept in the error. -/
theorem lower_rejects_first_unknown_capitals :
    ∃ e : Formula, parse "2 * (PI * SQRT(Y)) - z" = .ok e ∧
      e.mentions = [.symbol "PI", .function "SQRT", .symbol "Y", .symbol "z"] ∧
      e.lower = .error (.unknownSymbol "Y") ∧
      ∀ name, e.lower ≠ .error (.unknownFunction name) := by
  have hparse : parse "2 * (PI * SQRT(Y)) - z" =
      .ok (.binary .sub (.binary .mul (.lit Binary64.two)
        (.group (.binary .mul (.ident "PI") (.call "SQRT" (.ident "Y"))))) (.ident "z")) := by
    decide +kernel
  refine ⟨_, hparse, rfl, ?_, (lower_rejects_first_unknown _).2.2 _ hparse⟩
  refine ((lower_rejects_first_unknown _).2.1 _).mpr
    ⟨[.symbol "PI", .function "SQRT"], .symbol "Y", [.symbol "z"], rfl, ?_, ?_, rfl⟩
  · decide +kernel
  · decide +kernel

end Expr

end Graphing
