import Graphing.Proofs.Binary64.Alike
import Graphing.Proofs.Cache.Ledger
import Graphing.Proofs.Expr.Grouping

/-!
# A number in place of the variable

Putting a number in place of the variable makes a whole formula known beforehand, and all of its
products are regrouped then, also those that are not regrouped as long as the variable
stands in front. So the new formula always compiles, and what it computes is the meaning of
the old one with every product joined (`function_substitute`). That is what the old one
computes at the number, bit for bit, if those products have the same value either way.
-/

namespace Graphing

namespace Expr

variable {α : Type}

/-- The formula with a number in place of the variable. -/
@[simp] def substitute (c : α) : Expr α → Expr α
  | .lit value => .lit value
  | .ident name => if name = variableName then .lit c else .ident name
  | .pos operand => .pos (operand.substitute c)
  | .group inner => .group (inner.substitute c)
  | .neg operand => .neg (operand.substitute c)
  | .call name argument => .call name (argument.substitute c)
  | .binary op left right => .binary op (left.substitute c) (right.substitute c)

/-- Every product is joined. -/
def always (_ _ : Expr α) : Bool := true

theorem mentionsVariable_substitute (c : α) (e : Expr α) :
    (e.substitute c).mentionsVariable = false := by
  induction e with
  | lit value => rfl
  | ident name =>
      rw [substitute]
      split
      · rfl
      · rename_i hx
        exact beq_eq_false_iff_ne.mpr hx
  | pos operand ih => exact ih
  | group inner ih => exact ih
  | neg operand ih => exact ih
  | call name argument ih => exact ih
  | binary op left right ihLeft ihRight =>
      rw [substitute, mentionsVariable, ihLeft, ihRight]
      rfl

theorem ungrouped_substitute (c : α) (e : Expr α) :
    (e.substitute c).ungrouped = e.ungrouped.substitute c := by
  induction e with
  | group inner ih => exact ih
  | ident name => by_cases hx : name = variableName <;> simp [hx, ungrouped]
  | _ => rfl

theorem product?_substitute (c : α) (op : Operator) (right : Expr α) :
    product? op (right.substitute c) =
      (product? op right).map fun (inner, a, b) => (inner, a.substitute c, b.substitute c) := by
  unfold product?
  rw [ungrouped_substitute]
  generalize right.ungrouped = operand
  cases operand with
  | binary inner a b =>
      simp only [substitute]
      split <;> rfl
  | ident name => by_cases hx : name = variableName <;> simp [hx]
  | _ => rfl

/-- Where the variable is replaced, everything is known, and every product is joined. -/
theorem joining?_substitute (c : α) (op : Operator) (left right : Expr α) :
    joining? known op (left.substitute c) (right.substitute c) =
      (joining? always op left right).map fun (inner, a, b) =>
        (inner, a.substitute c, b.substitute c) := by
  unfold joining?
  rw [product?_substitute]
  cases product? op right with
  | none => rfl
  | some parts => simp [Option.filter, known, always, mentionsVariable_substitute]

variable [Arithmetic α]

/-- What a formula computes with a number in place of the variable. -/
theorem reference_substitute (c y : α) (e : Expr α) :
    (e.substitute c).reference y = e.grouped always c := by
  rw [reference_eq_grouped]
  fun_induction grouped always c e with
  | case1 value => rw [substitute, grouped]
  | case2 => rw [substitute, if_pos rfl, grouped]
  | case3 name hx => rw [substitute, if_neg hx, grouped, if_neg hx]
  | case4 operand ih => rw [substitute, grouped, ih]
  | case5 inner ih => rw [substitute, grouped, ih]
  | case6 operand ih => rw [substitute, grouped, ih]
  | case7 name argument ih => rw [substitute, grouped, ih]
  | case8 op left right inner a b h _ ihLeft ihFront ihRest =>
      have hjoined := joining?_substitute c op left right
      rw [h] at hjoined
      rw [substitute, grouped_of_joining?_eq_some hjoined, ihLeft, ihFront, ihRest]
  | case9 op left right h ihLeft ihRight =>
      have hapart := joining?_substitute c op left right
      rw [h] at hapart
      rw [substitute, grouped_of_joining?_eq_none hapart, ihLeft, ihRight]

/-- What compiles still compiles. -/
theorem exists_lowered_substitute (c : α) {e : Expr α} {result : Lowered α}
    (h : e.lowered = .ok result) : ∃ result', (e.substitute c).lowered = .ok result' := by
  induction e generalizing result with
  | lit value => exact ⟨_, rfl⟩
  | ident name =>
      rw [substitute]
      split
      · exact ⟨_, rfl⟩
      · exact ⟨_, h⟩
  | pos operand ih =>
      obtain ⟨inner, hinner, _⟩ := lowered_pos_eq_ok_iff.mp h
      obtain ⟨inner', hinner'⟩ := ih hinner
      exact ⟨_, lowered_pos_eq_ok_iff.mpr ⟨inner', hinner', rfl⟩⟩
  | group inner ih => exact ih h
  | neg operand ih =>
      obtain ⟨inner, hinner, _⟩ := lowered_neg_eq_ok_iff.mp h
      obtain ⟨inner', hinner'⟩ := ih hinner
      exact ⟨_, lowered_neg_eq_ok_iff.mpr ⟨inner', hinner', rfl⟩⟩
  | call name argument ih =>
      obtain ⟨function, inner, hname, hinner, _⟩ := lowered_call_eq_ok_iff.mp h
      obtain ⟨inner', hinner'⟩ := ih hinner
      exact ⟨_, lowered_call_eq_ok_iff.mpr ⟨function, inner', hname, hinner', rfl⟩⟩
  | binary op left right ihLeft ihRight =>
      obtain ⟨l, r, hl, hr, _⟩ := lowered_binary_eq_ok_iff.mp h
      obtain ⟨l', hl'⟩ := ihLeft hl
      obtain ⟨r', hr'⟩ := ihRight hr
      exact ⟨_, lowered_binary_eq_ok_iff.mpr ⟨l', r', hl', hr', rfl⟩⟩

theorem exists_lower_substitute (c : α) {e : Expr α} {term : Term α} (h : e.lower = .ok term) :
    ∃ term', (e.substitute c).lower = .ok term' := by
  obtain ⟨result, hresult, _⟩ := lower_eq_ok_iff.mp h
  obtain ⟨result', hresult'⟩ := exists_lowered_substitute c hresult
  exact ⟨_, lower_eq_ok_iff.mpr ⟨result', hresult', rfl⟩⟩

/-- The function of a formula with a number in place of the variable: at any point it is the
meaning of the formula with every product joined, and that is the function of the formula at the
number if it makes no difference to the formula which products are joined. -/
theorem closure_substitute (square : SquaresByProduct α) {e : Expr α} {term : Term α}
    (h : e.lower = .ok term) (c : α) {term' : Term α} (h' : (e.substitute c).lower = .ok term')
    (y : α) :
    e.grouped always c = some (term'.closure y) ∧
      (Indifferent known always c e → term'.closure y = term.closure c) := by
  have hvalue : e.grouped always c = some (term'.closure y) := by
    rw [← reference_substitute c y]
    exact reference_eq_some_closure square h' y
  refine ⟨hvalue, ?_⟩
  intro hsame
  have hle : ∀ left front : Expr α, known left front = true → always left front = true :=
    fun _ _ _ => rfl
  have hgrouped := grouped_eq_of_indifferent hle hsame
  rw [← reference_eq_grouped, reference_eq_some_closure square h c, hvalue] at hgrouped
  exact Option.some.inj hgrouped

/-- A formula that compiles still compiles with a number in place of the variable. What it
computes then, at any point, is the meaning of the formula at the number with every product
joined, and it is what the formula computes at the number, bit for bit, if the products that are
not joined in the formula have the same value when they are. This holds over any numbers in
which squares are products, and of the artifacts of formulas that are plotted. -/
theorem function_substitute {β : Type} [Arithmetic β] (square : SquaresByProduct β) (e : Expr β)
    (c : β) :
    (∀ term, e.lower = .ok term → ∃ term', (e.substitute c).lower = .ok term' ∧
      ∀ y, e.grouped always c = some (term'.closure y) ∧
        (Indifferent known always c e → term'.closure y = term.closure c)) ∧
    ∀ (formula : Formula) (identity identity' : Nat) (artifact : Artifact),
      formula.compile identity = .ok artifact → ∀ c, ∃ artifact',
        (formula.substitute c).compile identity' = .ok artifact' ∧
        ∀ y, formula.grouped always c = some (artifact'.function y) ∧
          (Indifferent known always c formula →
            artifact'.function y = artifact.function c) := by
  constructor
  · intro term h
    obtain ⟨term', h'⟩ := exists_lower_substitute c h
    exact ⟨term', h', closure_substitute square h c h'⟩
  · intro formula identity identity' artifact h c
    have hterm := (compile_eq_ok_iff.mp h).1
    obtain ⟨term', hterm'⟩ := exists_lower_substitute c hterm
    refine ⟨⟨identity', (formula.substitute c).fingerprint, term'⟩,
      compile_eq_ok_iff.mpr ⟨hterm', rfl, rfl⟩, ?_⟩
    exact closure_substitute Binary64.squaresByProduct hterm c hterm'

end Expr

/-- The number `5`. -/
def Binary64.five : Binary64 := ⟨0x4014000000000000⟩

namespace Expr

/-- `x * (2 * x)` -/
def twiceSquared : Formula :=
  .binary .mul (.ident "x") (.group (.binary .mul (.lit Binary64.two) (.ident "x")))

/-- The products of `x * (2 * x)` are not joined, and those of `5 * (2 * 5)` are, but both are
`50`. -/
theorem function_substitute_twiceSquared :
    ∃ artifact artifact', twiceSquared.compile 0 = .ok artifact ∧
      artifact.term = .binary .mul .var (.binary .mul (.const Binary64.two) .var) ∧
      (twiceSquared.substitute Binary64.five).compile 1 = .ok artifact' ∧
      ∀ y, artifact'.function y = artifact.function Binary64.five := by
  have hcompile : twiceSquared.compile 0 = .ok ⟨0, twiceSquared.fingerprint,
      .binary .mul .var (.binary .mul (.const Binary64.two) .var)⟩ := by
    decide +kernel
  have hfunction := reference_eq_some_closure Binary64.squaresByProduct
    (compile_eq_ok_iff.mp hcompile).1 Binary64.five
  have hvariable : (Expr.ident "x" : Formula).grouped known Binary64.five =
      some Binary64.five := by
    rw [grouped, variableName, if_pos rfl]
  have hsame : Indifferent known always Binary64.five twiceSquared := by
    refine .joined rfl (.ident _) (.lit _) (.ident _) ?_
    intro _
    show _ = twiceSquared.grouped known Binary64.five
    rw [← reference_eq_grouped _ twiceSquared, hfunction, hvariable, grouped]
    decide +kernel
  obtain ⟨artifact', hcompile', hvalue⟩ := (function_substitute Binary64.squaresByProduct
    twiceSquared Binary64.five).2 _ 0 1 _ hcompile Binary64.five
  exact ⟨_, artifact', hcompile, rfl, hcompile', fun y => (hvalue y).2 hsame⟩

/-- `x / (3 * x)` -/
def third : Formula :=
  .binary .div (.ident "x")
    (.group (.binary .mul (.lit ⟨0x4008000000000000⟩) (.ident "x")))

/-- A number in place of the variable can make a difference in the last digit: `x / (3 * x)` is
divided as it is written, and `5 / (3 * 5)` is `(5 / 3) / 5`. -/
theorem substitution_changes_last_digit :
    ∃ artifact artifact', third.compile 0 = .ok artifact ∧
      (third.substitute Binary64.five).compile 1 = .ok artifact' ∧
      ∀ y, ¬(artifact'.function y).Alike (artifact.function Binary64.five) := by
  refine ⟨⟨0, third.fingerprint,
    .binary .div .var (.binary .mul (.const ⟨0x4008000000000000⟩) .var)⟩,
    ⟨1, (third.substitute Binary64.five).fingerprint, .const ⟨0x3fd5555555555556⟩⟩, ?_, ?_, ?_⟩
  · decide +kernel
  · decide +kernel
  · intro y
    show ¬(_ ∨ _)
    rw [not_or]
    constructor
    · show (⟨0x3fd5555555555556⟩ : Binary64) ≠ _
      decide +kernel
    · rintro ⟨hnan, _⟩
      cases hnan

end Expr

end Graphing
