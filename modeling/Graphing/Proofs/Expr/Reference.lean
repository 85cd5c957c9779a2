import Mathlib.Control.Monad.Basic
import Graphing.Cache.Basic
import Graphing.Proofs.Binary64.Square
import Graphing.Proofs.Expr.Lowering

/-!
# The reference meaning of formulas

`Expr.reference` says on formulas alone what a compiled function has to compute: every
operation as it is written, except that a constant in front of a product or quotient is
worked out first where the rules for products allow it. Whether something is constant is
decided by looking for the variable.

A compiled function computes the reference meaning, operation for operation, so the two
agree bit for bit over any numbers in which squares are products.
-/

namespace Graphing

/-- The operator in front of the rest of a product once the constant `b` in
`a outer (b inner rest)` has been joined with `a`: a division turns it around. -/
def Operator.afterFront (outer inner : Operator) : Operator :=
  if outer = .mul then inner else if inner = .mul then .div else .mul

namespace Expr

variable {α : Type}

/-- The operands of a right operand that is a product or quotient, parentheses aside, if
neither the left operand nor the first of them mentions the variable. -/
def regrouping? (op : Operator) (left right : Expr α) : Option (Operator × Expr α × Expr α) :=
  match right.ungrouped with
  | .binary inner a b =>
      if op.isMultiplicative ∧ left.mentionsVariable = false ∧ inner.isMultiplicative ∧
        a.mentionsVariable = false then some (inner, a, b) else none
  | _ => none

theorem sizeOf_ungrouped_le (e : Expr α) : sizeOf e.ungrouped ≤ sizeOf e := by
  induction e with
  | group inner ih =>
      rw [ungrouped, group.sizeOf_spec]
      omega
  | _ => exact Nat.le_refl _

theorem regrouping?_eq_some {op inner : Operator} {left right a b : Expr α}
    (h : regrouping? op left right = some (inner, a, b)) :
    right.ungrouped = .binary inner a b ∧ op.isMultiplicative = true ∧
      left.mentionsVariable = false ∧ inner.isMultiplicative = true ∧
      a.mentionsVariable = false := by
  unfold regrouping? at h
  split at h
  · rename_i hright
    split at h
    · rename_i hconditions
      cases h
      exact ⟨hright, hconditions⟩
    · cases h
  · cases h

theorem sizeOf_lt_of_regrouping? {op inner : Operator} {left right a b : Expr α}
    (h : regrouping? op left right = some (inner, a, b)) :
    sizeOf a < sizeOf right ∧ sizeOf b < sizeOf right := by
  have hle := right.sizeOf_ungrouped_le
  rw [(regrouping?_eq_some h).1, binary.sizeOf_spec] at hle
  omega

variable [Arithmetic α]

/-- The reference meaning of a formula at a point; there is none if a name has no
meaning. -/
def reference (x : α) (e : Expr α) : Option α :=
  match e with
  | .lit value => some value
  | .ident name => if name = variableName then some x else constant? name
  | .pos operand => operand.reference x
  | .group inner => inner.reference x
  | .neg operand => (operand.reference x).map Arithmetic.neg
  | .call name argument =>
      (Builtin.ofName? name).bind fun function =>
        (argument.reference x).map (Arithmetic.call function)
  | .binary op left right =>
      match h : regrouping? op left right with
      | some (inner, a, b) =>
          have _ := sizeOf_lt_of_regrouping? h
          (left.reference x).bind fun u => (a.reference x).bind fun v =>
            (b.reference x).map fun w =>
              Arithmetic.apply (op.afterFront inner) (Arithmetic.apply op u v) w
      | none =>
          (left.reference x).bind fun u => (right.reference x).map fun v =>
            Arithmetic.apply op u v
  termination_by sizeOf e
  decreasing_by
    all_goals simp only [pos.sizeOf_spec, group.sizeOf_spec, neg.sizeOf_spec, call.sizeOf_spec,
      binary.sizeOf_spec]; omega

theorem afterFront_eq_regroup {outer inner : Operator} (ho : outer.isMultiplicative = true)
    (hi : inner.isMultiplicative = true) :
    outer.afterFront inner = Term.regroup outer inner := by
  cases outer with
  | mul => cases inner <;> rfl
  | div =>
      cases inner with
      | mul => rfl
      | div => rfl
      | _ => simp [Operator.isMultiplicative] at hi
  | _ => simp [Operator.isMultiplicative] at ho

/-- Where the reference meaning regroups a product, lowering does: the constants in front are
joined, and the rest of the product is the other operand. -/
theorem exists_combine_of_regrouping? {op inner : Operator} {left right a b : Expr α}
    {l r : Lowered α} (hl : left.lowered = .ok l) (hr : right.lowered = .ok r)
    (h : regrouping? op left right = some (inner, a, b)) :
    ∃ c d u v, l.term = .const c ∧ a.lowered = .ok u ∧ u.term = .const d ∧ b.lowered = .ok v ∧
      Lowered.combine op l.term r =
        .join (Term.regroup op inner) (.const (Arithmetic.apply op c d)) v.term := by
  obtain ⟨hright, hop, hleft, hinner, hfront⟩ := regrouping?_eq_some h
  -- parentheses vanish in lowering, so the operands of the right side have been lowered
  have hsame := hr
  rw [← lowered_ungrouped, hright] at hsame
  obtain ⟨u, v, hu, hv, _⟩ := lowered_binary_eq_ok_iff.mp hsame
  obtain ⟨c, hc⟩ := exists_term_eq_const hl hleft
  obtain ⟨d, hd⟩ := exists_term_eq_const hu hfront
  have hproduct : r.product = some (inner, .const d, v.term) :=
    (product_eq_some_iff hr).mpr ⟨a, b, u, v, hright, hinner, hu, hv, hd, rfl⟩
  refine ⟨c, d, u, v, hc, hu, hd, hv, ?_⟩
  rw [hc]
  simp only [Lowered.combine, hop, hproduct]

/-- So the value of the joined operands is the one that the reference meaning has. -/
theorem combine_of_regrouping?_eq_some {op inner : Operator} {left right a b : Expr α}
    {l r : Lowered α} (hl : left.lowered = .ok l) (hr : right.lowered = .ok r)
    (h : regrouping? op left right = some (inner, a, b)) :
    ∃ u v, a.lowered = .ok u ∧ b.lowered = .ok v ∧
      ∀ x, (Lowered.combine op l.term r).eval x =
        Arithmetic.apply (op.afterFront inner)
          (Arithmetic.apply op (l.term.eval x) (u.term.eval x)) (v.term.eval x) := by
  obtain ⟨_, hop, _, hinner, _⟩ := regrouping?_eq_some h
  obtain ⟨c, d, u, v, hc, hu, hd, hv, hcombine⟩ := exists_combine_of_regrouping? hl hr h
  refine ⟨u, v, hu, hv, fun x => ?_⟩
  rw [hcombine, Term.eval_join, hc, hd, afterFront_eq_regroup hop hinner]
  rfl

/-- Where it does not, lowering joins the operands as they are. -/
theorem combine_of_regrouping?_eq_none {op : Operator} {left right : Expr α}
    {l r : Lowered α} (hl : left.lowered = .ok l) (hr : right.lowered = .ok r)
    (h : regrouping? op left right = none) :
    Lowered.combine op l.term r = .join op l.term r.term := by
  rcases Lowered.combine_cases op l.term r with
    ⟨c, inner, d, rest, hop, hc, hproduct, _⟩ | ⟨_, hcombine⟩
  · -- the product would have been regrouped
    obtain ⟨a, b, u, v, hright, hinner, ha, _, hu, _⟩ := (product_eq_some_iff hr).mp hproduct
    have hleft := mentionsVariable_of_term_eq_const hl hc
    have hfront := mentionsVariable_of_term_eq_const ha hu
    simp [regrouping?, hright, hop, hleft, hinner, hfront] at h
  · exact hcombine

/-- A term has the reference meaning of the formula that it was lowered from. -/
theorem reference_eq_some_eval (x : α) {e : Expr α} {result : Lowered α}
    (h : e.lowered = .ok result) : e.reference x = some (result.term.eval x) := by
  -- the cases are those of the reference meaning, so a regrouped product has hypotheses for
  -- its three operands
  fun_induction reference x e generalizing result with
  | case1 value =>
      cases h
      rfl
  | case2 =>
      cases h
      rfl
  | case3 name hx =>
      obtain ⟨term, hname, rfl⟩ := lowered_ident_eq_ok_iff.mp h
      rw [lowerName, if_neg hx] at hname
      split at hname
      · rename_i value hvalue
        cases hname
        exact hvalue
      · cases hname
  | case4 operand ih =>
      obtain ⟨inner, hinner, rfl⟩ := lowered_pos_eq_ok_iff.mp h
      rw [ih hinner, Lowered.plain]
  | case5 inner ih => exact ih h
  | case6 operand ih =>
      obtain ⟨inner, hinner, rfl⟩ := lowered_neg_eq_ok_iff.mp h
      rw [ih hinner, Option.map_some, Lowered.plain, Term.eval_negate]
  | case7 name argument ih =>
      obtain ⟨function, inner, hname, hinner, rfl⟩ := lowered_call_eq_ok_iff.mp h
      rw [hname, Option.bind_some, ih hinner, Option.map_some, Lowered.plain,
        Term.eval_applyBuiltin]
  | case8 op left right inner a b hregroup _ ihLeft ihFront ihRest =>
      obtain ⟨l, r, hl, hr, rfl⟩ := lowered_binary_eq_ok_iff.mp h
      obtain ⟨u, v, hu, hv, heval⟩ := combine_of_regrouping?_eq_some hl hr hregroup
      rw [ihLeft hl, Option.bind_some, ihFront hu, Option.bind_some, ihRest hv,
        Option.map_some, Lowered.binary, heval]
  | case9 op left right hregroup ihLeft ihRight =>
      obtain ⟨l, r, hl, hr, rfl⟩ := lowered_binary_eq_ok_iff.mp h
      rw [ihLeft hl, Option.bind_some, ihRight hr, Option.map_some, Lowered.binary,
        combine_of_regrouping?_eq_none hl hr hregroup, Term.eval_join]

theorem reference_eq_some_closure (square : SquaresByProduct α) {e : Expr α} {term : Term α}
    (h : e.lower = .ok term) (x : α) : e.reference x = some (term.closure x) := by
  obtain ⟨result, hresult, rfl⟩ := lower_eq_ok_iff.mp h
  rw [Term.closure_eq_eval square]
  exact reference_eq_some_eval x hresult

/-- What is compiled computes the reference meaning: over any numbers in which squares are
products, the function of a lowered formula does, and so does the artifact of a formula that
is plotted, bit for bit. -/
theorem compiled_eq_reference :
    (∀ (β : Type) [Arithmetic β], SquaresByProduct β → ∀ (e : Expr β) (term : Term β),
      e.lower = .ok term → ∀ x, e.reference x = some (term.closure x)) ∧
    ∀ (formula : Formula) (identity : Nat) (artifact : Artifact),
      formula.compile identity = .ok artifact →
        ∀ x, formula.reference x = some (artifact.function x) := by
  refine ⟨fun β _ square e term h x => reference_eq_some_closure square h x, ?_⟩
  intro formula identity artifact h x
  unfold compile at h
  split at h
  · cases h
  · rename_i term hterm
    cases h
    exact reference_eq_some_closure Binary64.squaresByProduct hterm x

/-- In `2 / (2 / x)` the quotient of the constants is worked out, and it multiplies `x`. -/
theorem compiled_eq_reference_quotient :
    ∃ artifact,
      Expr.compile (.binary .div (.lit Binary64.two)
        (.group (.binary .div (.lit Binary64.two) (.ident "x")))) 0 = .ok artifact ∧
      artifact.term = .binary .mul (.const (.one false)) .var ∧
      ∀ x, Expr.reference x (.binary .div (.lit Binary64.two)
        (.group (.binary .div (.lit Binary64.two) (.ident "x")))) =
          some (artifact.function x) := by
  have h : Expr.compile (.binary .div (.lit Binary64.two)
      (.group (.binary .div (.lit Binary64.two) (.ident "x")))) 0 =
        .ok ⟨0, Expr.fingerprint (.binary .div (.lit Binary64.two)
          (.group (.binary .div (.lit Binary64.two) (.ident "x")))),
            .binary .mul (.const (.one false)) .var⟩ := by
    decide +kernel
  exact ⟨_, h, rfl, compiled_eq_reference.2 _ 0 _ h⟩

end Expr

end Graphing
