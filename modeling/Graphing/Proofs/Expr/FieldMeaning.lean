import Mathlib.Algebra.Field.Basic
import Mathlib.Algebra.Field.Rat
import Mathlib.Control.Monad.Basic
import Graphing.Proofs.Expr.Lowering

/-!
# The meaning of formulas in a field

Over a field the operators are read as mathematics reads them: nothing is rounded, and a
quotient by zero does not exist. `Expr.direct?` evaluates a formula as it is written and has
no value if some divisor on the way is zero.

Lowering works out constants and regroups products before the variable is known. Over a field
neither changes the meaning: where direct evaluation has a value, no division by zero happens
while the formula is lowered or when its function is called, and the function has the same
value.
-/

namespace Graphing

/-- What a field leaves open of the numbers of a formula. Of powers only the square is
fixed. -/
class FieldArithmetic (K : Type) [Field K] where
  pi : K
  e : K
  pow : K → K → K
  mod : K → K → K
  call : Builtin → K → K
  pow_two : ∀ b, pow b 2 = b * b

variable {K : Type} [Field K] [DecidableEq K] [FieldArithmetic K]

/-- Two numbers joined by an operator; there is no quotient by zero. -/
def FieldArithmetic.join? (op : Operator) (u v : K) : Option K :=
  match op with
  | .add => some (u + v)
  | .sub => some (u - v)
  | .mul => some (u * v)
  | .div => if v = 0 then none else some (u / v)
  | .pow => some (pow u v)
  | .mod => some (mod u v)

/-- A field with its total division. -/
instance FieldArithmetic.total : Arithmetic K where
  pi := FieldArithmetic.pi
  e := FieldArithmetic.e
  neg u := -u
  apply
    | .add => fun u v => u + v
    | .sub => fun u v => u - v
    | .mul => fun u v => u * v
    | .div => fun u v => u / v
    | .pow => FieldArithmetic.pow
    | .mod => FieldArithmetic.mod
  call := FieldArithmetic.call
  isTwo u := decide (u = 2)

/-- A field whose quotients by zero are `none`, as is whatever is computed from one. -/
instance FieldArithmetic.checked : Arithmetic (Option K) where
  pi := some FieldArithmetic.pi
  e := some FieldArithmetic.e
  neg := Option.map fun u => -u
  apply op a b := a.bind fun u => b.bind fun v => FieldArithmetic.join? op u v
  call function := Option.map (FieldArithmetic.call function)
  isTwo a := decide (a = some 2)

/-- The formula with other literals. -/
def Expr.map {α β : Type} (f : α → β) : Expr α → Expr β
  | .lit value => .lit (f value)
  | .ident name => .ident name
  | .neg operand => .neg (operand.map f)
  | .pos operand => .pos (operand.map f)
  | .binary op left right => .binary op (left.map f) (right.map f)
  | .call name argument => .call name (argument.map f)
  | .group inner => .group (inner.map f)

/-- The term with other constants. -/
def Term.map {α β : Type} (f : α → β) : Term α → Term β
  | .const value => .const (f value)
  | .var => .var
  | .neg operand => .neg (operand.map f)
  | .binary op left right => .binary op (left.map f) (right.map f)
  | .call function argument => .call function (argument.map f)

def Lowered.map {α β : Type} (f : α → β) (lowered : Lowered α) : Lowered β :=
  ⟨lowered.term.map f, lowered.product.map fun (op, a, b) => (op, a.map f, b.map f)⟩

/-- The value of a formula as it is written. There is none if a name has no meaning or a
divisor is zero. -/
def Expr.direct? (x : K) : Expr K → Option K
  | .lit value => some value
  | .ident name => if name = variableName then some x else constant? name
  | .neg operand => (operand.direct? x).map fun u => -u
  | .pos operand => operand.direct? x
  | .binary op left right =>
      (left.direct? x).bind fun u => (right.direct? x).bind fun v =>
        FieldArithmetic.join? op u v
  | .call name argument =>
      (Builtin.ofName? name).bind fun function =>
        (argument.direct? x).map (FieldArithmetic.call function)
  | .group inner => inner.direct? x

/-! ## The laws of the field -/

namespace FieldArithmetic

theorem apply_eq_of_join? {op : Operator} {u v w : K} (h : join? op u v = some w) :
    Arithmetic.apply op u v = w := by
  cases op with
  | div =>
      simp only [join?] at h
      split at h
      · cases h
      · exact Option.some.inj h
  | _ => exact Option.some.inj h

theorem apply_some (op : Operator) (u v : K) :
    Arithmetic.apply op (some u) (some v) = join? op u v := rfl

theorem join?_div_eq_some_iff {u v w : K} :
    join? .div u v = some w ↔ v ≠ 0 ∧ u / v = w := by
  simp [join?]

theorem squaresByProduct_total : SquaresByProduct K := by
  intro b c htwo
  rw [of_decide_eq_true htwo]
  exact pow_two b

theorem squaresByProduct_checked : SquaresByProduct (Option K) := by
  intro b c htwo
  rw [of_decide_eq_true htwo]
  cases b with
  | none => rfl
  | some b =>
      rw [apply_some, apply_some]
      exact congrArg some (pow_two b)

/-- The four rules for products: if a product with a product on its right has a value, so has
the regrouped one, and it is the same. -/
theorem join?_regroup {op inner : Operator} (hop : op.isMultiplicative = true)
    (hinner : inner.isMultiplicative = true) {a b r p v : K} (hp : join? inner b r = some p)
    (hv : join? op a p = some v) :
    ∃ front, join? op a b = some front ∧
      join? (Term.regroup op inner) front r = some v := by
  cases op with
  | mul =>
      refine ⟨a * b, rfl, ?_⟩
      cases inner with
      | mul =>
          cases hp
          cases hv
          exact congrArg some (mul_assoc a b r)
      | div =>
          obtain ⟨hr, rfl⟩ := join?_div_eq_some_iff.mp hp
          cases hv
          exact join?_div_eq_some_iff.mpr ⟨hr, mul_div_assoc a b r⟩
      | _ => simp [Operator.isMultiplicative] at hinner
  | div =>
      obtain ⟨hne, rfl⟩ := join?_div_eq_some_iff.mp hv
      cases inner with
      | mul =>
          cases hp
          -- both factors of the divisor are divided by, one after the other
          obtain ⟨hb, hr⟩ := mul_ne_zero_iff.mp hne
          exact ⟨a / b, join?_div_eq_some_iff.mpr ⟨hb, rfl⟩,
            join?_div_eq_some_iff.mpr ⟨hr, (div_mul_eq_div_div a b r).symm⟩⟩
      | div =>
          obtain ⟨hr, rfl⟩ := join?_div_eq_some_iff.mp hp
          -- the divisor is a quotient that is not zero, so neither is what stands in front
          obtain ⟨hb, _⟩ := div_ne_zero_iff.mp hne
          refine ⟨a / b, join?_div_eq_some_iff.mpr ⟨hb, rfl⟩, congrArg some ?_⟩
          rw [div_div_eq_mul_div, div_mul_eq_mul_div]
      | _ => simp [Operator.isMultiplicative] at hinner
  | _ => simp [Operator.isMultiplicative] at hop

end FieldArithmetic

/-! ## Terms over checked numbers -/

namespace Term

/-- The value of a term at a point, if no divisor on the way is zero. -/
def checked? (x : K) (t : Term K) : Option K :=
  (t.map some).eval (some x)

theorem eval_of_checked? {x v : K} {t : Term K} (h : t.checked? x = some v) : t.eval x = v := by
  induction t generalizing v with
  | const value => exact Option.some.inj h
  | var => exact Option.some.inj h
  | neg operand ih =>
      obtain ⟨u, hu, rfl⟩ := Option.map_eq_some_iff.mp h
      rw [eval, ih hu]
      rfl
  | binary op left right ihLeft ihRight =>
      obtain ⟨u, hu, hrest⟩ := Option.bind_eq_some_iff.mp h
      obtain ⟨w, hw, happly⟩ := Option.bind_eq_some_iff.mp hrest
      rw [eval, ihLeft hu, ihRight hw]
      exact FieldArithmetic.apply_eq_of_join? happly
  | call function argument ih =>
      obtain ⟨u, hu, rfl⟩ := Option.map_eq_some_iff.mp h
      rw [eval, ih hu]
      rfl

theorem map_negate (t : Term K) : t.negate.map some = (t.map some).negate := by
  cases t <;> rfl

theorem map_applyBuiltin (function : Builtin) (t : Term K) :
    (t.applyBuiltin function).map some = (t.map some).applyBuiltin function := by
  cases t <;> rfl

theorem exists_of_map_eq_const {α β : Type} {f : α → β} {t : Term α} {c : β}
    (h : t.map f = .const c) : ∃ a, t = .const a := by
  cases t with
  | const a => exact ⟨a, rfl⟩
  | _ => cases h

/-- Constants are worked out in the same way over checked numbers as long as the result
exists. -/
theorem map_join {op : Operator} {x u w v : K} {l r : Term K} (hl : l.checked? x = some u)
    (hr : r.checked? x = some w) (hv : FieldArithmetic.join? op u w = some v) :
    (join op l r).map some = join op (l.map some) (r.map some) := by
  cases l with
  | const a =>
      cases r with
      | const b =>
          cases hl
          cases hr
          simp only [join, map, FieldArithmetic.apply_some, hv,
            FieldArithmetic.apply_eq_of_join? hv]
      | _ => rfl
  | _ => rfl

theorem checked?_join {op : Operator} {x u w v : K} {l r : Term K} (hl : l.checked? x = some u)
    (hr : r.checked? x = some w) (hv : FieldArithmetic.join? op u w = some v) :
    (join op l r).checked? x = some v := by
  rw [checked?, map_join hl hr hv, eval_join, ← checked?, ← checked?, hl, hr]
  exact hv

end Term

namespace Lowered

/-- A lowered formula has a value at a point: its term has it, and the product beside the
term has it too. -/
structure HasValue (x v : K) (lowered : Lowered K) : Prop where
  term : lowered.term.checked? x = some v
  product : ∀ {op a b}, lowered.product = some (op, a, b) → op.isMultiplicative = true ∧
    ∃ u w, a.checked? x = some u ∧ b.checked? x = some w ∧
      FieldArithmetic.join? op u w = some v

theorem HasValue.plain {x v : K} {t : Term K} (h : t.checked? x = some v) :
    (plain t).HasValue x v :=
  ⟨h, fun hproduct => by cases hproduct⟩

/-- Joining two operands keeps the value, and is the same over checked numbers. -/
theorem HasValue.combine {op : Operator} {x u w v : K} {l : Term K} {r : Lowered K}
    (hl : l.checked? x = some u) (hr : r.HasValue x w)
    (hv : FieldArithmetic.join? op u w = some v) :
    (combine op l r).map some = combine op (l.map some) (r.map some) ∧
      (combine op l r).checked? x = some v := by
  rcases combine_cases op l r with
    ⟨a, inner, b, rest, hop, rfl, hproduct, hcombine⟩ | ⟨hne, hcombine⟩
  · obtain ⟨hinner, b', q, hb, hq, hp⟩ := hr.product hproduct
    cases hl
    cases hb
    obtain ⟨front, hfront, hregrouped⟩ := FieldArithmetic.join?_regroup hop hinner hp hv
    have hconst : (Term.const front).checked? x = some front := rfl
    rw [hcombine, FieldArithmetic.apply_eq_of_join? hfront, Term.map_join hconst hq hregrouped]
    refine ⟨?_, Term.checked?_join hconst hq hregrouped⟩
    simp only [Lowered.combine, hop, map, hproduct, Option.map_some, Term.map,
      FieldArithmetic.apply_some, hfront]
  · rw [hcombine, Term.map_join hl hr.term hv]
    refine ⟨?_, Term.checked?_join hl hr.term hv⟩
    rcases combine_cases op (l.map some) (r.map some) with
      ⟨a, inner, b, rest, hop, hl', hproduct, _⟩ | ⟨_, hsame⟩
    · -- constants are where they were before, so nothing is regrouped here either
      obtain ⟨a', rfl⟩ := Term.exists_of_map_eq_const hl'
      obtain ⟨⟨inner', b', rest'⟩, hproduct', heq⟩ := Option.map_eq_some_iff.mp hproduct
      simp only [Prod.mk.injEq] at heq
      obtain ⟨b'', rfl⟩ := Term.exists_of_map_eq_const heq.2.1
      exact absurd hproduct' (hne a' inner' b'' rest' hop rfl)
    · exact hsame.symm

end Lowered

namespace Expr

theorem constant?_checked (name : String) :
    (constant? name : Option (Option K)) = (constant? name : Option K).map some := by
  unfold constant?
  split
  · rfl
  · split
    · rfl
    · rfl

/-- A value of direct evaluation is kept by lowering, and lowering over checked numbers gives
the same term. -/
theorem lowered_of_direct? {x v : K} {e : Expr K} {result : Lowered K}
    (h : e.lowered = .ok result) (hv : e.direct? x = some v) :
    (e.map some).lowered = .ok (result.map some) ∧ result.HasValue x v := by
  induction e generalizing v result with
  | lit value =>
      cases h
      exact ⟨rfl, .plain hv⟩
  | ident name =>
      obtain ⟨term, hname, rfl⟩ := lowered_ident_eq_ok_iff.mp h
      unfold lowerName at hname
      rw [direct?] at hv
      rw [map, lowered, lowerName]
      split at hname
      · rename_i hx
        cases hname
        rw [if_pos hx] at hv ⊢
        exact ⟨rfl, .plain hv⟩
      · rename_i hx
        rw [if_neg hx] at hv ⊢
        rw [hv] at hname
        cases hname
        rw [constant?_checked, hv]
        exact ⟨rfl, .plain rfl⟩
  | neg operand ih =>
      obtain ⟨inner, hinner, rfl⟩ := lowered_neg_eq_ok_iff.mp h
      obtain ⟨u, hu, rfl⟩ := Option.map_eq_some_iff.mp hv
      obtain ⟨hsame, hvalue⟩ := ih hinner hu
      refine ⟨lowered_neg_eq_ok_iff.mpr ⟨_, hsame, ?_⟩, .plain ?_⟩
      · rw [Lowered.map, Lowered.plain, Term.map_negate]
        rfl
      · rw [Term.checked?, Term.map_negate, Term.eval_negate, ← Term.checked?, hvalue.term]
        rfl
  | pos operand ih =>
      obtain ⟨inner, hinner, rfl⟩ := lowered_pos_eq_ok_iff.mp h
      obtain ⟨hsame, hvalue⟩ := ih hinner hv
      exact ⟨lowered_pos_eq_ok_iff.mpr ⟨_, hsame, rfl⟩, .plain hvalue.term⟩
  | call name argument ih =>
      obtain ⟨function, inner, hname, hinner, rfl⟩ := lowered_call_eq_ok_iff.mp h
      rw [direct?, hname, Option.bind_some] at hv
      obtain ⟨u, hu, rfl⟩ := Option.map_eq_some_iff.mp hv
      obtain ⟨hsame, hvalue⟩ := ih hinner hu
      refine ⟨lowered_call_eq_ok_iff.mpr ⟨function, _, hname, hsame, ?_⟩, .plain ?_⟩
      · rw [Lowered.map, Lowered.plain, Term.map_applyBuiltin]
        rfl
      · rw [Term.checked?, Term.map_applyBuiltin, Term.eval_applyBuiltin, ← Term.checked?,
          hvalue.term]
        rfl
  | group inner ih => exact ih h hv
  | binary op left right ihLeft ihRight =>
      obtain ⟨l, r, hl, hr, rfl⟩ := lowered_binary_eq_ok_iff.mp h
      obtain ⟨u, hu, hrest⟩ := Option.bind_eq_some_iff.mp hv
      obtain ⟨w, hw, happly⟩ := Option.bind_eq_some_iff.mp hrest
      obtain ⟨hsameLeft, hleft⟩ := ihLeft hl hu
      obtain ⟨hsameRight, hright⟩ := ihRight hr hw
      obtain ⟨hcombine, hvalue⟩ := Lowered.HasValue.combine hleft.term hright happly
      refine ⟨lowered_binary_eq_ok_iff.mpr ⟨_, _, hsameLeft, hsameRight, ?_⟩, hvalue, ?_⟩
      · rw [Lowered.binary, Lowered.map, hcombine]
        cases op <;> rfl
      · intro op' a b hproduct
        simp only [Lowered.binary] at hproduct
        split at hproduct
        · rename_i hop
          cases hproduct
          exact ⟨hop, u, w, hleft.term, hright.term, happly⟩
        · cases hproduct

/-- Working out constants and regrouping products preserve the meaning of a formula: where
direct evaluation divides by no zero, the function of the lowered formula has the same value.
It divides by no zero either, and neither did lowering. -/
theorem closure_eq_direct {e : Expr K} {term : Term K} (h : e.lower = .ok term) {x v : K}
    (hv : e.direct? x = some v) :
    term.closure x = v ∧ (term.map some).closure (some x) = some v ∧
      (e.map some).lower = .ok (term.map some) := by
  obtain ⟨result, hresult, rfl⟩ := lower_eq_ok_iff.mp h
  obtain ⟨hsame, hvalue⟩ := lowered_of_direct? hresult hv
  refine ⟨?_, ?_, lower_eq_ok_iff.mpr ⟨_, hsame, rfl⟩⟩
  · rw [Term.closure_eq_eval FieldArithmetic.squaresByProduct_total]
    exact Term.eval_of_checked? hvalue.term
  · rw [Term.closure_eq_eval FieldArithmetic.squaresByProduct_checked]
    exact hvalue.term

/-- The rational numbers with whole powers; the functions are left out. -/
instance : FieldArithmetic ℚ where
  pi := 22 / 7
  e := 19 / 7
  pow b c := b ^ c.num
  mod u v := u - v * (u / v).floor
  call _ u := u
  pow_two b := zpow_two b

/-- `6 / (3 / (x - 1))` is lowered to `2 * (x - 1)`, and both are `4` at `3`. -/
theorem closure_eq_direct_quotient :
    (Term.binary .mul (.const 2) (.binary .sub .var (.const 1)) : Term ℚ).closure 3 = 4 ∧
    (Term.binary .mul (.const (some 2)) (.binary .sub .var (.const (some 1))) :
      Term (Option ℚ)).closure (some 3) = some 4 ∧
    ((Expr.binary .div (.lit 6) (.group (.binary .div (.lit 3)
      (.group (.binary .sub (.ident "x") (.lit 1))))) : Expr ℚ).map some).lower =
        .ok (.binary .mul (.const (some 2)) (.binary .sub .var (.const (some 1)))) :=
  closure_eq_direct (by decide +kernel) (by decide +kernel)

end Expr

end Graphing
