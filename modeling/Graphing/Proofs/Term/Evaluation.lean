import Graphing.Term.Closure
import Graphing.Term.Lowering

/-!
# Evaluating terms

Two families of facts, over any kind of number:

* the constructors that work out constants have the value of the plain ones;
* the function that is built from a term computes the term's value, whichever shapes of
  operands were singled out for it (`closure_eq_eval`). The one rewrite among these is the
  square, so the only law that is asked of the numbers is `SquaresByProduct`.
-/

namespace Graphing

/-- To the power of two is times itself. -/
def SquaresByProduct (α : Type) [Arithmetic α] : Prop :=
  ∀ b c : α, Arithmetic.isTwo c = true →
    Arithmetic.apply .pow b c = Arithmetic.apply .mul b b

namespace Term

variable {α : Type} [Arithmetic α]

/-! ## Constants worked out -/

@[simp] theorem eval_negate (x : α) (t : Term α) :
    t.negate.eval x = Arithmetic.neg (t.eval x) := by
  cases t <;> rfl

@[simp] theorem eval_applyBuiltin (x : α) (function : Builtin) (t : Term α) :
    (t.applyBuiltin function).eval x = Arithmetic.call function (t.eval x) := by
  cases t <;> rfl

@[simp] theorem eval_join (x : α) (op : Operator) (l r : Term α) :
    (join op l r).eval x = Arithmetic.apply op (l.eval x) (r.eval x) := by
  cases l with
  | const a => cases r <;> rfl
  | _ => rfl

/-! ## Functions -/

theorem joinShapes_eq {f : α → α → α} {left right : Term α} {l r : α → α} {x : α}
    (hl : l x = left.eval x) (hr : r x = right.eval x) :
    joinShapes f left right l r x = f (left.eval x) (right.eval x) := by
  rw [← hl, ← hr]
  unfold joinShapes
  split
  · rw [hl, hr]
    rfl
  · rw [hl, hr]
    rfl
  · rw [hl, hr]
    rfl
  · rw [hl]
    rfl
  · rw [hr]
    rfl
  · rfl

theorem powerShapes_eq (square : SquaresByProduct α) {base exponent : Term α} {l r : α → α}
    {x : α} (hl : l x = base.eval x) (hr : r x = exponent.eval x) :
    powerShapes base exponent l r x =
      Arithmetic.apply .pow (base.eval x) (exponent.eval x) := by
  unfold powerShapes
  split
  · rename_i c
    split
    · rename_i htwo
      exact (square x c htwo).symm
    · exact joinShapes_eq hl hr
  · rename_i c _
    split
    · rename_i htwo
      rw [← hl]
      exact (square (l x) c htwo).symm
    · exact joinShapes_eq hl hr
  · exact joinShapes_eq hl hr

/-- The function of a term computes the term's value. -/
theorem closure_eq_eval (square : SquaresByProduct α) (t : Term α) (x : α) :
    t.closure x = t.eval x := by
  induction t with
  | const value => rfl
  | var => rfl
  -- operands that are the variable have functions of their own
  | neg operand ih =>
      cases operand <;> first | rfl | exact congrArg Arithmetic.neg ih
  | call function argument ih =>
      cases argument <;> first | rfl | exact congrArg (Arithmetic.call function) ih
  | binary op left right ihLeft ihRight =>
      cases op with
      | pow => exact powerShapes_eq square ihLeft ihRight
      | _ => exact joinShapes_eq ihLeft ihRight

/-- The law of squares cannot be spared: it is what the function of a power of the variable
asserts. -/
theorem squaresByProduct_of_closure_eq_eval
    (h : ∀ (t : Term α) (x : α), t.closure x = t.eval x) : SquaresByProduct α := by
  intro b c htwo
  have hpower := h (.binary .pow .var (.const c)) b
  have hclosure : (Term.binary .pow .var (.const c)).closure b = Arithmetic.apply .mul b b := by
    simp only [closure, powerShapes, htwo, if_true]
  exact hpower.symm.trans hclosure

end Term

end Graphing
