import Graphing.Proofs.Expr.Reference

/-!
# Ways of grouping products

A product or quotient whose right operand is one too can be worked out in two ways: as it is
written, or with the left operand and the front of the right one joined first. `grouped` is the
meaning of a formula when it is said which products are taken in the second way, and the
reference meaning takes those whose left operand and front are free of the variable.

Two ways of grouping give a formula the same value if the products that only one of them
joins have the same value in both (`grouped_eq_of_indifferent`).
-/

namespace Graphing

namespace Expr

variable {α : Type}

/-- The operands of a right operand that is a product or quotient under another one,
parentheses aside. -/
def product? (op : Operator) (right : Expr α) : Option (Operator × Expr α × Expr α) :=
  match right.ungrouped with
  | .binary inner a b =>
      if op.isMultiplicative ∧ inner.isMultiplicative then some (inner, a, b) else none
  | _ => none

/-- They are joined with the left operand if `joins` says so of it and of the front. -/
def joining? (joins : Expr α → Expr α → Bool) (op : Operator) (left right : Expr α) :
    Option (Operator × Expr α × Expr α) :=
  (product? op right).filter fun parts => joins left parts.2.1

theorem product?_eq_some_iff {op inner : Operator} {right a b : Expr α} :
    product? op right = some (inner, a, b) ↔
      right.ungrouped = .binary inner a b ∧ op.isMultiplicative = true ∧
        inner.isMultiplicative = true := by
  unfold product?
  split
  · rename_i hright
    simp only [hright, Option.ite_none_right_eq_some, Option.some.injEq, Prod.mk.injEq,
      binary.injEq]
    constructor
    · rintro ⟨hproducts, rfl, rfl, rfl⟩
      exact ⟨⟨rfl, rfl, rfl⟩, hproducts⟩
    · rintro ⟨⟨rfl, rfl, rfl⟩, hproducts⟩
      exact ⟨hproducts, rfl, rfl, rfl⟩
  · rename_i hright
    constructor
    · intro h
      cases h
    · rintro ⟨h, _⟩
      exact absurd h (hright inner a b)

variable {joins : Expr α → Expr α → Bool}

theorem joining?_eq_some_iff {op inner : Operator} {left right a b : Expr α} :
    joining? joins op left right = some (inner, a, b) ↔
      product? op right = some (inner, a, b) ∧ joins left a = true := by
  rw [joining?, Option.filter_eq_some_iff]

/-- What is not joined is not joined where fewer products are. -/
theorem joining?_eq_none_of_le {early late : Expr α → Expr α → Bool}
    (hle : ∀ left front, early left front = true → late left front = true) {op : Operator}
    {left right : Expr α} (h : joining? late op left right = none) :
    joining? early op left right = none := by
  cases hearly : joining? early op left right with
  | none => rfl
  | some parts =>
      obtain ⟨inner, a, b⟩ := parts
      obtain ⟨hproduct, hjoins⟩ := joining?_eq_some_iff.mp hearly
      have hlate := joining?_eq_some_iff.mpr ⟨hproduct, hle left a hjoins⟩
      rw [h] at hlate
      cases hlate

theorem sizeOf_lt_of_joining? {op inner : Operator} {left right a b : Expr α}
    (h : joining? joins op left right = some (inner, a, b)) :
    sizeOf a < sizeOf right ∧ sizeOf b < sizeOf right := by
  have hle := right.sizeOf_ungrouped_le
  rw [(product?_eq_some_iff.mp (joining?_eq_some_iff.mp h).1).1, binary.sizeOf_spec] at hle
  omega

/-- A left operand and a front that are known beforehand. -/
def known (left front : Expr α) : Bool :=
  !left.mentionsVariable && !front.mentionsVariable

theorem regrouping?_eq_joining? (op : Operator) (left right : Expr α) :
    regrouping? op left right = joining? known op left right := by
  unfold regrouping? joining? product?
  generalize right.ungrouped = operand
  cases operand with
  | binary inner a b =>
      cases hop : op.isMultiplicative with
      | false => simp
      | true =>
          cases hinner : inner.isMultiplicative with
          | false => simp [hinner]
          | true => simp [hinner, known, Option.filter]
  | _ => rfl

/-- No product is joined. -/
def never (_ _ : Expr α) : Bool := false

theorem joining?_never (op : Operator) (left right : Expr α) :
    joining? never op left right = none := by
  rw [joining?, Option.filter_eq_none_iff]
  intro parts _
  exact Bool.false_ne_true

variable [Arithmetic α]

/-- Three operands, the first two joined first. -/
def frontFirst (op inner : Operator) (u v w : Option α) : Option α :=
  u.bind fun u => v.bind fun v => w.map fun w =>
    Arithmetic.apply (op.afterFront inner) (Arithmetic.apply op u v) w

/-- The meaning of a formula at a point, if products are joined as `joins` says. -/
def grouped (joins : Expr α → Expr α → Bool) (x : α) (e : Expr α) : Option α :=
  match e with
  | .lit value => some value
  | .ident name => if name = variableName then some x else constant? name
  | .pos operand => operand.grouped joins x
  | .group inner => inner.grouped joins x
  | .neg operand => (operand.grouped joins x).map Arithmetic.neg
  | .call name argument =>
      (Builtin.ofName? name).bind fun function =>
        (argument.grouped joins x).map (Arithmetic.call function)
  | .binary op left right =>
      match h : joining? joins op left right with
      | some (inner, a, b) =>
          have _ := sizeOf_lt_of_joining? h
          frontFirst op inner (left.grouped joins x) (a.grouped joins x) (b.grouped joins x)
      | none =>
          (left.grouped joins x).bind fun u =>
            (right.grouped joins x).map fun v => Arithmetic.apply op u v
  termination_by sizeOf e
  decreasing_by
    all_goals simp only [pos.sizeOf_spec, group.sizeOf_spec, neg.sizeOf_spec, call.sizeOf_spec,
      binary.sizeOf_spec]; omega

theorem grouped_of_joining?_eq_some {op inner : Operator} {left right a b : Expr α}
    (h : joining? joins op left right = some (inner, a, b)) (x : α) :
    (Expr.binary op left right).grouped joins x =
      frontFirst op inner (left.grouped joins x) (a.grouped joins x) (b.grouped joins x) := by
  rw [grouped]
  split
  · rename_i h'
    cases h.symm.trans h'
    rfl
  · rename_i h'
    cases h.symm.trans h'

theorem grouped_of_joining?_eq_none {op : Operator} {left right : Expr α}
    (h : joining? joins op left right = none) (x : α) :
    (Expr.binary op left right).grouped joins x =
      (left.grouped joins x).bind fun u =>
        (right.grouped joins x).map fun v => Arithmetic.apply op u v := by
  rw [grouped]
  split
  · rename_i h'
    cases h.symm.trans h'
  · rfl

/-! ## The reference meaning -/

theorem reference_eq_grouped (x : α) (e : Expr α) : e.reference x = e.grouped known x := by
  fun_induction reference x e with
  | case1 value => rw [grouped]
  | case2 => rw [grouped, if_pos rfl]
  | case3 name hx => rw [grouped, if_neg hx]
  | case4 operand ih => rw [grouped, ih]
  | case5 inner ih => rw [grouped, ih]
  | case6 operand ih => rw [grouped, ih]
  | case7 name argument ih => rw [grouped, ih]
  | case8 op left right inner a b h _ ihLeft ihFront ihRest =>
      rw [regrouping?_eq_joining?] at h
      rw [grouped_of_joining?_eq_some h, ihLeft, ihFront, ihRest, frontFirst]
  | case9 op left right h ihLeft ihRight =>
      rw [regrouping?_eq_joining?] at h
      rw [grouped_of_joining?_eq_none h, ihLeft, ihRight]

/-! ## As written -/

/-- The value of a formula at a point, with every operation as it is written. -/
def written (x : α) : Expr α → Option α
  | .lit value => some value
  | .ident name => if name = variableName then some x else constant? name
  | .pos operand => operand.written x
  | .group inner => inner.written x
  | .neg operand => (operand.written x).map Arithmetic.neg
  | .call name argument =>
      (Builtin.ofName? name).bind fun function =>
        (argument.written x).map (Arithmetic.call function)
  | .binary op left right =>
      (left.written x).bind fun u => (right.written x).map fun v => Arithmetic.apply op u v

theorem written_ungrouped (x : α) (e : Expr α) : e.ungrouped.written x = e.written x := by
  induction e with
  | group inner ih => exact ih
  | _ => rfl

theorem written_binary_eq_some_iff {x : α} {op : Operator} {left right : Expr α} {value : α} :
    (Expr.binary op left right).written x = some value ↔
      ∃ u v, left.written x = some u ∧ right.written x = some v ∧
        Arithmetic.apply op u v = value := by
  simp [written, Option.bind_eq_some_iff]

theorem grouped_never (x : α) (e : Expr α) : e.grouped never x = e.written x := by
  induction e with
  | lit value => rw [grouped, written]
  | ident name => rw [grouped, written]
  | pos operand ih => rw [grouped, written, ih]
  | group inner ih => rw [grouped, written, ih]
  | neg operand ih => rw [grouped, written, ih]
  | call name argument ih => rw [grouped, written, ih]
  | binary op left right ihLeft ihRight =>
      rw [grouped_of_joining?_eq_none (joining?_never op left right), written, ihLeft, ihRight]

/-! ## Two ways of grouping -/

/-- A formula in which every product that `late` joins and `early` does not has the same value
at `x` when it is joined. -/
inductive Indifferent (early late : Expr α → Expr α → Bool) (x : α) : Expr α → Prop
  | lit (value : α) : Indifferent early late x (.lit value)
  | ident (name : String) : Indifferent early late x (.ident name)
  | pos {operand} : Indifferent early late x operand → Indifferent early late x (.pos operand)
  | group {inner} : Indifferent early late x inner → Indifferent early late x (.group inner)
  | neg {operand} : Indifferent early late x operand → Indifferent early late x (.neg operand)
  | call {name argument} : Indifferent early late x argument →
      Indifferent early late x (.call name argument)
  | apart {op left right} : joining? late op left right = none →
      Indifferent early late x left → Indifferent early late x right →
      Indifferent early late x (.binary op left right)
  | joined {op left right inner a b} : joining? late op left right = some (inner, a, b) →
      Indifferent early late x left → Indifferent early late x a → Indifferent early late x b →
      (early left a = false →
        frontFirst op inner (left.grouped early x) (a.grouped early x) (b.grouped early x) =
          (Expr.binary op left right).grouped early x) →
      Indifferent early late x (.binary op left right)

/-- It makes no difference to such a formula which of the two ways it is grouped. -/
theorem grouped_eq_of_indifferent {early late : Expr α → Expr α → Bool}
    (hle : ∀ left front, early left front = true → late left front = true) {x : α} {e : Expr α}
    (h : Indifferent early late x e) : e.grouped late x = e.grouped early x := by
  induction h with
  | lit value => rw [grouped, grouped]
  | ident name => rw [grouped, grouped]
  | pos _ ih => rw [grouped, grouped, ih]
  | group _ ih => rw [grouped, grouped, ih]
  | neg _ ih => rw [grouped, grouped, ih]
  | call _ ih => rw [grouped, grouped, ih]
  | @apart op left right hlate _ _ ihLeft ihRight =>
      have hearly := joining?_eq_none_of_le hle hlate
      rw [grouped_of_joining?_eq_none hlate, grouped_of_joining?_eq_none hearly, ihLeft, ihRight]
  | @joined op left right inner a b hlate _ _ _ hsame ihLeft ihFront ihRest =>
      rw [grouped_of_joining?_eq_some hlate, ihLeft, ihFront, ihRest]
      cases hjoins : early left a with
      | false => exact hsame hjoins
      | true =>
          have hearly : joining? early op left right = some (inner, a, b) :=
            joining?_eq_some_iff.mpr ⟨(joining?_eq_some_iff.mp hlate).1, hjoins⟩
          rw [grouped_of_joining?_eq_some hearly]

/-- A formula whose value is the same whether or not its products are regrouped. -/
theorem reference_eq_written {x : α} {e : Expr α} (h : Indifferent never known x e) :
    e.reference x = e.written x := by
  rw [reference_eq_grouped, ← grouped_never]
  refine grouped_eq_of_indifferent ?_ h
  intro left front hnever
  cases hnever

end Expr

end Graphing
