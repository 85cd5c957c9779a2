import Graphing.Proofs.Expr.Collapse
import Graphing.Proofs.Expr.Finiteness

/-!
# Constants that regrouping leaves apart

A product or quotient of a constant and a product or quotient that begins with a constant could
be worked out further. Lowering removes such a product if it can see it in the formula, and it
looks at the right operand as it is written, through parentheses and one level deep. What it
cannot see are the two shapes that `Expr.blocks` names:

* the rest of the right operand begins with a constant as well, as in `a * (b * (c * x))`;
* a plus sign stands in front of the right operand, as in `a * +(b * x)`.

A term has constants left apart exactly if its formula has one of these shapes somewhere
(`lower_exhaustive_iff`). The induction is the one of the reference meaning, which has a case of
its own for regrouped products, with a hypothesis for each of their three operands.
-/

namespace Graphing

/-! ## Terms -/

namespace Term

variable {α : Type}

/-- A product or quotient that begins with a constant. -/
def isFronted : Term α → Bool
  | .binary op left _ => op.isMultiplicative && left.constant?.isSome
  | _ => false

/-- A product or quotient of a constant and a product or quotient that begins with one. -/
def isUnjoined : Term α → Bool
  | .binary op left right => op.isMultiplicative && left.constant?.isSome && right.isFronted
  | _ => false

theorem isUnjoined_eq_true_iff {t : Term α} :
    t.isUnjoined = true ↔ ∃ op a inner b rest, op.isMultiplicative = true ∧
      inner.isMultiplicative = true ∧
      t = .binary op (.const a) (.binary inner (.const b) rest) := by
  constructor
  · intro h
    unfold isUnjoined at h
    split at h
    · rename_i op left right
      simp only [Bool.and_eq_true] at h
      obtain ⟨⟨hop, hleft⟩, hright⟩ := h
      unfold isFronted at hright
      split at hright
      · rename_i inner front rest
        obtain ⟨hinner, hfront⟩ := Bool.and_eq_true_iff.mp hright
        obtain ⟨a, ha⟩ := Option.isSome_iff_exists.mp hleft
        obtain ⟨b, hb⟩ := Option.isSome_iff_exists.mp hfront
        rw [constant?_eq_some_iff.mp ha, constant?_eq_some_iff.mp hb]
        exact ⟨op, a, inner, b, rest, hop, hinner, rfl⟩
      · cases hright
    · cases h
  · rintro ⟨op, a, inner, b, rest, hop, hinner, rfl⟩
    simp [isUnjoined, isFronted, constant?, hop, hinner]

/-- Some part is a product whose constants are apart. -/
def hasUnjoined (t : Term α) : Bool :=
  t.subterms.any isUnjoined

theorem hasUnjoined_binary (op : Operator) (l r : Term α) :
    (Term.binary op l r).hasUnjoined =
      ((op.isMultiplicative && l.constant?.isSome && r.isFronted) ||
        (l.hasUnjoined || r.hasUnjoined)) := by
  simp [hasUnjoined, subterms, isUnjoined]

variable [Arithmetic α]

theorem hasUnjoined_negate (t : Term α) : t.negate.hasUnjoined = t.hasUnjoined := by
  cases t <;> simp [negate, hasUnjoined, subterms, isUnjoined]

theorem hasUnjoined_applyBuiltin (function : Builtin) (t : Term α) :
    (t.applyBuiltin function).hasUnjoined = t.hasUnjoined := by
  cases t <;> simp [applyBuiltin, hasUnjoined, subterms, isUnjoined]

theorem isFronted_negate (t : Term α) : t.negate.isFronted = false := by
  cases t <;> rfl

theorem isFronted_applyBuiltin (function : Builtin) (t : Term α) :
    (t.applyBuiltin function).isFronted = false := by
  cases t <;> rfl

/-- Joined operands begin with a constant if the left one is known and the right one is not. -/
theorem isFronted_join (op : Operator) (l r : Term α) :
    (join op l r).isFronted =
      (op.isMultiplicative && l.constant?.isSome && !r.constant?.isSome) := by
  cases l with
  | const a => cases r <;> simp [join, isFronted, constant?]
  | _ => simp [join, isFronted, constant?]

theorem hasUnjoined_join (op : Operator) (l r : Term α) :
    (join op l r).hasUnjoined =
      ((op.isMultiplicative && l.constant?.isSome && r.isFronted) ||
        (l.hasUnjoined || r.hasUnjoined)) := by
  cases l with
  | const a =>
      cases r with
      | const b => simp [join, hasUnjoined, subterms, isUnjoined, isFronted]
      | _ => exact hasUnjoined_binary op _ _
  | _ => exact hasUnjoined_binary op _ _

end Term

/-! ## Formulas -/

namespace Expr

variable {α : Type}

/-- A product or quotient that begins with something known and goes on with something that is
not, parentheses and plus signs aside. -/
def isFronted : Expr α → Bool
  | .group inner => inner.isFronted
  | .pos operand => operand.isFronted
  | .binary op left right =>
      op.isMultiplicative && !left.mentionsVariable && right.mentionsVariable
  | _ => false

/-- A right operand with a constant in front that lowering cannot see, or with a second constant
behind the one that it sees. -/
def hidesFront : Expr α → Bool
  | .group inner => inner.hidesFront
  | .pos operand => operand.isFronted
  | .binary inner front rest =>
      inner.isMultiplicative && !front.mentionsVariable && rest.isFronted
  | _ => false

/-- A product or quotient whose left operand is known and whose right operand has constants that
it will not be joined with. -/
def blocks : Expr α → Bool
  | .binary op left right => op.isMultiplicative && !left.mentionsVariable && right.hidesFront
  | _ => false

/-- Some part of the formula keeps constants apart. -/
def hasBlocks (e : Expr α) : Bool :=
  e.subformulas.any blocks

theorem hasBlocks_binary (op : Operator) (left right : Expr α) :
    (Expr.binary op left right).hasBlocks =
      ((op.isMultiplicative && !left.mentionsVariable && right.hidesFront) ||
        (left.hasBlocks || right.hasBlocks)) := by
  simp [hasBlocks, subformulas, blocks]

theorem mentionsVariable_of_isFronted {e : Expr α} (h : e.isFronted = true) :
    e.mentionsVariable = true := by
  induction e with
  | group inner ih => exact ih h
  | pos operand ih => exact ih h
  | binary op left right _ _ =>
      simp only [isFronted, Bool.and_eq_true] at h
      rw [mentionsVariable, h.2, Bool.or_true]
  | _ => cases h

/-- A right operand that hides a front begins with a constant, seen or not. -/
theorem isFronted_of_hidesFront {e : Expr α} (h : e.hidesFront = true) : e.isFronted = true := by
  induction e with
  | group inner ih => exact ih h
  | pos operand _ => exact h
  | binary op left right _ _ =>
      simp only [hidesFront, Bool.and_eq_true] at h
      rw [isFronted, h.1.1, h.1.2, mentionsVariable_of_isFronted h.2]
      rfl
  | _ => cases h

/-- What is known as a whole has no constants apart: it becomes one constant. -/
theorem hasBlocks_eq_false {e : Expr α} (h : e.mentionsVariable = false) :
    e.hasBlocks = false := by
  induction e with
  | lit value => rfl
  | ident name => rfl
  | neg operand ih => exact ih h
  | pos operand ih => exact ih h
  | call name argument ih => exact ih h
  | group inner ih => exact ih h
  | binary op left right ihLeft ihRight =>
      obtain ⟨hleft, hright⟩ := Bool.or_eq_false_iff.mp h
      have hhides : right.hidesFront = false := by
        cases hhides : right.hidesFront with
        | false => rfl
        | true =>
            have hvariable := mentionsVariable_of_isFronted (isFronted_of_hidesFront hhides)
            rw [hright] at hvariable
            cases hvariable
      rw [hasBlocks_binary, hhides, ihLeft hleft, ihRight hright, Bool.and_false]
      rfl

theorem mentionsVariable_ungrouped (e : Expr α) :
    e.ungrouped.mentionsVariable = e.mentionsVariable := by
  induction e with
  | group inner ih => exact ih
  | _ => rfl

theorem hidesFront_ungrouped (e : Expr α) : e.ungrouped.hidesFront = e.hidesFront := by
  induction e with
  | group inner ih => exact ih
  | _ => rfl

theorem hasBlocks_ungrouped (e : Expr α) : e.ungrouped.hasBlocks = e.hasBlocks := by
  induction e with
  | group inner ih => exact ih
  | _ => rfl

/-- Where a product is not regrouped, a constant in front of the right operand is hidden. -/
theorem hidesFront_of_regrouping?_eq_none {op : Operator} {left right : Expr α}
    (h : regrouping? op left right = none) (hop : op.isMultiplicative = true)
    (hleft : left.mentionsVariable = false) : right.hidesFront = right.isFronted := by
  induction right with
  | group inner ih => exact ih h
  | binary inner front rest _ _ =>
      cases hinner : inner.isMultiplicative with
      | false => simp [hidesFront, isFronted, hinner]
      | true =>
          cases hfront : front.mentionsVariable with
          | false => simp [regrouping?, ungrouped, hop, hleft, hinner, hfront] at h
          | true => simp [hidesFront, isFronted, hfront]
  | _ => rfl

variable [Arithmetic α]

/-! ## Lowering -/

/-- A term begins with a constant exactly if its formula does, parentheses and plus signs
aside. -/
theorem isFronted_term {e : Expr α} {result : Lowered α} (h : e.lowered = .ok result) :
    result.term.isFronted = e.isFronted := by
  induction e generalizing result with
  | lit value =>
      cases h
      rfl
  | ident name =>
      obtain ⟨term, hname, rfl⟩ := lowered_ident_eq_ok_iff.mp h
      unfold lowerName at hname
      split at hname
      · cases hname
        rfl
      · split at hname
        · cases hname
          rfl
        · cases hname
  | neg operand _ =>
      obtain ⟨inner, _, rfl⟩ := lowered_neg_eq_ok_iff.mp h
      exact Term.isFronted_negate inner.term
  | pos operand ih =>
      obtain ⟨inner, hinner, rfl⟩ := lowered_pos_eq_ok_iff.mp h
      show inner.term.isFronted = operand.isFronted
      exact ih hinner
  | call name argument _ =>
      obtain ⟨function, inner, _, _, rfl⟩ := lowered_call_eq_ok_iff.mp h
      exact Term.isFronted_applyBuiltin function inner.term
  | group inner ih => exact ih h
  | binary op left right _ _ =>
      obtain ⟨l, r, hl, hr, rfl⟩ := lowered_binary_eq_ok_iff.mp h
      have hleft := (isSome_constant? hl).1
      have hright := (isSome_constant? hr).1
      show (Lowered.combine op l.term r).isFronted = _
      cases hregroup : regrouping? op left right with
      | none =>
          rw [combine_of_regrouping?_eq_none hl hr hregroup, Term.isFronted_join, hleft, hright,
            Bool.not_not]
          rfl
      | some parts =>
          obtain ⟨inner, a, b⟩ := parts
          obtain ⟨hsame, hop, hknown, hinner, hfront⟩ := regrouping?_eq_some hregroup
          obtain ⟨c, d, u, v, _, _, _, hv, hcombine⟩ := exists_combine_of_regrouping? hl hr hregroup
          have hmentions : right.mentionsVariable = b.mentionsVariable := by
            rw [← mentionsVariable_ungrouped, hsame, mentionsVariable, hfront, Bool.false_or]
          rw [hcombine, Term.isFronted_join, (isSome_constant? hv).1, Bool.not_not,
            ← afterFront_eq_regroup hop hinner, Binary64.isMultiplicative_afterFront op hinner,
            isFronted, hop, hknown, hmentions]
          rfl

/-- A term has constants left apart exactly if its formula has a part that keeps them apart. -/
theorem hasUnjoined_term {e : Expr α} {result : Lowered α} (h : e.lowered = .ok result) :
    result.term.hasUnjoined = e.hasBlocks := by
  fun_induction reference Arithmetic.pi e generalizing result with
  | case1 value =>
      cases h
      rfl
  | case2 =>
      cases h
      rfl
  | case3 name hx =>
      obtain ⟨term, hname, rfl⟩ := lowered_ident_eq_ok_iff.mp h
      rw [lowerName, if_neg hx] at hname
      split at hname
      · cases hname
        rfl
      · cases hname
  | case4 operand ih =>
      obtain ⟨inner, hinner, rfl⟩ := lowered_pos_eq_ok_iff.mp h
      show inner.term.hasUnjoined = operand.hasBlocks
      exact ih hinner
  | case5 inner ih => exact ih h
  | case6 operand ih =>
      obtain ⟨inner, hinner, rfl⟩ := lowered_neg_eq_ok_iff.mp h
      exact (Term.hasUnjoined_negate _).trans (ih hinner)
  | case7 name argument ih =>
      obtain ⟨function, inner, _, hinner, rfl⟩ := lowered_call_eq_ok_iff.mp h
      exact (Term.hasUnjoined_applyBuiltin function _).trans (ih hinner)
  | case8 op left right inner a b hregroup _ _ _ ihRest =>
      obtain ⟨l, r, hl, hr, rfl⟩ := lowered_binary_eq_ok_iff.mp h
      obtain ⟨hsame, hop, hleft, hinner, hfront⟩ := regrouping?_eq_some hregroup
      obtain ⟨c, d, u, v, _, _, _, hv, hcombine⟩ := exists_combine_of_regrouping? hl hr hregroup
      have hhides : right.hidesFront = b.isFronted := by
        rw [← hidesFront_ungrouped, hsame, hidesFront, hinner, hfront]
        rfl
      -- a constant hidden in the rest is in front of it, and so it is counted already
      have hright : (b.isFronted || right.hasBlocks) = (b.isFronted || b.hasBlocks) := by
        rw [← hasBlocks_ungrouped right, hsame, hasBlocks_binary, hasBlocks_eq_false hfront,
          hinner, hfront, Bool.false_or]
        cases hrest : b.hidesFront with
        | false => rfl
        | true => rw [isFronted_of_hidesFront hrest]; rfl
      show (Lowered.combine op l.term r).hasUnjoined = _
      rw [hcombine, Term.hasUnjoined_join, ← afterFront_eq_regroup hop hinner,
        Binary64.isMultiplicative_afterFront op hinner, isFronted_term hv, ihRest hv,
        hasBlocks_binary, hasBlocks_eq_false hleft, hop, hleft, hhides, Bool.false_or]
      exact hright.symm
  | case9 op left right hregroup ihLeft ihRight =>
      obtain ⟨l, r, hl, hr, rfl⟩ := lowered_binary_eq_ok_iff.mp h
      show (Lowered.combine op l.term r).hasUnjoined = _
      rw [combine_of_regrouping?_eq_none hl hr hregroup, Term.hasUnjoined_join, ihLeft hl,
        ihRight hr, isFronted_term hr, (isSome_constant? hl).1, hasBlocks_binary]
      cases hop : op.isMultiplicative with
      | false => rfl
      | true =>
          cases hleft : left.mentionsVariable with
          | true => rfl
          | false => rw [hidesFront_of_regrouping?_eq_none hregroup hop hleft]

/-- Regrouping leaves no product or quotient of a constant and a product or quotient that begins
with a constant exactly if no part of the formula hides one: no known operand stands before a
product that begins with two known factors one after the other, or with a known factor under a
plus sign. -/
theorem lower_exhaustive_iff {e : Expr α} {t : Term α} (h : e.lower = .ok t) :
    (∀ op a inner b rest, op.isMultiplicative = true → inner.isMultiplicative = true →
      Term.binary op (.const a) (.binary inner (.const b) rest) ∉ t.subterms) ↔
    ∀ part ∈ e.subformulas, part.blocks = false := by
  obtain ⟨result, hresult, rfl⟩ := lower_eq_ok_iff.mp h
  have hblocks : e.hasBlocks = false ↔ ∀ part ∈ e.subformulas, part.blocks = false := by
    simp [hasBlocks]
  rw [← hblocks, ← hasUnjoined_term hresult, Term.hasUnjoined, List.any_eq_false]
  constructor
  · intro hjoined part hpart hunjoined
    obtain ⟨op, a, inner, b, rest, hop, hinner, rfl⟩ := Term.isUnjoined_eq_true_iff.mp hunjoined
    exact hjoined op a inner b rest hop hinner hpart
  · intro hnone op a inner b rest hop hinner hpart
    exact hnone _ hpart (Term.isUnjoined_eq_true_iff.mpr ⟨op, a, inner, b, rest, hop, hinner, rfl⟩)

/-- `2 / (3 * sin(4 * x))` -/
def sineQuotient : Formula :=
  .binary .div (.lit Binary64.two) (.group (.binary .mul (.lit ⟨0x4008000000000000⟩)
    (.call "sin" (.binary .mul (.lit ⟨0x4010000000000000⟩) (.ident "x")))))

/-- Of the three constants of `2 / (3 * sin(4 * x))` two are joined, and the third is kept from
them by the sine. -/
theorem lower_exhaustive_iff_sine :
    ∃ t, sineQuotient.lower = .ok t ∧
      t = .binary .div (.const ⟨0x3fe5555555555555⟩)
        (.call .sin (.binary .mul (.const ⟨0x4010000000000000⟩) .var)) ∧
      ∀ op a inner b rest, op.isMultiplicative = true → inner.isMultiplicative = true →
        Term.binary op (.const a) (.binary inner (.const b) rest) ∉ t.subterms := by
  have hlower : sineQuotient.lower = .ok (.binary .div (.const ⟨0x3fe5555555555555⟩)
      (.call .sin (.binary .mul (.const ⟨0x4010000000000000⟩) .var))) := by
    decide +kernel
  exact ⟨_, hlower, rfl, (lower_exhaustive_iff hlower).mpr (by decide +kernel)⟩

/-- `2 * (3 * (4 * x))` -/
def twentyFourfold : Formula :=
  .binary .mul (.lit Binary64.two) (.group (.binary .mul (.lit ⟨0x4008000000000000⟩)
    (.group (.binary .mul (.lit ⟨0x4010000000000000⟩) (.ident "x")))))

/-- `2 * +(3 * x)` -/
def sixfold : Formula :=
  .binary .mul (.lit Binary64.two)
    (.pos (.group (.binary .mul (.lit ⟨0x4008000000000000⟩) (.ident "x"))))

/-- Constants can be left apart: `2 * (3 * (4 * x))` becomes `6 * (4 * x)`, and `2 * +(3 * x)`
becomes `2 * (3 * x)`. -/
theorem constants_left_apart :
    (∃ t, twentyFourfold.lower = .ok t ∧
      Term.binary .mul (.const ⟨0x4018000000000000⟩)
        (.binary .mul (.const ⟨0x4010000000000000⟩) .var) ∈ t.subterms) ∧
    ∃ t, sixfold.lower = .ok t ∧
      Term.binary .mul (.const Binary64.two)
        (.binary .mul (.const ⟨0x4008000000000000⟩) .var) ∈ t.subterms := by
  constructor
  · exact ⟨.binary .mul (.const ⟨0x4018000000000000⟩)
      (.binary .mul (.const ⟨0x4010000000000000⟩) .var), by decide +kernel, by decide +kernel⟩
  · exact ⟨.binary .mul (.const Binary64.two)
      (.binary .mul (.const ⟨0x4008000000000000⟩) .var), by decide +kernel, by decide +kernel⟩

end Expr

end Graphing
