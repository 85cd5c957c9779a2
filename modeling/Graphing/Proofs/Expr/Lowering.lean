import Graphing.Proofs.Term.Evaluation

/-!
# What lowering keeps of a formula

One inversion lemma for each kind of formula says what a successful lowering is made of.
From them follow the two facts that the rules for products rest on:

* the product that is kept beside a term is the one that the formula is, parentheses
  aside (`product_eq_some_iff`);
* a term is a constant exactly if the formula does not mention the variable
  (`isSome_constant?`), so the test on terms is a test on formulas.

With the first, a binary operation can be lowered without keeping any product, by looking at the
right operand as it is written (`lower_binary`).
-/

namespace Graphing

namespace Expr

variable {α : Type}

/-- Whether a formula mentions the variable. -/
def mentionsVariable : Expr α → Bool
  | .lit _ => false
  | .ident name => name == variableName
  | .neg operand => operand.mentionsVariable
  | .pos operand => operand.mentionsVariable
  | .binary _ left right => left.mentionsVariable || right.mentionsVariable
  | .call _ argument => argument.mentionsVariable
  | .group inner => inner.mentionsVariable

variable [Arithmetic α] {result : Lowered α}

/-! ## Inversion -/

theorem lowered_pos_eq_ok_iff {operand : Expr α} :
    (Expr.pos operand).lowered = .ok result ↔
      ∃ inner, operand.lowered = .ok inner ∧ result = .plain inner.term := by
  rw [lowered]
  cases operand.lowered with
  | error error => simp
  | ok inner => simp [eq_comm]

theorem lowered_neg_eq_ok_iff {operand : Expr α} :
    (Expr.neg operand).lowered = .ok result ↔
      ∃ inner, operand.lowered = .ok inner ∧ result = .plain inner.term.negate := by
  rw [lowered]
  cases operand.lowered with
  | error error => simp
  | ok inner => simp [eq_comm]

theorem lowered_call_eq_ok_iff {name : String} {argument : Expr α} :
    (Expr.call name argument).lowered = .ok result ↔
      ∃ function inner, Builtin.ofName? name = some function ∧ argument.lowered = .ok inner ∧
        result = .plain (inner.term.applyBuiltin function) := by
  rw [lowered]
  cases Builtin.ofName? name with
  | none => simp
  | some function =>
      cases argument.lowered with
      | error error => simp
      | ok inner => simp [eq_comm]

theorem lowered_binary_eq_ok_iff {op : Operator} {left right : Expr α} :
    (Expr.binary op left right).lowered = .ok result ↔
      ∃ l r, left.lowered = .ok l ∧ right.lowered = .ok r ∧ result = .binary op l r := by
  rw [lowered]
  cases left.lowered with
  | error error => simp
  | ok l =>
      cases right.lowered with
      | error error => simp
      | ok r => simp [eq_comm]

theorem lower_eq_ok_iff {e : Expr α} {term : Term α} :
    e.lower = .ok term ↔ ∃ result, e.lowered = .ok result ∧ result.term = term := by
  rw [lower]
  cases e.lowered with
  | error error => simp
  | ok result => simp

theorem lowered_ungrouped (e : Expr α) : e.ungrouped.lowered = e.lowered := by
  induction e with
  | group inner ih => exact ih
  | _ => rfl

/-! ## Products -/

/-- The product beside a term is the formula's own, parentheses aside. -/
theorem product_eq_some_iff {e : Expr α} (h : e.lowered = .ok result) {op : Operator}
    {a b : Term α} :
    result.product = some (op, a, b) ↔
      ∃ left right l r, e.ungrouped = .binary op left right ∧ op.isMultiplicative = true ∧
        left.lowered = .ok l ∧ right.lowered = .ok r ∧ l.term = a ∧ r.term = b := by
  induction e with
  | lit value =>
      cases h
      simp [Lowered.plain, ungrouped]
  | ident name =>
      obtain ⟨term, _, rfl⟩ := lowered_ident_eq_ok_iff.mp h
      simp [Lowered.plain, ungrouped]
  | neg operand _ =>
      obtain ⟨inner, _, rfl⟩ := lowered_neg_eq_ok_iff.mp h
      simp [Lowered.plain, ungrouped]
  | pos operand _ =>
      obtain ⟨inner, _, rfl⟩ := lowered_pos_eq_ok_iff.mp h
      simp [Lowered.plain, ungrouped]
  | call name argument _ =>
      obtain ⟨function, inner, _, _, rfl⟩ := lowered_call_eq_ok_iff.mp h
      simp [Lowered.plain, ungrouped]
  | group inner ih =>
      rw [ungrouped]
      exact ih h
  | binary op' left right _ _ =>
      obtain ⟨l, r, hl, hr, rfl⟩ := lowered_binary_eq_ok_iff.mp h
      constructor
      · intro hproduct
        simp only [Lowered.binary] at hproduct
        split at hproduct
        · rename_i hop
          cases hproduct
          exact ⟨left, right, l, r, rfl, hop, hl, hr, rfl, rfl⟩
        · cases hproduct
      · rintro ⟨left', right', l', r', heq, hop, hl', hr', rfl, rfl⟩
        cases heq
        cases hl.symm.trans hl'
        cases hr.symm.trans hr'
        simp [Lowered.binary, hop]

end Expr

/-! ## Constants -/

namespace Term

variable {α : Type}

theorem constant?_eq_some_iff {t : Term α} {c : α} : t.constant? = some c ↔ t = .const c := by
  cases t <;> simp [constant?]

variable [Arithmetic α]

theorem isSome_constant?_negate (t : Term α) :
    t.negate.constant?.isSome = t.constant?.isSome := by
  cases t <;> rfl

theorem isSome_constant?_applyBuiltin (function : Builtin) (t : Term α) :
    (t.applyBuiltin function).constant?.isSome = t.constant?.isSome := by
  cases t <;> rfl

theorem isSome_constant?_join (op : Operator) (l r : Term α) :
    (join op l r).constant?.isSome = (l.constant?.isSome && r.constant?.isSome) := by
  cases l with
  | const a => cases r <;> rfl
  | _ => rfl

end Term

namespace Lowered

variable {α : Type} [Arithmetic α]

/-- Two operands are joined in one of two ways: constants are brought together, or the
operands are joined as they are. -/
theorem combine_cases (op : Operator) (left : Term α) (right : Lowered α) :
    (∃ a inner b rest, op.isMultiplicative = true ∧ left = .const a ∧
      right.product = some (inner, .const b, rest) ∧
      combine op left right =
        .join (Term.regroup op inner) (.const (Arithmetic.apply op a b)) rest) ∨
    ((∀ a inner b rest, op.isMultiplicative = true → left = .const a →
      right.product ≠ some (inner, .const b, rest)) ∧
      combine op left right = .join op left right.term) := by
  unfold combine
  split
  · rename_i a inner b rest hop hproduct
    exact .inl ⟨a, inner, b, rest, hop, rfl, hproduct, rfl⟩
  · rename_i hne
    exact .inr ⟨fun a inner b rest hop hleft hproduct => hne a inner b rest hop hleft hproduct,
      rfl⟩

/-- A constant that stands in front of a product. -/
theorem combine_binary {op inner : Operator} {left : Term α} {a : α} {head rest : Lowered α}
    (hop : op.isMultiplicative = true) (hinner : inner.isMultiplicative = true)
    (hleft : left.constant? = some a) :
    combine op left (binary inner head rest) =
      match head.term.constant? with
      | some b => .join (Term.regroup op inner) (.const (Arithmetic.apply op a b)) rest.term
      | none => .join op left (.join inner head.term rest.term) := by
  obtain rfl := Term.constant?_eq_some_iff.mp hleft
  cases hhead : head.term <;>
    simp only [combine, binary, hop, hinner, hhead, Term.constant?, if_true]

end Lowered

namespace Expr

variable {α : Type} [Arithmetic α]

/-- A formula is lowered to a constant exactly if it does not mention the variable, and the
same holds of the two operands of its product taken together. -/
theorem isSome_constant? {e : Expr α} {result : Lowered α} (h : e.lowered = .ok result) :
    result.term.constant?.isSome = !e.mentionsVariable ∧
    ∀ op a b, result.product = some (op, a, b) →
      (a.constant?.isSome && b.constant?.isSome) = !e.mentionsVariable := by
  induction e generalizing result with
  | lit value =>
      cases h
      exact ⟨rfl, by simp [Lowered.plain]⟩
  | ident name =>
      obtain ⟨term, hname, rfl⟩ := lowered_ident_eq_ok_iff.mp h
      refine ⟨?_, by simp [Lowered.plain]⟩
      unfold lowerName at hname
      split at hname
      · rename_i hx
        cases hname
        simp [hx, mentionsVariable, Lowered.plain, Term.constant?]
      · rename_i hx
        split at hname
        · cases hname
          simp [hx, mentionsVariable, Lowered.plain, Term.constant?]
        · cases hname
  | neg operand ih =>
      obtain ⟨inner, hinner, rfl⟩ := lowered_neg_eq_ok_iff.mp h
      refine ⟨?_, by simp [Lowered.plain]⟩
      exact (Term.isSome_constant?_negate _).trans (ih hinner).1
  | pos operand ih =>
      obtain ⟨inner, hinner, rfl⟩ := lowered_pos_eq_ok_iff.mp h
      exact ⟨(ih hinner).1, by simp [Lowered.plain]⟩
  | call name argument ih =>
      obtain ⟨function, inner, _, hinner, rfl⟩ := lowered_call_eq_ok_iff.mp h
      refine ⟨?_, by simp [Lowered.plain]⟩
      exact (Term.isSome_constant?_applyBuiltin _ _).trans (ih hinner).1
  | group inner ih => exact ih h
  | binary op left right ihLeft ihRight =>
      obtain ⟨l, r, hl, hr, rfl⟩ := lowered_binary_eq_ok_iff.mp h
      obtain ⟨hleft, _⟩ := ihLeft hl
      obtain ⟨hright, hproduct⟩ := ihRight hr
      have hboth : (l.term.constant?.isSome && r.term.constant?.isSome) =
          !(Expr.binary op left right).mentionsVariable := by
        rw [hleft, hright, mentionsVariable, Bool.not_or]
      refine ⟨?_, ?_⟩
      · show (Lowered.combine op l.term r).constant?.isSome = _
        rcases Lowered.combine_cases op l.term r with
          ⟨a, inner, b, rest, _, hconst, hpair, hcombine⟩ | ⟨_, hcombine⟩
        · -- the constants in front are both known, so the rest decides
          have hrest := hproduct inner _ rest hpair
          rw [Term.constant?, Option.isSome_some, Bool.true_and] at hrest
          rw [hcombine, Term.isSome_constant?_join, ← hboth, hconst, hright, ← hrest]
          rfl
        · rw [hcombine, Term.isSome_constant?_join, hboth]
      · intro op' a b hpair
        simp only [Lowered.binary] at hpair
        split at hpair
        · cases hpair
          exact hboth
        · cases hpair

/-- A formula without the variable is lowered to a constant. -/
theorem exists_term_eq_const {e : Expr α} {result : Lowered α} (h : e.lowered = .ok result)
    (hconst : e.mentionsVariable = false) : ∃ c, result.term = .const c := by
  have hsome := (isSome_constant? h).1
  rw [hconst, Bool.not_false, Option.isSome_iff_exists] at hsome
  obtain ⟨c, hc⟩ := hsome
  exact ⟨c, Term.constant?_eq_some_iff.mp hc⟩

theorem mentionsVariable_of_term_eq_const {e : Expr α} {result : Lowered α}
    (h : e.lowered = .ok result) {c : α} (hc : result.term = .const c) :
    e.mentionsVariable = false := by
  have hsome := (isSome_constant? h).1
  rw [hc, Term.constant?, Option.isSome_some] at hsome
  exact Bool.not_eq_eq_eq_not.mp hsome.symm

/-! ## Case by case -/

/-- A binary operation lowered in the order in which its parts are looked at. Behind a constant
factor the right operand is looked at first, parentheses aside. If it is a product or quotient,
its own operands are lowered, and a second constant is brought to the first. -/
def lowerBinary (op : Operator) (left right : Expr α) : Except CompileError (Term α) := do
  let front ← left.lower
  match op.isMultiplicative, front.constant?, right.ungrouped with
  | true, some a, .binary inner first second =>
      if inner.isMultiplicative then
        let head ← first.lower
        let rest ← second.lower
        match head.constant? with
        | some b =>
            return .join (Term.regroup op inner) (.const (Arithmetic.apply op a b)) rest
        | none => return .join op front (.join inner head rest)
      else
        return .join op front (← right.lower)
  | _, _, _ => return .join op front (← right.lower)

theorem lower_eq_map (e : Expr α) : e.lower = Lowered.term <$> e.lowered := by
  rw [lower]
  cases e.lowered <;> rfl

/-- Operands are joined as they are unless a constant stands in front of a product. -/
theorem combine_eq_join {op : Operator} {front : Term α} {right : Expr α}
    (h : ∀ a inner first second, op.isMultiplicative = true → front.constant? = some a →
      right.ungrouped = .binary inner first second → inner.isMultiplicative = false) :
    Lowered.combine op front <$> right.lowered = Term.join op front <$> right.lower := by
  rw [lower_eq_map]
  cases hright : right.lowered with
  | error error => rfl
  | ok back =>
      rcases Lowered.combine_cases op front back with
        ⟨a, inner, b, rest, hop, rfl, hproduct, _⟩ | ⟨_, hjoin⟩
      · obtain ⟨first, second, _, _, hshape, hinner, _⟩ :=
          (product_eq_some_iff hright).mp hproduct
        rw [h a inner first second hop rfl hshape] at hinner
        cases hinner
      · exact congrArg Except.ok hjoin

/-- Lowering both operands first and looking for the product afterwards comes to the same, in the
term as in the error. -/
theorem lower_binary (op : Operator) (left right : Expr α) :
    (Expr.binary op left right).lower = lowerBinary op left right := by
  have hsteps : (Expr.binary op left right).lower =
      left.lower >>= fun front => Lowered.combine op front <$> right.lowered := by
    rw [lower, lowered, lower]
    cases left.lowered with
    | error error => rfl
    | ok l => cases right.lowered <;> rfl
  rw [hsteps, lowerBinary]
  refine bind_congr fun front => ?_
  split
  · rename_i a inner first second hop hfront hshape
    split
    · rename_i hinner
      rw [← right.lowered_ungrouped, hshape, lowered, lower_eq_map, lower_eq_map]
      cases first.lowered with
      | error error => rfl
      | ok head =>
          cases second.lowered with
          | error error => rfl
          | ok rest =>
              refine (congrArg Except.ok (Lowered.combine_binary hop hinner hfront)).trans ?_
              show _ = match head.term.constant? with
                | some b => _
                | none => _
              cases head.term.constant? <;> rfl
    · rename_i hinner
      refine combine_eq_join fun _ _ _ _ _ _ hshape' => ?_
      rw [hshape] at hshape'
      cases hshape'
      exact Bool.eq_false_iff.mpr hinner
  · rename_i hother
    refine combine_eq_join fun a inner first second hop hfront hshape => ?_
    exact absurd hshape (hother a inner first second hop hfront)

end Expr

end Graphing
