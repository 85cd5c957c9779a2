import Graphing.Proofs.Expr.Lowering

/-!
# What lowering collapses

Whatever does not read the variable becomes one constant, and nothing else is lost: a term
has as many variables as the formula has, no part of it without a variable is more than a
constant (`Term.Collapsed`), and it is no larger than the formula.

Each constructor that works out constants keeps these three, and so does the one place
that builds a term from the operands of an operand, the regrouping of products. There the
product beside a term has to account for the formula as well as the term does, which is what
`Lowered.Accounts` says.
-/

namespace Graphing

/-! ## Variables and parts -/

namespace Expr

variable {α : Type}

/-- How often a formula mentions the variable. -/
def variableCount : Expr α → Nat
  | .lit _ => 0
  | .ident name => if name = variableName then 1 else 0
  | .neg operand => operand.variableCount
  | .pos operand => operand.variableCount
  | .binary _ left right => left.variableCount + right.variableCount
  | .call _ argument => argument.variableCount
  | .group inner => inner.variableCount

/-- The number of nodes of a formula. -/
def size : Expr α → Nat
  | .lit _ => 1
  | .ident _ => 1
  | .neg operand => 1 + operand.size
  | .pos operand => 1 + operand.size
  | .binary _ left right => 1 + left.size + right.size
  | .call _ argument => 1 + argument.size
  | .group inner => 1 + inner.size

end Expr

namespace Term

variable {α : Type}

/-- How often a term reads the variable. -/
def variableCount : Term α → Nat
  | .const _ => 0
  | .var => 1
  | .neg operand => operand.variableCount
  | .binary _ left right => left.variableCount + right.variableCount
  | .call _ argument => argument.variableCount

/-- The parts of a term, itself among them. -/
def subterms : Term α → List (Term α)
  | .const value => [.const value]
  | .var => [.var]
  | .neg operand => .neg operand :: operand.subterms
  | .binary op left right => .binary op left right :: (left.subterms ++ right.subterms)
  | .call function argument => .call function argument :: argument.subterms

theorem mem_subterms_self (t : Term α) : t ∈ t.subterms := by
  cases t <;> simp [subterms]

/-- Every part that does not read the variable is a constant. -/
def Collapsed (t : Term α) : Prop :=
  ∀ part ∈ t.subterms, part.variableCount = 0 → ∃ c, part = .const c

namespace Collapsed

variable {s t l r : Term α}

theorem const (value : α) : (Term.const value).Collapsed := by
  intro part hpart _
  exact ⟨value, List.mem_singleton.mp hpart⟩

theorem var : (Term.var : Term α).Collapsed := by
  intro part hpart hzero
  rw [List.mem_singleton.mp hpart] at hzero
  cases hzero

/-- A collapsed term without the variable is a constant itself. -/
theorem eq_const (h : t.Collapsed) (hzero : t.variableCount = 0) : ∃ c, t = .const c :=
  h t t.mem_subterms_self hzero

theorem variableCount_ne_zero (h : t.Collapsed) (hne : t.constant? = none) :
    t.variableCount ≠ 0 := by
  intro hzero
  obtain ⟨c, rfl⟩ := h.eq_const hzero
  cases hne

/-- A node above collapsed parts is collapsed if it reads the variable. -/
theorem cons (hcount : t.variableCount ≠ 0) {parts : List (Term α)}
    (hsub : t.subterms = t :: parts)
    (hparts : ∀ part ∈ parts, part.variableCount = 0 → ∃ c, part = .const c) :
    t.Collapsed := by
  intro part hpart hzero
  rw [hsub] at hpart
  rcases List.mem_cons.mp hpart with rfl | hpart
  · exact absurd hzero hcount
  · exact hparts part hpart hzero

variable [Arithmetic α]

theorem negate (h : t.Collapsed) : t.negate.Collapsed := by
  cases t with
  | const value => exact .const _
  | _ => exact .cons (h.variableCount_ne_zero rfl) rfl h

theorem applyBuiltin (h : t.Collapsed) (function : Builtin) :
    (t.applyBuiltin function).Collapsed := by
  cases t with
  | const value => exact .const _
  | _ => exact .cons (h.variableCount_ne_zero rfl) rfl h

/-- Two operands are joined to a constant, or one of them reads the variable. -/
theorem join (op : Operator) (hl : l.Collapsed) (hr : r.Collapsed) :
    (join op l r).Collapsed := by
  have hbinary (hcount : l.variableCount + r.variableCount ≠ 0) :
      (Term.binary op l r).Collapsed := by
    refine .cons hcount rfl ?_
    intro part hpart
    rcases List.mem_append.mp hpart with hpart | hpart
    · exact hl part hpart
    · exact hr part hpart
  cases l with
  | const a =>
      cases r with
      | const b => exact .const _
      | _ =>
          have := hr.variableCount_ne_zero rfl
          exact hbinary (by omega)
  | _ =>
      have := hl.variableCount_ne_zero rfl
      exact hbinary (by omega)

end Collapsed

/-! ## Constants worked out -/

variable [Arithmetic α]

theorem variableCount_negate (t : Term α) : t.negate.variableCount = t.variableCount := by
  cases t <;> rfl

theorem variableCount_applyBuiltin (function : Builtin) (t : Term α) :
    (t.applyBuiltin function).variableCount = t.variableCount := by
  cases t <;> rfl

theorem variableCount_join (op : Operator) (l r : Term α) :
    (join op l r).variableCount = l.variableCount + r.variableCount := by
  cases l with
  | const a => cases r <;> rfl
  | _ => rfl

theorem size_negate_le (t : Term α) : t.negate.size ≤ 1 + t.size := by
  cases t with
  | const value => exact Nat.le_add_left 1 1
  | _ => exact Nat.le_refl _

theorem size_applyBuiltin_le (function : Builtin) (t : Term α) :
    (t.applyBuiltin function).size ≤ 1 + t.size := by
  cases t with
  | const value => exact Nat.le_add_left 1 1
  | _ => exact Nat.le_refl _

theorem size_join_le (op : Operator) (l r : Term α) :
    (join op l r).size ≤ 1 + l.size + r.size := by
  cases l with
  | const a =>
      cases r with
      | const b => exact Nat.le_add_left 1 2
      | _ => exact Nat.le_refl _
  | _ => exact Nat.le_refl _

end Term

/-! ## Lowered formulas -/

namespace Lowered

variable {α : Type}

/-- A term accounts for a formula: it is collapsed, it reads the variable as often as the
formula mentions it, and it is not larger. The product beside it, if there is one, would
account for the formula in its place. -/
structure Accounts (l : Lowered α) (e : Expr α) : Prop where
  collapsed : l.term.Collapsed
  variableCount : l.term.variableCount = e.variableCount
  size : l.term.size ≤ e.size
  product : ∀ op a b, l.product = some (op, a, b) → a.Collapsed ∧ b.Collapsed ∧
    a.variableCount + b.variableCount = e.variableCount ∧ 1 + a.size + b.size ≤ e.size

theorem Accounts.plain {t : Term α} {e : Expr α} (hcollapsed : t.Collapsed)
    (hcount : t.variableCount = e.variableCount) (hsize : t.size ≤ e.size) :
    (Lowered.plain t).Accounts e :=
  ⟨hcollapsed, hcount, hsize, fun _ _ _ h => by cases h⟩

variable [Arithmetic α] {l r : Lowered α} {left right : Expr α}

/-- Regrouping takes the constants in front of both operands together: neither a variable nor
a node is gained by it. -/
theorem Accounts.combine (op : Operator) (hl : l.Accounts left) (hr : r.Accounts right) :
    (combine op l.term r).Collapsed ∧
      (combine op l.term r).variableCount = left.variableCount + right.variableCount ∧
      (combine op l.term r).size ≤ 1 + left.size + right.size := by
  have hleft := hl.size
  rcases combine_cases op l.term r with
    ⟨a, inner, b, rest, _, hconst, hpair, hcombine⟩ | ⟨_, hcombine⟩
  · obtain ⟨_, hrest, hcount, hsize⟩ := hr.product inner _ rest hpair
    have hnone : left.variableCount = 0 := by
      rw [← hl.variableCount, hconst]
      rfl
    have hjoin := Term.size_join_le (Term.regroup op inner)
      (.const (Arithmetic.apply op a b)) rest
    rw [hcombine]
    refine ⟨.join _ (.const _) hrest, ?_, ?_⟩
    · rw [Term.variableCount_join, hnone, ← hcount, Nat.zero_add]
      rfl
    · simp only [Term.size] at hjoin hsize
      omega
  · have hright := hr.size
    have hjoin := Term.size_join_le op l.term r.term
    rw [hcombine]
    refine ⟨hl.collapsed.join op hr.collapsed, ?_, by omega⟩
    rw [Term.variableCount_join, hl.variableCount, hr.variableCount]

theorem Accounts.binary (op : Operator) (hl : l.Accounts left) (hr : r.Accounts right) :
    (binary op l r).Accounts (.binary op left right) := by
  obtain ⟨hcollapsed, hcount, hsize⟩ := hl.combine op hr
  refine ⟨hcollapsed, hcount, hsize, ?_⟩
  intro op' a b hpair
  simp only [Lowered.binary] at hpair
  split at hpair
  · cases hpair
    have hleft := hl.size
    have hright := hr.size
    refine ⟨hl.collapsed, hr.collapsed, ?_, ?_⟩
    · rw [hl.variableCount, hr.variableCount]
      rfl
    · show _ ≤ 1 + left.size + right.size
      omega
  · cases hpair

end Lowered

namespace Expr

variable {α : Type} [Arithmetic α]

theorem accounts_of_lowerName {name : String} {t : Term α} (h : lowerName name = .ok t) :
    (Lowered.plain t).Accounts (.ident name) := by
  unfold lowerName at h
  split at h
  · rename_i hx
    cases h
    exact .plain .var (by rw [variableCount, if_pos hx]; rfl) (Nat.le_refl 1)
  · rename_i hx
    split at h
    · cases h
      exact .plain (.const _) (by rw [variableCount, if_neg hx]; rfl) (Nat.le_refl 1)
    · cases h

theorem accounts_of_lowered {e : Expr α} {result : Lowered α} (h : e.lowered = .ok result) :
    result.Accounts e := by
  induction e generalizing result with
  | lit value =>
      cases h
      exact .plain (.const value) rfl (Nat.le_refl 1)
  | ident name =>
      obtain ⟨term, hname, rfl⟩ := lowered_ident_eq_ok_iff.mp h
      exact accounts_of_lowerName hname
  | neg operand ih =>
      obtain ⟨inner, hinner, rfl⟩ := lowered_neg_eq_ok_iff.mp h
      have hoperand := ih hinner
      refine .plain hoperand.collapsed.negate ?_ ?_
      · exact (Term.variableCount_negate _).trans hoperand.variableCount
      · exact Nat.le_trans (Term.size_negate_le _) (Nat.add_le_add_left hoperand.size 1)
  | pos operand ih =>
      obtain ⟨inner, hinner, rfl⟩ := lowered_pos_eq_ok_iff.mp h
      have hoperand := ih hinner
      exact .plain hoperand.collapsed hoperand.variableCount
        (Nat.le_add_left_of_le hoperand.size)
  | call name argument ih =>
      obtain ⟨function, inner, _, hinner, rfl⟩ := lowered_call_eq_ok_iff.mp h
      have hargument := ih hinner
      refine .plain (hargument.collapsed.applyBuiltin function) ?_ ?_
      · exact (Term.variableCount_applyBuiltin function _).trans hargument.variableCount
      · exact Nat.le_trans (Term.size_applyBuiltin_le function _)
          (Nat.add_le_add_left hargument.size 1)
  | group inner ih =>
      -- parentheses leave the product where it is, and make the formula larger
      have hinner := ih h
      refine ⟨hinner.collapsed, hinner.variableCount, Nat.le_add_left_of_le hinner.size, ?_⟩
      intro op a b hpair
      obtain ⟨ha, hb, hcount, hsize⟩ := hinner.product op a b hpair
      exact ⟨ha, hb, hcount, Nat.le_add_left_of_le hsize⟩
  | binary op left right ihLeft ihRight =>
      obtain ⟨l, r, hl, hr, rfl⟩ := lowered_binary_eq_ok_iff.mp h
      exact (ihLeft hl).binary op (ihRight hr)

/-- Lowering collapses exactly the constant parts of a formula and loses no variable: in the
term every part without the variable is a single constant, the term is a constant if and only
if the formula does not mention the variable, it reads the variable as often as the formula
mentions it, and it has at most as many nodes. -/
theorem lower_collapses {e : Expr α} {t : Term α} (h : e.lower = .ok t) :
    (∀ part ∈ t.subterms, part.variableCount = 0 → ∃ c, part = .const c) ∧
      ((∃ c, t = .const c) ↔ e.mentionsVariable = false) ∧
      t.variableCount = e.variableCount ∧ t.size ≤ e.size := by
  obtain ⟨result, hresult, rfl⟩ := lower_eq_ok_iff.mp h
  have haccounts := accounts_of_lowered hresult
  refine ⟨haccounts.collapsed, ?_, haccounts.variableCount, haccounts.size⟩
  constructor
  · rintro ⟨c, hc⟩
    exact mentionsVariable_of_term_eq_const hresult hc
  · exact exists_term_eq_const hresult

/-- In `2 / (sin(1) * x) - -(x / e)` two constants are brought together from different depths,
and the term keeps both variables. -/
theorem lower_collapses_quotients :
    ∃ t : Term Binary64,
      Expr.lower (.binary .sub
        (.binary .div (.lit Binary64.two)
          (.group (.binary .mul (.call "sin" (.lit (.one false))) (.ident "x"))))
        (.neg (.group (.binary .div (.ident "x") (.ident "e"))))) = .ok t ∧
      t.variableCount = 2 ∧ t.size = 8 ∧
      ∀ part ∈ t.subterms, part.variableCount = 0 → ∃ c, part = .const c := by
  have h : ∃ a, Expr.lower (.binary .sub
      (.binary .div (.lit Binary64.two)
        (.group (.binary .mul (.call "sin" (.lit (.one false))) (.ident "x"))))
      (.neg (.group (.binary .div (.ident "x") (.ident "e"))))) =
        .ok (.binary .sub (.binary .div (.const a) .var)
          (.neg (.binary .div .var (.const Binary64.e)))) :=
    ⟨_, rfl⟩
  obtain ⟨a, ha⟩ := h
  exact ⟨_, ha, rfl, rfl, (lower_collapses ha).1⟩

end Expr

end Graphing
