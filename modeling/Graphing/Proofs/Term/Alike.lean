import Graphing.Proofs.Binary64.Alike
import Graphing.Proofs.Expr.Lowering

/-!
# Terms up to the words of NaNs

Terms are `Alike` if they have one shape and their constants are alike. The constructors that
work out constants keep the relation. A lowered formula carries a term and perhaps a product,
and what matters of both is what becomes of them on the right of an operator: that is how
`Lowered.Alike` is stated, so that a literal can be alike to a quotient.
-/

namespace Graphing

/-- Terms of one shape whose constants are the same up to the words of NaNs. -/
inductive Term.Alike : Term Binary64 → Term Binary64 → Prop
  | const {a b : Binary64} : a.Alike b → Alike (.const a) (.const b)
  | var : Alike .var .var
  | neg {s t} : Alike s t → Alike (.neg s) (.neg t)
  | binary {op s t s' t'} : Alike s s' → Alike t t' →
      Alike (.binary op s t) (.binary op s' t')
  | call {function s t} : Alike s t → Alike (.call function s) (.call function t)

/-- The same error, or values that are related. -/
inductive SameResult {ε β γ : Type} (related : β → γ → Prop) :
    Except ε β → Except ε γ → Prop
  | error (error : ε) : SameResult related (.error error) (.error error)
  | ok {b c} : related b c → SameResult related (.ok b) (.ok c)

theorem SameResult.cases {ε β γ : Type} {related : β → γ → Prop} {x : Except ε β}
    {y : Except ε γ} (h : SameResult related x y) :
    (∃ error, x = .error error ∧ y = .error error) ∨
      ∃ b c, x = .ok b ∧ y = .ok c ∧ related b c := by
  cases h with
  | error error => exact .inl ⟨error, rfl, rfl⟩
  | ok h => exact .inr ⟨_, _, rfl, rfl, h⟩

namespace Term

theorem Alike.refl (t : Term Binary64) : t.Alike t := by
  induction t with
  | const value => exact .const (.refl value)
  | var => exact .var
  | neg operand ih => exact .neg ih
  | binary op left right ihLeft ihRight => exact .binary ihLeft ihRight
  | call function argument ih => exact .call ih

variable {s t s' t' : Term Binary64}

theorem Alike.negate (h : s.Alike t) : s.negate.Alike t.negate := by
  cases h with
  | const hc => exact .const hc.neg
  | var => exact .neg .var
  | neg h => exact .neg (.neg h)
  | binary hl hr => exact .neg (.binary hl hr)
  | call h => exact .neg (.call h)

theorem Alike.applyBuiltin (function : Builtin) (h : s.Alike t) :
    (s.applyBuiltin function).Alike (t.applyBuiltin function) := by
  cases h with
  | const hc => exact .const (hc.call function)
  | var => exact .call .var
  | neg h => exact .call (.neg h)
  | binary hl hr => exact .call (.binary hl hr)
  | call h => exact .call (.call h)

theorem Alike.join (op : Operator) (h : s.Alike s') (h' : t.Alike t') :
    (join op s t).Alike (join op s' t') := by
  cases h with
  | const hc =>
      cases h' with
      | const hd => exact .const (hc.apply op hd)
      | var => exact .binary (.const hc) .var
      | neg h' => exact .binary (.const hc) (.neg h')
      | binary hl hr => exact .binary (.const hc) (.binary hl hr)
      | call h' => exact .binary (.const hc) (.call h')
  | var => exact .binary .var h'
  | neg h => exact .binary (.neg h) h'
  | binary hl hr => exact .binary (.binary hl hr) h'
  | call h => exact .binary (.call h) h'

theorem Alike.exists_const_left {b : Binary64} (h : s.Alike (.const b)) :
    ∃ a, s = .const a ∧ a.Alike b := by
  cases h with
  | const hc => exact ⟨_, rfl, hc⟩

theorem Alike.exists_const_right {a : Binary64} (h : Alike (.const a) t) :
    ∃ b, t = .const b ∧ a.Alike b := by
  cases h with
  | const hc => exact ⟨_, rfl, hc⟩

end Term

namespace Lowered

theorem combine_of_product_eq_none (op : Operator) (s : Term Binary64) {l : Lowered Binary64}
    (h : l.product = none) : combine op s l = .join op s l.term := by
  rcases combine_cases op s l with ⟨_, _, _, _, _, _, hpair, _⟩ | ⟨_, hcombine⟩
  · rw [h] at hpair
    cases hpair
  · exact hcombine

theorem combine_of_product_eq_some {op inner : Operator} {a b : Binary64}
    {rest : Term Binary64} {l : Lowered Binary64} (hop : op.isMultiplicative = true)
    (h : l.product = some (inner, .const b, rest)) :
    combine op (.const a) l =
      .join (Term.regroup op inner) (.const (Arithmetic.apply op a b)) rest := by
  simp only [combine, hop, h]

/-- Lowered formulas that cannot be told apart, neither by their terms nor on the right of
an operator. -/
structure Alike (l r : Lowered Binary64) : Prop where
  term : l.term.Alike r.term
  combine : ∀ (op : Operator) {s t : Term Binary64}, s.Alike t →
    (combine op s l).Alike (Lowered.combine op t r)

/-- Two products of like operands, or none. -/
def ProductAlike (l r : Lowered Binary64) : Prop :=
  (l.product = none ∧ r.product = none) ∨
    ∃ op a b a' b', l.product = some (op, a, b) ∧ r.product = some (op, a', b') ∧
      a.Alike a' ∧ b.Alike b'

theorem ProductAlike.combine {l r : Lowered Binary64} (hproduct : ProductAlike l r)
    (hterm : l.term.Alike r.term) (op : Operator) {s t : Term Binary64} (h : s.Alike t) :
    (combine op s l).Alike (Lowered.combine op t r) := by
  rcases hproduct with ⟨hl, hr⟩ | ⟨inner, a, b, a', b', hl, hr, ha, hb⟩
  · rw [combine_of_product_eq_none op s hl, combine_of_product_eq_none op t hr]
    exact h.join op hterm
  · rcases combine_cases op s l with
      ⟨c, _, d, rest, hop, rfl, hpair, hcombine⟩ | ⟨hne, hcombine⟩
    · -- constants are at the same places on both sides, so both are regrouped
      cases hl.symm.trans hpair
      obtain ⟨c', rfl, hc⟩ := h.exists_const_right
      obtain ⟨d', rfl, hd⟩ := ha.exists_const_right
      rw [hcombine, combine_of_product_eq_some hop hr]
      exact Term.Alike.join _ (.const (hc.apply op hd)) hb
    · rcases combine_cases op t r with
        ⟨c', _, d', rest', hop, rfl, hpair, _⟩ | ⟨_, hcombine'⟩
      · cases hr.symm.trans hpair
        obtain ⟨c, rfl, _⟩ := h.exists_const_left
        obtain ⟨d, rfl, _⟩ := ha.exists_const_left
        exact absurd hl (hne c inner d b hop rfl)
      · rw [hcombine, hcombine']
        exact h.join op hterm

theorem Alike.plain {s t : Term Binary64} (h : s.Alike t) : Alike (plain s) (plain t) :=
  ⟨h, fun op _ _ hleft => ProductAlike.combine (.inl ⟨rfl, rfl⟩) h op hleft⟩

theorem Alike.binary (op : Operator) {l r l' r' : Lowered Binary64} (hl : l.Alike l')
    (hr : r.Alike r') : Alike (binary op l r) (Lowered.binary op l' r') := by
  have hproduct : ProductAlike (Lowered.binary op l r) (Lowered.binary op l' r') := by
    by_cases hop : op.isMultiplicative = true
    · refine .inr ⟨op, l.term, r.term, l'.term, r'.term, ?_, ?_, hl.term, hr.term⟩
      · simp [Lowered.binary, hop]
      · simp [Lowered.binary, hop]
    · exact .inl ⟨by simp [Lowered.binary, hop], by simp [Lowered.binary, hop]⟩
  have hterm := hr.combine op hl.term
  exact ⟨hterm, fun op' _ _ hleft => hproduct.combine hterm op' hleft⟩

end Lowered

end Graphing
