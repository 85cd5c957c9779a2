import Mathlib
import Graphing.Proofs.Expr.Lowering

/-!
# What carries no meaning

Parentheses and the case of letters in the names of functions and of `pi` do not matter to
lowering. `Expr.canonical` takes them away, at every place of a formula, and a formula lowers to
the same result without them, the product beside the term included
(`lowered_canonical_eq_ok_iff`). With the product the induction needs no case for products that
are regrouped: what the rules look at is the same on both sides.
-/

namespace Graphing

/-! ## Letter case -/

theorem Text.lowerCase_lowerCase (s : String) :
    Text.lowerCase (Text.lowerCase s) = Text.lowerCase s := by
  simp [Text.lowerCase, Function.comp_def]

theorem Builtin.ofName?_lowerCase (name : String) :
    Builtin.ofName? (Text.lowerCase name) = Builtin.ofName? name := by
  simp only [Builtin.ofName?, Text.equalIgnoringCase, Text.lowerCase_lowerCase]

namespace Expr

variable {α : Type}

/-- A name with its capitals made small if it spells `pi`. -/
def canonicalName (name : String) : String :=
  if Text.equalIgnoringCase name "pi" then Text.lowerCase name else name

/-- The formula without parentheses, with the names of functions and of `pi` in small letters. -/
def canonical : Expr α → Expr α
  | .lit value => .lit value
  | .ident name => .ident (canonicalName name)
  | .neg operand => .neg operand.canonical
  | .pos operand => .pos operand.canonical
  | .binary op left right => .binary op left.canonical right.canonical
  | .call name argument => .call (Text.lowerCase name) argument.canonical
  | .group inner => inner.canonical

variable [Arithmetic α]

theorem lowerName_canonicalName (name : String) :
    (lowerName (canonicalName name) : Except CompileError (Term α)) = lowerName name := by
  unfold canonicalName
  split
  · rename_i hpi
    have hlower : Text.lowerCase name = "pi" := of_decide_eq_true hpi
    have hx : name ≠ variableName := by
      rintro rfl
      revert hlower
      decide
    have he : name ≠ "e" := by
      rintro rfl
      revert hlower
      decide
    rw [hlower, lowerName, lowerName, if_neg hx, constant?, constant?, if_neg he, if_pos hpi]
    rfl
  · rfl

/-- A formula lowers to the same result without parentheses and capitals. -/
theorem lowered_canonical_eq_ok_iff {e : Expr α} {result : Lowered α} :
    e.canonical.lowered = .ok result ↔ e.lowered = .ok result := by
  induction e generalizing result with
  | lit value => rfl
  | ident name => rw [canonical, lowered, lowered, lowerName_canonicalName]
  | neg operand ih => simp only [canonical, lowered_neg_eq_ok_iff, ih]
  | pos operand ih => simp only [canonical, lowered_pos_eq_ok_iff, ih]
  | call name argument ih =>
      simp only [canonical, lowered_call_eq_ok_iff, Builtin.ofName?_lowerCase, ih]
  | group inner ih => exact ih
  | binary op left right ihLeft ihRight =>
      simp only [canonical, lowered_binary_eq_ok_iff, ihLeft, ihRight]

theorem lower_canonical_eq_ok_iff {e : Expr α} {t : Term α} :
    e.canonical.lower = .ok t ↔ e.lower = .ok t := by
  simp only [lower_eq_ok_iff, lowered_canonical_eq_ok_iff]

/-- Parentheses and the letter case of built-in names carry no meaning: of two formulas that
differ in nothing else one is lowered if and only if the other is, and to the same term. -/
theorem lower_eq_of_canonical_eq {a b : Expr α} (h : a.canonical = b.canonical) :
    ((∃ t, a.lower = .ok t) ↔ ∃ t, b.lower = .ok t) ∧
      ∀ t u, a.lower = .ok t → b.lower = .ok u → t = u := by
  have hsame : ∀ t, a.lower = .ok t ↔ b.lower = .ok t := by
    intro t
    rw [← lower_canonical_eq_ok_iff, h, lower_canonical_eq_ok_iff]
  refine ⟨exists_congr hsame, ?_⟩
  intro t u ht hu
  rw [hsame, hu] at ht
  exact (Except.ok.inj ht).symm

/-- `2 / ((PI * SIN(((x)))))` -/
def loudSine : Formula :=
  .binary .div (.lit Binary64.two) (.group (.group (.binary .mul (.ident "PI")
    (.call "SIN" (.group (.group (.ident "x")))))))

/-- `(2) / (pi * (sin(x)))` -/
def quietSine : Formula :=
  .binary .div (.group (.lit Binary64.two)) (.group (.binary .mul (.ident "pi")
    (.group (.call "sin" (.ident "x")))))

/-- Parentheses around the product, its front and the argument, and capitals, change nothing:
both formulas are regrouped. -/
theorem lower_eq_of_canonical_eq_sine :
    loudSine.canonical = quietSine.canonical ∧
      ∃ c, loudSine.lower = .ok (.binary .div (.const c) (.call .sin .var)) ∧
        quietSine.lower = .ok (.binary .div (.const c) (.call .sin .var)) := by
  have hsame : loudSine.canonical = quietSine.canonical := by decide +kernel
  have hloud : ∃ c, loudSine.lower = .ok (.binary .div (.const c) (.call .sin .var)) := ⟨_, rfl⟩
  obtain ⟨c, hc⟩ := hloud
  obtain ⟨hlowers, heq⟩ := lower_eq_of_canonical_eq hsame
  obtain ⟨u, hu⟩ := hlowers.mp ⟨_, hc⟩
  refine ⟨hsame, c, hc, ?_⟩
  rw [heq _ u hc hu]
  exact hu

end Expr

end Graphing
