import Mathlib.Tactic.Ring
import Graphing.Proofs.Binary64.Absolute
import Graphing.Proofs.Cache.Ledger
import Graphing.Proofs.Expr.Grouping

/-!
# Regrouped products and infinity

A formula may be finite at a point, with every part of it, and its compiled function infinite
there: the constants of a regrouped product can be too large for each other, and where a last
digit decides, a regrouped product can hit a pole that it misses as written
(`regrouping_loses_values`).

Neither happens to a formula for which it makes no difference that products are regrouped
(`Indifferent`). Nor does it happen where regrouped products are put together by signs, sums and
products and divided by such formulas, their constants joined are finite, and estimates in the
written values stay below the bound of rounding (`Bounded`): joining the constants first costs at
most three binary digits (`isFinite_frontFirst`).
-/

namespace Graphing

namespace Binary64

/-- Regrouping is right for exact numbers. -/
theorem exactly_afterFront {op inner : Operator} (hop : op.isMultiplicative = true)
    (hinner : inner.isMultiplicative = true) (p q r : ℚ) :
    exactly (op.afterFront inner) (exactly op p q) r = exactly op p (exactly inner q r) := by
  cases op with
  | mul =>
      cases inner with
      | mul => exact mul_assoc p q r
      | div => exact mul_div_assoc p q r
      | _ => simp [Operator.isMultiplicative] at hinner
  | div =>
      cases inner with
      | mul => exact div_div p q r
      | div => exact (div_mul_eq_mul_div p q r).trans (div_div_eq_mul_div p q r).symm
      | _ => simp [Operator.isMultiplicative] at hinner
  | _ => simp [Operator.isMultiplicative] at hop

theorem exactly_le_exactly (op : Operator) {p p' q : ℚ} (hq : 0 ≤ q) (h : p ≤ p') :
    exactly op p q ≤ exactly op p' q := by
  unfold exactly
  split
  · exact mul_le_mul_of_nonneg_right h hq
  · exact div_le_div_of_nonneg_right h hq

theorem exactly_two_mul (op : Operator) (p q : ℚ) :
    exactly op (2 * p) q = 2 * exactly op p q := by
  unfold exactly
  split <;> ring

/-- The divisor of a finite product or quotient is not zero. -/
theorem absolute_ne_zero_of_apply {op : Operator} {x y : Binary64} (hx : x.isFinite = true)
    (hy : y.isFinite = true) (h : (Arithmetic.apply op x y).isFinite = true) :
    op = .div → y.absolute ≠ 0 := by
  rintro rfl
  exact absolute_ne_zero_of_div hx hy h

/-- The exact value of `u op (v inner w)` is not far beyond what it is when each operation is
rounded. -/
theorem exactly_le_of_apply {op inner : Operator} (hop : op.isMultiplicative = true)
    (hinner : inner.isMultiplicative = true) {u v w : Binary64} (hu : u.isFinite = true)
    (hv : v.isFinite = true) (hw : w.isFinite = true)
    (hright : (Arithmetic.apply inner v w).isFinite = true)
    (hwhole : (Arithmetic.apply op u (Arithmetic.apply inner v w)).isFinite = true) :
    2 * exactly op u.absolute (exactly inner v.absolute w.absolute) ≤
      8 * (Arithmetic.apply op u (Arithmetic.apply inner v w)).absolute + 1 := by
  obtain ⟨hupper, hlower⟩ := absolute_apply hinner hv hw hright
  obtain ⟨_, hwholeLower⟩ := absolute_apply hop hu hright hwhole
  have hne := absolute_ne_zero_of_apply hu hright hwhole
  have hpos := absolute_nonneg (Arithmetic.apply inner v w)
  have hu' := absolute_nonneg u
  have hsmall := leastPositive_le
  have hlarge := absolute_mul_leastPositive_le hu
  generalize (Arithmetic.apply op u (Arithmetic.apply inner v w)).absolute = whole at *
  generalize (Arithmetic.apply inner v w).absolute = rounded at *
  generalize exactly inner v.absolute w.absolute = right at *
  cases op with
  | mul =>
      change u.absolute * rounded ≤ _ at hwholeLower
      show 2 * (u.absolute * right) ≤ _
      have hscaled := mul_le_mul_of_nonneg_left hlower hu'
      calc 2 * (u.absolute * right)
        _ ≤ 2 * (u.absolute * (2 * rounded + leastPositive)) := by linarith
        _ = 4 * (u.absolute * rounded) + 2 * (u.absolute * leastPositive) := by ring
        _ ≤ 8 * whole + 1 := by linarith
  | div =>
      change u.absolute / rounded ≤ _ at hwholeLower
      show 2 * (u.absolute / right) ≤ _
      have hrounded : 0 < rounded := lt_of_le_of_ne hpos (Ne.symm (hne rfl))
      have hinverse : u.absolute / right ≤ u.absolute / (rounded / 2) :=
        div_le_div_of_nonneg_left hu' (by linarith) (by linarith)
      calc 2 * (u.absolute / right)
        _ ≤ 2 * (u.absolute / (rounded / 2)) := by linarith
        _ = 4 * (u.absolute / rounded) := by field_simp; ring
        _ ≤ 8 * whole + 1 := by linarith
  | _ => simp [Operator.isMultiplicative] at hop

theorem isMultiplicative_afterFront (op : Operator) {inner : Operator}
    (hinner : inner.isMultiplicative = true) :
    (op.afterFront inner).isMultiplicative = true := by
  unfold Operator.afterFront
  split
  · exact hinner
  · split <;> rfl

/-- What a finite product or quotient divides by in the end is not zero. -/
theorem absolute_ne_zero_of_afterFront {op inner : Operator} (hop : op.isMultiplicative = true)
    (hinner : inner.isMultiplicative = true) {u v w : Binary64} (hu : u.isFinite = true)
    (hv : v.isFinite = true) (hw : w.isFinite = true)
    (hright : (Arithmetic.apply inner v w).isFinite = true)
    (hwhole : (Arithmetic.apply op u (Arithmetic.apply inner v w)).isFinite = true) :
    op.afterFront inner = .div → w.absolute ≠ 0 := by
  intro hafter hzero
  cases op with
  | mul => exact absolute_ne_zero_of_apply hv hw hright hafter hzero
  | div =>
      cases inner with
      | mul =>
          -- the right operand would be zero, and nothing is divided by zero
          have hupper := (absolute_apply hinner hv hw hright).1
          have hnonneg := absolute_nonneg (Arithmetic.apply .mul v w)
          rw [exactly, if_pos rfl, hzero, mul_zero, mul_zero] at hupper
          exact absolute_ne_zero_of_apply hu hright hwhole rfl (le_antisymm hupper hnonneg)
      | div => cases hafter
      | _ => simp [Operator.isMultiplicative] at hinner
  | _ => simp [Operator.isMultiplicative] at hop

/-- A product or quotient that is finite as written stays finite with its front joined first, if
the joined front is finite and the written value leaves three binary digits of room. -/
theorem isFinite_frontFirst {op inner : Operator} (hop : op.isMultiplicative = true)
    (hinner : inner.isMultiplicative = true) {u v w : Binary64} (hu : u.isFinite = true)
    (hv : v.isFinite = true) (hw : w.isFinite = true)
    (hright : (Arithmetic.apply inner v w).isFinite = true)
    (hwhole : (Arithmetic.apply op u (Arithmetic.apply inner v w)).isFinite = true)
    (hfront : (Arithmetic.apply op u v).isFinite = true)
    (hroom : 8 * (Arithmetic.apply op u (Arithmetic.apply inner v w)).absolute + 1 <
      finiteBound) :
    (Arithmetic.apply (op.afterFront inner) (Arithmetic.apply op u v) w).isFinite = true ∧
      (Arithmetic.apply (op.afterFront inner) (Arithmetic.apply op u v) w).absolute ≤
        16 * (Arithmetic.apply op u (Arithmetic.apply inner v w)).absolute + 2 := by
  have hafter := isMultiplicative_afterFront op hinner
  have hne := absolute_ne_zero_of_afterFront hop hinner hu hv hw hright hwhole
  have hle : exactly (op.afterFront inner) (Arithmetic.apply op u v).absolute w.absolute ≤
      8 * (Arithmetic.apply op u (Arithmetic.apply inner v w)).absolute + 1 := by
    calc exactly (op.afterFront inner) (Arithmetic.apply op u v).absolute w.absolute
      _ ≤ exactly (op.afterFront inner) (2 * exactly op u.absolute v.absolute) w.absolute :=
        exactly_le_exactly _ (absolute_nonneg w) (absolute_apply hop hu hv hfront).1
      _ = 2 * exactly op u.absolute (exactly inner v.absolute w.absolute) := by
        rw [exactly_two_mul, exactly_afterFront hop hinner]
      _ ≤ _ := exactly_le_of_apply hop hinner hu hv hw hright hwhole
  have hfinite := isFinite_apply hafter hfront hw hne (lt_of_le_of_lt hle hroom)
  have hupper := (absolute_apply hafter hfront hw hfinite).1
  exact ⟨hfinite, by linarith⟩

/-- The number `0.1`. -/
def tenth : Binary64 := ⟨0x3fb999999999999a⟩

end Binary64

namespace Expr

variable {α : Type}

/-- A formula and all the formulas that it is made of. -/
def subformulas : Expr α → List (Expr α)
  | .lit value => [.lit value]
  | .ident name => [.ident name]
  | .pos operand => .pos operand :: operand.subformulas
  | .group inner => .group inner :: inner.subformulas
  | .neg operand => .neg operand :: operand.subformulas
  | .call name argument => .call name argument :: argument.subformulas
  | .binary op left right => .binary op left right :: (left.subformulas ++ right.subformulas)

theorem mem_subformulas_self (e : Expr α) : e ∈ e.subformulas := by
  cases e <;> simp [subformulas]

theorem subformulas_ungrouped_subset (e : Expr α) : e.ungrouped.subformulas ⊆ e.subformulas := by
  induction e with
  | group inner ih => exact fun _ h => List.mem_cons_of_mem _ (ih h)
  | _ => exact fun _ h => h

/-- Every intermediate result is finite when a formula is worked out at a point as it is
written. -/
def FiniteThroughout (x : Binary64) (formula : Formula) : Prop :=
  ∀ part ∈ formula.subformulas, (part.written x).any Binary64.isFinite = true

instance (x : Binary64) (formula : Formula) : Decidable (formula.FiniteThroughout x) :=
  inferInstanceAs (Decidable (∀ part ∈ formula.subformulas, _))

namespace FiniteThroughout

variable {x : Binary64}

theorem mono {formula part : Formula} (h : formula.FiniteThroughout x)
    (hsub : part.subformulas ⊆ formula.subformulas) : part.FiniteThroughout x :=
  fun smaller hmem => h smaller (hsub hmem)

theorem value {formula : Formula} (h : formula.FiniteThroughout x) :
    ∃ v, formula.written x = some v ∧ v.isFinite = true := by
  have hany := h formula formula.mem_subformulas_self
  cases hwritten : formula.written x with
  | none =>
      rw [hwritten] at hany
      cases hany
  | some v =>
      rw [hwritten] at hany
      exact ⟨v, rfl, hany⟩

theorem isFinite {formula : Formula} (h : formula.FiniteThroughout x) {v : Binary64}
    (hv : formula.written x = some v) : v.isFinite = true := by
  obtain ⟨w, hw, hfinite⟩ := h.value
  cases hv.symm.trans hw
  exact hfinite

theorem binary {op : Operator} {left right : Formula}
    (h : FiniteThroughout x (.binary op left right)) :
    left.FiniteThroughout x ∧ right.FiniteThroughout x := by
  constructor
  · exact h.mono fun _ hmem => List.mem_cons_of_mem _ (List.mem_append_left _ hmem)
  · exact h.mono fun _ hmem => List.mem_cons_of_mem _ (List.mem_append_right _ hmem)

end FiniteThroughout

/-- Estimates of the value that a compiled formula has at a point, from its written values.
Where it makes no difference that products are regrouped, it is the written value; a
regrouped product needs room for three more digits, and sums, products and quotients of
estimates must stay below the bound of rounding. -/
inductive Bounded (x : Binary64) : Formula → ℚ → Prop
  | settled {formula v} : Indifferent never known x formula → formula.written x = some v →
      Bounded x formula v.absolute
  | pos {operand p} : Bounded x operand p → Bounded x (.pos operand) p
  | group {inner p} : Bounded x inner p → Bounded x (.group inner) p
  | neg {operand p} : Bounded x operand p → Bounded x (.neg operand) p
  | add {left right p q} : Bounded x left p → Bounded x right q →
      p + q < Binary64.finiteBound → Bounded x (.binary .add left right) (2 * (p + q))
  | sub {left right p q} : Bounded x left p → Bounded x right q →
      p + q < Binary64.finiteBound → Bounded x (.binary .sub left right) (2 * (p + q))
  | mul {left right p q} : regrouping? .mul left right = none → Bounded x left p →
      Bounded x right q → p * q < Binary64.finiteBound →
      Bounded x (.binary .mul left right) (2 * (p * q))
  | div {left right p v} : regrouping? .div left right = none → Bounded x left p →
      Indifferent never known x right → right.written x = some v →
      p / v.absolute < Binary64.finiteBound →
      Bounded x (.binary .div left right) (2 * (p / v.absolute))
  | regrouped {op left right inner a b u v d} :
      regrouping? op left right = some (inner, a, b) →
      Indifferent never known x left → Indifferent never known x a →
      Indifferent never known x b → left.written x = some u → a.written x = some v →
      (Arithmetic.apply op u v).isFinite = true →
      (Expr.binary op left right).written x = some d →
      8 * d.absolute + 1 < Binary64.finiteBound →
      Bounded x (.binary op left right) (16 * d.absolute + 2)

theorem regrouping?_eq_none {op : Operator} (h : op.isMultiplicative = false)
    (left right : Formula) : regrouping? op left right = none := by
  cases hparts : regrouping? op left right with
  | none => rfl
  | some parts =>
      obtain ⟨inner, a, b⟩ := parts
      have hop := (regrouping?_eq_some hparts).2.1
      rw [h] at hop
      cases hop

theorem reference_binary_of_none {x : Binary64} {op : Operator} {left right : Formula}
    (h : regrouping? op left right = none) {u v : Binary64} (hu : left.reference x = some u)
    (hv : right.reference x = some v) :
    (Expr.binary op left right).reference x = some (Arithmetic.apply op u v) := by
  rw [reference_eq_grouped] at hu hv ⊢
  rw [regrouping?_eq_joining?] at h
  rw [grouped_of_joining?_eq_none h, hu, hv]
  rfl

theorem reference_binary_of_some {x : Binary64} {op inner : Operator} {left right a b : Formula}
    (h : regrouping? op left right = some (inner, a, b)) {u v w : Binary64}
    (hu : left.reference x = some u) (hv : a.reference x = some v)
    (hw : b.reference x = some w) :
    (Expr.binary op left right).reference x =
      some (Arithmetic.apply (op.afterFront inner) (Arithmetic.apply op u v) w) := by
  rw [reference_eq_grouped] at hu hv hw ⊢
  rw [regrouping?_eq_joining?] at h
  rw [grouped_of_joining?_eq_some h, hu, hv, hw]
  rfl

/-- The written value of a product that is regrouped, from its three operands. -/
theorem written_of_regrouping? {x : Binary64} {op inner : Operator} {left right a b : Formula}
    (h : regrouping? op left right = some (inner, a, b)) {u v d : Binary64}
    (hu : left.written x = some u) (hv : a.written x = some v)
    (hd : (Expr.binary op left right).written x = some d) :
    ∃ w, b.written x = some w ∧ right.written x = some (Arithmetic.apply inner v w) ∧
      Arithmetic.apply op u (Arithmetic.apply inner v w) = d := by
  obtain ⟨u', m, hu', hm, happly⟩ := written_binary_eq_some_iff.mp hd
  cases hu.symm.trans hu'
  have hparts := hm
  rw [← written_ungrouped, (regrouping?_eq_some h).1] at hparts
  obtain ⟨v', w, hv', hw, rfl⟩ := written_binary_eq_some_iff.mp hparts
  cases hv.symm.trans hv'
  exact ⟨w, hw, hm, happly⟩

/-- An estimated formula has a finite value, and the estimate is right. -/
theorem Bounded.isFinite_reference {x : Binary64} {formula : Formula} {q : ℚ}
    (h : Bounded x formula q) (hfinite : formula.FiniteThroughout x) :
    ∃ v, formula.reference x = some v ∧ v.isFinite = true ∧ v.absolute ≤ q := by
  induction h with
  | settled hsettled hwritten =>
      exact ⟨_, (reference_eq_written hsettled).trans hwritten, hfinite.isFinite hwritten,
        le_refl _⟩
  | pos _ ih =>
      obtain ⟨v, hv, hvalue⟩ := ih (hfinite.mono (List.subset_cons_self _ _))
      exact ⟨v, by rw [reference, hv], hvalue⟩
  | group _ ih =>
      obtain ⟨v, hv, hvalue⟩ := ih (hfinite.mono (List.subset_cons_self _ _))
      exact ⟨v, by rw [reference, hv], hvalue⟩
  | neg _ ih =>
      obtain ⟨v, hv, hvalue⟩ := ih (hfinite.mono (List.subset_cons_self _ _))
      refine ⟨v.neg, by rw [reference, hv]; rfl, ?_⟩
      rw [Binary64.isFinite_neg, Binary64.absolute_neg]
      exact hvalue
  | add _ _ hroom ihLeft ihRight =>
      obtain ⟨u, hu, huFinite, hup⟩ := ihLeft hfinite.binary.1
      obtain ⟨v, hv, hvFinite, hvq⟩ := ihRight hfinite.binary.2
      obtain ⟨hsum, hle⟩ := Binary64.isFinite_add huFinite hvFinite (by linarith)
      exact ⟨_, reference_binary_of_none (regrouping?_eq_none rfl _ _) hu hv, hsum,
        hle.trans (by linarith)⟩
  | sub _ _ hroom ihLeft ihRight =>
      obtain ⟨u, hu, huFinite, hup⟩ := ihLeft hfinite.binary.1
      obtain ⟨v, hv, hvFinite, hvq⟩ := ihRight hfinite.binary.2
      rw [← Binary64.isFinite_neg] at hvFinite
      rw [← Binary64.absolute_neg] at hvq
      obtain ⟨hsum, hle⟩ := Binary64.isFinite_add huFinite hvFinite (by linarith)
      exact ⟨_, reference_binary_of_none (regrouping?_eq_none rfl _ _) hu hv, hsum,
        hle.trans (by linarith)⟩
  | mul hapart _ _ hroom ihLeft ihRight =>
      obtain ⟨u, hu, huFinite, hup⟩ := ihLeft hfinite.binary.1
      obtain ⟨v, hv, hvFinite, hvq⟩ := ihRight hfinite.binary.2
      have hle := mul_le_mul hup hvq (Binary64.absolute_nonneg v)
        ((Binary64.absolute_nonneg u).trans hup)
      have hproduct : (Arithmetic.apply .mul u v).isFinite = true :=
        Binary64.isFinite_apply rfl huFinite hvFinite (fun h => by cases h)
          (lt_of_le_of_lt hle hroom)
      have hupper := (Binary64.absolute_apply rfl huFinite hvFinite hproduct).1
      exact ⟨_, reference_binary_of_none hapart hu hv, hproduct, hupper.trans
        (mul_le_mul_of_nonneg_left hle (by norm_num))⟩
  | @div left right p v hapart _ hsettled hv hroom ihLeft =>
      obtain ⟨u, hu, huFinite, hup⟩ := ihLeft hfinite.binary.1
      have hvFinite := hfinite.binary.2.isFinite hv
      -- the written quotient is finite, so its divisor is not zero
      obtain ⟨d, hd, hdFinite⟩ := hfinite.value
      obtain ⟨u', v', hu', hv', rfl⟩ := written_binary_eq_some_iff.mp hd
      cases hv.symm.trans hv'
      have hne := Binary64.absolute_ne_zero_of_div (hfinite.binary.1.isFinite hu') hvFinite
        hdFinite
      have hle := Binary64.exactly_le_exactly .div (Binary64.absolute_nonneg v) hup
      have hquotient : (Arithmetic.apply .div u v).isFinite = true :=
        Binary64.isFinite_apply rfl huFinite hvFinite (fun _ => hne) (lt_of_le_of_lt hle hroom)
      have hupper := (Binary64.absolute_apply rfl huFinite hvFinite hquotient).1
      exact ⟨_, reference_binary_of_none hapart hu ((reference_eq_written hsettled).trans hv),
        hquotient, hupper.trans (mul_le_mul_of_nonneg_left hle (by norm_num))⟩
  | regrouped hjoined hleft ha hb hu hv hfront hwhole hroom =>
      obtain ⟨hop, _, hinner, _⟩ := (regrouping?_eq_some hjoined).2
      obtain ⟨w, hw, hright, rfl⟩ := written_of_regrouping? hjoined hu hv hwhole
      -- the parts of the right operand are parts of the formula
      have hparts := hfinite.binary.2.mono (subformulas_ungrouped_subset _)
      rw [(regrouping?_eq_some hjoined).1] at hparts
      obtain ⟨hvalue, hle⟩ := Binary64.isFinite_frontFirst hop hinner
        (hfinite.binary.1.isFinite hu) (hparts.binary.1.isFinite hv)
        (hparts.binary.2.isFinite hw) (hfinite.binary.2.isFinite hright)
        (hfinite.isFinite hwhole) hfront hroom
      refine ⟨_, reference_binary_of_some hjoined ?_ ?_ ?_, hvalue, hle⟩
      · rw [reference_eq_written hleft, hu]
      · rw [reference_eq_written ha, hv]
      · rw [reference_eq_written hb, hw]

/-- A formula all of whose intermediate results at a point are finite has a finite value there
when it is compiled, if it makes no difference to it that products are regrouped, and then it is
the written one; or if there is an estimate of its value, and then the value is within it. -/
theorem isFinite_function (formula : Formula) (identity : Nat) (artifact : Artifact)
    (hcompile : formula.compile identity = .ok artifact) (x : Binary64)
    (hfinite : formula.FiniteThroughout x) :
    (Indifferent never known x formula → (artifact.function x).isFinite = true ∧
      formula.written x = some (artifact.function x)) ∧
    ∀ q, Bounded x formula q →
      (artifact.function x).isFinite = true ∧ (artifact.function x).absolute ≤ q := by
  have hfunction : formula.reference x = some (artifact.function x) :=
    reference_eq_some_closure Binary64.squaresByProduct (compile_eq_ok_iff.mp hcompile).1 x
  constructor
  · intro hsettled
    have hwritten := (reference_eq_written hsettled).symm.trans hfunction
    exact ⟨hfinite.isFinite hwritten, hwritten⟩
  · intro q hbounded
    obtain ⟨v, hv, hvalue⟩ := hbounded.isFinite_reference hfinite
    cases hfunction.symm.trans hv
    exact hvalue

/-- `5 * (3 * x)` -/
def fifteenfold : Formula :=
  .binary .mul (.lit ⟨0x4014000000000000⟩)
    (.group (.binary .mul (.lit ⟨0x4008000000000000⟩) (.ident "x")))

/-- `-(5 * (3 * x)) - 5 * (3 * x)` -/
def minusThirtyfold : Formula :=
  .binary .sub (.neg (.group fifteenfold)) fifteenfold

/-- Two regrouped products put together: the value at `0.1` is not the written one, but it is
finite. -/
theorem isFinite_function_thirtyfold :
    ∃ artifact, minusThirtyfold.compile 0 = .ok artifact ∧
      minusThirtyfold.FiniteThroughout Binary64.tenth ∧
      minusThirtyfold.written Binary64.tenth ≠ some (artifact.function Binary64.tenth) ∧
      (artifact.function Binary64.tenth).isFinite = true := by
  have hcompile : minusThirtyfold.compile 0 = .ok ⟨0, minusThirtyfold.fingerprint,
      .binary .sub (.neg (.binary .mul (.const ⟨0x402e000000000000⟩) .var))
        (.binary .mul (.const ⟨0x402e000000000000⟩) .var)⟩ := by
    decide +kernel
  have hfinite : minusThirtyfold.FiniteThroughout Binary64.tenth := by decide +kernel
  have hroom : 8 * Binary64.absolute ⟨0x3ff8000000000001⟩ + 1 < Binary64.finiteBound := by
    decide +kernel
  have hproduct : Bounded Binary64.tenth fifteenfold
      (16 * Binary64.absolute ⟨0x3ff8000000000001⟩ + 2) := by
    refine .regrouped (u := ⟨0x4014000000000000⟩) (v := ⟨0x4008000000000000⟩)
      rfl (.lit _) (.lit _) (.ident _) rfl rfl ?_ ?_ hroom
    · decide +kernel
    · decide +kernel
  have hbounded := Bounded.sub (.neg (.group hproduct)) hproduct (by decide +kernel)
  refine ⟨_, hcompile, hfinite, by decide +kernel, ?_⟩
  exact ((isFinite_function _ 0 _ hcompile Binary64.tenth hfinite).2 _ hbounded).1

/-- `10 ^ 200 * (10 ^ 200 * x)` -/
def twiceLarge : Formula :=
  .binary .mul (.lit ⟨0x6974e718d7d7625a⟩)
    (.group (.binary .mul (.lit ⟨0x6974e718d7d7625a⟩) (.ident "x")))

/-- `1 / (5 * (3 * x) - 1.5)` -/
def poleNearTenth : Formula :=
  .binary .div (.lit (.one false))
    (.group (.binary .sub fifteenfold (.lit ⟨0x3ff8000000000000⟩)))

/-- Values can be lost. The constants of `10 ^ 200 * (10 ^ 200 * x)` are infinite when they are
joined, though the formula is finite throughout at `10 ^ (-300)`; and `1 / (5 * (3 * x) - 1.5)`,
which is finite throughout at `0.1`, has a pole there once `5 * 3` is worked out first. -/
theorem regrouping_loses_values :
    (∃ artifact, twiceLarge.compile 0 = .ok artifact ∧
      twiceLarge.FiniteThroughout ⟨0x01a56e1fc2f8f359⟩ ∧
      (artifact.function ⟨0x01a56e1fc2f8f359⟩).isFinite = false) ∧
    ∃ artifact, poleNearTenth.compile 0 = .ok artifact ∧
      poleNearTenth.FiniteThroughout Binary64.tenth ∧
      (artifact.function Binary64.tenth).isFinite = false := by
  constructor
  · refine ⟨⟨0, twiceLarge.fingerprint, .binary .mul (.const (.infinity false)) .var⟩, ?_, ?_, ?_⟩
    · decide +kernel
    · decide +kernel
    · decide +kernel
  · refine ⟨⟨0, poleNearTenth.fingerprint, .binary .div (.const (.one false))
      (.binary .sub (.binary .mul (.const ⟨0x402e000000000000⟩) .var)
        (.const ⟨0x3ff8000000000000⟩))⟩, ?_, ?_, ?_⟩
    · decide +kernel
    · decide +kernel
    · decide +kernel

end Expr

end Graphing
