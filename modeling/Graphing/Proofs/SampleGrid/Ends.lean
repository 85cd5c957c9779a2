import Graphing.Proofs.Binary64.Error
import Graphing.SampleGrid

/-!
# The ends of a grid

A grid from one place to another is meant to hold both and nothing outside them (`Spans`). Its
places are computed with six roundings: the range, the number of steps, the step, the index,
their product, and the sum with the first place.

Rounding keeps the order, so the places never decrease, and the first one is exact. Whether the
grid ends where it should is decided by the last place alone, therefore. It is close, but it may
fall short of the end or lie past it. If the range is too large to be represented, no place of
the grid is a finite number.
-/

namespace Graphing.SampleGrid

open Binary64

-- powers are those of core, whatever other instances there are
attribute [local instance (high)] instPowNat

/-! ## Places of a grid -/

/-- Both ends are places of a grid, the first and the last one, and no place lies outside. -/
structure Spans (grid : SampleGrid) (low high : Binary64) : Prop where
  first : (grid.place 0).ieeeEq low = true
  last : (grid.place (grid.count - 1)).ieeeEq high = true
  inside : ∀ i < grid.count,
    low.ieeeLe (grid.place i) = true ∧ (grid.place i).ieeeLe high = true

/-- Two finite numbers in order, and how many places there are to be from one to the other. -/
structure IsRange (low high : Binary64) (count : Nat) : Prop where
  low_finite : low.isFinite = true
  high_finite : high.isFinite = true
  ordered : low.ieeeLe high = true
  two_le : 2 ≤ count
  lt_size : count < 2 ^ (64 : Nat)

/-- The step from one number to another without rounding. -/
def exactStep (low high : Binary64) (count : Nat) : ℚ :=
  (high.value - low.value) / (count - 1 : Nat)

namespace IsRange

variable {low high : Binary64} {count : Nat}

theorem units_le (h : IsRange low high count) : low.units ≤ high.units :=
  (rank_le_rank_iff h.low_finite h.high_finite).mp (ieeeLe_iff.mp h.ordered).2.2

theorem steps_finite (h : IsRange low high count) : (ofNat (count - 1)).isFinite = true := by
  have := h.lt_size
  exact isFinite_ofNat (by omega)

theorem le_steps (h : IsRange low high count) :
    (unitsPerOne : Int) ≤ (ofNat (count - 1)).units := by
  have := h.two_le
  have := h.lt_size
  exact unitsPerOne_le_units_ofNat (by omega) (by omega)

theorem steps_pos (h : IsRange low high count) : 0 < (ofNat (count - 1)).units := by
  have hone := unitsPerOne_pos
  have hle := h.le_steps
  omega

theorem step_eq (h : IsRange low high count) :
    (between low high count).step = div (sub high low) (ofNat (count - 1)) := by
  have hcount : 1 < count := h.two_le
  simp only [between, hcount, if_true]

theorem place_between (low high : Binary64) (count i : Nat) :
    (between low high count).place i =
      add low (mul (ofNat i) (between low high count).step) := rfl

/-- The range is rounded to a number that is not negative. -/
theorem range_nonneg (h : IsRange low high count) (hrange : (sub high low).isFinite = true) :
    0 ≤ (sub high low).units := by
  have hle := h.units_le
  exact (roundsTo_sub h.high_finite h.low_finite).units_nonneg hrange (by omega)

theorem step_roundsTo (h : IsRange low high count) (hrange : (sub high low).isFinite = true) :
    RoundsTo ((sub high low).units * unitsPerOne) (ofNat (count - 1)).units.natAbs
      (between low high count).step := by
  rw [h.step_eq]
  exact roundsTo_div hrange h.steps_finite h.steps_pos

/-- A step is not larger than the range. -/
theorem step_finite (h : IsRange low high count) (hrange : (sub high low).isFinite = true) :
    (between low high count).step.isFinite = true := by
  have hround := h.step_roundsTo hrange
  have hnonneg : 0 ≤ (sub high low).units * unitsPerOne :=
    Int.mul_nonneg (h.range_nonneg hrange) (Int.natCast_nonneg _)
  have hsteps := h.steps_pos
  have hle : (sub high low).units * unitsPerOne * (1 : Nat) ≤
      (sub high low).units * (ofNat (count - 1)).units.natAbs := by
    rw [Int.natCast_one, Int.mul_one, Int.natAbs_of_nonneg (Int.le_of_lt hsteps)]
    exact Int.mul_le_mul_of_nonneg_left h.le_steps (h.range_nonneg hrange)
  have hrank := hround.rank_le (roundsTo_self hrange) (Int.natAbs_pos.mpr hsteps.ne') Nat.one_pos
    hle
  have hrank' := hround.rank_of_nonneg hnonneg
  have hbound := isFinite_iff_rank.mp hrange
  rw [isFinite_iff_rank]
  omega

theorem step_nonneg (h : IsRange low high count) (hrange : (sub high low).isFinite = true) :
    0 ≤ (between low high count).step.units :=
  (h.step_roundsTo hrange).units_nonneg (h.step_finite hrange)
    (Int.mul_nonneg (h.range_nonneg hrange) (Int.natCast_nonneg _))

theorem index_finite (h : IsRange low high count) {i : Nat} (hi : i < count) :
    (ofNat i).isFinite = true := by
  have := h.lt_size
  exact isFinite_ofNat (by omega)

theorem index_nonneg (h : IsRange low high count) {i : Nat} (hi : i < count) :
    0 ≤ (ofNat i).units :=
  (roundsTo_ofNat i).units_nonneg (h.index_finite hi) (Int.natCast_nonneg _)

/-- The places never decrease. -/
theorem place_le_place (h : IsRange low high count) (hrange : (sub high low).isFinite = true)
    {i j : Nat} (hij : i ≤ j) (hj : j < count) :
    ((between low high count).place i).ieeeLe ((between low high count).place j) = true := by
  have hsize := h.lt_size
  rw [place_between, place_between]
  exact ieeeLe_add_left h.low_finite (ieeeLe_mul_right (h.index_finite (by omega))
    (h.index_finite hj) (h.step_finite hrange) (units_ofNat_le hij (by omega))
    (h.step_nonneg hrange))

/-- The first place is exact. -/
theorem place_zero (h : IsRange low high count) (hrange : (sub high low).isFinite = true) :
    ((between low high count).place 0).ieeeEq low = true := by
  obtain ⟨negative, hproduct⟩ : ∃ negative,
      mul (ofNat 0) (between low high count).step = zero negative := by
    rw [ofNat_zero, mul, view_zero, view_of_isFinite (h.step_finite hrange)]
    simp only [Nat.zero_mul]
    exact ⟨_, round_zero _ _⟩
  have hsum := roundsTo_add h.low_finite (isFinite_zero negative)
  have hunits : (zero negative).units = 0 := by
    rw [units_of_view (view_zero negative)]
    cases negative <;> rfl
  rw [hunits, Int.add_zero] at hsum
  rw [place_between, hproduct]
  exact ieeeEq_iff.mpr ⟨hsum.isNaN, isNaN_of_isFinite h.low_finite,
    hsum.rank_eq (roundsTo_self h.low_finite) Nat.one_pos⟩

/-- A range that is too large is infinite, and so is the step. -/
theorem step_of_overflow (h : IsRange low high count) (hrange : (sub high low).isFinite = false) :
    (between low high count).step = infinity false := by
  have hround := roundsTo_sub h.high_finite h.low_finite
  have hle := h.units_le
  have hsign : (ofNat (count - 1)).isNegative = false := (signedUnits_sign _ _).2 h.steps_pos
  have hrank := hround.rank_of_nonneg (by omega)
  rcases cases_of_not_isFinite hrange with hnan | ⟨negative, hinf⟩
  · rw [hround.isNaN] at hnan
    cases hnan
  · cases negative with
    | false => rw [h.step_eq, hinf, div, view_infinity, view_of_isFinite h.steps_finite, hsign]; rfl
    | true =>
        have hpos : 0 < infiniteMagnitude := by decide
        rw [hinf, rank_infinity, if_pos rfl] at hrank
        omega

/-- If the range is too large, the first place is not a number and all others are infinite. -/
theorem place_of_overflow (h : IsRange low high count)
    (hrange : (sub high low).isFinite = false) :
    ((between low high count).place 0).isNaN = true ∧
      ∀ i, 0 < i → i < count → (between low high count).place i = infinity false := by
  refine ⟨?_, ?_⟩
  · have hproduct : mul (zero false) (infinity false) = nan := by
      rw [mul, view_zero, view_infinity]
      rfl
    have hsum : add low nan = nan := by
      rw [add, view_of_isFinite h.low_finite, view_nan]
    rw [place_between, h.step_of_overflow hrange, ofNat_zero, hproduct, hsum]
    decide
  · intro i hpos hi
    have hone := unitsPerOne_pos
    have hunits := unitsPerOne_le_units_ofNat hpos (Nat.lt_trans hi h.lt_size)
    have hindex : 0 < (ofNat i).units := by omega
    have hsign : (ofNat i).isNegative = false := (signedUnits_sign _ _).2 hindex
    have hne : unitsOfMagnitude (ofNat i).magnitude ≠ 0 := by
      rw [← natAbs_units]
      omega
    rw [place_between, h.step_of_overflow hrange, mul, view_of_isFinite (h.index_finite hi),
      view_infinity]
    simp only [hne, if_false, hsign]
    exact add_infinity h.low_finite _

/-- A place that is finite was computed from finite numbers. -/
theorem product_finite (h : IsRange low high count) {i : Nat} (hi : i < count)
    (hplace : ((between low high count).place i).isFinite = true) :
    (sub high low).isFinite = true ∧
      (mul (ofNat i) (between low high count).step).isFinite = true := by
  cases hrange : (sub high low).isFinite with
  | false =>
      obtain ⟨hfirst, hothers⟩ := h.place_of_overflow hrange
      rcases Nat.eq_zero_or_pos i with rfl | hpos
      · rw [isNaN_of_isFinite hplace] at hfirst
        cases hfirst
      · rw [hothers i hpos hi, isFinite_infinity] at hplace
        cases hplace
  | true =>
      refine ⟨rfl, ?_⟩
      have hround := roundsTo_mul (h.index_finite hi) (h.step_finite hrange)
      rcases finite_or_infinity hround.isNaN with hfinite | ⟨negative, hinf⟩
      · exact hfinite
      · rw [place_between, hinf, add_infinity h.low_finite, isFinite_infinity] at hplace
        cases hplace

theorem exactStep_nonneg (h : IsRange low high count) : 0 ≤ exactStep low high count := by
  have hordered := value_le_value h.units_le
  exact div_nonneg (by linarith) (Nat.cast_nonneg _)

/-- The step is rounded three times: the range, the number of steps, and their quotient. -/
theorem step_near (h : IsRange low high count) (hrange : (sub high low).isFinite = true) :
    Within (41 / 10) (1 / 2) (between low high count).step.value
      (exactStep low high count) := by
  have hlength : 0 ≤ high.value - low.value := sub_nonneg.mpr (value_le_value h.units_le)
  have hsteps : (0 : ℚ) < (count - 1 : Nat) := by
    have := h.two_le
    exact_mod_cast (by omega : 0 < count - 1)
  have herror := value_sub_error h.high_finite h.low_finite hrange
  rw [abs_of_nonneg hlength] at herror
  have hquotient : Within 3 0 _ (exactStep low high count) :=
    Within.quotient hlength hsteps herror (value_ofNat_error h.steps_finite)
  have hround := hquotient.round (by norm_num) h.exactStep_nonneg
    (div_nonneg (value_nonneg (h.range_nonneg hrange)) (value_nonneg h.steps_pos.le))
    (value_div_error hrange h.steps_finite h.steps_pos (h.step_eq ▸ h.step_finite hrange))
  rw [h.step_eq]
  exact hround.mono h.exactStep_nonneg (by norm_num) (by norm_num)

/-- Two more roundings: the index and its product with the step. -/
theorem product_near (h : IsRange low high count) {i : Nat} (hi : i < count)
    (hrange : (sub high low).isFinite = true)
    (hproduct : (mul (ofNat i) (between low high count).step).isFinite = true) :
    Within (63 / 10) (3 / 4 * (i + 1))
      (mul (ofNat i) (between low high count).step).value
      (i * exactStep low high count) := by
  have hindex : (0 : ℚ) ≤ i := Nat.cast_nonneg i
  have hexact := mul_nonneg hindex h.exactStep_nonneg
  have hstep := value_nonneg (h.step_nonneg hrange)
  have hscaled := (h.step_near hrange).scale (by norm_num) h.exactStep_nonneg hstep hindex
    (value_ofNat_error (h.index_finite hi))
  have hround := hscaled.round (by norm_num) hexact
    (mul_nonneg (value_nonneg (h.index_nonneg hi)) hstep)
    (value_mul_error (h.index_finite hi) (h.step_finite hrange) hproduct)
  have hfactor : (1 + roundoff) * (1 + roundoff) ≤ 3 / 2 := by
    have hle := roundoff_le
    have hsquare := mul_le_mul_of_nonneg_left hle roundoff_nonneg
    linarith
  have hleast := mul_le_mul_of_nonneg_right hfactor hindex
  exact hround.mono hexact (by norm_num) (by linarith)

/-- The last rounding is that of the sum with the first place. -/
theorem place_near (h : IsRange low high count) {i : Nat} (hi : i < count)
    (hplace : ((between low high count).place i).isFinite = true) :
    |((between low high count).place i).value - (low.value + i * exactStep low high count)| ≤
      8 * roundoff * (low.absolute + high.absolute) + (i + 1) * leastPositive := by
  obtain ⟨hrange, hproduct⟩ := h.product_finite hi hplace
  have hindex : (i : ℚ) ≤ (count - 1 : Nat) := by
    exact_mod_cast (by omega : i ≤ count - 1)
  have hsteps : ((count - 1 : Nat) : ℚ) ≠ 0 := by
    have := h.two_le
    exact_mod_cast (by omega : count - 1 ≠ 0)
  -- the exact place is not past the second end
  have hlast : i * exactStep low high count ≤ high.value - low.value := by
    have hmul := mul_le_mul_of_nonneg_right hindex h.exactStep_nonneg
    rw [exactStep, mul_div_cancel₀ _ hsteps] at hmul
    exact hmul
  have hproduct' := h.product_near hi hrange hproduct
  rw [place_between] at hplace ⊢
  have hsum := hproduct'.sum (by positivity) (mul_nonneg (Nat.cast_nonneg i) h.exactStep_nonneg)
    hlast (value_add_error h.low_finite hproduct hplace)
  rw [abs_value, abs_value] at hsum
  linarith

/-- All places are finite if the ends are not among the very largest numbers. -/
theorem place_finite (h : IsRange low high count)
    (hends : 16 * (low.absolute + high.absolute) < finiteBound) {i : Nat} (hi : i < count) :
    ((between low high count).place i).isFinite = true := by
  have hlow := absolute_nonneg low
  have hhigh := absolute_nonneg high
  have hneg : low.neg.isFinite = true := by rw [isFinite_neg, h.low_finite]
  have hsum : high.absolute + low.neg.absolute < finiteBound := by
    rw [absolute_neg]
    linarith
  obtain ⟨hrange, hrange'⟩ : (sub high low).isFinite = true ∧
      (sub high low).absolute ≤ 2 * (high.absolute + low.neg.absolute) :=
    isFinite_add h.high_finite hneg hsum
  rw [absolute_neg] at hrange'
  have hsteps : 0 < (ofNat (count - 1)).absolute := by
    rw [absolute_eq_value h.steps_pos.le]
    exact div_pos (by exact_mod_cast h.steps_pos) unitsPerOne_cast_pos
  have hindex : (ofNat i).absolute ≤ (ofNat (count - 1)).absolute := by
    have hsize := h.lt_size
    rw [absolute_eq_value (h.index_nonneg hi), absolute_eq_value h.steps_pos.le]
    exact value_le_value (units_ofNat_le (by omega) (by omega))
  have hstep : (between low high count).step.absolute ≤
      2 * ((sub high low).absolute / (ofNat (count - 1)).absolute) := by
    have hfinite := h.step_finite hrange
    rw [h.step_eq] at hfinite ⊢
    have hdiv : Operator.div.isMultiplicative = true := rfl
    exact (absolute_apply hdiv hrange h.steps_finite hfinite).1
  -- the steps do not lead further than twice the range
  have hwalk : (ofNat i).absolute * (between low high count).step.absolute ≤
      2 * (sub high low).absolute := by
    calc (ofNat i).absolute * (between low high count).step.absolute
      _ ≤ (ofNat (count - 1)).absolute *
          (2 * ((sub high low).absolute / (ofNat (count - 1)).absolute)) :=
        mul_le_mul hindex hstep (absolute_nonneg _) hsteps.le
      _ = 2 * (sub high low).absolute := by
        field_simp
  have hmul : Operator.mul.isMultiplicative = true := rfl
  have hproduct : (mul (ofNat i) (between low high count).step).isFinite = true :=
    isFinite_apply hmul (h.index_finite hi) (h.step_finite hrange) (by rintro ⟨⟩)
      (lt_of_le_of_lt hwalk (by linarith))
  have hproduct' : (mul (ofNat i) (between low high count).step).absolute ≤
      2 * ((ofNat i).absolute * (between low high count).step.absolute) :=
    (absolute_apply hmul (h.index_finite hi) (h.step_finite hrange) hproduct).1
  rw [place_between]
  exact (isFinite_add h.low_finite hproduct (by linarith)).1

end IsRange

/-! ## The whole grid -/

/-- What rounding leaves of a grid between two ends. -/
structure Approximates (grid : SampleGrid) (low high : Binary64) : Prop where
  /-- It begins at the first end, unless the range is too large. -/
  first : (grid.place 0).ieeeEq low = (sub high low).isFinite
  /-- Then the places never decrease. -/
  ordered : (sub high low).isFinite = true → ∀ i j, i ≤ j → j < grid.count →
    (grid.place i).ieeeLe (grid.place j) = true
  /-- Otherwise there is no finite place. -/
  overflow : (sub high low).isFinite = false → (grid.place 0).isNaN = true ∧
    ∀ i, 0 < i → i < grid.count → grid.place i = infinity false
  /-- All places are finite if the ends are not among the very largest numbers. -/
  finite : 16 * (low.absolute + high.absolute) < finiteBound →
    ∀ i < grid.count, (grid.place i).isFinite = true
  /-- A finite place is close to where it should be. -/
  near : ∀ i < grid.count, (grid.place i).isFinite = true →
    |(grid.place i).value - (low.value + i * exactStep low high grid.count)| ≤
      8 * roundoff * (low.absolute + high.absolute) + (i + 1) * leastPositive

/-- A grid between two finite ends in order spans them if and only if its last place is the
second end: the first place and the order are right whenever the last place is finite. In every
case the grid approximates what it should be. -/
theorem between_spans_iff {low high : Binary64} {count : Nat} (h : IsRange low high count) :
    ((between low high count).Spans low high ↔
      ((between low high count).place (count - 1)).ieeeEq high = true) ∧
    (between low high count).Approximates low high := by
  have hlast : count - 1 < count := by
    have := h.two_le
    omega
  refine ⟨⟨fun hspans => hspans.last, ?_⟩, ?_⟩
  · intro heq
    obtain ⟨hnan, _, hrank⟩ := ieeeEq_iff.mp heq
    have hfinite : ((between low high count).place (count - 1)).isFinite = true := by
      rw [isFinite_iff_rank, hrank, ← isFinite_iff_rank]
      exact h.high_finite
    obtain ⟨hrange, _⟩ := h.product_finite hlast hfinite
    obtain ⟨_, hlow, hzero⟩ := ieeeEq_iff.mp (h.place_zero hrange)
    refine ⟨h.place_zero hrange, heq, ?_⟩
    intro i hi
    -- between the first place and the last, which are the ends
    obtain ⟨_, hi', hbelow⟩ := ieeeLe_iff.mp (h.place_le_place hrange (Nat.zero_le i) hi)
    obtain ⟨_, _, habove⟩ := ieeeLe_iff.mp (h.place_le_place hrange (Nat.le_sub_one_of_lt hi) hlast)
    exact ⟨ieeeLe_iff.mpr ⟨hlow, hi', hzero ▸ hbelow⟩,
      ieeeLe_iff.mpr ⟨hi', isNaN_of_isFinite h.high_finite, hrank ▸ habove⟩⟩
  · refine ⟨?_, fun hrange i j => h.place_le_place hrange, h.place_of_overflow,
      fun hends i => h.place_finite hends, fun i => h.place_near⟩
    cases hrange : (sub high low).isFinite with
    | true => exact h.place_zero hrange
    | false =>
        have hnan := (h.place_of_overflow hrange).1
        simp [ieeeEq, hnan]

/-- From minus one to one in four steps, which are halves. -/
theorem between_spans_iff_halves :
    (between (one true) (one false) 5).Spans (one true) (one false) :=
  (between_spans_iff ⟨by decide, by decide, by decide, by decide, by decide⟩).1.mpr
    (by decide +kernel)

/-- From minus a tenth to a fifth in one step: the last place is the next number after a
fifth. -/
theorem between_overshoots :
    IsRange ⟨0xbfb999999999999a⟩ ⟨0x3fc999999999999a⟩ 2 ∧
    (between ⟨0xbfb999999999999a⟩ ⟨0x3fc999999999999a⟩ 2).place 1 = ⟨0x3fc999999999999b⟩ ∧
    ¬ (between ⟨0xbfb999999999999a⟩ ⟨0x3fc999999999999a⟩ 2).Spans ⟨0xbfb999999999999a⟩
      ⟨0x3fc999999999999a⟩ := by
  refine ⟨⟨by decide, by decide, by decide, by decide, by decide⟩, by decide +kernel, ?_⟩
  intro hspans
  have hinside := (hspans.inside 1 (by decide)).2
  revert hinside
  decide +kernel

end Graphing.SampleGrid
