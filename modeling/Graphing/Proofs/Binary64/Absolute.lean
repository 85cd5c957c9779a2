import Mathlib.Algebra.Order.Field.Rat
import Mathlib.Tactic.FieldSimp
import Mathlib.Tactic.Linarith
import Mathlib.Tactic.Positivity
import Graphing.Operator
import Graphing.Proofs.Binary64.Alike

/-!
# Absolute values, and what rounding does to them

`absolute` is the rational number that a finite word stands for, without its sign. Rounding at
most doubles it, loses at most half of it and the least positive number (`absolute_round`), and
does not reach infinity below `2 ^ 1023` (`isFinite_round`). These bounds are coarse, but they
hold of all finite numbers, also where the format has fewer than fifty-three digits left, and
they carry over to products, quotients and sums.
-/

namespace Graphing.Binary64

-- powers are those of core, whatever other instances there are
attribute [local instance (high)] instPowNat

/-! ## Rounding counts of units -/

theorem divNearest_mul_le (num den : Nat) : divNearest num den * den ≤ 2 * num := by
  have hsplit := Nat.div_add_mod' num den
  have hstep : (num / den + 1) * den = num / den * den + den := Nat.succ_mul _ _
  have htie : (num / den + num / den % 2) * den ≤ (num / den + 1) * den :=
    Nat.mul_le_mul_right den (by omega)
  simp only [divNearest]
  split
  · omega
  · split <;> omega

theorem le_divNearest_mul (num : Nat) {den : Nat} (hd : 0 < den) :
    2 * num ≤ 2 * (divNearest num den * den) + den := by
  have hsplit := Nat.div_add_mod' num den
  have hrest := Nat.mod_lt num hd
  have hstep : (num / den + 1) * den = num / den * den + den := Nat.succ_mul _ _
  have htie : num / den * den ≤ (num / den + num / den % 2) * den :=
    Nat.mul_le_mul_right den (by omega)
  simp only [divNearest]
  split
  · omega
  · split <;> omega

theorem div_le_divNearest (num den : Nat) :
    num / den ≤ divNearest num den ∧ divNearest num den ≤ num / den + 1 := by
  simp only [divNearest]
  split
  · omega
  · split <;> omega

/-- The significand that a fraction is rounded to. -/
def significand (num den : Nat) : Nat :=
  divNearest num (den * 2 ^ excessBits num den)

theorem significand_le (num den : Nat) : significand num den ≤ 2 ^ (53 : Nat) := by
  have hle := (div_le_divNearest num (den * 2 ^ excessBits num den)).2
  have hlog : num / den < 2 ^ (excessBits num den + 53) := by
    refine Nat.lt_of_lt_of_le Nat.lt_log2_self (Nat.pow_le_pow_right (by decide) ?_)
    unfold excessBits
    omega
  have hlt : num / (den * 2 ^ excessBits num den) < 2 ^ (53 : Nat) := by
    rw [← Nat.div_div_eq_div_mul]
    refine Nat.div_lt_of_lt_mul ?_
    rw [← Nat.pow_add]
    exact hlog
  unfold significand
  omega

/-- A fraction with digits cut off has fifty-three digits before them. -/
theorem le_of_excessBits {num den : Nat} (h : excessBits num den ≠ 0) :
    2 ^ (52 : Nat) * (den * 2 ^ excessBits num den) ≤ num := by
  have hne : num / den ≠ 0 := by
    intro hzero
    rw [excessBits, hzero] at h
    exact h rfl
  have hlog : 2 ^ ((num / den).log2) ≤ num / den := Nat.log2_self_le hne
  have hbits : (num / den).log2 = 52 + excessBits num den := by
    unfold excessBits at h ⊢
    omega
  rw [hbits, Nat.pow_add] at hlog
  calc 2 ^ (52 : Nat) * (den * 2 ^ excessBits num den)
    _ = den * (2 ^ (52 : Nat) * 2 ^ excessBits num den) := Nat.mul_left_comm _ _ _
    _ ≤ den * (num / den) := Nat.mul_le_mul_left den hlog
    _ ≤ num := Nat.mul_div_le num den

/-- A significand of fewer than fifty-three digits has none cut off. -/
theorem excessBits_eq_zero_or (num den : Nat) :
    excessBits num den = 0 ∨ 2 ^ (52 : Nat) ≤ significand num den := by
  by_cases hzero : excessBits num den = 0
  · exact .inl hzero
  · have hle := (div_le_divNearest num (den * 2 ^ excessBits num den)).1
    have hden : 0 < den := by
      rcases Nat.eq_zero_or_pos den with rfl | hpos
      · rw [excessBits, Nat.div_zero] at hzero
        exact absurd rfl hzero
      · exact hpos
    refine .inr (Nat.le_trans ?_ hle)
    exact (Nat.le_div_iff_mul_le (Nat.mul_pos hden (Nat.two_pow_pos _))).mpr
      (le_of_excessBits hzero)

/-- A significand that rounds up to a power of two carries into the exponent, and the units
come out right. -/
theorem unitsOfMagnitude_add {excess digits : Nat} (hle : digits ≤ 2 ^ (53 : Nat))
    (hnormal : excess = 0 ∨ 2 ^ (52 : Nat) ≤ digits) :
    unitsOfMagnitude (excess * 2 ^ (52 : Nat) + digits) = digits * 2 ^ excess := by
  simp only [unitsOfMagnitude]
  rcases Nat.lt_or_ge digits (2 ^ (52 : Nat)) with hsmall | hlarge
  · obtain rfl : excess = 0 := by omega
    rw [if_pos (by omega)]
    omega
  rcases Nat.lt_or_ge digits (2 ^ (53 : Nat)) with hless | hcarry
  · have hfield : (excess * 2 ^ (52 : Nat) + digits) / 2 ^ (52 : Nat) = excess + 1 := by omega
    have hfraction : 2 ^ (52 : Nat) + (excess * 2 ^ (52 : Nat) + digits) % 2 ^ (52 : Nat) =
        digits := by omega
    rw [hfield, hfraction, if_neg (by omega), Nat.add_sub_cancel]
  · have hfield : (excess * 2 ^ (52 : Nat) + digits) / 2 ^ (52 : Nat) = excess + 1 + 1 := by omega
    have hfraction : (excess * 2 ^ (52 : Nat) + digits) % 2 ^ (52 : Nat) = 0 := by omega
    have hdigits : digits = 2 ^ (52 : Nat) * 2 := by omega
    have hpower : 2 ^ (excess + 1) = 2 * 2 ^ excess := Nat.pow_succ'
    rw [hfield, hfraction, if_neg (by omega), Nat.add_sub_cancel, Nat.add_zero, hdigits, hpower,
      Nat.mul_assoc]

theorem magnitude_round (negative : Bool) (num den : Nat) :
    (round negative num den).magnitude = roundMagnitude num den := by
  have hlt := Nat.lt_of_le_of_lt (roundMagnitude_le num den) infiniteMagnitude_lt
  exact magnitude_ofMagnitude negative hlt

/-- The units of a fraction that is rounded to a finite number. -/
theorem units_round {negative : Bool} {num den : Nat}
    (h : (round negative num den).isFinite = true) :
    unitsOfMagnitude (round negative num den).magnitude =
      significand num den * 2 ^ excessBits num den := by
  simp only [isFinite, magnitude_round, decide_eq_true_eq] at h
  rw [magnitude_round]
  have hmin : roundMagnitude num den =
      excessBits num den * 2 ^ (52 : Nat) + significand num den := by
    rw [roundMagnitude] at h ⊢
    exact Nat.min_eq_left (by omega)
  rw [hmin]
  exact unitsOfMagnitude_add (significand_le num den) (excessBits_eq_zero_or num den)

theorem units_round_le {negative : Bool} {num den : Nat}
    (h : (round negative num den).isFinite = true) :
    unitsOfMagnitude (round negative num den).magnitude * den ≤ 2 * num := by
  have hle := divNearest_mul_le num (den * 2 ^ excessBits num den)
  rw [units_round h, Nat.mul_assoc, Nat.mul_comm _ den]
  exact hle

theorem le_units_round {negative : Bool} {num den : Nat} (hd : 0 < den)
    (h : (round negative num den).isFinite = true) :
    num ≤ (2 * unitsOfMagnitude (round negative num den).magnitude + 1) * den := by
  have hpos : 0 < den * 2 ^ excessBits num den := Nat.mul_pos hd (Nat.two_pow_pos _)
  have hle : 2 * num ≤ 2 * (significand num den * (den * 2 ^ excessBits num den)) +
      den * 2 ^ excessBits num den := le_divNearest_mul num hpos
  rw [units_round h]
  rcases excessBits_eq_zero_or num den with hzero | hnormal
  · rw [hzero, Nat.pow_zero, Nat.mul_one] at hle ⊢
    rw [Nat.add_mul, Nat.one_mul, Nat.mul_assoc]
    omega
  · -- half of the last place is less than the whole number
    have hone : 1 * (den * 2 ^ excessBits num den) ≤
        significand num den * (den * 2 ^ excessBits num den) :=
      Nat.mul_le_mul_right _ (Nat.le_trans (by decide) hnormal)
    rw [Nat.add_mul, Nat.one_mul, Nat.mul_assoc 2, Nat.mul_assoc _ _ den,
      Nat.mul_comm _ den]
    omega

theorem isFinite_round_of_lt {num den : Nat} (negative : Bool)
    (h : num / den < 2 ^ (1023 + 1074 : Nat)) : (round negative num den).isFinite = true := by
  have hexcess : excessBits num den ≤ 2044 := by
    unfold excessBits
    by_cases hzero : num / den = 0
    · rw [hzero]
      decide
    · have := (Nat.log2_lt hzero).mpr h
      omega
  have hsignificand := significand_le num den
  have hle : roundMagnitude num den ≤
      excessBits num den * 2 ^ (52 : Nat) + significand num den := Nat.min_le_left _ _
  simp only [isFinite, magnitude_round, decide_eq_true_eq, infiniteMagnitude]
  omega

/-! ## Absolute values -/

/-- The number that a finite word stands for, without its sign. -/
def absolute (x : Binary64) : ℚ :=
  unitsOfMagnitude x.magnitude / unitsPerOne

/-- The least positive number. -/
def leastPositive : ℚ :=
  1 / unitsPerOne

theorem unitsPerOne_cast_pos : (0 : ℚ) < unitsPerOne := by
  exact_mod_cast unitsPerOne_pos

theorem absolute_nonneg (x : Binary64) : 0 ≤ x.absolute := by
  unfold absolute
  positivity

/-- Rounding a fraction at most doubles it, and loses at most half of it and the least
positive number. -/
theorem absolute_round {negative : Bool} {num den : Nat} (hd : 0 < den)
    (h : (round negative num den).isFinite = true) :
    (round negative num den).absolute ≤ 2 * (num / den / unitsPerOne) ∧
      num / den / unitsPerOne ≤ 2 * (round negative num den).absolute + leastPositive := by
  have hone := unitsPerOne_cast_pos
  have hden : (0 : ℚ) < den := by exact_mod_cast hd
  have hupper : (unitsOfMagnitude (round negative num den).magnitude : ℚ) * den ≤ 2 * num := by
    exact_mod_cast units_round_le h
  have hlower : (num : ℚ) ≤
      (2 * unitsOfMagnitude (round negative num den).magnitude + 1) * den := by
    exact_mod_cast le_units_round hd h
  unfold absolute leastPositive
  constructor
  · rw [← mul_div_assoc, div_le_div_iff_of_pos_right hone, ← mul_div_assoc, le_div_iff₀ hden]
    exact hupper
  · rw [← mul_div_assoc, ← add_div, div_le_div_iff_of_pos_right hone, div_le_iff₀ hden]
    exact hlower

/-- The bound below which nothing is rounded to infinity. -/
def finiteBound : ℚ :=
  2 ^ (1023 : Nat)

theorem two_pow_mul_cast (a b : Nat) : (2 : ℚ) ^ a * (2 ^ b : Nat) = (2 ^ (a + b) : Nat) := by
  push_cast
  rw [pow_add]

theorem isFinite_round (negative : Bool) {num den : Nat} (hd : 0 < den)
    (h : (num : ℚ) / den / unitsPerOne < finiteBound) :
    (round negative num den).isFinite = true := by
  have hden : (0 : ℚ) < den := by exact_mod_cast hd
  have hunits : finiteBound * unitsPerOne = ((2 ^ (1023 + 1074 : Nat) : Nat) : ℚ) := by
    rw [finiteBound, unitsPerOne]
    exact two_pow_mul_cast 1023 1074
  rw [div_lt_iff₀ unitsPerOne_cast_pos, hunits, div_lt_iff₀ hden] at h
  refine isFinite_round_of_lt negative (Nat.div_lt_of_lt_mul ?_)
  rw [Nat.mul_comm]
  exact_mod_cast h

/-! ## Operations -/

theorem isFinite_neg (x : Binary64) : (neg x).isFinite = x.isFinite := by
  rw [neg, isFinite, magnitude_ofMagnitude _ x.magnitude_lt, isFinite]

theorem absolute_neg (x : Binary64) : (neg x).absolute = x.absolute := by
  rw [neg, absolute, magnitude_ofMagnitude _ x.magnitude_lt, absolute]

theorem mul_of_isFinite {x y : Binary64} (hx : x.isFinite = true) (hy : y.isFinite = true) :
    mul x y = round (x.isNegative ^^ y.isNegative)
      (unitsOfMagnitude x.magnitude * unitsOfMagnitude y.magnitude) unitsPerOne := by
  rw [mul, view_of_isFinite hx, view_of_isFinite hy]

theorem units_eq_zero_iff {x : Binary64} : unitsOfMagnitude x.magnitude = 0 ↔ x.absolute = 0 := by
  rw [absolute, div_eq_zero_iff, Nat.cast_eq_zero, or_iff_left unitsPerOne_cast_pos.ne']

theorem div_of_isFinite {x y : Binary64} (hx : x.isFinite = true) (hy : y.isFinite = true) :
    div x y = if y.absolute = 0 then
        if x.absolute = 0 then nan else infinity (x.isNegative ^^ y.isNegative)
      else round (x.isNegative ^^ y.isNegative)
        (unitsOfMagnitude x.magnitude * unitsPerOne) (unitsOfMagnitude y.magnitude) := by
  rw [div, view_of_isFinite hx, view_of_isFinite hy]
  simp only [units_eq_zero_iff]

/-- A product or quotient of rational numbers. -/
def exactly (op : Operator) (p q : ℚ) : ℚ :=
  if op = .mul then p * q else p / q

/-- A product or quotient of finite numbers is the exact one, rounded; only a division by zero
is not. -/
theorem apply_eq_round {op : Operator} (hop : op.isMultiplicative = true) {x y : Binary64}
    (hx : x.isFinite = true) (hy : y.isFinite = true)
    (hne : op = .div → y.absolute ≠ 0) :
    ∃ negative num den, 0 < den ∧ Arithmetic.apply op x y = round negative num den ∧
      (num : ℚ) / den / unitsPerOne = exactly op x.absolute y.absolute := by
  have hone := unitsPerOne_cast_pos.ne'
  cases op with
  | mul =>
      refine ⟨_, _, _, unitsPerOne_pos, mul_of_isFinite hx hy, ?_⟩
      rw [exactly, if_pos rfl, absolute, absolute]
      push_cast
      field_simp
  | div =>
      have hdiv := div_of_isFinite hx hy
      rw [if_neg (hne rfl)] at hdiv
      have hunits : unitsOfMagnitude y.magnitude ≠ 0 := mt units_eq_zero_iff.mp (hne rfl)
      refine ⟨_, _, _, Nat.pos_of_ne_zero hunits, hdiv, ?_⟩
      have hcast : (unitsOfMagnitude y.magnitude : ℚ) ≠ 0 := by exact_mod_cast hunits
      rw [exactly, if_neg (by decide), absolute, absolute]
      push_cast
      field_simp
  | _ => simp [Operator.isMultiplicative] at hop

theorem isFinite_zero (negative : Bool) : (zero negative).isFinite = true := by
  revert negative
  decide

theorem absolute_zero (negative : Bool) : (zero negative).absolute = 0 := by
  have hmagnitude : (zero negative).magnitude = 0 := magnitude_ofMagnitude negative (by decide)
  refine units_eq_zero_iff.mp ?_
  rw [hmagnitude]
  rfl

theorem isFinite_infinity (negative : Bool) : (infinity negative).isFinite = false := by
  revert negative
  decide

/-- The divisor of a finite quotient is not zero. -/
theorem absolute_ne_zero_of_div {x y : Binary64} (hx : x.isFinite = true) (hy : y.isFinite = true)
    (h : (div x y).isFinite = true) : y.absolute ≠ 0 := by
  intro hzero
  rw [div_of_isFinite hx hy, if_pos hzero] at h
  split at h
  · cases h
  · rw [isFinite_infinity] at h
    cases h

/-- A finite product or quotient is at most twice the exact one and at least half of it, but
for the least positive number. -/
theorem absolute_apply {op : Operator} (hop : op.isMultiplicative = true) {x y : Binary64}
    (hx : x.isFinite = true) (hy : y.isFinite = true)
    (h : (Arithmetic.apply op x y).isFinite = true) :
    (Arithmetic.apply op x y).absolute ≤ 2 * exactly op x.absolute y.absolute ∧
      exactly op x.absolute y.absolute ≤
        2 * (Arithmetic.apply op x y).absolute + leastPositive := by
  have hne : op = .div → y.absolute ≠ 0 := by
    rintro rfl
    exact absolute_ne_zero_of_div hx hy h
  obtain ⟨negative, num, den, hden, happly, hexact⟩ := apply_eq_round hop hx hy hne
  rw [happly] at h ⊢
  rw [← hexact]
  exact absolute_round hden h

theorem isFinite_apply {op : Operator} (hop : op.isMultiplicative = true) {x y : Binary64}
    (hx : x.isFinite = true) (hy : y.isFinite = true) (hne : op = .div → y.absolute ≠ 0)
    (h : exactly op x.absolute y.absolute < finiteBound) :
    (Arithmetic.apply op x y).isFinite = true := by
  obtain ⟨negative, num, den, hden, happly, hexact⟩ := apply_eq_round hop hx hy hne
  rw [happly]
  exact isFinite_round negative hden (by rw [hexact]; exact h)

theorem natAbs_signedUnits_le (s t : Bool) (a b : Nat) :
    (signedUnits s a + signedUnits t b).natAbs ≤ a + b := by
  unfold signedUnits
  split <;> split <;> omega

/-- A sum of finite numbers is finite if their absolute values stay below the bound, and at
most twice their sum. -/
theorem isFinite_add {x y : Binary64} (hx : x.isFinite = true) (hy : y.isFinite = true)
    (h : x.absolute + y.absolute < finiteBound) :
    (add x y).isFinite = true ∧ (add x y).absolute ≤ 2 * (x.absolute + y.absolute) := by
  have hone := unitsPerOne_cast_pos
  rw [add, view_of_isFinite hx, view_of_isFinite hy]
  simp only
  have hle := natAbs_signedUnits_le x.isNegative y.isNegative (unitsOfMagnitude x.magnitude)
    (unitsOfMagnitude y.magnitude)
  generalize signedUnits x.isNegative (unitsOfMagnitude x.magnitude) +
    signedUnits y.isNegative (unitsOfMagnitude y.magnitude) = sum at hle ⊢
  have hsum : (sum.natAbs : ℚ) / (1 : Nat) / unitsPerOne ≤ x.absolute + y.absolute := by
    rw [Nat.cast_one, div_one, absolute, absolute, ← add_div,
      div_le_div_iff_of_pos_right hone]
    exact_mod_cast hle
  split
  · rw [absolute_zero]
    have hx' := absolute_nonneg x
    have hy' := absolute_nonneg y
    exact ⟨isFinite_zero _, by positivity⟩
  · have hfinite := isFinite_round (decide (sum < 0)) Nat.one_pos (lt_of_le_of_lt hsum h)
    have hround := (absolute_round Nat.one_pos hfinite).1
    exact ⟨hfinite, by linarith⟩

/-! ## The largest and the least -/

theorem unitsOfMagnitude_lt {magnitude field : Nat}
    (h : magnitude / 2 ^ (52 : Nat) ≤ field + 1) :
    unitsOfMagnitude magnitude < 2 ^ (53 + field) := by
  have hfraction := Nat.mod_lt magnitude (Nat.two_pow_pos 52)
  have hone : 1 ≤ 2 ^ field := Nat.two_pow_pos field
  have hpower : 2 ^ (magnitude / 2 ^ (52 : Nat) - 1) ≤ 2 ^ field :=
    Nat.pow_le_pow_right (by decide) (by omega)
  simp only [unitsOfMagnitude]
  rw [Nat.pow_add]
  split
  · omega
  · calc (2 ^ (52 : Nat) + magnitude % 2 ^ (52 : Nat)) * 2 ^ (magnitude / 2 ^ (52 : Nat) - 1)
      _ ≤ (2 ^ (52 : Nat) + magnitude % 2 ^ (52 : Nat)) * 2 ^ field :=
        Nat.mul_le_mul_left _ hpower
      _ < 2 ^ (53 : Nat) * 2 ^ field := (Nat.mul_lt_mul_right hone).mpr (by omega)

theorem eight_mul_two_pow_le {a b : Nat} (h : 3 + a ≤ b + b) : 8 * 2 ^ a ≤ 2 ^ b * 2 ^ b := by
  have height : 8 = 2 ^ (3 : Nat) := by decide
  rw [height, ← Nat.pow_add, ← Nat.pow_add]
  exact Nat.pow_le_pow_right (by decide) h

/-- Even the largest number times the least positive one is small. -/
theorem absolute_mul_leastPositive_le {x : Binary64} (h : x.isFinite = true) :
    x.absolute * leastPositive ≤ 1 / 8 := by
  -- the exponents are named, so that nothing works out their powers
  obtain ⟨field, places, hfield, hplaces, hone⟩ : ∃ field places : Nat,
      x.magnitude / 2 ^ (52 : Nat) ≤ field + 1 ∧ 3 + (53 + field) ≤ places + places ∧
        unitsPerOne = 2 ^ places := by
    refine ⟨2045, 1074, ?_, by decide, unitsPerOne.eq_1⟩
    have hlt : x.magnitude < infiniteMagnitude := by simpa [isFinite] using h
    unfold infiniteMagnitude at hlt
    omega
  have hunits : 8 * unitsOfMagnitude x.magnitude ≤ unitsPerOne * unitsPerOne := by
    rw [hone]
    exact Nat.le_trans (Nat.mul_le_mul_left 8 (Nat.le_of_lt (unitsOfMagnitude_lt hfield)))
      (eight_mul_two_pow_le hplaces)
  have hcast : 8 * (unitsOfMagnitude x.magnitude : ℚ) ≤ unitsPerOne * unitsPerOne := by
    exact_mod_cast hunits
  have hpos := unitsPerOne_cast_pos
  rw [absolute, leastPositive, div_mul_div_comm, mul_one, div_le_iff₀ (mul_pos hpos hpos)]
  linarith

theorem leastPositive_le : leastPositive ≤ 1 / 8 := by
  obtain ⟨places, hplaces, hone⟩ : ∃ places : Nat, 3 ≤ places ∧ unitsPerOne = 2 ^ places :=
    ⟨1074, by decide, unitsPerOne.eq_1⟩
  have height : 2 ^ (3 : Nat) ≤ 2 ^ places := Nat.pow_le_pow_right (by decide) hplaces
  have hcast : (8 : ℚ) ≤ unitsPerOne := by
    rw [hone]
    exact_mod_cast height
  exact one_div_le_one_div_of_le (by norm_num) hcast

end Graphing.Binary64
