import Mathlib.Tactic.Ring
import Graphing.Proofs.Binary64.Order

/-!
# Errors of rounding

Rounding moves a number by half of the last of its fifty-three digits, or by half of the least
positive number if it has fewer (`RoundsTo.error`). A whole number of units is moved by the former
alone (`RoundsTo.error_one`), so sums and differences are never hurt by a lack of digits.

`Within` says how far a number that was computed in several steps is off the exact one. It has
one law for each sort of step.
-/

namespace Graphing.Binary64

-- powers are those of core, whatever other instances there are
attribute [local instance (high)] instPowNat

/-! ## One rounding -/

/-- The number that a finite word stands for. -/
def value (x : Binary64) : ℚ :=
  x.units / unitsPerOne

/-- Half of the last of fifty-three digits, as a part of the whole number. -/
def roundoff : ℚ :=
  1 / (2 ^ (53 : Nat) : Nat)

theorem roundoff_nonneg : 0 ≤ roundoff := by
  unfold roundoff
  positivity

theorem abs_value_sub (x : Binary64) (q : ℚ) :
    |x.value - q / unitsPerOne| = |(x.units : ℚ) - q| / unitsPerOne := by
  rw [value, ← sub_div, abs_div, abs_of_pos unitsPerOne_cast_pos]

theorem abs_div_unitsPerOne (q : ℚ) : |q / unitsPerOne| = |q| / unitsPerOne := by
  rw [abs_div, abs_of_pos unitsPerOne_cast_pos]

theorem divNearest_mul_le_add (num den : Nat) :
    2 * (divNearest num den * den) ≤ 2 * num + den := by
  have hsplit := Nat.div_add_mod' num den
  have hstep : (num / den + 1) * den = num / den * den + den := Nat.succ_mul _ _
  have htie : (num / den + num / den % 2) * den ≤ (num / den + 1) * den :=
    Nat.mul_le_mul_right den (by omega)
  simp only [divNearest]
  split
  · omega
  · split <;> omega

/-- The units that a fraction is rounded to are off by half of its last digit. This is a small
part of the fraction, unless no digits are cut off. -/
theorem significand_error (num : Nat) {den : Nat} (hd : 0 < den) :
    |(significand num den * 2 ^ excessBits num den : Nat) - (num : ℚ) / den| ≤
      if excessBits num den = 0 then 1 / 2 else roundoff * (num / den) := by
  have hden : (0 : ℚ) < den := by exact_mod_cast hd
  have hpower : 0 < den * 2 ^ excessBits num den := Nat.mul_pos hd (Nat.two_pow_pos _)
  have hupper : (2 : ℚ) * (significand num den * (den * (2 ^ excessBits num den : Nat))) ≤
      2 * num + den * (2 ^ excessBits num den : Nat) := by
    exact_mod_cast divNearest_mul_le_add num (den * 2 ^ excessBits num den)
  have hlower : (2 : ℚ) * num ≤
      2 * (significand num den * (den * (2 ^ excessBits num den : Nat))) +
        den * (2 ^ excessBits num den : Nat) := by
    exact_mod_cast le_divNearest_mul num hpower
  have hhalf : |(significand num den * 2 ^ excessBits num den : Nat) - (num : ℚ) / den| ≤
      (2 ^ excessBits num den : Nat) / 2 := by
    rw [Nat.cast_mul, sub_div' hden.ne', abs_div, abs_of_pos hden, div_le_iff₀ hden, abs_le]
    constructor <;> linarith
  refine le_trans hhalf ?_
  split
  · rename_i hzero
    rw [hzero, Nat.pow_zero, Nat.cast_one]
  · rename_i hne
    have hdigits : ((2 ^ (52 : Nat) : Nat) : ℚ) * (den * (2 ^ excessBits num den : Nat)) ≤ num := by
      exact_mod_cast le_of_excessBits hne
    rw [roundoff, ← mul_div_assoc, le_div_iff₀ hden]
    norm_num at hdigits ⊢
    linarith

namespace RoundsTo

variable {num : Int} {den : Nat} {x : Binary64}

/-- The error of rounding a fraction of units. -/
theorem error_units (h : RoundsTo num den x) (hd : 0 < den) (hfinite : x.isFinite = true) :
    |(x.units : ℚ) - num / den| ≤
      if excessBits num.natAbs den = 0 then 1 / 2 else roundoff * |(num : ℚ) / den| := by
  have herror := significand_error num.natAbs hd
  have hden : (0 : ℚ) < den := by exact_mod_cast hd
  have hnum : (num : ℚ) = num.sign * (num.natAbs : ℚ) := by
    rw [← Int.cast_natCast num.natAbs, ← Int.cast_mul, Int.sign_mul_natAbs]
  have habs : |(num : ℚ) / den| = num.natAbs / den := by
    rw [abs_div, abs_of_pos hden, Nat.cast_natAbs, Int.cast_abs]
  have hsign : |(num.sign : ℚ)| ≤ 1 := by
    rcases Int.sign_trichotomy num with hs | hs | hs <;> simp [hs]
  -- the sign of the fraction stands before the whole difference
  have hfactor : (x.units : ℚ) - num / den = num.sign *
      ((significand num.natAbs den * 2 ^ excessBits num.natAbs den : Nat) -
        (num.natAbs : ℚ) / den) := by
    rw [h.units_eq hfinite, Int.cast_mul, Int.cast_natCast, mul_sub, ← mul_div_assoc, ← hnum]
  rw [hfactor, abs_mul, habs]
  exact le_trans (mul_le_of_le_one_left (abs_nonneg _) hsign) herror

/-- Rounding moves a number by half of its last digit or by half of the least positive
number. -/
theorem error (h : RoundsTo num den x) (hd : 0 < den) (hfinite : x.isFinite = true) :
    |x.value - num / den / unitsPerOne| ≤
      roundoff * |(num : ℚ) / den / unitsPerOne| + leastPositive / 2 := by
  have herror := h.error_units hd hfinite
  have hbound : |(x.units : ℚ) - num / den| ≤ roundoff * |(num : ℚ) / den| + 1 / 2 := by
    refine le_trans herror ?_
    split
    · have := mul_nonneg roundoff_nonneg (abs_nonneg ((num : ℚ) / den))
      linarith
    · linarith
  calc |x.value - num / den / unitsPerOne|
    _ = |(x.units : ℚ) - num / den| / unitsPerOne := abs_value_sub _ _
    _ ≤ (roundoff * |(num : ℚ) / den| + 1 / 2) / unitsPerOne :=
      div_le_div_of_nonneg_right hbound unitsPerOne_cast_pos.le
    _ = roundoff * |(num : ℚ) / den / unitsPerOne| + leastPositive / 2 := by
      rw [abs_div_unitsPerOne, leastPositive]
      ring

/-- A whole number of units is moved by half of its last digit alone. -/
theorem error_one (h : RoundsTo num 1 x) (hfinite : x.isFinite = true) :
    |x.value - num / unitsPerOne| ≤ roundoff * |(num : ℚ) / unitsPerOne| := by
  have herror := h.error_units Nat.one_pos hfinite
  rw [Nat.cast_one, div_one] at herror
  have hbound : |(x.units : ℚ) - num| ≤ roundoff * |(num : ℚ)| := by
    split at herror
    · -- with no digits cut off nothing is lost
      rename_i hzero
      have hexact : x.units = num := by
        rw [h.units_eq hfinite, significand, hzero, Nat.pow_zero, Nat.mul_one, Nat.mul_one,
          divNearest_one, Int.sign_mul_natAbs]
      rw [hexact, sub_self, abs_zero]
      exact mul_nonneg roundoff_nonneg (abs_nonneg _)
    · exact herror
  calc |x.value - num / unitsPerOne|
    _ = |(x.units : ℚ) - num| / unitsPerOne := abs_value_sub _ _
    _ ≤ roundoff * |(num : ℚ)| / unitsPerOne :=
      div_le_div_of_nonneg_right hbound unitsPerOne_cast_pos.le
    _ = roundoff * |(num : ℚ) / unitsPerOne| := by
      rw [abs_div_unitsPerOne, mul_div_assoc]

end RoundsTo

/-! ## Operations -/

section Values

variable {x y : Binary64}

theorem abs_value (x : Binary64) : |x.value| = x.absolute := by
  rw [value, abs_div_unitsPerOne, absolute, ← natAbs_units, Nat.cast_natAbs, Int.cast_abs]

theorem value_le_value (h : x.units ≤ y.units) : x.value ≤ y.value :=
  div_le_div_of_nonneg_right (by exact_mod_cast h) unitsPerOne_cast_pos.le

theorem value_nonneg (h : 0 ≤ x.units) : 0 ≤ x.value :=
  div_nonneg (by exact_mod_cast h) unitsPerOne_cast_pos.le

theorem absolute_eq_value (h : 0 ≤ x.units) : x.absolute = x.value := by
  rw [← abs_value, abs_of_nonneg (value_nonneg h)]

theorem value_add_error (hx : x.isFinite = true) (hy : y.isFinite = true)
    (hfinite : (add x y).isFinite = true) :
    |(add x y).value - (x.value + y.value)| ≤ roundoff * |x.value + y.value| := by
  have herror := (roundsTo_add hx hy).error_one hfinite
  rw [Int.cast_add, add_div] at herror
  exact herror

theorem value_sub_error (hx : x.isFinite = true) (hy : y.isFinite = true)
    (hfinite : (sub x y).isFinite = true) :
    |(sub x y).value - (x.value - y.value)| ≤ roundoff * |x.value - y.value| := by
  have herror := (roundsTo_sub hx hy).error_one hfinite
  rw [Int.cast_sub, sub_div] at herror
  exact herror

theorem value_mul_error (hx : x.isFinite = true) (hy : y.isFinite = true)
    (hfinite : (mul x y).isFinite = true) :
    |(mul x y).value - x.value * y.value| ≤
      roundoff * |x.value * y.value| + leastPositive / 2 := by
  have herror := (roundsTo_mul hx hy).error unitsPerOne_pos hfinite
  rw [Int.cast_mul, div_div, mul_div_mul_comm] at herror
  exact herror

theorem value_div_error (hx : x.isFinite = true) (hy : y.isFinite = true) (hpos : 0 < y.units)
    (hfinite : (div x y).isFinite = true) :
    |(div x y).value - x.value / y.value| ≤
      roundoff * |x.value / y.value| + leastPositive / 2 := by
  have herror := (roundsTo_div hx hy hpos).error (Int.natAbs_pos.mpr hpos.ne') hfinite
  have hden : ((y.units.natAbs : Nat) : ℚ) = y.units := by
    rw [Nat.cast_natAbs, abs_of_pos hpos]
  have hexact : ((x.units * unitsPerOne : Int) : ℚ) / y.units.natAbs / unitsPerOne =
      x.value / y.value := by
    rw [hden, value, value, div_div_div_cancel_right₀ unitsPerOne_cast_pos.ne', Int.cast_mul,
      Int.cast_natCast, div_div, mul_div_mul_right _ _ unitsPerOne_cast_pos.ne']
  rw [hexact] at herror
  exact herror

theorem value_ofNat_error {n : Nat} (hfinite : (ofNat n).isFinite = true) :
    |(ofNat n).value - n| ≤ roundoff * n := by
  have herror := (roundsTo_ofNat n).error_one hfinite
  have hexact : (((n * unitsPerOne : Nat) : Int) : ℚ) / unitsPerOne = n := by
    rw [Int.cast_natCast, Nat.cast_mul, mul_div_assoc, div_self unitsPerOne_cast_pos.ne', mul_one]
  rw [hexact, Nat.abs_cast] at herror
  exact herror

end Values

/-! ## Errors that add up -/

theorem roundoff_le : roundoff ≤ 1 / 100 := by
  norm_num [roundoff]

theorem leastPositive_nonneg : 0 ≤ leastPositive := by
  unfold leastPositive
  positivity

/-- A number is off another one by some roundoffs of it and some least positive numbers. -/
def Within (roundoffs least : ℚ) (r t : ℚ) : Prop :=
  |r - t| ≤ roundoffs * roundoff * t + least * leastPositive

namespace Within

variable {k m r s t : ℚ}

theorem mul_roundoff_le (h : k ≤ 10) : k * roundoff ≤ 1 / 10 := by
  have hroundoff := roundoff_le
  have hmul := mul_le_mul_of_nonneg_right h roundoff_nonneg
  linarith

theorem mono {k' m' : ℚ} (h : Within k m r t) (ht : 0 ≤ t) (hk : k ≤ k') (hm : m ≤ m') :
    Within k' m' r t := by
  have hroundoffs := mul_le_mul_of_nonneg_right hk (mul_nonneg roundoff_nonneg ht)
  have hleast := mul_le_mul_of_nonneg_right hm leastPositive_nonneg
  unfold Within at h ⊢
  linarith

theorem le (h : Within k m r t) : r ≤ t + k * roundoff * t + m * leastPositive := by
  have := (abs_le.mp h).2
  linarith

/-- One more rounding. -/
theorem round (h : Within k m s t) (hk : k ≤ 10) (ht : 0 ≤ t) (hs : 0 ≤ s)
    (hround : |r - s| ≤ roundoff * |s| + leastPositive / 2) :
    Within (k + 11 / 10) ((1 + roundoff) * m + 1 / 2) r t := by
  have he := roundoff_nonneg
  have htri : |r - t| ≤ |r - s| + |s - t| := abs_sub_le r s t
  have hmoved : roundoff * s ≤ roundoff * (t + k * roundoff * t + m * leastPositive) :=
    mul_le_mul_of_nonneg_left h.le he
  have hsmall : k * roundoff * (roundoff * t) ≤ 1 / 10 * (roundoff * t) :=
    mul_le_mul_of_nonneg_right (mul_roundoff_le hk) (mul_nonneg he ht)
  rw [abs_of_nonneg hs] at hround
  unfold Within at h ⊢
  linarith

/-- A multiple by a number that was rounded itself. -/
theorem scale {i j : ℚ} (h : Within k m s t) (hk : k ≤ 10) (ht : 0 ≤ t) (hs : 0 ≤ s)
    (hi : 0 ≤ i) (hj : |j - i| ≤ roundoff * i) :
    Within (k + 11 / 10) ((1 + roundoff) * m * i) (j * s) (i * t) := by
  have he := roundoff_nonneg
  have hsplit : j * s - i * t = (j - i) * s + i * (s - t) := by ring
  have htri : |j * s - i * t| ≤ |j - i| * s + i * |s - t| := by
    rw [hsplit]
    refine le_trans (abs_add_le _ _) ?_
    rw [abs_mul, abs_mul, abs_of_nonneg hs, abs_of_nonneg hi]
  have hmoved : |j - i| * s ≤ roundoff * i * (t + k * roundoff * t + m * leastPositive) :=
    mul_le_mul hj h.le hs (mul_nonneg he hi)
  have hkept : i * |s - t| ≤ i * (k * roundoff * t + m * leastPositive) :=
    mul_le_mul_of_nonneg_left h hi
  have hsmall : k * roundoff * (roundoff * (i * t)) ≤ 1 / 10 * (roundoff * (i * t)) :=
    mul_le_mul_of_nonneg_right (mul_roundoff_le hk) (mul_nonneg he (mul_nonneg hi ht))
  unfold Within
  linarith

/-- The quotient of two numbers that were rounded. -/
theorem quotient {d n d' n' : ℚ} (hd : 0 ≤ d) (hn : 0 < n) (hd' : |d' - d| ≤ roundoff * d)
    (hn' : |n' - n| ≤ roundoff * n) : Within 3 0 (d' / n') (d / n) := by
  have he := roundoff_nonneg
  have hle : 2 / 3 * n ≤ n' := by
    have hlower := (abs_le.mp hn').1
    have hsmall := mul_le_mul_of_nonneg_right roundoff_le hn.le
    linarith
  have hpos : 0 < n' := by linarith
  have hsplit : d' * n - n' * d = (d' - d) * n - d * (n' - n) := by ring
  have hnumerator : |d' * n - n' * d| ≤ 2 * (roundoff * d * n) := by
    have hfirst := mul_le_mul_of_nonneg_right hd' hn.le
    have hsecond := mul_le_mul_of_nonneg_left hn' hd
    rw [hsplit]
    refine le_trans (abs_sub _ _) ?_
    rw [abs_mul, abs_mul, abs_of_pos hn, abs_of_nonneg hd]
    linarith
  have hdenominator : roundoff * d * (2 / 3 * n) ≤ roundoff * d * n' :=
    mul_le_mul_of_nonneg_left hle (mul_nonneg he hd)
  have hcancel : 3 * roundoff * (d / n) * (n' * n) = 3 * (roundoff * d * n') := by
    field_simp
  rw [Within, zero_mul, add_zero, div_sub_div _ _ hpos.ne' hn.ne', abs_div,
    abs_of_pos (mul_pos hpos hn), div_le_iff₀ (mul_pos hpos hn), hcancel]
  linarith

/-- The sum with a number, if it lies between two ends before all rounding: it is off by a small
part of the ends. -/
theorem sum {a b p x : ℚ} (h : Within (63 / 10) m p t) (hm : 0 ≤ m) (ht : 0 ≤ t)
    (hle : t ≤ b - a) (hx : |x - (a + p)| ≤ roundoff * |a + p|) :
    |x - (a + t)| ≤ 8 * roundoff * (|a| + |b|) + 4 / 3 * m * leastPositive := by
  have he := roundoff_nonneg
  have ha := neg_abs_le a
  have hb := le_abs_self b
  have hexact : |a + t| ≤ |a| + |b| := by
    have ha' := abs_nonneg a
    have hb' := abs_nonneg b
    exact abs_le.mpr ⟨by linarith, by linarith⟩
  have hproduct : |p - t| ≤ 63 / 10 * (roundoff * (|a| + |b|)) + m * leastPositive := by
    have hends : roundoff * t ≤ roundoff * (|a| + |b|) :=
      mul_le_mul_of_nonneg_left (by linarith) he
    unfold Within at h
    linarith
  have hmoved : |a + p| ≤ |a + t| + |p - t| := by
    have htri := abs_add_le (a + t) (p - t)
    rwa [add_add_sub_cancel] at htri
  have hround : roundoff * |a + p| ≤ roundoff * (|a| + |b|) + 1 / 100 * |p - t| := by
    have hsum : roundoff * |a + p| ≤ roundoff * (|a| + |b| + |p - t|) :=
      mul_le_mul_of_nonneg_left (by linarith) he
    have hsmall := mul_le_mul_of_nonneg_right roundoff_le (abs_nonneg (p - t))
    linarith
  have htri : |x - (a + t)| ≤ |x - (a + p)| + |p - t| := by
    have htri := abs_sub_le x (a + p) (a + t)
    rwa [add_sub_add_left_eq_sub] at htri
  have hends := mul_nonneg he (add_nonneg (abs_nonneg a) (abs_nonneg b))
  have hleast := mul_nonneg hm leastPositive_nonneg
  linarith

end Within

end Graphing.Binary64
