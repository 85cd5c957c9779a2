import Graphing.Binary64.Arithmetic

/-!
# Rounding

Two laws of `round` carry everything that is proved about numbers here:

* `round_congr` — a fraction is rounded by its value, whatever its denominator;
* `round_of_view` — a number of the format is rounded to itself.
-/

namespace Graphing.Binary64

-- powers are those of core, whatever other instances there are
attribute [local instance (high)] instPowNat

/-! ## Fractions of one value -/

theorem divNearest_mul (num den : Nat) {k : Nat} (hk : 0 < k) :
    divNearest (num * k) (den * k) = divNearest num den := by
  have hless : den * k < 2 * (num % den * k) ↔ den < 2 * (num % den) := by
    rw [← Nat.mul_assoc, Nat.mul_lt_mul_right hk]
  have hequal : 2 * (num % den * k) = den * k ↔ 2 * (num % den) = den := by
    rw [← Nat.mul_assoc, Nat.mul_left_inj (Nat.pos_iff_ne_zero.mp hk)]
  simp only [divNearest, Nat.mul_div_mul_right num den hk, Nat.mul_mod_mul_right, hless, hequal]

theorem roundMagnitude_mul (num den : Nat) {k : Nat} (hk : 0 < k) :
    roundMagnitude (num * k) (den * k) = roundMagnitude num den := by
  simp only [roundMagnitude, excessBits, Nat.mul_div_mul_right num den hk]
  rw [Nat.mul_right_comm den k, divNearest_mul _ _ hk]

/-- Fractions of one value are rounded to one number. -/
theorem round_congr (negative : Bool) {num den num' den' : Nat} (hd : 0 < den) (hd' : 0 < den')
    (h : num * den' = num' * den) : round negative num den = round negative num' den' := by
  rw [round, round, ← roundMagnitude_mul num den hd', ← roundMagnitude_mul num' den' hd, h,
    Nat.mul_comm den den']

theorem roundMagnitude_zero (den : Nat) : roundMagnitude 0 den = 0 := by
  simp [roundMagnitude, excessBits, divNearest]

/-! ## Words -/

theorem infiniteMagnitude_lt : infiniteMagnitude < 2 ^ (63 : Nat) := by decide

theorem roundMagnitude_le (num den : Nat) : roundMagnitude num den ≤ infiniteMagnitude :=
  Nat.min_le_right _ _

theorem toNat_bits_ofMagnitude (negative : Bool) {magnitude : Nat}
    (h : magnitude < 2 ^ (63 : Nat)) :
    (ofMagnitude negative magnitude).bits.toNat =
      magnitude + if negative then 2 ^ (63 : Nat) else 0 := by
  simp only [ofMagnitude]
  refine UInt64.toNat_ofNat_of_lt ?_
  split <;> (simp only [UInt64.size]; omega)

theorem isNegative_ofMagnitude (negative : Bool) {magnitude : Nat}
    (h : magnitude < 2 ^ (63 : Nat)) :
    (ofMagnitude negative magnitude).isNegative = negative := by
  rw [isNegative, toNat_bits_ofMagnitude negative h]
  cases negative with
  | false =>
      simp
      omega
  | true => simp

/-- A word is its sign and its magnitude. -/
theorem ofMagnitude_isNegative_magnitude (x : Binary64) :
    ofMagnitude x.isNegative x.magnitude = x := by
  have hlt : x.bits.toNat < 2 ^ (64 : Nat) := x.bits.toNat_lt
  have hbits : (x.magnitude + if x.isNegative then 2 ^ (63 : Nat) else 0) = x.bits.toNat := by
    simp only [magnitude, isNegative, decide_eq_true_eq]
    split <;> omega
  rw [ofMagnitude, hbits, UInt64.ofNat_toNat]

theorem isNegative_round (negative : Bool) (num den : Nat) :
    (round negative num den).isNegative = negative :=
  isNegative_ofMagnitude negative (Nat.lt_of_le_of_lt (roundMagnitude_le num den)
    infiniteMagnitude_lt)

/-! ## Numbers of the format -/

theorem divNearest_one (num : Nat) : divNearest num 1 = num := by
  simp [divNearest, Nat.mod_one]

/-- A count of units that the format represents is rounded to its magnitude. -/
theorem roundMagnitude_unitsOfMagnitude {magnitude : Nat} (h : magnitude < infiniteMagnitude) :
    roundMagnitude (unitsOfMagnitude magnitude) 1 = magnitude := by
  have hsplit : magnitude / 2 ^ (52 : Nat) * 2 ^ (52 : Nat) + magnitude % 2 ^ (52 : Nat) =
      magnitude :=
    Nat.div_add_mod' magnitude (2 ^ (52 : Nat))
  have hfraction : magnitude % 2 ^ (52 : Nat) < 2 ^ (52 : Nat) := Nat.mod_lt _ (by decide)
  rw [roundMagnitude, excessBits, Nat.div_one]
  by_cases hfield : magnitude / 2 ^ (52 : Nat) = 0
  · -- no exponent: the magnitude counts the units, and at most 53 bits are in use
    have hunits : unitsOfMagnitude magnitude = magnitude := by
      simp only [unitsOfMagnitude, hfield, if_true]
      omega
    have hlog : magnitude.log2 - 52 = 0 := by
      by_cases hzero : magnitude = 0
      · simp [hzero]
      · have := (Nat.log2_lt hzero).mpr (show magnitude < 2 ^ (53 : Nat) by omega)
        omega
    rw [hunits, hlog]
    simp only [Nat.zero_mul, Nat.zero_add, Nat.pow_zero, Nat.mul_one, divNearest_one]
    exact Nat.min_eq_left (Nat.le_of_lt h)
  · -- otherwise the units are 53 bits and then zeros, which the division takes off again
    obtain ⟨shift, hshift⟩ : ∃ shift, magnitude / 2 ^ (52 : Nat) = shift + 1 :=
      Nat.exists_eq_succ_of_ne_zero hfield
    have hunits : unitsOfMagnitude magnitude =
        (2 ^ (52 : Nat) + magnitude % 2 ^ (52 : Nat)) * 2 ^ shift := by
      simp only [unitsOfMagnitude, hshift, Nat.add_one_sub_one, Nat.add_one_ne_zero, if_false]
    have hlog : (unitsOfMagnitude magnitude).log2 = 52 + shift := by
      rw [hunits]
      refine (Nat.log2_eq_iff ?_).mpr ⟨?_, ?_⟩
      · exact Nat.mul_ne_zero (by omega) (Nat.pos_iff_ne_zero.mp (Nat.two_pow_pos shift))
      · rw [Nat.pow_add]
        exact Nat.mul_le_mul_right _ (by omega)
      · rw [show 52 + shift + 1 = 53 + shift by omega, Nat.pow_add]
        exact (Nat.mul_lt_mul_right (Nat.two_pow_pos shift)).mpr (by omega)
    rw [hlog, Nat.add_sub_cancel_left, hunits,
      divNearest_mul _ 1 (Nat.two_pow_pos shift), divNearest_one]
    have hsum : shift * 2 ^ (52 : Nat) + (2 ^ (52 : Nat) + magnitude % 2 ^ (52 : Nat)) =
        magnitude := by
      rw [hshift, Nat.succ_mul, Nat.add_assoc] at hsplit
      exact hsplit
    rw [hsum]
    exact Nat.min_eq_left (Nat.le_of_lt h)

theorem view_of_isFinite {x : Binary64} (h : x.isFinite = true) :
    x.view = .finite x.isNegative (unitsOfMagnitude x.magnitude) := by
  simp only [isFinite, decide_eq_true_eq] at h
  rw [view, if_neg (by omega), if_neg (by omega)]

/-- A finite number is rounded to itself. -/
theorem round_of_view {x : Binary64} {negative : Bool} {units : Nat}
    (h : x.view = .finite negative units) : round negative units 1 = x := by
  have hfinite : x.magnitude < infiniteMagnitude := by
    simp only [view] at h
    split at h
    · cases h
    · split at h
      · cases h
      · omega
  rw [view_of_isFinite (by simpa [isFinite] using hfinite)] at h
  cases h
  rw [round, roundMagnitude_unitsOfMagnitude hfinite, ofMagnitude_isNegative_magnitude]

theorem isNaN_of_isFinite {x : Binary64} (h : x.isFinite = true) : x.isNaN = false := by
  simp only [isFinite, isNaN, decide_eq_true_eq, decide_eq_false_iff_not] at h ⊢
  omega

theorem isInfinite_of_isFinite {x : Binary64} (h : x.isFinite = true) :
    x.isInfinite = false := by
  simp only [isFinite, isInfinite, decide_eq_true_eq, decide_eq_false_iff_not] at h ⊢
  omega

end Graphing.Binary64
