import Graphing.Proofs.Binary64.Absolute

/-!
# The order of numbers

`units` is the signed count of units of a finite word. A fraction of units `RoundsTo` a word if
the word is what it is rounded to, with either sign if the fraction is zero. The results of the
operations on finite numbers are the exact results rounded, and so is a finite number itself
(`roundsTo_add`, `roundsTo_mul`, `roundsTo_self` and their like).

Rounding keeps the order, up to the infinities (`RoundsTo.rank_le`). So ranks and units order
finite numbers alike, and sums and products keep the order as well.
-/

namespace Graphing.Binary64

-- powers are those of core, whatever other instances there are
attribute [local instance (high)] instPowNat

/-! ## Rounding keeps the order -/

theorem divNearest_le_divNearest {num num' : Nat} (den : Nat) (h : num ≤ num') :
    divNearest num den ≤ divNearest num' den := by
  have hquotient : num / den ≤ num' / den := Nat.div_le_div_right h
  rcases Nat.lt_or_eq_of_le hquotient with hless | hsame
  · have hle := (div_le_divNearest num den).2
    have hle' := (div_le_divNearest num' den).1
    omega
  · -- with one quotient the rests decide, and they are in order
    have hsplit := Nat.div_add_mod' num den
    have hsplit' := Nat.div_add_mod' num' den
    rw [← hsame] at hsplit'
    have hrest : num % den ≤ num' % den := by omega
    simp only [divNearest, ← hsame]
    split
    · rw [if_pos (by omega)]
    · split <;> split <;> (try split) <;> omega

theorem excessBits_le_excessBits {num num' : Nat} (den : Nat) (h : num ≤ num') :
    excessBits num den ≤ excessBits num' den := by
  have hquotient : num / den ≤ num' / den := Nat.div_le_div_right h
  unfold excessBits
  by_cases hzero : num / den = 0
  · rw [hzero]
    exact Nat.zero_le _
  · have hzero' : num' / den ≠ 0 := by
      intro h
      exact hzero (Nat.le_zero.mp (h ▸ hquotient))
    have hlog : (num / den).log2 ≤ (num' / den).log2 :=
      (Nat.le_log2 hzero').mpr (Nat.le_trans (Nat.log2_self_le hzero) hquotient)
    omega

theorem roundMagnitude_le_of_le {num num' : Nat} (den : Nat) (h : num ≤ num') :
    roundMagnitude num den ≤ roundMagnitude num' den := by
  have hraw : excessBits num den * 2 ^ (52 : Nat) + significand num den ≤
      excessBits num' den * 2 ^ (52 : Nat) + significand num' den := by
    rcases Nat.lt_or_eq_of_le (excessBits_le_excessBits den h) with hless | hsame
    · -- more digits are cut off: even a significand that carries stays below
      have hle := significand_le num den
      rcases excessBits_eq_zero_or num' den with hzero | hnormal
      · omega
      · omega
    · have hle := divNearest_le_divNearest (den * 2 ^ excessBits num den) h
      rw [significand, significand, ← hsame]
      omega
  unfold roundMagnitude
  exact Nat.le_min.mpr ⟨Nat.le_trans (Nat.min_le_left _ _) hraw, Nat.min_le_right _ _⟩

/-- A smaller fraction is not rounded to a larger magnitude. -/
theorem roundMagnitude_le_roundMagnitude {num den num' den' : Nat} (hd : 0 < den)
    (hd' : 0 < den') (h : num * den' ≤ num' * den) :
    roundMagnitude num den ≤ roundMagnitude num' den' := by
  rw [← roundMagnitude_mul num den hd', ← roundMagnitude_mul num' den' hd, Nat.mul_comm den' den]
  exact roundMagnitude_le_of_le _ h

/-! ## Signed counts of units -/

/-- The signed count of units of a finite number. -/
def units (x : Binary64) : Int :=
  signedUnits x.isNegative (unitsOfMagnitude x.magnitude)

theorem natAbs_signedUnits (negative : Bool) (count : Nat) :
    (signedUnits negative count).natAbs = count := by
  unfold signedUnits
  split <;> simp

/-- A signed count that is not zero shows its sign. -/
theorem signedUnits_sign (negative : Bool) (count : Nat) :
    (signedUnits negative count < 0 → negative = true) ∧
      (0 < signedUnits negative count → negative = false) := by
  cases negative with
  | true =>
      simp only [signedUnits, if_true]
      exact ⟨fun _ => trivial, fun h => by omega⟩
  | false =>
      simp only [signedUnits, Bool.false_eq_true, if_false]
      exact ⟨fun h => by omega, fun _ => trivial⟩

theorem signedUnits_mul (s t : Bool) (a b : Nat) :
    signedUnits s a * signedUnits t b = signedUnits (s ^^ t) (a * b) := by
  cases s <;> cases t <;> simp [signedUnits]

theorem natAbs_units (x : Binary64) : x.units.natAbs = unitsOfMagnitude x.magnitude :=
  natAbs_signedUnits _ _

/-- A word is what a fraction of units is rounded to. Zero may have either sign. -/
def RoundsTo (num : Int) (den : Nat) (x : Binary64) : Prop :=
  ∃ negative, x = round negative num.natAbs den ∧
    (num < 0 → negative = true) ∧ (0 < num → negative = false)

namespace RoundsTo

variable {num num' : Int} {den den' : Nat} {x y : Binary64}

theorem isNaN (h : RoundsTo num den x) : x.isNaN = false := by
  obtain ⟨negative, rfl, -⟩ := h
  have hle := roundMagnitude_le num.natAbs den
  rw [Binary64.isNaN, magnitude_round]
  exact decide_eq_false (Nat.not_lt.mpr hle)

theorem rank_of_nonneg (h : RoundsTo num den x) (hnum : 0 ≤ num) :
    x.rank = roundMagnitude num.natAbs den := by
  obtain ⟨negative, rfl, -, hpos⟩ := h
  rw [rank, isNegative_round, magnitude_round]
  rcases Int.lt_or_eq_of_le hnum with hlt | rfl
  · rw [hpos hlt, if_neg Bool.false_ne_true]
  · rw [Int.natAbs_zero, roundMagnitude_zero, Int.natCast_zero, Int.neg_zero, ite_self]

theorem rank_of_nonpos (h : RoundsTo num den x) (hnum : num ≤ 0) :
    x.rank = -roundMagnitude num.natAbs den := by
  obtain ⟨negative, rfl, hneg, -⟩ := h
  rw [rank, isNegative_round, magnitude_round]
  rcases Int.lt_or_eq_of_le hnum with hlt | rfl
  · rw [hneg hlt, if_pos rfl]
  · rw [Int.natAbs_zero, roundMagnitude_zero, Int.natCast_zero, Int.neg_zero, ite_self]

/-- Rounding keeps the order. -/
theorem rank_le (h : RoundsTo num den x) (h' : RoundsTo num' den' y) (hd : 0 < den)
    (hd' : 0 < den') (hle : num * den' ≤ num' * den) : x.rank ≤ y.rank := by
  rcases Int.le_total 0 num with hnum | hnum
  · have hnum' : 0 ≤ num' := by
      have hprod : 0 ≤ num * den' := Int.mul_nonneg hnum (Int.natCast_nonneg _)
      exact Int.le_of_mul_le_mul_right (by omega : 0 * (den : Int) ≤ num' * den) (by omega)
    rw [h.rank_of_nonneg hnum, h'.rank_of_nonneg hnum']
    have hnat : num.natAbs * den' ≤ num'.natAbs * den := by
      have hcast : (num.natAbs : Int) * den' ≤ num'.natAbs * den := by
        rw [Int.natAbs_of_nonneg hnum, Int.natAbs_of_nonneg hnum']
        exact hle
      exact_mod_cast hcast
    exact_mod_cast roundMagnitude_le_roundMagnitude hd hd' hnat
  · rw [h.rank_of_nonpos hnum]
    rcases Int.le_total 0 num' with hnum' | hnum'
    · rw [h'.rank_of_nonneg hnum']
      omega
    · rw [h'.rank_of_nonpos hnum']
      have hnat : num'.natAbs * den ≤ num.natAbs * den' := by
        have hcast : (num'.natAbs : Int) * den ≤ num.natAbs * den' := by
          rw [Int.ofNat_natAbs_of_nonpos hnum, Int.ofNat_natAbs_of_nonpos hnum', Int.neg_mul,
            Int.neg_mul]
          omega
        exact_mod_cast hcast
      have hmagnitude := roundMagnitude_le_roundMagnitude hd' hd hnat
      omega

/-- What a fraction is rounded to has one rank. -/
theorem rank_eq (h : RoundsTo num den x) (h' : RoundsTo num den y) (hd : 0 < den) :
    x.rank = y.rank :=
  Int.le_antisymm (h.rank_le h' hd hd (Int.le_refl _)) (h'.rank_le h hd hd (Int.le_refl _))

end RoundsTo

theorem roundsTo_round (negative : Bool) (count den : Nat) :
    RoundsTo (signedUnits negative count) den (round negative count den) := by
  obtain ⟨hneg, hpos⟩ := signedUnits_sign negative count
  exact ⟨negative, by rw [natAbs_signedUnits], hneg, hpos⟩

/-- A finite number is what its units are rounded to. -/
theorem roundsTo_self {x : Binary64} (h : x.isFinite = true) : RoundsTo x.units 1 x := by
  have hround := roundsTo_round x.isNegative (unitsOfMagnitude x.magnitude) 1
  rw [round_of_view (view_of_isFinite h)] at hround
  exact hround

/-! ## Operations -/

theorem units_neg (x : Binary64) : (neg x).units = -x.units := by
  rw [units, neg, isNegative_ofMagnitude _ x.magnitude_lt, magnitude_ofMagnitude _ x.magnitude_lt,
    units]
  cases x.isNegative <;> simp [signedUnits]

section Operations

variable {x y : Binary64}

theorem roundsTo_add (hx : x.isFinite = true) (hy : y.isFinite = true) :
    RoundsTo (x.units + y.units) 1 (add x y) := by
  rw [add, view_of_isFinite hx, view_of_isFinite hy]
  simp only
  split
  · rename_i hzero
    refine ⟨x.isNegative && y.isNegative, ?_, ?_, ?_⟩
    · rw [units, units, hzero, Int.natAbs_zero, round_zero]
    · intro hneg
      exact absurd hzero (Int.ne_of_lt hneg)
    · intro hpos
      exact absurd hzero (Int.ne_of_gt hpos)
  · refine ⟨_, rfl, ?_, ?_⟩
    · intro hneg
      exact decide_eq_true hneg
    · intro hpos
      exact decide_eq_false (Int.not_lt.mpr (Int.le_of_lt hpos))

theorem roundsTo_sub (hx : x.isFinite = true) (hy : y.isFinite = true) :
    RoundsTo (x.units - y.units) 1 (sub x y) := by
  rw [Int.sub_eq_add_neg, ← units_neg]
  exact roundsTo_add hx (by rw [isFinite_neg, hy])

theorem roundsTo_mul (hx : x.isFinite = true) (hy : y.isFinite = true) :
    RoundsTo (x.units * y.units) unitsPerOne (mul x y) := by
  rw [mul_of_isFinite hx hy, units, units, signedUnits_mul]
  exact roundsTo_round _ _ _

theorem roundsTo_div (hx : x.isFinite = true) (hy : y.isFinite = true) (hpos : 0 < y.units) :
    RoundsTo (x.units * unitsPerOne) y.units.natAbs (div x y) := by
  have hsign : y.isNegative = false := (signedUnits_sign _ _).2 hpos
  have hne : unitsOfMagnitude y.magnitude ≠ 0 := by
    rw [← natAbs_units]
    omega
  have hone : (unitsPerOne : Int) = signedUnits false unitsPerOne := rfl
  rw [div, view_of_isFinite hx, view_of_isFinite hy]
  simp only [hne, if_false, hsign]
  rw [natAbs_units, units, hone, signedUnits_mul]
  exact roundsTo_round _ _ _

theorem roundsTo_ofNat (n : Nat) : RoundsTo (n * unitsPerOne : Nat) 1 (ofNat n) :=
  roundsTo_round false (n * unitsPerOne) 1

/-! ## Order -/

theorem ieeeLe_iff : x.ieeeLe y = true ↔ x.isNaN = false ∧ y.isNaN = false ∧ x.rank ≤ y.rank := by
  simp [ieeeLe, and_assoc]

theorem ieeeEq_iff : x.ieeeEq y = true ↔ x.isNaN = false ∧ y.isNaN = false ∧ x.rank = y.rank := by
  simp [ieeeEq, and_assoc]

theorem natAbs_rank (x : Binary64) : x.rank.natAbs = x.magnitude := by
  unfold rank
  split <;> simp

theorem isFinite_iff_rank : x.isFinite = true ↔ x.rank.natAbs < infiniteMagnitude := by
  rw [natAbs_rank, isFinite, decide_eq_true_iff]

/-- Numbers of one rank have the same units. -/
theorem units_eq_of_rank (x : Binary64) :
    x.units = x.rank.sign * unitsOfMagnitude x.rank.natAbs := by
  rw [natAbs_rank, units, rank, signedUnits]
  rcases Nat.eq_zero_or_pos x.magnitude with hzero | hpos
  · rw [hzero]
    cases x.isNegative <;> rfl
  · cases x.isNegative with
    | true =>
        rw [if_pos rfl, if_pos rfl, Int.sign_neg, Int.sign_eq_one_of_pos (by omega)]
        omega
    | false =>
        rw [if_neg Bool.false_ne_true, if_neg Bool.false_ne_true,
          Int.sign_eq_one_of_pos (by omega)]
        omega

theorem rank_le_rank_iff (hx : x.isFinite = true) (hy : y.isFinite = true) :
    x.rank ≤ y.rank ↔ x.units ≤ y.units := by
  constructor
  · intro hle
    rcases Int.lt_or_le y.units x.units with hlt | hge
    · -- the ranks are the same then, and so are the units
      have hge := (roundsTo_self hy).rank_le (roundsTo_self hx) Nat.one_pos Nat.one_pos
        (by omega)
      have hsame : x.rank = y.rank := Int.le_antisymm hle hge
      rw [units_eq_of_rank x, units_eq_of_rank y, hsame]
    · exact hge
  · intro hle
    exact (roundsTo_self hx).rank_le (roundsTo_self hy) Nat.one_pos Nat.one_pos (by omega)

end Operations

theorem rank_infinity (negative : Bool) :
    (infinity negative).rank =
      if negative then -(infiniteMagnitude : Int) else infiniteMagnitude := by
  rw [rank, infinity, isNegative_ofMagnitude _ infiniteMagnitude_lt,
    magnitude_ofMagnitude _ infiniteMagnitude_lt]

theorem add_infinity {x : Binary64} (h : x.isFinite = true) (negative : Bool) :
    add x (infinity negative) = infinity negative := by
  rw [add, view_of_isFinite h, view_infinity]

/-- A number that is no NaN is finite or one of the infinities. -/
theorem finite_or_infinity {x : Binary64} (h : x.isNaN = false) :
    x.isFinite = true ∨ ∃ negative, x = infinity negative := by
  cases hfinite : x.isFinite with
  | true => exact .inl rfl
  | false => exact .inr ((cases_of_not_isFinite hfinite).resolve_left (by simp [h]))

/-- Numbers other than zero are told apart by their ranks. -/
theorem eq_of_rank {x y : Binary64} (h : x.rank = y.rank) (hne : x.rank ≠ 0) : x = y := by
  have hmagnitude : x.magnitude = y.magnitude := by
    rw [← natAbs_rank, ← natAbs_rank, h]
  have hsign : x.isNegative = y.isNegative := by
    unfold rank at h hne
    cases hx : x.isNegative <;> cases hy : y.isNegative <;>
      simp only [hx, hy, if_true, if_false, Bool.false_eq_true] at h hne ⊢ <;> omega
  rw [← ofMagnitude_isNegative_magnitude x, ← ofMagnitude_isNegative_magnitude y, hsign,
    hmagnitude]

theorem rank_bounds {x : Binary64} (h : x.isNaN = false) :
    -(infiniteMagnitude : Int) ≤ x.rank ∧ x.rank ≤ infiniteMagnitude := by
  have hmagnitude := natAbs_rank x
  simp only [isNaN, decide_eq_false_iff_not] at h
  omega

/-- Sums with a finite number keep the order, also if they are rounded to infinity or if an
operand is infinite. -/
theorem ieeeLe_add_left {x y z : Binary64} (hx : x.isFinite = true) (h : y.ieeeLe z = true) :
    (add x y).ieeeLe (add x z) = true := by
  have hnan : ∀ w : Binary64, w.isNaN = false → (add x w).isNaN = false := by
    intro w hw
    rcases finite_or_infinity hw with hfinite | ⟨negative, rfl⟩
    · exact (roundsTo_add hx hfinite).isNaN
    · rw [add_infinity hx, hw]
  obtain ⟨hy, hz, hrank⟩ := ieeeLe_iff.mp h
  refine ieeeLe_iff.mpr ⟨hnan y hy, hnan z hz, ?_⟩
  have hbounds := rank_bounds hz
  rcases finite_or_infinity hy with hfinite | ⟨negative, rfl⟩
  · rcases finite_or_infinity hz with hfinite' | ⟨negative, rfl⟩
    · have hunits := (rank_le_rank_iff hfinite hfinite').mp hrank
      exact (roundsTo_add hx hfinite).rank_le (roundsTo_add hx hfinite') Nat.one_pos Nat.one_pos
        (by omega)
    · rw [add_infinity hx]
      cases negative with
      | false => exact (rank_bounds (hnan y hy)).2
      | true =>
          -- nothing finite is below the negative infinity
          have hfinite' := isFinite_iff_rank.mp hfinite
          rw [rank_infinity, if_pos rfl] at hrank
          omega
  · rw [add_infinity hx]
    cases negative with
    | true => exact (rank_bounds (hnan z hz)).1
    | false =>
        -- nothing is above the positive infinity
        have hsame : (infinity false).rank = z.rank := by
          rw [rank_infinity] at hrank ⊢
          simp only [Bool.false_eq_true, if_false] at hrank ⊢
          omega
        rw [← eq_of_rank hsame (by rw [rank_infinity]; decide), add_infinity hx]

/-- Products with a number that is not negative keep the order. -/
theorem ieeeLe_mul_right {x y z : Binary64} (hx : x.isFinite = true) (hy : y.isFinite = true)
    (hz : z.isFinite = true) (h : x.units ≤ y.units) (hnonneg : 0 ≤ z.units) :
    (mul x z).ieeeLe (mul y z) = true := by
  have hround := roundsTo_mul hx hz
  have hround' := roundsTo_mul hy hz
  have hle : x.units * z.units ≤ y.units * z.units := Int.mul_le_mul_of_nonneg_right h hnonneg
  refine ieeeLe_iff.mpr ⟨hround.isNaN, hround'.isNaN,
    hround.rank_le hround' unitsPerOne_pos unitsPerOne_pos ?_⟩
  exact Int.mul_le_mul_of_nonneg_right hle (Int.natCast_nonneg _)

theorem units_le_of_roundsTo {num num' : Int} {den den' : Nat} {x y : Binary64}
    (h : RoundsTo num den x) (h' : RoundsTo num' den' y) (hd : 0 < den) (hd' : 0 < den')
    (hx : x.isFinite = true) (hy : y.isFinite = true) (hle : num * den' ≤ num' * den) :
    x.units ≤ y.units :=
  (rank_le_rank_iff hx hy).mp (h.rank_le h' hd hd' hle)

/-! ## Units of rounded fractions -/

namespace RoundsTo

variable {num : Int} {den : Nat} {x : Binary64}

/-- What a fraction is rounded to, if it is finite, in units. -/
theorem units_eq (h : RoundsTo num den x) (hfinite : x.isFinite = true) :
    x.units = num.sign *
      (significand num.natAbs den * 2 ^ excessBits num.natAbs den : Nat) := by
  obtain ⟨negative, rfl, hneg, hpos⟩ := h
  rw [units, isNegative_round, units_round hfinite]
  rcases Int.lt_trichotomy num 0 with hlt | rfl | hgt
  · rw [hneg hlt, Int.sign_eq_neg_one_of_neg hlt, signedUnits, if_pos rfl]
    omega
  · have hzero : significand (Int.natAbs 0) den = 0 := by simp [significand, divNearest]
    rw [hzero, Nat.zero_mul]
    cases negative <;> rfl
  · rw [hpos hgt, Int.sign_eq_one_of_pos hgt, signedUnits, if_neg Bool.false_ne_true]
    omega

theorem units_nonneg (h : RoundsTo num den x) (hfinite : x.isFinite = true) (hnum : 0 ≤ num) :
    0 ≤ x.units := by
  rw [h.units_eq hfinite]
  exact Int.mul_nonneg (Int.sign_nonneg_iff.mpr hnum) (Int.natCast_nonneg _)

end RoundsTo

/-! ## Whole numbers -/

theorem units_of_view {x : Binary64} {negative : Bool} {count : Nat}
    (h : x.view = .finite negative count) : x.units = signedUnits negative count := by
  cases hfinite : x.isFinite with
  | true =>
      rw [view_of_isFinite hfinite] at h
      cases h
      rfl
  | false =>
      rcases cases_of_not_isFinite hfinite with hnan | ⟨t, rfl⟩
      · rw [view_of_isNaN hnan] at h
        cases h
      · rw [view_infinity] at h
        cases h

theorem ofNat_zero : ofNat 0 = zero false := by
  rw [ofNat, ofRatio, Nat.zero_mul, round_zero]

theorem isFinite_ofNat {n : Nat} (h : n < 2 ^ (64 : Nat)) : (ofNat n).isFinite = true := by
  refine isFinite_round_of_lt false ?_
  -- the exponent is named, so that nothing works out its power
  obtain ⟨places, hone⟩ : ∃ places : Nat, unitsPerOne = 2 ^ places ∧ 1074 = places :=
    ⟨1074, unitsPerOne.eq_1, rfl⟩
  rw [Nat.div_one, hone.1, hone.2]
  calc n * 2 ^ places
    _ < 2 ^ (64 : Nat) * 2 ^ places := (Nat.mul_lt_mul_right (Nat.two_pow_pos places)).mpr h
    _ = 2 ^ (64 + places) := (Nat.pow_add 2 64 places).symm
    _ ≤ 2 ^ (1023 + places) := Nat.pow_le_pow_right (by decide) (by omega)

theorem units_ofNat_le {m n : Nat} (h : m ≤ n) (hn : n < 2 ^ (64 : Nat)) :
    (ofNat m).units ≤ (ofNat n).units := by
  have hmul : m * unitsPerOne ≤ n * unitsPerOne := Nat.mul_le_mul_right _ h
  exact units_le_of_roundsTo (roundsTo_ofNat m) (roundsTo_ofNat n) Nat.one_pos Nat.one_pos
    (isFinite_ofNat (by omega)) (isFinite_ofNat hn) (by omega)

theorem unitsPerOne_le_units_ofNat {n : Nat} (h : 1 ≤ n) (hn : n < 2 ^ (64 : Nat)) :
    (unitsPerOne : Int) ≤ (ofNat n).units := by
  have hone : (ofNat 1).units = unitsPerOne := by
    have hview : (ofNat 1).view = .finite false unitsPerOne := by
      rw [ofNat, ofRatio, Nat.one_mul]
      exact view_round_of_view view_one false
    exact units_of_view hview
  rw [← hone]
  exact units_ofNat_le h hn

end Graphing.Binary64
