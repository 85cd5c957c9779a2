import Graphing.Proofs.Binary64.Square

/-!
# Numbers up to the word of a NaN

Two words are `Alike` if they are the same word or if neither is a number. Negation turns the
sign of a NaN and a hand-made NaN may hold anything, so this is the finest relation
that written formulas can keep. Every operation respects it: what is computed depends on the
operands through `view`, which has one NaN.

The second half is about literals that are not finite. They are written as quotients with the
divisor zero, and `front` is the dividend. Multiplying or dividing by such a literal is
the same as taking the dividend first and zero second, in the order in which products are
regrouped.
-/

namespace Graphing.Binary64

-- powers are those of core, whatever other instances there are
attribute [local instance (high)] instPowNat

/-- The same word, or two words that are not numbers. -/
def Alike (x y : Binary64) : Prop :=
  x = y ∨ (x.isNaN = true ∧ y.isNaN = true)

theorem Alike.refl (x : Binary64) : x.Alike x := .inl rfl

theorem view_of_isNaN {x : Binary64} (h : x.isNaN = true) : x.view = .nan := by
  simp only [isNaN, decide_eq_true_eq] at h
  rw [view, if_pos h]

theorem Alike.view_eq {x y : Binary64} (h : x.Alike y) : x.view = y.view := by
  rcases h with rfl | ⟨hx, hy⟩
  · rfl
  · rw [view_of_isNaN hx, view_of_isNaN hy]

/-! ## Operations -/

theorem magnitude_lt (x : Binary64) : x.magnitude < 2 ^ (63 : Nat) :=
  Nat.mod_lt _ (by decide)

theorem magnitude_ofMagnitude (negative : Bool) {magnitude : Nat} (h : magnitude < 2 ^ (63 : Nat)) :
    (ofMagnitude negative magnitude).magnitude = magnitude := by
  rw [Binary64.magnitude, toNat_bits_ofMagnitude negative h]
  cases negative with
  | false => exact Nat.mod_eq_of_lt h
  | true =>
      simp only [if_true, Nat.add_mod_right]
      exact Nat.mod_eq_of_lt h

theorem isNaN_ofMagnitude (negative : Bool) (x : Binary64) :
    (ofMagnitude negative x.magnitude).isNaN = x.isNaN := by
  rw [isNaN, magnitude_ofMagnitude negative x.magnitude_lt, isNaN]

theorem Alike.neg {x y : Binary64} (h : x.Alike y) : x.neg.Alike y.neg := by
  rcases h with rfl | ⟨hx, hy⟩
  · exact .refl _
  · right
    rw [Binary64.neg, Binary64.neg, isNaN_ofMagnitude, isNaN_ofMagnitude]
    exact ⟨hx, hy⟩

theorem Alike.abs {x y : Binary64} (h : x.Alike y) : x.abs.Alike y.abs := by
  rcases h with rfl | ⟨hx, hy⟩
  · exact .refl _
  · right
    rw [Binary64.abs, Binary64.abs, isNaN_ofMagnitude, isNaN_ofMagnitude]
    exact ⟨hx, hy⟩

theorem Alike.rem_eq {x y u v : Binary64} (h : x.Alike y) (h' : u.Alike v) :
    rem x u = rem y v := by
  rcases h with rfl | ⟨hx, hy⟩
  · rw [rem, rem, h'.view_eq]
  · rw [rem, rem, view_of_isNaN hx, view_of_isNaN hy]

/-- The operators cannot tell one NaN from another. -/
theorem Alike.apply (op : Operator) {x y u v : Binary64} (h : x.Alike y) (h' : u.Alike v) :
    (Arithmetic.apply op x u).Alike (Arithmetic.apply op y v) := by
  left
  cases op with
  | add => show add x u = add y v; rw [add, add, h.view_eq, h'.view_eq]
  | sub => show add x u.neg = add y v.neg; rw [add, add, h.view_eq, h'.neg.view_eq]
  | mul => show mul x u = mul y v; rw [mul, mul, h.view_eq, h'.view_eq]
  | div => show div x u = div y v; rw [div, div, h.view_eq, h'.view_eq]
  | pow => show pow x u = pow y v; rw [pow, pow, h.view_eq, h'.view_eq]
  | mod => exact h.rem_eq h'

/-- The built-in functions cannot tell one NaN from another. -/
theorem Alike.call (function : Builtin) {x y : Binary64} (h : x.Alike y) :
    (Arithmetic.call function x).Alike (Arithmetic.call function y) := by
  cases function with
  | abs => exact h.abs
  | _ =>
      rcases h with rfl | ⟨hx, hy⟩
      · exact .refl _
      · left
        have hview := view_of_isNaN hx
        have hview' := view_of_isNaN hy
        simp only [Arithmetic.call, sin, cos, tan, ln, log10, logarithm, sqrt, hview, hview']

/-! ## Signs -/

theorem magnitude_abs (x : Binary64) : x.abs.magnitude = x.magnitude :=
  magnitude_ofMagnitude false x.magnitude_lt

theorem isNegative_abs (x : Binary64) : x.abs.isNegative = false :=
  isNegative_ofMagnitude false x.magnitude_lt

theorem isFinite_abs (x : Binary64) : x.abs.isFinite = x.isFinite := by
  rw [isFinite, magnitude_abs, isFinite]

theorem neg_abs {x : Binary64} (h : x.isNegative = true) : x.abs.neg = x := by
  rw [neg, isNegative_abs, magnitude_abs]
  show ofMagnitude true x.magnitude = x
  rw [← h, ofMagnitude_isNegative_magnitude]

/-! ## Views -/

theorem view_ofMagnitude (negative : Bool) {magnitude : Nat} (h : magnitude < 2 ^ (63 : Nat)) :
    (ofMagnitude negative magnitude).view =
      if infiniteMagnitude < magnitude then .nan
      else if magnitude = infiniteMagnitude then .infinite negative
      else .finite negative (unitsOfMagnitude magnitude) := by
  rw [view, magnitude_ofMagnitude negative h, isNegative_ofMagnitude negative h]

@[simp] theorem view_nan : nan.view = .nan := by
  decide

@[simp] theorem view_zero (negative : Bool) : (zero negative).view = .finite negative 0 :=
  view_ofMagnitude negative (by decide)

@[simp] theorem view_infinity (negative : Bool) :
    (infinity negative).view = .infinite negative := by
  rw [infinity, view_ofMagnitude negative infiniteMagnitude_lt, if_neg (Nat.lt_irrefl _),
    if_pos rfl]

theorem eq_infinity {x : Binary64} (h : x.isInfinite = true) : x = infinity x.isNegative := by
  simp only [isInfinite, decide_eq_true_eq] at h
  rw [infinity, ← h, ofMagnitude_isNegative_magnitude]

/-- A finite number keeps its units when its sign is changed. -/
theorem view_round_of_view {x : Binary64} {s : Bool} {a : Nat} (h : x.view = .finite s a)
    (t : Bool) : (round t a 1).view = .finite t a := by
  have hfinite : x.magnitude < infiniteMagnitude ∧ unitsOfMagnitude x.magnitude = a := by
    simp only [view] at h
    split at h
    · cases h
    · split at h
      · cases h
      · cases h
        exact ⟨by omega, rfl⟩
  obtain ⟨hlt, rfl⟩ := hfinite
  rw [round, roundMagnitude_unitsOfMagnitude hlt, view_ofMagnitude t x.magnitude_lt,
    if_neg (by omega), if_neg (by omega)]

theorem round_zero (t : Bool) (den : Nat) : round t 0 den = zero t := by
  rw [round, roundMagnitude_zero, zero]

/-! ## Literals that are not finite -/

/-- The dividend that stands for a literal which is not finite; its divisor is zero. -/
def front (x : Binary64) : Binary64 :=
  if x.isNaN then zero false else one x.isNegative

theorem cases_of_not_isFinite {x : Binary64} (h : x.isFinite = false) :
    x.isNaN = true ∨ ∃ t, x = infinity t := by
  by_cases hnan : x.isNaN = true
  · exact .inl hnan
  · refine .inr ⟨x.isNegative, eq_infinity ?_⟩
    simp only [isFinite, isNaN, isInfinite, decide_eq_true_eq, decide_eq_false_iff_not] at *
    omega

end Graphing.Binary64
