import Graphing.Proofs.Binary64.Rounding
import Graphing.Proofs.Term.Evaluation

/-!
# Squares of double precision numbers

Raising to the power of two rounds the exact square, and so does multiplying a number
with itself: the law that compiled functions rely on holds of double precision numbers bit
for bit, also at the zeros, the infinities and the NaNs. So the function that is built from a
term computes the term's value bit for bit, whatever the term is.
-/

namespace Graphing.Binary64

-- powers are those of core, whatever other instances there are
attribute [local instance (high)] instPowNat

/-- A number that is equal to two is the word for two; only the zeros have more than one
word. -/
theorem eq_two_of_ieeeEq {c : Binary64} (h : c.ieeeEq two = true) : c = two := by
  have hrank : two.rank = (2 ^ (62 : Nat) : Nat) := by decide
  simp only [ieeeEq, Bool.and_eq_true, beq_iff_eq, hrank] at h
  have hsign : c.isNegative = false := by
    cases hs : c.isNegative with
    | false => rfl
    | true =>
        have := h.2
        simp only [rank, hs, if_true] at this
        omega
  have hmagnitude : c.magnitude = 2 ^ (62 : Nat) := by
    have := h.2
    simp only [rank, hsign, Bool.false_eq_true, if_false] at this
    omega
  rw [← ofMagnitude_isNegative_magnitude c, hsign, hmagnitude]
  decide

theorem view_two : two.view = .finite false (2 * unitsPerOne) := by
  decide +kernel

theorem view_one : (one false).view = .finite false unitsPerOne := by
  decide +kernel

theorem unitsPerOne_pos : 0 < unitsPerOne := by
  rw [unitsPerOne]
  generalize 1074 = places
  exact Nat.two_pow_pos places

theorem parity_two : parity (2 * unitsPerOne) = .even := by
  rw [parity, Nat.mul_mod_left, Nat.mul_div_cancel _ unitsPerOne_pos]
  rfl

theorem finitePower_two (s : Bool) (a : Nat) :
    finitePower s a false (2 * unitsPerOne) = round false (a * a) unitsPerOne := by
  have hodd : (Parity.even == Parity.odd) = false := rfl
  have hfractional : (Parity.even == Parity.fractional) = false := rfl
  simp only [finitePower, parity_two, hodd, hfractional, Bool.and_false, Bool.false_eq_true,
    if_false, Nat.mul_div_cancel _ unitsPerOne_pos]
  split
  · rename_i hone
    rw [hone, ← round_of_view view_one]
    exact round_congr false (by decide) unitsPerOne_pos (by rw [Nat.mul_one])
  · rw [if_pos ⟨by decide, by decide⟩, wholePower, if_neg (by decide), ofRatio]
    apply round_congr false (Nat.pow_pos unitsPerOne_pos) unitsPerOne_pos
    rw [Nat.pow_two, Nat.pow_two, Nat.mul_assoc]

theorem pow_two_eq_mul (b : Binary64) : pow b two = mul b b := by
  -- the exponent is brought into a form that the match on zero sees through
  obtain ⟨n, hn⟩ : ∃ n, 2 * unitsPerOne = n + 1 :=
    Nat.exists_eq_succ_of_ne_zero (by have := unitsPerOne_pos; omega)
  have hodd : (parity (n + 1) == .odd) = false := by
    rw [← hn, parity_two]
    rfl
  unfold pow mul
  rw [view_two, hn]
  cases b.view with
  | nan => rfl
  | infinite s => simp [hodd]
  | finite s a =>
      cases a with
      | zero => simp [hodd, round, roundMagnitude_zero, zero]
      | succ a =>
          simp only [Bool.xor_self]
          rw [← hn]
          exact finitePower_two s (a + 1)

theorem squaresByProduct : SquaresByProduct Binary64 := by
  intro b c htwo
  rw [eq_two_of_ieeeEq htwo]
  exact pow_two_eq_mul b

end Graphing.Binary64

namespace Graphing.Term

/-- The shapes that functions are specialised to make no difference, on terms that lowering
never gives as well as on others. Over any kind of number the function of every term computes
the term's value everywhere if and only if to the power of two is times itself; over double
precision numbers it does so bit for bit. -/
theorem specialised_eq_eval :
    (∀ (β : Type) [Arithmetic β],
      SquaresByProduct β ↔ ∀ (t : Term β) (x : β), t.closure x = t.eval x) ∧
    ∀ (t : Term Binary64) (x : Binary64), t.closure x = t.eval x := by
  refine ⟨?_, closure_eq_eval Binary64.squaresByProduct⟩
  intro β _
  exact ⟨closure_eq_eval, squaresByProduct_of_closure_eq_eval⟩

-- a square of a constant NaN, which lowering would have worked out
example : (Term.binary .pow (.neg (.const Binary64.nan)) (.const Binary64.two)).closure
    (.zero true) = Binary64.nan := by decide +kernel

end Graphing.Term
