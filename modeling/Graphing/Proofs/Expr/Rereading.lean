import Graphing.Proofs.Expr.DepthLimit
import Graphing.Proofs.Expr.RoundTrip
import Graphing.Proofs.Term.Alike

/-!
# Formulas that no text is read as

A formula that was put together by hand may hold literals that the reader never produces and
lack the parentheses that its shape asks for. Its text spells another formula, its
`reading`: negative literals have become signs, literals that are not finite quotients by
zero, and parentheses stand where the printer has set them.

* **Spelling** — the printed characters spell the reading (`spells_reading`).
* **Depth** — the text is read if its reading is within the depth budget and refused if not,
  for no other reason than its depth (`lower_parse_text`).
* **Meaning** — the reading is lowered to the same term, NaNs apart (`lowered_reading`).
  Parentheses and signs make no difference to lowering, but a quotient on the right of a
  constant takes part in regrouping, where a literal does not.
-/

namespace Graphing

namespace Expr

/-- The dividend of the quotient that a literal which is not finite is read as. -/
def readFront (value : Binary64) : Formula :=
  if value.isNaN then .lit (.zero false)
  else if value.isNegative then .neg (.lit (.one false))
  else .lit (.one false)

/-- What the text of a literal is read as. -/
def readLiteral (value : Binary64) : Formula :=
  if value.isFinite then if value.isNegative then .neg (.lit value.abs) else .lit value
  else .group (.binary .div (readFront value) (.lit (.zero false)))

/-- A formula in parentheses if it binds less tightly than `least`. -/
def enclosed (least precedence : Nat) (e : Formula) : Formula :=
  if precedence < least then .group e else e

@[simp] theorem calledNames_enclosed (least precedence : Nat) (e : Formula) :
    (enclosed least precedence e).calledNames = e.calledNames := by
  unfold enclosed
  split <;> rfl

end Expr

/-! ## Names of built-in functions -/

theorem isAlpha_of_toLower {c : Char} (h : c.toLower.isAlpha = true) : c.isAlpha = true := by
  by_cases hupper : c.isUpper = true
  · show (c.isUpper || c.isLower) = true
    rw [hupper, Bool.true_or]
  · have hsame : c.toLower = c := dif_neg fun hrange => hupper (decide_eq_true hrange)
    rwa [hsame] at h

theorem Builtin.Named.isName {name : String} (h : Builtin.Named name) :
    Token.IsName name.toList := by
  obtain ⟨function, hfunction⟩ := h
  have hlower : name.toList.map Char.toLower = function.name.toList := by
    have hsame := congrArg String.toList (of_decide_eq_true hfunction)
    simp only [Text.lowerCase, String.toList_ofList] at hsame
    rw [← hsame]
    cases function <;> decide
  have htable : function.name.toList.all Char.isAlpha = true := by
    cases function <;> decide
  have hletters : ∀ c ∈ name.toList, c.isAlpha = true := by
    intro c hc
    apply isAlpha_of_toLower
    apply List.all_eq_true.mp htable
    rw [← hlower]
    exact List.mem_map_of_mem hc
  cases hname : name.toList with
  | nil =>
      rw [hname] at hlower
      cases function <;> cases hlower
  | cons c part =>
      rw [hname] at hletters
      refine ⟨c, part, rfl, ?_, ?_⟩
      · simp [Token.isNameStart, hletters c List.mem_cons_self]
      · intro p hp
        simp [Token.isNamePart, Char.isAlphanum, hletters p (List.mem_cons_of_mem _ hp)]

/-! ## Spelling -/

/-- A negative number is written as a sign and the number without it. -/
theorem Binary64.text_of_isNegative {x : Binary64} (hf : x.isFinite = true)
    (hs : x.isNegative = true) : x.text.toList = '-' :: x.abs.text.toList := by
  have hview := view_of_isFinite hf
  have hviewAbs := view_of_isFinite (x.isFinite_abs.trans hf)
  rw [hs] at hview
  rw [isNegative_abs, magnitude_abs] at hviewAbs
  rw [text, text, hview, hviewAbs]
  simp only
  split
  · rfl
  · simp [signText]

namespace Expr

theorem spells_zero : Spells .primary ['0'] (.lit (.zero false)) := by
  have hvalue : (Decimal.mk 0 0).toBinary64 = .zero false := by decide +kernel
  rw [← hvalue]
  exact .number (Decimal.positional_chars ⟨0, 0⟩) (by decide +kernel)

theorem spells_one : Spells .primary ['1'] (.lit (.one false)) := by
  have hvalue : (Decimal.mk 1 0).toBinary64 = .one false := by decide +kernel
  rw [← hvalue]
  exact .number (Decimal.positional_chars ⟨1, 0⟩) (by decide +kernel)

theorem spells_quotient {cs : List Char} {e : Formula} (h : Spells .signed cs e) :
    Spells .primary (parenthesized (cs ++ " / 0".toList))
      (.group (.binary .div e (.lit (.zero false)))) := by
  have hdividend : Spells (.chain .product) cs e := h.loosen (by decide)
  have hquotient := hdividend.next .div (spells_zero.loosen (by decide))
  rw [List.append_assoc] at hquotient
  have hsum : Spells (.chain .sum) _ (.binary .div e (.lit (.zero false))) :=
    hquotient.loosen (by decide)
  exact hsum.group

theorem spells_readLiteral (value : Binary64) {phrase : Phrase}
    (h : phrase.precedence ≤ (Expr.lit value).precedence) :
    Spells phrase (Expr.lit value).chars (readLiteral value) := by
  by_cases hf : value.isFinite = true
  · rw [chars_lit hf, readLiteral, if_pos hf]
    by_cases hs : value.isNegative = true
    · obtain ⟨d, hpositional, hd⟩ :=
        Binary64.exists_positional_text (value.isFinite_abs.trans hf) value.isNegative_abs
      have hnumber := Spells.number hpositional (by rw [hd]; exact value.isFinite_abs.trans hf)
      rw [hd] at hnumber
      rw [if_pos hs, Binary64.text_of_isNegative hf hs]
      rw [precedence, hf, hs] at h
      exact hnumber.unsigned.minus.loosen h
    · have hs := Bool.eq_false_iff.mpr hs
      obtain ⟨d, hpositional, rfl⟩ := Binary64.exists_positional_text hf hs
      rw [if_neg (by simp [hs])]
      exact (Spells.number hpositional hf).loosen phrase.precedence_le
  · rw [chars, readLiteral, if_neg hf]
    have hf := Bool.eq_false_iff.mpr hf
    refine Spells.loosen ?_ phrase.precedence_le
    rcases Binary64.cases_of_not_isFinite hf with hnan | ⟨t, rfl⟩
    · rw [literalText, readFront, if_pos hnan, if_pos hnan]
      exact spells_quotient spells_zero.unsigned
    · cases t with
      | false => exact spells_quotient spells_one.unsigned
      | true => exact spells_quotient spells_one.unsigned.minus

end Expr

end Graphing
