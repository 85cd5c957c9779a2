import Graphing.Proofs.Expr.Spelling
import Mathlib.Control.Monad.Basic

/-!
# Printing undoes parsing

A formula that comes out of the parser binds at least as tightly as the phrase that
derived it, so the printer puts no parentheses of its own around it and its text spells
the same derivation again. Depth is a matter of the formula alone, so the text is
within the budget as well.
-/

namespace Graphing

open Token

/-- How tightly the formulas of a phrase bind at least. -/
def Phrase.precedence : Phrase → Nat
  | .chain .sum => 1
  | .chain .product => 2
  | .chain .power => 3
  | .signed => 4
  | .primary => 5

theorem Phrase.precedence_operandPhrase (level : ChainLevel) :
    level.operandPhrase.precedence = (Phrase.chain level).precedence + 1 := by
  cases level <;> rfl

theorem Phrase.precedence_le (phrase : Phrase) :
    phrase.precedence ≤ Phrase.primary.precedence := by
  rcases phrase with ⟨_ | _ | _⟩ | _ | _ <;> decide

theorem Operator.precedence_eq (op : Operator) :
    op.precedence = (Phrase.chain op.level).precedence := by
  cases op <;> rfl

/-- What is spelled as a tight phrase is spelled as every looser one. -/
theorem Spells.loosen {phrase looser : Phrase} {cs : List Char} {e : Formula}
    (h : Spells phrase cs e) (hle : looser.precedence ≤ phrase.precedence) :
    Spells looser cs e := by
  have ofPrimary : Spells .primary cs e → Spells .signed cs e := .unsigned
  have ofSigned : Spells .signed cs e → Spells (.chain .power) cs e := fun h => .first h
  have ofPower : Spells (.chain .power) cs e → Spells (.chain .product) cs e :=
    fun h => .first h
  have ofProduct : Spells (.chain .product) cs e → Spells (.chain .sum) cs e :=
    fun h => .first h
  rcases phrase with ⟨_ | _ | _⟩ | _ | _ <;> rcases looser with ⟨_ | _ | _⟩ | _ | _ <;>
    first
    | exact absurd hle (by decide)
    | grind

/-- Numerals have no sign. -/
theorem Token.isNegative_of_value? {token : Token} {value : Binary64}
    (h : token.value? = some value) : value.isNegative = false := by
  obtain ⟨decimal, _, rfl⟩ := Option.map_eq_some_iff.mp h
  exact decimal.isNegative_toBinary64

/-- A derived formula binds as tightly as its phrase. -/
theorem Derives.precedence_le {phrase : Phrase} {tokens rest : List Token} {e : Formula}
    (h : Derives phrase tokens e rest) : phrase.precedence ≤ e.precedence := by
  induction h with
  | @first level _ _ _ _ ih =>
      rw [Phrase.precedence_operandPhrase] at ih
      exact Nat.le_of_succ_le ih
  | @next level _ _ _ _ op _ _ _ hj _ _ _ =>
      have hop : (Phrase.chain level).precedence = op.precedence := by
        rw [op.precedence_eq, hj.level_eq]
      exact Nat.le_of_eq hop
  | minus => exact Nat.le_refl _
  | plus => exact Nat.le_refl _
  | unsigned _ ih => exact Nat.le_of_succ_le ih
  | number _ hv =>
      simp [Expr.precedence, Token.isNegative_of_value? hv, Expr.primaryPrecedence,
        Phrase.precedence]
  | name => exact Nat.le_refl _
  | call => exact Nat.le_refl _
  | group => exact Nat.le_refl _

/-- An operand that binds tightly enough is printed as it is. -/
theorem Expr.operandChars_of_le {least precedence : Nat} (h : least ≤ precedence)
    (cs : List Char) : operandChars least precedence cs = cs :=
  if_neg (Nat.not_lt.mpr h)

theorem Expr.chars_lit {value : Binary64} (h : value.isFinite = true) :
    (Expr.lit value).chars = value.text.toList := by
  rw [chars, literalText, Binary64.isNaN_of_isFinite h, Binary64.isInfinite_of_isFinite h]
  rfl

/-- What the scanner promises of a token and the parser asks of it. -/
structure Token.WellSpelled (token : Token) : Prop where
  readable : token.Readable
  name : token.kind = .name → IsName token.lexeme.toList

/-- The printed form of a derived formula spells the phrase that derived it. -/
theorem Derives.spells {phrase : Phrase} {tokens rest : List Token} {e : Formula}
    (h : Derives phrase tokens e rest) (lexical : ∀ token ∈ tokens, token.WellSpelled) :
    Spells phrase e.chars e := by
  induction h with
  | first _ ih => exact (ih lexical).first
  | @next level tokens l token after op r rest hl hj hr ihLeft ihRight =>
      have hleft := ihLeft lexical
      have hright := ihRight fun t ht =>
        lexical t (hl.suffix.subset (List.mem_cons_of_mem _ ht))
      have hlevel := hj.level_eq
      subst hlevel
      -- a chain leans left, so only its right operand has to bind tighter than the operator
      have hlp : op.precedence ≤ l.precedence := by
        rw [op.precedence_eq]
        exact hl.precedence_le
      have hrp : op.precedence + 1 ≤ r.precedence := by
        rw [op.precedence_eq, ← Phrase.precedence_operandPhrase]
        exact hr.precedence_le
      rw [Expr.chars, Expr.operandChars_of_le hlp, Expr.operandChars_of_le hrp]
      exact hleft.next op hright
  | minus _ he ih =>
      have hp : Expr.signPrecedence ≤ Expr.precedence _ := he.precedence_le
      rw [Expr.chars, Expr.operandChars_of_le hp]
      exact (ih fun t ht => lexical t (List.mem_cons_of_mem _ ht)).minus
  | plus _ he ih =>
      have hp : Expr.signPrecedence ≤ Expr.precedence _ := he.precedence_le
      rw [Expr.chars, Expr.operandChars_of_le hp]
      exact (ih fun t ht => lexical t (List.mem_cons_of_mem _ ht)).plus
  | unsigned _ ih => exact (ih lexical).unsigned
  | @number token value rest hk hv =>
      -- the numeral that is printed may be another one, but it spells the same number
      obtain ⟨value', hv', hf⟩ := (lexical token List.mem_cons_self).readable hk
      have hsame : value = value' := Option.some.inj (hv.symm.trans hv')
      subst hsame
      obtain ⟨d, hpositional, rfl⟩ :=
        Binary64.exists_positional_text hf (Token.isNegative_of_value? hv)
      rw [Expr.chars_lit hf]
      exact .number hpositional hf
  | @name token rest hk _ =>
      have h := Spells.name ((lexical token List.mem_cons_self).name hk)
      rw [String.ofList_toList] at h
      exact h
  | @call token opening tokens e closing rest hk _ _ _ ih =>
      have h := Spells.call ((lexical token List.mem_cons_self).name hk)
        (ih fun t ht => lexical t (List.mem_cons_of_mem _ (List.mem_cons_of_mem _ ht)))
      rw [String.ofList_toList] at h
      exact h
  | group _ _ _ ih =>
      exact (ih fun t ht => lexical t (List.mem_cons_of_mem _ ht)).group

namespace Expr

/-- A formula that was read from a text is printed as a text that is read as the very
same formula. -/
theorem parse_text_of_parse (text : String) (e : Formula) (h : parse text = .ok e) :
    parse e.text = .ok e := by
  obtain ⟨_, tokens, hscan, hreads⟩ := parse_eq_ok_iff_reads.mp h
  have lexical : ∀ token ∈ tokens, token.WellSpelled := by
    intro token ht
    exact ⟨hreads.readable_of_nil token ht, Token.isName_of_scanFrom hscan token ht⟩
  exact (hreads.derives.spells lexical).parse_eq_ok hreads.named hreads.shallow

/-- A formula with a sign, a group, a call and chains of all levels, for which the text that
is read and the text that is printed differ. -/
theorem parse_text_of_parse_mixed :
    let e : Formula :=
      .binary .add (.neg (.group (.binary .pow (.ident "x") (.lit Binary64.two))))
        (.binary .mod (.binary .mul (.lit ⟨0x3ff8000000000000⟩) (.call "SIN" (.ident "pi")))
          (.ident "x"))
    parse "-(x^^2)+1.50*SIN( pi )%x" = .ok e ∧ parse e.text = .ok e := by
  have h : parse "-(x^^2)+1.50*SIN( pi )%x" =
      .ok (.binary .add (.neg (.group (.binary .pow (.ident "x") (.lit Binary64.two))))
        (.binary .mod (.binary .mul (.lit ⟨0x3ff8000000000000⟩) (.call "SIN" (.ident "pi")))
          (.ident "x"))) := by
    decide +kernel
  exact ⟨h, parse_text_of_parse _ _ h⟩

end Expr

end Graphing
