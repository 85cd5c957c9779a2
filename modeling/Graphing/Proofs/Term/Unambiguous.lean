import Graphing.Proofs.Expr.Rereading
import Graphing.Expr.Printer

/-!
# The text of a term is unambiguous

A term whose constants are finite is printed as a formula, its `embedding`: binary operations are
in parentheses, and a minus sign, be it of a negation or of a constant, stands in front of an
operand that binds tighter than it. So the text is read as that formula, unless the formula is
too deep for the reader (`Spells.parse_cases`).

Depth is no excuse for two terms with one text. The text is scanned into the same tokens for both,
and tokens that are the whole of a formula on any budget are so of one formula only
(`Spells.unique`); and the embedding keeps all that a term holds (`embedding_injective`).
-/

namespace Graphing

/-! ## One text, one formula -/

/-- Characters spell one formula at most, however deep it is. -/
theorem Spells.unique {cs : List Char} {e e' : Formula} (h : Spells (.chain .sum) cs e)
    (h' : Spells (.chain .sum) cs e') (named : ∀ name ∈ e.calledNames, Builtin.Named name)
    (named' : ∀ name ∈ e'.calledNames, Builtin.Named name) : e = e' := by
  obtain ⟨_, tokens, hscan, hread, hderives⟩ := h.exists_scan
  obtain ⟨_, tokens', hscan', _, hderives'⟩ := h'.exists_scan
  rw [hscan] at hscan'
  obtain rfl := Except.ok.inj hscan'
  -- a parser with a budget for both formulas has one answer
  have hfirst : Reads (.chain .sum) (max e.deepest e'.deepest) tokens e [] :=
    ⟨hderives, fun token ht => .inl (hread token ht), named, Nat.le_max_left _ _⟩
  have hsecond : Reads (.chain .sum) (max e.deepest e'.deepest) tokens e' [] :=
    ⟨hderives', fun token ht => .inl (hread token ht), named', Nat.le_max_right _ _⟩
  have hsame : Parser.chain 0 (max e.deepest e'.deepest) .sum tokens = .ok (e, []) :=
    Parser.chain_eq_ok_nil_iff.mpr hfirst
  rw [Parser.chain_eq_ok_nil_iff.mpr hsecond] at hsame
  exact (congrArg Prod.fst (Except.ok.inj hsame)).symm

theorem Binary64.neg_eq_abs {x : Binary64} (h : x.isNegative = true) : x.neg = x.abs := by
  rw [neg, h]
  rfl

theorem Builtin.named_name (function : Builtin) : Named function.name :=
  ⟨function, by cases function <;> decide⟩

theorem Builtin.name_injective {f g : Builtin} (h : f.name = g.name) : f = g := by
  revert h
  cases f <;> cases g <;> decide

namespace Term

/-! ## Terms as formulas -/

/-- A constant as a formula; the sign of a negative one stands in front. -/
def embedConstant (value : Binary64) : Formula :=
  if value.isNegative then .neg (.lit value.neg) else .lit value

/-- The formula that the text of a term is read as. -/
def embedding : Term Binary64 → Formula
  | .const value => embedConstant value
  | .var => .ident variableName
  | .neg operand => .neg (.group operand.embedding)
  | .binary op left right => .group (.binary op left.embedding right.embedding)
  | .call function argument => .call function.name argument.embedding

/-- The constants of a term, from left to right. -/
def constants {α : Type} : Term α → List α
  | .const value => [value]
  | .var => []
  | .neg operand => operand.constants
  | .binary _ left right => left.constants ++ right.constants
  | .call _ argument => argument.constants

/-- A term whose constants are finite numbers. -/
def HasFiniteConstants (t : Term Binary64) : Prop :=
  ∀ value ∈ t.constants, value.isFinite = true

theorem named_of_mem_calledNames_embedding (t : Term Binary64) :
    ∀ name ∈ t.embedding.calledNames, Builtin.Named name := by
  induction t with
  | const value =>
      intro name hname
      unfold embedding embedConstant at hname
      split at hname <;> cases hname
  | var =>
      intro name hname
      cases hname
  | neg operand ih => exact ih
  | binary op left right ihLeft ihRight =>
      intro name hname
      rcases List.mem_append.mp hname with hname | hname
      · exact ihLeft name hname
      · exact ihRight name hname
  | call function argument ih =>
      intro name hname
      rcases List.mem_cons.mp hname with rfl | hname
      · exact function.named_name
      · exact ih name hname

/-! ## Spelling -/

theorem spells_constant {value : Binary64} (h : value.isFinite = true) :
    Spells .signed value.text.toList (embedConstant value) := by
  have hprecedence : Phrase.signed.precedence ≤ (Expr.lit value).precedence := by
    rw [Expr.precedence]
    split <;> decide
  have hliteral := Expr.spells_readLiteral value hprecedence
  rw [Expr.chars_lit h, Expr.readLiteral, if_pos h] at hliteral
  unfold embedConstant
  split
  · rename_i hnegative
    rw [if_pos hnegative, ← Binary64.neg_eq_abs hnegative] at hliteral
    exact hliteral
  · rename_i hnegative
    rw [if_neg hnegative] at hliteral
    exact hliteral

/-- The text of a term spells a formula that needs no parentheses as an operand, since signs bind
tighter than all operators. -/
theorem spells_embedding {t : Term Binary64} (h : t.HasFiniteConstants) :
    Spells .signed t.chars t.embedding := by
  induction t with
  | const value => exact spells_constant (h value List.mem_cons_self)
  | var => exact Spells.name ⟨'x', [], rfl, by decide, by simp⟩ |>.unsigned
  | neg operand ih =>
      have hinner : Spells (.chain .sum) operand.chars operand.embedding :=
        (ih h).loosen (by decide)
      exact hinner.group.unsigned.minus
  | binary op left right ihLeft ihRight =>
      have hleft := ihLeft fun value hvalue => h value (List.mem_append_left _ hvalue)
      have hright := ihRight fun value hvalue => h value (List.mem_append_right _ hvalue)
      have hlevel : Spells (.chain op.level) _ _ := hleft.loosen (by cases op <;> decide)
      have hchain := hlevel.next op (hright.loosen (by cases op <;> decide))
      have hsum : Spells (.chain .sum) _ (.binary op left.embedding right.embedding) :=
        hchain.loosen (by cases op <;> decide)
      exact hsum.group.unsigned
  | call function argument ih =>
      have hargument : Spells (.chain .sum) argument.chars argument.embedding :=
        (ih h).loosen (by decide)
      have hcall := Spells.call function.named_name.isName hargument
      rw [String.ofList_toList] at hcall
      rw [chars, List.append_assoc]
      exact hcall.unsigned

/-! ## Nothing of a term is lost -/

theorem embedConstant_injective {a b : Binary64} (h : embedConstant a = embedConstant b) :
    a = b := by
  unfold embedConstant at h
  split at h
  · rename_i ha
    split at h
    · rename_i hb
      injection h with hneg
      injection hneg with hneg
      rw [← Binary64.neg_abs ha, ← Binary64.neg_abs hb, ← Binary64.neg_eq_abs ha,
        ← Binary64.neg_eq_abs hb, hneg]
    · cases h
  · split at h
    · cases h
    · injection h

/-- A constant is embedded as a literal or as a sign in front of one. -/
theorem embedConstant_cases (value : Binary64) :
    embedConstant value = .lit value ∨ embedConstant value = .neg (.lit value.neg) := by
  unfold embedConstant
  split
  · exact .inr rfl
  · exact .inl rfl

theorem eq_const_of_embedding {t : Term Binary64} {value : Binary64}
    (h : t.embedding = embedConstant value) : t = .const value := by
  cases t with
  | const other => rw [embedConstant_injective h]
  | _ => rcases embedConstant_cases value with hvalue | hvalue <;> simp [embedding, hvalue] at h

theorem embedding_injective {t u : Term Binary64} (h : t.embedding = u.embedding) : t = u := by
  induction t generalizing u with
  | const value => exact (eq_const_of_embedding h.symm).symm
  | var =>
      cases u with
      | const value => exact eq_const_of_embedding h
      | var => rfl
      | _ => cases h
  | neg operand ih =>
      cases u with
      | const value => exact eq_const_of_embedding h
      | neg other =>
          injection h with hgroup
          injection hgroup with hoperand
          rw [ih hoperand]
      | _ => cases h
  | binary op left right ihLeft ihRight =>
      cases u with
      | const value => exact eq_const_of_embedding h
      | binary op' left' right' =>
          injection h with hbinary
          injection hbinary with hop hleft hright
          rw [hop, ihLeft hleft, ihRight hright]
      | _ => cases h
  | call function argument ih =>
      cases u with
      | const value => exact eq_const_of_embedding h
      | call function' argument' =>
          injection h with hname hargument
          rw [Builtin.name_injective hname, ih hargument]
      | _ => cases h

/-! ## Reading a term -/

/-- The text of a term spells its embedding, with room for every operator. -/
theorem spells_chars {t : Term Binary64} (h : t.HasFiniteConstants) :
    Spells (.chain .sum) t.chars t.embedding :=
  (spells_embedding h).loosen (by decide)

/-- The text of a term with finite constants is an unambiguous formula. It is read as the
embedding of the term or refused for its depth, the one or the other as the embedding is within
the budget or not. And two such terms that are printed alike are the same term, with the same
words as constants, however deep they are. -/
theorem text_unambiguous (t : Term Binary64) (h : t.HasFiniteConstants) :
    (Expr.parse t.text = .ok t.embedding ∧ t.embedding.deepest ≤ Parser.depthBudget ∨
      Parser.OutOfDepth (Expr.parse t.text) ∧ Parser.depthBudget < t.embedding.deepest) ∧
    ∀ u : Term Binary64, u.HasFiniteConstants → t.text = u.text → t = u := by
  have hspells := spells_chars h
  refine ⟨hspells.parse_cases t.named_of_mem_calledNames_embedding, ?_⟩
  intro u hu htext
  have hchars : t.chars = u.chars := String.ofList_injective htext
  have hother := spells_chars hu
  rw [← hchars] at hother
  exact embedding_injective (hspells.unique hother
    t.named_of_mem_calledNames_embedding u.named_of_mem_calledNames_embedding)

/-- A power of a negative constant, with a negative zero and a negation in its exponent. -/
def signedPower : Term Binary64 :=
  .binary .pow (.const (.neg .two))
    (.neg (.call .sin (.binary .mul (.const (.zero true)) .var)))

theorem text_unambiguous_signedPower :
    signedPower.HasFiniteConstants ∧ signedPower.text = "(-2 ^ -(sin((-0 * x))))" ∧
      Expr.parse "(-2 ^ -(sin((-0 * x))))" = .ok signedPower.embedding ∧
      ∀ u : Term Binary64, u.HasFiniteConstants → u.text = "(-2 ^ -(sin((-0 * x))))" →
        u = signedPower := by
  have hfinite : signedPower.HasFiniteConstants := by
    show ∀ value ∈ signedPower.constants, value.isFinite = true
    decide +kernel
  have htext : signedPower.text = "(-2 ^ -(sin((-0 * x))))" := by decide +kernel
  have hshallow : signedPower.embedding.deepest ≤ Parser.depthBudget := by decide +kernel
  obtain ⟨hread, hunique⟩ := text_unambiguous signedPower hfinite
  refine ⟨hfinite, htext, ?_, ?_⟩
  · rw [← htext]
    rcases hread with ⟨hok, _⟩ | ⟨_, hdeep⟩
    · exact hok
    · exact absurd hshallow (Nat.not_le.mpr hdeep)
  · intro u hu hsame
    exact (hunique u hu (htext.trans hsame.symm)).symm

end Term

end Graphing
