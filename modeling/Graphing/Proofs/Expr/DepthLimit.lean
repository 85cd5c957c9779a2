import Graphing.Proofs.Expr.Spelling

/-!
# Past the depth budget

Tokens that derive a formula, with their numerals and calls in order, are refused for one
reason only: the formula reaches deeper than the budget. The proof runs beside the one of
completeness. Where a part of the formula is too deep its parser is refused by induction,
and where every part is shallow enough the parser has come to the very token that spends
one unit too many.
-/

namespace Graphing

/-- The errors of a budget that is used up. -/
inductive ParseError.DepthLimit : ParseError → Prop
  | tooDeep (column : Nat) : DepthLimit (.tooDeep column)
  | tooLong (column : Nat) : DepthLimit (.tooLong column)

namespace Parser

variable {fin : Nat}

/-- A parser has run out of budget. -/
def OutOfDepth {β : Type} (result : Except ParseError β) : Prop :=
  ∃ error, error.DepthLimit ∧ result = .error error

/-- What the parsers make of derivable tokens on a budget that is too small. -/
def Refused (fin : Nat) (phrase : Phrase) (tokens : List Token) (e : Formula)
    (rest : List Token) : Prop :=
  match phrase with
  | .chain level => ∀ budget, budget < e.deepest → StopsBelow level rest →
      OutOfDepth (chain fin budget level tokens)
  | .signed => ∀ budget, budget < e.deepest → OutOfDepth (signed fin budget tokens)
  | .primary => ∀ token after, tokens = token :: after → ∀ budget, budget < e.deepest →
      OutOfDepth (primary fin budget token after)

theorem Refused.operand {budget : Nat} {level : ChainLevel} {tokens rest : List Token}
    {e : Formula} (h : Refused fin level.operandPhrase tokens e rest)
    (deep : budget < e.deepest) (below : StopsBelow level rest) :
    OutOfDepth (operand fin budget level tokens) := by
  rw [operand.eq_def]
  cases level with
  | sum => exact h budget deep fun tighter hlt => below tighter (Nat.lt_trans hlt (by decide))
  | product =>
      exact h budget deep fun tighter hlt => below tighter (Nat.lt_trans hlt (by decide))
  | power => exact h budget deep

/-- The inside of a call or of parentheses is followed by a closing one. -/
theorem Refused.enclosed {budget : Nat} {tokens rest : List Token} {closing : Token}
    {e : Formula} (h : Refused fin (.chain .sum) tokens e (closing :: rest))
    (hc : closing.kind = .closeParen) (deep : budget < e.deepest) :
    OutOfDepth (chain fin budget .sum tokens) :=
  h budget deep fun tighter _ => stopsAt_closeParen hc tighter rest

theorem Refused.sign {budget : Nat} {token : Token} {tokens rest : List Token} {e : Formula}
    (h : Refused fin .signed tokens e rest) (hk : token.kind = .minus ∨ token.kind = .plus)
    (deep : budget < e.deepest + 1) : OutOfDepth (signed fin budget (token :: tokens)) := by
  cases budget with
  | zero =>
      refine ⟨_, .tooDeep token.column, ?_⟩
      rw [signed.eq_def]
      rcases hk with hk | hk <;> simp only [hk]
  | succ left =>
      obtain ⟨error, hlimit, hinner⟩ := h left (Nat.lt_of_succ_lt_succ deep)
      refine ⟨error, hlimit, ?_⟩
      rw [signed.eq_def]
      rcases hk with hk | hk <;> simp only [hk, hinner]

theorem refused_of_derives {phrase : Phrase} {tokens rest : List Token} {e : Formula}
    (h : Derives phrase tokens e rest) (readable : ∀ token ∈ tokens, token.Readable)
    (named : ∀ name ∈ e.calledNames, Builtin.Named name) :
    Refused fin phrase tokens e rest := by
  induction h with
  | @first level tokens e rest _ ih =>
      intro budget deep below
      obtain ⟨error, hlimit, hoperand⟩ := (ih readable named).operand deep below
      refine ⟨error, hlimit, ?_⟩
      rw [chain, hoperand]
  | @next level tokens l token after op r rest hl hj hr ihLeft ihRight =>
      intro budget deep below
      rw [Expr.deepest, hj.level_eq] at deep
      have namedLeft : ∀ name ∈ l.calledNames, Builtin.Named name :=
        fun name hname => named name (List.mem_append_left _ hname)
      have hstop := stopsBelow_of_joins hj after
      by_cases hdeep : budget < l.deepest
      · exact ihLeft readable namedLeft budget hdeep hstop
      · -- the chain is read up to this operator, on which or after which the budget ends
        have hleft : chain fin budget level tokens = _ :=
          accepted_of_derives hl readable namedLeft budget (by omega) hstop
        have hright : Refused fin level.operandPhrase after r rest :=
          ihRight (fun t ht => readable t (hl.suffix.subset (List.mem_cons_of_mem _ ht)))
            (fun name hname => named name (List.mem_append_right _ hname))
        rw [hleft, chainRest.eq_def]
        simp only [ChainLevel.operator?_eq_some_iff.mpr hj]
        cases hspare : budget - l.chainLength level with
        | zero => exact ⟨_, .tooLong _, rfl⟩
        | succ left =>
            have hdeepRight : left < r.deepest := by omega
            obtain ⟨error, hlimit, hoperand⟩ := hright.operand hdeepRight below
            exact ⟨error, hlimit, by simp only [hoperand]⟩
  | minus hk _ ih =>
      have hinner := ih (fun t ht => readable t (List.mem_cons_of_mem _ ht)) named
      exact fun budget deep => Refused.sign hinner (.inl hk) deep
  | plus hk _ ih =>
      have hinner := ih (fun t ht => readable t (List.mem_cons_of_mem _ ht)) named
      exact fun budget deep => Refused.sign hinner (.inr hk) deep
  | unsigned hprimary ih =>
      intro budget deep
      have haccepted : Accepted fin .primary _ _ _ :=
        accepted_of_derives hprimary readable named
      obtain ⟨token, after, rfl, hminus, hplus, _⟩ := haccepted
      rw [signed_eq_primary hminus hplus]
      exact ih readable named token after rfl budget deep
  | number => exact fun _ _ _ budget deep => absurd deep (Nat.not_lt_zero budget)
  | name => exact fun _ _ _ budget deep => absurd deep (Nat.not_lt_zero budget)
  | @call token opening tokens e closing rest hk ho he hc ih =>
      rintro _ _ ⟨⟩ budget deep
      rw [primary.eq_def]
      simp only [hk, if_pos ho]
      cases budget with
      | zero => exact ⟨_, .tooDeep _, rfl⟩
      | succ left =>
          obtain ⟨function, hfunction⟩ := Option.isSome_iff_exists.mp
            (Builtin.ofName?_isSome_iff.mpr (named token.lexeme List.mem_cons_self))
          have hinner : Refused fin (.chain .sum) tokens e (closing :: rest) :=
            ih (fun t ht => readable t (List.mem_cons_of_mem _ (List.mem_cons_of_mem _ ht)))
              (fun name hname => named name (List.mem_cons_of_mem _ hname))
          obtain ⟨error, hlimit, hchain⟩ := hinner.enclosed hc (Nat.lt_of_succ_lt_succ deep)
          refine ⟨error, hlimit, ?_⟩
          simp only [hfunction]
          rw [arguments.eq_def, if_neg he.head_ne_closeParen]
          simp only [hchain]
  | @group opening tokens e closing rest ho _ hc ih =>
      rintro _ _ ⟨⟩ budget deep
      rw [primary.eq_def]
      simp only [ho]
      cases budget with
      | zero => exact ⟨_, .tooDeep _, rfl⟩
      | succ left =>
          have hinner : Refused fin (.chain .sum) tokens e (closing :: rest) :=
            ih (fun t ht => readable t (List.mem_cons_of_mem _ ht)) named
          obtain ⟨error, hlimit, hchain⟩ := hinner.enclosed hc (Nat.lt_of_succ_lt_succ deep)
          exact ⟨error, hlimit, by simp only [hchain]⟩

end Parser

/-- Characters that spell a formula whose calls are in order are parsed as that formula if it
is within the budget, and are refused for its depth if it is not. -/
theorem Spells.parse_cases {cs : List Char} {e : Formula} (h : Spells (.chain .sum) cs e)
    (named : ∀ name ∈ e.calledNames, Builtin.Named name) :
    Expr.parse (String.ofList cs) = .ok e ∧ e.deepest ≤ Parser.depthBudget ∨
      Parser.OutOfDepth (Expr.parse (String.ofList cs)) ∧ Parser.depthBudget < e.deepest := by
  rcases Nat.lt_or_ge Parser.depthBudget e.deepest with deep | shallow
  · right
    obtain ⟨hblank, tokens, hscan, hread, hderives⟩ := h.exists_scan
    have hrefused : Parser.Refused (Expr.endColumn (String.ofList cs)) (.chain .sum) tokens e [] :=
      Parser.refused_of_derives hderives hread named
    obtain ⟨error, hlimit, hchain⟩ := hrefused Parser.depthBudget deep
      fun tighter _ => Parser.stopsAt_nil tighter
    refine ⟨⟨error, hlimit, ?_⟩, deep⟩
    simp only [Expr.parse, hblank, hscan, Expr.ofTokens, hchain, Bool.false_eq_true, if_false]
  · exact .inl ⟨h.parse_eq_ok named shallow, shallow⟩

end Graphing
