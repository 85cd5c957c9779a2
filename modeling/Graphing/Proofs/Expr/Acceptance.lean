import Graphing.Proofs.Expr.Grammar

/-!
# What the parser accepts

The parser of a phrase succeeds exactly on what the grammar derives, as long as every
numeral is finite, every called name is known and nothing stands deeper than the
budget allows.

* **Soundness** follows the recursion of the parsers. The loop over a chain is given
  what the operands before it spell, with the budget that they have spent.
* **Completeness** is by induction on derivations. A derivation need not take as many
  operands as the parser does, so the parser of a chain is compared with its own
  loop, started where the derivation ends.
-/

namespace Graphing

/-- What it means that a parser of a phrase takes the tokens in front of `rest` as a
formula. -/
structure Reads (phrase : Phrase) (budget : Nat) (tokens : List Token) (e : Formula)
    (rest : List Token) : Prop where
  derives : Derives phrase tokens e rest
  readable : ∀ token ∈ tokens, token.Readable ∨ token ∈ rest
  named : ∀ name ∈ e.calledNames, Builtin.Named name
  shallow : e.deepest ≤ budget

/-- A token of another kind than a number has nothing to read. -/
theorem Token.readable_of_kind {token : Token} {kind : TokenKind} (h : token.kind = kind)
    (hn : kind ≠ .number) : token.Readable :=
  fun hk => absurd (h.symm.trans hk) hn

namespace Reads

variable {budget : Nat} {tokens after rest : List Token} {token opening closing : Token}
  {e l r : Formula} {level : ChainLevel} {op : Operator}

theorem readable_cons (ht : token.Readable) (h : ∀ t ∈ tokens, t.Readable ∨ t ∈ rest) :
    ∀ t ∈ token :: tokens, t.Readable ∨ t ∈ rest := by
  intro t hmem
  rcases List.mem_cons.mp hmem with rfl | hmem
  · exact .inl ht
  · exact h t hmem

theorem readable_skip (ht : token.Readable) (h : ∀ t ∈ tokens, t.Readable ∨ t ∈ token :: rest) :
    ∀ t ∈ tokens, t.Readable ∨ t ∈ rest := by
  intro t hmem
  rcases h t hmem with hreadable | hrest
  · exact .inl hreadable
  · rcases List.mem_cons.mp hrest with rfl | hrest
    · exact .inl ht
    · exact .inr hrest

theorem first (h : Reads level.operandPhrase budget tokens e rest) :
    Reads (.chain level) budget tokens e rest :=
  ⟨.first h.derives, h.readable, h.named, h.shallow⟩

/-- One more operator of a chain spends one, on top of what the operators before it
have spent. -/
theorem next (hl : Reads (.chain level) (budget + 1 + l.chainLength level) tokens l
      (token :: after))
    (hj : level.Joins token.kind op) (hr : Reads level.operandPhrase budget after r rest) :
    Reads (.chain level) (budget + 1 + l.chainLength level) tokens (.binary op l r) rest := by
  refine ⟨.next hl.derives hj hr.derives, ?_, ?_, ?_⟩
  · intro t ht
    have hoperator : token.Readable := Token.readable_of_kind rfl hj.kind_ne.1
    rcases readable_skip hoperator hl.readable t ht with h | h
    · exact .inl h
    · exact hr.readable t h
  · intro name hname
    rcases List.mem_append.mp hname with h | h
    · exact hl.named name h
    · exact hr.named name h
  · have h1 := hl.shallow
    have h2 := hr.shallow
    rw [Expr.deepest, hj.level_eq]
    omega

theorem minus (hk : token.kind = .minus) (h : Reads .signed budget tokens e rest) :
    Reads .signed (budget + 1) (token :: tokens) (.neg e) rest := by
  refine ⟨.minus hk h.derives, ?_, h.named, Nat.succ_le_succ h.shallow⟩
  exact readable_cons (Token.readable_of_kind hk (by decide)) h.readable

theorem plus (hk : token.kind = .plus) (h : Reads .signed budget tokens e rest) :
    Reads .signed (budget + 1) (token :: tokens) (.pos e) rest := by
  refine ⟨.plus hk h.derives, ?_, h.named, Nat.succ_le_succ h.shallow⟩
  exact readable_cons (Token.readable_of_kind hk (by decide)) h.readable

theorem unsigned (h : Reads .primary budget tokens e rest) :
    Reads .signed budget tokens e rest :=
  ⟨.unsigned h.derives, h.readable, h.named, h.shallow⟩

theorem number {value : Binary64} (hk : token.kind = .number)
    (hv : token.value? = some value) (hf : value.isFinite = true) :
    Reads .primary budget (token :: rest) (.lit value) rest := by
  refine ⟨.number hk hv, ?_, by simp [Expr.calledNames], Nat.zero_le _⟩
  exact readable_cons (fun _ => ⟨value, hv, hf⟩) (fun _ ht => .inr ht)

theorem name (hk : token.kind = .name) (hr : ¬ OpensParen rest) :
    Reads .primary budget (token :: rest) (.ident token.lexeme) rest := by
  refine ⟨.name hk hr, ?_, by simp [Expr.calledNames], Nat.zero_le _⟩
  exact readable_cons (Token.readable_of_kind hk (by decide)) (fun _ ht => .inr ht)

theorem readable_parenthesized (ho : opening.kind = .openParen)
    (h : Reads (.chain .sum) budget tokens e (closing :: rest))
    (hc : closing.kind = .closeParen) : ∀ t ∈ opening :: tokens, t.Readable ∨ t ∈ rest :=
  readable_cons (Token.readable_of_kind ho (by decide))
    (readable_skip (Token.readable_of_kind hc (by decide)) h.readable)

theorem group (ho : opening.kind = .openParen)
    (h : Reads (.chain .sum) budget tokens e (closing :: rest))
    (hc : closing.kind = .closeParen) :
    Reads .primary (budget + 1) (opening :: tokens) (.group e) rest :=
  ⟨.group ho h.derives hc, readable_parenthesized ho h hc, h.named,
    Nat.succ_le_succ h.shallow⟩

theorem call (hk : token.kind = .name) (hn : Builtin.Named token.lexeme)
    (ho : opening.kind = .openParen)
    (h : Reads (.chain .sum) budget tokens e (closing :: rest))
    (hc : closing.kind = .closeParen) :
    Reads .primary (budget + 1) (token :: opening :: tokens) (.call token.lexeme e) rest := by
  refine ⟨.call hk ho h.derives hc, ?_, ?_, Nat.succ_le_succ h.shallow⟩
  · exact readable_cons (Token.readable_of_kind hk (by decide)) (readable_parenthesized ho h hc)
  · intro name hname
    rcases List.mem_cons.mp hname with rfl | hname
    · exact hn
    · exact h.named name hname

theorem readable_of_nil {phrase : Phrase} (h : Reads phrase budget tokens e []) :
    ∀ t ∈ tokens, t.Readable := by
  intro t ht
  rcases h.readable t ht with hreadable | hnil
  · exact hreadable
  · cases hnil

end Reads

namespace Parser

variable {fin : Nat}

/-! ## What the small parsers do -/

theorem closing_eq_ok_iff {expected : Expected} {tokens rest : List Token} :
    closing fin expected tokens = .ok rest ↔
      ∃ token, token.kind = .closeParen ∧ tokens = token :: rest := by
  constructor
  · intro h
    cases tokens with
    | nil => cases h
    | cons token after =>
        rw [closing] at h
        split at h
        · rename_i hk
          cases h
          exact ⟨token, hk, rfl⟩
        · split at h <;> cases h
  · rintro ⟨token, hk, rfl⟩
    rw [closing, if_pos hk]

theorem number_eq_ok_iff {token : Token} {e : Formula} :
    number token = .ok e ↔
      ∃ value, token.value? = some value ∧ value.isFinite = true ∧ e = .lit value := by
  unfold number Token.value?
  constructor
  · intro h
    split at h
    · rename_i decimal hd
      split at h
      · rename_i hf
        cases h
        exact ⟨_, by rw [hd]; rfl, hf, rfl⟩
      · cases h
    · cases h
  · rintro ⟨value, hv, hf, rfl⟩
    obtain ⟨decimal, hd, rfl⟩ := Option.map_eq_some_iff.mp hv
    simp only [hd, hf, if_true]

/-- If no further argument was read then nothing was. -/
theorem furtherArguments_eq_zero {argument : List Token → Parsed Formula} {steps : Nat}
    {tokens rest : List Token}
    (h : furtherArguments argument steps tokens = .ok (0, rest)) : rest = tokens := by
  unfold furtherArguments at h
  split at h
  · simpa using h.symm
  · simpa using h.symm
  · split at h
    · split at h
      · cases h
      · split at h
        · cases h
        · simp at h
    · simpa using h.symm

/-- A call ends well if there was one argument and a closing parenthesis is next. -/
theorem finishCall_eq_ok_iff {name : Token} {function : Builtin} {first : Option Formula}
    {count : Nat} {tokens rest : List Token} {e : Formula} :
    finishCall fin name function first count tokens = .ok (e, rest) ↔
      count = 1 ∧ ∃ argument, first = some argument ∧ e = .call name.lexeme argument ∧
        ∃ token, token.kind = .closeParen ∧ tokens = token :: rest := by
  unfold finishCall
  constructor
  · intro h
    split at h
    · cases h
    · rename_i after hclosing
      split at h
      · simp only [Except.ok.injEq, Prod.mk.injEq] at h
        obtain ⟨rfl, rfl⟩ := h
        exact ⟨rfl, _, rfl, rfl, closing_eq_ok_iff.mp hclosing⟩
      · cases h
  · rintro ⟨rfl, argument, rfl, rfl, hclosing⟩
    simp only [closing_eq_ok_iff.mpr hclosing]

/-! ## Soundness -/

mutual

theorem reads_of_chain {budget : Nat} {level : ChainLevel} {tokens rest : List Token}
    {e : Formula} (h : chain fin budget level tokens = .ok (e, rest)) :
    Reads (.chain level) budget tokens e rest := by
  rw [chain] at h
  split at h
  · cases h
  · rename_i left after hfirst
    have hleft := reads_of_operand hfirst
    -- the first operand is no chain of this level, so nothing has been spent yet
    have hzero := hleft.derives.chainLength_operand
    exact reads_of_chainRest hleft.first (by rw [hzero, Nat.add_zero]) h
  termination_by 10 * budget + 2 * level.rank + 1

theorem reads_of_operand {budget : Nat} {level : ChainLevel} {tokens rest : List Token}
    {e : Formula} (h : operand fin budget level tokens = .ok (e, rest)) :
    Reads level.operandPhrase budget tokens e rest := by
  rw [operand.eq_def] at h
  cases hlevel : level with
  | sum =>
      rw [hlevel] at h
      exact reads_of_chain h
  | product =>
      rw [hlevel] at h
      exact reads_of_chain h
  | power =>
      rw [hlevel] at h
      exact reads_of_signed h
  termination_by 10 * budget + 2 * level.rank
  decreasing_by all_goals rw [hlevel]; simp [ChainLevel.rank]

/-- The loop over a chain whose first operands, read from `start`, have spent the
difference of the two budgets. -/
theorem reads_of_chainRest {whole budget : Nat} {level : ChainLevel}
    {start tokens rest : List Token} {left e : Formula}
    (hleft : Reads (.chain level) whole start left tokens)
    (spent : whole = budget + left.chainLength level)
    (h : chainRest fin budget level left tokens = .ok (e, rest)) :
    Reads (.chain level) whole start e rest := by
  rw [chainRest.eq_def] at h
  split at h
  · cases h
    exact hleft
  · rename_i token after
    split at h
    · cases h
      exact hleft
    · rename_i op hop
      have hj := ChainLevel.operator?_eq_some_iff.mp hop
      split at h
      · cases h
      · rename_i budget
        split at h
        · cases h
        · rename_i right after' hoperand
          subst spent
          have hnext := hleft.next hj (reads_of_operand hoperand)
          refine reads_of_chainRest hnext ?_ h
          rw [Expr.chainLength, if_pos hj.level_eq]
          omega
  termination_by 10 * budget
  decreasing_by
    · have := level.rank_le
      omega
    · omega

theorem reads_of_signed {budget : Nat} {tokens rest : List Token} {e : Formula}
    (h : signed fin budget tokens = .ok (e, rest)) : Reads .signed budget tokens e rest := by
  rw [signed.eq_def] at h
  split at h
  · cases h
  · rename_i token after
    split at h
    · rename_i hk
      split at h
      · cases h
      · split at h
        · cases h
        · rename_i hinner
          cases h
          exact (reads_of_signed hinner).minus hk
    · rename_i hk
      split at h
      · cases h
      · split at h
        · cases h
        · rename_i hinner
          cases h
          exact (reads_of_signed hinner).plus hk
    · exact (reads_of_primary h).unsigned
  termination_by 10 * budget + 1

theorem reads_of_primary {budget : Nat} {token : Token} {after rest : List Token}
    {e : Formula} (h : primary fin budget token after = .ok (e, rest)) :
    Reads .primary budget (token :: after) e rest := by
  rw [primary.eq_def] at h
  split at h
  · rename_i hk
    split at h
    · cases h
    · rename_i literal hnumber
      cases h
      obtain ⟨value, hv, hf, rfl⟩ := number_eq_ok_iff.mp hnumber
      exact .number hk hv hf
  · rename_i hk
    split at h
    · cases h
      exact .name hk (by simp [OpensParen])
    · rename_i opening inside
      split at h
      · rename_i ho
        split at h
        · cases h
        · split at h
          · cases h
          · rename_i function hfunction
            obtain ⟨argument, closing, rfl, hc, harg⟩ := reads_of_arguments h
            exact .call hk (Builtin.ofName?_isSome_iff.mp (by rw [hfunction]; rfl)) ho harg hc
      · rename_i ho
        cases h
        exact .name hk (by simpa [OpensParen] using ho)
  · rename_i ho
    split at h
    · cases h
    · split at h
      · cases h
      · rename_i inner after' hinner
        split at h
        · cases h
        · rename_i hclosing
          cases h
          obtain ⟨closing, hc, rfl⟩ := closing_eq_ok_iff.mp hclosing
          exact .group ho (reads_of_chain hinner) hc
  · cases h
  termination_by 10 * budget
  decreasing_by all_goals simp only [ChainLevel.rank]; omega

theorem reads_of_arguments {budget : Nat} {name : Token} {function : Builtin}
    {tokens rest : List Token} {e : Formula}
    (h : arguments fin budget name function tokens = .ok (e, rest)) :
    ∃ argument closing, e = .call name.lexeme argument ∧ closing.kind = .closeParen ∧
      Reads (.chain .sum) budget tokens argument (closing :: rest) := by
  rw [arguments.eq_def] at h
  split at h
  · obtain ⟨hcount, _⟩ := finishCall_eq_ok_iff.mp h
    cases hcount
  · split at h
    · cases h
    · rename_i first after hfirst
      split at h
      · cases h
      · rename_i count after' hfurther
        obtain ⟨hcount, argument, hargument, rfl, closing, hc, rfl⟩ := finishCall_eq_ok_iff.mp h
        have hzero : count = 0 := by omega
        subst hzero
        cases hargument
        rw [← furtherArguments_eq_zero hfurther] at hfirst
        exact ⟨first, closing, rfl, hc, reads_of_chain hfirst⟩
  termination_by 10 * budget + 2 * ChainLevel.sum.rank + 2

end

/-! ## Completeness -/

/-- No chain of a level goes on with these tokens. -/
def StopsAt (level : ChainLevel) (tokens : List Token) : Prop :=
  ∀ token ∈ tokens.head?, level.operator? token.kind = none

/-- No chain tighter than a level goes on with these tokens. -/
def StopsBelow (level : ChainLevel) (tokens : List Token) : Prop :=
  ∀ tighter : ChainLevel, tighter.rank < level.rank → StopsAt tighter tokens

theorem stopsAt_nil (level : ChainLevel) : StopsAt level [] := by
  simp [StopsAt]

theorem stopsAt_closeParen {token : Token} (h : token.kind = .closeParen)
    (level : ChainLevel) (tokens : List Token) : StopsAt level (token :: tokens) := by
  intro t ht
  cases ht
  rw [h]
  cases level <;> rfl

/-- An operator of one level stops the chains of the others. -/
theorem stopsBelow_of_joins {level : ChainLevel} {token : Token} {op : Operator}
    (h : level.Joins token.kind op) (tokens : List Token) :
    StopsBelow level (token :: tokens) := by
  intro tighter hlt t ht
  cases ht
  cases hk : token.kind <;> rw [hk] at h <;> cases h <;> cases tighter <;>
    first | rfl | exact absurd hlt (by decide)

theorem chainRest_of_stopsAt {budget : Nat} {level : ChainLevel} {e : Formula}
    {tokens : List Token} (h : StopsAt level tokens) :
    chainRest fin budget level e tokens = .ok (e, tokens) := by
  rw [chainRest.eq_def]
  cases tokens with
  | nil => rfl
  | cons token rest => simp only [h token rfl]

theorem signed_eq_primary {budget : Nat} {token : Token} {after : List Token}
    (hminus : token.kind ≠ .minus) (hplus : token.kind ≠ .plus) :
    signed fin budget (token :: after) = primary fin budget token after := by
  rw [signed.eq_def]
  split
  · rename_i heq
    cases heq
  · rename_i heq
    cases heq
    split
    · rename_i hk
      exact absurd hk hminus
    · rename_i hk
      exact absurd hk hplus
    · rfl

/-- What the parsers make of derivable tokens, whatever budget they are given that is
deep enough. -/
def Accepted (fin : Nat) (phrase : Phrase) (tokens : List Token) (e : Formula)
    (rest : List Token) : Prop :=
  match phrase with
  | .chain level => ∀ budget, e.deepest ≤ budget → StopsBelow level rest →
      chain fin budget level tokens =
        chainRest fin (budget - e.chainLength level) level e rest
  | .signed => ∀ budget, e.deepest ≤ budget → signed fin budget tokens = .ok (e, rest)
  | .primary => ∃ token after, tokens = token :: after ∧ token.kind ≠ .minus ∧
      token.kind ≠ .plus ∧
      ∀ budget, e.deepest ≤ budget → primary fin budget token after = .ok (e, rest)

/-- A chain that is followed by nothing of its own or a tighter level is read
whole. -/
theorem Accepted.chain_eq {budget : Nat} {level : ChainLevel} {tokens rest : List Token}
    {e : Formula} (h : Accepted fin (.chain level) tokens e rest)
    (shallow : e.deepest ≤ budget) (below : StopsBelow level rest) (here : StopsAt level rest) :
    chain fin budget level tokens = .ok (e, rest) := by
  rw [h budget shallow below, chainRest_of_stopsAt here]

/-- A closing parenthesis stops a chain at every level. -/
theorem Accepted.chain_eq_of_closing {budget : Nat} {tokens rest : List Token} {closing : Token}
    {e : Formula} (h : Accepted fin (.chain .sum) tokens e (closing :: rest))
    (hc : closing.kind = .closeParen) (shallow : e.deepest ≤ budget) :
    chain fin budget .sum tokens = .ok (e, closing :: rest) :=
  h.chain_eq shallow (fun tighter _ => stopsAt_closeParen hc tighter rest)
    (stopsAt_closeParen hc .sum rest)

theorem Accepted.operand_eq {budget : Nat} {level : ChainLevel} {tokens rest : List Token}
    {e : Formula} (h : Accepted fin level.operandPhrase tokens e rest)
    (shallow : e.deepest ≤ budget) (below : StopsBelow level rest) :
    operand fin budget level tokens = .ok (e, rest) := by
  rw [operand.eq_def]
  cases level with
  | sum =>
      refine Accepted.chain_eq h shallow ?_ (below .product (by decide))
      exact fun tighter hlt => below tighter (Nat.lt_trans hlt (by decide))
  | product =>
      refine Accepted.chain_eq h shallow ?_ (below .power (by decide))
      exact fun tighter hlt => below tighter (Nat.lt_trans hlt (by decide))
  | power => exact h budget shallow

theorem Accepted.arguments_eq {budget : Nat} {name closing : Token} {function : Builtin}
    {tokens rest : List Token} {e : Formula}
    (h : Accepted fin (.chain .sum) tokens e (closing :: rest))
    (head : tokens.head?.map Token.kind ≠ some .closeParen)
    (hc : closing.kind = .closeParen) (shallow : e.deepest ≤ budget) :
    arguments fin budget name function tokens = .ok (.call name.lexeme e, rest) := by
  have hchain := h.chain_eq_of_closing hc shallow
  have hfurther : furtherArguments (chain fin budget .sum) (closing :: rest).length
      (closing :: rest) = .ok (0, closing :: rest) := by
    rw [List.length_cons, furtherArguments, if_neg (by rw [hc]; decide)]
  rw [arguments.eq_def, if_neg head]
  simp only [hchain, hfurther]
  exact finishCall_eq_ok_iff.mpr ⟨rfl, e, rfl, rfl, closing, hc, rfl⟩

/-- A budget that reaches below a sign, a call or a parenthesis has one to spend on it. -/
theorem exists_budget_below {depth budget : Nat} (h : depth + 1 ≤ budget) :
    ∃ left, budget = left + 1 ∧ depth ≤ left :=
  ⟨budget - 1, by omega, by omega⟩

/-- Derivable tokens are accepted, if their numerals and calls are in order. -/
theorem accepted_of_derives {phrase : Phrase} {tokens rest : List Token} {e : Formula}
    (h : Derives phrase tokens e rest) (readable : ∀ token ∈ tokens, token.Readable)
    (named : ∀ name ∈ e.calledNames, Builtin.Named name) :
    Accepted fin phrase tokens e rest := by
  induction h with
  | @first level tokens e rest hfirst ih =>
      intro budget shallow below
      rw [chain, (ih readable named).operand_eq shallow below]
      simp only [hfirst.chainLength_operand, Nat.sub_zero]
  | @next level tokens l token after op r rest hl hj hr ihLeft ihRight =>
      intro budget shallow below
      rw [Expr.deepest, hj.level_eq] at shallow
      have hleft := ihLeft readable (fun name hname => named name (List.mem_append_left _ hname))
        budget (by omega) (stopsBelow_of_joins hj after)
      have hright : Accepted fin level.operandPhrase after r rest :=
        ihRight (fun t ht => readable t (hl.suffix.subset (List.mem_cons_of_mem _ ht)))
          (fun name hname => named name (List.mem_append_right _ hname))
      -- the operators before this one have been paid for, and it takes one more
      obtain ⟨left, hbudget⟩ : ∃ left, budget - l.chainLength level = left + 1 :=
        ⟨budget - l.chainLength level - 1, by omega⟩
      have hoperand : operand fin left level after = .ok (r, rest) :=
        hright.operand_eq (by omega) below
      rw [hleft, hbudget, chainRest.eq_def]
      simp only [ChainLevel.operator?_eq_some_iff.mpr hj, hoperand]
      rw [Expr.chainLength, if_pos hj.level_eq]
      congr 1
      omega
  | @minus token tokens e rest hk _ ih =>
      intro budget shallow
      have hinner := ih (fun t ht => readable t (List.mem_cons_of_mem _ ht)) named
      obtain ⟨left, rfl, hleft⟩ := exists_budget_below shallow
      rw [signed.eq_def]
      simp only [hk, hinner left hleft]
  | @plus token tokens e rest hk _ ih =>
      intro budget shallow
      have hinner := ih (fun t ht => readable t (List.mem_cons_of_mem _ ht)) named
      obtain ⟨left, rfl, hleft⟩ := exists_budget_below shallow
      rw [signed.eq_def]
      simp only [hk, hinner left hleft]
  | unsigned _ ih =>
      intro budget shallow
      obtain ⟨token, after, rfl, hminus, hplus, hprimary⟩ := ih readable named
      rw [signed_eq_primary hminus hplus]
      exact hprimary budget shallow
  | @number token value rest hk hv =>
      refine ⟨token, rest, rfl, by rw [hk]; decide, by rw [hk]; decide, ?_⟩
      intro budget _
      obtain ⟨value', hv', hf⟩ := readable token List.mem_cons_self hk
      have hsame : value = value' := Option.some.inj (hv.symm.trans hv')
      have hnumber : number token = .ok (.lit value) :=
        number_eq_ok_iff.mpr ⟨value, hv, hsame ▸ hf, rfl⟩
      rw [primary.eq_def]
      simp only [hk, hnumber]
  | @name token rest hk hr =>
      refine ⟨token, rest, rfl, by rw [hk]; decide, by rw [hk]; decide, ?_⟩
      intro budget _
      rw [primary.eq_def]
      simp only [hk]
      cases rest with
      | nil => rfl
      | cons opening inside =>
          have ho : opening.kind ≠ .openParen := fun ho => hr ⟨opening, rfl, ho⟩
          simp only [if_neg ho]
  | @call token opening tokens e closing rest hk ho he hc ih =>
      refine ⟨token, opening :: tokens, rfl, by rw [hk]; decide, by rw [hk]; decide, ?_⟩
      intro budget shallow
      have hinner : Accepted fin (.chain .sum) tokens e (closing :: rest) :=
        ih (fun t ht => readable t (List.mem_cons_of_mem _ (List.mem_cons_of_mem _ ht)))
          (fun name hname => named name (List.mem_cons_of_mem _ hname))
      obtain ⟨function, hfunction⟩ := Option.isSome_iff_exists.mp
        (Builtin.ofName?_isSome_iff.mpr (named token.lexeme List.mem_cons_self))
      obtain ⟨left, rfl, hleft⟩ := exists_budget_below shallow
      rw [primary.eq_def]
      simp only [hk, if_pos ho, hfunction]
      exact hinner.arguments_eq he.head_ne_closeParen hc hleft
  | @group opening tokens e closing rest ho _ hc ih =>
      refine ⟨opening, tokens, rfl, by rw [ho]; decide, by rw [ho]; decide, ?_⟩
      intro budget shallow
      have hinner : Accepted fin (.chain .sum) tokens e (closing :: rest) :=
        ih (fun t ht => readable t (List.mem_cons_of_mem _ ht)) named
      obtain ⟨left, rfl, hleft⟩ := exists_budget_below shallow
      rw [primary.eq_def]
      simp only [ho, hinner.chain_eq_of_closing hc hleft,
        closing_eq_ok_iff.mpr ⟨closing, hc, rfl⟩]

/-- The parser of whole formulas takes all tokens exactly if they read as a formula
within the budget. -/
theorem chain_eq_ok_nil_iff {budget : Nat} {tokens : List Token} {e : Formula} :
    chain fin budget .sum tokens = .ok (e, []) ↔ Reads (.chain .sum) budget tokens e [] := by
  constructor
  · exact reads_of_chain
  · intro h
    have haccepted : Accepted fin (.chain .sum) tokens e [] :=
      accepted_of_derives h.derives h.readable_of_nil h.named
    exact haccepted.chain_eq h.shallow (fun tighter _ => stopsAt_nil tighter) (stopsAt_nil .sum)

end Parser

namespace Expr

/-- A list of tokens is a formula exactly if the tokens read as one within the depth that
every formula is given. -/
theorem ofTokens_eq_ok_iff {fin : Nat} {tokens : List Token} {e : Formula} :
    ofTokens fin tokens = .ok e ↔ Reads (.chain .sum) Parser.depthBudget tokens e [] := by
  rw [← @Parser.chain_eq_ok_nil_iff fin]
  unfold ofTokens
  constructor
  · intro h
    split at h
    · cases h
    · rename_i hchain
      cases h
      exact hchain
    · cases h
  · intro h
    simp only [h]

theorem parse_eq_ok_iff_reads {text : String} {e : Formula} :
    parse text = .ok e ↔ Text.isBlank text = false ∧
      ∃ tokens, Token.scan text = .ok tokens ∧
        Reads (.chain .sum) Parser.depthBudget tokens e [] := by
  unfold parse
  cases hblank : Text.isBlank text with
  | true => simp
  | false =>
      cases hscan : Token.scan text with
      | error error => simp
      | ok tokens => simp [ofTokens_eq_ok_iff]

/-- The parser accepts exactly its grammar within its depth budget: a text is read as a
formula if and only if it is not blank, splits into tokens, the tokens derive the
formula, every numeral is finite, every called name is a built-in function's, and nothing
stands deeper than two hundred. -/
theorem parse_eq_ok_iff (text : String) (e : Formula) :
    parse text = .ok e ↔
      Text.isBlank text = false ∧
      ∃ tokens, Token.scan text = .ok tokens ∧
        Derives (.chain .sum) tokens e [] ∧
        (∀ token ∈ tokens, token.kind = .number →
          ∃ value, token.value? = some value ∧ value.isFinite = true) ∧
        (∀ name ∈ e.calledNames, ∃ function : Builtin,
          Text.equalIgnoringCase function.name name = true) ∧
        ∀ depth s, e.At depth s → depth ≤ 200 := by
  rw [parse_eq_ok_iff_reads]
  constructor
  · rintro ⟨hblank, tokens, hscan, h⟩
    exact ⟨hblank, tokens, hscan, h.derives, h.readable_of_nil, h.named,
      forall_at_le_iff.mpr h.shallow⟩
  · rintro ⟨hblank, tokens, hscan, hd, hr, hn, hat⟩
    exact ⟨hblank, tokens, hscan, hd, fun token ht => .inl (hr token ht), hn,
      forall_at_le_iff.mp hat⟩

end Expr

end Graphing
