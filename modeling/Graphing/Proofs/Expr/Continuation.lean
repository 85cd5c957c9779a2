import Graphing.Proofs.Expr.Blame

/-!
# Texts that go on

Two runs of a parser are compared: one on some tokens, and one on the same tokens at other
places with more tokens behind them. As long as the first run does not come to the end of its
tokens, the second one does the same: it fails with the same error, or it reads the same and
leaves the same tokens (`Continues`). If nothing stands behind the tokens, the two runs agree
also at the end.

Places enter through a function on columns, so the comparison covers tokens that were moved
and errors that point to where they are now. With the columns kept it gives
`parse_error_continued`: an error that is not about the end of the text is not mended by
anything that follows.
-/

namespace Graphing

/-- The token at another column; the bytes that it takes up are forgotten. -/
def Token.moved (move : Nat → Nat) (token : Token) : Token :=
  { token with start := 0, stop := 0, column := move token.column }

@[simp] theorem Token.kind_moved (move : Nat → Nat) (token : Token) :
    (token.moved move).kind = token.kind := rfl

@[simp] theorem Token.lexeme_moved (move : Nat → Nat) (token : Token) :
    (token.moved move).lexeme = token.lexeme := rfl

@[simp] theorem Token.column_moved (move : Nat → Nat) (token : Token) :
    (token.moved move).column = move token.column := rfl

namespace ParseError

/-- The same error about another column. -/
def moved (move : Nat → Nat) : ParseError → ParseError
  | empty => empty
  | strayCharacter column char => strayCharacter (move column) char
  | endOfText column => endOfText (move column)
  | missing column expected => missing (move column) expected
  | mismatch column expected lexeme => mismatch (move column) expected lexeme
  | unexpected column lexeme => unexpected (move column) lexeme
  | outOfRange column lexeme => outOfRange (move column) lexeme
  | tooDeep column => tooDeep (move column)
  | tooLong column => tooLong (move column)
  | unsupported column construct lexeme => unsupported (move column) construct lexeme
  | unknownFunction column name => unknownFunction (move column) name
  | arity column function count => arity (move column) function count

@[simp] theorem moved_id (error : ParseError) : error.moved id = error := by
  cases error <;> rfl

end ParseError

namespace Parser

variable {β γ : Type}

/-- One parser after another. -/
def andThen (first : Parsed β) (after : β → List Token → Parsed γ) : Parsed γ :=
  match first with
  | .error error => .error error
  | .ok (value, rest) => after value rest

/-- A result that does not depend on where the tokens end: a failure at a token, or a success
that leaves some. -/
def Inside : Parsed β → Prop
  | .error error => error.isAtEnd = false
  | .ok (_, rest) => rest ≠ []

/-- The result for tokens that were moved and have more behind them. -/
def extended (move : Nat → Nat) (more : List Token) : Parsed β → Parsed β
  | .error error => .error (error.moved move)
  | .ok (value, rest) => .ok (value, rest.map (Token.moved move) ++ more)

/-- How a second run compares with a first one, which was given some tokens and the end
column `fin`. The second one was given the same tokens, moved, with `more` behind them, and the
end column `fin'`. -/
def Continues (move : Nat → Nat) (fin fin' : Nat) (more : List Token)
    (first second : Parsed β) : Prop :=
  Inside first ∨ (more = [] ∧ fin' = move fin) → second = extended move more first

variable {move : Nat → Nat} {fin fin' : Nat} {more : List Token}

namespace Continues

/-- Both runs fail at a token. -/
theorem failed (error : ParseError) :
    Continues (β := β) move fin fin' more (.error error) (.error (error.moved move)) :=
  fun _ => rfl

/-- Both runs have read the same. -/
theorem done (value : β) (rest : List Token) :
    Continues move fin fin' more (.ok (value, rest))
      (.ok (value, rest.map (Token.moved move) ++ more)) :=
  fun _ => rfl

/-- The first run has come to the end, so there is something to show only if the second one
has come there too. -/
theorem ended {first second : Parsed β} (h : ¬ Inside first)
    (hend : more = [] → fin' = move fin → second = extended move more first) :
    Continues move fin fin' more first second := by
  rintro (hinside | ⟨hmore, hfin⟩)
  · exact absurd hinside h
  · exact hend hmore hfin

/-- Runs of one parser after another. If the first parser leaves nothing, the second one has
to come to the end at once. -/
theorem andThen {first second : Parsed β} {after after' : β → List Token → Parsed γ}
    (h : Continues move fin fin' more first second)
    (hnil : ∀ value, ¬ Inside (after value []))
    (hafter : ∀ value rest, first = .ok (value, rest) → Continues move fin fin' more
      (after value rest) (after' value (rest.map (Token.moved move) ++ more))) :
    Continues move fin fin' more (Parser.andThen first after)
      (Parser.andThen second after') := by
  intro hcase
  cases first with
  | error error =>
      rw [h hcase]
      rfl
  | ok pair =>
      obtain ⟨value, rest⟩ := pair
      have hleft : Inside (Except.ok (value, rest) : Parsed β) ∨ more = [] ∧ fin' = move fin := by
        refine hcase.imp_left ?_
        rintro hinside rfl
        exact hnil value hinside
      rw [h hleft]
      exact hafter value rest rfl hcase

end Continues

/-! ## The parsers, one after another -/

theorem furtherArguments_nil (argument : List Token → Parsed Formula) (steps : Nat) :
    furtherArguments argument steps [] = .ok (0, []) := by
  cases steps <;> rfl

theorem furtherArguments_other {token : Token} (h : token.kind ≠ .comma)
    (argument : List Token → Parsed Formula) (steps : Nat) (tokens : List Token) :
    furtherArguments argument (steps + 1) (token :: tokens) = .ok (0, token :: tokens) := by
  rw [furtherArguments, if_neg h]

theorem furtherArguments_comma {token : Token} (h : token.kind = .comma)
    (argument : List Token → Parsed Formula) (steps : Nat) (tokens : List Token) :
    furtherArguments argument (steps + 1) (token :: tokens) =
      andThen (argument tokens) fun _ rest =>
        andThen (furtherArguments argument steps rest) fun count rest =>
          .ok (count + 1, rest) := by
  rw [furtherArguments, if_pos h]
  rcases argument tokens with error | ⟨_, rest⟩
  · rfl
  · simp only [andThen]
    rcases furtherArguments argument steps rest with error | ⟨count, after⟩ <;> rfl

theorem chain_eq (budget : Nat) (level : ChainLevel) (tokens : List Token) :
    chain fin budget level tokens =
      andThen (operand fin budget level tokens) (chainRest fin budget level) := by
  rw [chain]
  rcases operand fin budget level tokens with error | ⟨first, rest⟩ <;> rfl

theorem chainRest_nil (budget : Nat) (level : ChainLevel) (left : Formula) :
    chainRest fin budget level left [] = .ok (left, []) := by
  rw [chainRest.eq_def]

theorem chainRest_cons {level : ChainLevel} {token : Token} {op : Operator}
    (h : level.operator? token.kind = some op) (budget : Nat) (left : Formula)
    (tokens : List Token) :
    chainRest fin (budget + 1) level left (token :: tokens) =
      andThen (operand fin budget level tokens) fun right =>
        chainRest fin budget level (.binary op left right) := by
  rw [chainRest.eq_def]
  simp only [h]
  rcases operand fin budget level tokens with error | ⟨right, rest⟩ <;> rfl

theorem signed_minus {token : Token} (h : token.kind = .minus) (budget : Nat)
    (tokens : List Token) :
    signed fin (budget + 1) (token :: tokens) =
      andThen (signed fin budget tokens) fun inner rest => .ok (.neg inner, rest) := by
  rw [signed.eq_def]
  simp only [h]
  rcases signed fin budget tokens with error | ⟨inner, rest⟩ <;> rfl

theorem signed_plus {token : Token} (h : token.kind = .plus) (budget : Nat)
    (tokens : List Token) :
    signed fin (budget + 1) (token :: tokens) =
      andThen (signed fin budget tokens) fun inner rest => .ok (.pos inner, rest) := by
  rw [signed.eq_def]
  simp only [h]
  rcases signed fin budget tokens with error | ⟨inner, rest⟩ <;> rfl

theorem primary_number {token : Token} (h : token.kind = .number) (budget : Nat)
    (tokens : List Token) :
    primary fin budget token tokens = (number token).map (·, tokens) := by
  rw [primary.eq_def]
  simp only [h]
  cases number token <;> rfl

theorem primary_name {token next : Token} (h : token.kind = .name)
    (hnext : next.kind ≠ .openParen) (budget : Nat) (tokens : List Token) :
    primary fin budget token (next :: tokens) =
      .ok (.ident token.lexeme, next :: tokens) := by
  rw [primary.eq_def]
  simp only [h, if_neg hnext]

theorem primary_call {token opening : Token} (h : token.kind = .name)
    (hopening : opening.kind = .openParen) (budget : Nat) (tokens : List Token) :
    primary fin budget token (opening :: tokens) =
      match budget, Builtin.ofName? token.lexeme with
      | 0, _ => .error (.tooDeep token.column)
      | _ + 1, none => .error (.unknownFunction token.column token.lexeme)
      | left + 1, some function => arguments fin left token function tokens := by
  rw [primary.eq_def]
  simp only [h, if_pos hopening]
  cases budget with
  | zero => rfl
  | succ left => cases Builtin.ofName? token.lexeme <;> rfl

theorem primary_openParen {token : Token} (h : token.kind = .openParen) (budget : Nat)
    (tokens : List Token) :
    primary fin (budget + 1) token tokens =
      andThen (chain fin budget .sum tokens) fun inner rest =>
        (closing fin .closeParen rest).map (.group inner, ·) := by
  rw [primary.eq_def]
  simp only [h]
  rcases chain fin budget .sum tokens with error | ⟨inner, rest⟩
  · rfl
  · simp only [andThen]
    rcases closing fin .closeParen rest with error | after <;> rfl

theorem arguments_eq {tokens : List Token} (h : tokens.head?.map Token.kind ≠ some .closeParen)
    (budget : Nat) (name : Token) (function : Builtin) :
    arguments fin budget name function tokens =
      andThen (chain fin budget .sum tokens) fun first rest =>
        andThen (furtherArguments (chain fin budget .sum) rest.length rest) fun count =>
          finishCall fin name function (some first) (count + 1) := by
  rw [arguments.eq_def, if_neg h]
  rcases chain fin budget .sum tokens with error | ⟨first, rest⟩
  · rfl
  · simp only [andThen]
    rcases furtherArguments (chain fin budget .sum) rest.length rest with
      error | ⟨count, after⟩ <;> rfl

/-! ## Small parsers that go on -/

theorem closing_closeParen {token : Token} (h : token.kind = .closeParen) (expected : Expected)
    (tokens : List Token) : closing fin expected (token :: tokens) = .ok tokens :=
  closing_eq_ok_iff.mpr ⟨token, h, rfl⟩

/-- What does not close a formula is blamed wherever it stands. -/
theorem closing_moved (move : Nat → Nat) {token : Token} (h : token.kind ≠ .closeParen)
    (expected : Expected) :
    ∃ error : ParseError, (∀ fin tokens, closing fin expected (token :: tokens) = .error error) ∧
      ∀ fin tokens, closing fin expected (token.moved move :: tokens) =
        .error (error.moved move) := by
  cases hkind : token.kind.unsupported? with
  | some construct =>
      exact ⟨.unsupported token.column construct token.lexeme,
        by simp [closing, h, hkind], by simp [closing, h, hkind, ParseError.moved]⟩
  | none =>
      exact ⟨.mismatch token.column expected token.lexeme,
        by simp [closing, h, hkind], by simp [closing, h, hkind, ParseError.moved]⟩

theorem continues_closing (expected : Expected) (value : β) (tokens : List Token) :
    Continues move fin fin' more ((closing fin expected tokens).map (value, ·))
      ((closing fin' expected (tokens.map (Token.moved move) ++ more)).map (value, ·)) := by
  cases tokens with
  | nil =>
      refine .ended (fun h => by cases h) ?_
      rintro rfl rfl
      rfl
  | cons token rest =>
      by_cases hk : token.kind = .closeParen
      · have hmoved : (token.moved move).kind = .closeParen := hk
        rw [List.map_cons, List.cons_append, closing_closeParen hk, closing_closeParen hmoved]
        exact .done value rest
      · obtain ⟨error, herror, hmoved⟩ := closing_moved move hk expected
        rw [List.map_cons, List.cons_append, herror, hmoved]
        exact .failed error

/-- The end of a call takes its closing parenthesis before the arguments are counted, so an
error about their number does not depend on what follows. -/
theorem continues_finishCall (name : Token) (function : Builtin) (first : Option Formula)
    (count : Nat) (tokens : List Token) :
    Continues move fin fin' more (finishCall fin name function first count tokens)
      (finishCall fin' (name.moved move) function first count
        (tokens.map (Token.moved move) ++ more)) := by
  cases tokens with
  | nil =>
      refine .ended (fun h => by cases h) ?_
      rintro rfl rfl
      rfl
  | cons token rest =>
      rw [List.map_cons, List.cons_append]
      by_cases hk : token.kind = .closeParen
      · have hmoved : (token.moved move).kind = .closeParen := hk
        rw [finishCall, finishCall, closing_closeParen hk, closing_closeParen hmoved]
        dsimp only
        split
        · exact .done _ rest
        · exact .failed _
      · obtain ⟨error, herror, hmoved⟩ := closing_moved move hk .closeParenOrComma
        simp only [finishCall, herror, hmoved]
        exact .failed error

/-- Further arguments. Both runs have steps enough for their tokens, which need not be as
many for the one as for the other. -/
theorem continues_furtherArguments {argument argument' : List Token → Parsed Formula}
    (hargument : ∀ tokens, Continues move fin fin' more (argument tokens)
      (argument' (tokens.map (Token.moved move) ++ more)))
    (hshorter : ∀ tokens e rest, argument tokens = .ok (e, rest) →
      rest.length ≤ tokens.length)
    {steps steps' : Nat} {tokens : List Token} (hsteps : tokens.length ≤ steps)
    (hsteps' : tokens.length + more.length ≤ steps') :
    Continues move fin fin' more (furtherArguments argument steps tokens)
      (furtherArguments argument' steps' (tokens.map (Token.moved move) ++ more)) := by
  induction steps generalizing steps' tokens with
  | zero =>
      obtain rfl := List.eq_nil_of_length_eq_zero (Nat.le_zero.mp hsteps)
      refine .ended (fun h => h rfl) ?_
      rintro rfl _
      exact furtherArguments_nil argument' steps'
  | succ steps ih =>
      cases tokens with
      | nil =>
          refine .ended (fun h => h rfl) ?_
          rintro rfl _
          exact furtherArguments_nil argument' steps'
      | cons token rest =>
          obtain ⟨left, rfl⟩ : ∃ left, steps' = left + 1 :=
            Nat.exists_eq_succ_of_ne_zero (by simp at hsteps'; omega)
          simp only [List.length_cons] at hsteps hsteps'
          rw [List.map_cons, List.cons_append]
          by_cases hk : token.kind = .comma
          · have hmoved : (token.moved move).kind = .comma := hk
            rw [furtherArguments_comma hk, furtherArguments_comma hmoved]
            refine (hargument rest).andThen ?_ ?_
            · intro _ hinside
              rw [furtherArguments_nil] at hinside
              exact hinside rfl
            · intro e after hok
              have hlength := hshorter rest e after hok
              refine (ih (by omega) (by omega)).andThen (fun _ h => h rfl) ?_
              intro count after' _
              exact .done (count + 1) after'
          · have hmoved : (token.moved move).kind ≠ .comma := hk
            rw [furtherArguments_other hk, furtherArguments_other hmoved]
            exact .done 0 (token :: rest)

/-! ## The parsers that go on -/

theorem not_inside_chainRest_nil (budget : Nat) (level : ChainLevel) (left : Formula) :
    ¬ Inside (chainRest fin budget level left []) := by
  rw [chainRest_nil]
  exact fun h => h rfl

/-- A parser that has no token to begin with is at the end. -/
theorem signed_nil (budget : Nat) : signed fin budget [] = .error (.endOfText fin) := by
  rw [signed.eq_def]

theorem chain_nil (budget : Nat) (level : ChainLevel) :
    chain fin budget level [] = .error (.endOfText fin) := by
  cases level <;> simp [chain, operand, signed_nil]

theorem arguments_nil (budget : Nat) (name : Token) (function : Builtin) :
    arguments fin budget name function [] = .error (.endOfText fin) := by
  rw [arguments_eq (by simp), chain_nil]
  rfl

theorem unexpectedToken_moved (token : Token) :
    unexpectedToken (token.moved move) = (unexpectedToken token).moved move := by
  simp only [unexpectedToken, Token.kind_moved]
  cases token.kind.unsupported? <;> rfl

theorem continues_number (token : Token) (rest : List Token) :
    Continues move fin fin' more ((number token).map (·, rest))
      ((number (token.moved move)).map (·, rest.map (Token.moved move) ++ more)) := by
  -- a number is read from the lexeme alone
  have hok : ∀ e, number (token.moved move) = .ok e ↔ number token = .ok e := by
    intro e
    rw [number_eq_ok_iff, number_eq_ok_iff]
    exact Iff.rfl
  cases hnumber : number token with
  | ok e =>
      rw [(hok e).mpr hnumber]
      exact .done e rest
  | error error =>
      rw [number_eq_error hnumber]
      cases hmoved : number (token.moved move) with
      | ok e =>
          rw [(hok e).mp hmoved] at hnumber
          cases hnumber
      | error error' =>
          rw [number_eq_error hmoved]
          exact .failed (.outOfRange token.column token.lexeme)

mutual

theorem continues_chain (budget : Nat) (level : ChainLevel) (tokens : List Token) :
    Continues move fin fin' more (chain fin budget level tokens)
      (chain fin' budget level (tokens.map (Token.moved move) ++ more)) := by
  rw [chain_eq, chain_eq]
  refine (continues_operand budget level tokens).andThen
    (not_inside_chainRest_nil budget level) ?_
  intro left rest _
  exact continues_chainRest budget level left rest
  termination_by 10 * budget + 2 * level.rank + 1

theorem continues_operand (budget : Nat) (level : ChainLevel) (tokens : List Token) :
    Continues move fin fin' more (operand fin budget level tokens)
      (operand fin' budget level (tokens.map (Token.moved move) ++ more)) := by
  rw [operand.eq_def, operand.eq_def]
  cases level with
  | sum => exact continues_chain budget .product tokens
  | product => exact continues_chain budget .power tokens
  | power => exact continues_signed budget tokens
  termination_by 10 * budget + 2 * level.rank
  decreasing_by all_goals simp [ChainLevel.rank]

theorem continues_chainRest (budget : Nat) (level : ChainLevel) (left : Formula)
    (tokens : List Token) :
    Continues move fin fin' more (chainRest fin budget level left tokens)
      (chainRest fin' budget level left (tokens.map (Token.moved move) ++ more)) := by
  cases tokens with
  | nil =>
      refine .ended (not_inside_chainRest_nil budget level left) ?_
      rintro rfl _
      rw [List.map_nil, List.nil_append, chainRest_nil, chainRest_nil]
      rfl
  | cons token rest =>
      cases hop : level.operator? token.kind with
      | none =>
          rw [chainRest.eq_def, chainRest.eq_def]
          simp only [List.map_cons, List.cons_append, Token.kind_moved, hop]
          exact .done left (token :: rest)
      | some op =>
          cases budget with
          | zero =>
              rw [chainRest.eq_def, chainRest.eq_def]
              simp only [List.map_cons, List.cons_append, Token.kind_moved, hop]
              exact .failed (.tooLong token.column)
          | succ budget =>
              have hmoved : level.operator? (token.moved move).kind = some op := hop
              rw [List.map_cons, List.cons_append, chainRest_cons hop, chainRest_cons hmoved]
              refine (continues_operand budget level rest).andThen
                (fun right => not_inside_chainRest_nil budget level _) ?_
              intro right after _
              exact continues_chainRest budget level (.binary op left right) after
  termination_by 10 * budget
  decreasing_by
    · have := level.rank_le
      omega
    · omega

theorem continues_signed (budget : Nat) (tokens : List Token) :
    Continues move fin fin' more (signed fin budget tokens)
      (signed fin' budget (tokens.map (Token.moved move) ++ more)) := by
  cases tokens with
  | nil =>
      rw [signed_nil]
      refine .ended (fun h => by cases h) ?_
      rintro rfl rfl
      exact signed_nil budget
  | cons token rest =>
      rw [List.map_cons, List.cons_append]
      by_cases hminus : token.kind = .minus
      · have hmoved : (token.moved move).kind = .minus := hminus
        cases budget with
        | zero =>
            rw [signed.eq_def, signed.eq_def]
            simp only [hminus, hmoved]
            exact .failed (.tooDeep token.column)
        | succ budget =>
            rw [signed_minus hminus, signed_minus hmoved]
            refine (continues_signed budget rest).andThen (fun _ h => h rfl) ?_
            intro inner after _
            exact .done (Expr.neg inner) after
      · by_cases hplus : token.kind = .plus
        · have hmoved : (token.moved move).kind = .plus := hplus
          cases budget with
          | zero =>
              rw [signed.eq_def, signed.eq_def]
              simp only [hplus, hmoved]
              exact .failed (.tooDeep token.column)
          | succ budget =>
              rw [signed_plus hplus, signed_plus hmoved]
              refine (continues_signed budget rest).andThen (fun _ h => h rfl) ?_
              intro inner after _
              exact .done (Expr.pos inner) after
        · have hminus' : (token.moved move).kind ≠ .minus := hminus
          have hplus' : (token.moved move).kind ≠ .plus := hplus
          rw [signed_eq_primary hminus hplus, signed_eq_primary hminus' hplus']
          exact continues_primary budget token rest
  termination_by 10 * budget + 1

theorem continues_primary (budget : Nat) (token : Token) (rest : List Token) :
    Continues move fin fin' more (primary fin budget token rest)
      (primary fin' budget (token.moved move) (rest.map (Token.moved move) ++ more)) := by
  cases hk : token.kind with
  | number =>
      have hmoved : (token.moved move).kind = .number := hk
      rw [primary_number hk, primary_number hmoved]
      exact continues_number token rest
  | name =>
      have hmoved : (token.moved move).kind = .name := hk
      cases rest with
      | nil =>
          rw [primary.eq_def, primary.eq_def fin' budget (token.moved move)]
          simp only [hk, hmoved]
          refine .ended (fun h => h rfl) ?_
          rintro rfl _
          rfl
      | cons next inside =>
          -- the token after a name is looked at, and here it is one of the first run
          rw [List.map_cons, List.cons_append]
          by_cases hnext : next.kind = .openParen
          · have hopening : (next.moved move).kind = .openParen := hnext
            rw [primary_call hk hnext, primary_call hmoved hopening, Token.lexeme_moved]
            cases budget with
            | zero => exact .failed (.tooDeep token.column)
            | succ budget =>
                cases Builtin.ofName? token.lexeme with
                | none => exact .failed (.unknownFunction token.column token.lexeme)
                | some function => exact continues_arguments budget token function inside
          · have hother : (next.moved move).kind ≠ .openParen := hnext
            rw [primary_name hk hnext, primary_name hmoved hother]
            exact .done (Expr.ident token.lexeme) (next :: inside)
  | openParen =>
      have hmoved : (token.moved move).kind = .openParen := hk
      cases budget with
      | zero =>
          rw [primary.eq_def, primary.eq_def fin' 0 (token.moved move)]
          simp only [hk, hmoved]
          exact .failed (.tooDeep token.column)
      | succ budget =>
          rw [primary_openParen hk, primary_openParen hmoved]
          refine (continues_chain budget .sum rest).andThen (fun _ h => by cases h) ?_
          intro inner after _
          exact continues_closing .closeParen (Expr.group inner) after
  | _ =>
      have hmoved : (token.moved move).kind = token.kind := rfl
      rw [primary.eq_def, primary.eq_def fin' budget (token.moved move)]
      simp only [hmoved, hk]
      rw [unexpectedToken_moved]
      exact .failed (unexpectedToken token)
  termination_by 10 * budget
  decreasing_by all_goals simp only [ChainLevel.rank]; omega

theorem continues_arguments (budget : Nat) (name : Token) (function : Builtin)
    (tokens : List Token) :
    Continues move fin fin' more (arguments fin budget name function tokens)
      (arguments fin' budget (name.moved move) function
        (tokens.map (Token.moved move) ++ more)) := by
  cases tokens with
  | nil =>
      rw [arguments_nil]
      refine .ended (fun h => by cases h) ?_
      rintro rfl rfl
      exact arguments_nil budget (name.moved move) function
  | cons token rest =>
      rw [List.map_cons, List.cons_append]
      by_cases hk : token.kind = .closeParen
      · have hmoved : (token.moved move).kind = .closeParen := hk
        rw [arguments.eq_def, arguments.eq_def, if_pos (by simp [hk]), if_pos (by simp [hk])]
        exact continues_finishCall name function none 0 (token :: rest)
      · rw [arguments_eq (by simp [hk]), arguments_eq (by simp [hk])]
        refine (continues_chain budget .sum (token :: rest)).andThen ?_ ?_
        · intro first hinside
          cases hinside
        · intro first after _
          refine (continues_furtherArguments (continues_chain budget .sum) ?_
            (Nat.le_refl _) ?_).andThen ?_ ?_
          · intro tokens e rest hok
            exact (reads_of_chain hok).derives.suffix.length_le
          · simp
          · intro count hinside
            cases hinside
          · intro count after' _
            exact continues_finishCall name function (some first) (count + 1) after'
  termination_by 10 * budget + 2 * ChainLevel.sum.rank + 2

end

end Parser

/-! ## Whole formulas -/

namespace Expr

variable {move : Nat → Nat} {fin fin' : Nat} {more tokens : List Token}

theorem ofTokens_error_continued {error : ParseError} (h : ofTokens fin tokens = .error error)
    (hcase : error.isAtEnd = false ∨ more = [] ∧ fin' = move fin) :
    ofTokens fin' (tokens.map (Token.moved move) ++ more) = .error (error.moved move) := by
  have hchain : Parser.Continues move fin fin' more _ _ :=
    Parser.continues_chain Parser.depthBudget .sum tokens
  unfold ofTokens at h ⊢
  rcases hfirst : Parser.chain fin Parser.depthBudget .sum tokens with
    failure | ⟨formula, _ | ⟨token, rest⟩⟩
  · rw [hfirst] at h hchain
    cases h
    rw [hchain hcase]
    rfl
  · rw [hfirst] at h
    cases h
  · -- a token is left over, and it is still the first one that is
    rw [hfirst] at h hchain
    cases h
    rw [hchain (.inl (List.cons_ne_nil token rest))]
    exact congrArg Except.error (Parser.unexpectedToken_moved token)

theorem ofTokens_ok_moved {e : Formula} (h : ofTokens fin tokens = .ok e) :
    ofTokens (move fin) (tokens.map (Token.moved move)) = .ok e := by
  have hcontinues : Parser.Continues move fin (move fin) [] _ _ :=
    Parser.continues_chain Parser.depthBudget .sum tokens
  have hchain := hcontinues (.inr ⟨rfl, rfl⟩)
  rw [List.append_nil] at hchain
  unfold ofTokens at h ⊢
  rcases hfirst : Parser.chain fin Parser.depthBudget .sum tokens with
    failure | ⟨formula, _ | ⟨token, rest⟩⟩
  · rw [hfirst] at h
    cases h
  · rw [hfirst] at h hchain
    cases h
    rw [hchain]
    rfl
  · rw [hfirst] at h
    cases h

/-- The bytes that tokens take up do not matter. -/
theorem ofTokens_moved_id (fin : Nat) (tokens : List Token) :
    ofTokens fin (tokens.map (Token.moved id)) = ofTokens fin tokens := by
  cases h : ofTokens fin tokens with
  | error error =>
      have hmoved : ofTokens (id fin) (tokens.map (Token.moved id) ++ []) =
          .error (error.moved id) := ofTokens_error_continued h (.inr ⟨rfl, rfl⟩)
      rw [List.append_nil, ParseError.moved_id] at hmoved
      exact hmoved
  | ok e =>
      have hmoved : ofTokens (id fin) (tokens.map (Token.moved id)) = .ok e := ofTokens_ok_moved h
      exact hmoved

end Expr

/-- What a parser sees of a token: its kind, its lexeme and its column. -/
def Token.mark (token : Token) : TokenKind × String × Nat :=
  (token.kind, token.lexeme, token.column)

theorem Token.map_moved_id_eq {front tokens : List Token}
    (h : front.map Token.mark = tokens.map Token.mark) :
    front.map (Token.moved id) = tokens.map (Token.moved id) := by
  have hmoved : Token.moved id = (fun m => ⟨m.1, 0, 0, m.2.2, m.2.1⟩) ∘ Token.mark := rfl
  rw [hmoved, ← List.map_map, ← List.map_map, h]

namespace Expr

/-- No continuation mends an error. A text that can be scanned and is refused, for another
reason than being blank or ending too early, is refused with the same error whatever tokens
follow its own. -/
theorem parse_error_continued {text longer : String} {tokens front more : List Token}
    {error : ParseError} (hscan : Token.scan text = .ok tokens)
    (herror : parse text = .error error) (hempty : error ≠ .empty)
    (hend : error.isAtEnd = false) (hlonger : Token.scan longer = .ok (front ++ more))
    (hfront : front.map Token.mark = tokens.map Token.mark) :
    parse longer = .error error := by
  have htokens : ofTokens (endColumn text) tokens = .error error := by
    unfold parse at herror
    split at herror
    · cases herror
      exact absurd rfl hempty
    · rw [hscan] at herror
      exact herror
  -- without tokens the error would be about the end
  have hne : front ≠ [] := by
    rintro rfl
    obtain rfl : tokens = [] := List.map_eq_nil_iff.mp hfront.symm
    rw [ofTokens, Parser.chain_nil] at htokens
    cases htokens
    cases hend
  have hblank : Text.isBlank longer = false :=
    Token.isBlank_of_scan hlonger (List.append_ne_nil_of_left_ne_nil hne more)
  have hmoved : ofTokens (endColumn longer) ((front ++ more).map (Token.moved id)) =
      .error (error.moved id) := by
    rw [List.map_append, Token.map_moved_id_eq hfront]
    exact ofTokens_error_continued htokens (.inl hend)
  rw [ofTokens_moved_id, ParseError.moved_id] at hmoved
  rw [parse, hblank, hlonger]
  exact hmoved

/-- A call without an argument is refused at its name, and what follows is never looked at,
not even the parenthesis that is left open. -/
theorem parse_error_continued_arity :
    parse "sin()" = .error (.arity 1 .sin 0) ∧ parse "sin()+(" = .error (.arity 1 .sin 0) := by
  have hscan : Token.scan "sin()" = .ok [⟨.name, 0, 3, 1, "sin"⟩, ⟨.openParen, 3, 4, 4, "("⟩,
      ⟨.closeParen, 4, 5, 5, ")"⟩] := by
    decide +kernel
  have hlonger : Token.scan "sin()+(" = .ok ([⟨.name, 0, 3, 1, "sin"⟩,
      ⟨.openParen, 3, 4, 4, "("⟩, ⟨.closeParen, 4, 5, 5, ")"⟩] ++
      [⟨.plus, 5, 6, 6, "+"⟩, ⟨.openParen, 6, 7, 7, "("⟩]) := by
    decide +kernel
  have herror : parse "sin()" = .error (.arity 1 .sin 0) := by decide +kernel
  exact ⟨herror, parse_error_continued hscan herror (by simp) rfl hlonger rfl⟩

end Expr

end Graphing
