import Graphing.Proofs.Expr.Acceptance
import Graphing.Proofs.Token.Placement
import Mathlib.Control.Monad.Basic

/-!
# What parse errors point at

A parser that fails has either come to the end of the text, or it blames one token of those
that it was given (`Explained`). What an error says of the token that it blames is `Names`:
its column is the token's, what it quotes is the token's lexeme, and it reports a construct
that formulas do not have just if the token is of such a kind. The parsers pass over tokens
of other kinds only (`Passes`), so a token of such a kind that is blamed is the first one.

With the places of tokens in the text this makes `parse_points`: an error points into the text
at exactly what it talks about.
-/

namespace Graphing

namespace ParseError

/-- The two errors of a text that is over too early. -/
def isAtEnd : ParseError → Bool
  | endOfText _ => true
  | missing _ _ => true
  | _ => false

/-- The construct that an error reports as unsupported. -/
def construct? : ParseError → Option Construct
  | unsupported _ construct _ => some construct
  | _ => none

/-- What an error quotes of the text: a lexeme, a name or a character. -/
def quoted? : ParseError → Option String
  | strayCharacter _ char => some char.toString
  | mismatch _ _ lexeme => some lexeme
  | unexpected _ lexeme => some lexeme
  | outOfRange _ lexeme => some lexeme
  | unsupported _ _ lexeme => some lexeme
  | unknownFunction _ name => some name
  | arity _ function _ => some function.name
  | _ => none

/-- The message shows what is quoted between two marks. -/
theorem detail_of_quoted? {error : ParseError} {quote : String}
    (h : error.quoted? = some quote) :
    ∃ front back, error.detail = front ++ "`" ++ quote ++ "`" ++ back := by
  cases error with
  | strayCharacter column char =>
      cases h
      exact ⟨"unexpected character ", "", by rw [String.append_empty]; rfl⟩
  | mismatch column expected lexeme =>
      cases h
      refine ⟨"expected " ++ expected.description ++ ", found ", "", ?_⟩
      rw [String.append_empty, @String.append_assoc _ ", found " "`"]
      rfl
  | unexpected column lexeme =>
      cases h
      exact ⟨"unexpected ", "", by rw [String.append_empty]; rfl⟩
  | outOfRange column lexeme =>
      cases h
      refine ⟨"number ", " is out of range", ?_⟩
      rw [@String.append_assoc _ "`" " is out of range"]
      rfl
  | unsupported column construct lexeme =>
      cases h
      refine ⟨construct.description ++ " ", " is not supported", ?_⟩
      rw [@String.append_assoc _ "`" " is not supported", @String.append_assoc _ " " "`"]
      rfl
  | unknownFunction column name =>
      cases h
      refine ⟨"unknown function ", ". Only " ++ Builtin.allNames ++ " will be accepted!", ?_⟩
      rw [← String.append_assoc, ← String.append_assoc, @String.append_assoc _ "`" ". Only "]
      rfl
  | arity column function count =>
      cases h
      refine ⟨"", " takes exactly one argument, got " ++ toString count, ?_⟩
      rw [String.empty_append, ← String.append_assoc,
        @String.append_assoc _ "`" " takes exactly one argument, got "]
      rfl
  | _ => cases h

end ParseError

/-! ## Blaming a token -/

/-- What an error says about the token that it points at. -/
inductive ParseError.Names : ParseError → Token → Prop
  | mismatch {token : Token} (expected : Expected) : token.kind.unsupported? = none →
      Names (.mismatch token.column expected token.lexeme) token
  | unexpected {token : Token} : token.kind.unsupported? = none →
      Names (.unexpected token.column token.lexeme) token
  | outOfRange {token : Token} : token.kind = .number →
      Names (.outOfRange token.column token.lexeme) token
  | tooDeep {token : Token} : token.kind.unsupported? = none →
      Names (.tooDeep token.column) token
  | tooLong {token : Token} : token.kind.unsupported? = none →
      Names (.tooLong token.column) token
  | unsupported {token : Token} {construct : Construct} :
      token.kind.unsupported? = some construct →
      Names (.unsupported token.column construct token.lexeme) token
  | unknownFunction {token : Token} : token.kind = .name →
      Names (.unknownFunction token.column token.lexeme) token
  | arity {token : Token} {function : Builtin} (count : Nat) : token.kind = .name →
      Text.equalIgnoringCase function.name token.lexeme = true →
      Names (.arity token.column function count) token

namespace ParseError.Names

variable {error : ParseError} {token : Token}

theorem column? (h : error.Names token) : error.column? = some token.column := by
  cases h <;> rfl

theorem isAtEnd (h : error.Names token) : error.isAtEnd = false := by
  cases h <;> rfl

/-- The construct that is reported is the one that the token belongs to. -/
theorem construct? (h : error.Names token) :
    error.construct? = token.kind.unsupported? := by
  cases h with
  | unsupported hkind => exact hkind.symm
  | outOfRange hkind => rw [hkind]; rfl
  | unknownFunction hkind => rw [hkind]; rfl
  | arity count hkind => rw [hkind]; rfl
  | mismatch _ hkind => exact hkind.symm
  | unexpected hkind => exact hkind.symm
  | tooDeep hkind => exact hkind.symm
  | tooLong hkind => exact hkind.symm

/-- The lexeme is quoted as it stands, but for the name of a function that was given too many
arguments or too few: that one is quoted in small letters. -/
theorem quoted? (h : error.Names token) {quote : String} (hquote : error.quoted? = some quote) :
    quote = token.lexeme ∨ (∃ function count, error = .arity token.column function count) ∧
      Text.equalIgnoringCase quote token.lexeme = true := by
  cases h with
  | arity count _ hname =>
      cases hquote
      exact .inr ⟨⟨_, _, rfl⟩, hname⟩
  | tooDeep => cases hquote
  | tooLong => cases hquote
  | mismatch => cases hquote; exact .inl rfl
  | unexpected => cases hquote; exact .inl rfl
  | outOfRange => cases hquote; exact .inl rfl
  | unsupported => cases hquote; exact .inl rfl
  | unknownFunction => cases hquote; exact .inl rfl

end ParseError.Names

/-- The tokens in front of `rest` are of kinds that formulas have. -/
def Passes (tokens rest : List Token) : Prop :=
  ∃ used, tokens = used ++ rest ∧ ∀ token ∈ used, token.kind.unsupported? = none

namespace Passes

theorem refl (tokens : List Token) : Passes tokens tokens :=
  ⟨[], rfl, fun _ h => by cases h⟩

theorem trans {a b c : List Token} (h : Passes a b) (h' : Passes b c) : Passes a c := by
  obtain ⟨front, rfl, hfront⟩ := h
  obtain ⟨back, rfl, hback⟩ := h'
  refine ⟨front ++ back, (List.append_assoc _ _ _).symm, ?_⟩
  intro token htoken
  rcases List.mem_append.mp htoken with hmem | hmem
  · exact hfront token hmem
  · exact hback token hmem

/-- One token of a kind that formulas have. -/
theorem one {token : Token} {kind : TokenKind} (h : token.kind = kind)
    (hkind : kind.unsupported? = none) (rest : List Token) : Passes (token :: rest) rest := by
  refine ⟨[token], rfl, ?_⟩
  intro other hother
  rw [List.mem_singleton.mp hother, h, hkind]

end Passes

theorem ChainLevel.Joins.unsupported? {level : ChainLevel} {kind : TokenKind} {op : Operator}
    (h : level.Joins kind op) : kind.unsupported? = none := by
  cases h <;> rfl

/-- What is derived holds no tokens but those of formulas. -/
theorem Derives.passes {phrase : Phrase} {tokens rest : List Token} {e : Formula}
    (h : Derives phrase tokens e rest) : Passes tokens rest := by
  induction h with
  | first _ ih => exact ih
  | next _ hj _ ihLeft ihRight => exact (ihLeft.trans (.one rfl hj.unsupported? _)).trans ihRight
  | minus hk _ ih => exact (Passes.one hk rfl _).trans ih
  | plus hk _ ih => exact (Passes.one hk rfl _).trans ih
  | unsigned _ ih => exact ih
  | number hk _ => exact .one hk rfl _
  | name hk _ => exact .one hk rfl _
  | call hk ho _ hc ih =>
      exact (((Passes.one hk rfl _).trans (.one ho rfl _)).trans ih).trans (.one hc rfl _)
  | group ho _ hc ih => exact ((Passes.one ho rfl _).trans ih).trans (.one hc rfl _)

/-- An error of a parser tells of the end of the text or names a token. If this is one that
formulas do not have, there is no such token before it. -/
inductive Explained (fin : Nat) (tokens : List Token) : ParseError → Prop
  | endOfText : Explained fin tokens (.endOfText fin)
  | missing (expected : Expected) : Explained fin tokens (.missing fin expected)
  | token {error : ParseError} (before : List Token) (token : Token) (after : List Token) :
      tokens = before ++ token :: after → error.Names token →
      (token.kind.unsupported? ≠ none → ∀ t ∈ before, t.kind.unsupported? = none) →
      Explained fin tokens error

namespace Explained

variable {fin : Nat} {tokens rest : List Token} {error : ParseError}

/-- The first token is blamed. -/
theorem head {token : Token} (h : error.Names token) : Explained fin (token :: rest) error :=
  .token [] token rest rfl h fun _ _ hmem => by cases hmem

/-- An error that was found further on. -/
theorem behind (h : Explained fin rest error) (hpass : Passes tokens rest) :
    Explained fin tokens error := by
  obtain ⟨used, rfl, hused⟩ := hpass
  cases h with
  | endOfText => exact .endOfText
  | missing expected => exact .missing expected
  | token before token after hsplit hnames hfirst =>
      refine .token (used ++ before) token after ?_ hnames ?_
      · rw [hsplit, List.append_assoc]
      · intro hforeign t ht
        rcases List.mem_append.mp ht with hmem | hmem
        · exact hused t hmem
        · exact hfirst hforeign t hmem

end Explained

namespace Parser

variable {fin : Nat}

/-! ## What the small parsers blame -/

theorem names_unexpectedToken (token : Token) : (unexpectedToken token).Names token := by
  unfold unexpectedToken
  cases hkind : token.kind.unsupported? with
  | some construct => exact .unsupported hkind
  | none => exact .unexpected hkind

theorem explained_of_closing {expected : Expected} {tokens : List Token} {error : ParseError}
    (h : closing fin expected tokens = .error error) : Explained fin tokens error := by
  cases tokens with
  | nil =>
      cases h
      exact .missing expected
  | cons token rest =>
      rw [closing] at h
      split at h
      · cases h
      · split at h
        · rename_i construct hkind
          cases h
          exact .head (.unsupported hkind)
        · rename_i hkind
          cases h
          exact .head (.mismatch expected hkind)

theorem number_eq_error {token : Token} {error : ParseError}
    (h : number token = .error error) : error = .outOfRange token.column token.lexeme := by
  unfold number at h
  split at h
  · split at h
    · cases h
    · cases h
      rfl
  · cases h
    rfl

/-- The end of a call fails at what should close it, or for the number of arguments. -/
theorem explained_of_finishCall {name : Token} {function : Builtin} {first : Option Formula}
    {count : Nat} {tokens : List Token} {error : ParseError}
    (h : finishCall fin name function first count tokens = .error error) :
    Explained fin tokens error ∨ error = .arity name.column function count := by
  unfold finishCall at h
  split at h
  · rename_i hclosing
    cases h
    exact .inl (explained_of_closing hclosing)
  · split at h
    · cases h
    · cases h
      exact .inr rfl

/-! ## Further arguments -/

section FurtherArguments

variable {argument : List Token → Parsed Formula}

theorem passes_of_furtherArguments
    (hargument : ∀ tokens e rest, argument tokens = .ok (e, rest) → Passes tokens rest)
    {steps count : Nat} {tokens rest : List Token}
    (h : furtherArguments argument steps tokens = .ok (count, rest)) : Passes tokens rest := by
  fun_induction furtherArguments argument steps tokens generalizing count with
  | case1 tokens => cases h; exact .refl _
  | case2 => cases h; exact .refl _
  | case3 => cases h
  | case4 => cases h
  | case5 steps token after hcomma e after' hok more rest' hmore ih =>
      cases h
      exact ((Passes.one hcomma rfl _).trans (hargument _ _ _ hok)).trans (ih hmore)
  | case6 => cases h; exact .refl _

theorem explained_of_furtherArguments
    (hargument : ∀ tokens e rest, argument tokens = .ok (e, rest) → Passes tokens rest)
    (hfailed : ∀ tokens error, argument tokens = .error error → Explained fin tokens error)
    {steps : Nat} {tokens : List Token} {error : ParseError}
    (h : furtherArguments argument steps tokens = .error error) :
    Explained fin tokens error := by
  fun_induction furtherArguments argument steps tokens with
  | case1 => cases h
  | case2 => cases h
  | case3 steps token after hcomma failure herror =>
      cases h
      exact (hfailed _ _ herror).behind (.one hcomma rfl _)
  | case4 steps token after hcomma e after' hok failure herror ih =>
      cases h
      exact (ih herror).behind ((Passes.one hcomma rfl _).trans (hargument _ _ _ hok))
  | case5 => cases h
  | case6 => cases h

end FurtherArguments

/-! ## The parsers -/

theorem passes_of_chain {budget : Nat} {level : ChainLevel} {tokens rest : List Token}
    {e : Formula} (h : chain fin budget level tokens = .ok (e, rest)) : Passes tokens rest :=
  (reads_of_chain h).derives.passes

mutual

theorem explained_of_chain {budget : Nat} {level : ChainLevel} {tokens : List Token}
    {error : ParseError} (h : chain fin budget level tokens = .error error) :
    Explained fin tokens error := by
  rw [chain] at h
  split at h
  · rename_i hfirst
    cases h
    exact explained_of_operand hfirst
  · rename_i left after hfirst
    exact (explained_of_chainRest h).behind (reads_of_operand hfirst).derives.passes
  termination_by 10 * budget + 2 * level.rank + 1

theorem explained_of_operand {budget : Nat} {level : ChainLevel} {tokens : List Token}
    {error : ParseError} (h : operand fin budget level tokens = .error error) :
    Explained fin tokens error := by
  rw [operand.eq_def] at h
  cases hlevel : level with
  | sum =>
      rw [hlevel] at h
      exact explained_of_chain h
  | product =>
      rw [hlevel] at h
      exact explained_of_chain h
  | power =>
      rw [hlevel] at h
      exact explained_of_signed h
  termination_by 10 * budget + 2 * level.rank
  decreasing_by all_goals rw [hlevel]; simp [ChainLevel.rank]

theorem explained_of_chainRest {budget : Nat} {level : ChainLevel} {left : Formula}
    {tokens : List Token} {error : ParseError}
    (h : chainRest fin budget level left tokens = .error error) :
    Explained fin tokens error := by
  rw [chainRest.eq_def] at h
  split at h
  · cases h
  · rename_i token after
    split at h
    · cases h
    · rename_i op hop
      have hkind := (ChainLevel.operator?_eq_some_iff.mp hop).unsupported?
      split at h
      · cases h
        exact .head (.tooLong hkind)
      · rename_i budget
        split at h
        · rename_i hoperand
          cases h
          exact (explained_of_operand hoperand).behind (.one rfl hkind _)
        · rename_i right after' hoperand
          have hpass := (reads_of_operand hoperand).derives.passes
          exact (explained_of_chainRest h).behind ((Passes.one rfl hkind _).trans hpass)
  termination_by 10 * budget
  decreasing_by
    · have := level.rank_le
      omega
    · omega

theorem explained_of_signed {budget : Nat} {tokens : List Token} {error : ParseError}
    (h : signed fin budget tokens = .error error) : Explained fin tokens error := by
  rw [signed.eq_def] at h
  split at h
  · cases h
    exact .endOfText
  · rename_i token after
    split at h
    · rename_i hk
      split at h
      · cases h
        exact .head (.tooDeep (by rw [hk]; rfl))
      · split at h
        · rename_i hinner
          cases h
          exact (explained_of_signed hinner).behind (.one hk rfl _)
        · cases h
    · rename_i hk
      split at h
      · cases h
        exact .head (.tooDeep (by rw [hk]; rfl))
      · split at h
        · rename_i hinner
          cases h
          exact (explained_of_signed hinner).behind (.one hk rfl _)
        · cases h
    · exact explained_of_primary h
  termination_by 10 * budget + 1

theorem explained_of_primary {budget : Nat} {token : Token} {after : List Token}
    {error : ParseError} (h : primary fin budget token after = .error error) :
    Explained fin (token :: after) error := by
  rw [primary.eq_def] at h
  split at h
  · rename_i hk
    split at h
    · rename_i hnumber
      cases h
      rw [number_eq_error hnumber]
      exact .head (.outOfRange hk)
    · cases h
  · rename_i hk
    split at h
    · cases h
    · rename_i opening inside
      split at h
      · rename_i ho
        split at h
        · cases h
          exact .head (.tooDeep (by rw [hk]; rfl))
        · split at h
          · cases h
            exact .head (.unknownFunction hk)
          · rename_i function hfunction
            rcases explained_of_arguments h with hinside | ⟨count, rfl⟩
            · exact hinside.behind ((Passes.one hk rfl _).trans (.one ho rfl _))
            · -- the arguments were read to their end, and the blame goes back to the name
              have hname := List.find?_some hfunction
              exact .head (.arity count hk hname)
      · cases h
  · rename_i ho
    split at h
    · cases h
      exact .head (.tooDeep (by rw [ho]; rfl))
    · split at h
      · rename_i hinner
        cases h
        exact (explained_of_chain hinner).behind (.one ho rfl _)
      · rename_i inner after' hinner
        split at h
        · rename_i hclosing
          cases h
          exact (explained_of_closing hclosing).behind
            ((Passes.one ho rfl _).trans (passes_of_chain hinner))
        · cases h
  · cases h
    exact .head (names_unexpectedToken token)
  termination_by 10 * budget
  decreasing_by all_goals simp only [ChainLevel.rank]; omega

theorem explained_of_arguments {budget : Nat} {name : Token} {function : Builtin}
    {tokens : List Token} {error : ParseError}
    (h : arguments fin budget name function tokens = .error error) :
    Explained fin tokens error ∨ ∃ count, error = .arity name.column function count := by
  rw [arguments.eq_def] at h
  split at h
  · exact (explained_of_finishCall h).imp_right fun heq => ⟨0, heq⟩
  · split at h
    · rename_i hfirst
      cases h
      exact .inl (explained_of_chain hfirst)
    · rename_i first after hfirst
      split at h
      · rename_i hfurther
        cases h
        refine .inl (Explained.behind ?_ (passes_of_chain hfirst))
        exact explained_of_furtherArguments (fun _ _ _ => passes_of_chain)
          (fun _ _ => explained_of_chain) hfurther
      · rename_i count after' hfurther
        have hpass := (passes_of_chain hfirst).trans
          (passes_of_furtherArguments (fun _ _ _ => passes_of_chain) hfurther)
        exact (explained_of_finishCall h).imp (fun hend => hend.behind hpass)
          fun heq => ⟨count + 1, heq⟩
  termination_by 10 * budget + 2 * ChainLevel.sum.rank + 2

end

end Parser

/-! ## Places in the text -/

/-- The character at a column is the first one of a text that is neither white space nor the
beginning of a token. -/
structure Token.StrayAt (text : String) (column : Nat) (c : Char) : Prop where
  char : text.toList[column - 1]? = some c
  visible : isSkipped c = false
  stray : ¬ Begins c
  first : ∀ d ∈ text.toList.take (column - 1), isSkipped d = true ∨ Begins d

namespace ParseError

/-- What an error quotes is the lexeme of a token, up to the case of letters if it tells of a
wrong number of arguments. -/
def Quotes (error : ParseError) (token : Token) : Prop :=
  ∀ quote, error.quoted? = some quote → quote = token.lexeme ∨
    (∃ column function count, error = .arity column function count) ∧
      Text.equalIgnoringCase quote token.lexeme = true

/-- An error points at exactly what it talks about: a place in the text, or one past its end. -/
structure PointsInto (error : ParseError) (text : String) (column : Nat) : Prop where
  column? : error.column? = some column
  one_le : 1 ≤ column
  le_end : column ≤ text.toList.length + 1
  /-- The errors of a text that is over point past its end, and no others do. -/
  end_iff : column = text.toList.length + 1 ↔ error.isAtEnd = true
  /-- If the text cannot be scanned, the stray character stands there and is quoted. -/
  stray : ∀ failure, Token.scan text = .error failure →
    ∃ c, error = .strayCharacter column c ∧ Token.StrayAt text column c
  /-- If it can be scanned and is not over, a token stands there. -/
  token : ∀ tokens, Token.scan text = .ok tokens →
    error.isAtEnd = true ∨ ∃ token ∈ tokens, token.column = column
  /-- What is quoted is the text that stands there. -/
  quotes : ∀ tokens, Token.scan text = .ok tokens → ∀ token ∈ tokens, token.column = column →
    token.StandsIn text.toList ∧ error.Quotes token
  /-- An unsupported construct is reported just if the token belongs to one. -/
  construct_iff : ∀ tokens, Token.scan text = .ok tokens →
    (error.construct? ≠ none ↔
      ∃ token ∈ tokens, token.column = column ∧ token.kind.unsupported? ≠ none)
  /-- The token that is reported so is the first of its sort. -/
  first : ∀ tokens, Token.scan text = .ok tokens → error.construct? ≠ none →
    ∀ token ∈ tokens, token.kind.unsupported? ≠ none → column ≤ token.column

theorem pointsInto_of_scan {text : String} {error : ParseError}
    (h : Token.scan text = .error error) : ∃ column, error.PointsInto text column := by
  obtain ⟨front, c, back, htext, rfl, hvisible, hstray, hfront⟩ := Token.scan_stray h
  have hlength : front.length < text.toList.length := by
    rw [htext, List.length_append, List.length_cons]
    omega
  have hplace : Token.StrayAt text (front.length + 1) c := by
    refine ⟨?_, hvisible, hstray, ?_⟩
    · rw [htext, Nat.add_sub_cancel, List.getElem?_append_right (Nat.le_refl _), Nat.sub_self]
      rfl
    · rw [htext, Nat.add_sub_cancel, List.take_left]
      exact hfront
  -- there are no tokens to speak of
  have hnone : ∀ tokens, Token.scan text ≠ .ok tokens := by
    intro tokens hscan
    rw [h] at hscan
    cases hscan
  refine ⟨front.length + 1, rfl, by omega, by omega, ?_, fun _ _ => ⟨c, rfl, hplace⟩,
    fun tokens hscan => absurd hscan (hnone tokens),
    fun tokens hscan => absurd hscan (hnone tokens),
    fun tokens hscan => absurd hscan (hnone tokens),
    fun tokens hscan => absurd hscan (hnone tokens)⟩
  constructor
  · intro hend
    omega
  · intro hend
    cases hend

theorem pointsInto_end {text : String} {tokens : List Token} {error : ParseError}
    (h : Token.scan text = .ok tokens) (hend : error.isAtEnd = true)
    (hcolumn : error.column? = some (text.toList.length + 1)) :
    error.PointsInto text (text.toList.length + 1) := by
  have hconstruct : error.construct? = none := by
    cases error with
    | endOfText => rfl
    | missing => rfl
    | _ => cases hend
  -- every token stands before the end
  have hbefore : ∀ others, Token.scan text = .ok others → ∀ token ∈ others,
      token.column ≠ text.toList.length + 1 := by
    intro others hscan token htoken heq
    have hle := ((Token.scan_placed hscan).2 token htoken).column_le
    omega
  refine ⟨hcolumn, by omega, Nat.le_refl _, ⟨fun _ => hend, fun _ => rfl⟩, ?_,
    fun _ _ => .inl hend, ?_, ?_, ?_⟩
  · intro failure hfailure
    rw [h] at hfailure
    cases hfailure
  · intro others hscan token htoken heq
    exact absurd heq (hbefore others hscan token htoken)
  · intro others hscan
    constructor
    · intro hne
      exact absurd hconstruct hne
    · rintro ⟨token, htoken, heq, _⟩
      exact absurd heq (hbefore others hscan token htoken)
  · intro others _ hne
    exact absurd hconstruct hne

theorem Names.pointsInto {text : String} {before after : List Token} {token : Token}
    {error : ParseError} (h : error.Names token)
    (hscan : Token.scan text = .ok (before ++ token :: after))
    (hfirst : token.kind.unsupported? ≠ none → ∀ t ∈ before, t.kind.unsupported? = none) :
    error.PointsInto text token.column := by
  obtain ⟨hordered, hplaced⟩ := Token.scan_placed hscan
  have hmem : token ∈ before ++ token :: after :=
    List.mem_append_right before List.mem_cons_self
  have hstands := hplaced token hmem
  have hpos := hstands.column_pos
  have hle := hstands.column_le
  -- the scan has one result, in which one token stands at the column
  have hsame : ∀ tokens, Token.scan text = .ok tokens → tokens = before ++ token :: after := by
    intro tokens htokens
    exact Except.ok.inj (htokens.symm.trans hscan)
  have honly : ∀ other ∈ before ++ token :: after, other.column = token.column →
      other = token := by
    intro other hother heq
    rcases Token.column_cases hordered hother with rfl | ⟨_, hlt⟩ | hlt
    · rfl
    · omega
    · omega
  refine ⟨h.column?, hpos, by omega, ?_, ?_, ?_, ?_, ?_, ?_⟩
  · rw [h.isAtEnd]
    constructor
    · intro hend
      omega
    · intro hend
      cases hend
  · intro failure hfailure
    rw [hscan] at hfailure
    cases hfailure
  · intro tokens htokens
    rw [hsame tokens htokens]
    exact .inr ⟨token, hmem, rfl⟩
  · intro tokens htokens other hother heq
    rw [hsame tokens htokens] at hother
    obtain rfl := honly other hother heq
    refine ⟨hstands, ?_⟩
    intro quote hquote
    exact (h.quoted? hquote).imp_right fun ⟨⟨function, count, harity⟩, hcase⟩ =>
      ⟨⟨_, function, count, harity⟩, hcase⟩
  · intro tokens htokens
    rw [hsame tokens htokens, h.construct?]
    constructor
    · intro hforeign
      exact ⟨token, hmem, rfl, hforeign⟩
    · rintro ⟨other, hother, heq, hforeign⟩
      rw [← honly other hother heq]
      exact hforeign
  · intro tokens htokens hconstruct other hother hforeign
    rw [hsame tokens htokens] at hother
    rw [h.construct?] at hconstruct
    rcases Token.column_cases hordered hother with rfl | ⟨hbefore, _⟩ | hlt
    · exact Nat.le_refl _
    · exact absurd (hfirst hconstruct other hbefore) hforeign
    · exact Nat.le_of_lt hlt

end ParseError

theorem Explained.pointsInto {text : String} {tokens : List Token} {error : ParseError}
    (h : Explained (Expr.endColumn text) tokens error) (hscan : Token.scan text = .ok tokens) :
    ∃ column, error.PointsInto text column := by
  cases h with
  | endOfText => exact ⟨_, ParseError.pointsInto_end hscan rfl rfl⟩
  | missing expected => exact ⟨_, ParseError.pointsInto_end hscan rfl rfl⟩
  | token before token after hsplit hnames hfirst =>
      rw [hsplit] at hscan
      exact ⟨token.column, hnames.pointsInto hscan hfirst⟩

namespace Expr

theorem explained_of_ofTokens {fin : Nat} {tokens : List Token} {error : ParseError}
    (h : ofTokens fin tokens = .error error) : Explained fin tokens error := by
  unfold ofTokens at h
  split at h
  · rename_i hchain
    cases h
    exact Parser.explained_of_chain hchain
  · cases h
  · rename_i token rest hchain
    cases h
    exact (Explained.head (Parser.names_unexpectedToken token)).behind
      (Parser.passes_of_chain hchain)

/-- A text that reads as a formula holds no tokens but those of formulas. -/
theorem unsupported?_of_parse {text : String} {e : Formula} {tokens : List Token}
    (h : parse text = .ok e) (hscan : Token.scan text = .ok tokens) :
    ∀ token ∈ tokens, token.kind.unsupported? = none := by
  obtain ⟨_, scanned, hscanned, hreads⟩ := parse_eq_ok_iff_reads.mp h
  obtain rfl : tokens = scanned := Except.ok.inj (hscan.symm.trans hscanned)
  obtain ⟨used, hused, hsupported⟩ := hreads.derives.passes
  rw [List.append_nil] at hused
  rw [hused]
  exact hsupported

theorem pointsInto_of_parse {text : String} {error : ParseError}
    (h : parse text = .error error) (hempty : error ≠ .empty) :
    ∃ column, error.PointsInto text column := by
  unfold parse at h
  split at h
  · cases h
    exact absurd rfl hempty
  · cases hscan : Token.scan text with
    | error stray =>
        rw [hscan] at h
        cases h
        exact ParseError.pointsInto_of_scan hscan
    | ok tokens =>
        rw [hscan] at h
        exact (explained_of_ofTokens h).pointsInto hscan

/-- A parse error other than that of a blank text points into the text at exactly what it
talks about, and shows what it quotes of the text in its message. A text that holds a token of
a construct that formulas do not have is never read as a formula. -/
theorem parse_points (text : String) :
    (∀ error, parse text = .error error → error ≠ .empty →
      (∃ column, error.PointsInto text column) ∧
      ∀ quote, error.quoted? = some quote →
        ∃ front back, error.detail = front ++ "`" ++ quote ++ "`" ++ back) ∧
    ∀ tokens, Token.scan text = .ok tokens → ∀ token ∈ tokens,
      token.kind.unsupported? ≠ none → ∃ error, parse text = .error error := by
  refine ⟨?_, ?_⟩
  · intro error herror hempty
    exact ⟨pointsInto_of_parse herror hempty, fun quote => ParseError.detail_of_quoted?⟩
  · intro tokens hscan token htoken hforeign
    cases hparse : parse text with
    | error error => exact ⟨error, rfl⟩
    | ok e => exact absurd (unsupported?_of_parse hparse hscan token htoken) hforeign

/-- The blame for a second argument goes back to the name, which is quoted in small letters,
and not to the operator after the call that formulas do not have. -/
theorem parse_points_capitals :
    parse "1 + COS(x, 2) && y" = .error (.arity 5 .cos 2) ∧
    (∃ column, (ParseError.arity 5 .cos 2).PointsInto "1 + COS(x, 2) && y" column) ∧
    ∃ front back, (ParseError.arity 5 .cos 2).detail = front ++ "`" ++ "cos" ++ "`" ++ back := by
  have hparse : parse "1 + COS(x, 2) && y" = .error (.arity 5 .cos 2) := by
    decide +kernel
  have hempty : ParseError.arity 5 .cos 2 ≠ .empty := by simp
  obtain ⟨hpoints, hquotes⟩ := (parse_points "1 + COS(x, 2) && y").1 _ hparse hempty
  exact ⟨hparse, hpoints, hquotes "cos" rfl⟩

end Expr

end Graphing
