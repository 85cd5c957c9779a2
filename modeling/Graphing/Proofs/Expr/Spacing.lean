import Graphing.Curve
import Graphing.Proofs.Cache.Ledger
import Graphing.Proofs.Expr.Continuation
import Graphing.Proofs.Token.Coverage

/-!
# White space between tokens

A formula is what its tokens are, not where they stand. Two halves make this up:

* lexemes that are written with white space between them are scanned again as they are
  (`exists_scan_spaced`). White space is in no pattern, so a token before it cannot be
  any longer;
* a parser looks at columns only to put them into errors (`ofTokens_unplaced`). Texts with the
  same kinds and lexemes give the same formula, or the same error about different columns, and
  the artifact that one of them has put into the cache is found by the other.
-/

namespace Graphing

namespace Token

/-- What a token is, apart from its place. -/
def content (token : Token) : TokenKind × String :=
  (token.kind, token.lexeme)

/-- White space, perhaps none. -/
def IsGap (cs : List Char) : Prop :=
  ∀ c ∈ cs, isSkipped c = true

instance (cs : List Char) : Decidable (IsGap cs) :=
  decidable_of_iff (cs.all isSkipped = true) List.all_eq_true

/-- Lexemes that are written in their order, with white space between any two of them and
perhaps at both ends. -/
inductive Spaced : List String → List Char → Prop
  | blank {gap : List Char} : IsGap gap → Spaced [] gap
  | lexeme {front gap rest : List Char} {lexeme : String} {lexemes : List String} :
      IsGap front → IsGap gap → (lexemes ≠ [] → gap ≠ []) → Spaced lexemes rest →
      Spaced (lexeme :: lexemes) (front ++ (lexeme.toList ++ (gap ++ rest)))

/-! ## White space ends a token -/

variable {kind : TokenKind} {lexeme rest : List Char}

theorem isBlankChar_of_isSkipped {c : Char} (h : isSkipped c = true) :
    Text.isBlankChar c = true := by
  simp only [isSkipped, Bool.or_eq_true, beq_iff_eq] at h
  rcases h with (((rfl | rfl) | rfl) | rfl) | rfl <;> decide

/-- A word is the longest token of the text that it is. -/
theorem isLongest_self (h : kind.Matches lexeme) : IsLongest lexeme kind lexeme :=
  ⟨List.prefix_refl lexeme, h, fun _ _ hle _ => hle.length_le⟩

/-- No pattern has white space in it. -/
theorem isSkipped_of_mem_word (h : kind.Matches lexeme) {c : Char} (hc : c ∈ lexeme) :
    isSkipped c = false := by
  have hlongest : longest? lexeme = some (kind, lexeme.length) :=
    longest?_eq_some_iff.mpr ⟨lexeme, rfl, isLongest_self h⟩
  obtain ⟨d, ds, rfl⟩ := List.exists_cons_of_ne_nil (ne_nil_of_matches h)
  have hbegin : isBeginning c = true :=
    isBeginning_of_mem_take hlongest (by rw [List.take_length]; exact hc)
  rw [Bool.eq_false_iff]
  intro hskipped
  have hblank := isBlankChar_of_isSkipped hskipped
  rw [isBlankChar_of_isBeginning hbegin] at hblank
  cases hblank

/-- A word before white space or at the end of a text is the longest token there. -/
theorem isLongest_of_gap (h : kind.Matches lexeme)
    (hrest : ∀ c ∈ rest.head?, isSkipped c = true) :
    IsLongest (lexeme ++ rest) kind lexeme := by
  refine ⟨List.prefix_append lexeme rest, h, ?_⟩
  intro other longer hle hother
  by_contra hlength
  -- a longer word would go on with the white space
  obtain ⟨more, rfl⟩ := List.prefix_of_prefix_length_le (List.prefix_append lexeme rest) hle
    (by omega)
  rw [List.prefix_append_right_inj] at hle
  cases more with
  | nil => simp at hlength
  | cons c more =>
      obtain ⟨after, rfl⟩ := hle
      have hskipped := hrest c rfl
      rw [isSkipped_of_mem_word hother (by simp)] at hskipped
      cases hskipped

namespace Cursor

theorem Reaches.refl (cursor : Cursor) : cursor.Reaches [] cursor :=
  fun _ h => h

theorem exists_reaches_gap {start : Cursor} {gap : List Char} (hgap : IsGap gap)
    (h : start.rest = gap ++ rest) : ∃ stop : Cursor, stop.rest = rest ∧ start.Reaches [] stop := by
  induction gap generalizing start with
  | nil => exact ⟨start, h, .refl start⟩
  | cons c gap ih =>
      rw [List.cons_append] at h
      obtain ⟨next, hnext, hreach⟩ := exists_reaches_skipped h (hgap c List.mem_cons_self)
      obtain ⟨stop, hstop, hreach'⟩ := ih (fun d hd => hgap d (List.mem_cons_of_mem c hd)) hnext
      exact ⟨stop, hstop, hreach.trans hreach'⟩

/-- A word that white space follows becomes a token. -/
theorem exists_reaches_word {start : Cursor} (h : start.rest = lexeme ++ rest)
    (hword : kind.Matches lexeme) (hrest : ∀ c ∈ rest.head?, isSkipped c = true) :
    ∃ (token : Token) (stop : Cursor), token.content = (kind, String.ofList lexeme) ∧
      stop.rest = rest ∧ start.Reaches [token] stop := by
  have hlongest : longest? (lexeme ++ rest) = some (kind, lexeme.length) :=
    longest?_eq_some_iff.mpr ⟨lexeme, rfl, isLongest_of_gap hword hrest⟩
  obtain ⟨c, cs, rfl⟩ := List.exists_cons_of_ne_nil (ne_nil_of_matches hword)
  obtain ⟨token, stop, hkind, hlexeme, hstop, hreach⟩ :=
    exists_reaches_token h (isSkipped_of_mem_word hword List.mem_cons_self) hlongest
  exact ⟨token, stop, by rw [content, hkind, hlexeme], hstop, hreach⟩

end Cursor

/-! ## Texts with other white space -/

/-- After a lexeme there is white space or nothing. -/
theorem Spaced.isSkipped_head {gap : List Char} {lexemes : List String} (hgap : IsGap gap)
    (hne : lexemes ≠ [] → gap ≠ []) (h : Spaced lexemes rest) :
    ∀ c ∈ (gap ++ rest).head?, isSkipped c = true := by
  intro c hc
  cases gap with
  | cons d gap =>
      cases hc
      exact hgap c List.mem_cons_self
  | nil =>
      cases h with
      | blank hrest => exact hrest c (List.mem_of_mem_head? hc)
      | lexeme => exact absurd rfl (hne (List.cons_ne_nil _ _))

theorem Cursor.exists_reaches_spaced {tokens : List Token}
    (hwords : ∀ token ∈ tokens, token.kind.Matches token.lexeme.toList) {cs : List Char}
    (hspaced : Spaced (tokens.map Token.lexeme) cs) {start : Cursor} (h : start.rest = cs) :
    ∃ (scanned : List Token) (stop : Cursor), stop.rest = [] ∧ start.Reaches scanned stop ∧
      scanned.map content = tokens.map content := by
  induction tokens generalizing cs start with
  | nil =>
      cases hspaced with
      | blank hgap =>
          rw [← List.append_nil cs] at h
          obtain ⟨stop, hstop, hreach⟩ := exists_reaches_gap hgap h
          exact ⟨[], stop, hstop, hreach, rfl⟩
  | cons token tokens ih =>
      cases hspaced with
      | @lexeme front gap rest _ _ hfront hgap hne hrest =>
          have hword := hwords token List.mem_cons_self
          obtain ⟨before, hbefore, hreachFront⟩ := exists_reaches_gap hfront h
          obtain ⟨first, after, hfirst, hafter, hreachFirst⟩ :=
            exists_reaches_word hbefore hword (hrest.isSkipped_head hgap hne)
          obtain ⟨next, hnext, hreachGap⟩ := exists_reaches_gap hgap hafter
          obtain ⟨scanned, stop, hstop, hreach, hcontents⟩ :=
            ih (fun t ht => hwords t (List.mem_cons_of_mem token ht)) hrest hnext
          refine ⟨first :: scanned, stop, hstop, ?_, ?_⟩
          · exact hreachFront.trans (hreachFirst.trans (hreachGap.trans hreach))
          · rw [String.ofList_toList] at hfirst
            rw [List.map_cons, List.map_cons, hfirst, hcontents]
            rfl

/-- Words that are written with white space between them are scanned as they are. -/
theorem exists_scan_spaced {tokens : List Token}
    (hwords : ∀ token ∈ tokens, token.kind.Matches token.lexeme.toList) {text : String}
    (hspaced : Spaced (tokens.map Token.lexeme) text.toList) :
    ∃ scanned, scan text = .ok scanned ∧ scanned.map content = tokens.map content := by
  have hstart : (⟨0, 1, text.toList⟩ : Cursor).rest = text.toList := rfl
  obtain ⟨scanned, stop, hstop, hreach, hcontents⟩ :=
    Cursor.exists_reaches_spaced hwords hspaced hstart
  have hend : stop.scan = .ok [] := by rw [Cursor.scan, hstop, scanFrom]
  refine ⟨scanned, ?_, hcontents⟩
  have hscan := hreach [] hend
  rw [List.append_nil] at hscan
  exact hscan

theorem matches_of_scan {text : String} {tokens : List Token} (h : scan text = .ok tokens) :
    ∀ token ∈ tokens, token.kind.Matches token.lexeme.toList := by
  intro token htoken
  obtain ⟨_, _, _, _, hlongest⟩ := (covers_scan h).fills token htoken
  exact hlongest.word

/-- A text without a token is blank. -/
theorem isBlank_of_scan_nil {text : String} (h : scan text = .ok []) :
    Text.isBlank text = true := by
  rw [Text.isBlank, List.all_eq_true]
  intro c hc
  obtain ⟨front, back, hsplit⟩ := List.append_of_mem hc
  have hcovers : CoversFrom [] text.toList [] := coversFrom_scanFrom rfl rfl h
  apply isBlankChar_of_isSkipped
  exact hcovers.gaps front c back hsplit fun _ htoken => by cases htoken

end Token

/-! ## Columns -/

/-- The error without its column. -/
def ParseError.unplaced (error : ParseError) : ParseError :=
  error.moved fun _ => 0

/-- The token without its place. -/
def Token.unplaced (token : Token) : Token :=
  token.moved fun _ => 0

theorem Token.map_unplaced_eq {tokens others : List Token}
    (h : tokens.map Token.content = others.map Token.content) :
    tokens.map Token.unplaced = others.map Token.unplaced := by
  have hunplaced : Token.unplaced = (fun c => ⟨c.1, 0, 0, 0, c.2⟩) ∘ Token.content := rfl
  rw [hunplaced, ← List.map_map, ← List.map_map, h]

namespace Expr

/-- Without places the tokens give the same formula, or the same error without its column. -/
theorem ofTokens_unplaced (fin : Nat) (tokens : List Token) :
    ofTokens 0 (tokens.map Token.unplaced) =
      (ofTokens fin tokens).mapError ParseError.unplaced := by
  cases h : ofTokens fin tokens with
  | error error =>
      have hmoved : ofTokens 0 (tokens.map Token.unplaced ++ []) = .error error.unplaced :=
        @ofTokens_error_continued (fun _ => 0) fin 0 [] tokens error h (.inr ⟨rfl, rfl⟩)
      rw [List.append_nil] at hmoved
      exact hmoved
  | ok e => exact @ofTokens_ok_moved (fun _ => 0) fin tokens e h

theorem parse_of_scan {text : String} {tokens : List Token} (h : Token.scan text = .ok tokens) :
    parse text = if tokens = [] then .error .empty else ofTokens (endColumn text) tokens := by
  split
  · rename_i hnil
    rw [hnil] at h
    rw [parse, Token.isBlank_of_scan_nil h, if_pos rfl]
  · rename_i hne
    rw [parse, Token.isBlank_of_scan h hne, h]
    rfl

variable {first second : String} {tokens others : List Token}

/-- What is read from a text depends on the kinds and lexemes of its tokens, columns in errors
aside. -/
theorem parse_unplaced_eq (hfirst : Token.scan first = .ok tokens)
    (hsecond : Token.scan second = .ok others)
    (h : tokens.map Token.content = others.map Token.content) :
    (parse first).mapError ParseError.unplaced =
      (parse second).mapError ParseError.unplaced := by
  have hnil : tokens = [] ↔ others = [] := by
    rw [← List.map_eq_nil_iff, h, List.map_eq_nil_iff]
  rw [parse_of_scan hfirst, parse_of_scan hsecond]
  by_cases hempty : tokens = []
  · rw [if_pos hempty, if_pos (hnil.mp hempty)]
  · rw [if_neg hempty, if_neg (hempty ∘ hnil.mpr), ← ofTokens_unplaced, ← ofTokens_unplaced,
      Token.map_unplaced_eq h]

theorem parse_ok_of_contents (hfirst : Token.scan first = .ok tokens)
    (hsecond : Token.scan second = .ok others)
    (h : tokens.map Token.content = others.map Token.content) {e : Formula}
    (hok : parse first = .ok e) : parse second = .ok e := by
  have hsame := parse_unplaced_eq hfirst hsecond h
  rw [hok] at hsame
  cases hparse : parse second with
  | ok e' =>
      rw [hparse] at hsame
      rw [Except.ok.inj hsame]
  | error error =>
      rw [hparse] at hsame
      cases hsame

theorem exists_error_of_contents (hfirst : Token.scan first = .ok tokens)
    (hsecond : Token.scan second = .ok others)
    (h : tokens.map Token.content = others.map Token.content) {error : ParseError}
    (herror : parse first = .error error) :
    ∃ error', parse second = .error error' ∧ error.unplaced = error'.unplaced := by
  have hsame := parse_unplaced_eq hfirst hsecond h
  rw [herror] at hsame
  cases hparse : parse second with
  | ok e' =>
      rw [hparse] at hsame
      cases hsame
  | error error' =>
      rw [hparse] at hsame
      exact ⟨error', rfl, Except.error.inj hsame⟩

end Expr

/-! ## Entries of the cache -/

/-- An artifact that was answered is stored. -/
theorem Cache.lookup_of_answer_eq_ok {cache : Cache} {formula : Formula} {artifact : Artifact}
    (h : (cache.getOrCompile formula).answer = .ok artifact) :
    (cache.getOrCompile formula).cache.lookup formula = some artifact := by
  cases hlookup : cache.lookup formula with
  | some stored =>
      rw [getOrCompile_of_lookup_eq_some hlookup] at h ⊢
      cases h
      exact hlookup
  | none =>
      cases hcompile : formula.compile cache.nextIdentity with
      | error error =>
          rw [getOrCompile_of_compile_eq_error hlookup hcompile] at h
          cases h
      | ok made =>
          rw [getOrCompile_of_compile_eq_ok hlookup hcompile] at h ⊢
          cases h
          exact lookup_store_self _ formula artifact

theorem lookup_of_compileText {text : String} {cache : Cache} {formula : Formula}
    {artifact : Artifact} (h : (compileText text cache).result = .ok (formula, artifact)) :
    Expr.parse text = .ok formula ∧
      (compileText text cache).cache.lookup formula = some artifact := by
  unfold compileText at h ⊢
  cases hparse : Expr.parse text with
  | error error =>
      rw [hparse] at h
      cases h
  | ok e =>
      simp only [hparse] at h
      cases hanswer : (cache.getOrCompile e).answer with
      | error error =>
          rw [hanswer] at h
          cases h
      | ok made =>
          rw [hanswer] at h
          cases h
          refine ⟨rfl, ?_⟩
          simp only [hanswer]
          exact Cache.lookup_of_answer_eq_ok hanswer

theorem compileText_of_lookup {text : String} {cache : Cache} {formula : Formula}
    {artifact : Artifact} (hparse : Expr.parse text = .ok formula)
    (hstored : cache.lookup formula = some artifact) :
    compileText text cache =
      ⟨.ok (formula, artifact), cache.countHit, [.cacheHit artifact.fingerprint]⟩ := by
  simp only [compileText, hparse, Cache.getOrCompile_of_lookup_eq_some hstored]

namespace Expr

/-- Spacing never changes a formula. The lexemes of a text, written with any white space
between them, are scanned into the same kinds and lexemes. Texts with the same kinds and lexemes
are read as the same formula, or refused with errors that differ in their columns at most; and
once one of them is compiled, the other one finds its artifact in every later cache and adds
nothing to it. -/
theorem spacing_irrelevant :
    (∀ (text : String) (tokens : List Token), Token.scan text = .ok tokens →
      ∀ spaced : String, Token.Spaced (tokens.map Token.lexeme) spaced.toList →
        ∃ scanned, Token.scan spaced = .ok scanned ∧
          scanned.map Token.content = tokens.map Token.content) ∧
    ∀ (first second : String) (tokens others : List Token),
      Token.scan first = .ok tokens → Token.scan second = .ok others →
      tokens.map Token.content = others.map Token.content →
        ((∃ e, parse first = .ok e ∧ parse second = .ok e) ∨
          ∃ error error', parse first = .error error ∧ parse second = .error error' ∧
            error.unplaced = error'.unplaced) ∧
        ∀ cache formula artifact, (compileText first cache).result = .ok (formula, artifact) →
          ∀ later, (compileText first cache).cache.Kept later →
            compileText second later =
              ⟨.ok (formula, artifact), later.countHit, [.cacheHit artifact.fingerprint]⟩ := by
  refine ⟨?_, ?_⟩
  · intro text tokens hscan spaced hspaced
    exact Token.exists_scan_spaced (Token.matches_of_scan hscan) hspaced
  · intro first second tokens others hfirst hsecond hcontents
    refine ⟨?_, ?_⟩
    · cases hparse : parse first with
      | ok e => exact .inl ⟨e, rfl, parse_ok_of_contents hfirst hsecond hcontents hparse⟩
      | error error =>
          obtain ⟨error', herror, heq⟩ :=
            exists_error_of_contents hfirst hsecond hcontents hparse
          exact .inr ⟨error, error', rfl, herror, heq⟩
    · intro cache formula artifact hresult later kept
      obtain ⟨hparse, hstored⟩ := lookup_of_compileText hresult
      exact compileText_of_lookup (parse_ok_of_contents hfirst hsecond hcontents hparse)
        (kept formula artifact hstored)

/-- A number that ends with its point and a power with two carets, with other white space
around them: the second text is scanned as the first one and gets its artifact. -/
theorem spacing_irrelevant_carets :
    (∃ scanned, Token.scan "\t2. * x\n^^ 2" = .ok scanned ∧
      scanned.map Token.content = [(.number, "2."), (.times, "*"), (.name, "x"),
        (.power, "^^"), (.number, "2")]) ∧
    ∃ formula artifact, (compileText "2.*x^^2" .empty).result = .ok (formula, artifact) ∧
      (compileText "\t2. * x\n^^ 2" (compileText "2.*x^^2" .empty).cache).result =
        .ok (formula, artifact) := by
  have hscan : Token.scan "2.*x^^2" = .ok [⟨.number, 0, 2, 1, "2."⟩, ⟨.times, 2, 3, 3, "*"⟩,
      ⟨.name, 3, 4, 4, "x"⟩, ⟨.power, 4, 6, 5, "^^"⟩, ⟨.number, 6, 7, 7, "2"⟩] := by
    decide +kernel
  have hspaced : Token.Spaced ["2.", "*", "x", "^^", "2"]
      (['\t'] ++ ("2.".toList ++ ([' '] ++ ([] ++ ("*".toList ++ ([' '] ++ ([] ++ ("x".toList ++
        (['\n'] ++ ([] ++ ("^^".toList ++ ([' '] ++ ([] ++ ("2".toList ++
          ([] ++ []))))))))))))))) := by
    refine .lexeme (by decide) (by decide) (by decide) ?_
    refine .lexeme (by decide) (by decide) (by decide) ?_
    refine .lexeme (by decide) (by decide) (by decide) ?_
    refine .lexeme (by decide) (by decide) (by decide) ?_
    exact .lexeme (by decide) (by decide) (by decide) (.blank (by decide))
  obtain ⟨scanned, hscanned, hcontents⟩ :=
    spacing_irrelevant.1 _ _ hscan "\t2. * x\n^^ 2" hspaced
  refine ⟨⟨scanned, hscanned, hcontents⟩, ?_⟩
  have hok : (compileText "2.*x^^2" .empty).result.isOk = true := by decide +kernel
  cases hresult : (compileText "2.*x^^2" .empty).result with
  | error error =>
      rw [hresult] at hok
      cases hok
  | ok made =>
      obtain ⟨formula, artifact⟩ := made
      have hshared := (spacing_irrelevant.2 _ _ _ _ hscan hscanned hcontents.symm).2
        .empty formula artifact hresult _ (.refl _)
      exact ⟨formula, artifact, rfl, by rw [hshared]⟩

end Expr

end Graphing
