import Graphing.Expr.Printer
import Graphing.Proofs.Expr.Acceptance
import Graphing.Proofs.Token.Scanning

/-!
# Characters that spell a formula

`Spells phrase cs e` joins the scanner and the grammar: wherever the characters `cs` stand
in a text, in front of a break, they are scanned into tokens that derive `e`. There is
one rule for each rule of the grammar, with the spacing of printed formulas, and a text
that spells a formula within the depth budget is parsed as that formula.
-/

namespace Graphing

open Token

/-- Characters that are scanned into a phrase, whatever breaks them off. -/
structure Spells (phrase : Phrase) (cs : List Char) (e : Formula) : Prop where
  inked : ∃ c ∈ cs, Text.isBlankChar c = false
  scanned : ∀ (start : Cursor) (tail : List Char), start.rest = cs ++ tail → Breaks tail →
    ∃ (printed : List Token) (stop : Cursor), stop.rest = tail ∧ start.Reaches printed stop ∧
      (∀ token ∈ printed, token.Readable) ∧
      ∀ rest, ¬ OpensParen rest → Derives phrase (printed ++ rest) e rest

/-- A symbol that stands for itself is scanned into a token of its kind. -/
theorem Token.Cursor.exists_reaches_loneSymbol {start : Cursor} {c : Char} {kind : TokenKind}
    {rest : List Char} (hc : (c, kind) ∈ loneSymbols) (h : start.rest = c :: rest) :
    ∃ (token : Token) (stop : Cursor), token.kind = kind ∧ stop.rest = rest ∧
      start.Reaches [token] stop := by
  obtain ⟨hlongest, hskip⟩ := longest?_loneSymbol hc rest
  have hrest : start.rest = [c] ++ rest := h
  obtain ⟨token, stop, hk, _, hstop, hreach⟩ :=
    Cursor.exists_reaches_token hrest hskip hlongest
  exact ⟨token, stop, hk, hstop, hreach⟩

theorem not_opensParen_cons {token : Token} {kind : TokenKind} (h : token.kind = kind)
    (hk : kind ≠ .openParen) (rest : List Token) : ¬ OpensParen (token :: rest) := by
  rintro ⟨t, ht, ho⟩
  cases ht
  exact hk (h.symm.trans ho)

namespace Spells

variable {phrase : Phrase} {cs ds : List Char} {e l r : Formula} {level : ChainLevel}

theorem first (h : Spells level.operandPhrase cs e) : Spells (.chain level) cs e := by
  refine ⟨h.inked, ?_⟩
  intro start tail hrest hb
  obtain ⟨printed, stop, hstop, hreach, hread, hderives⟩ := h.scanned start tail hrest hb
  exact ⟨printed, stop, hstop, hreach, hread, fun rest hr => .first (hderives rest hr)⟩

theorem unsigned (h : Spells .primary cs e) : Spells .signed cs e := by
  refine ⟨h.inked, ?_⟩
  intro start tail hrest hb
  obtain ⟨printed, stop, hstop, hreach, hread, hderives⟩ := h.scanned start tail hrest hb
  exact ⟨printed, stop, hstop, hreach, hread, fun rest hr => .unsigned (hderives rest hr)⟩

/-- An operator stands between blanks. -/
theorem next (op : Operator) (hl : Spells (.chain op.level) cs l)
    (hr : Spells op.level.operandPhrase ds r) :
    Spells (.chain op.level) (cs ++ (' ' :: op.symbol.toList) ++ ' ' :: ds)
      (.binary op l r) := by
  constructor
  · obtain ⟨c, hc, hblank⟩ := hl.inked
    exact ⟨c, List.mem_append_left _ (List.mem_append_left _ hc), hblank⟩
  · intro start tail hrest hb
    obtain ⟨c, kind, hsymbol, hskip, hjoins, hlongest⟩ := longest?_symbol op (ds ++ tail)
    rw [hsymbol] at hrest
    obtain ⟨left, afterLeft, hafterLeft, hreachLeft, hreadLeft, hleft⟩ :=
      hl.scanned start (' ' :: c :: ' ' :: (ds ++ tail)) (by simpa using hrest)
        (breaks_cons (by decide) (by decide) _)
    -- the operator and the blanks around it
    obtain ⟨beforeOp, hbeforeOp, hreachBlank⟩ :=
      Cursor.exists_reaches_skipped hafterLeft (by decide)
    have hop : beforeOp.rest = [c] ++ ' ' :: (ds ++ tail) := hbeforeOp
    obtain ⟨token, afterOp, hk, _, hafterOp, hreachOp⟩ :=
      Cursor.exists_reaches_token hop hskip hlongest
    obtain ⟨beforeRight, hbeforeRight, hreachBlank'⟩ :=
      Cursor.exists_reaches_skipped hafterOp (by decide)
    obtain ⟨right, stop, hstop, hreachRight, hreadRight, hright⟩ :=
      hr.scanned beforeRight tail hbeforeRight hb
    have hreach := hreachLeft.trans (hreachBlank.trans (hreachOp.trans
      (hreachBlank'.trans hreachRight)))
    simp only [List.nil_append, List.singleton_append] at hreach
    have hkinds := hjoins.kind_ne
    refine ⟨left ++ token :: right, stop, hstop, hreach, ?_, ?_⟩
    · intro t ht
      rcases List.mem_append.mp ht with ht | ht
      · exact hreadLeft t ht
      · rcases List.mem_cons.mp ht with rfl | ht
        · exact Token.readable_of_kind hk hkinds.1
        · exact hreadRight t ht
    · intro rest hr
      rw [List.append_assoc, List.cons_append]
      refine .next (hleft _ (not_opensParen_cons hk hkinds.2 _)) ?_ (hright rest hr)
      rw [hk]
      exact hjoins

/-- A sign stands right in front of its operand. -/
theorem sign {c : Char} {kind : TokenKind} {signed : Formula → Formula}
    (hc : (c, kind) ∈ loneSymbols) (hkind : kind ≠ .number) (hink : Text.isBlankChar c = false)
    (hrule : ∀ {token tokens e rest}, token.kind = kind → Derives .signed tokens e rest →
      Derives .signed (token :: tokens) (signed e) rest)
    (h : Spells .signed cs e) : Spells .signed (c :: cs) (signed e) := by
  refine ⟨⟨c, List.mem_cons_self, hink⟩, ?_⟩
  intro start tail hrest hb
  obtain ⟨token, afterSign, hk, hafterSign, hreachSign⟩ :=
    Cursor.exists_reaches_loneSymbol hc hrest
  obtain ⟨printed, stop, hstop, hreach, hread, hderives⟩ :=
    h.scanned afterSign tail hafterSign hb
  refine ⟨token :: printed, stop, hstop, hreachSign.trans hreach, ?_, ?_⟩
  · intro t ht
    rcases List.mem_cons.mp ht with rfl | ht
    · exact Token.readable_of_kind hk hkind
    · exact hread t ht
  · exact fun rest hr => hrule hk (hderives rest hr)

theorem minus (h : Spells .signed cs e) : Spells .signed ('-' :: cs) (.neg e) :=
  sign (by decide) (by decide) (by decide) .minus h

theorem plus (h : Spells .signed cs e) : Spells .signed ('+' :: cs) (.pos e) :=
  sign (by decide) (by decide) (by decide) .plus h

theorem number {d : Decimal} (h : Decimal.Positional cs d) (hf : d.toBinary64.isFinite = true) :
    Spells .primary cs (.lit d.toBinary64) := by
  obtain ⟨c, part, rfl, hc⟩ : ∃ c part, cs = c :: part ∧ c.isDigit = true := by
    cases h with
    | whole hne hds =>
        obtain ⟨c, part, rfl⟩ := List.exists_cons_of_ne_nil hne
        exact ⟨c, part, rfl, hds c List.mem_cons_self⟩
    | pointed hne hds _ =>
        obtain ⟨c, part, rfl⟩ := List.exists_cons_of_ne_nil hne
        exact ⟨c, _, rfl, hds c List.mem_cons_self⟩
  obtain ⟨⟨hlow, hhigh⟩, _⟩ := isNamePart_cases (isNamePart_of_isDigit hc)
  refine ⟨⟨c, List.mem_cons_self, isBlankChar_eq_false (by omega) (by omega)⟩, ?_⟩
  intro start tail hrest hb
  obtain ⟨token, stop, hk, hlexeme, hstop, hreach⟩ := Cursor.exists_reaches_token hrest
    (isSkipped_eq_false (by omega)) (longest?_positional h hb)
  have hvalue : token.value? = some d.toBinary64 := by
    rw [Token.value?, hlexeme, String.toList_ofList, h.read?_eq]
    rfl
  refine ⟨[token], stop, hstop, hreach, ?_, ?_⟩
  · intro t ht
    rw [List.mem_singleton.mp ht]
    exact fun _ => ⟨_, hvalue, hf⟩
  · exact fun rest _ => .number hk hvalue

/-- A name is scanned whole if no character of a name follows. -/
theorem exists_reaches_name {start : Cursor} {rest : List Char} (h : IsName cs)
    (hrest : start.rest = cs ++ rest) (hb : ∀ c ∈ rest.head?, isNamePart c = false) :
    ∃ (token : Token) (stop : Cursor), token.kind = .name ∧
      token.lexeme = String.ofList cs ∧ stop.rest = rest ∧ start.Reaches [token] stop := by
  have hlongest := longest?_name h hb
  obtain ⟨c, part, rfl, hc, _⟩ := h
  obtain ⟨⟨hlow, _⟩, _⟩ := isNamePart_cases (isNamePart_of_isNameStart hc)
  exact Cursor.exists_reaches_token hrest (isSkipped_eq_false (by omega)) hlongest

theorem exists_ink_of_isName (h : IsName cs) : ∃ c ∈ cs, Text.isBlankChar c = false := by
  obtain ⟨c, part, rfl, hc, _⟩ := h
  obtain ⟨⟨hlow, hhigh⟩, _⟩ := isNamePart_cases (isNamePart_of_isNameStart hc)
  exact ⟨c, List.mem_cons_self, isBlankChar_eq_false (by omega) (by omega)⟩

theorem name (h : IsName cs) : Spells .primary cs (.ident (String.ofList cs)) := by
  refine ⟨exists_ink_of_isName h, ?_⟩
  intro start tail hrest hb
  obtain ⟨token, stop, hk, hlexeme, hstop, hreach⟩ :=
    exists_reaches_name h hrest (fun c hc => (hb c hc).1)
  refine ⟨[token], stop, hstop, hreach, ?_, ?_⟩
  · intro t ht
    rw [List.mem_singleton.mp ht]
    exact Token.readable_of_kind hk (by decide)
  · intro rest hr
    rw [← hlexeme]
    exact .name hk hr

/-- What stands between parentheses is scanned up to the closing one. -/
theorem exists_reaches_parenthesized (h : Spells (.chain .sum) cs e) {start : Cursor}
    {tail : List Char} (hrest : start.rest = Expr.parenthesized cs ++ tail) :
    ∃ (opening closing : Token) (printed : List Token) (stop : Cursor),
      opening.kind = .openParen ∧ closing.kind = .closeParen ∧ stop.rest = tail ∧
      start.Reaches (opening :: printed ++ [closing]) stop ∧
      (∀ token ∈ opening :: printed ++ [closing], token.Readable) ∧
      ∀ rest, Derives (.chain .sum) (printed ++ closing :: rest) e (closing :: rest) := by
  rw [Expr.parenthesized, List.cons_append, List.cons_append] at hrest
  obtain ⟨opening, afterOpening, ho, hafterOpening, hreachOpening⟩ :=
    Cursor.exists_reaches_loneSymbol
      (show ('(', TokenKind.openParen) ∈ loneSymbols by decide) hrest
  obtain ⟨printed, afterInner, hafterInner, hreachInner, hread, hderives⟩ :=
    h.scanned afterOpening (')' :: tail) (by simpa using hafterOpening)
      (breaks_cons (by decide) (by decide) _)
  obtain ⟨closing, stop, hc, hstop, hreachClosing⟩ :=
    Cursor.exists_reaches_loneSymbol
      (show (')', TokenKind.closeParen) ∈ loneSymbols by decide) hafterInner
  refine ⟨opening, closing, printed, stop, ho, hc, hstop,
    (hreachOpening.trans hreachInner).trans hreachClosing, ?_,
    fun rest => hderives _ (not_opensParen_cons hc (by decide) rest)⟩
  intro t ht
  rcases List.mem_append.mp ht with ht | ht
  · rcases List.mem_cons.mp ht with rfl | ht
    · exact Token.readable_of_kind ho (by decide)
    · exact hread t ht
  · rw [List.mem_singleton.mp ht]
    exact Token.readable_of_kind hc (by decide)

theorem group (h : Spells (.chain .sum) cs e) :
    Spells .primary (Expr.parenthesized cs) (.group e) := by
  refine ⟨⟨'(', List.mem_cons_self, by decide⟩, ?_⟩
  intro start tail hrest _
  obtain ⟨opening, closing, printed, stop, ho, hc, hstop, hreach, hread, hderives⟩ :=
    h.exists_reaches_parenthesized hrest
  refine ⟨opening :: printed ++ [closing], stop, hstop, hreach, hread, ?_⟩
  intro rest _
  rw [List.append_assoc, List.singleton_append, List.cons_append]
  exact .group ho (hderives rest) hc

theorem call (hn : IsName ds) (h : Spells (.chain .sum) cs e) :
    Spells .primary (ds ++ Expr.parenthesized cs) (.call (String.ofList ds) e) := by
  constructor
  · obtain ⟨c, hc, hink⟩ := exists_ink_of_isName hn
    exact ⟨c, List.mem_append_left _ hc, hink⟩
  · intro start tail hrest _
    rw [List.append_assoc] at hrest
    obtain ⟨token, afterName, hk, hlexeme, hafterName, hreachName⟩ :=
      exists_reaches_name hn hrest (by
        intro c hc
        cases hc
        decide)
    obtain ⟨opening, closing, printed, stop, ho, hc, hstop, hreach, hread, hderives⟩ :=
      h.exists_reaches_parenthesized hafterName
    refine ⟨token :: (opening :: printed ++ [closing]), stop, hstop, hreachName.trans hreach,
      ?_, ?_⟩
    · intro t ht
      rcases List.mem_cons.mp ht with rfl | ht
      · exact Token.readable_of_kind hk (by decide)
      · exact hread t ht
    · intro rest _
      rw [List.cons_append, List.append_assoc, List.singleton_append, List.cons_append,
        ← hlexeme]
      exact .call hk ho (hderives rest) hc

/-- Characters that spell a formula are scanned as a whole into tokens that derive it. -/
theorem exists_scan (h : Spells (.chain .sum) cs e) :
    Text.isBlank (String.ofList cs) = false ∧
    ∃ tokens, Token.scan (String.ofList cs) = .ok tokens ∧
      (∀ token ∈ tokens, token.Readable) ∧ Derives (.chain .sum) tokens e [] := by
  constructor
  · obtain ⟨c, hc, hink⟩ := h.inked
    rw [Text.isBlank, String.toList_ofList, List.all_eq_false]
    exact ⟨c, hc, by simp [hink]⟩
  · obtain ⟨printed, stop, hstop, hreach, hread, hderives⟩ :=
      h.scanned ⟨0, 1, cs⟩ [] (List.append_nil cs).symm breaks_nil
    have hend : stop.scan = .ok [] := by
      rw [Cursor.scan, hstop, scanFrom]
    have hall := hreach [] hend
    have hd := hderives [] (by simp [OpensParen])
    rw [List.append_nil] at hall hd
    refine ⟨printed, ?_, hread, hd⟩
    rw [Token.scan, String.toList_ofList]
    exact hall

/-- Characters that spell a formula within the depth budget are parsed as the formula. -/
theorem parse_eq_ok (h : Spells (.chain .sum) cs e)
    (named : ∀ name ∈ e.calledNames, Builtin.Named name)
    (shallow : e.deepest ≤ Parser.depthBudget) : Expr.parse (String.ofList cs) = .ok e := by
  obtain ⟨hblank, tokens, hscan, hread, hderives⟩ := h.exists_scan
  exact Expr.parse_eq_ok_iff_reads.mpr ⟨hblank, tokens, hscan, hderives,
    fun token ht => .inl (hread token ht), named, shallow⟩

end Spells

end Graphing
