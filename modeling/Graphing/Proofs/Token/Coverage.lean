import Graphing.Proofs.Token.Longest

/-!
# How tokens cover a text

A scan reads the whole text. Its tokens stand one behind the other, each is the longest one
at its place, and between them there is nothing but white space (`Covers`). It succeeds on
exactly the texts whose characters are all `isLegible`, and otherwise it names the first
character that is not (`scan_maximalMunch`).

Bytes and characters are counted side by side: a token begins at the byte and at the column
where the text before it ends. For the induction the scan is judged from any place in a text
on, with the characters before that place kept (`CoversFrom`).
-/

namespace Graphing.Token

/-! ## Bytes -/

theorem byteLength_append (front back : List Char) :
    byteLength (front ++ back) = byteLength front + byteLength back := by
  simp [byteLength]

theorem byteLength_cons (c : Char) (cs : List Char) :
    byteLength (c :: cs) = c.utf8Size + byteLength cs := by
  simp [byteLength]

theorem utf8ByteSize_ofList (cs : List Char) :
    (String.ofList cs).utf8ByteSize = byteLength cs := by
  induction cs with
  | nil => rfl
  | cons c cs ih =>
      rw [byteLength_cons, ← ih, ← List.singleton_append, String.ofList_append,
        String.utf8ByteSize_append, ← String.singleton_eq_ofList]
      simp

/-! ## Tokens and gaps -/

/-- A token fills its place in a text: its lexeme stands between what is before and what is
after it, its bytes are those of the lexeme, and its column is the one after the characters
before it. -/
structure Fills (token : Token) (text before after : String) : Prop where
  text : text = before ++ token.lexeme ++ after
  start : token.start = before.utf8ByteSize
  stop : token.stop = (before ++ token.lexeme).utf8ByteSize
  column : token.column = before.length + 1

/-- Tokens cover a text: they stand in it one behind the other and are not empty, each is the
longest one where it stands, and a character outside of them is white space. -/
structure Covers (tokens : List Token) (text : String) : Prop where
  ordered : tokens.Pairwise fun earlier later => earlier.stop ≤ later.start
  fills : ∀ token ∈ tokens, token.start < token.stop ∧ ∃ before after,
    token.Fills text before after ∧
      IsLongest (token.lexeme ++ after).toList token.kind token.lexeme.toList
  gaps : ∀ before c after, text = before ++ String.singleton c ++ after →
    (∀ token ∈ tokens, before.utf8ByteSize < token.start ∨
      token.stop ≤ before.utf8ByteSize) → isSkipped c = true

/-- A token begins where some characters end, and fills the ones that follow. -/
structure StandsAt (token : Token) (before lexeme : List Char) : Prop where
  spelling : token.lexeme = String.ofList lexeme
  start : token.start = byteLength before
  stop : token.stop = byteLength (before ++ lexeme)
  column : token.column = before.length + 1

/-- Tokens cover a text from a place on; `before` is the text up to there. -/
structure CoversFrom (before cs : List Char) (tokens : List Token) : Prop where
  ordered : tokens.Pairwise fun earlier later => earlier.stop ≤ later.start
  fills : ∀ token ∈ tokens, ∃ front lexeme after, cs = front ++ (lexeme ++ after) ∧
    token.StandsAt (before ++ front) lexeme ∧ IsLongest (lexeme ++ after) token.kind lexeme
  gaps : ∀ front c after, cs = front ++ c :: after →
    (∀ token ∈ tokens, byteLength (before ++ front) < token.start ∨
      token.stop ≤ byteLength (before ++ front)) → isSkipped c = true

namespace CoversFrom

variable {before cs : List Char} {tokens : List Token}

theorem nil (before : List Char) : CoversFrom before [] [] := by
  refine ⟨.nil, ?_, ?_⟩
  · intro token htoken
    cases htoken
  · intro front c after h
    simp at h

theorem skip {c : Char} (h : CoversFrom (before ++ [c]) cs tokens) (hc : isSkipped c = true) :
    CoversFrom before (c :: cs) tokens := by
  refine ⟨h.ordered, ?_, ?_⟩
  · intro token htoken
    obtain ⟨front, lexeme, after, rfl, hstands, hlongest⟩ := h.fills token htoken
    rw [List.append_assoc] at hstands
    exact ⟨c :: front, lexeme, after, rfl, hstands, hlongest⟩
  · intro front d after hsplit houtside
    cases front with
    | nil =>
        cases hsplit
        exact hc
    | cons _ front =>
        cases hsplit
        refine h.gaps front d after rfl ?_
        simpa using houtside

/-- A token in front of the covered part. A character outside of all tokens is not one of its
own, since each of these takes up a byte of its span. -/
theorem take {token : Token} {lexeme rest : List Char} (hstands : token.StandsAt before lexeme)
    (hlongest : IsLongest (lexeme ++ rest) token.kind lexeme)
    (h : CoversFrom (before ++ lexeme) rest tokens) :
    CoversFrom before (lexeme ++ rest) (token :: tokens) := by
  refine ⟨List.Pairwise.cons ?_ h.ordered, ?_, ?_⟩
  · intro later hlater
    obtain ⟨front, _, _, _, hlaterStands, _⟩ := h.fills later hlater
    rw [hstands.stop, hlaterStands.start, byteLength_append _ front]
    exact Nat.le_add_right _ _
  · intro other hother
    rcases List.mem_cons.mp hother with rfl | hother
    · refine ⟨[], lexeme, rest, rfl, ?_, hlongest⟩
      rw [List.append_nil]
      exact hstands
    · obtain ⟨front, word, after, rfl, hotherStands, hotherLongest⟩ := h.fills other hother
      rw [List.append_assoc] at hotherStands
      exact ⟨lexeme ++ front, word, after, by simp, hotherStands, hotherLongest⟩
  · intro front c after hsplit houtside
    rcases List.append_eq_append_iff.mp hsplit with ⟨more, rfl, hmore⟩ | ⟨more, rfl, hmore⟩
    · -- the character stands behind the token
      refine h.gaps more c after hmore ?_
      intro other hother
      rw [List.append_assoc]
      exact houtside other (List.mem_cons_of_mem token hother)
    · cases more with
      | nil =>
          refine h.gaps [] c after hmore.symm ?_
          intro other hother
          have := houtside other (List.mem_cons_of_mem token hother)
          simpa using this
      | cons d more =>
          obtain rfl : c = d := (List.cons.inj hmore).1
          have hpos := c.utf8Size_pos
          have hstart := hstands.start
          have hstop := hstands.stop
          rw [byteLength_append, byteLength_append, byteLength_cons] at hstop
          have houtside := houtside token List.mem_cons_self
          rw [byteLength_append] at houtside
          omega

end CoversFrom

/-- A scan covers the text from its place on. -/
theorem coversFrom_scanFrom {offset column : Nat} {before cs : List Char}
    {tokens : List Token} (hoffset : offset = byteLength before)
    (hcolumn : column = before.length + 1) (h : scanFrom offset column cs = .ok tokens) :
    CoversFrom before cs tokens := by
  fun_induction scanFrom offset column cs generalizing before tokens with
  | case1 =>
      cases h
      exact .nil before
  | case2 offset column c rest hskipped ih =>
      refine CoversFrom.skip (ih ?_ ?_ h) hskipped
      · rw [hoffset, byteLength_append, byteLength_cons]
        rfl
      · rw [hcolumn, List.length_append]
        rfl
  | case3 => cases h
  | case4 => cases h
  | case5 =>
      rename_i offset column c rest _ kind length hlongest lexeme stop more hmore ih
      cases h
      obtain ⟨word, hlength, hword⟩ := exists_isLongest hlongest
      -- what is taken is the longest word
      have hlexeme : lexeme = word := by
        obtain ⟨after, hsplit⟩ := hword.front
        obtain ⟨d, word, rfl⟩ := List.exists_cons_of_ne_nil (ne_nil_of_matches hword.word)
        cases hsplit
        simp [lexeme, ← hlength]
      have hrest : c :: rest = lexeme ++ rest.drop (length - 1) := by
        rw [List.cons_append, List.take_append_drop]
      rw [← hlexeme] at hword
      rw [hrest] at hword ⊢
      have hstands : StandsAt ⟨kind, offset, stop, column, String.ofList lexeme⟩ before lexeme := by
        refine ⟨rfl, hoffset, ?_, hcolumn⟩
        rw [byteLength_append, ← hoffset]
      refine CoversFrom.take hstands hword (ih hstands.stop ?_ hmore)
      rw [hcolumn, List.length_append]
      omega

/-- The tokens of a text cover it. -/
theorem covers_scan {text : String} {tokens : List Token} (h : scan text = .ok tokens) :
    Covers tokens text := by
  have hcovers : CoversFrom [] text.toList tokens := coversFrom_scanFrom rfl rfl h
  refine ⟨hcovers.ordered, ?_, ?_⟩
  · intro token htoken
    obtain ⟨front, lexeme, after, hsplit, hstands, hlongest⟩ := hcovers.fills token htoken
    rw [List.nil_append] at hstands
    refine ⟨?_, String.ofList front, String.ofList after, ⟨?_, ?_, ?_, ?_⟩, ?_⟩
    · obtain ⟨c, rest, rfl⟩ := List.exists_cons_of_ne_nil (ne_nil_of_matches hlongest.word)
      have hpos := c.utf8Size_pos
      rw [hstands.start, hstands.stop, byteLength_append, byteLength_cons]
      omega
    · rw [← String.ofList_toList (s := text), hsplit, hstands.spelling]
      simp [String.ofList_append, String.append_assoc]
    · rw [hstands.start, utf8ByteSize_ofList]
    · rw [hstands.stop, hstands.spelling, ← String.ofList_append, utf8ByteSize_ofList]
    · rw [hstands.column, String.length_ofList]
    · rw [hstands.spelling, String.toList_append, String.toList_ofList, String.toList_ofList]
      exact hlongest
  · intro before c after hsplit houtside
    refine hcovers.gaps before.toList c after.toList ?_ ?_
    · rw [hsplit]
      simp
    · intro token htoken
      have hbytes : byteLength before.toList = before.utf8ByteSize := by
        rw [← utf8ByteSize_ofList, String.ofList_toList]
      rw [List.nil_append, hbytes]
      exact houtside token htoken

/-! ## Characters that texts may hold -/

/-- The characters of symbols. -/
def punctuation : List Char :=
  ['+', '-', '*', '/', '%', '^', '(', ')', ',', '&', '|', '!', '=', '<', '>', '~', '?', ':',
    '[', ']', '\x7b', '\x7d', '.', '\x22', '\x27']

/-- The characters that a text of tokens may hold: white space, ASCII letters and digits, the
underscore and the characters of symbols. -/
def isLegible (c : Char) : Bool :=
  isSkipped c || c.isAlphanum || c == '_' || punctuation.contains c

/-- Each character of a symbol is a symbol by itself. -/
theorem any_symbols_eq (c : Char) :
    (symbols.any fun entry => entry.1 == [c]) = punctuation.contains c := by
  have hlisted : (symbols.all fun entry => entry.1.all punctuation.contains) = true := by decide
  have hsymbol : (punctuation.all fun d => symbols.any fun entry => entry.1 == [d]) = true := by
    decide
  rw [Bool.eq_iff_iff]
  constructor
  · intro h
    obtain ⟨entry, hentry, heq⟩ := List.any_eq_true.mp h
    have hall := List.all_eq_true.mp hlisted entry hentry
    rw [beq_iff_eq.mp heq] at hall
    exact List.all_eq_true.mp hall c List.mem_cons_self
  · intro h
    exact List.all_eq_true.mp hsymbol c (List.contains_iff_mem.mp h)

theorem isLegible_eq (c : Char) : isLegible c = (isSkipped c || isBeginning c) := by
  rw [isLegible, isBeginning, any_symbols_eq, isNameStart, Char.isAlphanum]
  simp only [Bool.or_assoc, Bool.or_left_comm]

/-- A scan that succeeds has passed over legible characters only. -/
theorem isLegible_of_scanFrom {offset column : Nat} {cs : List Char} {tokens : List Token}
    (h : scanFrom offset column cs = .ok tokens) : ∀ c ∈ cs, isLegible c = true := by
  fun_induction scanFrom offset column cs generalizing tokens with
  | case1 => simp
  | case2 offset column c rest hskipped ih =>
      intro d hd
      rcases List.mem_cons.mp hd with rfl | hd
      · rw [isLegible_eq, hskipped, Bool.true_or]
      · exact ih h d hd
  | case3 => cases h
  | case4 => cases h
  | case5 =>
      rename_i c rest _ kind length hlongest lexeme stop more hmore ih
      intro d hd
      rw [← List.take_append_drop (length - 1) rest, ← List.cons_append] at hd
      rcases List.mem_append.mp hd with hd | hd
      · rw [isLegible_eq, isBeginning_of_mem_lexeme hlongest hd, Bool.or_true]
      · exact ih hmore d hd

/-- The first character that is not legible, if there is one, is where a scan fails. -/
theorem scan_of_first_illegible {text : String} {front back : List Char} {c : Char}
    (hsplit : text.toList = front ++ c :: back) (hfront : ∀ d ∈ front, isLegible d = true)
    (hc : isLegible c = false) :
    scan text = .error (.strayCharacter (front.length + 1) c) := by
  cases hscan : scan text with
  | ok tokens =>
      have hlegible := isLegible_of_scanFrom hscan c (by simp [hsplit])
      rw [hc] at hlegible
      cases hlegible
  | error error =>
      obtain ⟨front', c', back', hsplit', rfl, hskipped, hbegin, hfront'⟩ :=
        exists_stray_of_scanFrom hscan
      have hc' : isLegible c' = false := by
        rw [isLegible_eq, hskipped, hbegin]
        rfl
      have hlegible' : ∀ d ∈ front', isLegible d = true := by
        intro d hd
        rw [isLegible_eq, Bool.or_eq_true]
        exact hfront' d hd
      -- both are the legible characters at the front, and what follows them
      have hstop {x : Char} {rest : List Char} (hx : isLegible x = false) :
          ∀ d ∈ (x :: rest).head?, isLegible d = false := by
        intro d hd
        cases hd
        exact hx
      have hspan := Text.span_row (c :: back) hfront (hstop hc)
      have hspan' := Text.span_row (c' :: back') hlegible' (hstop hc')
      rw [← hsplit] at hspan
      rw [← hsplit'] at hspan'
      obtain rfl : front = front' := hspan.1.symm.trans hspan'.1
      obtain rfl : c = c' := (List.cons.inj (hspan.2.symm.trans hspan'.2)).1
      rw [Nat.add_comm]

/-- A scan is exact. If it succeeds, the tokens cover the text, each being the longest one at
its place by the patterns of all kinds. It succeeds if and only if all characters are legible,
and otherwise it fails at the column of the first one that is not, naming it. -/
theorem scan_maximalMunch (text : String) :
    (∀ tokens, scan text = .ok tokens → Covers tokens text) ∧
    ((∃ tokens, scan text = .ok tokens) ↔ ∀ c ∈ text.toList, isLegible c = true) ∧
    ∀ before c after, text = before ++ String.singleton c ++ after →
      (∀ d ∈ before.toList, isLegible d = true) → isLegible c = false →
      scan text = .error (.strayCharacter (before.length + 1) c) := by
  refine ⟨fun tokens h => covers_scan h, ⟨?_, ?_⟩, ?_⟩
  · rintro ⟨tokens, h⟩
    exact isLegible_of_scanFrom h
  · intro hlegible
    cases hscan : scan text with
    | ok tokens => exact ⟨tokens, rfl⟩
    | error error =>
        obtain ⟨front, c, back, hsplit, _, hskipped, hbegin, _⟩ :=
          exists_stray_of_scanFrom hscan
        have hc := hlegible c (by simp [hsplit])
        rw [isLegible_eq, hskipped, hbegin] at hc
        cases hc
  · intro before c after hsplit hbefore hc
    rw [← String.length_toList]
    have hchars : text.toList = before.toList ++ c :: after.toList := by
      rw [hsplit]
      simp
    exact scan_of_first_illegible hchars hbefore hc

/-- An exponent without digits is none and a second point belongs to the next number, so the
scan goes back to where the longest token ended; of `<<=` the first two characters are one. -/
theorem scan_maximalMunch_backtracking :
    let tokens : List Token :=
      [⟨.number, 0, 1, 1, "1"⟩, ⟨.name, 1, 2, 2, "e"⟩, ⟨.plus, 2, 3, 3, "+"⟩,
        ⟨.number, 4, 8, 5, "1.e5"⟩, ⟨.foreign .member, 8, 9, 9, "."⟩,
        ⟨.number, 9, 11, 10, ".5"⟩, ⟨.foreign .bitwise, 11, 13, 12, "<<"⟩,
        ⟨.foreign .assignment, 13, 14, 14, "="⟩]
    scan "1e+ 1.e5..5<<=" = .ok tokens ∧ Covers tokens "1e+ 1.e5..5<<=" := by
  intro tokens
  have h : scan "1e+ 1.e5..5<<=" = .ok tokens := by decide +kernel
  exact ⟨h, (scan_maximalMunch "1e+ 1.e5..5<<=").1 tokens h⟩

end Graphing.Token
