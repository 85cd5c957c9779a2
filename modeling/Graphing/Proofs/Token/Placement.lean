import Graphing.Proofs.Token.Scanning

/-!
# Where tokens stand

Scanning takes the text apart and loses nothing of where a piece came from. A scan that
succeeds gives tokens in the order of their columns, each of which stands in the text at its
column (`scan_placed`). A scan that fails does so at the first character of the text that is
neither white space nor the beginning of any token (`scan_stray`): a character inside a token
could begin one as well, so the scan never passes over a character that it would have refused
elsewhere.
-/

namespace Graphing.Token

/-! ## Characters that tokens begin with -/

/-- Some token begins with the character. -/
def Begins (c : Char) : Prop :=
  ∃ rest, longest? (c :: rest) ≠ none

/-- The characters that numbers, names and symbols begin with. -/
def isBeginning (c : Char) : Bool :=
  c.isDigit || isNameStart c || symbols.any fun entry => entry.1 == [c]

/-- A symbol that begins with some character stands beside one that is this character alone. -/
theorem mem_symbols_of_cons {c : Char} {cs : List Char} {kind : TokenKind}
    (h : (c :: cs, kind) ∈ symbols) : (symbols.any fun entry => entry.1 == [c]) = true := by
  have htable : ∀ entry ∈ symbols,
      (symbols.any fun other => other.1 == entry.1.take 1) = true := by decide
  simpa using htable _ h

theorem symbolAt?_eq_none_iff {c : Char} {rest : List Char} :
    symbolAt? (c :: rest) = none ↔ (symbols.any fun entry => entry.1 == [c]) = false := by
  have hnonempty : ∀ entry ∈ symbols, entry.1 ≠ [] := by decide
  rw [symbolAt?, Option.map_eq_none_iff, List.find?_eq_none, List.any_eq_false]
  constructor
  · intro h entry hentry heq
    apply h entry hentry
    rw [beq_iff_eq.mp heq]
    simp
  · intro h entry hentry hle
    obtain ⟨lexeme, kind⟩ := entry
    cases lexeme with
    | nil => exact hnonempty _ hentry rfl
    | cons d ds =>
        have heq : d = c := by
          simp only [List.isPrefixOf_cons_cons, Bool.and_eq_true, beq_iff_eq] at hle
          exact hle.1
        subst heq
        obtain ⟨lone, hlone, hone⟩ := List.any_eq_true.mp (mem_symbols_of_cons hentry)
        exact h lone hlone hone

theorem numberLength_ne_zero {c : Char} (h : c.isDigit = true) (rest : List Char) :
    numberLength (c :: rest) ≠ 0 := by
  have hcount : digitCount (c :: rest) ≠ 0 := by simp [digitCount, h]
  simp only [numberLength]
  split
  · rw [if_neg (by omega)]
    omega
  · rw [if_neg hcount]
    omega

/-- Whether a token begins is settled by its first character. -/
theorem longest?_eq_none_iff {c : Char} {rest : List Char} :
    longest? (c :: rest) = none ↔ isBeginning c = false := by
  simp only [isBeginning, Bool.or_eq_false_iff]
  constructor
  · intro h
    unfold longest? at h
    split at h
    · cases h
    · rename_i hnumber
      split at h
      · cases h
      · rename_i hname
        refine ⟨⟨?_, ?_⟩, symbolAt?_eq_none_iff.mp h⟩
        · -- a digit alone would be a number
          rw [Bool.eq_false_iff]
          intro hdigit
          exact hnumber (numberLength_ne_zero hdigit rest)
        · rw [Bool.eq_false_iff]
          intro hstart
          exact hname (by simp [nameLength, hstart])
  · rintro ⟨⟨hdigit, hstart⟩, hsymbol⟩
    have hpoint : c ≠ '.' := by
      rintro rfl
      revert hsymbol
      decide
    have hname : nameLength (c :: rest) = 0 := by simp [nameLength, hstart]
    rw [longest?, numberLength_eq_zero hdigit hpoint, hname, if_neg (by simp),
      if_neg (by simp)]
    exact symbolAt?_eq_none_iff.mpr hsymbol

theorem begins_iff {c : Char} : Begins c ↔ isBeginning c = true := by
  simp only [Begins, ne_eq, longest?_eq_none_iff, exists_const, Bool.not_eq_false]

/-! ## Characters inside tokens -/

theorem isDigit_of_mem_take {cs : List Char} {d : Char} (h : d ∈ cs.take (digitCount cs)) :
    d.isDigit = true := by
  rw [digitCount, ← List.prefix_iff_eq_take.mp (List.takeWhile_prefix Char.isDigit)] at h
  exact List.all_eq_true.mp List.all_takeWhile d h

theorem isBeginning_of_isDigit {c : Char} (h : c.isDigit = true) : isBeginning c = true := by
  simp [isBeginning, h]

theorem isBeginning_of_isNamePart {c : Char} (h : isNamePart c = true) :
    isBeginning c = true := by
  simp only [isNamePart, Char.isAlphanum, Bool.or_eq_true] at h
  simp only [isBeginning, isNameStart, Bool.or_eq_true]
  rcases h with (halpha | hdigit) | hline
  · exact .inl (.inr (.inl halpha))
  · exact .inl (.inl hdigit)
  · exact .inl (.inr (.inr hline))

theorem isBeginning_of_mem_exponent {cs : List Char} {d : Char}
    (h : d ∈ cs.take (exponentLength cs)) : isBeginning d = true := by
  unfold exponentLength at h
  split at h
  · rename_i c sign rest
    split at h
    · rename_i hletter
      have hc : isBeginning c = true := by
        simp only [Bool.or_eq_true, beq_iff_eq] at hletter
        rcases hletter with rfl | rfl <;> decide
      split at h
      · rename_i hsign
        split at h
        · cases h
        · rw [List.take_succ_cons, List.take_succ_cons] at h
          rcases List.mem_cons.mp h with rfl | h
          · exact hc
          rcases List.mem_cons.mp h with rfl | h
          · simp only [Bool.or_eq_true, beq_iff_eq] at hsign
            rcases hsign with rfl | rfl <;> decide
          · exact isBeginning_of_isDigit (isDigit_of_mem_take h)
      · split at h
        · cases h
        · rw [List.take_succ_cons] at h
          rcases List.mem_cons.mp h with rfl | h
          · exact hc
          · exact isBeginning_of_isDigit (isDigit_of_mem_take h)
    · cases h
  · cases h

theorem isBeginning_of_mem_number {cs : List Char} {d : Char}
    (h : d ∈ cs.take (numberLength cs)) : isBeginning d = true := by
  simp only [numberLength] at h
  split at h
  · rename_i rest hrest
    split at h
    · cases h
    · -- the whole part, the point, the fraction and the exponent, one after the other
      rw [Nat.add_assoc, Nat.add_assoc, List.take_add, hrest, Nat.add_comm 1,
        List.take_succ_cons, List.take_add] at h
      simp only [List.mem_append, List.mem_cons] at h
      rcases h with h | rfl | h | h
      · exact isBeginning_of_isDigit (isDigit_of_mem_take h)
      · decide
      · exact isBeginning_of_isDigit (isDigit_of_mem_take h)
      · exact isBeginning_of_mem_exponent h
  · split at h
    · cases h
    · rw [List.take_add, List.mem_append] at h
      rcases h with h | h
      · exact isBeginning_of_isDigit (isDigit_of_mem_take h)
      · exact isBeginning_of_mem_exponent h

theorem isBeginning_of_mem_symbol {cs : List Char} {kind : TokenKind} {length : Nat}
    (h : symbolAt? cs = some (kind, length)) {d : Char} (hd : d ∈ cs.take length) :
    isBeginning d = true := by
  have htable : (symbols.all fun entry => entry.1.all isBeginning) = true := by decide
  obtain ⟨entry, hfind, heq⟩ := Option.map_eq_some_iff.mp h
  cases heq
  have hfound := List.find?_some hfind
  have hle : entry.1 <+: cs := List.isPrefixOf_iff_prefix.mp hfound
  rw [← List.prefix_iff_eq_take.mp hle] at hd
  have hentry := List.all_eq_true.mp htable entry (List.mem_of_find?_eq_some hfind)
  exact List.all_eq_true.mp hentry d hd

theorem isBeginning_of_mem_take {c : Char} {rest : List Char} {kind : TokenKind}
    {length : Nat} (h : longest? (c :: rest) = some (kind, length)) {d : Char}
    (hd : d ∈ (c :: rest).take length) : isBeginning d = true := by
  unfold longest? at h
  split at h
  · cases h
    exact isBeginning_of_mem_number hd
  · split at h
    · rename_i hname
      cases h
      have hstart : isNameStart c = true := by
        cases hc : isNameStart c with
        | true => rfl
        | false => exact absurd (by simp [nameLength, hc]) hname
      rw [nameLength, if_pos hstart, List.take_succ_cons,
        ← List.prefix_iff_eq_take.mp (List.takeWhile_prefix isNamePart)] at hd
      rcases List.mem_cons.mp hd with rfl | hpart
      · exact isBeginning_of_isNamePart (isNamePart_of_isNameStart hstart)
      · exact isBeginning_of_isNamePart (List.all_eq_true.mp List.all_takeWhile d hpart)
    · exact isBeginning_of_mem_symbol h hd

/-- Every character of a token could begin one. -/
theorem isBeginning_of_mem_lexeme {c : Char} {rest : List Char} {kind : TokenKind}
    {length : Nat} (h : longest? (c :: rest) = some (kind, length)) {d : Char}
    (hd : d ∈ c :: rest.take (length - 1)) : isBeginning d = true := by
  rcases List.mem_cons.mp hd with rfl | hd
  · rw [← Bool.not_eq_false, ← longest?_eq_none_iff, h]
    simp
  · cases length with
    | zero => cases hd
    | succ length =>
        refine isBeginning_of_mem_take h ?_
        rw [List.take_succ_cons]
        exact List.mem_cons_of_mem c hd

/-! ## Scans that succeed -/

/-- The lexeme of a token is the text that stands at its column. -/
structure StandsIn (token : Token) (cs : List Char) : Prop where
  column_pos : 1 ≤ token.column
  nonempty : token.lexeme.toList ≠ []
  text : token.lexeme.toList <+: cs.drop (token.column - 1)

/-- A token ends before the text does. -/
theorem StandsIn.column_le {token : Token} {cs : List Char} (h : token.StandsIn cs) :
    token.column ≤ cs.length := by
  have hlength := h.text.length_le
  have hpos := List.length_pos_iff.mpr h.nonempty
  have hcolumn := h.column_pos
  rw [List.length_drop] at hlength
  omega

/-- Tokens that were scanned from a column on stand at increasing columns, with the text of
their lexemes there. -/
structure Placed (column : Nat) (cs : List Char) (tokens : List Token) : Prop where
  ordered : tokens.Pairwise fun earlier later => earlier.column < later.column
  stands : ∀ token ∈ tokens, column ≤ token.column ∧ token.lexeme.toList ≠ [] ∧
    token.lexeme.toList <+: cs.drop (token.column - column)

theorem Placed.skip {column : Nat} {cs : List Char} {tokens : List Token} (front : List Char)
    (h : Placed (column + front.length) cs tokens) : Placed column (front ++ cs) tokens := by
  refine ⟨h.ordered, ?_⟩
  intro token htoken
  obtain ⟨hcolumn, hnonempty, htext⟩ := h.stands token htoken
  refine ⟨by omega, hnonempty, ?_⟩
  have hsplit : token.column - column =
      front.length + (token.column - (column + front.length)) := by omega
  rw [hsplit, List.drop_append, List.drop_of_length_le (by omega), List.nil_append]
  simpa using htext

theorem placed_scanFrom {offset column : Nat} {cs : List Char} {tokens : List Token}
    (h : scanFrom offset column cs = .ok tokens) : Placed column cs tokens := by
  fun_induction scanFrom offset column cs generalizing tokens with
  | case1 =>
      cases h
      exact ⟨.nil, fun _ htoken => by cases htoken⟩
  | case2 offset column c rest _ ih => exact Placed.skip [c] (ih h)
  | case3 => cases h
  | case4 => cases h
  | case5 =>
      rename_i column c rest _ kind length _ lexeme stop more hmore ih
      cases h
      have hsplit : c :: rest = lexeme ++ rest.drop (length - 1) := by
        rw [List.cons_append, List.take_append_drop]
      have hrest := ih hmore
      have hpos : 0 < lexeme.length := Nat.succ_pos _
      refine ⟨List.Pairwise.cons ?_ hrest.ordered, ?_⟩
      · intro token htoken
        have hcolumn := (hrest.stands token htoken).1
        show column < token.column
        omega
      · intro token htoken
        rcases List.mem_cons.mp htoken with rfl | htoken
        · refine ⟨Nat.le_refl _, by simp [lexeme], ?_⟩
          rw [String.toList_ofList, hsplit, Nat.sub_self, List.drop_zero]
          exact List.prefix_append _ _
        · rw [hsplit]
          exact (Placed.skip lexeme hrest).stands token htoken

/-- The tokens of a text stand in it, from left to right. -/
theorem scan_placed {text : String} {tokens : List Token} (h : scan text = .ok tokens) :
    (tokens.Pairwise fun earlier later => earlier.column < later.column) ∧
      ∀ token ∈ tokens, token.StandsIn text.toList := by
  have hplaced := placed_scanFrom h
  refine ⟨hplaced.ordered, ?_⟩
  intro token htoken
  obtain ⟨hcolumn, hnonempty, htext⟩ := hplaced.stands token htoken
  exact ⟨hcolumn, hnonempty, htext⟩

/-- Among tokens in the order of their columns, another one than a given token stands before
it or at a larger column. -/
theorem column_cases {before after : List Token} {token : Token}
    (h : (before ++ token :: after).Pairwise fun earlier later =>
      earlier.column < later.column)
    {other : Token} (hother : other ∈ before ++ token :: after) :
    other = token ∨ (other ∈ before ∧ other.column < token.column) ∨
      token.column < other.column := by
  obtain ⟨_, hafter, hbefore⟩ := List.pairwise_append.mp h
  rcases List.mem_append.mp hother with hmem | hmem
  · exact .inr (.inl ⟨hmem, hbefore other hmem token List.mem_cons_self⟩)
  rcases List.mem_cons.mp hmem with rfl | hmem
  · exact .inl rfl
  · exact .inr (.inr (List.rel_of_pairwise_cons hafter hmem))

/-! ## Scans that fail -/

/-- A failed scan points at a character that no token begins with, after white space and
characters that tokens may begin with. -/
theorem exists_stray_of_scanFrom {offset column : Nat} {cs : List Char} {error : ParseError}
    (h : scanFrom offset column cs = .error error) :
    ∃ front c back, cs = front ++ c :: back ∧
      error = .strayCharacter (column + front.length) c ∧ isSkipped c = false ∧
      isBeginning c = false ∧ ∀ d ∈ front, isSkipped d = true ∨ isBeginning d = true := by
  fun_induction scanFrom offset column cs generalizing error with
  | case1 => cases h
  | case2 offset column c rest hskipped ih =>
      obtain ⟨front, stray, back, rfl, rfl, hstray, hbegin, hfront⟩ := ih h
      refine ⟨c :: front, stray, back, rfl, ?_, hstray, hbegin, ?_⟩
      · rw [List.length_cons]
        congr 1
        omega
      · intro d hd
        rcases List.mem_cons.mp hd with rfl | hd
        · exact .inl hskipped
        · exact hfront d hd
  | case3 offset column c rest hskipped hnone =>
      cases h
      refine ⟨[], c, rest, rfl, rfl, by simpa using hskipped,
        longest?_eq_none_iff.mp hnone, ?_⟩
      intro d hd
      cases hd
  | case4 =>
      rename_i column c rest _ kind length hlongest lexeme stop failure hmore ih
      cases h
      obtain ⟨front, stray, back, hback, rfl, hstray, hbegin, hfront⟩ := ih hmore
      refine ⟨lexeme ++ front, stray, back, ?_, ?_, hstray, hbegin, ?_⟩
      · rw [List.append_assoc, ← hback, List.cons_append, List.take_append_drop]
      · rw [List.length_append]
        congr 1
        omega
      · intro d hd
        rcases List.mem_append.mp hd with hd | hd
        · exact .inr (isBeginning_of_mem_lexeme hlongest hd)
        · exact hfront d hd
  | case5 => cases h

/-- A text that is no list of tokens is refused for its first character that is neither white
space nor the beginning of a token. -/
theorem scan_stray {text : String} {error : ParseError} (h : scan text = .error error) :
    ∃ front c back, text.toList = front ++ c :: back ∧
      error = .strayCharacter (front.length + 1) c ∧ isSkipped c = false ∧ ¬ Begins c ∧
      ∀ d ∈ front, isSkipped d = true ∨ Begins d := by
  obtain ⟨front, c, back, hsplit, rfl, hc, hbegin, hfront⟩ := exists_stray_of_scanFrom h
  refine ⟨front, c, back, hsplit, by rw [Nat.add_comm], hc, ?_, ?_⟩
  · rw [begins_iff, hbegin]
    simp
  · intro d hd
    rw [begins_iff]
    exact hfront d hd

/-! ## Texts that are not blank -/

/-- A text with a token in it holds a character that tokens begin with. -/
theorem exists_isBeginning_of_scanFrom {offset column : Nat} {cs : List Char}
    {tokens : List Token} (h : scanFrom offset column cs = .ok tokens) (hne : tokens ≠ []) :
    ∃ c ∈ cs, isBeginning c = true := by
  fun_induction scanFrom offset column cs with
  | case1 =>
      cases h
      exact absurd rfl hne
  | case2 offset column c rest _ ih =>
      obtain ⟨d, hd, hbegin⟩ := ih h
      exact ⟨d, List.mem_cons_of_mem c hd, hbegin⟩
  | case3 => cases h
  | case4 => cases h
  | case5 =>
      rename_i c rest _ kind length hlongest _ _ _ _ _
      exact ⟨c, List.mem_cons_self, isBeginning_of_mem_lexeme hlongest List.mem_cons_self⟩

theorem isBlankChar_of_isBeginning {c : Char} (h : isBeginning c = true) :
    Text.isBlankChar c = false := by
  have htable : (symbols.all fun entry =>
      entry.1.all fun d => decide (33 ≤ d.toNat) && decide (d.toNat ≤ 126)) = true := by decide
  simp only [isBeginning, Bool.or_eq_true] at h
  rcases h with (hdigit | hstart) | hsymbol
  · have hrange := (isNamePart_cases (isNamePart_of_isDigit hdigit)).1
    exact isBlankChar_eq_false (by omega) (by omega)
  · have hrange := (isNamePart_cases (isNamePart_of_isNameStart hstart)).1
    exact isBlankChar_eq_false (by omega) (by omega)
  · obtain ⟨entry, hentry, heq⟩ := List.any_eq_true.mp hsymbol
    have hall := List.all_eq_true.mp (List.all_eq_true.mp htable entry hentry) c
      (by simp [beq_iff_eq.mp heq])
    obtain ⟨hlow, hhigh⟩ := Bool.and_eq_true_iff.mp hall
    exact isBlankChar_eq_false (of_decide_eq_true hlow) (of_decide_eq_true hhigh)

/-- A text with a token in it is not blank. -/
theorem isBlank_of_scan {text : String} {tokens : List Token} (h : scan text = .ok tokens)
    (hne : tokens ≠ []) : Text.isBlank text = false := by
  obtain ⟨c, hc, hbegin⟩ := exists_isBeginning_of_scanFrom h hne
  rw [Text.isBlank, List.all_eq_false]
  exact ⟨c, hc, by simp [isBlankChar_of_isBeginning hbegin]⟩

end Graphing.Token
