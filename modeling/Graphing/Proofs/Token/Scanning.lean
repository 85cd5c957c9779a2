import Graphing.Proofs.Decimal.Positional
import Graphing.Proofs.Expr.Grammar
import Graphing.Text.Basic
import Graphing.Token.Scanner

/-!
# Scanning piece by piece

`Cursor.Reaches start tokens stop` says that scanning from one place of a text takes
these tokens and goes on at another place. Such steps compose, so a text is scanned by
scanning its pieces. A piece is judged with what follows it: a number or a name ends where
the text `Breaks`.
-/

namespace Graphing.Token

/-- A place in a text, and what is left of the text there. -/
structure Cursor where
  offset : Nat
  column : Nat
  rest : List Char

namespace Cursor

/-- The tokens from a place on. -/
def scan (cursor : Cursor) : Except ParseError (List Token) :=
  scanFrom cursor.offset cursor.column cursor.rest

/-- Scanning takes some tokens on its way from one place to another. -/
def Reaches (start : Cursor) (tokens : List Token) (stop : Cursor) : Prop :=
  ∀ more, stop.scan = .ok more → start.scan = .ok (tokens ++ more)

theorem Reaches.trans {a b c : Cursor} {front back : List Token} (h : a.Reaches front b)
    (h' : b.Reaches back c) : a.Reaches (front ++ back) c := by
  intro more hmore
  rw [List.append_assoc]
  exact h _ (h' more hmore)

/-- White space is passed over. -/
theorem exists_reaches_skipped {start : Cursor} {c : Char} {rest : List Char}
    (h : start.rest = c :: rest) (hc : isSkipped c = true) :
    ∃ stop : Cursor, stop.rest = rest ∧ start.Reaches [] stop := by
  refine ⟨⟨start.offset + c.utf8Size, start.column + 1, rest⟩, rfl, ?_⟩
  intro more hmore
  rw [scan, h, scanFrom, if_pos hc]
  exact hmore

/-- The longest lexeme becomes a token. -/
theorem exists_reaches_token {start : Cursor} {c : Char} {cs rest : List Char}
    {kind : TokenKind} (h : start.rest = c :: cs ++ rest) (hc : isSkipped c = false)
    (hl : longest? (c :: cs ++ rest) = some (kind, cs.length + 1)) :
    ∃ (token : Token) (stop : Cursor), token.kind = kind ∧
      token.lexeme = String.ofList (c :: cs) ∧ stop.rest = rest ∧
      start.Reaches [token] stop := by
  refine ⟨⟨kind, start.offset, start.offset + byteLength (c :: cs), start.column,
    String.ofList (c :: cs)⟩, ⟨start.offset + byteLength (c :: cs),
    start.column + (cs.length + 1), rest⟩, rfl, rfl, rfl, ?_⟩
  intro more hmore
  have htail : scanFrom (start.offset + byteLength (c :: cs)) (start.column + (cs.length + 1))
      rest = .ok more := hmore
  rw [List.cons_append] at h hl
  rw [scan, h, scanFrom, if_neg (by simp [hc])]
  simp only [hl, Nat.add_sub_cancel, List.take_left, List.drop_left, List.length_cons, htail]
  rfl

end Cursor

/-- No number and no name before these characters goes on with them. -/
def Breaks (rest : List Char) : Prop :=
  ∀ c ∈ rest.head?, isNamePart c = false ∧ c ≠ '.'

theorem breaks_nil : Breaks [] := by
  simp [Breaks]

theorem breaks_cons {c : Char} (h : isNamePart c = false) (hp : c ≠ '.') (rest : List Char) :
    Breaks (c :: rest) := by
  intro d hd
  cases hd
  exact ⟨h, hp⟩

theorem isDigit_eq_false {c : Char} (h : isNamePart c = false) : c.isDigit = false := by
  simp only [isNamePart, Char.isAlphanum, Bool.or_eq_false_iff] at h
  exact h.1.2

theorem isNamePart_of_isDigit {c : Char} (h : c.isDigit = true) : isNamePart c = true := by
  simp [isNamePart, Char.isAlphanum, h]

theorem isNamePart_of_isNameStart {c : Char} (h : isNameStart c = true) :
    isNamePart c = true := by
  simp only [isNameStart, isNamePart, Char.isAlphanum, Bool.or_eq_true] at h ⊢
  exact h.imp_left .inl

theorem isUpper_iff {c : Char} : c.isUpper = true ↔ 65 ≤ c.toNat ∧ c.toNat ≤ 90 :=
  decide_eq_true_iff

theorem isLower_iff {c : Char} : c.isLower = true ↔ 97 ≤ c.toNat ∧ c.toNat ≤ 122 := by
  show (decide (c.val ≥ 97) && decide (c.val ≤ 122)) = true ↔ _
  rw [Bool.and_eq_true, decide_eq_true_iff, decide_eq_true_iff]
  rfl

/-- The characters of numbers and names lie between the digit zero and the letter z, where
there is no white space. -/
theorem isNamePart_cases {c : Char} (h : isNamePart c = true) :
    (48 ≤ c.toNat ∧ c.toNat ≤ 122) ∧ c ≠ '.' := by
  have hrange : 48 ≤ c.toNat ∧ c.toNat ≤ 122 := by
    change ((c.isUpper || c.isLower) || c.isDigit || c == '_') = true at h
    rw [Bool.or_eq_true, Bool.or_eq_true, Bool.or_eq_true, isUpper_iff, isLower_iff,
      Char.isDigit_iff_toNat, beq_iff_eq] at h
    change (((65 ≤ c.toNat ∧ c.toNat ≤ 90) ∨ (97 ≤ c.toNat ∧ c.toNat ≤ 122)) ∨
      (48 ≤ c.toNat ∧ c.toNat ≤ 57)) ∨ c = '_' at h
    rcases h with h | rfl
    · omega
    · decide
  refine ⟨hrange, ?_⟩
  rintro rfl
  exact absurd hrange (by decide)

theorem isSkipped_eq_false {c : Char} (h : 33 ≤ c.toNat) : isSkipped c = false := by
  simp only [isSkipped, Bool.or_eq_false_iff, beq_eq_false_iff_ne]
  refine ⟨⟨⟨⟨?_, ?_⟩, ?_⟩, ?_⟩, ?_⟩ <;> rintro rfl <;> exact absurd h (by decide)

theorem isBlankChar_eq_false {c : Char} (h : 33 ≤ c.toNat) (h' : c.toNat ≤ 126) :
    Text.isBlankChar c = false := by
  simp only [Text.isBlankChar, Text.blankRanges, List.any_cons, List.any_nil,
    Bool.or_eq_false_iff, Bool.and_eq_false_iff, decide_eq_false_iff_not, Bool.or_false]
  omega

/-! ## Numbers -/

theorem digitCount_row {row : List Char} (rest : List Char)
    (hrow : ∀ c ∈ row, c.isDigit = true) (hrest : ∀ c ∈ rest.head?, c.isDigit = false) :
    digitCount (row ++ rest) = row.length := by
  rw [digitCount, (Text.span_row rest hrow hrest).1]

theorem exponentLength_of_breaks {rest : List Char} (h : Breaks rest) :
    exponentLength rest = 0 := by
  unfold exponentLength
  split
  · rename_i c sign cs
    have hc := (h c rfl).1
    have he : c ≠ 'e' := by
      rintro rfl
      revert hc
      decide
    have hE : c ≠ 'E' := by
      rintro rfl
      revert hc
      decide
    simp [he, hE]
  · rfl

theorem numberLength_positional {cs : List Char} {d : Decimal} (h : Decimal.Positional cs d)
    {rest : List Char} (hb : Breaks rest) : numberLength (cs ++ rest) = cs.length := by
  have hdigit : ∀ c ∈ rest.head?, c.isDigit = false :=
    fun c hc => isDigit_eq_false (hb c hc).1
  cases h with
  | whole hne hds =>
      have hlength : cs.length ≠ 0 := fun h => hne (List.length_eq_zero_iff.mp h)
      simp only [numberLength, digitCount_row rest hds hdigit, List.drop_left]
      -- what follows is neither a point nor an exponent
      split
      · exact absurd rfl (hb '.' rfl).2
      · rw [if_neg hlength, exponentLength_of_breaks hb, Nat.add_zero]
  | @pointed ds fs hne hds hfs =>
      have hlength : ds.length ≠ 0 := fun h => hne (List.length_eq_zero_iff.mp h)
      have hpoint : ∀ c ∈ ('.' :: (fs ++ rest)).head?, c.isDigit = false := by
        intro c hc
        cases hc
        decide
      rw [List.append_assoc, List.cons_append]
      simp only [numberLength, digitCount_row _ hds hpoint, List.drop_left,
        digitCount_row rest hfs hdigit, exponentLength_of_breaks hb]
      rw [if_neg (by omega), List.length_append, List.length_cons]
      omega

theorem longest?_positional {cs : List Char} {d : Decimal} (h : Decimal.Positional cs d)
    {rest : List Char} (hb : Breaks rest) :
    longest? (cs ++ rest) = some (.number, cs.length) := by
  have hlength : cs.length ≠ 0 := by
    cases h with
    | whole hne _ => exact fun h => hne (List.length_eq_zero_iff.mp h)
    | pointed => simp
  rw [longest?, numberLength_positional h hb, if_pos hlength]

/-! ## Names -/

/-- A letter or an underscore, and then letters, digits and underscores. -/
def IsName (cs : List Char) : Prop :=
  ∃ c part, cs = c :: part ∧ isNameStart c = true ∧ ∀ p ∈ part, isNamePart p = true

theorem numberLength_eq_zero {c : Char} (hd : c.isDigit = false) (hp : c ≠ '.')
    (rest : List Char) : numberLength (c :: rest) = 0 := by
  have hcount : digitCount (c :: rest) = 0 := by simp [digitCount, hd]
  simp only [numberLength, hcount, List.drop_zero]
  split
  · rename_i heq
    exact absurd (List.cons.inj heq).1 hp
  · rfl

theorem isDigit_of_isNameStart {c : Char} (h : isNameStart c = true) : c.isDigit = false := by
  change ((c.isUpper || c.isLower) || c == '_') = true at h
  rw [Bool.or_eq_true, Bool.or_eq_true, isUpper_iff, isLower_iff, beq_iff_eq] at h
  rcases h with h | rfl
  · rw [Bool.eq_false_iff, Ne, Char.isDigit_iff_toNat]
    change ¬ (48 ≤ c.toNat ∧ c.toNat ≤ 57)
    omega
  · decide

theorem longest?_name {cs : List Char} (h : IsName cs) {rest : List Char}
    (hb : ∀ c ∈ rest.head?, isNamePart c = false) :
    longest? (cs ++ rest) = some (.name, cs.length) := by
  obtain ⟨c, part, rfl, hc, hpart⟩ := h
  have hdigit := isDigit_of_isNameStart hc
  have hpoint : c ≠ '.' := (isNamePart_cases (isNamePart_of_isNameStart hc)).2
  have hlength : nameLength (c :: (part ++ rest)) = part.length + 1 := by
    rw [nameLength, if_pos hc, (Text.span_row rest hpart hb).1]
  rw [List.cons_append, longest?, numberLength_eq_zero hdigit hpoint, if_neg (by simp),
    hlength, if_pos (by simp), List.length_cons]

/-! ## Symbols -/

/-- Symbols that are tokens of their own, whatever follows them. -/
def loneSymbols : List (Char × TokenKind) :=
  [('+', .plus), ('-', .minus), ('*', .times), ('/', .divide), ('%', .modulo),
    ('(', .openParen), (')', .closeParen), (',', .comma)]

theorem longest?_loneSymbol {c : Char} {kind : TokenKind} (h : (c, kind) ∈ loneSymbols)
    (rest : List Char) : longest? (c :: rest) = some (kind, 1) ∧ isSkipped c = false := by
  simp only [loneSymbols, List.mem_cons, Prod.mk.injEq, List.not_mem_nil, or_false] at h
  rcases h with ⟨rfl, rfl⟩ | ⟨rfl, rfl⟩ | ⟨rfl, rfl⟩ | ⟨rfl, rfl⟩ | ⟨rfl, rfl⟩ | ⟨rfl, rfl⟩ |
    ⟨rfl, rfl⟩ | ⟨rfl, rfl⟩ <;> exact ⟨rfl, rfl⟩

/-- An operator is read off its symbol, if white space follows. -/
theorem longest?_symbol (op : Operator) (rest : List Char) :
    ∃ c kind, op.symbol.toList = [c] ∧ isSkipped c = false ∧ op.level.Joins kind op ∧
      longest? (c :: ' ' :: rest) = some (kind, 1) := by
  cases op with
  | add => exact ⟨'+', .plus, rfl, rfl, .add, rfl⟩
  | sub => exact ⟨'-', .minus, rfl, rfl, .sub, rfl⟩
  | mul => exact ⟨'*', .times, rfl, rfl, .mul, rfl⟩
  | div => exact ⟨'/', .divide, rfl, rfl, .div, rfl⟩
  | pow => exact ⟨'^', .power, rfl, rfl, .pow, rfl⟩
  | mod => exact ⟨'%', .modulo, rfl, rfl, .mod, rfl⟩

/-! ## What tokens hold -/

theorem kind_symbolAt? {cs : List Char} {kind : TokenKind} {length : Nat}
    (h : symbolAt? cs = some (kind, length)) : kind ≠ .number ∧ kind ≠ .name := by
  have htable : ∀ entry ∈ symbols, entry.2 ≠ .number ∧ entry.2 ≠ .name := by decide
  obtain ⟨entry, hentry, heq⟩ := Option.map_eq_some_iff.mp h
  cases heq
  exact htable entry (List.mem_of_find?_eq_some hentry)

theorem isName_of_longest? {c : Char} {rest : List Char} {length : Nat}
    (h : longest? (c :: rest) = some (.name, length)) : IsName (c :: rest.take (length - 1)) := by
  unfold longest? at h
  split at h
  · cases h
  · split at h
    · rename_i hname
      cases h
      rw [nameLength] at hname ⊢
      split at hname
      · rename_i hc
        refine ⟨c, _, rfl, hc, ?_⟩
        intro p hp
        rw [if_pos hc, Nat.add_sub_cancel,
          ← List.prefix_iff_eq_take.mp (List.takeWhile_prefix isNamePart)] at hp
        exact List.all_eq_true.mp List.all_takeWhile p hp
      · exact absurd rfl hname
    · exact absurd rfl (kind_symbolAt? h).2

/-- The lexeme of a name token is a name. -/
theorem isName_of_scanFrom {offset column : Nat} {cs : List Char} {tokens : List Token}
    (h : scanFrom offset column cs = .ok tokens) :
    ∀ token ∈ tokens, token.kind = .name → IsName token.lexeme.toList := by
  fun_induction scanFrom offset column cs generalizing tokens with
  | case1 =>
      cases h
      simp
  | case2 offset column c rest _ ih => exact ih h
  | case3 => cases h
  | case4 => cases h
  | case5 =>
      rename_i hlongest lexeme stop more hmore ih
      cases h
      intro token ht hk
      rcases List.mem_cons.mp ht with rfl | ht
      · cases hk
        rw [String.toList_ofList]
        exact isName_of_longest? hlongest
      · exact ih hmore token ht hk

end Graphing.Token
