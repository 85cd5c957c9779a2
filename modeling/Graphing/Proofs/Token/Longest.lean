import Graphing.Proofs.Token.Pattern

/-!
# The longest token at a place

`IsLongest` says with the patterns alone what the scanner has to take at a place: the
characters there that are a word of some pattern, such that no longer front of the text is a
word of any. The scanner finds it by counting characters, and `longest?_eq_some_iff` says that
it finds exactly that.

For numbers the count is of digits, a point and an exponent in their order. A digit can only be
followed by a longer number if the count goes on over it, which is why the three parts need
not be tried one against the other (`length_le_of_row_tail`). No word is a word of two
patterns (`kind_unique`), so the length of the longest token settles its kind.
-/

namespace Graphing.Token

/-- The lexeme is the longest token at the front of the text: it is one of the kind, and no
longer front of the text is one of any kind. -/
structure IsLongest (text : List Char) (kind : TokenKind) (lexeme : List Char) : Prop where
  front : lexeme <+: text
  word : kind.Matches lexeme
  longest : ∀ (other : TokenKind) (longer : List Char), longer <+: text →
    other.Matches longer → longer.length ≤ lexeme.length

/-! ## Digits -/

theorem IsRow.length_le {ds cs : List Char} (h : IsRow ds) (hle : ds <+: cs) :
    ds.length ≤ digitCount cs := by
  obtain ⟨rest, rfl⟩ := hle
  rw [digitCount, List.takeWhile_append_of_pos h, List.length_append]
  exact Nat.le_add_right _ _

/-- The digits at the front of a text, which another character ends. -/
theorem exists_row (cs : List Char) :
    ∃ row rest, cs = row ++ rest ∧ IsRow row ∧ row.length = digitCount cs ∧
      ∀ c ∈ rest.head?, c.isDigit = false := by
  refine ⟨cs.takeWhile Char.isDigit, cs.dropWhile Char.isDigit,
    List.takeWhile_append_dropWhile.symm, ?_, rfl, ?_⟩
  · exact fun c hc => List.all_eq_true.mp List.all_takeWhile c hc
  · intro c hc
    have hhead := List.head?_dropWhile_not Char.isDigit cs
    rw [hc] at hhead
    simpa using hhead

/-- The digits that are counted, where there are any. -/
theorem exists_row_ne_nil {cs : List Char} (h : digitCount cs ≠ 0) :
    ∃ row rest, cs = row ++ rest ∧ row ≠ [] ∧ IsRow row ∧ row.length = digitCount cs := by
  obtain ⟨row, rest, hsplit, hrow, hlength, _⟩ := exists_row cs
  refine ⟨row, rest, hsplit, ?_, hrow, hlength⟩
  rintro rfl
  exact h hlength.symm

/-! ## Exponents -/

theorem IsExponent.length_le {w cs : List Char} (h : IsExponent w) (hle : w <+: cs) :
    w.length ≤ exponentLength cs := by
  obtain ⟨rest, rfl⟩ := hle
  cases h with
  | @signed c sign ds hc hs hne hds =>
      have hpos := List.length_pos_iff.mpr hne
      have hcount := hds.length_le (List.prefix_append ds rest)
      simp only [List.cons_append, exponentLength, List.length_cons]
      rw [if_pos (by simpa using hc), if_pos (by simpa using hs), if_neg (by omega)]
      omega
  | @unsigned c ds hc hne hds =>
      obtain ⟨d, more, rfl⟩ := List.exists_cons_of_ne_nil hne
      have hd := hds d List.mem_cons_self
      have hcount := hds.length_le (List.prefix_append (d :: more) rest)
      -- a digit is no sign
      have hsign : (d == '+' || d == '-') = false := by
        rw [Bool.or_eq_false_iff, beq_eq_false_iff_ne, beq_eq_false_iff_ne]
        constructor <;> rintro rfl <;> exact absurd hd (by decide)
      simp only [List.cons_append, List.length_cons] at hcount ⊢
      rw [exponentLength, if_pos (by simpa using hc), hsign, if_neg (by simp),
        if_neg (by omega)]
      omega

/-- An exponent begins with its letter, so with no digit. -/
theorem IsExponent.exists_cons {w : List Char} (h : IsExponent w) :
    ∃ c rest, w = c :: rest ∧ c.isDigit = false := by
  have hletter {c : Char} (hc : c = 'e' ∨ c = 'E') : c.isDigit = false := by
    rcases hc with rfl | rfl <;> decide
  cases h with
  | signed hc => exact ⟨_, _, rfl, hletter hc⟩
  | unsigned hc => exact ⟨_, _, rfl, hletter hc⟩

theorem IsTail.length_le {w cs : List Char} (h : IsTail w) (hle : w <+: cs) :
    w.length ≤ exponentLength cs := by
  rcases h with rfl | h
  · exact Nat.zero_le _
  · exact h.length_le hle

/-- What is counted as an exponent is one, or nothing. -/
theorem exists_tail (cs : List Char) :
    ∃ tail rest, cs = tail ++ rest ∧ IsTail tail ∧ tail.length = exponentLength cs := by
  unfold exponentLength
  split
  · rename_i c sign cs
    split
    · rename_i hletter
      have hc : c = 'e' ∨ c = 'E' := by simpa using hletter
      split
      · rename_i hsign
        have hs : sign = '+' ∨ sign = '-' := by simpa using hsign
        split
        · exact ⟨[], _, rfl, .inl rfl, rfl⟩
        · rename_i hcount
          obtain ⟨row, rest, hsplit, hne, hrow, hlength⟩ := exists_row_ne_nil hcount
          refine ⟨c :: sign :: row, rest, by simp [hsplit], .inr (.signed hc hs hne hrow), ?_⟩
          simp [hlength]
      · split
        · exact ⟨[], _, rfl, .inl rfl, rfl⟩
        · rename_i hcount
          obtain ⟨row, rest, hsplit, hne, hrow, hlength⟩ := exists_row_ne_nil hcount
          refine ⟨c :: row, rest, by simp [hsplit], .inr (.unsigned hc hne hrow), ?_⟩
          simp [hlength]
    · exact ⟨[], _, rfl, .inl rfl, rfl⟩
  · exact ⟨[], _, rfl, .inl rfl, rfl⟩

/-! ## Numbers -/

/-- Digits and an exponent after them are counted at least as far as they go. -/
theorem length_le_of_row_tail {ds tail cs : List Char} (hds : IsRow ds) (ht : IsTail tail)
    (hle : ds ++ tail <+: cs) :
    (ds ++ tail).length ≤ digitCount cs + exponentLength (cs.drop (digitCount cs)) := by
  obtain ⟨row, rest, rfl, hrow, hlength, _⟩ := exists_row cs
  have hfront : ds <+: row ++ rest := (List.prefix_append ds tail).trans hle
  have hshort := hds.length_le hfront
  obtain ⟨more, rfl⟩ := List.prefix_of_prefix_length_le hfront (List.prefix_append row rest)
    (by omega)
  rw [List.append_assoc, List.prefix_append_right_inj] at hle
  rw [← hlength, List.drop_left, List.length_append]
  cases more with
  | nil =>
      have hexponent := ht.length_le hle
      simp only [List.append_nil, List.nil_append] at hexponent ⊢
      omega
  | cons d more =>
      -- the digits end early, so what follows them is a digit and no exponent
      have hd := hrow d (by simp)
      have hnil : tail = [] := by
        rcases ht with rfl | hexponent
        · rfl
        · obtain ⟨c, _, rfl, hc⟩ := hexponent.exists_cons
          obtain rfl : c = d := (List.cons_prefix_cons.mp hle).1
          rw [hc] at hd
          cases hd
      rw [hnil]
      simp only [List.length_nil, List.length_append]
      omega

theorem numberLength_pointed {row : List Char} (h : IsRow row) (after : List Char) :
    numberLength (row ++ '.' :: after) =
      if row.length + digitCount after = 0 then 0
      else row.length + 1 + digitCount after +
        exponentLength (after.drop (digitCount after)) := by
  have hpoint : ∀ c ∈ ('.' :: after).head?, c.isDigit = false := by
    intro c hc
    cases hc
    decide
  simp only [numberLength, digitCount_row _ h hpoint, List.drop_left]

theorem numberLength_whole {row rest : List Char} (h : IsRow row)
    (hdigit : ∀ c ∈ rest.head?, c.isDigit = false) (hpoint : ∀ after, rest ≠ '.' :: after) :
    numberLength (row ++ rest) =
      if row.length = 0 then 0 else row.length + exponentLength rest := by
  simp only [numberLength, digitCount_row rest h hdigit, List.drop_left]

theorem exponentLength_point (after : List Char) : exponentLength ('.' :: after) = 0 := by
  cases after <;> rfl

/-- What is counted as a number is one. -/
theorem exists_number {cs : List Char} (h : numberLength cs ≠ 0) :
    ∃ number rest, cs = number ++ rest ∧ IsNumber number ∧
      number.length = numberLength cs := by
  obtain ⟨row, rest, rfl, hrow, _, hdigit⟩ := exists_row cs
  by_cases hpoint : ∃ after, rest = '.' :: after
  · obtain ⟨after, rfl⟩ := hpoint
    rw [numberLength_pointed hrow] at h ⊢
    split at h
    · exact absurd rfl h
    · rename_i hcount
      obtain ⟨fs, afterFs, rfl, hfs, hfsLength, _⟩ := exists_row after
      obtain ⟨tail, rest, rfl, htail, htailLength⟩ := exists_tail afterFs
      rw [if_neg hcount, ← hfsLength, List.drop_left, ← htailLength]
      refine ⟨row ++ '.' :: (fs ++ tail), rest, by simp, .pointed ?_ hrow hfs htail, ?_⟩
      · rw [← hfsLength] at hcount
        by_contra hnone
        simp only [not_or, Ne, Decidable.not_not] at hnone
        simp [hnone.1, hnone.2] at hcount
      · simp only [List.length_append, List.length_cons]
        omega
  · have hnone : ∀ after, rest ≠ '.' :: after := fun after heq => hpoint ⟨after, heq⟩
    rw [numberLength_whole hrow hdigit hnone] at h ⊢
    split at h
    · exact absurd rfl h
    · rename_i hcount
      obtain ⟨tail, rest, rfl, htail, htailLength⟩ := exists_tail rest
      rw [if_neg hcount, ← htailLength]
      refine ⟨row ++ tail, rest, by simp, .whole ?_ hrow htail, by simp⟩
      rintro rfl
      exact hcount rfl

/-- No number at the front of a text is longer than what is counted there. -/
theorem IsNumber.length_le {w cs : List Char} (h : IsNumber w) (hle : w <+: cs) :
    w.length ≤ numberLength cs := by
  cases h with
  | @whole ds tail hne hds ht =>
      have hpos := List.length_pos_iff.mpr hne
      have hcount := hds.length_le ((List.prefix_append ds tail).trans hle)
      have hbound := length_le_of_row_tail hds ht hle
      obtain ⟨row, rest, rfl, hrow, hlength, hdigit⟩ := exists_row cs
      rw [← hlength, List.drop_left] at hbound
      by_cases hpoint : ∃ after, rest = '.' :: after
      · obtain ⟨after, rfl⟩ := hpoint
        rw [exponentLength_point] at hbound
        rw [numberLength_pointed hrow, if_neg (by omega)]
        omega
      · rw [numberLength_whole hrow hdigit (fun after heq => hpoint ⟨after, heq⟩),
          if_neg (by omega)]
        exact hbound
  | @pointed ds fs tail hne hds hfs ht =>
      obtain ⟨rest, rfl⟩ := hle
      have hbound := length_le_of_row_tail hfs ht (List.prefix_append (fs ++ tail) rest)
      have hcount := hfs.length_le
        ((List.prefix_append fs tail).trans (List.prefix_append (fs ++ tail) rest))
      have hsome : ds.length + digitCount (fs ++ tail ++ rest) ≠ 0 := by
        rcases hne with hne | hne
        · have := List.length_pos_iff.mpr hne
          omega
        · have := List.length_pos_iff.mpr hne
          omega
      rw [List.append_assoc, List.cons_append, numberLength_pointed hds, if_neg hsome,
        List.length_append, List.length_cons]
      omega

/-! ## Names -/

theorem exists_name {cs : List Char} (h : nameLength cs ≠ 0) :
    ∃ name rest, cs = name ++ rest ∧ IsName name ∧ name.length = nameLength cs := by
  unfold nameLength at h ⊢
  split at h
  · exact absurd rfl h
  · rename_i c cs
    split at h
    · rename_i hc
      refine ⟨c :: cs.takeWhile isNamePart, cs.dropWhile isNamePart, ?_, ⟨c, _, rfl, hc, ?_⟩, ?_⟩
      · rw [List.cons_append, List.takeWhile_append_dropWhile]
      · exact fun d hd => List.all_eq_true.mp List.all_takeWhile d hd
      · simp [hc]
    · exact absurd rfl h

theorem IsName.length_le {w cs : List Char} (h : IsName w) (hle : w <+: cs) :
    w.length ≤ nameLength cs := by
  obtain ⟨c, part, rfl, hc, hpart⟩ := h
  obtain ⟨rest, rfl⟩ := hle
  rw [List.cons_append, nameLength, if_pos hc, List.takeWhile_append_of_pos hpart,
    List.length_append, List.length_cons]
  omega

/-! ## Symbols -/

/-- A symbol that is a prefix of the text is found, or a longer one is. -/
theorem symbolAt?_eq_some {cs : List Char} {kind : TokenKind} {n : Nat}
    (h : symbolAt? cs = some (kind, n)) :
    ∃ symbol, symbol <+: cs ∧ symbol.length = n ∧ (symbol, kind) ∈ symbols ∧
      ∀ other ∈ symbols, other.1 <+: cs → other.1.length ≤ n := by
  have hlonger : symbols.Pairwise fun earlier later => later.1.length ≤ earlier.1.length := by
    decide
  obtain ⟨entry, hfind, heq⟩ := Option.map_eq_some_iff.mp h
  cases heq
  obtain ⟨hfront, before, after, hsplit, hbefore⟩ := List.find?_eq_some_iff_append.mp hfind
  refine ⟨entry.1, List.isPrefixOf_iff_prefix.mp hfront, rfl,
    List.mem_of_find?_eq_some hfind, ?_⟩
  intro other hother hle
  rw [hsplit] at hother hlonger
  obtain ⟨_, hafter, _⟩ := List.pairwise_append.mp hlonger
  rcases List.mem_append.mp hother with hmem | hmem
  · -- what stands before the entry in the table is no prefix
    have hno := hbefore other hmem
    rw [List.isPrefixOf_iff_prefix.mpr hle] at hno
    cases hno
  rcases List.mem_cons.mp hmem with rfl | hmem
  · exact Nat.le_refl _
  · exact List.rel_of_pairwise_cons hafter hmem

/-- Symbols begin with neither a digit nor a letter, and the only one that begins with a point
is the point. -/
theorem exists_cons_of_mem_symbols {symbol : List Char} {kind : TokenKind}
    (h : (symbol, kind) ∈ symbols) :
    ∃ c rest, symbol = c :: rest ∧ c.isDigit = false ∧ isNameStart c = false ∧
      (c = '.' → rest = []) := by
  have htable : (symbols.all fun entry => entry.1.head?.any fun c =>
      !c.isDigit && !isNameStart c && (c != '.' || entry.1.tail.isEmpty)) = true := by
    decide
  have hentry := List.all_eq_true.mp htable _ h
  cases symbol with
  | nil => cases hentry
  | cons c rest =>
      simp only [List.head?_cons, Option.any_some, List.tail_cons, Bool.and_eq_true,
        Bool.not_eq_true', Bool.or_eq_true, bne_iff_ne, List.isEmpty_iff] at hentry
      obtain ⟨⟨hdigit, hstart⟩, hpoint⟩ := hentry
      exact ⟨c, rest, rfl, hdigit, hstart, fun heq => hpoint.resolve_left (· heq)⟩

/-! ## All kinds -/

variable {cs : List Char} {kind : TokenKind}

/-- The words of a pattern are numbers, names or symbols. -/
theorem matches_cases (h : kind.Matches cs) :
    (kind = .number ∧ IsNumber cs) ∨ (kind = .name ∧ IsName cs) ∨ (cs, kind) ∈ symbols := by
  by_cases hnumber : kind = .number
  · subst hnumber
    exact .inl ⟨rfl, matches_number_iff.mp h⟩
  by_cases hname : kind = .name
  · subst hname
    exact .inr (.inl ⟨rfl, matches_name_iff.mp h⟩)
  · exact .inr (.inr ((matches_symbol_iff hnumber hname).mp h))

theorem matches_of_mem_symbols (h : (cs, kind) ∈ symbols) : kind.Matches cs := by
  have htable : ∀ entry ∈ symbols, entry.2 ≠ .number ∧ entry.2 ≠ .name := by decide
  obtain ⟨hnumber, hname⟩ := htable _ h
  exact (matches_symbol_iff hnumber hname).mpr h

theorem IsNumber.exists_cons (h : IsNumber cs) :
    ∃ c rest, cs = c :: rest ∧ (c.isDigit = true ∨ c = '.') := by
  cases h with
  | @whole ds tail hne hds _ =>
      obtain ⟨d, ds, rfl⟩ := List.exists_cons_of_ne_nil hne
      exact ⟨d, ds ++ tail, rfl, .inl (hds d List.mem_cons_self)⟩
  | @pointed ds fs tail _ hds _ _ =>
      cases ds with
      | nil => exact ⟨'.', fs ++ tail, rfl, .inr rfl⟩
      | cons d ds => exact ⟨d, _, rfl, .inl (hds d List.mem_cons_self)⟩

/-- Numbers and names begin differently. -/
theorem IsName.not_isNumber_of_prefix {name number : List Char} (h : IsName name)
    (h' : IsNumber number) (hle : name <+: cs) (hle' : number <+: cs) : False := by
  obtain ⟨c, part, rfl, hc, _⟩ := h
  obtain ⟨d, rest, rfl, hd⟩ := h'.exists_cons
  obtain ⟨more, rfl⟩ := hle
  obtain rfl : d = c := (List.cons_prefix_cons.mp hle').1
  rcases hd with hd | rfl
  · rw [isDigit_of_isNameStart hc] at hd
    cases hd
  · exact absurd hc (by decide)

/-- Symbols and names begin differently. -/
theorem IsName.not_mem_symbols_of_prefix {name symbol : List Char} (h : IsName name)
    (h' : (symbol, kind) ∈ symbols) (hle : name <+: cs) (hle' : symbol <+: cs) : False := by
  obtain ⟨c, part, rfl, hc, _⟩ := h
  obtain ⟨d, rest, rfl, _, hd, _⟩ := exists_cons_of_mem_symbols h'
  obtain ⟨more, rfl⟩ := hle
  obtain rfl : d = c := (List.cons_prefix_cons.mp hle').1
  rw [hc] at hd
  cases hd

/-- The one symbol that numbers can begin with is the point. -/
theorem IsNumber.symbol_eq_point {number symbol : List Char} (h : IsNumber number)
    (h' : (symbol, kind) ∈ symbols) (hle : number <+: cs) (hle' : symbol <+: cs) :
    symbol = ['.'] := by
  obtain ⟨c, part, rfl, hc⟩ := h.exists_cons
  obtain ⟨d, rest, rfl, hd, _, hpoint⟩ := exists_cons_of_mem_symbols h'
  obtain ⟨more, rfl⟩ := hle
  obtain rfl : d = c := (List.cons_prefix_cons.mp hle').1
  rcases hc with hc | rfl
  · rw [hc] at hd
    cases hd
  · rw [hpoint rfl]

theorem not_isNumber_point : ¬ IsNumber ['.'] := by
  intro h
  have hlength := h.length_le (List.prefix_refl _)
  exact absurd hlength (by decide)

/-- No word belongs to two patterns. -/
theorem kind_unique {other : TokenKind} (h : kind.Matches cs) (h' : other.Matches cs) :
    kind = other := by
  have hself : cs <+: cs := List.prefix_refl cs
  have hnot {k : TokenKind} (hnumber : IsNumber cs) (hsymbol : (cs, k) ∈ symbols) : False := by
    have hpoint := hnumber.symbol_eq_point hsymbol hself hself
    rw [hpoint] at hnumber
    exact not_isNumber_point hnumber
  rcases matches_cases h with ⟨rfl, hword⟩ | ⟨rfl, hword⟩ | hword
  · rcases matches_cases h' with ⟨rfl, _⟩ | ⟨rfl, hother⟩ | hother
    · rfl
    · exact (hother.not_isNumber_of_prefix hword hself hself).elim
    · exact (hnot hword hother).elim
  · rcases matches_cases h' with ⟨rfl, hother⟩ | ⟨rfl, _⟩ | hother
    · exact (hword.not_isNumber_of_prefix hother hself hself).elim
    · rfl
    · exact (hword.not_mem_symbols_of_prefix hother hself hself).elim
  · rcases matches_cases h' with ⟨rfl, hother⟩ | ⟨rfl, hother⟩ | hother
    · exact (hnot hother hword).elim
    · exact (hother.not_mem_symbols_of_prefix hword hself hself).elim
    · have hkeys : ∀ entry ∈ symbols, ∀ entry' ∈ symbols, entry.1 = entry'.1 →
          entry.2 = entry'.2 := by decide
      exact hkeys _ hword _ hother rfl

theorem ne_nil_of_matches (h : kind.Matches cs) : cs ≠ [] := by
  rintro rfl
  rcases matches_cases h with ⟨_, h⟩ | ⟨_, h⟩ | h
  · obtain ⟨_, _, heq, _⟩ := h.exists_cons
    cases heq
  · obtain ⟨_, _, heq, _⟩ := h
    cases heq
  · obtain ⟨_, _, heq, _⟩ := exists_cons_of_mem_symbols h
    cases heq

/-! ## The scanner's choice -/

/-- What the scanner takes is the longest token. -/
theorem exists_isLongest {n : Nat} (h : longest? cs = some (kind, n)) :
    ∃ lexeme, lexeme.length = n ∧ IsLongest cs kind lexeme := by
  unfold longest? at h
  split at h
  · rename_i hnumber
    cases h
    obtain ⟨number, rest, hsplit, hword, hlength⟩ := exists_number hnumber
    have hfront : number <+: cs := ⟨rest, hsplit.symm⟩
    refine ⟨number, hlength, hfront, matches_number_iff.mpr hword, ?_⟩
    intro other longer hle hmatches
    rcases matches_cases hmatches with ⟨_, h⟩ | ⟨_, h⟩ | h
    · rw [hlength]
      exact h.length_le hle
    · exact (h.not_isNumber_of_prefix hword hle hfront).elim
    · rw [hword.symbol_eq_point h hfront hle, hlength]
      exact Nat.one_le_iff_ne_zero.mpr hnumber
  · rename_i hnumber
    have hnone : ∀ number, IsNumber number → number <+: cs → number.length = 0 := by
      intro number hword hle
      have := hword.length_le hle
      omega
    split at h
    · rename_i hname
      cases h
      obtain ⟨name, rest, hsplit, hword, hlength⟩ := exists_name hname
      have hfront : name <+: cs := ⟨rest, hsplit.symm⟩
      refine ⟨name, hlength, hfront, matches_name_iff.mpr hword, ?_⟩
      intro other longer hle hmatches
      rcases matches_cases hmatches with ⟨_, h⟩ | ⟨_, h⟩ | h
      · rw [hnone longer h hle]
        exact Nat.zero_le _
      · rw [hlength]
        exact h.length_le hle
      · exact (hword.not_mem_symbols_of_prefix h hfront hle).elim
    · rename_i hname
      obtain ⟨symbol, hfront, rfl, hmem, hlongest⟩ := symbolAt?_eq_some h
      refine ⟨symbol, rfl, hfront, matches_of_mem_symbols hmem, ?_⟩
      intro other longer hle hmatches
      rcases matches_cases hmatches with ⟨_, h⟩ | ⟨_, h⟩ | h
      · rw [hnone longer h hle]
        exact Nat.zero_le _
      · have := h.length_le hle
        omega
      · exact hlongest _ h hle

theorem IsLongest.unique {other : TokenKind} {lexeme lexeme' : List Char}
    (h : IsLongest cs kind lexeme) (h' : IsLongest cs other lexeme') :
    kind = other ∧ lexeme = lexeme' := by
  have hle := h.longest other lexeme' h'.front h'.word
  have hge := h'.longest kind lexeme h.front h.word
  have heq : lexeme = lexeme' :=
    (List.prefix_of_prefix_length_le h.front h'.front hge).eq_of_length
      (Nat.le_antisymm hge hle)
  subst heq
  exact ⟨kind_unique h.word h'.word, rfl⟩

/-- Where some token stands, the scanner takes one. -/
theorem longest?_ne_none {lexeme : List Char} (hle : lexeme <+: cs) (h : kind.Matches lexeme) :
    longest? cs ≠ none := by
  obtain ⟨more, rfl⟩ := hle
  obtain ⟨c, rest, rfl⟩ := List.exists_cons_of_ne_nil (ne_nil_of_matches h)
  rw [List.cons_append, Ne, longest?_eq_none_iff, Bool.not_eq_false, isBeginning,
    Bool.or_eq_true, Bool.or_eq_true]
  rcases matches_cases h with ⟨_, h⟩ | ⟨_, h⟩ | h
  · obtain ⟨_, _, heq, hd | rfl⟩ := h.exists_cons
    · cases heq
      exact .inl (.inl hd)
    · cases heq
      exact .inr (by decide)
  · obtain ⟨_, _, heq, hstart, _⟩ := h
    cases heq
    exact .inl (.inr hstart)
  · exact .inr (mem_symbols_of_cons h)

/-- The scanner takes the longest token, and nothing else. -/
theorem longest?_eq_some_iff {n : Nat} :
    longest? cs = some (kind, n) ↔ ∃ lexeme, lexeme.length = n ∧ IsLongest cs kind lexeme := by
  refine ⟨exists_isLongest, ?_⟩
  rintro ⟨lexeme, rfl, h⟩
  cases hfound : longest? cs with
  | none => exact absurd hfound (longest?_ne_none h.front h.word)
  | some found =>
      obtain ⟨lexeme', hlength, h'⟩ := exists_isLongest hfound
      obtain ⟨hkind, rfl⟩ := h.unique h'
      rw [hkind, hlength]

end Graphing.Token
