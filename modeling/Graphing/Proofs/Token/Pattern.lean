import Mathlib.Computability.RegularExpressions
import Graphing.Proofs.Token.Placement

/-!
# The patterns of tokens

Each kind of token has a pattern, a regular expression over characters; it says what a token
of the kind looks like and nothing about what stands around it. The second half of the module
describes the words of the patterns: numbers as digits, point and exponent (`IsNumber`), names
as before (`IsName`), and all others as the symbols of the table.
-/

namespace Graphing

open Token
open RegularExpression (char star)

/-! ## Regular expressions -/

namespace Pattern

/-- Any of some patterns. -/
def oneOf (patterns : List (RegularExpression Char)) : RegularExpression Char :=
  patterns.foldr (· + ·) 0

/-- The characters from one to another. -/
def range (first last : Char) : RegularExpression Char :=
  oneOf ((List.range' first.toNat (last.toNat + 1 - first.toNat)).map (char ∘ Char.ofNat))

/-- A fixed row of characters. -/
def word (cs : List Char) : RegularExpression Char :=
  (cs.map char).foldr (· * ·) 1

/-- A pattern once or not at all. -/
def optional (pattern : RegularExpression Char) : RegularExpression Char :=
  1 + pattern

/-- A pattern once or more often. -/
def many1 (pattern : RegularExpression Char) : RegularExpression Char :=
  pattern * star pattern

/-- The ten digits. -/
def digit : RegularExpression Char :=
  range '0' '9'

/-- What a name begins with: a letter or an underscore. -/
def letter : RegularExpression Char :=
  oneOf [range 'a' 'z', range 'A' 'Z', char '_']

/-- A letter, an optional sign and digits. -/
def exponent : RegularExpression Char :=
  oneOf [char 'e', char 'E'] * optional (oneOf [char '+', char '-']) * many1 digit

end Pattern

open Pattern in
/-- What the tokens of a kind look like. -/
def TokenKind.pattern : TokenKind → RegularExpression Char
  | .number =>
      oneOf [ many1 digit * optional (char '.' * star digit) * optional exponent
            , char '.' * many1 digit * optional exponent ]
  | .name => letter * star (oneOf [letter, digit])
  | .plus => word ['+']
  | .minus => word ['-']
  | .times => word ['*']
  | .divide => word ['/']
  | .modulo => word ['%']
  | .power => oneOf [word ['^'], word ['^', '^']]
  | .openParen => word ['(']
  | .closeParen => word [')']
  | .comma => word [',']
  | .foreign .logical => oneOf [word ['&', '&'], word ['|', '|'], word ['!']]
  | .foreign .relational =>
      oneOf [ word ['=', '='], word ['!', '='], word ['<'], word ['>'], word ['<', '=']
            , word ['>', '='] ]
  | .foreign .bitwise =>
      oneOf [word ['&'], word ['|'], word ['~'], word ['<', '<'], word ['>', '>']]
  | .foreign .assignment => word ['=']
  | .foreign .conditional => oneOf [word ['?'], word [':']]
  | .foreign .bracket => oneOf [word ['['], word [']'], word ['\x7b'], word ['\x7d']]
  | .foreign .member => word ['.']
  | .foreign .quotation => oneOf [word ['\x22'], word ['\x27']]

/-- The characters are a token of the kind, taken by themselves. -/
def TokenKind.Matches (kind : TokenKind) (cs : List Char) : Prop :=
  cs ∈ kind.pattern.matches'

instance (kind : TokenKind) (cs : List Char) : Decidable (kind.Matches cs) :=
  inferInstanceAs (Decidable (cs ∈ kind.pattern.matches'))

/-! ## Words of regular expressions -/

namespace Pattern

variable {pattern : RegularExpression Char} {cs : List Char} {p q : Char → Bool}

theorem mem_oneOf {patterns : List (RegularExpression Char)} :
    cs ∈ (oneOf patterns).matches' ↔ ∃ pattern ∈ patterns, cs ∈ pattern.matches' := by
  induction patterns with
  | nil => simp [oneOf]
  | cons first rest ih =>
      rw [oneOf, List.foldr_cons, RegularExpression.matches'_add, Language.mem_add]
      simp [← ih, oneOf]

theorem mem_word {w : List Char} : cs ∈ (word w).matches' ↔ cs = w := by
  induction w generalizing cs with
  | nil => simp [word]
  | cons c w ih =>
      rw [word, List.map_cons, List.foldr_cons, RegularExpression.matches'_mul,
        Language.mem_mul]
      constructor
      · rintro ⟨front, hfront, back, hback, rfl⟩
        rw [Set.mem_singleton_iff.mp hfront, ih.mp hback]
        rfl
      · rintro rfl
        exact ⟨[c], rfl, w, ih.mpr rfl, rfl⟩

theorem mem_optional : cs ∈ (optional pattern).matches' ↔ cs = [] ∨ cs ∈ pattern.matches' := by
  rw [optional, RegularExpression.matches'_add, Language.mem_add]
  rfl

/-- A pattern whose words are the single characters of a class. -/
def IsClass (pattern : RegularExpression Char) (p : Char → Bool) : Prop :=
  ∀ cs, cs ∈ pattern.matches' ↔ ∃ c, p c = true ∧ cs = [c]

theorem isClass_char (c : Char) : IsClass (char c) (· == c) := by
  intro cs
  rw [RegularExpression.matches'_char]
  simp only [beq_iff_eq, exists_eq_left]
  exact Set.mem_singleton_iff

theorem isClass_range {first last : Char} (h : last.toNat < 0xd800) :
    IsClass (range first last) fun c =>
      decide (first.toNat ≤ c.toNat) && decide (c.toNat ≤ last.toNat) := by
  intro cs
  simp only [range, mem_oneOf, List.mem_map, List.mem_range'_1, Function.comp_apply,
    Bool.and_eq_true, decide_eq_true_eq]
  constructor
  · rintro ⟨_, ⟨n, hn, rfl⟩, hcs⟩
    have hvalid : n.isValidChar := .inl (by omega)
    have hcode : (Char.ofNat n).toNat = n := by
      rw [Char.ofNat, dif_pos hvalid]
      rfl
    exact ⟨Char.ofNat n, by omega, hcs⟩
  · rintro ⟨c, hc, rfl⟩
    refine ⟨char c, ⟨c.toNat, by omega, ?_⟩, rfl⟩
    rw [Char.ofNat_toNat]

theorem isClass_oneOf_nil : IsClass (oneOf []) fun _ => false := by
  intro cs
  simp [mem_oneOf]

theorem isClass_oneOf_cons {patterns : List (RegularExpression Char)}
    (h : IsClass pattern p) (hrest : IsClass (oneOf patterns) q) :
    IsClass (oneOf (pattern :: patterns)) fun c => p c || q c := by
  intro cs
  have hmore := hrest cs
  rw [mem_oneOf] at hmore
  simp only [mem_oneOf, List.exists_mem_cons_iff, h cs, hmore, Bool.or_eq_true, or_and_right,
    exists_or]

theorem IsClass.congr (h : IsClass pattern p) (hpq : ∀ c, p c = q c) : IsClass pattern q := by
  intro cs
  simp only [h cs, hpq]

theorem isClass_pair (a b : Char) : IsClass (oneOf [char a, char b]) fun c => c == a || c == b := by
  refine (isClass_oneOf_cons (isClass_char a)
    (isClass_oneOf_cons (isClass_char b) isClass_oneOf_nil)).congr fun c => ?_
  rw [Bool.or_false]

theorem IsClass.mem_star (h : IsClass pattern p) :
    cs ∈ (star pattern).matches' ↔ ∀ c ∈ cs, p c = true := by
  rw [RegularExpression.matches'_star, Language.mem_kstar]
  constructor
  · rintro ⟨parts, rfl, hparts⟩ c hc
    obtain ⟨part, hpart, hmem⟩ := List.mem_flatten.mp hc
    obtain ⟨d, hd, rfl⟩ := (h part).mp (hparts part hpart)
    rw [List.mem_singleton.mp hmem]
    exact hd
  · intro hall
    refine ⟨cs.map ([·]), (List.flatMap_singleton' cs).symm, ?_⟩
    intro part hpart
    obtain ⟨c, hc, rfl⟩ := List.mem_map.mp hpart
    exact (h [c]).mpr ⟨c, hall c hc, rfl⟩

theorem IsClass.mem_mul_star (h : IsClass pattern p) {more : RegularExpression Char}
    (hmore : IsClass more q) :
    cs ∈ (pattern * star more).matches' ↔
      ∃ c rest, cs = c :: rest ∧ p c = true ∧ ∀ d ∈ rest, q d = true := by
  rw [RegularExpression.matches'_mul, Language.mem_mul]
  constructor
  · rintro ⟨front, hfront, back, hback, rfl⟩
    obtain ⟨c, hc, rfl⟩ := (h front).mp hfront
    exact ⟨c, back, rfl, hc, hmore.mem_star.mp hback⟩
  · rintro ⟨c, rest, rfl, hc, hrest⟩
    exact ⟨[c], (h [c]).mpr ⟨c, hc, rfl⟩, rest, hmore.mem_star.mpr hrest, rfl⟩

theorem IsClass.mem_many1 (h : IsClass pattern p) :
    cs ∈ (many1 pattern).matches' ↔ cs ≠ [] ∧ ∀ c ∈ cs, p c = true := by
  rw [many1, h.mem_mul_star h]
  cases cs with
  | nil => simp
  | cons c rest => simp

theorem isClass_digit : IsClass digit Char.isDigit := by
  refine (isClass_range (by decide)).congr fun c => ?_
  rw [Bool.eq_iff_iff, Char.isDigit_iff_toNat, Bool.and_eq_true, decide_eq_true_eq,
    decide_eq_true_eq]

theorem isClass_letter : IsClass letter isNameStart := by
  refine (isClass_oneOf_cons (isClass_range (by decide)) (isClass_oneOf_cons
    (isClass_range (by decide)) (isClass_oneOf_cons (isClass_char '_')
      isClass_oneOf_nil))).congr fun c => ?_
  rw [Bool.eq_iff_iff]
  show _ ↔ ((c.isUpper || c.isLower) || c == '_') = true
  simp only [Bool.or_eq_true, Bool.and_eq_true, decide_eq_true_eq, Bool.or_false, isUpper_iff,
    isLower_iff]
  constructor
  · rintro (hlower | hupper | hline)
    · exact .inl (.inr hlower)
    · exact .inl (.inl hupper)
    · exact .inr hline
  · rintro ((hupper | hlower) | hline)
    · exact .inr (.inl hupper)
    · exact .inl hlower
    · exact .inr (.inr hline)

theorem isClass_part : IsClass (oneOf [letter, digit]) isNamePart := by
  refine (isClass_oneOf_cons isClass_letter
    (isClass_oneOf_cons isClass_digit isClass_oneOf_nil)).congr fun c => ?_
  rw [Bool.or_false, isNameStart, isNamePart, Char.isAlphanum, Bool.or_right_comm]

end Pattern

/-! ## Words of the patterns -/

namespace Token

/-- A row of digits, perhaps of none. -/
def IsRow (cs : List Char) : Prop :=
  ∀ c ∈ cs, c.isDigit = true

/-- The letter of an exponent, its sign if it has one, and digits. -/
inductive IsExponent : List Char → Prop
  | signed {c sign : Char} {ds : List Char} : (c = 'e' ∨ c = 'E') → (sign = '+' ∨ sign = '-') →
      ds ≠ [] → IsRow ds → IsExponent (c :: sign :: ds)
  | unsigned {c : Char} {ds : List Char} : (c = 'e' ∨ c = 'E') → ds ≠ [] → IsRow ds →
      IsExponent (c :: ds)

/-- What may follow the digits of a number: an exponent or nothing. -/
def IsTail (cs : List Char) : Prop :=
  cs = [] ∨ IsExponent cs

/-- Digits with at most one point before, among or after them, and perhaps an exponent. -/
inductive IsNumber : List Char → Prop
  | whole {ds tail : List Char} : ds ≠ [] → IsRow ds → IsTail tail → IsNumber (ds ++ tail)
  | pointed {ds fs tail : List Char} : ds ≠ [] ∨ fs ≠ [] → IsRow ds → IsRow fs → IsTail tail →
      IsNumber (ds ++ '.' :: (fs ++ tail))

variable {cs : List Char}

theorem mem_exponent : cs ∈ Pattern.exponent.matches' ↔ IsExponent cs := by
  have hletter := Pattern.isClass_pair 'e' 'E'
  have hsign := Pattern.isClass_pair '+' '-'
  simp only [Pattern.exponent, RegularExpression.matches'_mul, Language.mem_mul,
    Pattern.mem_optional, hletter _, hsign _, Pattern.isClass_digit.mem_many1, Bool.or_eq_true,
    beq_iff_eq]
  constructor
  · rintro ⟨_, ⟨_, ⟨c, hc, rfl⟩, _, rfl | ⟨sign, hs, rfl⟩, rfl⟩, ds, ⟨hne, hds⟩, rfl⟩
    · exact .unsigned hc hne hds
    · exact .signed hc hs hne hds
  · rintro (⟨hc, hs, hne, hds⟩ | ⟨hc, hne, hds⟩)
    · exact ⟨_, ⟨_, ⟨_, hc, rfl⟩, _, .inr ⟨_, hs, rfl⟩, rfl⟩, _, ⟨hne, hds⟩, rfl⟩
    · exact ⟨_, ⟨_, ⟨_, hc, rfl⟩, _, .inl rfl, rfl⟩, _, ⟨hne, hds⟩, rfl⟩

theorem matches_number_iff : TokenKind.number.Matches cs ↔ IsNumber cs := by
  have htail {tail : List Char} :
      tail ∈ (Pattern.optional Pattern.exponent).matches' ↔ IsTail tail := by
    rw [Pattern.mem_optional, mem_exponent]
    rfl
  simp only [TokenKind.Matches, TokenKind.pattern, Pattern.mem_oneOf, List.exists_mem_cons_iff,
    List.not_mem_nil, false_and, exists_false, or_false, RegularExpression.matches'_mul,
    Language.mem_mul, htail, Pattern.isClass_digit.mem_many1, Pattern.mem_optional,
    Pattern.isClass_digit.mem_star, RegularExpression.matches'_char]
  constructor
  · rintro (⟨_, ⟨ds, ⟨hne, hds⟩, _, rfl | ⟨_, rfl, fs, hfs, rfl⟩, rfl⟩, tail, ht, rfl⟩ |
      ⟨_, ⟨_, rfl, fs, ⟨hne, hfs⟩, rfl⟩, tail, ht, rfl⟩)
    · rw [List.append_nil]
      exact .whole hne hds ht
    · rw [List.append_assoc]
      exact .pointed (.inl hne) hds hfs ht
    · have hnone : IsRow [] := fun _ h => by cases h
      show IsNumber ([] ++ '.' :: (fs ++ tail))
      exact .pointed (.inr hne) hnone hfs ht
  · rintro (@⟨ds, tail, hne, hds, ht⟩ | @⟨ds, fs, tail, hne, hds, hfs, ht⟩)
    · exact .inl ⟨_, ⟨ds, ⟨hne, hds⟩, [], .inl rfl, rfl⟩, tail, ht, by simp⟩
    · cases ds with
      | nil =>
          -- without digits in front of the point it is the second form
          have hfraction : fs ≠ [] := by simpa using hne
          exact .inr ⟨_, ⟨['.'], rfl, fs, ⟨hfraction, hfs⟩, rfl⟩, tail, ht, by simp⟩
      | cons d ds =>
          exact .inl ⟨_, ⟨d :: ds, ⟨by simp, hds⟩, _, .inr ⟨['.'], rfl, fs, hfs, rfl⟩, rfl⟩, tail,
            ht, by simp⟩

theorem matches_name_iff : TokenKind.name.Matches cs ↔ IsName cs :=
  Pattern.isClass_letter.mem_mul_star Pattern.isClass_part

/-- The words of all other kinds are the symbols of the table. -/
theorem matches_symbol_iff {kind : TokenKind} (hnumber : kind ≠ .number)
    (hname : kind ≠ .name) : kind.Matches cs ↔ (cs, kind) ∈ symbols := by
  cases kind with
  | number => exact absurd rfl hnumber
  | name => exact absurd rfl hname
  | foreign construct =>
      -- the table may list the symbols of a construct in another order
      cases construct <;> simp [TokenKind.Matches, TokenKind.pattern, Pattern.mem_oneOf,
        Pattern.mem_word, symbols] <;> grind
  | _ =>
      simp [TokenKind.Matches, TokenKind.pattern, Pattern.mem_oneOf, Pattern.mem_word, symbols,
        or_comm]

end Token

end Graphing
