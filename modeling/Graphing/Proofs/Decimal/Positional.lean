import Graphing.Decimal.Numeral
import Graphing.Proofs.Binary64.Rounding

/-!
# Numerals in positional form

The text of a finite number without a sign is digits with at most one point among them,
never an exponent (`Positional`), and reading it gives the number back
(`exists_positional_text`). The search for the shortest numeral takes only numerals that
read back, and the numeral with every digit, which it falls back on, does so because
rounding leaves numbers of the format alone.
-/

namespace Graphing

-- powers are those of core, whatever other instances there are
attribute [local instance (high)] instPowNat

/-- A row of characters of a class, followed by one outside it, is split there. -/
theorem Text.span_row {p : Char → Bool} {row : List Char} (rest : List Char)
    (hrow : ∀ c ∈ row, p c = true) (hrest : ∀ c ∈ rest.head?, p c = false) :
    (row ++ rest).takeWhile p = row ∧ (row ++ rest).dropWhile p = rest := by
  rw [List.takeWhile_append_of_pos hrow, List.dropWhile_append_of_pos hrow]
  cases rest with
  | nil => simp
  | cons c rest => simp [hrest c rfl]

namespace Decimal

/-- Digits, or digits with a point after the first of them, as the decimal that they
spell. -/
inductive Positional : List Char → Decimal → Prop
  | whole {ds} : ds ≠ [] → (∀ c ∈ ds, c.isDigit = true) → Positional ds ⟨ofDigits ds, 0⟩
  | pointed {ds fs} : ds ≠ [] → (∀ c ∈ ds, c.isDigit = true) →
      (∀ c ∈ fs, c.isDigit = true) →
      Positional (ds ++ '.' :: fs) ⟨ofDigits (ds ++ fs), fs.length⟩

/-! ## Writing -/

theorem isDigit_of_mem_toDigits {n : Nat} {c : Char} (h : c ∈ Nat.toDigits 10 n) :
    c.isDigit = true :=
  Nat.isDigit_of_mem_toDigits (by decide) (by decide) h

theorem ofDigits_toDigits (n : Nat) : ofDigits (Nat.toDigits 10 n) = n :=
  Nat.ofDigitChars_ten_toDigits

theorem ofDigits_append (ds fs : List Char) :
    ofDigits (ds ++ fs) = ofDigits ds * 10 ^ fs.length + ofDigits fs := by
  rw [Nat.mul_comm]
  exact (Nat.ofDigitChars_append 0).trans Nat.ofDigitChars_eq_ofDigitChars_zero

theorem isDigit_of_mem_paddedDigits {width n : Nat} {c : Char}
    (h : c ∈ paddedDigits width n) : c.isDigit = true := by
  rcases List.mem_append.mp h with h | h
  · rw [(List.mem_replicate.mp h).2]
    decide
  · exact isDigit_of_mem_toDigits h

theorem ofDigits_paddedDigits (width n : Nat) : ofDigits (paddedDigits width n) = n := by
  rw [paddedDigits, ofDigits_append, ofDigits_toDigits]
  have hzeros : ∀ k, ofDigits (List.replicate k '0') = 0 :=
    fun k => Nat.ofDigitChars_replicate_zero.trans (Nat.mul_zero _)
  rw [hzeros, Nat.zero_mul, Nat.zero_add]

theorem length_paddedDigits {width n : Nat} (hw : 0 < width) (h : n < 10 ^ width) :
    (paddedDigits width n).length = width := by
  have hlength := (Nat.length_toDigits_le_iff (by decide) hw).mpr h
  rw [paddedDigits, List.length_append, List.length_replicate]
  omega

/-- Every decimal is written in positional form. -/
theorem positional_chars (d : Decimal) : Positional d.chars d := by
  unfold chars
  split
  · rename_i hplaces
    have h := Positional.whole Nat.toDigits_ne_nil
      fun c hc => isDigit_of_mem_toDigits (n := d.digits) hc
    rw [ofDigits_toDigits, ← hplaces] at h
    exact h
  · rename_i hplaces
    have hrest : d.digits % 10 ^ d.places < 10 ^ d.places :=
      Nat.mod_lt _ (Nat.pow_pos (by decide))
    have h := Positional.pointed Nat.toDigits_ne_nil
      (fun c hc => isDigit_of_mem_toDigits (n := d.digits / 10 ^ d.places) hc)
      (fun c hc => @isDigit_of_mem_paddedDigits d.places (d.digits % 10 ^ d.places) c hc)
    rw [ofDigits_append, ofDigits_toDigits, ofDigits_paddedDigits,
      length_paddedDigits (Nat.pos_of_ne_zero hplaces) hrest, Nat.div_add_mod'] at h
    exact h

/-! ## Reading -/

/-- A numeral in positional form is read as what it spells. -/
theorem Positional.read?_eq {cs : List Char} {d : Decimal} (h : Positional cs d) :
    read? cs = some d := by
  cases h with
  | @whole ds hne hds =>
      obtain ⟨htake, hdrop⟩ := Text.span_row [] hds (by simp)
      rw [List.append_nil] at htake hdrop
      simp [read?, htake, hdrop, hne, readExponent?]
  | @pointed ds fs hne hds hfs =>
      obtain ⟨htake, hdrop⟩ := Text.span_row ('.' :: fs) hds (by simp)
      obtain ⟨htake', hdrop'⟩ := Text.span_row [] hfs (by simp)
      rw [List.append_nil] at htake' hdrop'
      simp [read?, htake, hdrop, htake', hdrop', hne, readExponent?]

/-! ## The shortest numeral -/

theorem toBinary64_mk (digits places : Nat) :
    (Decimal.mk digits places).toBinary64 =
      Binary64.round false (digits * Binary64.unitsPerOne) (10 ^ places) := rfl

/-- Zeros at the end of the places do not change the number. -/
theorem toBinary64_trim (digits places : Nat) :
    (trim digits places).toBinary64 = (Decimal.mk digits places).toBinary64 := by
  induction places generalizing digits with
  | zero => rfl
  | succ places ih =>
      rw [trim]
      split
      · rename_i hlast
        rw [ih]
        apply Binary64.round_congr false (Nat.pow_pos (by decide)) (Nat.pow_pos (by decide))
        have hten : digits = digits / 10 * 10 := by omega
        calc digits / 10 * Binary64.unitsPerOne * 10 ^ (places + 1)
            = digits / 10 * 10 * Binary64.unitsPerOne * 10 ^ places := by
              rw [Nat.pow_succ]
              simp only [Nat.mul_comm, Nat.mul_left_comm, Nat.mul_assoc]
          _ = digits * Binary64.unitsPerOne * 10 ^ places := by rw [← hten]
      · rfl

theorem round_mul_five_pow (units places : Nat) :
    Binary64.round false (units * 5 ^ places * 2 ^ places) (10 ^ places) =
      Binary64.round false units 1 := by
  apply Binary64.round_congr false (Nat.pow_pos (by decide)) (by decide)
  rw [Nat.mul_one, Nat.mul_assoc, ← Nat.mul_pow]

/-- The numeral with every digit is read as the number that it was made of. -/
theorem toBinary64_exact (units : Nat) :
    (exact units).toBinary64 = Binary64.round false units 1 := by
  rw [exact, toBinary64_trim, toBinary64_mk, Binary64.unitsPerOne]
  generalize 1074 = places
  exact round_mul_five_pow units places

theorem toBinary64_firstReadingBack {units : Nat} {target : Binary64}
    (h : Binary64.round false units 1 = target) (tries : Nat) (exponent : Int) :
    (firstReadingBack units target tries exponent).toBinary64 = target := by
  induction tries generalizing exponent with
  -- numerals that are found have been read back; only the last resort needs an argument
  | zero => exact (toBinary64_exact units).trans h
  | succ tries ih =>
      rw [firstReadingBack]
      split
      · rename_i d hd
        have hback := List.find?_some hd
        exact eq_of_beq hback
      · exact ih _

theorem toBinary64_shortest (units : Nat) :
    (shortest units).toBinary64 = Binary64.round false units 1 :=
  toBinary64_firstReadingBack rfl 17 _

theorem isNegative_toBinary64 (d : Decimal) : d.toBinary64.isNegative = false :=
  Binary64.isNegative_round false _ _

end Decimal

namespace Binary64

/-- The text of a finite number without a sign is in positional form and reads back as
the number. -/
theorem exists_positional_text {x : Binary64} (hf : x.isFinite = true)
    (hs : x.isNegative = false) :
    ∃ d, Decimal.Positional x.text.toList d ∧ d.toBinary64 = x := by
  have hview := view_of_isFinite hf
  rw [hs] at hview
  have hround := round_of_view hview
  rw [text, hview]
  by_cases hzero : unitsOfMagnitude x.magnitude = 0
  · refine ⟨⟨0, 0⟩, ?_, ?_⟩
    · simp only [hzero, if_true]
      exact Decimal.positional_chars ⟨0, 0⟩
    · rw [hzero] at hround
      rw [Decimal.toBinary64_mk, Nat.zero_mul, Nat.pow_zero]
      exact hround
  · refine ⟨Decimal.shortest (unitsOfMagnitude x.magnitude), ?_, ?_⟩
    · simp only [hzero, if_false, signText, Bool.false_eq_true, String.empty_append,
        Decimal.text, String.toList_ofList]
      exact Decimal.positional_chars _
    · exact (Decimal.toBinary64_shortest _).trans hround

end Binary64

end Graphing
