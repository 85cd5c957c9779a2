import Graphing.CommandLine.Table
import Graphing.Proofs.Expr.Blame

/-!
# The caret under a formula

A formula that is refused is printed as it was given, and a caret is printed below it, as far
from the margin as the column of the error says. Columns count the characters of the whole
formula, and a formula may hold line feeds, which are white space for the scanner. So the
printed text has to be looked at line by line (`Text.lines`): a place in it is a line and a
position (`Text.Place`).

The caret stands below the end of the whole formula. The character that it is meant for stands
on the line where the formula has got to by then. `caret_under_iff` says when the one is right
below the other: exactly for the formulas that are printed on one line.
-/

namespace Graphing

namespace Text

/-! ## Lines and places -/

/-- The lines of a text. -/
def lines (cs : List Char) : List (List Char) :=
  cs.splitOn '\n'

/-- A place in a text: a line and a position in it, both counted from zero. -/
structure Place where
  line : Nat
  position : Nat
  deriving DecidableEq

/-- The characters behind the last line feed. -/
def lastLine (cs : List Char) : List Char :=
  (cs.reverse.takeWhile (· != '\n')).reverse

/-- The place where a text goes on after its first characters. -/
def Place.behind (before : List Char) : Place :=
  ⟨before.count '\n', (lastLine before).length⟩

/-- The place right below another one. -/
def Place.below (place : Place) : Place :=
  ⟨place.line + 1, place.position⟩

/-- The text shows a character at a place, or, if there is none, a line ends there. -/
def ShowsAt (cs : List Char) (place : Place) (c : Option Char) : Prop :=
  ∃ written, (lines cs)[place.line]? = some written ∧ place.position ≤ written.length ∧
    written[place.position]? = c

theorem lines_append_feed (front back : List Char) :
    lines (front ++ '\n' :: back) = lines front ++ lines back :=
  List.splitOnP_append_cons front back (beq_self_eq_true '\n')

theorem length_lines (cs : List Char) : (lines cs).length = cs.count '\n' + 1 := by
  induction cs with
  | nil => rfl
  | cons c cs ih =>
      rw [lines, List.splitOn, List.splitOnP_cons_eq_if_modifyHead, List.count_cons]
      split
      · rw [List.length_cons]
        exact congrArg (· + 1) ih
      · rw [List.length_modifyHead]
        exact ih

/-- The characters of a text without line feeds all stay on its line. -/
theorem bne_feed_of_not_mem {cs : List Char} (h : '\n' ∉ cs) :
    ∀ c ∈ cs, (c != '\n') = true := by
  intro c hc
  rw [bne_iff_ne]
  rintro rfl
  exact h hc

theorem takeWhile_append_feed {cs : List Char} (h : '\n' ∉ cs) (back : List Char) :
    (cs ++ '\n' :: back).takeWhile (· != '\n') = cs :=
  (span_row ('\n' :: back) (bne_feed_of_not_mem h) (by simp)).1

theorem takeWhile_of_not_mem {cs : List Char} (h : '\n' ∉ cs) :
    cs.takeWhile (· != '\n') = cs := by
  have hspan := (span_row [] (bne_feed_of_not_mem h) (by simp)).1
  rw [List.append_nil] at hspan
  exact hspan

theorem lines_of_not_mem {cs : List Char} (h : '\n' ∉ cs) : lines cs = [cs] :=
  List.splitOnP_eq_singleton fun c hc => by simpa using bne_feed_of_not_mem h c hc

/-- A line that has begun goes on up to the next line feed. -/
theorem getElem?_zero_lines {last : List Char} (h : '\n' ∉ last) (rest : List Char) :
    (lines (last ++ rest))[0]? = some (last ++ rest.takeWhile (· != '\n')) := by
  by_cases hrest : '\n' ∈ rest
  · obtain ⟨front, back, rfl, hfront⟩ := List.eq_append_cons_of_mem hrest
    rw [takeWhile_append_feed hfront, ← List.append_assoc, lines_append_feed,
      lines_of_not_mem (by simp [h, hfront])]
    rfl
  · rw [takeWhile_of_not_mem hrest, lines_of_not_mem (by simp [h, hrest])]
    rfl

/-- What stands behind a line feed and holds no other one is the last line. -/
theorem lastLine_append_feed (front : List Char) {last : List Char} (h : '\n' ∉ last) :
    lastLine (front ++ '\n' :: last) = last := by
  have hreverse : (front ++ '\n' :: last).reverse = last.reverse ++ '\n' :: front.reverse := by
    simp
  rw [lastLine, hreverse, takeWhile_append_feed (by simp [h]), List.reverse_reverse]

theorem lastLine_of_not_mem {cs : List Char} (h : '\n' ∉ cs) : lastLine cs = cs := by
  rw [lastLine, takeWhile_of_not_mem (by simp [h]), List.reverse_reverse]

/-- A text with a line feed has one in front of its last line. -/
theorem exists_lastLine {cs : List Char} (h : '\n' ∈ cs) :
    ∃ front last, cs = front ++ '\n' :: last ∧ '\n' ∉ last := by
  obtain ⟨last, front, hsplit, hlast⟩ := List.eq_append_cons_of_mem (List.mem_reverse.mpr h)
  refine ⟨front.reverse, last.reverse, ?_, fun hmem => hlast (List.mem_reverse.mp hmem)⟩
  rw [← List.reverse_reverse cs, hsplit]
  simp

theorem behind_of_not_mem {before : List Char} (h : '\n' ∉ before) :
    Place.behind before = ⟨0, before.length⟩ := by
  rw [Place.behind, List.count_eq_zero_of_not_mem h, lastLine_of_not_mem h]

theorem behind_append_feed (front : List Char) {last : List Char} (h : '\n' ∉ last) :
    Place.behind (front ++ '\n' :: last) = ⟨front.count '\n' + 1, last.length⟩ := by
  rw [Place.behind, lastLine_append_feed front h, List.count_append, List.count_cons_self,
    List.count_eq_zero_of_not_mem h]

/-- The line behind the first characters of a text: what has been written of it, and the rest
up to the next line feed. -/
theorem getElem?_lines_behind (before rest : List Char) :
    (lines (before ++ rest))[(Place.behind before).line]? =
      some (lastLine before ++ rest.takeWhile (· != '\n')) := by
  by_cases h : '\n' ∈ before
  · obtain ⟨front, last, rfl, hlast⟩ := exists_lastLine h
    rw [behind_append_feed front hlast, lastLine_append_feed front hlast, List.append_assoc,
      List.cons_append, lines_append_feed, ← length_lines,
      List.getElem?_append_right (Nat.le_refl _), Nat.sub_self]
    exact getElem?_zero_lines hlast rest
  · rw [behind_of_not_mem h, lastLine_of_not_mem h]
    exact getElem?_zero_lines h rest

/-- What comes next is shown behind the first characters, unless it is a line feed. -/
theorem showsAt_behind {before rest : List Char} {c : Option Char}
    (h : (rest.takeWhile (· != '\n')).head? = c) :
    ShowsAt (before ++ rest) (.behind before) c := by
  refine ⟨_, getElem?_lines_behind before rest, ?_, ?_⟩
  · rw [List.length_append]
    exact Nat.le_add_right _ _
  · rw [Place.behind, List.getElem?_append_right (Nat.le_refl _), Nat.sub_self, ← h]
    exact List.head?_eq_getElem?.symm

/-- A line feed brings a text back to the margin. -/
theorem position_behind_lt {before : List Char} (h : '\n' ∈ before) :
    (Place.behind before).position < before.length := by
  obtain ⟨front, last, rfl, hlast⟩ := exists_lastLine h
  rw [behind_append_feed front hlast, List.length_append, List.length_cons]
  show last.length < front.length + (last.length + 1)
  omega

end Text

/-! ## What an error points at is printed -/

/-- The characters of scanned tokens are those that tokens can begin with. -/
theorem Token.isBeginning_of_scanFrom {offset column : Nat} {cs : List Char}
    {tokens : List Token} (h : scanFrom offset column cs = .ok tokens) :
    ∀ token ∈ tokens, ∀ d ∈ token.lexeme.toList, isBeginning d = true := by
  fun_induction scanFrom offset column cs generalizing tokens with
  | case1 =>
      cases h
      simp
  | case2 _ _ _ _ _ ih => exact ih h
  | case3 => cases h
  | case4 => cases h
  | case5 =>
      rename_i hlongest lexeme stop more hmore ih
      cases h
      intro token htoken d hd
      rcases List.mem_cons.mp htoken with rfl | htoken
      · rw [String.toList_ofList] at hd
        exact isBeginning_of_mem_lexeme hlongest hd
      · exact ih hmore token htoken d hd

namespace ParseError.PointsInto

variable {error : ParseError} {text : String} {column : Nat}

/-- No error points at a line feed. -/
theorem ne_feed (h : error.PointsInto text column) : text.toList[column - 1]? ≠ some '\n' := by
  intro hfeed
  cases hscan : Token.scan text with
  | error failure =>
      obtain ⟨c, -, hstray⟩ := h.stray failure hscan
      obtain rfl : c = '\n' := Option.some.inj (hstray.char.symm.trans hfeed)
      exact absurd hstray.visible (by decide)
  | ok tokens =>
      rcases h.token tokens hscan with hend | ⟨token, htoken, hcolumn⟩
      · rw [h.end_iff.mpr hend, Nat.add_sub_cancel, List.getElem?_eq_none (Nat.le_refl _)] at hfeed
        cases hfeed
      · obtain ⟨hstands, -⟩ := h.quotes tokens hscan token htoken hcolumn
        obtain ⟨d, ds, hlexeme⟩ := List.exists_cons_of_ne_nil hstands.nonempty
        obtain ⟨rest, hrest⟩ := hstands.text
        have hd : text.toList[column - 1]? = some d := by
          rw [← hcolumn, ← List.head?_drop, ← hrest, hlexeme]
          rfl
        obtain rfl : d = '\n' := Option.some.inj (hd.symm.trans hfeed)
        have hbegins := Token.isBeginning_of_scanFrom hscan token htoken '\n' (by simp [hlexeme])
        exact absurd hbegins (by decide)

/-- The text from the column on begins with what the error points at. -/
theorem head?_takeWhile (h : error.PointsInto text column) (rest : List Char) :
    ((text.toList.drop (column - 1) ++ '\n' :: rest).takeWhile (· != '\n')).head? =
      text.toList[column - 1]? := by
  have hfeed := h.ne_feed
  rw [← List.head?_drop] at hfeed ⊢
  cases hdrop : text.toList.drop (column - 1) with
  | nil => simp
  | cons c cs =>
      rw [hdrop] at hfeed
      have hc : c ≠ '\n' := fun heq => hfeed (by rw [heq]; rfl)
      simp [hc]

end ParseError.PointsInto

namespace CommandLine

open Text

/-! ## The caret -/

/-- The place of the first caret that is printed after the first `printed` characters. -/
def caretPlace (cs : List Char) (printed : Nat) : Place :=
  .behind (cs.take printed ++ (cs.drop printed).takeWhile (· != '^'))

/-- A formula two positions from the margin, a caret `indent` positions further below it, and
what is printed after that. -/
def display (formula : List Char) (indent : Nat) (message : List Char) : List Char :=
  ' ' :: ' ' :: formula ++ '\n' :: (List.replicate (2 + indent) ' ' ++ '^' :: '\n' :: message)

section Display

variable {formula : List Char} {indent : Nat}

theorem take_display (h : indent ≤ formula.length) (message : List Char) :
    (display formula indent message).take (2 + indent) = ' ' :: ' ' :: formula.take indent := by
  rw [Nat.add_comm, display, List.cons_append, List.cons_append, List.take_succ_cons,
    List.take_succ_cons, List.take_append_of_le_length h]

theorem feed_not_mem_blanks (n : Nat) : '\n' ∉ List.replicate n ' ' := by
  intro hmem
  exact absurd (List.eq_of_mem_replicate hmem) (by decide)

/-- The caret stands below the last line of the formula. -/
theorem caretPlace_display (formula : List Char) (indent : Nat) (message : List Char) :
    caretPlace (display formula indent message) (2 + formula.length) =
      ⟨formula.count '\n' + 1, 2 + indent⟩ := by
  have hsplit : display formula indent message = (' ' :: ' ' :: formula) ++
      ('\n' :: List.replicate (2 + indent) ' ' ++ '^' :: '\n' :: message) := rfl
  have hlength : 2 + formula.length = (' ' :: ' ' :: formula).length := by simp; omega
  -- nothing but blanks stands before it on its line
  have hblanks : ∀ c ∈ '\n' :: List.replicate (2 + indent) ' ', (c != '^') = true := by
    intro c hc
    rcases List.mem_cons.mp hc with rfl | hc
    · decide
    · rw [List.eq_of_mem_replicate hc]
      decide
  rw [caretPlace, hsplit, hlength, List.take_left, List.drop_left,
    (span_row ('^' :: '\n' :: message) hblanks (by simp)).1,
    behind_append_feed _ (feed_not_mem_blanks _), List.length_replicate]
  rfl

theorem getElem?_lines_display (formula : List Char) (indent : Nat) (message : List Char) :
    (lines (display formula indent message))[formula.count '\n' + 1]? =
      some (List.replicate (2 + indent) ' ' ++ ['^']) := by
  have hsplit : display formula indent message = (' ' :: ' ' :: formula ++ ['\n']) ++
      ((List.replicate (2 + indent) ' ' ++ ['^']) ++ '\n' :: message) := by
    simp [display]
  have hplace : Place.behind (' ' :: ' ' :: formula ++ ['\n']) = ⟨formula.count '\n' + 1, 0⟩ :=
    behind_append_feed _ List.not_mem_nil
  have hline := getElem?_lines_behind (' ' :: ' ' :: formula ++ ['\n'])
    ((List.replicate (2 + indent) ' ' ++ ['^']) ++ '\n' :: message)
  have hcaret : '\n' ∉ List.replicate (2 + indent) ' ' ++ ['^'] := by
    rw [List.mem_append]
    rintro (hmem | hmem)
    · exact feed_not_mem_blanks _ hmem
    · exact absurd (List.mem_singleton.mp hmem) (by decide)
  rw [hplace, lastLine_append_feed _ List.not_mem_nil, ← hsplit,
    takeWhile_append_feed hcaret] at hline
  exact hline

/-- The place of a caret below the last line, and the place of what it is meant for: line feeds
before that bring it back to the margin, and those behind it push the caret away. -/
theorem caret_eq_below_iff (h : indent ≤ formula.length) :
    (⟨formula.count '\n' + 1, 2 + indent⟩ : Place) =
        (Place.behind (' ' :: ' ' :: formula.take indent)).below ↔ '\n' ∉ formula := by
  have hlength : (' ' :: ' ' :: formula.take indent).length = 2 + indent := by
    rw [List.length_cons, List.length_cons, List.length_take_of_le h]
    omega
  constructor
  · intro heq hfeed
    obtain ⟨hline, hposition⟩ := Place.mk.inj heq
    rw [← List.take_append_drop indent formula, List.mem_append] at hfeed
    rcases hfeed with hbefore | hbehind
    · have hmem : '\n' ∈ ' ' :: ' ' :: formula.take indent := by simp [hbefore]
      have hlt := position_behind_lt hmem
      omega
    · have hcount : formula.count '\n' =
          (formula.take indent).count '\n' + (formula.drop indent).count '\n' := by
        rw [← List.count_append, List.take_append_drop]
      have hpos := List.count_pos_iff.mpr hbehind
      have hshown : (Place.behind (' ' :: ' ' :: formula.take indent)).line =
          (formula.take indent).count '\n' := rfl
      omega
  · intro hfeed
    have htake : '\n' ∉ ' ' :: ' ' :: formula.take indent := by
      simp only [List.mem_cons, not_or]
      exact ⟨by decide, by decide, fun hmem => hfeed (List.mem_of_mem_take hmem)⟩
    rw [behind_of_not_mem htake, hlength, List.count_eq_zero_of_not_mem hfeed]
    rfl

end Display

/-- A curve that is refused with a parse error has a text with this error. -/
theorem parse_of_ofText {name text : String} {cache : Cache} {error : ParseError}
    (h : (Curve.ofText name text cache).result = .error (.parse error)) :
    Expr.parse text = .error error := by
  unfold Curve.ofText compileText at h
  cases hparse : Expr.parse text with
  | error reason =>
      rw [hparse] at h
      cases h
      rfl
  | ok formula =>
      rw [hparse] at h
      -- what has been parsed is refused by the compiler only
      cases hanswer : (cache.getOrCompile formula).answer with
      | error reason => simp [hanswer, Outcome.map, Outcome.report, Except.map] at h
      | ok artifact => simp [hanswer, Outcome.map, Outcome.report, Except.map] at h

/-- What is printed about a formula whose error has a column: the formula, the caret and a
message. -/
theorem tabulate_errors {invocation : Invocation} {error : ParseError} {column : Nat}
    (hrefused : (Curve.ofText "f" invocation.expression Cache.empty).result =
      .error (.parse error))
    (hcolumn : error.column? = some column) :
    ∃ message, (tabulate .plain invocation).errors.toList =
      display invocation.expression.toList (column - 1) message := by
  have hformula : (FormulaError.parse error).column? = some column := hcolumn
  have hresponse : (tabulate .plain invocation).errors =
      complaint .plain invocation.expression (.parse error) := by
    simp only [tabulate, hrefused]
  refine ⟨("Error:" ++ " " ++ (FormulaError.parse error).message ++ "\n").toList, ?_⟩
  rw [hresponse, complaint, hformula, display, Nat.add_comm 2]
  simp [pointer, List.replicate_succ, Text.Ink.boldRed, Text.Ink.paint, String.toList_append]

/-- The caret that is meant for a character of a formula stands right below it if and only if
the formula is printed on one line. In every case the formula is printed as it is, the character
that the error points at is shown at the place that its column makes of it (or a line ends
there), and the line of the caret holds nothing else. -/
theorem caret_under_iff {invocation : Invocation} {error : ParseError} {column : Nat}
    (hrefused : (Curve.ofText "f" invocation.expression Cache.empty).result =
      .error (.parse error))
    (hcolumn : error.column? = some column) :
    let formula := invocation.expression.toList
    let errors := (tabulate .plain invocation).errors.toList
    let shown := Place.behind (errors.take (2 + (column - 1)))
    let caret := caretPlace errors (2 + formula.length)
    formula <+: errors.drop 2 ∧
    ShowsAt errors shown formula[column - 1]? ∧
    (lines errors)[caret.line]? = some (List.replicate caret.position ' ' ++ ['^']) ∧
    (caret = shown.below ↔ '\n' ∉ formula) := by
  intro formula errors shown caret
  obtain ⟨message, hprinted⟩ := tabulate_errors hrefused hcolumn
  have hempty : error ≠ .empty := by
    rintro rfl
    cases hcolumn
  obtain ⟨other, hpoints⟩ := Expr.pointsInto_of_parse (parse_of_ofText hrefused) hempty
  obtain rfl : column = other := Option.some.inj (hcolumn.symm.trans hpoints.column?)
  have hle : column - 1 ≤ formula.length := Nat.sub_le_of_le_add hpoints.le_end
  have hshown : shown = .behind (' ' :: ' ' :: formula.take (column - 1)) :=
    congrArg Place.behind ((congrArg _ hprinted).trans (take_display hle message))
  have hcaret : caret = ⟨formula.count '\n' + 1, 2 + (column - 1)⟩ :=
    (congrArg (caretPlace · _) hprinted).trans (caretPlace_display formula _ message)
  refine ⟨?_, ?_, ?_, ?_⟩
  · rw [show errors = _ from hprinted]
    exact List.prefix_append _ _
  · have hsplit : errors = (' ' :: ' ' :: formula.take (column - 1)) ++
        (formula.drop (column - 1) ++
          '\n' :: (List.replicate (2 + (column - 1)) ' ' ++ '^' :: '\n' :: message)) := by
      rw [List.cons_append, List.cons_append, ← List.append_assoc, List.take_append_drop]
      exact hprinted
    rw [hshown, hsplit]
    exact showsAt_behind (hpoints.head?_takeWhile _)
  · rw [hcaret, show errors = _ from hprinted]
    exact getElem?_lines_display formula (column - 1) message
  · rw [hshown, hcaret]
    exact caret_eq_below_iff hle

/-- The command asked for a formula and nothing else. -/
def plainly (expression : String) : Invocation :=
  ⟨expression, .neg (.ofNat 10), .ofNat 10, 11, false⟩

/-- A tab counts as one position, and so does a letter that takes two bytes. -/
theorem caret_under_iff_tab :
    caretPlace (tabulate .plain (plainly "x\t+ π")).errors.toList 7 =
      (Place.behind ((tabulate .plain (plainly "x\t+ π")).errors.toList.take 6)).below := by
  have hrefused : (Curve.ofText "f" (plainly "x\t+ π").expression Cache.empty).result =
      .error (.parse (.strayCharacter 5 'π')) := by decide +kernel
  exact (caret_under_iff hrefused rfl).2.2.2.mpr (by decide)

/-- The dollar sign is the first character of the second line, but the caret on the third line
stands six positions from the margin. -/
theorem caret_astray :
    Expr.parse "x +\n$" = .error (.strayCharacter 5 '$') ∧
    (tabulate .plain (plainly "x +\n$")).errors.toList.take 8 = "  x +\n$\n".toList ∧
    Place.behind ((tabulate .plain (plainly "x +\n$")).errors.toList.take 6) = ⟨1, 0⟩ ∧
    caretPlace (tabulate .plain (plainly "x +\n$")).errors.toList 7 = ⟨2, 6⟩ ∧
    ¬ caretPlace (tabulate .plain (plainly "x +\n$")).errors.toList 7 =
      (Place.behind ((tabulate .plain (plainly "x +\n$")).errors.toList.take 6)).below := by
  decide +kernel

end CommandLine

end Graphing
