import Graphing.Expr.Fingerprint
import Graphing.Proofs.Expr.FieldMeaning

/-!
# Equality, items and fingerprints

The cache tells formulas apart by two walks over their trees: `Expr.equal` compares two of them,
and `Expr.items` spells one of them out for the digest. Both come to the same. Formulas are equal
if they agree once their literals are blanked out and their literals are the same words from left
to right, so a NaN equals itself and the two zeros differ; and formulas are equal if and only if
they have the same items.

Items have no lengths and no end marks, so this needs that they can be read back in one way only.
The first item is the kind of the node, and the kind settles what comes next and how many parts
follow. So two formulas with any items behind them make one row only if the formulas are equal and
the rests too (`plainItems_append_inj`), from which it also follows that no formula's items are the
front of another's.

The digest is told less than the items say: a number for a kind, a word or an operator alike, and
a text for a name (`Item.plain`). These are enough. Two different formulas with one fingerprint are
two different rows that the digest itself sends to one value.
-/

namespace Graphing

/-- What the digest is told of an item: a number or a text, but not what it stands for. -/
def Item.plain : Item → UInt64 ⊕ String
  | .node kind => .inl (Fingerprint.kindWord kind)
  | .word bits => .inl bits
  | .name text => .inr text
  | .operator op => .inl (Fingerprint.operatorWord op)

namespace Fingerprint

/-- The digest of a row of numbers and texts. -/
def ofPlain (row : List (UInt64 ⊕ String)) : Fingerprint :=
  ⟨rotate ((row.flatMap (Sum.elim (fun word => [word])
    fun name => [Text.digest name, 0xff])).foldl absorb 0)⟩

/-- The digest does not see what the numbers and texts stand for. -/
theorem ofItems_eq_ofPlain (items : List Item) :
    ofItems items = ofPlain (items.map Item.plain) := by
  have hwords : itemWords = Sum.elim (fun word => [word])
      (fun name => [Text.digest name, 0xff]) ∘ Item.plain := by
    funext item
    cases item <;> rfl
  rw [ofItems, ofPlain, List.flatMap_map, hwords]
  rfl

/-- Different rows that the digest does not tell apart. -/
def Collide (row other : List (UInt64 ⊕ String)) : Prop :=
  row ≠ other ∧ ofPlain row = ofPlain other

theorem kindWord_injective {k k' : NodeKind} (h : kindWord k = kindWord k') : k = k' := by
  revert h
  cases k <;> cases k' <;> decide

theorem operatorWord_injective {op op' : Operator} (h : operatorWord op = operatorWord op') :
    op = op' := by
  revert h
  cases op <;> cases op' <;> decide

end Fingerprint

namespace Expr

/-! ## Equality by parts -/

/-- The literals of a formula, from left to right. -/
def literals {α : Type} : Expr α → List α
  | .lit value => [value]
  | .ident _ => []
  | .neg operand => operand.literals
  | .pos operand => operand.literals
  | .binary _ left right => left.literals ++ right.literals
  | .call _ argument => argument.literals
  | .group inner => inner.literals

/-- The formula with its literals blanked out, which leaves its shape, operators and names. -/
def blanked (formula : Formula) : Expr Unit :=
  formula.map fun _ => ()

/-- The words of the literals, from left to right. -/
def words (formula : Formula) : List UInt64 :=
  formula.literals.map Binary64.bits

theorem length_literals_map {α β : Type} (f : α → β) (e : Expr α) :
    (e.map f).literals.length = e.literals.length := by
  induction e with
  | lit value => rfl
  | ident name => rfl
  | binary op left right ihLeft ihRight => simp [map, literals, ihLeft, ihRight]
  | neg operand ih => exact ih
  | pos operand ih => exact ih
  | call name argument ih => exact ih
  | group inner ih => exact ih

/-- Formulas that agree apart from their literals have as many of them. -/
theorem length_words_of_blanked {a b : Formula} (h : a.blanked = b.blanked) :
    a.words.length = b.words.length := by
  have hlength : a.blanked.literals.length = b.blanked.literals.length := by rw [h]
  rw [blanked, blanked, length_literals_map, length_literals_map] at hlength
  rw [words, words, List.length_map, List.length_map, hlength]

theorem eq_of_blanked {a b : Formula} (h : a.blanked = b.blanked) (hwords : a.words = b.words) :
    a = b := by
  induction a generalizing b with
  | lit value =>
      cases b with
      | lit other =>
          have hbits : value.bits = other.bits := (List.cons.inj hwords).1
          exact congrArg (fun bits => lit (Binary64.mk bits)) hbits
      | _ => cases h
  | ident name =>
      cases b with
      | ident other =>
          injection h with hname
          rw [hname]
      | _ => cases h
  | neg operand ih =>
      cases b with
      | neg other =>
          injection h with hoperand
          rw [ih hoperand hwords]
      | _ => cases h
  | pos operand ih =>
      cases b with
      | pos other =>
          injection h with hoperand
          rw [ih hoperand hwords]
      | _ => cases h
  | binary op left right ihLeft ihRight =>
      cases b with
      | binary op' left' right' =>
          injection h with hop hleft hright
          -- the left operands hold equally many words, so the row is cut at one place
          have happend : left.words ++ right.words = left'.words ++ right'.words := by
            simpa [words, literals] using hwords
          obtain ⟨hwordsLeft, hwordsRight⟩ :=
            List.append_inj happend (length_words_of_blanked hleft)
          rw [hop, ihLeft hleft hwordsLeft, ihRight hright hwordsRight]
      | _ => cases h
  | call name argument ih =>
      cases b with
      | call other argument' =>
          injection h with hname hargument
          rw [hname, ih hargument hwords]
      | _ => cases h
  | group inner ih =>
      cases b with
      | group other =>
          injection h with hinner
          rw [ih hinner hwords]
      | _ => cases h

/-- Formulas are equal if and only if they have the same shape, operators and names and the same
words as literals. -/
theorem equal_eq_true_iff_blanked {a b : Formula} :
    a.equal b = true ↔ a.blanked = b.blanked ∧ a.words = b.words := by
  rw [equal_eq_true_iff]
  constructor
  · rintro rfl
    exact ⟨rfl, rfl⟩
  · rintro ⟨hblanked, hwords⟩
    exact eq_of_blanked hblanked hwords

-- a NaN with a payload, the two zeros, parentheses
example :
    (lit ⟨0x7ff8000000000001⟩ : Formula).equal (lit ⟨0x7ff8000000000001⟩) = true ∧
    (lit (.zero false) : Formula).equal (lit (.zero true)) = false ∧
    (ident "x" : Formula).equal (group (ident "x")) = false := by decide

theorem equivalence_equal : Equivalence fun a b : Formula => a.equal b = true where
  refl _ := equal_eq_true_iff.mpr rfl
  symm h := equal_eq_true_iff.mpr (equal_eq_true_iff.mp h).symm
  trans h h' := equal_eq_true_iff.mpr ((equal_eq_true_iff.mp h).trans (equal_eq_true_iff.mp h'))

/-! ## Reading items back -/

/-- What the digest is told of a formula. -/
def plainItems (formula : Formula) : List (UInt64 ⊕ String) :=
  formula.items.map Item.plain

/-- The kind of the topmost node. -/
def kind {α : Type} : Expr α → NodeKind
  | .lit _ => .lit
  | .ident _ => .ident
  | .neg _ => .neg
  | .pos _ => .pos
  | .binary _ _ _ => .binary
  | .call _ _ => .call
  | .group _ => .group

theorem head?_plainItems (formula : Formula) :
    formula.plainItems.head? = some (.inl (Fingerprint.kindWord formula.kind)) := by
  cases formula <;> rfl

theorem plainItems_binary (op : Operator) (left right : Formula) :
    (binary op left right).plainItems =
      .inl (Fingerprint.kindWord .binary) :: .inl (Fingerprint.operatorWord op) ::
        (left.plainItems ++ right.plainItems) := by
  rw [plainItems, items, List.map_cons, List.map_cons, List.map_append]
  rfl

section Reading

variable {a b : Formula} {rest rest' : List (UInt64 ⊕ String)}

theorem kind_eq_of_append (h : a.plainItems ++ rest = b.plainItems ++ rest') :
    a.kind = b.kind := by
  have hhead := congrArg List.head? h
  rw [List.head?_append, List.head?_append, head?_plainItems, head?_plainItems] at hhead
  exact Fingerprint.kindWord_injective (Sum.inl.inj (Option.some.inj hhead))

/-- Two formulas with any rows behind them are told as one row only if they are equal and the rows
behind them too. -/
theorem plainItems_append_inj (h : a.plainItems ++ rest = b.plainItems ++ rest') :
    a = b ∧ rest = rest' := by
  induction a generalizing b rest rest' with
  | lit value =>
      cases b with
      | lit other =>
          injection h with _ h
          injection h with hword hrest
          have hbits : value.bits = other.bits := Sum.inl.inj hword
          exact ⟨congrArg (fun bits => lit (Binary64.mk bits)) hbits, hrest⟩
      | _ => cases kind_eq_of_append h
  | ident name =>
      cases b with
      | ident other =>
          injection h with _ h
          injection h with hname hrest
          exact ⟨congrArg ident (Sum.inr.inj hname), hrest⟩
      | _ => cases kind_eq_of_append h
  | neg operand ih =>
      cases b with
      | neg other =>
          injection h with _ h
          obtain ⟨rfl, hrest⟩ := ih h
          exact ⟨rfl, hrest⟩
      | _ => cases kind_eq_of_append h
  | pos operand ih =>
      cases b with
      | pos other =>
          injection h with _ h
          obtain ⟨rfl, hrest⟩ := ih h
          exact ⟨rfl, hrest⟩
      | _ => cases kind_eq_of_append h
  | binary op left right ihLeft ihRight =>
      cases b with
      | binary op' left' right' =>
          rw [plainItems_binary, plainItems_binary, List.cons_append, List.cons_append,
            List.cons_append, List.cons_append, List.append_assoc, List.append_assoc] at h
          injection h with _ h
          injection h with hop h
          -- the right operand and what is behind it are the rest of the left one
          obtain ⟨rfl, hright⟩ := ihLeft h
          obtain ⟨rfl, hrest⟩ := ihRight hright
          rw [Fingerprint.operatorWord_injective (Sum.inl.inj hop)]
          exact ⟨rfl, hrest⟩
      | _ => cases kind_eq_of_append h
  | call name argument ih =>
      cases b with
      | call other argument' =>
          injection h with _ h
          injection h with hname h
          obtain ⟨rfl, hrest⟩ := ih h
          rw [Sum.inr.inj hname]
          exact ⟨rfl, hrest⟩
      | _ => cases kind_eq_of_append h
  | group inner ih =>
      cases b with
      | group other =>
          injection h with _ h
          obtain ⟨rfl, hrest⟩ := ih h
          exact ⟨rfl, hrest⟩
      | _ => cases kind_eq_of_append h

theorem items_append_inj {rest rest' : List Item} (h : a.items ++ rest = b.items ++ rest') :
    a = b := by
  have hplain := congrArg (List.map Item.plain) h
  rw [List.map_append, List.map_append] at hplain
  exact (plainItems_append_inj hplain).1

end Reading

/-- Rows that spell formulas without end marks: equal formulas, and no others, have the same row,
and no row is the front of a longer one. -/
structure IsPrefixCode {ι : Type} (row : Formula → List ι) : Prop where
  same_iff : ∀ a b, row a = row b ↔ a.equal b = true
  front_eq : ∀ a b, row a <+: row b → row a = row b

theorem isPrefixCode_of_append_inj {ι : Type} {row : Formula → List ι}
    (inj : ∀ {a b : Formula} {rest rest' : List ι},
      row a ++ rest = row b ++ rest' → a = b) : IsPrefixCode row where
  same_iff a b := by
    rw [equal_eq_true_iff]
    constructor
    · intro hrow
      exact inj (congrArg (· ++ []) hrow)
    · intro hequal
      rw [hequal]
  front_eq a b := by
    rintro ⟨rest, hrest⟩
    have happend : row a ++ rest = row b ++ [] := hrest.trans (List.append_nil _).symm
    rw [inj happend]

theorem isPrefixCode_items : IsPrefixCode items :=
  isPrefixCode_of_append_inj items_append_inj

theorem isPrefixCode_plainItems : IsPrefixCode plainItems :=
  isPrefixCode_of_append_inj fun h => (plainItems_append_inj h).1

/-! ## Fingerprints -/

theorem fingerprint_eq_ofPlain (formula : Formula) :
    formula.fingerprint = .ofPlain formula.plainItems :=
  Fingerprint.ofItems_eq_ofPlain formula.items

/-- Fingerprints agree for equal formulas and otherwise only by a collision in the digest. -/
theorem fingerprint_eq_iff {a b : Formula} :
    a.fingerprint = b.fingerprint ↔
      a.equal b = true ∨ Fingerprint.Collide a.plainItems b.plainItems := by
  have hsame := isPrefixCode_plainItems.same_iff a b
  rw [fingerprint_eq_ofPlain, fingerprint_eq_ofPlain, ← hsame, Fingerprint.Collide]
  constructor
  · intro hdigest
    by_cases hrow : a.plainItems = b.plainItems
    · exact .inl hrow
    · exact .inr ⟨hrow, hdigest⟩
  · rintro (hrow | ⟨_, hdigest⟩)
    · rw [hrow]
    · exact hdigest

/-- Equality of formulas and what the digest is told of them agree. Equality is an equivalence, on
every formula, NaN literals included, and holds exactly for formulas of the same shape, operators
and names whose literals are the same words. The items of two formulas are the same exactly if the
formulas are equal, and those of one are never the front of those of another; the same is true of
the bare numbers and texts. So equal formulas have equal fingerprints, and those of different
formulas are equal only if the digest sends two different rows to one value. -/
theorem equal_agrees_with_items :
    Equivalence (fun a b : Formula => a.equal b = true) ∧
    (∀ a b : Formula, a.equal b = true ↔ a.blanked = b.blanked ∧ a.words = b.words) ∧
    IsPrefixCode items ∧ IsPrefixCode plainItems ∧
    ∀ a b : Formula, a.fingerprint = b.fingerprint ↔
      a.equal b = true ∨ Fingerprint.Collide a.plainItems b.plainItems := by
  refine ⟨equivalence_equal, ?_, isPrefixCode_items, isPrefixCode_plainItems, ?_⟩
  · intro a b
    exact equal_eq_true_iff_blanked
  · intro a b
    exact fingerprint_eq_iff

end Expr

end Graphing
