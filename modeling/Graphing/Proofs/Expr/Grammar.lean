import Graphing.Expr.Parser

/-!
# The grammar of formulas

The grammar is stated here without the parser and without a depth budget:

* `Derives phrase tokens e rest` — the tokens in front of `rest` spell the formula
  `e` as a phrase: a chain of one of the three levels, a signed operand or a primary;
* `Expr.At e depth s` — the formula `s` stands at a depth in `e`, where the operands of
  a chain lie one deeper each, from left to right.

`Expr.deepest` computes the largest depth at which something stands, and
`forall_at_le_iff` ties it to the relation.
-/

namespace Graphing

/-- The operators that continue a chain, as the tokens that spell them. -/
inductive ChainLevel.Joins : ChainLevel → TokenKind → Operator → Prop
  | add : Joins .sum .plus .add
  | sub : Joins .sum .minus .sub
  | mul : Joins .product .times .mul
  | div : Joins .product .divide .div
  | mod : Joins .product .modulo .mod
  | pow : Joins .power .power .pow

/-- What the tokens of a formula are grouped into. -/
inductive Phrase where
  | chain (level : ChainLevel)
  | signed
  | primary

/-- What the operands of a chain are: chains of the next tighter level, or signed
operands in a power. -/
def ChainLevel.operandPhrase : ChainLevel → Phrase
  | sum => .chain .product
  | product => .chain .power
  | power => .signed

/-- The number that a token spells, rounded to double precision. -/
def Token.value? (token : Token) : Option Binary64 :=
  (Decimal.read? token.lexeme.toList).map Decimal.toBinary64

/-- An opening parenthesis comes next. -/
def OpensParen (tokens : List Token) : Prop :=
  ∃ token ∈ tokens.head?, token.kind = .openParen

/-- The tokens in front of `rest` spell a formula as a phrase. A chain is an operand,
or a shorter chain joined with one more operand on its right. -/
inductive Derives : Phrase → List Token → Formula → List Token → Prop
  | first {level tokens e rest} :
      Derives level.operandPhrase tokens e rest → Derives (.chain level) tokens e rest
  | next {level tokens l token after op r rest} :
      Derives (.chain level) tokens l (token :: after) → level.Joins token.kind op →
      Derives level.operandPhrase after r rest →
      Derives (.chain level) tokens (.binary op l r) rest
  | minus {token tokens e rest} : token.kind = .minus →
      Derives .signed tokens e rest → Derives .signed (token :: tokens) (.neg e) rest
  | plus {token tokens e rest} : token.kind = .plus →
      Derives .signed tokens e rest → Derives .signed (token :: tokens) (.pos e) rest
  | unsigned {tokens e rest} : Derives .primary tokens e rest → Derives .signed tokens e rest
  | number {token value rest} : token.kind = .number → token.value? = some value →
      Derives .primary (token :: rest) (.lit value) rest
  | name {token rest} : token.kind = .name → ¬ OpensParen rest →
      Derives .primary (token :: rest) (.ident token.lexeme) rest
  | call {token opening tokens e closing rest} : token.kind = .name →
      opening.kind = .openParen → Derives (.chain .sum) tokens e (closing :: rest) →
      closing.kind = .closeParen →
      Derives .primary (token :: opening :: tokens) (.call token.lexeme e) rest
  | group {opening tokens e closing rest} : opening.kind = .openParen →
      Derives (.chain .sum) tokens e (closing :: rest) → closing.kind = .closeParen →
      Derives .primary (opening :: tokens) (.group e) rest

/-- A number token spells a finite number. -/
def Token.Readable (token : Token) : Prop :=
  token.kind = .number → ∃ value, token.value? = some value ∧ value.isFinite = true

/-- A name is one of the built-in functions', whatever the case of its letters. -/
def Builtin.Named (name : String) : Prop :=
  ∃ function : Builtin, Text.equalIgnoringCase function.name name = true

namespace Operator

/-- The chains that an operator belongs to. -/
def level : Operator → ChainLevel
  | add => .sum
  | sub => .sum
  | mul => .product
  | div => .product
  | mod => .product
  | pow => .power

end Operator

namespace Expr

variable {α : Type}

/-- The names that a formula calls. -/
def calledNames : Expr α → List String
  | .lit _ => []
  | .ident _ => []
  | .neg operand => operand.calledNames
  | .pos operand => operand.calledNames
  | .binary _ left right => left.calledNames ++ right.calledNames
  | .call name argument => name :: argument.calledNames
  | .group inner => inner.calledNames

/-- The operands of the longest chain of a level that ends in a formula, from left
to right; the formula itself if it is no such chain. -/
def operands (level : ChainLevel) : Expr α → List (Expr α)
  | .binary op left right =>
      if op.level = level then left.operands level ++ [right] else [.binary op left right]
  | e => [e]

/-- A formula stands at a depth in another one. Signs, parentheses and calls put
their operand one deeper, and a chain its operands at as many deeper as there are
operands before them. -/
inductive At : Expr α → Nat → Expr α → Prop
  | root {e} : At e 0 e
  | neg {e depth s} : At e depth s → At (.neg e) (depth + 1) s
  | pos {e depth s} : At e depth s → At (.pos e) (depth + 1) s
  | group {e depth s} : At e depth s → At (.group e) (depth + 1) s
  | call {name e depth s} : At e depth s → At (.call name e) (depth + 1) s
  | operand {op l r index o depth s} :
      ((Expr.binary op l r).operands op.level)[index]? = some o → At o depth s →
      At (.binary op l r) (index + depth) s

/-- The number of operators of the longest chain of a level that ends in a
formula. -/
def chainLength (level : ChainLevel) : Expr α → Nat
  | .binary op left _ => if op.level = level then left.chainLength level + 1 else 0
  | _ => 0

/-- The largest depth at which something stands in a formula. -/
def deepest : Expr α → Nat
  | .lit _ => 0
  | .ident _ => 0
  | .neg operand => operand.deepest + 1
  | .pos operand => operand.deepest + 1
  | .binary op left right =>
      max left.deepest (left.chainLength op.level + 1 + right.deepest)
  | .call _ argument => argument.deepest + 1
  | .group inner => inner.deepest + 1

/-! ## Depths -/

theorem length_operands (level : ChainLevel) (e : Expr α) :
    (e.operands level).length = e.chainLength level + 1 := by
  induction e with
  | binary op left right ihLeft _ =>
      by_cases same : op.level = level
      · simp [operands, chainLength, same, ihLeft]
      · simp [operands, chainLength, same]
  | _ => rfl

/-- No operand of a chain reaches deeper than the chain. -/
theorem index_add_deepest_le {level : ChainLevel} {e o : Expr α} {index : Nat}
    (h : (e.operands level)[index]? = some o) : index + o.deepest ≤ e.deepest := by
  have self_le : ∀ {e : Expr α}, [e][index]? = some o → index + o.deepest ≤ e.deepest := by
    intro e h
    obtain ⟨hi, rfl⟩ := List.getElem?_eq_some_iff.mp h
    simp only [List.length_singleton, Nat.lt_one_iff] at hi
    simp [hi]
  induction e with
  | binary op left right ihLeft _ =>
      by_cases same : op.level = level
      · subst same
        simp only [operands, if_true] at h
        simp only [deepest]
        by_cases inside : index < (left.operands op.level).length
        · rw [List.getElem?_append_left inside] at h
          have := ihLeft h
          omega
        · rw [List.getElem?_append_right (by omega)] at h
          obtain ⟨hi, rfl⟩ := List.getElem?_eq_some_iff.mp h
          simp only [List.length_singleton, Nat.lt_one_iff] at hi
          have hlen := left.length_operands op.level
          simp only [List.getElem_singleton]
          omega
      · simp only [operands, if_neg same] at h
        exact self_le h
  | _ => exact self_le h

/-- Nothing stands deeper than `deepest`. -/
theorem At.le_deepest {e s : Expr α} {depth : Nat} (h : e.At depth s) :
    depth ≤ e.deepest := by
  induction h with
  | root => exact Nat.zero_le _
  | neg _ ih => exact Nat.succ_le_succ ih
  | pos _ ih => exact Nat.succ_le_succ ih
  | group _ ih => exact Nat.succ_le_succ ih
  | call _ ih => exact Nat.succ_le_succ ih
  | operand ho _ ih => exact Nat.le_trans (Nat.add_le_add_left ih _) (index_add_deepest_le ho)

/-- A depth that is reached in the left part of a chain is reached in the chain. -/
theorem At.left {op : Operator} {left right s : Expr α} {depth : Nat} (h : left.At depth s) :
    ∃ s', (Expr.binary op left right).At depth s' := by
  by_cases same : ∃ op' l r, left = .binary op' l r ∧ op'.level = op.level
  · -- the left part is the same chain, one operand shorter
    obtain ⟨op', l, r, rfl, hlevel⟩ := same
    cases h with
    | root => exact ⟨_, .root⟩
    | operand ho hs =>
        rw [hlevel] at ho
        have hi := (List.getElem?_eq_some_iff.mp ho).1
        refine ⟨_, .operand ?_ hs⟩
        rw [operands, if_pos rfl, List.getElem?_append_left hi]
        exact ho
  · -- the left part is the first operand
    have hone : left.operands op.level = [left] := by
      cases left with
      | binary op' l r =>
          have hne : op'.level ≠ op.level := fun he => same ⟨op', l, r, rfl, he⟩
          simp [operands, hne]
      | _ => rfl
    refine ⟨s, ?_⟩
    rw [← Nat.zero_add depth]
    refine .operand ?_ h
    rw [operands, if_pos rfl, hone]
    rfl

/-- Something stands at the depth `deepest`. -/
theorem exists_at_deepest (e : Expr α) : ∃ s, e.At e.deepest s := by
  induction e with
  | lit value => exact ⟨_, .root⟩
  | ident name => exact ⟨_, .root⟩
  | neg operand ih => exact ih.imp fun _ h => .neg h
  | pos operand ih => exact ih.imp fun _ h => .pos h
  | call name argument ih => exact ih.imp fun _ h => .call h
  | group inner ih => exact ih.imp fun _ h => .group h
  | binary op left right ihLeft ihRight =>
      obtain ⟨s, hs⟩ := ihLeft
      obtain ⟨t, ht⟩ := ihRight
      rw [deepest]
      rcases Nat.le_total left.deepest (left.chainLength op.level + 1 + right.deepest) with
        hle | hle
      · rw [Nat.max_eq_right hle]
        refine ⟨t, .operand ?_ ht⟩
        rw [operands, if_pos rfl, ← left.length_operands op.level, List.getElem?_concat_length]
      · rw [Nat.max_eq_left hle]
        exact hs.left

/-- Nothing stands deeper than a bound exactly if `deepest` is within it. -/
theorem forall_at_le_iff {e : Expr α} {bound : Nat} :
    (∀ depth s, e.At depth s → depth ≤ bound) ↔ e.deepest ≤ bound := by
  constructor
  · intro h
    obtain ⟨s, hs⟩ := e.exists_at_deepest
    exact h _ s hs
  · intro h depth s hs
    exact Nat.le_trans hs.le_deepest h

end Expr

/-! ## Tokens and levels -/

theorem ChainLevel.operator?_eq_some_iff {level : ChainLevel} {kind : TokenKind}
    {op : Operator} : level.operator? kind = some op ↔ level.Joins kind op := by
  constructor
  · intro h
    cases level <;> cases kind <;> simp only [operator?, Option.some.injEq, reduceCtorEq] at h <;>
      subst h <;> constructor
  · intro h
    cases h <;> rfl

theorem ChainLevel.Joins.level_eq {level : ChainLevel} {kind : TokenKind} {op : Operator}
    (h : level.Joins kind op) : op.level = level := by
  cases h <;> rfl

theorem ChainLevel.Joins.kind_ne {level : ChainLevel} {kind : TokenKind} {op : Operator}
    (h : level.Joins kind op) : kind ≠ .number ∧ kind ≠ .openParen := by
  cases h <;> decide

theorem Builtin.ofName?_isSome_iff {name : String} :
    (Builtin.ofName? name).isSome = true ↔ Builtin.Named name := by
  have mem_all : ∀ function : Builtin, function ∈ Builtin.all := by
    intro function
    cases function <;> decide
  simp [Builtin.ofName?, Builtin.Named, mem_all]

namespace Derives

variable {phrase : Phrase} {tokens rest : List Token} {e : Formula}

/-- The tokens that are left are the end of those that were given. -/
theorem suffix (h : Derives phrase tokens e rest) : rest <:+ tokens := by
  induction h with
  | first _ ih => exact ih
  | next _ _ _ ihLeft ihRight =>
      exact ihRight.trans ((List.suffix_cons _ _).trans ihLeft)
  | minus _ _ ih => exact ih.trans (List.suffix_cons _ _)
  | plus _ _ ih => exact ih.trans (List.suffix_cons _ _)
  | unsigned _ ih => exact ih
  | number => exact List.suffix_cons _ _
  | name => exact List.suffix_cons _ _
  | call _ _ _ _ ih =>
      exact (List.suffix_cons _ _).trans
        (ih.trans ((List.suffix_cons _ _).trans (List.suffix_cons _ _)))
  | group _ _ _ ih =>
      exact (List.suffix_cons _ _).trans (ih.trans (List.suffix_cons _ _))

/-- A phrase never begins with a closing parenthesis. -/
theorem head_ne_closeParen (h : Derives phrase tokens e rest) :
    tokens.head?.map Token.kind ≠ some .closeParen := by
  induction h with
  | first _ ih => exact ih
  | next _ _ _ ih _ => exact ih
  | unsigned _ ih => exact ih
  | minus hk => simp [hk]
  | plus hk => simp [hk]
  | number hk => simp [hk]
  | name hk => simp [hk]
  | call hk => simp [hk]
  | group hk => simp [hk]

/-- An operand of a chain is itself no chain of that level or a looser one. -/
theorem chainLength_eq_zero (h : Derives phrase tokens e rest) :
    ∀ level : ChainLevel,
      (∀ level', phrase = .chain level' → level'.rank < level.rank) →
      e.chainLength level = 0 := by
  induction h with
  | @first level' tokens e rest _ ih =>
      intro level tighter
      apply ih
      intro level'' heq
      have hlt := tighter level' rfl
      cases level' <;> simp only [ChainLevel.operandPhrase, Phrase.chain.injEq,
        reduceCtorEq] at heq
      · subst heq
        simp only [ChainLevel.rank] at hlt ⊢
        omega
      · subst heq
        simp only [ChainLevel.rank] at hlt ⊢
        omega
  | @next level' tokens l token after op r rest _ hj _ _ _ =>
      intro level tighter
      have hlt := tighter level' rfl
      have hne : op.level ≠ level := by
        rw [hj.level_eq]
        intro heq
        rw [heq] at hlt
        exact Nat.lt_irrefl _ hlt
      simp [Expr.chainLength, hne]
  | unsigned _ ih =>
      intro level _
      apply ih
      intro level' heq
      cases heq
  | _ => intro _ _; rfl

/-- The operands of a chain are no chains of its level. -/
theorem chainLength_operand {level : ChainLevel}
    (h : Derives level.operandPhrase tokens e rest) : e.chainLength level = 0 := by
  apply h.chainLength_eq_zero
  intro level' heq
  cases level <;> simp only [ChainLevel.operandPhrase, Phrase.chain.injEq, reduceCtorEq] at heq
  · subst heq
    decide
  · subst heq
    decide

end Derives

end Graphing
