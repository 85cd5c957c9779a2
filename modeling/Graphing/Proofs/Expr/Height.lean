import Graphing.Proofs.Expr.RoundTrip

/-!
# How tall parsed formulas get

The depth budget limits how deep something stands, and a chain puts its first operand
no deeper than itself. In the tree that operand lies below every operator of the chain. So
the budget is not a bound on the height of a formula: a chain may follow an operand
that has used up the budget on its own, and another chain may follow at each looser level.

* **Where it is one** — `TallestLast.height_le`: if no operand of a chain is taller than the
  last one.
* **Bound** — `Derives.height_add_le`, by induction on derivations: each unit of the budget
  pays for one parenthesis and for one more operator in each of three chains around it.
* **The bound is reached** — `Tower.formula` puts the longest chains around every
  parenthesis.
-/

namespace Graphing

namespace Expr

variable {α : Type}

/-- The number of nodes on the longest way from the root to a leaf. -/
def height : Expr α → Nat
  | .lit _ => 1
  | .ident _ => 1
  | .neg operand => operand.height + 1
  | .pos operand => operand.height + 1
  | .binary _ left right => max left.height right.height + 1
  | .call _ argument => argument.height + 1
  | .group inner => inner.height + 1

theorem height_pos (e : Expr α) : 0 < e.height := by
  cases e <;> simp [height]

theorem chainLength_le_deepest (level : ChainLevel) (e : Expr α) :
    e.chainLength level ≤ e.deepest := by
  cases e with
  | binary op left right =>
      simp only [chainLength, deepest]
      by_cases same : op.level = level
      · rw [if_pos same, same]
        omega
      · rw [if_neg same]
        omega
  | _ => exact Nat.zero_le _

/-! ## Chains whose last operand is the tallest -/

/-- Down along the last operands of chains, none of the others is taller. -/
def TallestLast : Expr α → Prop
  | .lit _ => True
  | .ident _ => True
  | .neg operand => operand.TallestLast
  | .pos operand => operand.TallestLast
  | .binary op left right =>
      (∀ o ∈ left.operands op.level, o.height ≤ right.height) ∧ right.TallestLast
  | .call _ argument => argument.TallestLast
  | .group inner => inner.TallestLast

/-- A chain is taller than its operands by at most its operators. -/
theorem height_le_chainLength_add {level : ChainLevel} {e : Expr α} {bound : Nat}
    (h : ∀ o ∈ e.operands level, o.height ≤ bound) :
    e.height ≤ e.chainLength level + bound := by
  induction e with
  | binary op left right ihLeft _ =>
      by_cases same : op.level = level
      · simp only [operands, if_pos same, List.mem_append, List.mem_singleton] at h
        have hleft := ihLeft fun o ho => h o (.inl ho)
        have hright := h right (.inr rfl)
        simp only [height, chainLength, if_pos same]
        omega
      · simp only [operands, if_neg same, List.mem_singleton] at h
        have hself := h _ rfl
        omega
  | _ =>
      have hself := h _ List.mem_cons_self
      omega

/-- The budget charges the last operand of a chain for all of its operators, which is right
where this operand is the tallest. -/
theorem TallestLast.height_le {e : Expr α} (h : e.TallestLast) : e.height ≤ e.deepest + 1 := by
  induction e with
  | lit value => exact Nat.le_refl _
  | ident name => exact Nat.le_refl _
  | neg operand ih => exact Nat.succ_le_succ (ih h)
  | pos operand ih => exact Nat.succ_le_succ (ih h)
  | call name argument ih => exact Nat.succ_le_succ (ih h)
  | group inner ih => exact Nat.succ_le_succ (ih h)
  | binary op left right _ ihRight =>
      obtain ⟨hothers, hlast⟩ := h
      have hleft := height_le_chainLength_add hothers
      have hright := ihRight hlast
      simp only [height, deepest]
      omega

end Expr

/-! ## The bound -/

namespace Parser

/-- The height that a depth budget allows. -/
def tallest : Nat → Nat
  | 0 => 1
  | budget + 1 => tallest budget + 1 + 3 * (budget + 1)

theorem lt_tallest (budget : Nat) : 3 * budget < tallest budget := by
  induction budget with
  | zero => decide
  | succ budget ih =>
      rw [tallest]
      omega

end Parser

namespace Phrase

/-- The kinds of chains that may go on around a phrase, its own included. -/
def chainsAround : Phrase → Nat
  | .chain .sum => 1
  | .chain .product => 2
  | _ => 3

/-- The operators of its own chain that a phrase has. -/
def operators : Phrase → Formula → Nat
  | .chain level, e => e.chainLength level
  | _, _ => 0

theorem operators_le (phrase : Phrase) {e : Formula} {budget : Nat}
    (shallow : e.deepest ≤ budget) : phrase.operators e ≤ phrase.chainsAround * budget := by
  have hpos : 1 ≤ phrase.chainsAround := by
    unfold chainsAround
    split <;> omega
  have hone : 1 * budget ≤ phrase.chainsAround * budget := Nat.mul_le_mul_right budget hpos
  cases phrase with
  | chain level =>
      have hlength := e.chainLength_le_deepest level
      simp only [operators]
      omega
  | _ => exact Nat.zero_le _

end Phrase

namespace Derives

variable {phrase : Phrase} {tokens rest : List Token} {e : Formula}

/-- A sign, a call or a parenthesis has used one unit, which buys three operators around
it. -/
theorem height_enclosed_le {budget : Nat}
    (ih : ∀ budget, e.deepest ≤ budget →
      e.height + phrase.chainsAround * budget ≤ Parser.tallest budget + phrase.operators e)
    (shallow : e.deepest + 1 ≤ budget) :
    e.height + 1 + 3 * budget ≤ Parser.tallest budget := by
  obtain ⟨left, rfl⟩ : ∃ left, budget = left + 1 := ⟨budget - 1, by omega⟩
  have hleft : e.deepest ≤ left := by omega
  have hinner := ih left hleft
  have hoperators := phrase.operators_le hleft
  rw [Parser.tallest]
  omega

/-- A phrase is no taller than the budget allows, less what is set apart for the chains
around it. Its own operators have been taken out of that. -/
theorem height_add_le (h : Derives phrase tokens e rest) :
    ∀ budget, e.deepest ≤ budget →
      e.height + phrase.chainsAround * budget ≤ Parser.tallest budget + phrase.operators e := by
  induction h with
  | @first level tokens e rest _ ih =>
      intro budget shallow
      have hoperand := ih budget shallow
      have hproduct := e.chainLength_le_deepest .product
      have hpower := e.chainLength_le_deepest .power
      cases level <;>
        simp only [ChainLevel.operandPhrase, Phrase.chainsAround, Phrase.operators]
          at hoperand ⊢ <;> omega
  | @next level tokens l token after op r rest _ hj _ ihLeft ihRight =>
      intro budget shallow
      simp only [Expr.deepest] at shallow
      have hleft := ihLeft budget (by omega)
      -- the right operand has less of the budget, but the bound for the whole is enough
      have hright := ihRight budget (by omega)
      have hproduct := r.chainLength_le_deepest .product
      have hpower := r.chainLength_le_deepest .power
      have hlength : (Expr.binary op l r).chainLength level = l.chainLength level + 1 := by
        rw [Expr.chainLength, if_pos hj.level_eq]
      simp only [Expr.height, Phrase.operators, hlength] at hleft ⊢
      cases level <;>
        simp only [ChainLevel.operandPhrase, Phrase.chainsAround, Phrase.operators]
          at hleft hright ⊢ <;> omega
  | unsigned _ ih => exact ih
  | minus _ _ ih => exact fun budget shallow => height_enclosed_le ih shallow
  | plus _ _ ih => exact fun budget shallow => height_enclosed_le ih shallow
  | call _ _ _ _ ih => exact fun budget shallow => height_enclosed_le ih shallow
  | group _ _ _ ih => exact fun budget shallow => height_enclosed_le ih shallow
  | number =>
      intro budget _
      have hroom := Parser.lt_tallest budget
      simp only [Expr.height, Phrase.chainsAround, Phrase.operators]
      omega
  | name =>
      intro budget _
      have hroom := Parser.lt_tallest budget
      simp only [Expr.height, Phrase.chainsAround, Phrase.operators]
      omega

theorem height_le {budget : Nat} (h : Derives phrase tokens e rest)
    (shallow : e.deepest ≤ budget) : e.height ≤ Parser.tallest budget := by
  have hheight := h.height_add_le budget shallow
  have hoperators := phrase.operators_le shallow
  omega

end Derives

/-! ## Formulas that reach it -/

theorem Spells.variable (phrase : Phrase) :
    Spells phrase variableName.toList (.ident variableName) := by
  have hname : Token.IsName variableName.toList := ⟨'x', [], rfl, by decide, by simp⟩
  have hprimary := Spells.name hname
  rw [String.ofList_toList] at hprimary
  exact hprimary.loosen phrase.precedence_le

namespace Tower

/-- A chain with more operands on its right, all of them the variable. -/
def lengthen (op : Operator) : Nat → Formula → Formula
  | 0, e => e
  | count + 1, e => .binary op (lengthen op count e) (.ident variableName)

/-- Around every parenthesis the longest power, the longest product of it and the longest
sum of that. -/
def formula : Nat → Formula
  | 0 => .ident variableName
  | budget + 1 =>
      lengthen .add (budget + 1) (lengthen .mul (budget + 1)
        (lengthen .pow (budget + 1) (.group (formula budget))))

theorem height_lengthen (op : Operator) (count : Nat) (e : Formula) :
    (lengthen op count e).height = e.height + count := by
  induction count with
  | zero => rfl
  | succ count ih =>
      have hpos := e.height_pos
      simp only [lengthen, Expr.height, ih]
      omega

theorem chainLength_lengthen (op : Operator) (count : Nat) (e : Formula) :
    (lengthen op count e).chainLength op.level = e.chainLength op.level + count := by
  induction count with
  | zero => rfl
  | succ count ih => simp [lengthen, Expr.chainLength, ih, Nat.add_assoc]

theorem chainLength_lengthen_of_ne {op : Operator} {level : ChainLevel} (h : op.level ≠ level)
    (count : Nat) {e : Formula} (he : e.chainLength level = 0) :
    (lengthen op count e).chainLength level = 0 := by
  cases count with
  | zero => exact he
  | succ count => simp [lengthen, Expr.chainLength, h]

theorem deepest_lengthen_le {op : Operator} {count budget : Nat} {e : Formula}
    (shallow : e.deepest ≤ budget) (short : e.chainLength op.level + count ≤ budget) :
    (lengthen op count e).deepest ≤ budget := by
  induction count with
  | zero => exact shallow
  | succ count ih =>
      have hleft := ih (by omega)
      simp only [lengthen, Expr.deepest, chainLength_lengthen]
      omega

theorem calledNames_lengthen (op : Operator) (count : Nat) (e : Formula) :
    (lengthen op count e).calledNames = e.calledNames := by
  induction count with
  | zero => rfl
  | succ count ih => simp [lengthen, Expr.calledNames, ih]

theorem exists_spells_lengthen (op : Operator) (count : Nat) {e : Formula}
    (h : ∃ cs, Spells (.chain op.level) cs e) :
    ∃ cs, Spells (.chain op.level) cs (lengthen op count e) := by
  induction count with
  | zero => exact h
  | succ count ih =>
      obtain ⟨cs, hcs⟩ := ih
      exact ⟨_, hcs.next op (.variable _)⟩

theorem height_formula (budget : Nat) : (formula budget).height = Parser.tallest budget := by
  induction budget with
  | zero => rfl
  | succ budget ih =>
      simp only [formula, height_lengthen, Expr.height, ih, Parser.tallest]
      omega

theorem deepest_formula_le (budget : Nat) : (formula budget).deepest ≤ budget := by
  induction budget with
  | zero => exact Nat.le_refl _
  | succ budget ih =>
      -- each chain begins anew, so the operators of the tighter ones do not count
      refine deepest_lengthen_le (deepest_lengthen_le (deepest_lengthen_le ?_ ?_) ?_) ?_
      · exact Nat.succ_le_succ ih
      · exact Nat.le_of_eq (Nat.zero_add _)
      · rw [chainLength_lengthen_of_ne (by decide) _ rfl]
        omega
      · rw [chainLength_lengthen_of_ne (by decide) _
          (chainLength_lengthen_of_ne (by decide) _ rfl)]
        omega

theorem calledNames_formula (budget : Nat) : (formula budget).calledNames = [] := by
  induction budget with
  | zero => rfl
  | succ budget ih => simp only [formula, calledNames_lengthen, Expr.calledNames, ih]

theorem exists_spells_formula (budget : Nat) :
    ∃ cs, Spells (.chain .sum) cs (formula budget) := by
  induction budget with
  | zero => exact ⟨_, .variable _⟩
  | succ budget ih =>
      obtain ⟨inner, hinner⟩ := ih
      have hpower := exists_spells_lengthen .pow (budget + 1)
        ⟨_, hinner.group.loosen (by decide)⟩
      have hproduct := exists_spells_lengthen .mul (budget + 1)
        (hpower.imp fun _ h => h.loosen (by decide))
      exact exists_spells_lengthen .add (budget + 1)
        (hproduct.imp fun _ h => h.loosen (by decide))

end Tower

namespace Expr

/-- Some text is parsed as a formula of the greatest height. -/
theorem exists_parse_height :
    ∃ text e, parse text = .ok e ∧ e.height = Parser.tallest Parser.depthBudget := by
  obtain ⟨cs, hspells⟩ := Tower.exists_spells_formula Parser.depthBudget
  refine ⟨String.ofList cs, Tower.formula Parser.depthBudget, ?_, Tower.height_formula _⟩
  refine hspells.parse_eq_ok ?_ (Tower.deepest_formula_le _)
  rw [Tower.calledNames_formula]
  simp

theorem tallest_depthBudget : Parser.tallest Parser.depthBudget = 60501 := by
  decide +kernel

/-- A parsed formula is no taller than the budget says if no operand of a chain is taller than
the last one. Otherwise it can be taller; what holds of all parsed formulas, and of some with
equality, is a bound of sixty thousand five hundred and one. -/
theorem height_le_of_parse {text : String} {e : Formula} (h : parse text = .ok e) :
    (e.TallestLast → e.height ≤ Parser.depthBudget + 1) ∧ e.height ≤ 60501 ∧
      ∃ text' e', parse text' = .ok e' ∧ e'.height = 60501 := by
  obtain ⟨_, tokens, _, hreads⟩ := parse_eq_ok_iff_reads.mp h
  have hshallow : e.deepest ≤ Parser.depthBudget := hreads.shallow
  rw [← tallest_depthBudget]
  refine ⟨?_, hreads.derives.height_le hshallow, exists_parse_height⟩
  intro hlast
  have hheight := hlast.height_le
  omega

/-- In `x + -x` the second operand of the sum is the taller one. -/
theorem height_le_of_parse_signed_last :
    let e : Formula := .binary .add (.ident variableName) (.neg (.ident variableName))
    parse (String.ofList ['x', ' ', '+', ' ', '-', 'x']) = .ok e ∧ e.TallestLast ∧
      e.height ≤ Parser.depthBudget + 1 := by
  intro e
  have hsigned : Spells .signed _ (.neg (.ident variableName)) := (Spells.variable .signed).minus
  have hsum := (Spells.variable (.chain .sum)).next .add (hsigned.loosen (by decide))
  have hparse : parse (String.ofList ['x', ' ', '+', ' ', '-', 'x']) = .ok e :=
    hsum.parse_eq_ok (by simp [calledNames]) (by decide)
  have hlast : e.TallestLast := by
    simp [e, TallestLast, operands, height]
  exact ⟨hparse, hlast, (height_le_of_parse hparse).1 hlast⟩

/-! ## A sign on the first operand -/

/-- The variable behind a row of minus signs. -/
def minuses : Nat → Formula
  | 0 => .ident variableName
  | count + 1 => .neg (minuses count)

theorem spells_minuses (count : Nat) :
    Spells .signed (List.replicate count '-' ++ ['x']) (minuses count) := by
  induction count with
  | zero => exact .variable _
  | succ count ih => exact ih.minus

theorem deepest_minuses (count : Nat) : (minuses count).deepest = count := by
  induction count with
  | zero => rfl
  | succ count ih => rw [minuses, deepest, ih]

theorem calledNames_minuses (count : Nat) : (minuses count).calledNames = [] := by
  induction count with
  | zero => rfl
  | succ count ih => exact ih

theorem height_minuses (count : Nat) : (minuses count).height = count + 1 := by
  induction count with
  | zero => rfl
  | succ count ih => rw [minuses, height, ih]

theorem parse_signed_sum {count : Nat} (h : count ≤ Parser.depthBudget) :
    parse (String.ofList (List.replicate count '-' ++ ['x', ' ', '+', ' ', 'x'])) =
      .ok (.binary .add (minuses count) (.ident variableName)) := by
  have hfirst : Spells (.chain .sum) _ (minuses count) :=
    (spells_minuses count).loosen (by decide)
  have hsum := hfirst.next .add (.variable _)
  rw [List.append_assoc, List.append_assoc] at hsum
  refine hsum.parse_eq_ok ?_ ?_
  · simp [calledNames, calledNames_minuses]
  · have hlength : (minuses count).chainLength .sum = 0 := by
      cases count <;> rfl
    simp only [deepest, Operator.level, deepest_minuses, hlength]
    have hbudget : 1 ≤ Parser.depthBudget := by decide
    omega

/-- Two hundred signs use up the budget, and the sum that follows them is read all the
same. -/
theorem height_signed_sum_exceeds_budget :
    ∃ e, parse (String.ofList (List.replicate 200 '-' ++ ['x', ' ', '+', ' ', 'x'])) = .ok e ∧
      Parser.depthBudget + 1 < e.height := by
  refine ⟨_, parse_signed_sum (Nat.le_refl 200), ?_⟩
  rw [height, height_minuses]
  decide

end Expr

end Graphing
