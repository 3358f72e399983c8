import Reckoner.Context.Parse
import Reckoner.Proofs.Grammar
/-!
# Every derivation is read

Taking up the tokens of a derivation leads to its tree without parentheses, with the frames below as
they were. Operators that bind at least as tightly as the phrase may still wait for their
completion, so the tree is the one that is left once they are completed.
-/

namespace Reckoner

namespace Phrase

mutual

/-- The tree of a phrase, where the parentheses are dropped. -/
def expr : Phrase → Expr
  | number spelling imaginary position => .number spelling imaginary position
  | constant origin name position => .constant origin name position
  | call origin name position arguments => .call origin name position (exprs arguments)
  | group inner => expr inner
  | signed sign position operand => .signed sign position (expr operand)
  | binary operator position left right => .binary operator position (expr left) (expr right)

/-- The trees of several phrases. -/
def exprs : List Phrase → List Expr
  | [] => []
  | first :: others => expr first :: exprs others

end

/-- The trees of several phrases are the trees of each of them. -/
theorem exprs_eq_map (phrases : List Phrase) : exprs phrases = phrases.map expr := by
  induction phrases with
  | nil => rfl
  | cons first others ih => rw [exprs, ih, List.map_cons]

end Phrase

/-- A phrase of the place `rank` can be completed on top of the frames without regard to them:
an operator in front of it binds less tightly, and a sign stands in front of operands only. -/
def Admits (rank : Nat) : List Frame → Prop
  | .operator operator _ _ :: _ => operator.precedence < rank
  | .sign .. :: _ => 4 < rank
  | _ => True

/-- What admits a place admits the later ones. -/
theorem Admits.mono {rank higher : Nat} {stack : List Frame} (admits : Admits rank stack)
    (le : rank ≤ higher) : Admits higher stack := by
  unfold Admits at *
  split at admits <;> omega

/-- Every frame admits signs and elements. -/
theorem admits_of_lt {rank : Nat} (signs : 4 < rank) (stack : List Frame) : Admits rank stack := by
  unfold Admits
  split
  · next operator _ _ _ =>
    exact Nat.lt_of_le_of_lt operator.precedence_le signs
  · exact signs
  · trivial

namespace Build

/-- Nothing is completed on frames that admit the place of the operator that follows. -/
theorem reduce_of_admits {rank : Nat} {stack : List Frame} (admits : Admits rank stack)
    (expr : Expr) : reduce rank expr stack = (expr, stack) := by
  unfold reduce
  split
  · next operator _ _ _ =>
    rw [if_neg (Nat.not_le_of_lt admits)]
  · rfl

/-- No sign waits on top of a tree that has been completed. -/
theorem settle_of_admits {rank : Nat} (low : rank ≤ 4) {stack : List Frame}
    (admits : Admits rank stack) (expr : Expr) : settle expr stack = .complete expr stack := by
  unfold settle
  split
  · exact absurd low (Nat.not_le_of_lt admits)
  · rfl

/-- Taking up a token and then others. -/
theorem foldlM_cons_ok {build next : Build} {token : Token} (taken : build.step token = .ok next)
    (tokens : List Token) :
    (token :: tokens).foldlM step build = tokens.foldlM step next := by
  rw [List.foldlM_cons, taken]
  rfl

/-- Taking up tokens and then others. -/
theorem foldlM_append_ok {build next : Build} {front : List Token}
    (taken : front.foldlM step build = .ok next) (behind : List Token) :
    (front ++ behind).foldlM step build = behind.foldlM step next := by
  rw [List.foldlM_append, taken]
  rfl

/-- Taking up tokens where an operand has to stand leads to a tree that is the tree `expr` with the
signs in front of it, once the operators down to the place `rank` are completed. -/
def Takes (rank : Nat) (tokens : List Token) (expr : Expr) : Prop :=
  ∀ stack, Admits rank stack → ∃ last above whole below,
    tokens.foldlM step (.operand stack) = .ok (.complete last above) ∧
      settle expr stack = .complete whole below ∧
      ∀ lower ≤ rank, reduce lower last above = reduce lower whole below

/-- Taking up tokens in an argument list that has just been opened or continued leads to a tree that
is the last of the further arguments once all operators are completed. -/
def TakesAll (tokens : List Token) (exprs : List Expr) : Prop :=
  ∀ origin name position earlier stack, ∃ last above others final,
    tokens.foldlM step (.operand (.call origin name position earlier :: stack)) =
        .ok (.complete last above) ∧
      earlier ++ exprs = others ++ [final] ∧
      reduce 0 last above = (final, .call origin name position others :: stack)

/-- A settled tree ends as a complete one. -/
theorem exists_settle (expr : Expr) (stack : List Frame) :
    ∃ whole below, settle expr stack = .complete whole below := by
  induction stack generalizing expr with
  | nil => exact ⟨expr, [], rfl⟩
  | cons frame stack ih =>
    cases frame with
    | sign sign position => exact ih (.signed sign position expr)
    | operator | group | call => exact ⟨expr, _, rfl⟩

/-- What takes up a place takes up the earlier ones. -/
theorem Takes.mono {rank higher : Nat} {tokens : List Token} {expr : Expr}
    (takes : Takes higher tokens expr) (le : rank ≤ higher) : Takes rank tokens expr := by
  intro stack admits
  obtain ⟨last, above, whole, rest, run, settled, same⟩ := takes stack (admits.mono le)
  exact ⟨last, above, whole, rest, run, settled,
    fun lower below => same lower (Nat.le_trans below le)⟩

/-- Tokens that are taken up as a tree with the signs in front of it are so taken up. -/
theorem takes_of_settle {rank : Nat} {tokens : List Token} {expr : Expr}
    (run : ∀ stack, tokens.foldlM step (.operand stack) = .ok (settle expr stack)) :
    Takes rank tokens expr := by
  intro stack _
  obtain ⟨whole, below, settled⟩ := exists_settle expr stack
  exact ⟨whole, below, whole, below, settled ▸ run stack, settled, fun _ _ => rfl⟩

/-- An operator behind its left operand takes up the right one. -/
theorem takes_binary {operator : Operator} {token : Token} {front behind : List Token}
    {left right : Expr} (shape : token.lexeme = .operator operator)
    (first : Takes operator.precedence front left)
    (second : Takes (operator.precedence + 1) behind right) :
    Takes operator.precedence (front ++ token :: behind)
      (.binary operator token.stop left right) := by
  intro stack admits
  have settled := settle_of_admits operator.precedence_le admits
  obtain ⟨last, above, whole, below, run, whole_eq, same⟩ := first stack admits
  obtain ⟨rfl, rfl⟩ := Build.complete.inj ((settled left).symm.trans whole_eq)
  have joined : step (.complete last above) token =
      .ok (.operand (.operator operator token.stop left :: stack)) := by
    simp only [step, stepComplete, shape, same _ (Nat.le_refl _), reduce_of_admits admits]
  obtain ⟨next, nextAbove, nextWhole, nextBelow, nextRun, nextWhole_eq, nextSame⟩ :=
    second (.operator operator token.stop left :: stack) (Nat.lt_succ_self _)
  obtain ⟨rfl, rfl⟩ := Build.complete.inj nextWhole_eq
  refine ⟨next, nextAbove, _, _, ?_, settled _, fun lower le => ?_⟩
  · rw [foldlM_append_ok run, foldlM_cons_ok joined, nextRun]
  · rw [nextSame lower (Nat.le_succ_of_le le), reduce, if_pos le]

/-- A comma behind arguments takes up a further one. -/
theorem takesAll_comma {token : Token} {front behind : List Token} {earlier : List Expr}
    {expr : Expr} (shape : token.lexeme = .mark .comma) (first : TakesAll front earlier)
    (second : TakesAll behind [expr]) :
    TakesAll (front ++ token :: behind) (earlier ++ [expr]) := by
  intro origin name position before stack
  obtain ⟨last, above, others, final, run, same, reduced⟩ := first origin name position before stack
  have joined : step (.complete last above) token =
      .ok (.operand (.call origin name position (before ++ earlier) :: stack)) := by
    simp only [step, stepComplete, shape, reduced, same]
  obtain ⟨next, nextAbove, nextOthers, nextFinal, nextRun, nextSame, nextReduced⟩ :=
    second origin name position (before ++ earlier) stack
  refine ⟨next, nextAbove, nextOthers, nextFinal, ?_, ?_, nextReduced⟩
  · rw [foldlM_append_ok run, foldlM_cons_ok joined, nextRun]
  · rw [← nextSame, List.append_assoc]

/-- An expression is taken up as an argument. -/
theorem takesAll_of_takes {tokens : List Token} {expr : Expr} (takes : Takes 1 tokens expr) :
    TakesAll tokens [expr] := by
  intro origin name position earlier stack
  obtain ⟨last, above, whole, below, run, settled, same⟩ :=
    takes (.call origin name position earlier :: stack) trivial
  obtain ⟨rfl, rfl⟩ := Build.complete.inj settled
  exact ⟨last, above, earlier, expr, run, rfl, same 0 (Nat.zero_le _)⟩

/-- A sign takes up an operand. -/
theorem takes_signed {sign : Sign} {token : Token} {behind : List Token} {expr : Expr}
    (shape : token.lexeme = .operator sign.operator) (takes : Takes 5 behind expr) :
    Takes 5 (token :: behind) (.signed sign token.stop expr) := by
  intro stack _
  have opened : step (.operand stack) token = .ok (.operand (.sign sign token.stop :: stack)) := by
    simp only [step, stepOperand, shape, Sign.sign?_operator]
  obtain ⟨last, above, whole, below, run, settled, same⟩ :=
    takes (.sign sign token.stop :: stack) (Nat.lt_succ_self 4)
  refine ⟨last, above, whole, below, ?_, settled, same⟩
  rw [foldlM_cons_ok opened, run]

/-- Parentheses take up an expression. -/
theorem takes_group {opening closing : Token} {inside : List Token} {expr : Expr}
    (opened : opening.lexeme = .mark .opening) (takes : Takes 1 inside expr)
    (closed : closing.lexeme = .mark .closing) :
    Takes 6 (opening :: inside ++ [closing]) expr := by
  apply takes_of_settle
  intro stack
  obtain ⟨last, above, whole, below, run, settled, same⟩ := takes (.group :: stack) trivial
  obtain ⟨rfl, rfl⟩ := Build.complete.inj settled
  have start : step (.operand stack) opening = .ok (.operand (.group :: stack)) := by
    simp only [step, stepOperand, opened]
  have finish : step (.complete last above) closing = .ok (settle expr stack) := by
    simp only [step, stepComplete, closed, same 0 (Nat.zero_le _)]
    rfl
  rw [List.cons_append, foldlM_cons_ok start, foldlM_append_ok run, foldlM_cons_ok finish]
  rfl

/-- A called name takes up no arguments. -/
theorem takes_emptyCall {token opening closing : Token} {origin : Origin} {name : String}
    (shape : token.lexeme = .function origin name) (opened : opening.lexeme = .mark .opening)
    (closed : closing.lexeme = .mark .closing) :
    Takes 6 [token, opening, closing] (.call origin name token.stop []) := by
  apply takes_of_settle
  intro stack
  have start : step (.operand stack) token = .ok (.callee origin name token.stop stack) := by
    simp only [step, stepOperand, shape]
  have begin : step (.callee origin name token.stop stack) opening =
      .ok (.operand (.call origin name token.stop [] :: stack)) := by
    simp only [step, opened]
  have finish : step (.operand (.call origin name token.stop [] :: stack)) closing =
      .ok (settle (.call origin name token.stop []) stack) := by
    simp only [step, stepOperand, closed, closeEmpty]
  rw [foldlM_cons_ok start, foldlM_cons_ok begin, foldlM_cons_ok finish]
  rfl

/-- A called name takes up its arguments. -/
theorem takes_call {token opening closing : Token} {origin : Origin} {name : String}
    {inside : List Token} {arguments : List Expr} (shape : token.lexeme = .function origin name)
    (opened : opening.lexeme = .mark .opening) (takes : TakesAll inside arguments)
    (closed : closing.lexeme = .mark .closing) :
    Takes 6 (token :: opening :: inside ++ [closing]) (.call origin name token.stop arguments) := by
  apply takes_of_settle
  intro stack
  obtain ⟨last, above, others, final, run, same, reduced⟩ := takes origin name token.stop [] stack
  have start : step (.operand stack) token = .ok (.callee origin name token.stop stack) := by
    simp only [step, stepOperand, shape]
  have begin : step (.callee origin name token.stop stack) opening =
      .ok (.operand (.call origin name token.stop [] :: stack)) := by
    simp only [step, opened]
  have finish : step (.complete last above) closing =
      .ok (settle (.call origin name token.stop arguments) stack) := by
    simp only [step, stepComplete, closed, reduced, ← same]
    rfl
  rw [List.cons_append, List.cons_append, foldlM_cons_ok start, foldlM_cons_ok begin,
    foldlM_append_ok run, foldlM_cons_ok finish]
  rfl

/-- What is taken up as a nonterminal: the arguments of a call, or a single phrase. -/
def Taken (category : Nonterminal) (tokens : List Token) (phrases : List Phrase) : Prop :=
  if category = .arguments then TakesAll tokens (phrases.map Phrase.expr)
  else ∃ phrase, phrases = [phrase] ∧ Takes category.rank tokens phrase.expr

/-- The tokens of every derivation are taken up with its phrases. -/
theorem taken_of_derives {category : Nonterminal} {tokens : List Token} {phrases : List Phrase}
    (derives : Derives category tokens phrases) : Taken category tokens phrases := by
  induction derives with
  | @joined category token front behind _ _ _ _ joins _ firstIh secondIh =>
    have binds := joins.rank_le
    cases joins with
    | comma shape earlier last =>
      obtain ⟨_, same, second⟩ := secondIh
      obtain rfl := List.singleton_inj.mp same
      show TakesAll _ _
      rw [List.map_append]
      exact takesAll_comma shape firstIh (takesAll_of_takes second)
      | @operator _ operator shape among left right =>
      have place := (category.mem_operators_iff operator).mp among
      have positive := operator.precedence_pos
      have higher : category ≠ .arguments := by
        rintro rfl
        exact absurd place (Nat.ne_of_gt positive)
      have next : category.operand ≠ .arguments := by cases category <;> decide
      have next_place : category.operand.rank = category.rank + 1 := by
        apply category.rank_operand
        rintro rfl
        exact absurd binds (by decide)
      rw [Taken, if_neg higher] at firstIh ⊢
      rw [Taken, if_neg next] at secondIh
      obtain ⟨_, same, first⟩ := firstIh
      obtain rfl := List.singleton_inj.mp same
      obtain ⟨_, same, second⟩ := secondIh
      obtain rfl := List.singleton_inj.mp same
      rw [next_place] at second
      rw [← place] at first second ⊢
      exact ⟨_, rfl, takes_binary shape first second⟩
  | @only category tokens phrases higher part ih =>
    have place := category.rank_operand higher
    cases category with
    | arguments =>
      obtain ⟨phrase, rfl, takes⟩ := ih
      exact takesAll_of_takes takes
    | assignment | sum | product | power | unary =>
      obtain ⟨phrase, rfl, takes⟩ := ih
      exact ⟨phrase, rfl, takes.mono (by decide)⟩
    | element => contradiction
  | signed shape _ ih =>
    obtain ⟨_, same, takes⟩ := ih
    obtain rfl := List.singleton_inj.mp same
    exact ⟨_, rfl, takes_signed shape takes⟩
  | number shape | constant shape =>
    refine ⟨_, rfl, takes_of_settle fun stack => ?_⟩
    simp only [List.foldlM_cons, step, stepOperand, shape]
    rfl
  | emptyCall shape opened closed =>
    exact ⟨_, rfl, takes_emptyCall shape opened closed⟩
  | call shape opened part closed ih =>
    refine ⟨_, rfl, ?_⟩
    rw [Phrase.expr, Phrase.exprs_eq_map]
    exact takes_call shape opened ih closed
  | group opened part closed ih =>
    obtain ⟨_, same, takes⟩ := ih
    obtain rfl := List.singleton_inj.mp same
    exact ⟨_, rfl, takes_group opened takes closed⟩

end Build

end Reckoner
