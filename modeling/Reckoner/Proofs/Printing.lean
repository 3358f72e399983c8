import Reckoner.Proofs.Legible
import Reckoner.Proofs.WellFormed
/-!
# Printing a tree

A tree is printed as a line without spaces, with no more parentheses than its operators need. What
is printed of the tree of a line is read again as this tree: the texts of two lexemes that stand
side by side do not run into each other, and the parentheses lead to the operands that the tree has.
Origins and positions are not printed. A context gives the names the origins that they had, so it
accepts the printed line if it has accepted the tree.
-/

namespace Reckoner

namespace Expr

/-- The precedence of the operator at the root, if there is one. -/
def rootPrecedence? : Expr → Option Nat
  | binary operator _ _ _ => some operator.precedence
  | _ => none

/-- A text, in parentheses if they are needed. -/
def enclosed (needed : Bool) (text : String) : String :=
  if needed then "(" ++ text ++ ")" else text

mutual

/-- The tree as a line without spaces. The operand of a sign stands in parentheses if it has an
operator at its root, the left operand of an operator if its own operator has a lower precedence,
and the right operand also if its own operator has the same precedence. -/
def print : Expr → String
  | number spelling imaginary _ => if imaginary then spelling ++ "i" else spelling
  | constant _ name _ => name
  | call _ name _ arguments => name ++ "(" ++ ",".intercalate (prints arguments) ++ ")"
  | signed sign _ operand => sign.text ++ enclosed operand.rootPrecedence?.isSome operand.print
  | binary operator _ left right =>
    enclosed (left.rootPrecedence?.any (· < operator.precedence)) left.print ++ operator.text ++
      enclosed (right.rootPrecedence?.any (· ≤ operator.precedence)) right.print
  | value _ => "#"

/-- Several trees as lines. -/
def prints : List Expr → List String
  | [] => []
  | first :: others => print first :: prints others

end

/-- Printing several trees prints each of them. -/
theorem prints_eq_map (arguments : List Expr) : prints arguments = arguments.map print := by
  induction arguments with
  | nil => rfl
  | cons first others ih => rw [prints, ih, List.map_cons]

/-- The precedence at the root is no label. -/
@[simp]
theorem rootPrecedence?_relabel (labels : Relabelling) (expr : Expr) :
    (expr.relabel labels).rootPrecedence? = expr.rootPrecedence? := by
  cases expr <;> rfl

/-- Labels are not printed. -/
theorem print_relabel (labels : Relabelling) (expr : Expr) :
    (expr.relabel labels).print = expr.print := by
  induction expr with
  | number | constant | value => rfl
  | call origin name position arguments ih =>
    have each : (arguments.map (relabel labels)).map print = arguments.map print := by
      rw [List.map_map]
      exact List.map_congr_left ih
    simp only [relabel, relabelAll_eq_map, print, prints_eq_map, each]
  | signed sign position operand ih => simp only [relabel, print, rootPrecedence?_relabel, ih]
  | binary operator position left right leftIh rightIh =>
    simp only [relabel, print, rootPrecedence?_relabel, leftIh, rightIh]

end Expr

/-- Lexemes, in parentheses if they are needed. -/
def Lexeme.enclosed (needed : Bool) (lexemes : List Lexeme) : List Lexeme :=
  if needed then .mark .opening :: lexemes ++ [.mark .closing] else lexemes

namespace Expr

mutual

/-- The lexemes that a tree is printed as. -/
def lexemes : Expr → List Lexeme
  | number spelling imaginary _ => [.number spelling imaginary]
  | constant origin name _ => [.constant origin name]
  | call origin name _ arguments =>
    .function origin name :: .mark .opening ::
      ([.mark .comma].intercalate (lexemesAll arguments) ++ [.mark .closing])
  | signed sign _ operand =>
    .operator sign.operator :: Lexeme.enclosed operand.rootPrecedence?.isSome operand.lexemes
  | binary operator _ left right =>
    Lexeme.enclosed (left.rootPrecedence?.any (· < operator.precedence)) left.lexemes ++
      .operator operator ::
        Lexeme.enclosed (right.rootPrecedence?.any (· ≤ operator.precedence)) right.lexemes
  | value _ => []

/-- The lexemes of several trees. -/
def lexemesAll : List Expr → List (List Lexeme)
  | [] => []
  | first :: others => lexemes first :: lexemesAll others

end

/-- The lexemes of several trees are those of each of them. -/
theorem lexemesAll_eq_map (arguments : List Expr) :
    lexemesAll arguments = arguments.map lexemes := by
  induction arguments with
  | nil => rfl
  | cons first others ih => rw [lexemesAll, ih, List.map_cons]

end Expr

/-- Behind the first list, each has the separator in front of it. -/
theorem intercalate_cons_eq_flatMap {α : Type} (separator first : List α)
    (others : List (List α)) :
    separator.intercalate (first :: others) = first ++ others.flatMap (separator ++ ·) := by
  induction others generalizing first with
  | nil => simp
  | cons second others ih =>
    rw [List.intercalate_cons_cons, ih, List.flatMap_cons, List.append_assoc, List.append_assoc]

namespace Lexeme

/-- The text of lexemes and those behind them. -/
@[simp]
theorem textOf_append (front behind : List Lexeme) :
    textOf (front ++ behind) = textOf front ++ textOf behind :=
  List.flatMap_append

/-- The text of a lexeme and those behind it. -/
@[simp]
theorem textOf_cons (first : Lexeme) (rest : List Lexeme) :
    textOf (first :: rest) = first.written ++ textOf rest :=
  List.flatMap_cons

/-- The text of no lexemes. -/
@[simp]
theorem textOf_nil : textOf [] = [] := rfl

/-- The text of lists with commas between them is that of each, with commas between them. -/
theorem textOf_intercalate (lists : List (List Lexeme)) :
    textOf ([.mark .comma].intercalate lists) = [','].intercalate (lists.map textOf) := by
  cases lists with
  | nil => rfl
  | cons first others =>
    have behind : textOf (others.flatMap ([.mark .comma] ++ ·)) =
        (others.map textOf).flatMap ([','] ++ ·) := by
      induction others with
      | nil => rfl
      | cons second others ih =>
        rw [List.flatMap_cons, textOf_append, ih]
        rfl
    rw [List.map_cons, intercalate_cons_eq_flatMap, intercalate_cons_eq_flatMap, textOf_append,
      behind]

/-- The text of lexemes in parentheses is theirs in parentheses. -/
theorem textOf_enclosed {lexemes : List Lexeme} {printed : String}
    (same : textOf lexemes = printed.toList) (needed : Bool) :
    textOf (enclosed needed lexemes) = (Expr.enclosed needed printed).toList := by
  cases needed with
  | false => exact same
  | true =>
    simp only [enclosed, Expr.enclosed, if_true, List.cons_append, textOf_cons, textOf_append,
      textOf_nil, same, String.toList_append]
    rfl

end Lexeme

/-- A tree without evaluated arguments is printed as its lexemes. -/
theorem Expr.Built.textOf_lexemes {fits : Lexeme → Prop} {expr : Expr} (built : expr.Built fits) :
    Lexeme.textOf expr.lexemes = expr.print.toList := by
  induction built with
  | @number spelling imaginary position leaf =>
    cases imaginary <;> simp [lexemes, print, Lexeme.written]
  | constant position leaf => simp [lexemes, print, Lexeme.written, Lexeme.text]
  | @call origin name position arguments root parts ih =>
    have each : (arguments.map lexemes).map Lexeme.textOf =
        (arguments.map print).map String.toList := by
      rw [List.map_map, List.map_map]
      exact List.map_congr_left ih
    simp only [lexemes, lexemesAll_eq_map, print, prints_eq_map, Lexeme.textOf_cons,
      Lexeme.textOf_append, Lexeme.textOf_intercalate, each, String.toList_append,
      String.toList_intercalate, List.append_assoc]
    rfl
  | signed sign position part ih =>
    rw [lexemes, print, Lexeme.textOf_cons, Lexeme.textOf_enclosed ih, String.toList_append]
    rfl
  | binary operator position first second firstIh secondIh =>
    rw [lexemes, print, Lexeme.textOf_append, Lexeme.textOf_cons, Lexeme.textOf_enclosed firstIh,
      Lexeme.textOf_enclosed secondIh, String.toList_append, String.toList_append,
      List.append_assoc]
    rfl

namespace Lexeme

/-- The lexemes can be read back, and they may follow an operand. -/
def Follows (lexemes : List Lexeme) : Prop :=
  Readable lexemes ∧ Literal.IsBehind (textOf lexemes)

/-- The lexemes can be read back in front of all that may follow an operand. -/
def IsOperand (lexemes : List Lexeme) : Prop :=
  ∀ ⦃rest⦄, Follows rest → Readable (lexemes ++ rest)

/-- Nothing has to follow an operand. -/
theorem follows_nil : Follows [] := ⟨trivial, fun _ first => nomatch first⟩

/-- The lexeme ends what stands in front of it: an operator, a closing parenthesis or a comma. -/
def EndsOperand : Lexeme → Prop
  | operator _ => True
  | mark .closing => True
  | mark .comma => True
  | _ => False

/-- A lexeme that ends an operand may follow one. -/
theorem follows_cons (first : Lexeme) (ends : first.EndsOperand) {rest : List Lexeme}
    (readable : Readable rest) : Follows (first :: rest) := by
  cases first with
  | operator operator =>
    refine ⟨⟨trivial, trivial, readable⟩, fun c head => ?_⟩
    obtain rfl : operator.symbol = c := by cases operator <;> exact Option.some.inj head
    cases operator <;> decide
  | mark mark =>
    refine ⟨⟨trivial, trivial, readable⟩, fun c head => ?_⟩
    obtain rfl : mark.symbol = c := by cases mark <;> exact Option.some.inj head
    cases mark with
    | opening => contradiction
    | closing | comma => decide
  | number | constant | function => contradiction

/-- An operand in parentheses is one. -/
theorem IsOperand.enclosed {lexemes : List Lexeme} (operand : IsOperand lexemes) (needed : Bool) :
    IsOperand (enclosed needed lexemes) := by
  intro rest follows
  cases needed with
  | false => exact operand follows
  | true =>
    rw [Lexeme.enclosed, if_pos rfl, List.cons_append, List.cons_append, List.append_assoc]
    exact ⟨trivial, trivial, operand (follows_cons (.mark .closing) trivial follows.1)⟩

/-- Operands behind commas may follow an operand. -/
theorem follows_flatMap {lists : List (List Lexeme)}
    (operands : ∀ lexemes ∈ lists, IsOperand lexemes) {rest : List Lexeme}
    (follows : Follows rest) : Follows (lists.flatMap ([.mark .comma] ++ ·) ++ rest) := by
  induction lists with
  | nil => exact follows
  | cons first others ih =>
    rw [List.forall_mem_cons] at operands
    rw [List.flatMap_cons, List.append_assoc, List.append_assoc]
    exact follows_cons (.mark .comma) trivial (operands.1 (ih operands.2))

/-- Operands with commas between them can be read back. -/
theorem readable_intercalate {lists : List (List Lexeme)}
    (operands : ∀ lexemes ∈ lists, IsOperand lexemes) {rest : List Lexeme}
    (follows : Follows rest) : Readable ([.mark .comma].intercalate lists ++ rest) := by
  cases lists with
  | nil => exact follows.1
  | cons first others =>
    rw [List.forall_mem_cons] at operands
    rw [intercalate_cons_eq_flatMap, List.append_assoc]
    exact operands.1 (follows_flatMap operands.2 follows)

end Lexeme

/-- A tree whose lexemes can be read back one by one is printed as an operand. -/
theorem Expr.Built.isOperand {expr : Expr} (built : expr.Built Lexeme.IsLegible) :
    Lexeme.IsOperand expr.lexemes := by
  induction built with
  | number position leaf => exact fun rest follows => ⟨leaf, follows.2, follows.1⟩
  | constant position leaf => exact fun rest follows => ⟨leaf, follows.2, follows.1⟩
  | @call origin name position arguments root parts ih =>
    intro rest follows
    have inside := Lexeme.readable_intercalate (List.forall_mem_map.mpr ih)
      (Lexeme.follows_cons (.mark .closing) trivial follows.1)
    rw [lexemes, lexemesAll_eq_map, List.cons_append, List.cons_append, List.append_assoc]
    exact ⟨root, rfl, trivial, trivial, inside⟩
  | signed sign position part ih =>
    exact fun rest follows => ⟨trivial, trivial, ih.enclosed _ follows⟩
  | @binary operator position left right first second firstIh secondIh =>
    intro rest follows
    have behind := secondIh.enclosed (right.rootPrecedence?.any (· ≤ operator.precedence)) follows
    rw [lexemes, List.append_assoc, List.cons_append]
    exact firstIh.enclosed _ (Lexeme.follows_cons (.operator operator) trivial behind)

/-- A tree whose lexemes can be read back one by one is read back from what is printed. -/
theorem Scan.ofLine_print {expr : Expr} (built : expr.Built Lexeme.IsLegible) :
    (ofLine expr.print).tokens.map Token.lexeme = expr.lexemes ∧
      (ofLine expr.print).stop = none := by
  have readable := built.isOperand Lexeme.follows_nil
  rw [List.append_nil] at readable
  rw [ofLine_eq, ← built.textOf_lexemes]
  exact ofText_textOf readable 0

/-- Tokens with these lexemes are derived from the nonterminal, with this tree up to positions. -/
def Spells (category : Nonterminal) (lexemes : List Lexeme) (expr : Expr) : Prop :=
  ∀ ⦃tokens : List Token⦄, tokens.map Token.lexeme = lexemes →
    ∃ phrase, Derives category tokens [phrase] ∧
      phrase.expr.relabel .unplaced = expr.relabel .unplaced

/-- The nonterminal of a tree that is printed, by its root. -/
def Expr.nonterminal : Expr → Nonterminal
  | binary operator _ _ _ => operator.nonterminal
  | signed .. => .unary
  | _ => .element

namespace Spells

variable {category : Nonterminal} {lexemes : List Lexeme} {expr : Expr}

/-- What spells an operand spells what it is an operand of. -/
theorem raise (spells : Spells category lexemes expr) {higher : Nonterminal}
    (le : higher.rank ≤ category.rank) : Spells higher lexemes expr := by
  intro tokens shape
  obtain ⟨phrase, derives, same⟩ := spells shape
  exact ⟨phrase, derives.raise le, same⟩

/-- A tree in parentheses is an element. -/
theorem group (spells : Spells .assignment lexemes expr) :
    Spells .element (.mark .opening :: lexemes ++ [.mark .closing]) expr := by
  intro tokens shape
  obtain ⟨front, behind, rfl, frontShape, closing⟩ := List.map_eq_append_iff.mp shape
  obtain ⟨opening, inside, rfl, opened, inner⟩ := List.map_eq_cons_iff.mp frontShape
  obtain ⟨closing, rfl, closed⟩ := List.map_eq_singleton_iff.mp closing
  obtain ⟨phrase, derives, same⟩ := spells inner
  exact ⟨.group phrase, .group opened derives closed, same⟩

/-- Where a tree stands in parentheses if it is no operand, it is one. -/
theorem enclosed (spells : Spells category lexemes expr) (positive : 1 ≤ category.rank)
    {needed : Bool} {operand : Nonterminal}
    (tight : needed = false → operand.rank ≤ category.rank) :
    Spells operand (Lexeme.enclosed needed lexemes) expr := by
  cases needed with
  | false => exact spells.raise (tight rfl)
  | true =>
    have inner : Spells .assignment lexemes expr := spells.raise positive
    apply inner.group.raise
    cases operand <;> decide

/-- A sign stands in front of its operand. -/
theorem signed (spells : Spells .unary lexemes expr) (sign : Sign) (position : Nat) :
    Spells .unary (.operator sign.operator :: lexemes) (.signed sign position expr) := by
  intro tokens shape
  obtain ⟨token, behind, rfl, first, inner⟩ := List.map_eq_cons_iff.mp shape
  obtain ⟨phrase, derives, same⟩ := spells inner
  refine ⟨_, .signed first derives, ?_⟩
  rw [Phrase.expr, Expr.relabel, Expr.relabel, same]
  rfl

/-- An operator stands between its operands. -/
theorem binary {operator : Operator} {left right : Expr} {front behind : List Lexeme}
    (first : Spells operator.nonterminal front left)
    (second : Spells operator.nonterminal.operand behind right) (position : Nat) :
    Spells operator.nonterminal (front ++ .operator operator :: behind)
      (.binary operator position left right) := by
  intro tokens shape
  obtain ⟨before, others, rfl, frontShape, rest⟩ := List.map_eq_append_iff.mp shape
  obtain ⟨token, after, rfl, middle, behindShape⟩ := List.map_eq_cons_iff.mp rest
  obtain ⟨leftPhrase, leftDerives, leftSame⟩ := first frontShape
  obtain ⟨rightPhrase, rightDerives, rightSame⟩ := second behindShape
  have joins := Joins.operator middle operator.mem_operators leftPhrase rightPhrase
  refine ⟨_, .joined leftDerives joins rightDerives, ?_⟩
  rw [Phrase.expr, Expr.relabel, Expr.relabel, leftSame, rightSame]
  rfl

/-- Arguments behind commas are further arguments. -/
theorem exists_further {others : List Expr}
    (each : ∀ argument ∈ others, Spells .assignment argument.lexemes argument)
    {front behind : List Token} {earlier : List Phrase} (first : Derives .arguments front earlier)
    (shape : behind.map Token.lexeme =
      (others.map Expr.lexemes).flatMap ([.mark .comma] ++ ·)) :
    ∃ further, Derives .arguments (front ++ behind) (earlier ++ further) ∧
      further.map (·.expr.relabel .unplaced) = others.map (Expr.relabel .unplaced) := by
  induction others generalizing front behind earlier with
  | nil =>
    obtain rfl := List.map_eq_nil_iff.mp shape
    refine ⟨[], ?_, rfl⟩
    rwa [List.append_nil, List.append_nil]
  | cons argument others ih =>
    rw [List.forall_mem_cons] at each
    rw [List.map_cons, List.flatMap_cons, List.append_assoc, List.singleton_append] at shape
    obtain ⟨comma, inside, rfl, separated, insideShape⟩ := List.map_eq_cons_iff.mp shape
    obtain ⟨here, rest, rfl, hereShape, restShape⟩ := List.map_eq_append_iff.mp insideShape
    obtain ⟨phrase, derives, same⟩ := each.1 hereShape
    have longer := Derives.joined first (.comma separated earlier phrase) derives
    obtain ⟨further, all, others_same⟩ := ih each.2 longer restShape
    refine ⟨phrase :: further, by simpa using all, ?_⟩
    rw [List.map_cons, List.map_cons, same, others_same]

/-- A name stands in front of its arguments. -/
theorem call {arguments : List Expr}
    (each : ∀ argument ∈ arguments, Spells .assignment argument.lexemes argument)
    (origin : Origin) (name : String) (position : Nat) :
    Spells .element (Expr.call origin name position arguments).lexemes
      (.call origin name position arguments) := by
  intro tokens shape
  rw [Expr.lexemes, Expr.lexemesAll_eq_map] at shape
  obtain ⟨token, behind, rfl, root, behindShape⟩ := List.map_eq_cons_iff.mp shape
  obtain ⟨opening, behind, rfl, opened, behindShape⟩ := List.map_eq_cons_iff.mp behindShape
  obtain ⟨inside, last, rfl, insideShape, lastShape⟩ := List.map_eq_append_iff.mp behindShape
  obtain ⟨closing, rfl, closed⟩ := List.map_eq_singleton_iff.mp lastShape
  cases arguments with
  | nil =>
    obtain rfl := List.map_eq_nil_iff.mp insideShape
    exact ⟨_, .emptyCall root opened closed, rfl⟩
  | cons argument others =>
    rw [List.forall_mem_cons] at each
    rw [List.map_cons, intercalate_cons_eq_flatMap] at insideShape
    obtain ⟨here, rest, rfl, hereShape, restShape⟩ := List.map_eq_append_iff.mp insideShape
    obtain ⟨phrase, derives, same⟩ := each.1 hereShape
    obtain ⟨further, all, others_same⟩ :=
      exists_further each.2 (.only (by decide) derives) restShape
    refine ⟨_, .call root opened all closed, ?_⟩
    have arguments_same : (phrase :: further).map (·.expr.relabel .unplaced) =
        (argument :: others).map (Expr.relabel .unplaced) := by
      rw [List.map_cons, List.map_cons, same, others_same]
    rw [Phrase.expr, Phrase.exprs_eq_map, Expr.relabel, Expr.relabel, Expr.relabelAll_eq_map,
      Expr.relabelAll_eq_map, List.map_map, List.singleton_append, ← arguments_same]
    rfl

end Spells

namespace Expr

/-- A tree is as tight as its nonterminal, which is that of its operator if it has one at its root.
-/
theorem le_rank_nonterminal {expr : Expr} {rank : Nat} (le : rank ≤ 5)
    (tight : ∀ precedence, expr.rootPrecedence? = some precedence → rank ≤ precedence) :
    rank ≤ expr.nonterminal.rank := by
  cases expr with
  | binary operator =>
    rw [nonterminal, operator.rank_nonterminal]
    exact tight operator.precedence rfl
  | signed => exact le
  | number | constant | call | value => exact Nat.le_succ_of_le le

/-- No tree is printed as several arguments. -/
theorem one_le_rank_nonterminal (expr : Expr) : 1 ≤ expr.nonterminal.rank := by
  apply le_rank_nonterminal (by decide)
  intro precedence root
  cases expr with
  | binary operator =>
    obtain rfl := Option.some.inj root
    exact operator.precedence_pos
  | number | constant | call | signed | value => contradiction

/-- The lexemes of a tree spell it. -/
theorem Built.spells {fits : Lexeme → Prop} {expr : Expr} (built : expr.Built fits) :
    Spells expr.nonterminal expr.lexemes expr := by
  induction built with
  | number position leaf =>
    intro tokens shape
    obtain ⟨token, rfl, literal⟩ := List.map_eq_singleton_iff.mp shape
    exact ⟨_, .number literal, rfl⟩
  | constant position leaf =>
    intro tokens shape
    obtain ⟨token, rfl, name⟩ := List.map_eq_singleton_iff.mp shape
    exact ⟨_, .constant name, rfl⟩
  | @call origin name position arguments root parts ih =>
    have each : ∀ argument ∈ arguments, Spells .assignment argument.lexemes argument :=
      fun argument member => (ih argument member).raise argument.one_le_rank_nonterminal
    exact .call each origin name position
  | @signed sign position operand part ih =>
    have bare (free : operand.rootPrecedence?.isSome = false) : 5 ≤ operand.nonterminal.rank := by
      apply le_rank_nonterminal (Nat.le_refl 5)
      intro precedence root
      simp [root] at free
    have enclosed : Spells .unary (Lexeme.enclosed _ operand.lexemes) operand :=
      ih.enclosed operand.one_le_rank_nonterminal bare
    exact enclosed.signed sign position
  | @binary operator position left right first second firstIh secondIh =>
    have place := operator.rank_nonterminal
    have low := operator.precedence_le
    have leftBare (free : left.rootPrecedence?.any (· < operator.precedence) = false) :
        operator.nonterminal.rank ≤ left.nonterminal.rank := by
      rw [place]
      apply le_rank_nonterminal (Nat.le_succ_of_le low)
      intro precedence root
      simpa [root] using free
    have rightBare (free : right.rootPrecedence?.any (· ≤ operator.precedence) = false) :
        operator.nonterminal.operand.rank ≤ right.nonterminal.rank := by
      rw [operator.rank_rightOperand]
      apply le_rank_nonterminal (Nat.succ_le_succ low)
      intro precedence root
      apply Nat.succ_le_of_lt
      simpa [root] using free
    exact (firstIh.enclosed left.one_le_rank_nonterminal leftBare).binary
      (secondIh.enclosed right.one_le_rank_nonterminal rightBare) position

end Expr

namespace Context

/-- The tree of a line is built from lexemes that can be read back. -/
theorem built_lineTree {line : String} {expr : Expr} (found : lineTree line = .ok expr) :
    expr.Built Lexeme.IsLegible := by
  rw [lineTree, Scan.ofLine_eq] at found
  obtain ⟨_, phrase, derives, rfl⟩ := (Scan.tree_eq_ok_iff ..).mp found
  have legible := Scan.forall_tokens_ofText Scan.isLegible_token 0 line.toList
  exact derives.built legible phrase List.mem_cons_self

/-- A line that is printed from a tree whose lexemes can be read back one by one has this tree, up
to positions. -/
theorem exists_lineTree_of_built {expr : Expr} (built : expr.Built Lexeme.IsLegible) :
    ∃ again, lineTree expr.print = .ok again ∧
      again.relabel .unplaced = expr.relabel .unplaced := by
  obtain ⟨lexemes, ends⟩ := Scan.ofLine_print built
  have spells : Spells .assignment expr.lexemes expr :=
    built.spells.raise expr.one_le_rank_nonterminal
  obtain ⟨phrase, derives, same⟩ := spells lexemes
  exact ⟨phrase.expr, (Scan.tree_eq_ok_iff ..).mpr ⟨ends, phrase, derives, rfl⟩, same⟩

/-- A line that is printed from the tree of a line has this tree, up to positions. -/
theorem exists_lineTree_print {line : String} {expr : Expr}
    (found : lineTree line = .ok expr) :
    ∃ again, lineTree expr.print = .ok again ∧
      again.relabel .unplaced = expr.relabel .unplaced :=
  exists_lineTree_of_built (built_lineTree found)

/-- What is printed of the tree of a line that a context accepts is a line that it accepts, with the
same tree up to positions. -/
theorem exists_parse_print {context : Context} {line : String} {tree : Expr}
    (parsed : context.parse line = .ok tree) :
    ∃ again, context.parse tree.print = .ok again ∧
      again.relabel .unplaced = tree.relabel .unplaced := by
  obtain ⟨found, accepted⟩ := (context.parse_eq_ok_iff ..).mp parsed
  obtain ⟨plain, read, rfl⟩ := (context.tree_eq_ok_iff ..).mp found
  obtain ⟨again, readAgain, same⟩ := exists_lineTree_print read
  have labelled : (again.relabel (.resolve context)).relabel .unplaced =
      (plain.relabel (.resolve context)).relabel .unplaced := by
    have resolved := congrArg (Expr.relabel (.resolve context)) same
    rw [Expr.relabel_relabel, Expr.relabel_relabel] at resolved ⊢
    exact resolved
  refine ⟨again.relabel (.resolve context), ?_, labelled⟩
  rw [parse_eq_ok_iff, tree_eq_ok_iff, check_relabel_eq_ok_iff, Expr.print_relabel]
  refine ⟨⟨again, readAgain, rfl⟩, ?_⟩
  rw [← wellFormed_unplaced_iff, labelled, wellFormed_unplaced_iff, ← check_relabel_eq_ok_iff]
  exact accepted

/-- The tree of a line with spaces, more parentheses than needed, and a literal without its zero. -/
def roomyTree : Expr :=
  .binary .sub 2
    (.number "1" false 0)
    (.binary .sub 21
      (.binary .pow 17 (.signed .minus 8 (.constant .builtIn "pi" 12)) (.number "2" false 19))
      (.number "0.5e+3" true 28))

/-- The tree is printed without spaces and with the parentheses that it needs, and read again. -/
theorem roomyTree_printed :
    Context.parse {} "1 - ( ( - (pi) ) ^ 2 - .5e+3i )" = .ok roomyTree ∧
      roomyTree.print = "1-(-pi^2-0.5e+3i)" ∧
      ∃ again, Context.parse {} "1-(-pi^2-0.5e+3i)" = .ok again ∧
        again.relabel .unplaced = roomyTree.relabel .unplaced := by
  have parsed : Context.parse {} "1 - ( ( - (pi) ) ^ 2 - .5e+3i )" = .ok roomyTree := by
    with_unfolding_all rfl
  have printed : roomyTree.print = "1-(-pi^2-0.5e+3i)" := by decide +kernel
  have again := exists_parse_print parsed
  rw [printed] at again
  exact ⟨parsed, printed, again⟩

end Context

end Reckoner
