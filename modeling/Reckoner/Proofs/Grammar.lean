import Reckoner.Proofs.Tree
import Reckoner.Token.Basic
/-!
# The grammar of expressions

The grammar has one nonterminal for the arguments of a call and one for each precedence, with the
operators that associate to the left, and signs bind more tightly than all of them:

    L ::= L ',' A | A                    P ::= P ('*' | '/' | '%') W | W
    A ::= A '=' S | S                    W ::= W '^' U | U
    S ::= S ('+' | '-') P | P            U ::= ('+' | '-') U | X
    X ::= number | constant | function '(' ')' | function '(' L ')' | '(' A ')'

A derivation is given by its tokens and its phrase, which keeps the parentheses. The main statement
is that the tokens alone determine the phrase: of two derivations whose tokens begin alike, one
continues the other, and neither is continued by a token that its nonterminal does not take up.
-/

namespace Reckoner

/-- What a run of tokens can be. -/
inductive Nonterminal where
  | arguments | assignment | sum | product | power | unary | element
  deriving DecidableEq

namespace Nonterminal

/-- What stands on the right of a comma or an operator, and what a nonterminal can come to alone. -/
def operand : Nonterminal → Nonterminal
  | arguments => assignment
  | assignment => sum
  | sum => product
  | product => power
  | power => unary
  | unary => element
  | element => element

/-- The operators of a nonterminal. -/
def operators : Nonterminal → List Operator
  | assignment => [.assign]
  | sum => [.add, .sub]
  | product => [.mul, .div, .mod]
  | power => [.pow]
  | arguments | unary | element => []

/-- The place of a nonterminal in the grammar. -/
def rank : Nonterminal → Nat
  | arguments => 0
  | assignment => 1
  | sum => 2
  | product => 3
  | power => 4
  | unary => 5
  | element => 6

/-- An operand has the next place. -/
theorem rank_operand {category : Nonterminal} (higher : category ≠ .element) :
    category.operand.rank = category.rank + 1 := by
  cases category <;> first | rfl | contradiction

/-- A nonterminal has the operators whose precedence is its place. -/
theorem mem_operators_iff (category : Nonterminal) (operator : Operator) :
    operator ∈ category.operators ↔ operator.precedence = category.rank := by
  cases category <;> cases operator <;> decide

/-- The places tell the nonterminals apart. -/
theorem rank_injective {first second : Nonterminal} (same : first.rank = second.rank) :
    first = second := by
  cases first <;> cases second <;> first | rfl | contradiction

end Nonterminal

namespace Operator

/-- The nonterminal that an operator joins operands of. -/
def nonterminal : Operator → Nonterminal
  | .assign => .assignment
  | .add | .sub => .sum
  | .mul | .div | .mod => .product
  | .pow => .power

/-- An operator is one of those of its nonterminal. -/
theorem mem_operators (operator : Operator) : operator ∈ operator.nonterminal.operators := by
  cases operator <;> decide

/-- The nonterminal of an operator has its precedence as its place. -/
theorem rank_nonterminal (operator : Operator) :
    operator.nonterminal.rank = operator.precedence :=
  ((Nonterminal.mem_operators_iff _ _).mp operator.mem_operators).symm

/-- The right operand of an operator has the next place. -/
theorem rank_rightOperand (operator : Operator) :
    operator.nonterminal.operand.rank = operator.precedence + 1 := by
  cases operator <;> rfl

end Operator

/-- A tree that keeps the parentheses of the line. -/
inductive Phrase where
  /-- A literal. -/
  | number (spelling : String) (imaginary : Bool) (position : Nat)
  /-- A name without an argument list. -/
  | constant (origin : Origin) (name : String) (position : Nat)
  /-- A call of a function. -/
  | call (origin : Origin) (name : String) (position : Nat) (arguments : List Phrase)
  /-- A phrase in parentheses. -/
  | group (inner : Phrase)
  /-- An operand with a sign. -/
  | signed (sign : Sign) (position : Nat) (operand : Phrase)
  /-- Two operands with an operator between them. -/
  | binary (operator : Operator) (position : Nat) (left right : Phrase)

/-- A token joins what stands on its two sides to a phrase of a nonterminal, or to further
arguments. All but arguments are single phrases. -/
inductive Joins (token : Token) :
    Nonterminal → List Phrase → List Phrase → List Phrase → Prop
  /-- A comma adds an argument. -/
  | comma (shape : token.lexeme = .mark .comma) (earlier : List Phrase) (last : Phrase) :
    Joins token .arguments earlier [last] (earlier ++ [last])
  /-- An operator joins two operands. -/
  | operator {category : Nonterminal} {operator : Operator}
    (shape : token.lexeme = .operator operator) (among : operator ∈ category.operators)
    (left right : Phrase) :
    Joins token category [left] [right] [.binary operator token.stop left right]

/-- The grammar: tokens are derived from a nonterminal with a phrase, or with several phrases if
they are arguments. -/
inductive Derives : Nonterminal → List Token → List Phrase → Prop
  /-- An operand can follow what a comma or an operator of the nonterminal stands behind. -/
  | joined {category : Nonterminal} {token : Token} {front behind : List Token}
    {left right result : List Phrase} (first : Derives category front left)
    (joins : Joins token category left right result)
    (second : Derives category.operand behind right) :
    Derives category (front ++ token :: behind) result
  /-- An operand can stand alone. -/
  | only {category : Nonterminal} {tokens : List Token} {phrases : List Phrase}
    (higher : category ≠ .element) (part : Derives category.operand tokens phrases) :
    Derives category tokens phrases
  /-- A sign can stand in front of an operand that may have signs itself. -/
  | signed {token : Token} {sign : Sign} {behind : List Token} {operand : Phrase}
    (shape : token.lexeme = .operator sign.operator) (part : Derives .unary behind [operand]) :
    Derives .unary (token :: behind) [.signed sign token.stop operand]
  /-- A literal. -/
  | number {token : Token} {spelling : String} {imaginary : Bool}
    (shape : token.lexeme = .number spelling imaginary) :
    Derives .element [token] [.number spelling imaginary token.stop]
  /-- A name without an argument list. -/
  | constant {token : Token} {origin : Origin} {name : String}
    (shape : token.lexeme = .constant origin name) :
    Derives .element [token] [.constant origin name token.stop]
  /-- A call without arguments. -/
  | emptyCall {token opening closing : Token} {origin : Origin} {name : String}
    (shape : token.lexeme = .function origin name) (opened : opening.lexeme = .mark .opening)
    (closed : closing.lexeme = .mark .closing) :
    Derives .element [token, opening, closing] [.call origin name token.stop []]
  /-- A call with arguments. -/
  | call {token opening closing : Token} {origin : Origin} {name : String} {inside : List Token}
    {arguments : List Phrase} (shape : token.lexeme = .function origin name)
    (opened : opening.lexeme = .mark .opening) (part : Derives .arguments inside arguments)
    (closed : closing.lexeme = .mark .closing) :
    Derives .element (token :: opening :: inside ++ [closing])
      [.call origin name token.stop arguments]
  /-- A phrase in parentheses. -/
  | group {opening closing : Token} {inside : List Token} {inner : Phrase}
    (opened : opening.lexeme = .mark .opening) (part : Derives .assignment inside [inner])
    (closed : closing.lexeme = .mark .closing) :
    Derives .element (opening :: inside ++ [closing]) [.group inner]

/-- The place of the nonterminal that a token joins parts of, if it is a comma or an operator. -/
def Lexeme.jointRank? : Lexeme → Option Nat
  | .mark .comma => some 0
  | .operator symbol => some symbol.precedence
  | _ => none

/-- No comma or operator of the place `bound` or a later one comes next. -/
def Stops (bound : Nat) (rest : List Token) : Prop :=
  ∀ token ∈ rest.head?, ∀ rank ∈ token.lexeme.jointRank?, rank < bound

/-- What stops later places only is stopped more easily. -/
theorem Stops.mono {bound higher : Nat} {rest : List Token} (stops : Stops bound rest)
    (le : bound ≤ higher) : Stops higher rest :=
  fun token next rank joint => Nat.lt_of_lt_of_le (stops token next rank joint) le

/-- A closing mark stops every nonterminal. -/
theorem stops_closing {token : Token} (closed : token.lexeme = .mark .closing) (bound : Nat)
    (rest : List Token) : Stops bound (token :: rest) := by
  intro next same rank joint
  obtain rfl := Option.some.inj same
  rw [closed] at joint
  contradiction

/-- The end of the line stops every nonterminal. -/
theorem stops_nil (bound : Nat) : Stops bound [] := fun _ next => nomatch next

namespace Joins

variable {token : Token} {category : Nonterminal} {left right result : List Phrase}

/-- What joins parts of a nonterminal has its place. -/
theorem jointRank (joins : Joins token category left right result) :
    token.lexeme.jointRank? = some category.rank := by
  cases joins with
  | comma shape => rw [shape]; rfl
  | operator shape among =>
    rw [shape]
    exact congrArg some ((category.mem_operators_iff _).mp among)

/-- Signs and elements have nothing that joins them. -/
theorem rank_le (joins : Joins token category left right result) : category.rank ≤ 4 := by
  cases joins with
  | comma => decide
  | @operator category operator _ among =>
    rw [← (category.mem_operators_iff operator).mp among]
    exact operator.precedence_le

/-- What a token joins two sides to is determined. -/
theorem unique {other : List Phrase} (joins : Joins token category left right result)
    (also : Joins token category left right other) : result = other := by
  cases joins <;> cases also <;> simp_all

end Joins

/-- The phrases for `front` are the beginning of those for `whole`: behind them stand `rest`, which
are operands behind commas or operators of the nonterminal. -/
inductive Spine (category : Nonterminal) (whole : List Token) (result : List Phrase) :
    List Token → List Phrase → List Token → Prop
  /-- Nothing stands behind them. -/
  | done : Spine category whole result whole result []
  /-- An operand stands behind them. -/
  | joined {token : Token} {front behind rest : List Token} {left right next : List Phrase}
    (joins : Joins token category left right next)
    (second : Derives category.operand behind right)
    (further : Spine category whole result (front ++ token :: behind) next rest) :
    Spine category whole result front left (token :: behind ++ rest)

namespace Spine

variable {category : Nonterminal} {whole front rest : List Token} {result phrases : List Phrase}

/-- The beginning and what stands behind it are the whole. -/
theorem append_eq (spine : Spine category whole result front phrases rest) :
    front ++ rest = whole := by
  induction spine with
  | done => simp
  | joined _ _ _ ih => simpa using ih

/-- A further operand makes the whole longer. -/
theorem snoc (spine : Spine category whole result front phrases rest) {token : Token}
    {behind : List Token} {right next : List Phrase}
    (joins : Joins token category result right next)
    (second : Derives category.operand behind right) :
    Spine category (whole ++ token :: behind) next front phrases (rest ++ token :: behind) := by
  induction spine with
  | done =>
    have last : Spine category (whole ++ token :: behind) next whole result
        (token :: behind ++ []) := .joined joins second .done
    simpa using last
  | joined innerJoins innerSecond _ ih =>
    have first := Spine.joined innerJoins innerSecond ih
    simpa using first

/-- What stands behind the beginning is stopped like an operand. -/
theorem stops (spine : Spine category whole result front phrases rest) {behind : List Token}
    (stopped : Stops category.rank behind) : Stops (category.rank + 1) (rest ++ behind) := by
  cases spine with
  | done => exact stopped.mono (Nat.le_succ _)
  | joined joins =>
    intro token same rank joint
    obtain rfl := Option.some.inj same
    rw [joins.jointRank] at joint
    obtain rfl := Option.some.inj joint
    exact Nat.lt_succ_self _

/-- A beginning that the nonterminal does not continue is the whole. -/
theorem exact (spine : Spine category whole result front phrases rest) {behind : List Token}
    (stopped : Stops category.rank (rest ++ behind)) :
    front = whole ∧ phrases = result ∧ rest = [] := by
  cases spine with
  | done => exact ⟨rfl, rfl, rfl⟩
  | joined joins =>
    have low := stopped _ rfl category.rank joins.jointRank
    omega

end Spine

namespace Derives

variable {category : Nonterminal} {tokens : List Token} {phrases : List Phrase}

/-- Every derivation begins with a token that closes nothing. -/
theorem exists_cons (derives : Derives category tokens phrases) :
    ∃ token rest, tokens = token :: rest ∧ token.lexeme ≠ .mark .closing := by
  induction derives with
  | joined first _ _ ih =>
    obtain ⟨token, rest, rfl, opens⟩ := ih
    exact ⟨token, _, rfl, opens⟩
  | only _ _ ih => exact ih
  | signed shape | number shape | constant shape | emptyCall shape | call shape | group shape =>
    exact ⟨_, _, rfl, by simp [shape]⟩

/-- No derivation begins with a closing parenthesis. -/
theorem append_ne_closing (derives : Derives category tokens phrases) {closing : Token}
    (closed : closing.lexeme = .mark .closing) (behind rest : List Token) :
    tokens ++ behind ≠ closing :: rest := by
  obtain ⟨token, others, rfl, different⟩ := derives.exists_cons
  intro same
  obtain ⟨rfl, _⟩ := List.cons.inj same
  contradiction

/-- What an element is, its first token tells: a literal, a constant, a call without or with
arguments, or a phrase in parentheses. -/
def ElementOf (token : Token) (rest : List Token) (phrases : List Phrase) : Prop :=
  match token.lexeme with
  | .number spelling imaginary => rest = [] ∧ phrases = [.number spelling imaginary token.stop]
  | .constant origin name => rest = [] ∧ phrases = [.constant origin name token.stop]
  | .function origin name => ∃ opening inside closing arguments,
      rest = opening :: inside ++ [closing] ∧ phrases = [.call origin name token.stop arguments] ∧
        opening.lexeme = .mark .opening ∧ closing.lexeme = .mark .closing ∧
        (inside = [] ∧ arguments = [] ∨ Derives .arguments inside arguments)
  | .mark .opening => ∃ inside closing inner,
      rest = inside ++ [closing] ∧ phrases = [.group inner] ∧
        closing.lexeme = .mark .closing ∧ Derives .assignment inside [inner]
  | _ => False

/-- An element is what its first token tells. -/
theorem element_inv (derives : Derives .element tokens phrases) :
    ∃ token rest, tokens = token :: rest ∧ ElementOf token rest phrases := by
  unfold ElementOf
  cases derives with
  | joined _ joins => exact absurd joins.rank_le (by decide)
  | only higher => contradiction
  | number shape => exact ⟨_, _, rfl, by simp [shape]⟩
  | constant shape => exact ⟨_, _, rfl, by simp [shape]⟩
  | emptyCall shape opened closed =>
    refine ⟨_, _, rfl, ?_⟩
    rw [shape]
    exact ⟨_, [], _, [], rfl, rfl, opened, closed, Or.inl ⟨rfl, rfl⟩⟩
  | call shape opened part closed =>
    refine ⟨_, _, rfl, ?_⟩
    rw [shape]
    exact ⟨_, _, _, _, rfl, rfl, opened, closed, Or.inr part⟩
  | group opened part closed =>
    refine ⟨_, _, rfl, ?_⟩
    rw [opened]
    exact ⟨_, _, _, rfl, rfl, closed, part⟩

/-- An element begins with a token that is no operator. -/
theorem element_exists_cons (derives : Derives .element tokens phrases) :
    ∃ token rest, tokens = token :: rest ∧ ∀ operator, token.lexeme ≠ .operator operator := by
  obtain ⟨token, rest, rfl, element⟩ := derives.element_inv
  refine ⟨token, rest, rfl, fun operator shape => ?_⟩
  rw [ElementOf, shape] at element
  exact element

/-- A derivation begins with an operand, or it is an operand with a sign. -/
theorem exists_spine (derives : Derives category tokens phrases) (higher : category ≠ .element) :
    (∃ front start rest, Derives category.operand front start ∧
        Spine category tokens phrases front start rest) ∨
      category = .unary ∧ ∃ token rest operator,
        tokens = token :: rest ∧ token.lexeme = .operator operator := by
  induction derives with
  | joined first joins second ih =>
    rcases ih higher with ⟨front, start, rest, part, spine⟩ | ⟨same, _⟩
    · exact Or.inl ⟨front, start, _, part, spine.snoc joins second⟩
    · subst same
      exact absurd joins.rank_le (by decide)
  | only _ part => exact Or.inl ⟨_, _, _, part, .done⟩
  | signed shape => exact Or.inr ⟨rfl, _, _, _, rfl, shape⟩
  | number | constant | emptyCall | call | group => contradiction

end Derives

/-- What the nonterminal derives from tokens that begin alike begins with the phrases, if the
nonterminal does not continue what stands behind it, nor an operand of it what stands behind the
tokens. -/
def Begins (category : Nonterminal) (tokens : List Token) (phrases : List Phrase) : Prop :=
  ∀ ⦃whole rest behind : List Token⦄ ⦃result : List Phrase⦄, Derives category whole result →
    tokens ++ rest = whole ++ behind → Stops (category.rank + 1) rest →
    Stops category.rank behind →
    ∃ further, Spine category whole result tokens phrases further ∧ rest = further ++ behind

namespace Begins

variable {category : Nonterminal} {token : Token} {tokens : List Token} {phrases : List Phrase}

/-- The beginning is the whole, if the nonterminal does not continue it. -/
theorem eq (begins : Begins category tokens phrases) {whole rest behind : List Token}
    {result : List Phrase} (other : Derives category whole result)
    (same : tokens ++ rest = whole ++ behind) (stopped : Stops category.rank rest)
    (alsoStopped : Stops category.rank behind) :
    tokens = whole ∧ phrases = result ∧ rest = behind := by
  obtain ⟨further, spine, rfl⟩ := begins other same (stopped.mono (Nat.le_succ _)) alsoStopped
  obtain ⟨rfl, rfl, rfl⟩ := spine.exact stopped
  exact ⟨rfl, rfl, rfl⟩

/-- What stands in front of closing parentheses is the same. -/
theorem eq_closed (begins : Begins category tokens phrases) {whole rest behind : List Token}
    {closing otherClosing : Token} {result : List Phrase} (other : Derives category whole result)
    (same : tokens ++ closing :: rest = whole ++ otherClosing :: behind)
    (closed : closing.lexeme = .mark .closing)
    (otherClosed : otherClosing.lexeme = .mark .closing) :
    tokens = whole ∧ phrases = result ∧ rest = behind := by
  obtain ⟨tokens_eq, phrases_eq, ends⟩ :=
    begins.eq other same (stops_closing closed _ _) (stops_closing otherClosed _ _)
  exact ⟨tokens_eq, phrases_eq, (List.cons.inj ends).2⟩

/-- An operand joined to a beginning is joined to it in the other derivation as well. -/
theorem joined {front behind : List Token} {left right : List Phrase}
    (first : Begins category front left) (joins : Joins token category left right phrases)
    (second : Begins category.operand behind right) :
    Begins category (front ++ token :: behind) phrases := by
  intro whole rest after result other same stopped alsoStopped
  have higher : category ≠ .element := by
    rintro rfl
    exact absurd joins.rank_le (by decide)
  have place := category.rank_operand higher
  -- The joining token stops the operands but not the nonterminal.
  have reached : Stops (category.rank + 1) (token :: behind ++ rest) := by
    intro found found_eq rank joint
    obtain rfl := Option.some.inj found_eq
    rw [joins.jointRank] at joint
    obtain rfl := Option.some.inj joint
    exact Nat.lt_succ_self _
  obtain ⟨further, spine, behindLeft⟩ := first other (by simpa using same) reached alsoStopped
  cases spine with
  | done =>
    obtain rfl : token :: behind ++ rest = after := behindLeft
    have low := alsoStopped token rfl _ joins.jointRank
    omega
  | joined otherJoins otherSecond spine =>
    obtain ⟨rfl, behindToken⟩ := List.cons.inj behindLeft
    have otherStopped := spine.stops alsoStopped
    rw [← place] at stopped otherStopped
    obtain ⟨rfl, rfl, rest_eq⟩ :=
      second.eq otherSecond (by simpa using behindToken) stopped otherStopped
    obtain rfl := joins.unique otherJoins
    exact ⟨_, spine, rest_eq⟩

/-- An operand alone is the first one of the other derivation. -/
theorem only (higher : category ≠ .element) (part : Derives category.operand tokens phrases)
    (begins : Begins category.operand tokens phrases) : Begins category tokens phrases := by
  intro whole rest behind result other same stopped alsoStopped
  have place := category.rank_operand higher
  rcases other.exists_spine higher with ⟨front, start, others, first, spine⟩ |
    ⟨rfl, token, others, operator, rfl, shape⟩
  · have otherStopped := spine.stops alsoStopped
    rw [← place] at stopped otherStopped
    obtain ⟨rfl, rfl, rest_eq⟩ := begins.eq first
      (by rw [same, ← spine.append_eq, List.append_assoc]) stopped otherStopped
    exact ⟨others, spine, rest_eq⟩
  · obtain ⟨head, _, rfl, plain⟩ := part.element_exists_cons
    obtain ⟨rfl, _⟩ := List.cons.inj same
    exact absurd shape (plain operator)

/-- A sign stands in front of the same operand. -/
theorem signed {sign : Sign} {behind : List Token} {operand : Phrase}
    (shape : token.lexeme = .operator sign.operator) (part : Begins .unary behind [operand]) :
    Begins .unary (token :: behind) [.signed sign token.stop operand] := by
  intro whole rest after result other same stopped alsoStopped
  cases other with
  | joined _ joins => exact absurd joins.rank_le (by decide)
  | only _ otherPart =>
    obtain ⟨head, _, rfl, plain⟩ := otherPart.element_exists_cons
    obtain ⟨rfl, _⟩ := List.cons.inj same
    exact absurd shape (plain _)
  | @signed _ otherSign _ _ otherShape otherPart =>
    obtain ⟨rfl, sameBehind⟩ := List.cons.inj same
    have signs : sign = otherSign := by
      rw [shape] at otherShape
      revert otherShape
      cases sign <;> cases otherSign <;> simp [Sign.operator]
    obtain ⟨further, spine, rfl⟩ := part otherPart sameBehind stopped alsoStopped
    cases spine with
    | done =>
      subst signs
      exact ⟨[], .done, rfl⟩
    | joined joins => exact absurd joins.rank_le (by decide)

/-- A literal or a name without an argument list is an element alone. -/
theorem leaf {phrase : Phrase}
    (alone : ∀ rest phrases, Derives.ElementOf token rest phrases →
      rest = [] ∧ phrases = [phrase]) :
    Begins .element [token] [phrase] := by
  intro whole rest behind result other same _ _
  obtain ⟨head, others, rfl, element⟩ := other.element_inv
  obtain ⟨rfl, sameBehind⟩ := List.cons.inj same
  obtain ⟨rfl, rfl⟩ := alone others result element
  exact ⟨[], .done, sameBehind⟩

/-- A call without arguments is the same call. -/
theorem emptyCall {opening closing : Token} {origin : Origin} {name : String}
    (shape : token.lexeme = .function origin name) (closed : closing.lexeme = .mark .closing) :
    Begins .element [token, opening, closing] [.call origin name token.stop []] := by
  intro whole rest behind result other same _ _
  obtain ⟨head, others, rfl, element⟩ := other.element_inv
  obtain ⟨rfl, sameBehind⟩ := List.cons.inj same
  rw [Derives.ElementOf, shape] at element
  obtain ⟨otherOpening, inside, otherClosing, arguments, rfl, rfl, _, _, both | part⟩ := element
  · obtain ⟨rfl, rfl⟩ := both
    obtain ⟨rfl, sameInside⟩ := List.cons.inj sameBehind
    obtain ⟨rfl, sameEnd⟩ := List.cons.inj sameInside
    exact ⟨[], .done, sameEnd⟩
  · obtain ⟨rfl, sameInside⟩ := List.cons.inj sameBehind
    exact absurd (by simpa using sameInside.symm) (part.append_ne_closing closed _ rest)

/-- A call has the same arguments. -/
theorem call {opening closing : Token} {origin : Origin} {name : String} {inside : List Token}
    {arguments : List Phrase} (shape : token.lexeme = .function origin name)
    (part : Derives .arguments inside arguments) (begins : Begins .arguments inside arguments)
    (closed : closing.lexeme = .mark .closing) :
    Begins .element (token :: opening :: inside ++ [closing])
      [.call origin name token.stop arguments] := by
  intro whole rest behind result other same _ _
  obtain ⟨head, others, rfl, element⟩ := other.element_inv
  obtain ⟨rfl, sameBehind⟩ := List.cons.inj same
  rw [Derives.ElementOf, shape] at element
  obtain ⟨otherOpening, otherInside, otherClosing, otherArguments, rfl, rfl, _, otherClosed,
    both | otherPart⟩ := element
  · obtain ⟨rfl, rfl⟩ := both
    obtain ⟨rfl, sameInside⟩ := List.cons.inj sameBehind
    exact absurd (by simpa using sameInside) (part.append_ne_closing otherClosed _ behind)
  · obtain ⟨rfl, sameInside⟩ := List.cons.inj sameBehind
    obtain ⟨rfl, rfl, rfl⟩ :=
      begins.eq_closed otherPart (by simpa using sameInside) closed otherClosed
    have ends : closing = otherClosing := by simpa using sameInside
    subst ends
    exact ⟨[], .done, rfl⟩

/-- Parentheses enclose the same phrase. -/
theorem group {closing : Token} {inside : List Token} {inner : Phrase}
    (opened : token.lexeme = .mark .opening) (begins : Begins .assignment inside [inner])
    (closed : closing.lexeme = .mark .closing) :
    Begins .element (token :: inside ++ [closing]) [.group inner] := by
  intro whole rest behind result other same _ _
  obtain ⟨head, others, rfl, element⟩ := other.element_inv
  obtain ⟨rfl, sameBehind⟩ := List.cons.inj same
  rw [Derives.ElementOf, opened] at element
  obtain ⟨otherInside, otherClosing, otherInner, rfl, rfl, otherClosed, otherPart⟩ := element
  obtain ⟨rfl, phrases_eq, rfl⟩ :=
    begins.eq_closed otherPart (by simpa using sameBehind) closed otherClosed
  obtain ⟨rfl, _⟩ := List.cons.inj phrases_eq
  have ends : closing = otherClosing := by simpa using sameBehind
  subst ends
  exact ⟨[], .done, rfl⟩

end Begins

namespace Derives

variable {category : Nonterminal} {tokens : List Token} {phrases : List Phrase}

/-- Every derivation is the beginning of those whose tokens begin alike. -/
theorem begins (derives : Derives category tokens phrases) : Begins category tokens phrases := by
  induction derives with
  | joined _ joins _ first second => exact first.joined joins second
  | only higher part begins => exact .only higher part begins
  | signed shape _ begins => exact .signed shape begins
  | number shape | constant shape =>
    exact .leaf fun _ _ element => by simpa [ElementOf, shape] using element
  | emptyCall shape _ closed => exact .emptyCall shape closed
  | call shape _ part closed begins => exact .call shape part begins closed
  | group opened _ closed begins => exact .group opened begins closed

/-- The tokens determine the phrases. -/
theorem unique {other : List Phrase} (first : Derives category tokens phrases)
    (second : Derives category tokens other) : phrases = other := by
  have same : tokens ++ [] = tokens ++ [] := rfl
  obtain ⟨_, phrases_eq, _⟩ := first.begins.eq second same (stops_nil _) (stops_nil _)
  exact phrases_eq

end Derives

end Reckoner
