import Reckoner.Proofs.Stored
/-!
# Definitions do not change the shape of a line

Where the tokens of a line begin and end, and how they are put together, is settled by its
characters. The definitions of the user only decide which of the names are his: two contexts read a
line with the same tokens and the same tree, up to where its names stand, or they refuse it with the
same diagnosis. A name that is built in for one context is built in for every other.
-/

namespace Reckoner

/-- Two origins of one name that differ at most in what the user has defined. -/
def Origin.SameSort (first second : Origin) : Prop := first = .builtIn ↔ second = .builtIn

/-- Two lexemes that differ at most in what the user has defined. -/
inductive Lexeme.SameShape : Lexeme → Lexeme → Prop
  /-- Literals have one spelling, and both or none are imaginary. -/
  | number (spelling : String) (imaginary : Bool) :
    SameShape (.number spelling imaginary) (.number spelling imaginary)
  /-- Constants have one name. -/
  | constant (name : String) {first second : Origin} (sort : first.SameSort second) :
    SameShape (.constant first name) (.constant second name)
  /-- Functions have one name. -/
  | function (name : String) {first second : Origin} (sort : first.SameSort second) :
    SameShape (.function first name) (.function second name)
  /-- Operators are equal. -/
  | operator (operator : Operator) : SameShape (.operator operator) (.operator operator)
  /-- Punctuation marks are equal. -/
  | mark (mark : Mark) : SameShape (.mark mark) (.mark mark)

/-- Two tokens on the same bytes that differ at most in what the user has defined. -/
structure Token.SameShape (first second : Token) : Prop where
  /-- They say the same. -/
  lexeme : first.lexeme.SameShape second.lexeme
  /-- They begin at the same byte. -/
  start : first.start = second.start
  /-- They end at the same byte. -/
  stop : first.stop = second.stop

/-- Two trees that differ at most in what the user has defined: they have the same nodes with the
same texts at the same positions. -/
inductive Expr.SameShape : Expr → Expr → Prop
  /-- Literals have one spelling and one position, and both or none are imaginary. -/
  | number (spelling : String) (imaginary : Bool) (position : Nat) :
    SameShape (.number spelling imaginary position) (.number spelling imaginary position)
  /-- Constants have one name and one position. -/
  | constant (name : String) (position : Nat) {first second : Origin}
    (sort : first.SameSort second) :
    SameShape (.constant first name position) (.constant second name position)
  /-- Calls have one name and one position, and their arguments have the same shape one by one. -/
  | call (name : String) (position : Nat) {first second : Origin} {arguments others : List Expr}
    (sort : first.SameSort second) (parts : List.Forall₂ SameShape arguments others) :
    SameShape (.call first name position arguments) (.call second name position others)
  /-- Operands have one sign at one position. -/
  | signed (sign : Sign) (position : Nat) {operand other : Expr}
    (part : SameShape operand other) :
    SameShape (.signed sign position operand) (.signed sign position other)
  /-- Operands are joined by one operator at one position. -/
  | binary (operator : Operator) (position : Nat) {left right otherLeft otherRight : Expr}
    (first : SameShape left otherLeft) (second : SameShape right otherRight) :
    SameShape (.binary operator position left right)
      (.binary operator position otherLeft otherRight)
  /-- Values are equal. -/
  | value (known : Number) : SameShape (.value known) (.value known)

namespace Context

variable (first second : Context)

/-- What is a built-in constant does not depend on the context. -/
theorem sameSort_constantOrigin (name : String) :
    (first.constantOrigin name).SameSort (second.constantOrigin name) :=
  not_iff_not.mp ((first.constantOrigin_ne_builtIn_iff name).trans
    (second.constantOrigin_ne_builtIn_iff name).symm)

/-- What is a built-in function does not depend on the context. -/
theorem sameSort_functionOrigin (name : String) :
    (first.functionOrigin name).SameSort (second.functionOrigin name) :=
  not_iff_not.mp ((first.functionOrigin_ne_builtIn_iff name).trans
    (second.functionOrigin_ne_builtIn_iff name).symm)

/-- A token has the same shape in two contexts. -/
theorem sameShape_token (token : Token) :
    (token.resolve first).SameShape (token.resolve second) := by
  refine ⟨?_, rfl, rfl⟩
  obtain ⟨lexeme, start, stop⟩ := token
  cases lexeme with
  | number spelling imaginary => exact .number spelling imaginary
  | constant origin name => exact .constant name (sameSort_constantOrigin first second name)
  | function origin name => exact .function name (sameSort_functionOrigin first second name)
  | operator operator => exact .operator operator
  | mark mark => exact .mark mark

/-- A tree has the same shape with the origins of two contexts. -/
theorem sameShape_relabel (expr : Expr) :
    (expr.relabel (.resolve first)).SameShape (expr.relabel (.resolve second)) := by
  induction expr with
  | number spelling imaginary position => exact .number spelling imaginary position
  | constant origin name position =>
    exact .constant name position (sameSort_constantOrigin first second name)
  | call origin name position arguments ih =>
    rw [Expr.relabel, Expr.relabel, Expr.relabelAll_eq_map, Expr.relabelAll_eq_map]
    refine .call name position (sameSort_functionOrigin first second name) ?_
    rw [List.forall₂_map_left_iff, List.forall₂_map_right_iff, List.forall₂_same]
    exact ih
  | signed sign position operand ih => exact .signed sign position ih
  | binary operator position left right leftIh rightIh =>
    exact .binary operator position leftIh rightIh
  | value known => exact .value known

/-- Two contexts read a line alike. Its tokens have the same shape up to the same fault or the end.
Then either the tokens have no tree in both, for the same reason at the same byte, or they have
trees of the same shape. -/
theorem line_sameShape (line : String) :
    (List.Forall₂ Token.SameShape (first.scan line).tokens (second.scan line).tokens ∧
        (first.scan line).stop = (second.scan line).stop) ∧
      ((∃ diagnosis, first.tree line = .error diagnosis ∧ second.tree line = .error diagnosis) ∨
        ∃ tree other, first.tree line = .ok tree ∧ second.tree line = .ok other ∧
          tree.SameShape other) := by
  refine ⟨⟨?_, rfl⟩, ?_⟩
  · rw [scan_eq, scan_eq, Scan.resolve, Scan.resolve, List.forall₂_map_left_iff,
      List.forall₂_map_right_iff, List.forall₂_same]
    exact fun token _ => sameShape_token first second token
  · rw [tree_eq_relabel, tree_eq_relabel]
    cases lineTree line with
    | error diagnosis => exact Or.inl ⟨diagnosis, rfl, rfl⟩
    | ok plain => exact Or.inr ⟨_, _, rfl, rfl, sameShape_relabel first second plain⟩

end Context

end Reckoner
