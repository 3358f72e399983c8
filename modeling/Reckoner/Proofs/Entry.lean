import Reckoner.Context.Enter
import Reckoner.Proofs.Checking
import Reckoner.Proofs.Encoding
/-!
# What an accepted line does

The tokens of a line do not depend on the context, so its tree is the tree of these tokens with the
origins of the context. An accepted line is an expression whose value is kept, the definition of a
constant, or the definition of a function whose stored body is checked against the context in front
of the line.
-/

open Relation

namespace Reckoner.Context

variable (context : Context)

/-- The tokens of a line without a context. -/
def lineTree (line : String) : Except Diagnosis Expr := (Scan.ofLine line).tree line.utf8ByteSize

/-- The tree of a line is the tree of its tokens with the origins of the context. -/
theorem tree_eq_relabel (line : String) :
    context.tree line =
      Build.relabelResult (.resolve context) (Expr.relabel (.resolve context)) (lineTree line) := by
  have resolved : context.scan line = (Scan.ofLine line).relabel (.resolve context) := by
    have token : Token.resolve context = Token.relabel (.resolve context) := by
      funext token
      obtain ⟨lexeme, start, stop⟩ := token
      cases lexeme <;> rfl
    have stop (diagnosis : Diagnosis) : diagnosis.relabel (.resolve context) = diagnosis := rfl
    simp only [scan_eq, Scan.resolve, Scan.relabel, token]
    cases (Scan.ofLine line).stop <;> rfl
  rw [tree_eq, resolved]
  exact Scan.tree_relabel (.resolve context) line.utf8ByteSize (Scan.ofLine line)

/-- A line has a tree exactly if its tokens have one, whatever the context is. -/
theorem tree_eq_ok_iff (line : String) (expr : Expr) :
    context.tree line = .ok expr ↔
      ∃ plain, lineTree line = .ok plain ∧ expr = plain.relabel (.resolve context) := by
  rw [tree_eq_relabel]
  cases lineTree line with
  | error diagnosis =>
    constructor
    · intro impossible
      contradiction
    · rintro ⟨plain, impossible, _⟩
      contradiction
  | ok tree =>
    constructor
    · intro same
      exact ⟨tree, rfl, (Except.ok.inj same).symm⟩
    · rintro ⟨plain, same, rfl⟩
      obtain rfl := Except.ok.inj same
      rfl

/-- A line is parsed exactly if it has a tree and the check of the names accepts the tree. -/
theorem parse_eq_ok_iff (line : String) (expr : Expr) :
    context.parse line = .ok expr ↔
      context.tree line = .ok expr ∧ context.check expr = .ok () := by
  rw [parse_eq, mapError_eq_ok_iff, bind_eq_ok_iff]
  constructor
  · rintro ⟨tree, found, rest⟩
    obtain ⟨checked, same⟩ := (then_eq_ok_iff ..).mp rest
    obtain rfl := Except.ok.inj same
    exact ⟨found, checked⟩
  · rintro ⟨found, checked⟩
    exact ⟨expr, found, (then_eq_ok_iff ..).mpr ⟨checked, rfl⟩⟩

/-- The tree is no definition. -/
def IsExpression (tree : Expr) : Prop :=
  ∀ position left right, tree ≠ .binary .assign position left right

/-- A function that a line defines: the line is accepted as its definition. -/
structure Defines (line : String) (name : String) (function : UserFunction) : Prop where
  /-- The tree of the line has the name and its parameters on the left and the body on the right. -/
  parsed : ∃ position origin place parameters,
    context.parse line =
        .ok (.binary .assign position (.call origin name place parameters) function.body) ∧
      function.parameters = parameters.map Expr.rootText
  /-- The line is kept without its margins. -/
  text : function.definition = trimMargins line

/-- What an accepted line does to a context, and what it comes to. -/
inductive Entry (line : String) : Context → Outcome → Prop
  /-- The value of an expression is kept. -/
  | answer (expr : Expr) (parsed : context.parse line = .ok expr) (plain : IsExpression expr) :
    Entry line (context.keepAnswer (context.evaluate expr)) (.value (context.evaluate expr))
  /-- A constant gets the value of the right side. -/
  | constant (position : Nat) (origin : Origin) (name : String) (place : Nat) (right : Expr)
    (parsed : context.parse line =
      .ok (.binary .assign position (.constant origin name place) right)) :
    Entry line (context.defineConstant name (context.evaluate right)) .defined
  /-- A function gets the right side as its body. -/
  | function (name : String) (function : UserFunction)
    (defines : context.Defines line name function) :
    Entry line (context.defineFunction name function) .defined

/-- A line that is parsed as an expression is answered with its value. -/
theorem enter_expression {line : String} {expr : Expr} (parsed : context.parse line = .ok expr)
    (plain : IsExpression expr) :
    context.enter line =
      .ok (context.keepAnswer (context.evaluate expr), .value (context.evaluate expr)) := by
  unfold enter
  rw [parsed]
  cases expr with
  | binary operator position left right =>
    cases operator with
    | assign => exact absurd rfl (plain position left right)
    | add | sub | mul | div | mod | pow => rfl
  | number | constant | call | signed | value => rfl

/-- A line that is parsed as a definition is applied. -/
theorem enter_definition {line : String} {position : Nat} {left right : Expr}
    (parsed : context.parse line = .ok (.binary .assign position left right)) :
    context.enter line = .ok (context.applyDefinition line left right, .defined) := by
  unfold enter
  rw [parsed]
  rfl

/-- A line that is not parsed is refused. -/
theorem enter_error {line : String} {rejection : Rejection}
    (refused : context.parse line = .error rejection) :
    context.enter line = .error rejection := by
  unfold enter
  rw [refused]
  rfl

/-- Every accepted line does one of the three. -/
theorem entry_of_enter {line : String} {next : Context} {outcome : Outcome}
    (entered : context.enter line = .ok (next, outcome)) : context.Entry line next outcome := by
  cases parsed : context.parse line with
  | error rejection =>
    rw [context.enter_error parsed] at entered
    contradiction
  | ok tree =>
    by_cases plain : IsExpression tree
    · rw [context.enter_expression parsed plain] at entered
      obtain ⟨rfl, rfl⟩ := Prod.mk.inj (Except.ok.inj entered)
      exact .answer tree parsed plain
    · obtain ⟨position, left, right, rfl⟩ : ∃ position left right,
          tree = .binary .assign position left right := by
        simpa [IsExpression] using plain
      rw [context.enter_definition parsed] at entered
      obtain ⟨rfl, rfl⟩ := Prod.mk.inj (Except.ok.inj entered)
      have accepted := ((context.parse_eq_ok_iff line _).mp parsed).2
      rcases check_definition_cases context accepted with
        ⟨origin, name, place, rfl⟩ | ⟨origin, name, place, parameters, rfl⟩
      · exact .constant position origin name place right parsed
      · exact .function name _ ⟨⟨position, origin, place, parameters, parsed, rfl⟩, rfl⟩

/-- No call in the body of a function that is defined leads back to its name. -/
theorem Defines.free {line name : String} {function : UserFunction}
    (defines : context.Defines line name function) :
    ∀ callee ∈ function.body.callees, ¬ ReflTransGen context.Calls callee name := by
  obtain ⟨position, origin, place, parameters, parsed, _⟩ := defines.parsed
  have accepted := ((context.parse_eq_ok_iff line _).mp parsed).2
  obtain ⟨_, names, _, _, _, free⟩ := (context.check_function_definition_iff ..).mp accepted
  exact free

end Reckoner.Context
