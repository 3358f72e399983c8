import Reckoner.Expr.Basic
import Reckoner.Token.Scan
/-!
# From tokens to a tree

The tokens are taken up one at a time. What has been read of the expressions that are still open is
held as a stack of frames, the innermost first. An operand is completed by the signs in front of it
at once, so signs bind more tightly than all operators, and an operator completes the operators in
front of it that bind at least as tightly, so equal operators associate to the left. A closing
mark completes everything down to the mark that opened it.
-/

namespace Reckoner

/-- A part of an expression that waits for an operand. -/
inductive Frame where
  /-- An operator behind its left operand. -/
  | operator (operator : Operator) (position : Nat) (left : Expr)
  /-- A sign. -/
  | sign (sign : Sign) (position : Nat)
  /-- An opening parenthesis. -/
  | group
  /-- A call with the arguments read so far. -/
  | call (origin : Origin) (name : String) (position : Nat) (arguments : List Expr)

/-- What is open after some tokens. -/
inductive Build where
  /-- An operand has to follow. -/
  | operand (stack : List Frame)
  /-- The argument list of a call has to follow. -/
  | callee (origin : Origin) (name : String) (position : Nat) (stack : List Frame)
  /-- An operand has been read. -/
  | complete (expr : Expr) (stack : List Frame)

namespace Build

/-- An operand behind the signs in front of it. -/
def settle (expr : Expr) : List Frame → Build
  | .sign sign position :: stack => settle (.signed sign position expr) stack
  | stack => .complete expr stack

/-- Complete the operators on top of the stack that bind at least as tightly as `precedence`. -/
def reduce (precedence : Nat) (expr : Expr) : List Frame → Expr × List Frame
  | .operator operator position left :: stack =>
    if precedence ≤ operator.precedence then
      reduce precedence (.binary operator position left expr) stack
    else (expr, .operator operator position left :: stack)
  | stack => (expr, stack)

/-- A closing parenthesis where an operand has to stand: it closes an argument list that has just
been opened. -/
def closeEmpty (position : Nat) : List Frame → Except Diagnosis Build
  | .call origin name start [] :: stack => .ok (settle (.call origin name start []) stack)
  | .call _ _ _ (_ :: _) :: _ => .error ⟨.missingArgument, position⟩
  | _ => .error ⟨.misplaced Mark.closing.text, position⟩

/-- A token where an operand has to stand. -/
def stepOperand (stack : List Frame) (token : Token) : Except Diagnosis Build :=
  match token.lexeme with
  | .number spelling imaginary => .ok (settle (.number spelling imaginary token.stop) stack)
  | .constant origin name => .ok (settle (.constant origin name token.stop) stack)
  | .function origin name => .ok (.callee origin name token.stop stack)
  | .operator operator =>
    match operator.sign? with
    | some sign => .ok (.operand (.sign sign token.stop :: stack))
    | none => .error ⟨.notASign operator.text, token.stop⟩
  | .mark .opening => .ok (.operand (.group :: stack))
  | .mark .closing => closeEmpty token.stop stack
  | .mark .comma => .error ⟨.misplaced Mark.comma.text, token.stop⟩

/-- The fault of a token that cannot follow a complete operand in the innermost open frame. -/
def unexpected (token : Token) : List Frame → Diagnosis
  | .group :: _ => ⟨.missingMark Mark.closing.text token.text, token.stop⟩
  | .call .. :: _ => ⟨.missingSeparator token.text, token.stop⟩
  | _ => ⟨.trailing token.text, token.stop⟩

/-- A token behind a complete operand. -/
def stepComplete (expr : Expr) (stack : List Frame) (token : Token) : Except Diagnosis Build :=
  match token.lexeme with
  | .operator operator =>
    let (left, stack) := reduce operator.precedence expr stack
    .ok (.operand (.operator operator token.stop left :: stack))
  | .mark .closing =>
    match reduce 0 expr stack with
    | (expr, .group :: stack) => .ok (settle expr stack)
    | (expr, .call origin name start arguments :: stack) =>
      .ok (settle (.call origin name start (arguments ++ [expr])) stack)
    | (_, stack) => .error (unexpected token stack)
  | .mark .comma =>
    match reduce 0 expr stack with
    | (expr, .call origin name start arguments :: stack) =>
      .ok (.operand (.call origin name start (arguments ++ [expr]) :: stack))
    | (_, stack) => .error (unexpected token stack)
  | _ => .error (unexpected token (reduce 0 expr stack).2)

/-- Take up a token. -/
def step (build : Build) (token : Token) : Except Diagnosis Build :=
  match build with
  | .operand stack => stepOperand stack token
  | .callee origin name position stack =>
    match token.lexeme with
    | .mark .opening => .ok (.operand (.call origin name position [] :: stack))
    | _ => .error ⟨.missingMark Mark.opening.text token.text, token.stop⟩
  | .complete expr stack => stepComplete expr stack token

/-- The tree at the end of the line, which is at the byte `length`. -/
def finish (length : Nat) : Build → Except Diagnosis Expr
  | .operand (.call .. :: _) => .error ⟨.missingMark Mark.closing.text none, length⟩
  | .operand _ => .error ⟨.missingOperand, length⟩
  | .callee .. => .error ⟨.missingMark Mark.opening.text none, length⟩
  | .complete expr stack =>
    match reduce 0 expr stack with
    | (expr, []) => .ok expr
    | _ => .error ⟨.missingMark Mark.closing.text none, length⟩

end Build

/-- The tree of the tokens of a line of `length` bytes. A fault of the reading counts where it is
reached, behind the faults of the tokens in front of it. -/
def Scan.tree (length : Nat) (scan : Scan) : Except Diagnosis Expr := do
  let build ← scan.tokens.foldlM Build.step (.operand [])
  match scan.stop with
  | some diagnosis => .error diagnosis
  | none => build.finish length

end Reckoner
