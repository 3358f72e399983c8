import Reckoner.Context.Parse
import Reckoner.Proofs.Tree
/-!
# Reading does not look at origins and positions

Two lines whose tokens differ in the origins of names and in positions only are read alike: each
step on the relabelled tokens is the relabelled step, faults included, and so is the tree. A context
decides nothing but the origins, and blanks in front of a line move nothing but the positions, so
both are relabellings.
-/

namespace Reckoner

/-- New origins for the names of a line, and new positions. -/
structure Relabelling where
  /-- The new origin of a constant. -/
  constant : String → Origin → Origin
  /-- The new origin of a function. -/
  function : String → Origin → Origin
  /-- The new position. -/
  position : Nat → Nat

namespace Relabelling

/-- Two relabellings one after the other. -/
def comp (later earlier : Relabelling) : Relabelling where
  constant name origin := later.constant name (earlier.constant name origin)
  function name origin := later.function name (earlier.function name origin)
  position place := later.position (earlier.position place)

/-- The origins that names have in a context. -/
def resolve (context : Context) : Relabelling where
  constant name _ := context.constantOrigin name
  function name _ := context.functionOrigin name
  position place := place

/-- The positions moved to the right. -/
def shift (distance : Nat) : Relabelling where
  constant _ origin := origin
  function _ origin := origin
  position place := place + distance

end Relabelling

section

variable (labels : Relabelling)

/-- A lexeme with new labels. -/
def Lexeme.relabel : Lexeme → Lexeme
  | constant origin name => constant (labels.constant name origin) name
  | function origin name => function (labels.function name origin) name
  | lexeme => lexeme

/-- A token with new labels. -/
def Token.relabel (token : Token) : Token :=
  ⟨token.lexeme.relabel labels, labels.position token.start, labels.position token.stop⟩

/-- A diagnosis with a new position. -/
def Diagnosis.relabel (diagnosis : Diagnosis) : Diagnosis :=
  { diagnosis with position := labels.position diagnosis.position }

/-- A scan with new labels. -/
def Scan.relabel (scan : Scan) : Scan :=
  ⟨scan.tokens.map (Token.relabel labels), scan.stop.map (Diagnosis.relabel labels)⟩

namespace Expr

mutual

/-- A tree with new labels. -/
def relabel : Expr → Expr
  | number spelling imaginary position => number spelling imaginary (labels.position position)
  | constant origin name position =>
    constant (labels.constant name origin) name (labels.position position)
  | call origin name position arguments =>
    call (labels.function name origin) name (labels.position position) (relabelAll arguments)
  | signed sign position operand => signed sign (labels.position position) (relabel operand)
  | binary operator position left right =>
    binary operator (labels.position position) (relabel left) (relabel right)
  | value known => value known

/-- Several trees with new labels. -/
def relabelAll : List Expr → List Expr
  | [] => []
  | first :: others => relabel first :: relabelAll others

end

/-- Relabelling several trees relabels each of them. -/
theorem relabelAll_eq_map (arguments : List Expr) :
    relabelAll labels arguments = arguments.map (relabel labels) := by
  induction arguments with
  | nil => rfl
  | cons first others ih => rw [relabelAll, ih, List.map_cons]

/-- Relabelling twice is relabelling once. -/
theorem relabel_relabel (earlier : Relabelling) (expr : Expr) :
    (expr.relabel earlier).relabel labels = expr.relabel (labels.comp earlier) := by
  induction expr with
  | number | constant | value => rfl
  | call origin name position arguments ih =>
    have same : (arguments.map (relabel earlier)).map (relabel labels) =
        arguments.map (relabel (labels.comp earlier)) := by
      rw [List.map_map]
      exact List.map_congr_left ih
    simp only [relabel, relabelAll_eq_map, same]
    rfl
  | signed sign position operand ih =>
    simp only [relabel, ih]
    rfl
  | binary operator position left right leftIh rightIh =>
    simp only [relabel, leftIh, rightIh]
    rfl

end Expr

/-- A frame with new labels. -/
def Frame.relabel : Frame → Frame
  | operator symbol position left =>
    operator symbol (labels.position position) (left.relabel labels)
  | sign symbol position => sign symbol (labels.position position)
  | group => group
  | call origin name position arguments =>
    call (labels.function name origin) name (labels.position position)
      (arguments.map (Expr.relabel labels))

/-- What is open, with new labels. -/
def Build.relabel : Build → Build
  | operand stack => operand (stack.map (Frame.relabel labels))
  | callee origin name position stack =>
    callee (labels.function name origin) name (labels.position position)
      (stack.map (Frame.relabel labels))
  | complete expr stack => complete (expr.relabel labels) (stack.map (Frame.relabel labels))

/-- The text of a token has no labels. -/
@[simp]
theorem Token.text_relabel (token : Token) : (token.relabel labels).text = token.text := by
  obtain ⟨lexeme, start, stop⟩ := token
  cases lexeme <;> rfl

namespace Build

/-- Completing signs goes along with new labels. -/
theorem settle_relabel (expr : Expr) (stack : List Frame) :
    settle (expr.relabel labels) (stack.map (Frame.relabel labels)) =
      (settle expr stack).relabel labels := by
  induction stack generalizing expr with
  | nil => rfl
  | cons frame stack ih =>
    cases frame with
    | sign sign position => exact ih (.signed sign position expr)
    | operator | group | call => rfl

/-- Completing operators goes along with new labels. -/
theorem reduce_relabel (precedence : Nat) (expr : Expr) (stack : List Frame) :
    reduce precedence (expr.relabel labels) (stack.map (Frame.relabel labels)) =
      ((reduce precedence expr stack).1.relabel labels,
        (reduce precedence expr stack).2.map (Frame.relabel labels)) := by
  induction stack generalizing expr with
  | nil => rfl
  | cons frame stack ih =>
    cases frame with
    | operator operator position left =>
      simp only [List.map_cons, Frame.relabel, reduce]
      split
      · exact ih (.binary operator position left expr)
      · rfl
    | sign | group | call => rfl

/-- The result of a step with new labels, be it a state or a fault. -/
def relabelResult {α β : Type} (relabelled : α → β) (result : Except Diagnosis α) :
    Except Diagnosis β :=
  (result.map relabelled).mapError (Diagnosis.relabel labels)

/-- Where an operand has to stand, a relabelled token leads to the relabelled state. -/
theorem stepOperand_relabel (stack : List Frame) (token : Token) :
    stepOperand (stack.map (Frame.relabel labels)) (token.relabel labels) =
      relabelResult labels (Build.relabel labels) (stepOperand stack token) := by
  obtain ⟨lexeme, start, stop⟩ := token
  cases lexeme with
  | number spelling imaginary =>
    exact congrArg Except.ok (settle_relabel labels (.number spelling imaginary stop) stack)
  | constant origin name =>
    exact congrArg Except.ok (settle_relabel labels (.constant origin name stop) stack)
  | function origin name => rfl
  | operator operator => cases operator <;> rfl
  | mark mark =>
    cases mark with
    | opening | comma => rfl
    | closing =>
      simp only [stepOperand, Token.relabel, Lexeme.relabel]
      match stack with
      | [] | .operator .. :: _ | .sign .. :: _ | .group :: _ | .call _ _ _ (_ :: _) :: _ => rfl
      | .call origin name position [] :: stack =>
        exact congrArg Except.ok (settle_relabel labels (.call origin name position []) stack)

/-- The fault of a token that cannot follow goes along with new labels. -/
theorem unexpected_relabel (token : Token) (stack : List Frame) :
    unexpected (token.relabel labels) (stack.map (Frame.relabel labels)) =
      (unexpected token stack).relabel labels := by
  have same := Token.text_relabel labels token
  match stack with
  | [] | .operator .. :: _ | .sign .. :: _ | .group :: _ | .call .. :: _ =>
    simp only [List.map_nil, List.map_cons, Frame.relabel, unexpected, same]
    rfl

/-- Behind a complete operand, a relabelled token leads to the relabelled state. -/
theorem stepComplete_relabel (expr : Expr) (stack : List Frame) (token : Token) :
    stepComplete (expr.relabel labels) (stack.map (Frame.relabel labels)) (token.relabel labels) =
      relabelResult labels (Build.relabel labels) (stepComplete expr stack token) := by
  have refused := unexpected_relabel labels token (reduce 0 expr stack).2
  obtain ⟨lexeme, start, stop⟩ := token
  cases lexeme with
  | number | constant | function =>
    simp only [stepComplete, Token.relabel, Lexeme.relabel, reduce_relabel]
    exact congrArg Except.error refused
  | operator operator =>
    simp only [stepComplete, Token.relabel, Lexeme.relabel, reduce_relabel]
    rfl
  | mark mark =>
    cases mark with
    | opening =>
      simp only [stepComplete, Token.relabel, Lexeme.relabel, reduce_relabel]
      exact congrArg Except.error refused
    | closing =>
      simp only [stepComplete, Token.relabel, Lexeme.relabel, reduce_relabel]
      generalize reduce 0 expr stack = reduced at refused
      obtain ⟨expr, stack⟩ := reduced
      match stack with
      | [] | .operator .. :: _ | .sign .. :: _ => exact congrArg Except.error refused
      | .group :: stack => exact congrArg Except.ok (settle_relabel labels expr stack)
      | .call origin name position arguments :: stack =>
        have settled := settle_relabel labels
          (.call origin name position (arguments ++ [expr])) stack
        simp only [Expr.relabel, Expr.relabelAll_eq_map, List.map_append, List.map_cons,
          List.map_nil] at settled
        exact congrArg Except.ok settled
    | comma =>
      simp only [stepComplete, Token.relabel, Lexeme.relabel, reduce_relabel]
      generalize reduce 0 expr stack = reduced at refused
      obtain ⟨expr, stack⟩ := reduced
      match stack with
      | [] | .operator .. :: _ | .sign .. :: _ | .group :: _ => exact congrArg Except.error refused
      | .call origin name position arguments :: stack =>
        have listed : (arguments ++ [expr]).map (Expr.relabel labels) =
            arguments.map (Expr.relabel labels) ++ [expr.relabel labels] := List.map_append ..
        show _ = Except.ok (Build.operand (Frame.call _ name _
          ((arguments ++ [expr]).map (Expr.relabel labels)) :: stack.map (Frame.relabel labels)))
        rw [listed]
        rfl

/-- A relabelled token leads from a relabelled state to the relabelled next state. -/
theorem step_relabel (build : Build) (token : Token) :
    (build.relabel labels).step (token.relabel labels) =
      relabelResult labels (Build.relabel labels) (build.step token) := by
  cases build with
  | operand stack => exact stepOperand_relabel labels stack token
  | complete expr stack => exact stepComplete_relabel labels expr stack token
  | callee origin name position stack =>
    obtain ⟨lexeme, start, stop⟩ := token
    cases lexeme with
    | mark mark => cases mark <;> rfl
    | number | constant | function | operator => rfl

/-- Relabelled tokens lead from a relabelled state to the relabelled last state. -/
theorem foldlM_relabel (build : Build) (tokens : List Token) :
    (tokens.map (Token.relabel labels)).foldlM step (build.relabel labels) =
      relabelResult labels (Build.relabel labels) (tokens.foldlM step build) := by
  induction tokens generalizing build with
  | nil => rfl
  | cons token tokens ih =>
    rw [List.map_cons, List.foldlM_cons, List.foldlM_cons, step_relabel]
    cases build.step token with
    | error diagnosis => rfl
    | ok next => exact ih next

/-- The end of the line goes along with new labels, if it is moved like the positions. -/
theorem finish_relabel (length : Nat) (build : Build) :
    (build.relabel labels).finish (labels.position length) =
      relabelResult labels (Expr.relabel labels) (build.finish length) := by
  cases build with
  | operand stack =>
    match stack with
    | [] | .operator .. :: _ | .sign .. :: _ | .group :: _ | .call .. :: _ => rfl
  | callee origin name position stack => rfl
  | complete expr stack =>
    simp only [finish, Build.relabel, reduce_relabel]
    match reduce 0 expr stack with
    | (expr, []) => rfl
    | (expr, _ :: _) => rfl

end Build

/-- The tree of relabelled tokens is the relabelled tree, if the end is moved like the positions. -/
theorem Scan.tree_relabel (length : Nat) (scan : Scan) :
    (scan.relabel labels).tree (labels.position length) =
      Build.relabelResult labels (Expr.relabel labels) (scan.tree length) := by
  obtain ⟨tokens, stop⟩ := scan
  simp only [Scan.tree, Scan.relabel]
  have run := Build.foldlM_relabel labels (.operand []) tokens
  simp only [Build.relabel, List.map_nil] at run
  rw [run]
  cases tokens.foldlM Build.step (.operand []) with
  | error diagnosis => rfl
  | ok build =>
    cases stop with
    | some diagnosis => rfl
    | none => exact Build.finish_relabel labels length build

end

end Reckoner
