import Reckoner.Proofs.Loading
import Reckoner.Proofs.Naming
import Reckoner.Proofs.WellFormed
/-!
# The tables of a session agree with themselves

A function is stored with its name, its parameters, its body and the text it was defined by, and its
name must not be that of a constant. Lines, removals and documents keep all of these in step: every
text reads as the definition of its name, with the stored parameters on the left and the stored body
on the right.
-/

namespace Reckoner

/-- Forget the positions and where the names stand. -/
def Relabelling.bare : Relabelling where
  constant _ _ := .unknown
  function _ _ := .unknown
  position _ := 0

/-- What is forgotten does not depend on earlier labels. -/
theorem Expr.bare_relabel (labels : Relabelling) (expr : Expr) :
    (expr.relabel labels).relabel .bare = expr.relabel .bare := by
  rw [relabel_relabel]
  rfl

/-- What a node of a stored body is, whatever the context: no assignment, no call of an unknown
function, and no unknown constant but a parameter. -/
def Expr.IsSettled (parameters : List String) : Expr → Prop
  | .binary operator _ _ _ => operator ≠ .assign
  | .constant .unknown name _ => name ∈ parameters
  | .call .unknown _ _ _ => False
  | _ => True

/-- A node is settled if it is as it is asked in some context. -/
theorem Context.Fits.isSettled {context : Context} {parameters : List String} {node : Expr}
    (fits : context.Fits parameters node) : node.IsSettled parameters := by
  cases node with
  | binary | number | signed | value => exact fits
  | constant origin name position => cases origin <;> exact fits
  | call origin name position arguments =>
    cases origin with
    | unknown => exact fits
    | builtIn | user => trivial

/-- The parts of a function that is stored under a name agree with each other. -/
structure UserFunction.Consistent (function : UserFunction) (name : String) : Prop where
  /-- The name is spelled as one. -/
  named : isName name = true
  /-- In every context, the text is read as a definition of the name. Its parameters are the stored
  ones, and the right side is the stored body, up to positions and to where the names stand. -/
  reads : ∀ reader : Context, ∃ position origin place arguments right,
    reader.tree function.definition =
        .ok (.binary .assign position (.call origin name place arguments) right) ∧
      List.Forall₂ (fun argument parameter => ∃ origin position,
        argument = .constant origin parameter position) arguments function.parameters ∧
      right.relabel .bare = function.body.relabel .bare
  /-- The parameters are distinct. -/
  distinct : function.parameters.Nodup
  /-- No parameter is a built-in constant. -/
  bindable : ∀ parameter ∈ function.parameters, builtInConstant? parameter = none
  /-- All nodes of the body are settled. -/
  settled : ∀ node ∈ function.body.nodes, node.IsSettled function.parameters

/-- The tables of a context agree with themselves and with each other. -/
structure Context.Consistent (context : Context) : Prop where
  /-- No name is a constant and a function. -/
  apart : ∀ name,
    ¬ (context.constants.contains name = true ∧ context.functions.contains name = true)
  /-- The names of constants are spelled as names. -/
  constants : ∀ name value, context.constants.find? name = some value → isName name = true
  /-- The parts of functions agree. -/
  functions : ∀ name function, context.functions.find? name = some function →
    function.Consistent name

/-- A definition is read as such in every context. -/
theorem IsDefinition.reads {text name : String} {parameters : List String} {right : Expr}
    (definition : IsDefinition text name parameters right) (reader : Context) :
    ∃ position origin place arguments other,
      reader.tree text =
          .ok (.binary .assign position (.call origin name place arguments) other) ∧
        List.Forall₂ (fun argument parameter => ∃ origin position,
          argument = .constant origin parameter position) arguments parameters ∧
        other.relabel .bare = right.relabel .bare := by
  obtain ⟨position, place, arguments, read, named⟩ := reader.exists_tree definition
  refine ⟨position, _, place, arguments, _, read, ?_, right.bare_relabel _⟩
  exact named.imp fun _ _ ⟨position, same⟩ => ⟨_, position, same⟩

namespace Context

/-- The parts of a function that a line defines agree. -/
theorem Defines.consistent {context : Context} {line name : String} {function : UserFunction}
    (defines : context.Defines line name function) : function.Consistent name where
  named := defines.isName
  reads reader := by
    obtain ⟨right, definition, body⟩ := defines.stored.text
    have bare := congrArg (Expr.relabel .bare) body
    rw [Expr.bare_relabel, Expr.bare_relabel] at bare
    rw [bare]
    exact definition.reads reader
  distinct := defines.stored.distinct
  bindable := defines.stored.bindable
  settled := by
    obtain ⟨right, _, body, accepts⟩ := defines.exists_isDefinition
    rw [body]
    intro node member
    exact ((context.sound_relabel_iff _ right).mpr accepts.resolved node member).isSettled

/-- The tables of every context in a session are consistent. -/
theorem consistent_run {changes : List Change}
    (inSession : ∀ change ∈ changes, change.InSession) : (run changes).Consistent where
  apart name both := by
    obtain ⟨constant, function⟩ := both
    obtain ⟨stored, found⟩ := Option.isSome_iff_exists.mp function
    rw [Table.contains, kept_apart.run changes name stored found] at constant
    contradiction
  constants name value found := (namesConstants_of_inSession inSession name value found).1
  functions := (kept_functions Defines.consistent).run changes

/-- A run with definitions that replace each other, with margins around a definition, with a removal
and with a document that is loaded. At its end a body calls a function that a constant has replaced.
-/
def replacingRun : List Change :=
  [.enter "a = 3", .enter " a(x, t) = x*t + sin(ans)\t", .enter "2 + 2", .enter "b(a) = a(a, a)",
    .enter "a = 1", .remove "b",
    .load (Document.ofContext
      (run [.enter "k = 2", .enter "f(k, j) = k^j", .enter "g(x) = f(x, k)"])),
    .enter "f = g(2)"]

/-- The tables after the run are not empty, and they are consistent. -/
theorem consistent_replacingRun :
    (∀ change ∈ replacingRun, change.InSession) ∧
      (run replacingRun).constants.entries.map Prod.fst = ["f", "k"] ∧
      (run replacingRun).functions.entries.map Prod.fst = ["g"] ∧
      (run replacingRun).Consistent := by
  have inSession : ∀ change ∈ replacingRun, change.InSession := by
    simp [replacingRun, Change.InSession]
  exact ⟨inSession, by decide +kernel, by decide +kernel, consistent_run inSession⟩

end Context

end Reckoner
