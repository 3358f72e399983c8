import Mathlib.Data.List.Forall2
import Reckoner.Proofs.Recursion
/-!
# The value of a tree, node by node

In a context whose functions do not lead back to themselves, the value of a tree is made of the
values of its parts, and a call has the value of the stored body with the values of the arguments in
place of the parameters. There is one law for each kind of node, and an induction that goes along
with them: at a call it gives a hypothesis for the arguments and one for the stored body.
-/

namespace Reckoner

/-- Several trees have values exactly if each of them has its own. -/
theorem Expr.evalAllWith_eq_some_iff (constant? : String → Option Number)
    (userCall : String → List Number → Option Number) (arguments : List Expr)
    (values : List Number) :
    evalAllWith constant? userCall arguments = some values ↔
      List.Forall₂ (fun argument value => argument.evalWith constant? userCall = some value)
        arguments values := by
  induction arguments generalizing values with
  | nil => simp [evalAllWith, eq_comm]
  | cons first others ih =>
    simp only [evalAllWith, Option.bind_eq_some_iff, Option.map_eq_some_iff, ih,
      List.forall₂_cons_left_iff]
    constructor
    · rintro ⟨value, found, behind, further, rfl⟩
      exact ⟨value, behind, found, further, rfl⟩
    · rintro ⟨value, behind, found, further, rfl⟩
      exact ⟨value, found, behind, further, rfl⟩

/-- Two operands have a value with every operator but the assignment. -/
theorem Operator.isSome_apply (operator : Operator) (a b : Number) :
    (operator.apply a b).isSome = true ↔ operator ≠ .assign := by
  cases operator <;> simp [apply]

namespace Context

variable (context : Context)

/-- Each tree has the value that stands in its place. -/
def HaveValues (arguments : List Expr) (values : List Number) : Prop :=
  List.Forall₂ (fun argument value => context.eval? argument = some value) arguments values

/-- Trees have a list of values exactly if each of them has a value. -/
theorem exists_haveValues_iff (arguments : List Expr) :
    (∃ values, context.HaveValues arguments values) ↔
      ∀ argument ∈ arguments, (context.eval? argument).isSome = true := by
  induction arguments with
  | nil => exact ⟨fun _ => List.forall_mem_nil _, fun _ => ⟨[], .nil⟩⟩
  | cons argument others ih =>
    rw [List.forall_mem_cons, ← ih, Option.isSome_iff_exists]
    constructor
    · rintro ⟨_, found | ⟨first, further⟩⟩
      exact ⟨⟨_, first⟩, _, further⟩
    · rintro ⟨⟨value, first⟩, values, further⟩
      exact ⟨value :: values, .cons first further⟩

/-- A literal has its own value. -/
theorem eval?_number_eq_some_iff (spelling : String) (imaginary : Bool) (position : Nat)
    (value : Number) :
    context.eval? (.number spelling imaginary position) = some value ↔
      literalValue spelling imaginary = value :=
  Option.some_inj

/-- A value has itself as value. -/
theorem eval?_value_eq_some_iff (known value : Number) :
    context.eval? (.value known) = some value ↔ known = value :=
  Option.some_inj

/-- A constant has the value of its name, unless the name was not known when the line was read. -/
theorem eval?_constant_eq_some_iff (origin : Origin) (name : String) (position : Nat)
    (value : Number) :
    context.eval? (.constant origin name position) = some value ↔
      origin ≠ .unknown ∧ context.constant? name = some value := by
  cases origin <;> simp [eval?, Expr.evalWith]

/-- A call of a function that was not known has no value. -/
theorem eval?_call_unknown (name : String) (position : Nat) (arguments : List Expr) :
    context.eval? (.call .unknown name position arguments) = none := rfl

/-- A call of a built-in function has the value of the function on the values of the arguments. -/
theorem eval?_call_builtIn_eq_some_iff (name : String) (position : Nat) (arguments : List Expr)
    (value : Number) :
    context.eval? (.call .builtIn name position arguments) = some value ↔
      ∃ function values, BuiltIn.ofName? name = some function ∧
        context.HaveValues arguments values ∧ function.apply values = some value := by
  simp only [eval?, Expr.evalWith, Option.bind_eq_some_iff, Expr.evalAllWith_eq_some_iff]
  constructor
  · rintro ⟨function, known, values, each, applied⟩
    exact ⟨function, values, known, each, applied⟩
  · rintro ⟨function, values, known, each, applied⟩
    exact ⟨function, known, values, each, applied⟩

/-- An operand with a sign has the value of the operand with the sign. -/
theorem eval?_signed_eq_some_iff (sign : Sign) (position : Nat) (operand : Expr) (value : Number) :
    context.eval? (.signed sign position operand) = some value ↔
      ∃ a, context.eval? operand = some a ∧ sign.apply a = value := by
  simp [eval?, Expr.evalWith]

/-- Two operands have the value of the operator on their values. -/
theorem eval?_binary_eq_some_iff (operator : Operator) (position : Nat) (left right : Expr)
    (value : Number) :
    context.eval? (.binary operator position left right) = some value ↔
      ∃ a b, context.eval? left = some a ∧ context.eval? right = some b ∧
        operator.apply a b = some value := by
  simp only [eval?, Expr.evalWith, Option.bind_eq_some_iff]
  constructor
  · rintro ⟨a, first, b, second, applied⟩
    exact ⟨a, b, first, second, applied⟩
  · rintro ⟨a, b, first, second, applied⟩
    exact ⟨a, first, b, second, applied⟩

variable {context}

/-- The body of a function is expanded exactly if there are as many arguments as parameters. -/
theorem expand?_eq_some_iff (name : String) (arguments : List Expr) (expansion : Expr) :
    context.expand? name arguments = some expansion ↔
      ∃ function, context.functions.find? name = some function ∧
        function.parameters.length = arguments.length ∧
        expansion = function.body.substitute (function.parameters.zip arguments) := by
  unfold expand?
  cases context.functions.find? name with
  | none => simp
  | some function => simp [eq_comm]

/-- A call of a user function has the value of the stored body, where the values of the arguments
stand for the parameters. -/
theorem eval?_call_user_eq_some_iff (acyclic : context.functions.Acyclic) (name : String)
    (position : Nat) (arguments : List Expr) (value : Number) :
    context.eval? (.call .user name position arguments) = some value ↔
      ∃ function values, context.functions.find? name = some function ∧
        function.parameters.length = values.length ∧ context.HaveValues arguments values ∧
        context.eval? (function.body.substitute (function.parameters.zip (values.map .value))) =
          some value := by
  rw [eval?, Expr.evalWith, Option.bind_eq_some_iff]
  simp only [Expr.evalAllWith_eq_some_iff, callWithin_size_eq acyclic, Option.bind_eq_some_iff,
    expand?_eq_some_iff, List.length_map]
  constructor
  · rintro ⟨values, each, _, ⟨function, found, fits, rfl⟩, inside⟩
    exact ⟨function, values, found, fits, each, inside⟩
  · rintro ⟨function, values, found, fits, each, inside⟩
    exact ⟨values, each, _, ⟨function, found, fits, rfl⟩, inside⟩

/-- A call whose arguments have values comes to what the body expanded with these values comes to,
be it a number or nothing. -/
theorem eval?_call_of_haveValues (acyclic : context.functions.Acyclic) (name : String)
    (position : Nat) {arguments : List Expr} {values : List Number}
    (each : context.HaveValues arguments values) :
    context.eval? (.call .user name position arguments) =
      (context.expand? name (values.map .value)).bind context.eval? := by
  rw [eval?, Expr.evalWith, (Expr.evalAllWith_eq_some_iff ..).mpr each, Option.bind_some]
  exact callWithin_size_eq acyclic name values

/-- Induction along evaluation: at a call of a user function, the motive may be assumed for the
arguments and for the stored body. -/
@[elab_as_elim]
theorem evaluationInduction (acyclic : context.functions.Acyclic) {motive : Expr → Prop}
    (number : ∀ spelling imaginary position, motive (.number spelling imaginary position))
    (constant : ∀ origin name position, motive (.constant origin name position))
    (call : ∀ origin name position arguments, (∀ argument ∈ arguments, motive argument) →
      (∀ function, origin = .user → context.functions.find? name = some function →
        motive function.body) → motive (.call origin name position arguments))
    (signed : ∀ sign position operand, motive operand → motive (.signed sign position operand))
    (binary : ∀ operator position left right, motive left → motive right →
      motive (.binary operator position left right))
    (value : ∀ known, motive (.value known)) (expr : Expr) : motive expr := by
  -- The outer induction is along the calls of the tree, the inner one on the tree.
  induction expr using callInduction acyclic with
  | step expr bodies =>
    induction expr with
    | number spelling imaginary position => exact number spelling imaginary position
    | constant origin name position => exact constant origin name position
    | value known => exact value known
    | signed sign position operand ih => exact signed sign position operand (ih bodies)
    | binary operator position left right leftIh rightIh =>
      refine binary operator position left right (leftIh fun callee called => ?_)
        (rightIh fun callee called => ?_)
      · exact bodies callee (List.mem_append_left _ called)
      · exact bodies callee (List.mem_append_right _ called)
    | call origin name position arguments ih =>
      refine call origin name position arguments (fun argument member => ?_) ?_
      · apply ih argument member
        intro callee called
        exact bodies callee (Expr.mem_callees_call member called origin name position)
      · rintro function rfl found
        apply bodies name List.mem_cons_self
        intro inner called
        exact ⟨function, found, called⟩

end Context

end Reckoner
