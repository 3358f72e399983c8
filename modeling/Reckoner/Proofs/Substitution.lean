import Reckoner.Proofs.Evaluation
/-!
# Arguments before and after evaluation

The value of a tree with replacements depends on the values of the replacements only. A replacement
is not searched in turn, and a call in a body evaluates its arguments before they enter the next
body, so no parameter of an inner function gets hold of a name in a replacement. Hence a call, which
puts the values of its arguments into the body, has the value of the body with the argument trees
themselves in place of the parameters.
-/

namespace Reckoner

namespace Expr

/-- A tree has the same value with replacements of the same values. -/
theorem evalWith_substitute_congr {constant? : String → Option Number}
    {userCall : String → List Number → Option Number} {bindings others : List (String × Expr)}
    (same : ∀ name, (bindings.lookup name).map (evalWith constant? userCall) =
      (others.lookup name).map (evalWith constant? userCall)) (expr : Expr) :
    (expr.substitute bindings).evalWith constant? userCall =
      (expr.substitute others).evalWith constant? userCall := by
  induction expr with
  | number | value => rfl
  | constant origin name position =>
    have replaced := same name
    rw [substitute, substitute]
    cases first : bindings.lookup name with
    | none =>
      rw [first, Option.map_none, eq_comm, Option.map_eq_none_iff] at replaced
      rw [replaced]
    | some tree =>
      rw [first, Option.map_some, eq_comm, Option.map_eq_some_iff] at replaced
      obtain ⟨other, second, equal⟩ := replaced
      rw [second]
      exact equal.symm
  | call origin name position arguments ih =>
    have each := evalAllWith_map_congr ih
    rw [substitute, substitute, substituteAll_eq_map, substituteAll_eq_map]
    cases origin <;> simp only [evalWith, each]
  | signed sign position operand ih => rw [substitute, substitute, evalWith, evalWith, ih]
  | binary operator position left right leftIh rightIh =>
    rw [substitute, substitute, evalWith, evalWith, leftIh, rightIh]

end Expr

namespace Context

variable {context : Context}

/-- Trees and their values are replacements of the same values. -/
theorem HaveValues.map_lookup {arguments : List Expr} {values : List Number}
    (each : context.HaveValues arguments values) (parameters : List String) (name : String) :
    ((parameters.zip arguments).lookup name).map context.eval? =
      ((parameters.zip (values.map Expr.value)).lookup name).map context.eval? := by
  induction each generalizing parameters with
  | nil => rfl
  | cons first _ ih =>
    cases parameters with
    | nil => rfl
    | cons parameter parameters =>
      simp only [List.map_cons, List.zip_cons_cons, Table.lookup_cons_ite]
      split
      · exact congrArg some first
      · exact ih parameters

/-- In every context that is reached, a call of a user function whose arguments have values comes to
the same as the body with the argument trees in place of the parameters: to the same number, or to
no value for both. -/
theorem eval?_call_eq_eval?_expand? (changes : List Change) {name : String}
    {function : UserFunction} (found : (run changes).functions.find? name = some function)
    (position : Nat) {arguments : List Expr}
    (fits : function.parameters.length = arguments.length)
    (valued : ∀ argument ∈ arguments, ((run changes).eval? argument).isSome = true) :
    ∃ expansion, (run changes).expand? name arguments = some expansion ∧
      (run changes).eval? (.call .user name position arguments) =
        (run changes).eval? expansion := by
  have acyclic := kept_acyclic.run changes
  obtain ⟨values, each⟩ := (exists_haveValues_iff ..).mpr valued
  refine ⟨_, (expand?_eq_some_iff ..).mpr ⟨function, found, fits, rfl⟩, ?_⟩
  have sameBody : (run changes).eval?
        (function.body.substitute (function.parameters.zip arguments)) =
      (run changes).eval?
        (function.body.substitute (function.parameters.zip (values.map .value))) :=
    Expr.evalWith_substitute_congr (each.map_lookup function.parameters) function.body
  have expanded : (run changes).expand? name (values.map .value) =
      some (function.body.substitute (function.parameters.zip (values.map .value))) :=
    (expand?_eq_some_iff ..).mpr
      ⟨function, found, by rw [fits, each.length_eq, List.length_map], rfl⟩
  rw [eval?_call_of_haveValues acyclic name position each, expanded, sameBody, Option.bind_some]

/-- A run that leaves a constant and two functions whose parameters have its name. -/
def captureRun : List Change :=
  [.enter "x = 3", .enter "g(x) = x*x", .enter "f(x, y) = g(y) + x"]

/-- The trees of `x + 1` and `2*x` after this run. -/
def capturedArguments : List Expr :=
  [.binary .add 2 (.constant .user "x" 0) (.number "1" false 4),
    .binary .mul 1 (.number "2" false 0) (.constant .user "x" 2)]

/-- The constant of the arguments is neither taken for the parameter of `f` nor for that of `g`. -/
theorem captureRun_call_eq_expansion :
    (∀ argument ∈ capturedArguments, ((run captureRun).eval? argument).isSome = true) ∧
      ∃ function, (run captureRun).functions.find? "f" = some function ∧
        function.parameters.length = capturedArguments.length ∧
        ∃ expansion, (run captureRun).expand? "f" capturedArguments = some expansion ∧
          (run captureRun).eval? (.call .user "f" 0 capturedArguments) =
            (run captureRun).eval? expansion ∧
          (run captureRun).eval? expansion = some (.real 40) := by
  have valued : ∀ argument ∈ capturedArguments,
      ((run captureRun).eval? argument).isSome = true := by decide +kernel
  have fits : ((run captureRun).functions.find? "f").map (·.parameters.length) = some 2 := by
    decide +kernel
  have forty : (run captureRun).eval? (.call .user "f" 0 capturedArguments) = some (.real 40) := by
    decide +kernel
  obtain ⟨function, found, count⟩ := Option.map_eq_some_iff.mp fits
  have enough : function.parameters.length = capturedArguments.length := count
  obtain ⟨expansion, expanded, same⟩ :=
    eval?_call_eq_eval?_expand? captureRun found 0 enough valued
  exact ⟨valued, function, found, enough, expansion, expanded, same, same ▸ forty⟩

end Context

end Reckoner
