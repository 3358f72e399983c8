import Reckoner.Proofs.Evaluation
/-!
# What has a value

A tree is grounded in a context if every name that its evaluation comes across is resolved: those of
the tree, and those of the stored bodies that are called, where parameters count as resolved. This
does not look at any number, and it is exactly what decides whether a tree has a value.
-/

namespace Reckoner.Context

/-- Every name of the tree is resolved, be it a parameter or not, and so are those of the bodies
that it leads to. -/
inductive Grounded (context : Context) : List String → Expr → Prop
  /-- A literal is grounded. -/
  | number (parameters : List String) (spelling : String) (imaginary : Bool) (position : Nat) :
    Grounded context parameters (.number spelling imaginary position)
  /-- A parameter gets a value, whatever its origin is. -/
  | parameter {parameters : List String} (origin : Origin) {name : String} (position : Nat)
    (member : name ∈ parameters) : Grounded context parameters (.constant origin name position)
  /-- A constant that was known has a value. -/
  | constant (parameters : List String) {origin : Origin} {name : String} (position : Nat)
    (known : origin ≠ .unknown) (held : (context.constant? name).isSome = true) :
    Grounded context parameters (.constant origin name position)
  /-- A built-in function has as many arguments as it takes. -/
  | builtIn {parameters : List String} {name : String} (position : Nat) {arguments : List Expr}
    {function : BuiltIn} (known : BuiltIn.ofName? name = some function)
    (fits : arguments.length = function.arity)
    (parts : ∀ argument ∈ arguments, Grounded context parameters argument) :
    Grounded context parameters (.call .builtIn name position arguments)
  /-- A user function is defined with as many parameters as there are arguments, and its body is
  grounded. -/
  | user {parameters : List String} {name : String} (position : Nat) {arguments : List Expr}
    {function : UserFunction} (found : context.functions.find? name = some function)
    (fits : function.parameters.length = arguments.length)
    (parts : ∀ argument ∈ arguments, Grounded context parameters argument)
    (inside : Grounded context function.parameters function.body) :
    Grounded context parameters (.call .user name position arguments)
  /-- A sign needs its operand. -/
  | signed {parameters : List String} (sign : Sign) (position : Nat) {operand : Expr}
    (part : Grounded context parameters operand) :
    Grounded context parameters (.signed sign position operand)
  /-- An operator needs both operands and is no assignment. -/
  | binary {parameters : List String} {operator : Operator} (position : Nat) {left right : Expr}
    (pure : operator ≠ .assign) (first : Grounded context parameters left)
    (second : Grounded context parameters right) :
    Grounded context parameters (.binary operator position left right)
  /-- A value is grounded. -/
  | value (parameters : List String) (known : Number) :
    Grounded context parameters (.value known)

variable {context : Context} {parameters : List String}

/-- A constant is grounded if it is a parameter, or if it was known and has a value. -/
theorem grounded_constant_iff (origin : Origin) (name : String) (position : Nat) :
    context.Grounded parameters (.constant origin name position) ↔
      name ∈ parameters ∨ origin ≠ .unknown ∧ (context.constant? name).isSome = true := by
  constructor
  · intro grounded
    cases grounded with
    | parameter _ _ member => exact Or.inl member
    | constant _ _ known held => exact Or.inr ⟨known, held⟩
  · rintro (member | ⟨known, held⟩)
    · exact .parameter origin position member
    · exact .constant parameters position known held

/-- A call of an unknown function is not grounded. -/
theorem not_grounded_call_unknown (name : String) (position : Nat) (arguments : List Expr) :
    ¬ context.Grounded parameters (.call .unknown name position arguments) := nofun

/-- A call of a built-in function is grounded if it has the right number of grounded arguments. -/
theorem grounded_builtIn_iff (name : String) (position : Nat) (arguments : List Expr) :
    context.Grounded parameters (.call .builtIn name position arguments) ↔
      ∃ function, BuiltIn.ofName? name = some function ∧ arguments.length = function.arity ∧
        ∀ argument ∈ arguments, context.Grounded parameters argument := by
  constructor
  · intro grounded
    cases grounded with
    | builtIn _ known fits parts => exact ⟨_, known, fits, parts⟩
  · rintro ⟨function, known, fits, parts⟩
    exact .builtIn position known fits parts

/-- A call of a user function is grounded if it has the right number of grounded arguments and the
body is grounded. -/
theorem grounded_user_iff (name : String) (position : Nat) (arguments : List Expr) :
    context.Grounded parameters (.call .user name position arguments) ↔
      ∃ function, context.functions.find? name = some function ∧
        function.parameters.length = arguments.length ∧
        (∀ argument ∈ arguments, context.Grounded parameters argument) ∧
        context.Grounded function.parameters function.body := by
  constructor
  · intro grounded
    cases grounded with
    | user _ found fits parts inside => exact ⟨_, found, fits, parts, inside⟩
  · rintro ⟨function, found, fits, parts, inside⟩
    exact .user position found fits parts inside

/-- An operand with a sign is grounded if the operand is. -/
theorem grounded_signed_iff (sign : Sign) (position : Nat) (operand : Expr) :
    context.Grounded parameters (.signed sign position operand) ↔
      context.Grounded parameters operand := by
  constructor
  · intro grounded
    cases grounded with
    | signed _ _ part => exact part
  · exact .signed sign position

/-- Two operands are grounded together if both are and the operator is no assignment. -/
theorem grounded_binary_iff (operator : Operator) (position : Nat) (left right : Expr) :
    context.Grounded parameters (.binary operator position left right) ↔
      operator ≠ .assign ∧ context.Grounded parameters left ∧
        context.Grounded parameters right := by
  constructor
  · intro grounded
    cases grounded with
    | binary _ pure first second => exact ⟨pure, first, second⟩
  · rintro ⟨pure, first, second⟩
    exact .binary position pure first second

/-- A constant has a value exactly if it was known and its name has one. -/
theorem isSome_eval?_constant_iff (origin : Origin) (name : String) (position : Nat) :
    (context.eval? (.constant origin name position)).isSome = true ↔
      origin ≠ .unknown ∧ (context.constant? name).isSome = true := by
  simp only [Option.isSome_iff_exists, eval?_constant_eq_some_iff, exists_and_left]

/-- A call of a built-in function has a value exactly if there are as many arguments as it takes,
and all of them have values. -/
theorem isSome_eval?_builtIn_iff (name : String) (position : Nat) (arguments : List Expr) :
    (context.eval? (.call .builtIn name position arguments)).isSome = true ↔
      ∃ function, BuiltIn.ofName? name = some function ∧ arguments.length = function.arity ∧
        ∀ argument ∈ arguments, (context.eval? argument).isSome = true := by
  rw [← exists_haveValues_iff, Option.isSome_iff_exists]
  simp only [eval?_call_builtIn_eq_some_iff]
  constructor
  · rintro ⟨value, function, values, known, each, applied⟩
    have fits := (function.isSome_apply values).mp (Option.isSome_of_eq_some applied)
    exact ⟨function, known, each.length_eq.trans fits, values, each⟩
  · rintro ⟨function, known, fits, values, each⟩
    have applied := (function.isSome_apply values).mpr (each.length_eq.symm.trans fits)
    obtain ⟨value, same⟩ := Option.isSome_iff_exists.mp applied
    exact ⟨value, function, values, known, each, same⟩

/-- A call of a user function has a value exactly if the arguments have values, one for each
parameter, and the body has a value with them. -/
theorem isSome_eval?_user_iff (acyclic : context.functions.Acyclic) (name : String)
    (position : Nat) (arguments : List Expr) :
    (context.eval? (.call .user name position arguments)).isSome = true ↔
      ∃ function values, context.functions.find? name = some function ∧
        function.parameters.length = values.length ∧ context.HaveValues arguments values ∧
        (context.eval?
          (function.body.substitute (function.parameters.zip (values.map .value)))).isSome =
            true := by
  simp only [Option.isSome_iff_exists, eval?_call_user_eq_some_iff acyclic]
  constructor
  · rintro ⟨value, function, values, found, fits, each, inside⟩
    exact ⟨function, values, found, fits, each, value, inside⟩
  · rintro ⟨function, values, found, fits, each, value, inside⟩
    exact ⟨value, function, values, found, fits, each, inside⟩

/-- An operand with a sign has a value exactly if the operand has. -/
theorem isSome_eval?_signed_iff (sign : Sign) (position : Nat) (operand : Expr) :
    (context.eval? (.signed sign position operand)).isSome = true ↔
      (context.eval? operand).isSome = true := by
  simp only [Option.isSome_iff_exists, eval?_signed_eq_some_iff]
  exact ⟨fun ⟨_, a, found, _⟩ => ⟨a, found⟩, fun ⟨a, found⟩ => ⟨_, a, found, rfl⟩⟩

/-- Two operands have a value exactly if both have one and the operator is no assignment. -/
theorem isSome_eval?_binary_iff (operator : Operator) (position : Nat) (left right : Expr) :
    (context.eval? (.binary operator position left right)).isSome = true ↔
      operator ≠ .assign ∧ (context.eval? left).isSome = true ∧
        (context.eval? right).isSome = true := by
  simp only [Option.isSome_iff_exists, eval?_binary_eq_some_iff]
  constructor
  · rintro ⟨value, a, b, first, second, applied⟩
    exact ⟨(operator.isSome_apply a b).mp (Option.isSome_of_eq_some applied), ⟨a, first⟩, b, second⟩
  · rintro ⟨pure, ⟨a, first⟩, b, second⟩
    obtain ⟨value, applied⟩ := Option.isSome_iff_exists.mp ((operator.isSome_apply a b).mpr pure)
    exact ⟨value, a, b, first, second, applied⟩

/-- Trees with values in place of the parameters have a value exactly if they are grounded. -/
theorem isSome_eval?_substitute_iff (acyclic : context.functions.Acyclic) (expr : Expr) :
    ∀ {parameters : List String} {values : List Number}, parameters.length = values.length →
      ((context.eval? (expr.substitute (parameters.zip (values.map .value)))).isSome = true ↔
        context.Grounded parameters expr) := by
  induction expr using evaluationInduction acyclic with
  | number spelling imaginary position => exact fun _ => ⟨fun _ => .number .., fun _ => rfl⟩
  | value known => exact fun _ => ⟨fun _ => .value .., fun _ => rfl⟩
  | constant origin name position =>
    intro parameters values fits
    rw [Expr.substitute, lookup_zip_map, grounded_constant_iff]
    cases bound : (parameters.zip values).lookup name with
    | some value =>
      have member : name ∈ parameters := by
        by_contra free
        rw [(lookup_zip_eq_none_iff fits name).mpr free] at bound
        contradiction
      exact ⟨fun _ => Or.inl member, fun _ => rfl⟩
    | none =>
      have free := (lookup_zip_eq_none_iff fits name).mp bound
      rw [Option.map_none, Option.getD_none, isSome_eval?_constant_iff, or_iff_right free]
  | signed sign position operand ih =>
    intro parameters values fits
    rw [Expr.substitute, isSome_eval?_signed_iff, grounded_signed_iff, ih fits]
  | binary operator position left right leftIh rightIh =>
    intro parameters values fits
    rw [Expr.substitute, isSome_eval?_binary_iff, grounded_binary_iff, leftIh fits, rightIh fits]
  | call origin name position arguments ih bodyIh =>
    intro parameters values fits
    have each : (∀ argument ∈ arguments.map
          (Expr.substitute (parameters.zip (values.map .value))),
          (context.eval? argument).isSome = true) ↔
        ∀ argument ∈ arguments, context.Grounded parameters argument := by
      rw [List.forall_mem_map]
      exact forall₂_congr fun argument member => ih argument member fits
    rw [Expr.substitute, Expr.substituteAll_eq_map]
    cases origin with
    | unknown => simp [eval?_call_unknown, not_grounded_call_unknown]
    | builtIn =>
      rw [isSome_eval?_builtIn_iff, grounded_builtIn_iff]
      simp only [each, List.length_map]
    | user =>
      rw [isSome_eval?_user_iff acyclic, grounded_user_iff]
      constructor
      · rintro ⟨function, inner, found, enough, valued, inside⟩
        have parts := each.mp ((exists_haveValues_iff ..).mp ⟨inner, valued⟩)
        have count := enough.trans valued.length_eq.symm
        rw [List.length_map] at count
        exact ⟨function, found, count, parts, (bodyIh function rfl found enough).mp inside⟩
      · rintro ⟨function, found, count, parts, inside⟩
        obtain ⟨inner, valued⟩ := (exists_haveValues_iff ..).mpr (each.mpr parts)
        have enough := count.trans ((List.length_map _).symm.trans valued.length_eq)
        exact ⟨function, inner, found, enough, valued,
          (bodyIh function rfl found enough).mpr inside⟩

/-- Without parameters, a tree has a value exactly if it is grounded. -/
theorem isSome_eval?_iff (acyclic : context.functions.Acyclic) (expr : Expr) :
    (context.eval? expr).isSome = true ↔ context.Grounded [] expr := by
  have empty : ([] : List String).length = ([] : List Number).length := rfl
  have same := isSome_eval?_substitute_iff acyclic expr empty
  rwa [List.map_nil, List.zip_nil_left, Expr.substitute_nil] at same

/-- In every context that is reached, a tree has no value exactly if it is not grounded. So the
value that stands for an unresolved name is never the result of a grounded tree, unless arithmetic
comes to it. -/
theorem eval?_eq_none_iff_not_grounded (changes : List Change) (tree : Expr) :
    ((run changes).eval? tree = none ↔ ¬ (run changes).Grounded [] tree) ∧
      ((run changes).Grounded [] tree →
        (run changes).eval? tree = some ((run changes).evaluate tree)) ∧
      (¬ (run changes).Grounded [] tree → (run changes).evaluate tree = .undefined) := by
  have valued := isSome_eval?_iff (kept_acyclic.run changes) tree
  rw [← valued, evaluate]
  cases (run changes).eval? tree with
  | none => simp
  | some value => simp

/-- A run that removes a constant which the body of a function uses. -/
def danglingRun : List Change := [.enter "a = 2", .enter "f(x) = x/a", .remove "a"]

/-- After this run a call of the function is not grounded and has no value. The remainder of a
division by zero is grounded, and arithmetic comes to the undefined number. -/
theorem danglingRun_not_grounded :
    (¬ (run danglingRun).Grounded [] (.call .user "f" 0 [.number "1" false 2]) ∧
        (run danglingRun).evaluate (.call .user "f" 0 [.number "1" false 2]) = .undefined) ∧
      (run danglingRun).Grounded [] (.binary .mod 1 (.number "1" false 0) (.number "0" false 2)) ∧
        (run danglingRun).eval? (.binary .mod 1 (.number "1" false 0) (.number "0" false 2)) =
          some .undefined := by
  have missing : (run danglingRun).eval? (.call .user "f" 0 [.number "1" false 2]) = none := by
    decide +kernel
  have computed : (run danglingRun).eval?
      (.binary .mod 1 (.number "1" false 0) (.number "0" false 2)) = some .undefined := by
    decide +kernel
  obtain ⟨missing_iff, _, substitute⟩ :=
    eval?_eq_none_iff_not_grounded danglingRun (.call .user "f" 0 [.number "1" false 2])
  obtain ⟨computed_iff, _, _⟩ := eval?_eq_none_iff_not_grounded danglingRun
    (.binary .mod 1 (.number "1" false 0) (.number "0" false 2))
  have notGrounded := missing_iff.mp missing
  refine ⟨⟨notGrounded, substitute notGrounded⟩, ?_, computed⟩
  by_contra impossible
  rw [computed_iff.mpr impossible] at computed
  contradiction

end Reckoner.Context
