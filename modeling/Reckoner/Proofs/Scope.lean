import Reckoner.Proofs.Evaluation
import Reckoner.Proofs.Loading
import Reckoner.Proofs.Origins
/-!
# Parameters have the scope of their function

The rules of this module say what a tree denotes without rewriting it: names are looked up in a
scope, which binds the parameters of the function whose body is read, and then in the context. A
call reads the body of the function in a new scope of its own, so the parameters of a caller are not
visible there. The rules look at names only and not at the origins in a tree. Evaluation, which
rewrites bodies, gives exactly the values that the rules give.
-/

namespace Reckoner

/-- The parameters of a function with the values of a call. -/
abbrev Scope := List (String × Number)

namespace Context

mutual

/-- What a tree denotes in a scope. A name that is not resolved and a call with the wrong number of
arguments denote nothing. -/
inductive Denotes (context : Context) : Scope → Expr → Number → Prop
  /-- A literal denotes its value. -/
  | number (scope : Scope) (spelling : String) (imaginary : Bool) (position : Nat) :
    Denotes context scope (.number spelling imaginary position) (literalValue spelling imaginary)
  /-- A name of the scope denotes what it is bound to, whatever the context has under the name. -/
  | parameter {scope : Scope} (origin : Origin) {name : String} (position : Nat) {value : Number}
    (bound : scope.lookup name = some value) :
    Denotes context scope (.constant origin name position) value
  /-- Another name denotes the constant of the context. -/
  | constant {scope : Scope} (origin : Origin) {name : String} (position : Nat) {value : Number}
    (free : scope.lookup name = none) (held : context.constant? name = some value) :
    Denotes context scope (.constant origin name position) value
  /-- A built-in function is applied to what the arguments denote. -/
  | builtIn {scope : Scope} (origin : Origin) {name : String} (position : Nat)
    {arguments : List Expr} {function : BuiltIn} {values : List Number} {value : Number}
    (known : BuiltIn.ofName? name = some function)
    (each : DenotesAll context scope arguments values)
    (applied : function.apply values = some value) :
    Denotes context scope (.call origin name position arguments) value
  /-- The body of a user function is read in the scope of its parameters and of nothing else. -/
  | user {scope : Scope} (origin : Origin) {name : String} (position : Nat) {arguments : List Expr}
    {function : UserFunction} {values : List Number} {value : Number}
    (unshadowed : BuiltIn.ofName? name = none)
    (found : context.functions.find? name = some function)
    (fits : function.parameters.length = values.length)
    (each : DenotesAll context scope arguments values)
    (inside : Denotes context (function.parameters.zip values) function.body value) :
    Denotes context scope (.call origin name position arguments) value
  /-- A sign is applied to what the operand denotes. -/
  | signed {scope : Scope} (sign : Sign) (position : Nat) {operand : Expr} {value : Number}
    (part : Denotes context scope operand value) :
    Denotes context scope (.signed sign position operand) (sign.apply value)
  /-- An operator is applied to what the operands denote. An assignment denotes nothing. -/
  | binary {scope : Scope} {operator : Operator} (position : Nat) {left right : Expr}
    {a b value : Number} (first : Denotes context scope left a)
    (second : Denotes context scope right b) (applied : operator.apply a b = some value) :
    Denotes context scope (.binary operator position left right) value
  /-- A value denotes itself. -/
  | value (scope : Scope) (known : Number) : Denotes context scope (.value known) known

/-- What several trees denote in a scope, one after the other. -/
inductive DenotesAll (context : Context) : Scope → List Expr → List Number → Prop
  /-- No trees denote no values. -/
  | nil (scope : Scope) : DenotesAll context scope [] []
  /-- The first tree denotes the first value. -/
  | cons {scope : Scope} {argument : Expr} {others : List Expr} {value : Number}
    {values : List Number} (first : Denotes context scope argument value)
    (further : DenotesAll context scope others values) :
    DenotesAll context scope (argument :: others) (value :: values)

end

variable {context : Context} {scope : Scope}

/-- Trees denote values one after the other if each denotes the one in its place. -/
theorem denotesAll_iff (arguments : List Expr) (values : List Number) :
    context.DenotesAll scope arguments values ↔
      List.Forall₂ (context.Denotes scope) arguments values := by
  induction arguments generalizing values with
  | nil =>
    rw [List.forall₂_nil_left_iff]
    constructor
    · intro all
      cases all
      rfl
    · rintro rfl
      exact .nil scope
  | cons argument others ih =>
    rw [List.forall₂_cons_left_iff]
    constructor
    · intro all
      cases all with
      | cons first further => exact ⟨_, _, first, (ih _).mp further, rfl⟩
    · rintro ⟨value, behind, first, further, rfl⟩
      exact .cons first ((ih behind).mpr further)

/-- A literal denotes its value and nothing else. -/
theorem denotes_number_iff (spelling : String) (imaginary : Bool) (position : Nat)
    (value : Number) :
    context.Denotes scope (.number spelling imaginary position) value ↔
      literalValue spelling imaginary = value := by
  constructor
  · intro denotes
    cases denotes
    rfl
  · rintro rfl
    exact .number scope spelling imaginary position

/-- A value denotes itself and nothing else. -/
theorem denotes_value_iff (known value : Number) :
    context.Denotes scope (.value known) value ↔ known = value := by
  constructor
  · intro denotes
    cases denotes
    rfl
  · rintro rfl
    exact .value scope known

/-- A name denotes what the scope binds it to, and else the constant of the context. -/
theorem denotes_constant_iff (origin : Origin) (name : String) (position : Nat) (value : Number) :
    context.Denotes scope (.constant origin name position) value ↔
      (scope.lookup name).or (context.constant? name) = some value := by
  constructor
  · intro denotes
    cases denotes with
    | parameter _ _ bound => rw [bound, Option.some_or]
    | constant _ _ free held => rw [free, Option.none_or, held]
  · intro held
    cases bound : scope.lookup name with
    | none =>
      rw [bound, Option.none_or] at held
      exact .constant origin position bound held
    | some inner =>
      rw [bound, Option.some_or] at held
      exact .parameter origin position (bound.trans held)

/-- A call of a built-in function denotes what the function makes of the arguments. -/
theorem denotes_builtIn_iff {name : String} {function : BuiltIn}
    (known : BuiltIn.ofName? name = some function) (origin : Origin) (position : Nat)
    (arguments : List Expr) (value : Number) :
    context.Denotes scope (.call origin name position arguments) value ↔
      ∃ values, List.Forall₂ (context.Denotes scope) arguments values ∧
        function.apply values = some value := by
  simp only [← denotesAll_iff]
  constructor
  · intro denotes
    cases denotes with
    | builtIn _ _ alsoKnown each applied =>
      obtain rfl := Option.some.inj (known.symm.trans alsoKnown)
      exact ⟨_, each, applied⟩
    | user _ _ unshadowed =>
      rw [known] at unshadowed
      contradiction
  · rintro ⟨values, each, applied⟩
    exact .builtIn origin position known each applied

/-- A call of another function denotes what its body denotes in the scope of its parameters. -/
theorem denotes_user_iff {name : String} (unshadowed : BuiltIn.ofName? name = none)
    (origin : Origin) (position : Nat) (arguments : List Expr) (value : Number) :
    context.Denotes scope (.call origin name position arguments) value ↔
      ∃ function values, context.functions.find? name = some function ∧
        function.parameters.length = values.length ∧
        List.Forall₂ (context.Denotes scope) arguments values ∧
        context.Denotes (function.parameters.zip values) function.body value := by
  simp only [← denotesAll_iff]
  constructor
  · intro denotes
    cases denotes with
    | builtIn _ _ known =>
      rw [known] at unshadowed
      contradiction
    | user _ _ _ found fits each inside => exact ⟨_, _, found, fits, each, inside⟩
  · rintro ⟨function, values, found, fits, each, inside⟩
    exact .user origin position unshadowed found fits each inside

/-- An operand with a sign denotes what the operand denotes, with the sign. -/
theorem denotes_signed_iff (sign : Sign) (position : Nat) (operand : Expr) (value : Number) :
    context.Denotes scope (.signed sign position operand) value ↔
      ∃ a, context.Denotes scope operand a ∧ sign.apply a = value := by
  constructor
  · intro denotes
    cases denotes with
    | signed _ _ part => exact ⟨_, part, rfl⟩
  · rintro ⟨a, part, rfl⟩
    exact .signed sign position part

/-- Two operands denote what the operator makes of them. -/
theorem denotes_binary_iff (operator : Operator) (position : Nat) (left right : Expr)
    (value : Number) :
    context.Denotes scope (.binary operator position left right) value ↔
      ∃ a b, context.Denotes scope left a ∧ context.Denotes scope right b ∧
        operator.apply a b = some value := by
  constructor
  · intro denotes
    cases denotes with
    | binary _ first second applied => exact ⟨_, _, first, second, applied⟩
  · rintro ⟨a, b, first, second, applied⟩
    exact .binary position first second applied

/-- A relation between the members of a list and others may be replaced by one that agrees with it
on the members. -/
theorem forall₂_congr_of_mem {α β : Type} {first second : α → β → Prop} {list : List α}
    (same : ∀ a ∈ list, ∀ b, first a b ↔ second a b) (others : List β) :
    List.Forall₂ first list others ↔ List.Forall₂ second list others := by
  induction list generalizing others with
  | nil => simp
  | cons a list ih =>
    rw [List.forall₂_cons_left_iff, List.forall₂_cons_left_iff]
    simp only [same a List.mem_cons_self, ih fun b member => same b (List.mem_cons_of_mem _ member)]

/-- Trees with values in place of the parameters have the values that the trees denote in the scope
of the parameters. -/
theorem eval?_substitute_eq_some_iff (stores : context.Stores)
    (acyclic : context.functions.Acyclic) (expr : Expr) :
    ∀ {parameters : List String} {values : List Number} (value : Number),
      parameters.length = values.length → expr.IsCanonical parameters →
      (context.eval? (expr.substitute (parameters.zip (values.map .value))) = some value ↔
        context.Denotes (parameters.zip values) expr value) := by
  induction expr using evaluationInduction acyclic with
  | number spelling imaginary position =>
    intro parameters values value _ _
    rw [Expr.substitute, eval?_number_eq_some_iff, denotes_number_iff]
  | value known =>
    intro parameters values value _ _
    rw [Expr.substitute, eval?_value_eq_some_iff, denotes_value_iff]
  | constant origin name position =>
    intro parameters values value fits canonical
    rw [Expr.substitute, lookup_zip_map, denotes_constant_iff]
    cases bound : (parameters.zip values).lookup name with
    | some inner =>
      rw [Option.map_some, Option.getD_some, Option.some_or, eval?_value_eq_some_iff,
        Option.some_inj]
    | none =>
      have free := (lookup_zip_eq_none_iff fits name).mp bound
      rw [Option.map_none, Option.getD_none, Option.none_or, eval?_constant_eq_some_iff]
      exact and_iff_right (canonical.origin_ne_unknown free)
  | signed sign position operand ih =>
    intro parameters values value fits canonical
    rw [Expr.isCanonical_signed_iff] at canonical
    rw [Expr.substitute, eval?_signed_eq_some_iff, denotes_signed_iff]
    simp only [ih _ fits canonical]
  | binary operator position left right leftIh rightIh =>
    intro parameters values value fits canonical
    rw [Expr.isCanonical_binary_iff] at canonical
    rw [Expr.substitute, eval?_binary_eq_some_iff, denotes_binary_iff]
    simp only [leftIh _ fits canonical.1, rightIh _ fits canonical.2]
  | call origin name position arguments ih bodyIh =>
    intro parameters values value fits canonical
    obtain ⟨label, canonicals⟩ := (Expr.isCanonical_call_iff ..).mp canonical
    have each (inner : List Number) :
        context.HaveValues
            (arguments.map (Expr.substitute (parameters.zip (values.map .value)))) inner ↔
          List.Forall₂ (context.Denotes (parameters.zip values)) arguments inner := by
      rw [HaveValues, List.forall₂_map_left_iff]
      apply forall₂_congr_of_mem
      intro argument member known
      exact ih argument member known fits (canonicals argument member)
    rw [Expr.substitute, Expr.substituteAll_eq_map]
    cases known : BuiltIn.ofName? name with
    | some function =>
      rw [known, Option.isSome_some, if_pos rfl] at label
      rw [label, eval?_call_builtIn_eq_some_iff, denotes_builtIn_iff known, known]
      simp only [each, Option.some_inj, exists_and_left, exists_eq_left']
    | none =>
      rw [known, Option.isSome_none, if_neg Bool.false_ne_true] at label
      rw [label, eval?_call_user_eq_some_iff acyclic, denotes_user_iff known]
      apply exists_congr
      intro function
      apply exists_congr
      intro inner
      rw [each]
      refine and_congr_right fun found => and_congr_right fun enough => and_congr_right fun _ => ?_
      exact bodyIh function label found value enough (stores.stored name function found).isCanonical

/-- In a tree without parameters, evaluation finds what the tree denotes. -/
theorem eval?_eq_some_iff_of_isCanonical (stores : context.Stores)
    (acyclic : context.functions.Acyclic) {expr : Expr} (canonical : expr.IsCanonical [])
    (value : Number) :
    context.eval? expr = some value ↔ context.Denotes [] expr value := by
  have empty : ([] : List String).length = ([] : List Number).length := rfl
  have same := eval?_substitute_eq_some_iff stores acyclic expr value empty canonical
  rwa [List.map_nil, List.zip_nil_left, Expr.substitute_nil] at same

/-- In every context that is reached, the value of a tree that was parsed in any context is the
number that the tree denotes, and there is none exactly if it denotes nothing. In particular, a call
comes to what the stored body denotes in the scope of its own parameters, wherever the call stands.
-/
theorem eval?_eq_some_iff_denotes (changes : List Change) {earlier : Context} {line : String}
    {tree : Expr} (parsed : earlier.parse line = .ok tree) :
    (∀ value, (run changes).eval? tree = some value ↔ (run changes).Denotes [] tree value) ∧
      ∀ name function position arguments values value,
        (run changes).functions.find? name = some function →
        (run changes).HaveValues arguments values →
        ((run changes).eval? (.call .user name position arguments) = some value ↔
          function.parameters.length = values.length ∧
            (run changes).Denotes (function.parameters.zip values) function.body value) := by
  have acyclic := kept_acyclic.run changes
  have stores := kept_stores.run changes
  constructor
  · intro value
    by_cases expression : IsExpression tree
    · exact eval?_eq_some_iff_of_isCanonical stores acyclic
        (isCanonical_of_parse parsed expression) value
    · obtain ⟨position, left, right, rfl⟩ : ∃ position left right,
          tree = .binary .assign position left right := by
        simpa [IsExpression] using expression
      -- Neither evaluation nor the rules give a definition a value.
      rw [eval?_binary_eq_some_iff, denotes_binary_iff]
      simp [Operator.apply]
  · intro name function position arguments values value found each
    have body := (stores.stored name function found).isCanonical
    rw [eval?_call_of_haveValues acyclic name position each, Option.bind_eq_some_iff]
    simp only [expand?_eq_some_iff, found, Option.some_inj, List.length_map]
    constructor
    · rintro ⟨_, ⟨_, rfl, fits, rfl⟩, inside⟩
      exact ⟨fits, (eval?_substitute_eq_some_iff stores acyclic _ value fits body).mp inside⟩
    · rintro ⟨fits, inside⟩
      exact ⟨_, ⟨_, rfl, fits, rfl⟩,
        (eval?_substitute_eq_some_iff stores acyclic _ value fits body).mpr inside⟩

/-- A run that leaves a constant, a function that uses it, and a function that calls the other one
and has a parameter of the name of the constant. -/
def shadowRun : List Change :=
  [.enter "x = 5", .enter "g(y) = y + x", .enter "f(x) = 10*x + g(1)"]

/-- The parameter stands for the constant in the body of `f`, but not in that of `g`. -/
theorem shadowRun_denotes :
    (run shadowRun).parse "f(2)" = .ok (.call .user "f" 0 [.number "2" false 2]) ∧
      (run shadowRun).eval? (.call .user "f" 0 [.number "2" false 2]) = some (.real 26) ∧
      (run shadowRun).Denotes [] (.call .user "f" 0 [.number "2" false 2]) (.real 26) := by
  have parsed : (run shadowRun).parse "f(2)" = .ok (.call .user "f" 0 [.number "2" false 2]) := by
    with_unfolding_all rfl
  have evaluated : (run shadowRun).eval? (.call .user "f" 0 [.number "2" false 2]) =
      some (.real 26) := by
    decide +kernel
  exact ⟨parsed, evaluated, ((eval?_eq_some_iff_denotes shadowRun parsed).1 _).mp evaluated⟩

end Context

end Reckoner
