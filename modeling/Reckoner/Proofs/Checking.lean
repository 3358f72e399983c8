import Mathlib.Data.List.Forall2
import Reckoner.Proofs.CallGraph
import Reckoner.Proofs.Relabel
/-!
# What the check of names accepts

A tree whose names have their origins in a context is accepted exactly if it is resolved there:
every constant is a parameter or has a value, every call is of a known function with as many
arguments as it takes, and no assignment stands inside. Being resolved does not depend on the
origins in the tree, so it can be asked of a body that was stored in an earlier context as well.
-/

open Relation

namespace Reckoner

/-- Two steps in sequence succeed exactly if both do. -/
theorem bind_eq_ok_iff {ε α β : Type} (first : Except ε α) (next : α → Except ε β) (result : β) :
    first >>= next = .ok result ↔ ∃ middle, first = .ok middle ∧ next middle = .ok result := by
  cases first <;> simp [bind, Except.bind]

/-- A check in front of a step succeeds exactly if both do. -/
theorem then_eq_ok_iff {ε α : Type} (check : Except ε Unit) (next : Unit → Except ε α)
    (result : α) :
    check >>= next = .ok result ↔ check = .ok () ∧ next () = .ok result := by
  cases check <;> simp [bind, Except.bind]

/-- A wording of errors changes no result. -/
theorem mapError_eq_ok_iff {ε δ α : Type} (wording : ε → δ) (attempt : Except ε α) (result : α) :
    attempt.mapError wording = .ok result ↔ attempt = .ok result := by
  cases attempt with
  | error fault => constructor <;> intro impossible <;> contradiction
  | ok value => constructor <;> intro same <;> exact congrArg Except.ok (Except.ok.inj same)

/-- A result that is checked to be one is one. -/
theorem exists_eq_ok_of_isOk {ε α : Type} {attempt : Except ε α} (succeeds : attempt.isOk = true) :
    ∃ result, attempt = .ok result := by
  cases attempt with
  | error fault => contradiction
  | ok result => exact ⟨result, rfl⟩

/-- Taking a list through a step succeeds exactly if the step does on every element. -/
theorem mapM_eq_ok_iff {ε α β : Type} (step : α → Except ε β) (list : List α) (results : List β) :
    list.mapM step = .ok results ↔
      List.Forall₂ (fun element result => step element = .ok result) list results := by
  induction list generalizing results with
  | nil =>
    rw [List.mapM_nil, List.forall₂_nil_left_iff]
    exact ⟨fun same => (Except.ok.inj same).symm, fun same => congrArg Except.ok same.symm⟩
  | cons element others ih =>
    rw [List.mapM_cons, bind_eq_ok_iff, List.forall₂_cons_left_iff]
    constructor
    · rintro ⟨result, first, rest⟩
      obtain ⟨behind, further, same⟩ := (bind_eq_ok_iff ..).mp rest
      exact ⟨result, behind, first, (ih behind).mp further, (Except.ok.inj same).symm⟩
    · rintro ⟨result, behind, first, further, rfl⟩
      exact ⟨result, first, (bind_eq_ok_iff ..).mpr ⟨behind, (ih behind).mpr further, rfl⟩⟩

/-- What every step keeps is kept along a list. -/
theorem of_foldlM_eq_ok {ε α β : Type} {property : β → Prop} {step : β → α → Except ε β}
    (keeps : ∀ state element next, property state → step state element = .ok next →
      property next)
    {list : List α} {state last : β} (holds : property state)
    (run : list.foldlM step state = .ok last) : property last := by
  induction list generalizing state with
  | nil =>
    obtain rfl := Except.ok.inj run
    exact holds
  | cons element others ih =>
    rw [List.foldlM_cons, bind_eq_ok_iff] at run
    obtain ⟨next, first, rest⟩ := run
    exact ih (keeps state element next holds first) rest

namespace Context

variable (context : Context)

/-- Every constant of the tree is a parameter or has a value, every call is of a known function with
as many arguments as it takes, and no assignment stands in the tree. -/
inductive Resolved (context : Context) (parameters : List String) : Expr → Prop
  /-- A literal is resolved. -/
  | number (spelling : String) (imaginary : Bool) (position : Nat) :
    Resolved context parameters (.number spelling imaginary position)
  /-- A constant is a parameter or has a value. -/
  | constant (origin : Origin) {name : String} (position : Nat)
    (known : name ∈ parameters ∨ (context.constant? name).isSome = true) :
    Resolved context parameters (.constant origin name position)
  /-- A called function takes that many arguments. -/
  | call (origin : Origin) {name : String} (position : Nat) {arguments : List Expr}
    (known : context.arity? name = some arguments.length)
    (parts : ∀ argument ∈ arguments, Resolved context parameters argument) :
    Resolved context parameters (.call origin name position arguments)
  /-- A sign resolves nothing and spoils nothing. -/
  | signed (sign : Sign) (position : Nat) {operand : Expr}
    (part : Resolved context parameters operand) :
    Resolved context parameters (.signed sign position operand)
  /-- An operator joins resolved operands and is no assignment. -/
  | binary {operator : Operator} (position : Nat) {left right : Expr}
    (pure : operator ≠ .assign) (first : Resolved context parameters left)
    (second : Resolved context parameters right) :
    Resolved context parameters (.binary operator position left right)
  /-- A value is resolved. -/
  | value (known : Number) : Resolved context parameters (.value known)

/-- A constant is resolved if it is a parameter or has a value. -/
theorem resolved_constant_iff (parameters : List String) (origin : Origin) (name : String)
    (position : Nat) :
    context.Resolved parameters (.constant origin name position) ↔
      name ∈ parameters ∨ (context.constant? name).isSome = true := by
  constructor
  · intro resolved
    cases resolved with
    | constant _ _ known => exact known
  · exact .constant origin position

/-- A call is resolved if the function takes that many arguments and all of them are resolved. -/
theorem resolved_call_iff (parameters : List String) (origin : Origin) (name : String)
    (position : Nat) (arguments : List Expr) :
    context.Resolved parameters (.call origin name position arguments) ↔
      context.arity? name = some arguments.length ∧
        ∀ argument ∈ arguments, context.Resolved parameters argument := by
  constructor
  · intro resolved
    cases resolved with
    | call _ _ known parts => exact ⟨known, parts⟩
  · rintro ⟨known, parts⟩
    exact .call origin position known parts

/-- An operand with a sign is resolved if the operand is. -/
theorem resolved_signed_iff (parameters : List String) (sign : Sign) (position : Nat)
    (operand : Expr) :
    context.Resolved parameters (.signed sign position operand) ↔
      context.Resolved parameters operand := by
  constructor
  · intro resolved
    cases resolved with
    | signed _ _ part => exact part
  · exact .signed sign position

/-- Two operands are resolved together if both are and the operator is no assignment. -/
theorem resolved_binary_iff (parameters : List String) (operator : Operator) (position : Nat)
    (left right : Expr) :
    context.Resolved parameters (.binary operator position left right) ↔
      operator ≠ .assign ∧ context.Resolved parameters left ∧
        context.Resolved parameters right := by
  constructor
  · intro resolved
    cases resolved with
    | binary _ pure first second => exact ⟨pure, first, second⟩
  · rintro ⟨pure, first, second⟩
    exact .binary position pure first second

/-- Being resolved does not depend on origins and positions. -/
theorem resolved_relabel (labels : Relabelling) (parameters : List String) (expr : Expr) :
    context.Resolved parameters (expr.relabel labels) ↔ context.Resolved parameters expr := by
  induction expr with
  | number => exact ⟨fun _ => .number .., fun _ => .number ..⟩
  | constant => simp only [Expr.relabel, resolved_constant_iff]
  | call origin name position arguments ih =>
    simp only [Expr.relabel, Expr.relabelAll_eq_map, resolved_call_iff, List.length_map,
      List.forall_mem_map]
    rw [forall₂_congr ih]
  | signed sign position operand ih => simp only [Expr.relabel, resolved_signed_iff, ih]
  | binary operator position left right leftIh rightIh =>
    simp only [Expr.relabel, resolved_binary_iff, leftIh, rightIh]
  | value => exact ⟨fun _ => .value _, fun _ => .value _⟩

/-- A constant is unknown in a context exactly if it has no value there. -/
theorem constantOrigin_eq_unknown_iff (name : String) :
    context.constantOrigin name = .unknown ↔ context.constant? name = none := by
  unfold constantOrigin constant? Table.contains
  cases builtInConstant? name <;> cases context.constants.find? name <;> simp

/-- A function is unknown in a context exactly if it has no number of arguments there. -/
theorem functionOrigin_eq_unknown_iff (name : String) :
    context.functionOrigin name = .unknown ↔ context.arity? name = none := by
  unfold functionOrigin arity? Table.contains
  cases BuiltIn.ofName? name <;> cases context.functions.find? name <;> simp

/-- A constant of a context passes the check exactly if it is resolved. -/
theorem checkConstant_eq_ok_iff (parameters : Option (List String)) (name : String)
    (position : Nat) :
    checkConstant parameters (context.constantOrigin name) name position = .ok () ↔
      name ∈ parameters.getD [] ∨ (context.constant? name).isSome = true := by
  have unknown := context.constantOrigin_eq_unknown_iff name
  cases origin : context.constantOrigin name with
  | builtIn | user =>
    have known : context.constant? name ≠ none := fun missing => by simp_all
    simp [checkConstant, Option.isSome_iff_ne_none.mpr known]
  | unknown =>
    have missing := unknown.mp origin
    cases parameters with
    | none => simp [checkConstant, missing]
    | some parameters =>
      by_cases member : name ∈ parameters <;> simp [checkConstant, missing, member]

/-- A call of a function of a context passes the check exactly if it has the right number of
arguments. -/
theorem checkCall_eq_ok_iff (defining : Bool) (name : String) (position count : Nat) :
    context.checkCall defining (context.functionOrigin name) name position count = .ok () ↔
      context.arity? name = some count := by
  have unknown := context.functionOrigin_eq_unknown_iff name
  cases origin : context.functionOrigin name with
  | unknown => simp [checkCall, unknown.mp origin]
  | builtIn | user =>
    obtain ⟨arity, known⟩ := Option.ne_none_iff_exists'.mp fun missing => by
      rw [unknown.mpr missing] at origin
      contradiction
    by_cases same : count = arity
    · simp [checkCall, known, same]
    · simp [checkCall, known, same, Ne.symm same]

/-- A tree with the origins of a context is accepted exactly if it is resolved there. -/
theorem checkNames_eq_ok_iff (parameters : Option (List String)) (expr : Expr) :
    context.checkNames parameters (expr.relabel (.resolve context)) = .ok () ↔
      context.Resolved (parameters.getD []) expr := by
  induction expr with
  | number => exact ⟨fun _ => .number .., fun _ => rfl⟩
  | constant origin name position =>
    rw [resolved_constant_iff]
    exact context.checkConstant_eq_ok_iff parameters name position
  | call origin name position arguments ih =>
    have each : context.checkAllNames parameters
          (arguments.map (Expr.relabel (.resolve context))) = .ok () ↔
        ∀ argument ∈ arguments, context.Resolved (parameters.getD []) argument := by
      induction arguments with
      | nil => simp [checkAllNames]
      | cons first others othersIh =>
        rw [List.map_cons, checkAllNames, then_eq_ok_iff, List.forall_mem_cons,
          ih first List.mem_cons_self,
          othersIh fun other member => ih other (List.mem_cons_of_mem _ member)]
    rw [Expr.relabel, Expr.relabelAll_eq_map, checkNames, then_eq_ok_iff, resolved_call_iff,
      List.length_map, each]
    exact and_congr_left' (context.checkCall_eq_ok_iff parameters.isSome name position _)
  | signed sign position operand ih =>
    rw [resolved_signed_iff, ← ih]
    rfl
  | binary operator position left right leftIh rightIh =>
    rw [resolved_binary_iff, ← leftIh, ← rightIh, Expr.relabel, checkNames]
    cases context.checkNames parameters (left.relabel (.resolve context)) with
    | error diagnosis => simp [bind, Except.bind]
    | ok done =>
      by_cases assignment : operator = .assign <;>
        simp [assignment, bind, Except.bind]
  | value => exact ⟨fun _ => .value _, fun _ => rfl⟩

instance (parameters : List String) (expr : Expr) : Decidable (context.Resolved parameters expr) :=
  decidable_of_iff _ (context.checkNames_eq_ok_iff (some parameters) expr)

/-- The search for a call that leads to `target` finds none exactly if no call does. -/
theorem firstCallTo?_eq_none_iff (target : String) (expr : Expr) :
    context.firstCallTo? target expr = none ↔
      ∀ callee ∈ expr.callees, ¬ ReflTransGen context.Calls callee target := by
  induction expr with
  | number | constant | value => simp [firstCallTo?, Expr.callees]
  | call origin name position arguments ih =>
    have among : context.firstCallAmong? target arguments = none ↔
        ∀ callee ∈ Expr.calleesAll arguments, ¬ ReflTransGen context.Calls callee target := by
      rw [Expr.calleesAll_eq_flatMap]
      induction arguments with
      | nil => simp [firstCallAmong?]
      | cons first others othersIh =>
        rw [firstCallAmong?, Option.or_eq_none_iff, ih first List.mem_cons_self,
          othersIh fun other member => ih other (List.mem_cons_of_mem _ member)]
        simp only [List.flatMap_cons, List.mem_append, or_imp, forall_and]
    cases origin with
    | user =>
      rw [firstCallTo?, Expr.callees, List.forall_mem_cons, ← among]
      by_cases leads : context.leadsTo name target = true
      · simp [leads, (leadsTo_eq_true_iff ..).mp leads]
      · simp [leads, mt (leadsTo_eq_true_iff ..).mpr leads]
    | builtIn | unknown => simpa [firstCallTo?, Expr.callees] using among
  | signed sign position operand ih => exact ih
  | binary operator position left right leftIh rightIh =>
    rw [firstCallTo?, Option.or_eq_none_iff, leftIh, rightIh, Expr.callees]
    simp only [List.mem_append, or_imp, forall_and]

/-- The tree is a parameter of a name: a constant that is not built in. -/
def IsParameter (tree : Expr) (name : String) : Prop :=
  ∃ origin position, origin ≠ .builtIn ∧ tree = .constant origin name position

/-- The name of a parameter is its text. -/
theorem IsParameter.rootText {tree : Expr} {name : String} (parameter : IsParameter tree name) :
    tree.rootText = name := by
  obtain ⟨origin, position, _, rfl⟩ := parameter
  rfl

/-- The names of parameters are their texts. -/
theorem names_of_parameters {parameters : List Expr} {names : List String}
    (named : List.Forall₂ IsParameter parameters names) : parameters.map Expr.rootText = names := by
  induction named with
  | nil => rfl
  | cons parameter _ ih => rw [List.map_cons, parameter.rootText, ih]

/-- A tree has a name as a parameter exactly if it is one. -/
theorem parameterName_eq_ok_iff (tree : Expr) (name : String) :
    parameterName tree = .ok name ↔ IsParameter tree name := by
  unfold IsParameter
  cases tree with
  | constant origin known position => cases origin <;> simp [parameterName]
  | number | call | signed | binary | value => simp [parameterName]

/-- Trees have names as parameters exactly if each is a parameter and no two names are equal. -/
theorem parameterNames_eq_ok_iff (parameters : List Expr) (names : List String) :
    parameterNames parameters = .ok names ↔
      List.Forall₂ IsParameter parameters names ∧ names.Nodup := by
  have named (found : List String) : parameters.mapM parameterName = .ok found ↔
      List.Forall₂ IsParameter parameters found := by
    rw [mapM_eq_ok_iff]
    simp only [parameterName_eq_ok_iff]
  rw [parameterNames, bind_eq_ok_iff]
  constructor
  · rintro ⟨found, each, distinct⟩
    split at distinct
    · next nodup =>
      obtain rfl := Except.ok.inj distinct
      exact ⟨(named found).mp each, nodup⟩
    · contradiction
  · rintro ⟨each, nodup⟩
    exact ⟨names, (named names).mpr each, if_pos nodup⟩

/-- The definition of a constant is accepted if the name is not built in and the right side is an
expression without unknown names. -/
theorem check_constant_definition_iff (position : Nat) (origin : Origin) (name : String)
    (place : Nat) (right : Expr) :
    context.check (.binary .assign position (.constant origin name place) right) = .ok () ↔
      origin ≠ .builtIn ∧ context.checkNames (some []) right = .ok () := by
  cases origin <;> simp [check, checkDefinition]

/-- The definition of a function is accepted if the name is not built in, the parameters are
distinct names, the right side uses no other unknown names, and none of its calls leads to the name.
-/
theorem check_function_definition_iff (position : Nat) (origin : Origin) (name : String)
    (place : Nat) (parameters : List Expr) (right : Expr) :
    context.check (.binary .assign position (.call origin name place parameters) right) = .ok () ↔
      origin ≠ .builtIn ∧ ∃ names, List.Forall₂ IsParameter parameters names ∧ names.Nodup ∧
        context.checkNames (some names) right = .ok () ∧
        ∀ callee ∈ right.callees, ¬ ReflTransGen context.Calls callee name := by
  have free := context.firstCallTo?_eq_none_iff name right
  cases origin with
  | builtIn => simp [check, checkDefinition]
  | user | unknown =>
    rw [check, checkDefinition, bind_eq_ok_iff]
    · simp only [parameterNames_eq_ok_iff, then_eq_ok_iff, and_assoc, ← free]
      cases context.firstCallTo? name right <;> simp
    · simp

/-- An accepted definition defines a constant or a function. -/
theorem check_definition_cases {position : Nat} {left right : Expr}
    (accepted : context.check (.binary .assign position left right) = .ok ()) :
    (∃ origin name place, left = .constant origin name place) ∨
      ∃ origin name place parameters, left = .call origin name place parameters := by
  cases left with
  | constant origin name place => exact Or.inl ⟨origin, name, place, rfl⟩
  | call origin name place parameters => exact Or.inr ⟨origin, name, place, parameters, rfl⟩
  | binary operator place first second =>
    cases operator <;> simp [check, checkDefinition] at accepted
  | number | signed | value => simp [check, checkDefinition] at accepted

end Context

end Reckoner
