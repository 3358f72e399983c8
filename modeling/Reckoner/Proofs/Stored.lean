import Reckoner.Proofs.Alike
import Reckoner.Proofs.Margins
/-!
# Stored functions and their definitions

The text of a stored function still reads as its definition, and its body is the right side of that
text: which of its names are built in, parameters or names of the user is the same in every context
that accepts the text. So a definition that is entered again, in whatever context accepts it, gives
a function like the stored one. It is accepted exactly if the names of the body are resolved there
and none of its calls leads back to the name.
-/

open Relation

namespace Reckoner

/-- The origins of the names of an accepted right side: a name that is neither built in nor a
parameter is one of the user. -/
def Relabelling.canonical (parameters : List String) : Relabelling where
  constant name _ :=
    if (builtInConstant? name).isSome then .builtIn
    else if name ∈ parameters then .unknown
    else .user
  function name _ := if (BuiltIn.ofName? name).isSome then .builtIn else .user
  position _ := 0

/-- The canonical origins do not depend on earlier labels. -/
theorem Expr.canonical_relabel (labels : Relabelling) (parameters : List String) (expr : Expr) :
    (expr.relabel labels).relabel (.canonical parameters) =
      expr.relabel (.canonical parameters) := by
  rw [relabel_relabel]
  rfl

/-- A constant that is a parameter or has a value has the canonical origin in its context, up to
those of parameters. -/
theorem Context.core_constant {context : Context} {parameters : List String} {name : String}
    (resolved : name ∈ parameters ∨ (context.constant? name).isSome = true) (origin : Origin) :
    (Relabelling.core parameters).constant name (context.constantOrigin name) =
      (Relabelling.canonical parameters).constant name origin := by
  simp only [Relabelling.core, Relabelling.canonical, constantOrigin]
  by_cases builtIn : (builtInConstant? name).isSome = true
  · simp [builtIn]
  · by_cases member : name ∈ parameters
    · by_cases defined : context.constants.contains name = true <;> simp [builtIn, member, defined]
    · have known : context.constants.contains name = true := by
        have value := resolved.resolve_left member
        rw [constant?, Option.isSome_or, Bool.eq_false_iff.mpr builtIn] at value
        exact value
      simp [builtIn, member, known]

/-- A function that takes arguments has the canonical origin in its context. -/
theorem Context.core_function {context : Context} {name : String} {count : Nat}
    (known : context.arity? name = some count) (parameters : List String) (origin : Origin) :
    (Relabelling.core parameters).function name (context.functionOrigin name) =
      (Relabelling.canonical parameters).function name origin := by
  simp only [Relabelling.core, Relabelling.canonical, functionOrigin]
  cases builtIn : BuiltIn.ofName? name with
  | some function => rfl
  | none =>
    rw [arity?, builtIn] at known
    obtain ⟨function, found, _⟩ := Option.map_eq_some_iff.mp known
    simp [Table.contains, found]

/-- A resolved tree has the canonical origins in its context, up to those of parameters. -/
theorem Context.Resolved.core_eq {context : Context} {parameters : List String} {expr : Expr}
    (resolved : context.Resolved parameters expr) :
    (expr.relabel (.resolve context)).relabel (.core parameters) =
      expr.relabel (.canonical parameters) := by
  induction resolved with
  | number | value => rfl
  | constant origin position known =>
    exact congrArg (Expr.constant · _ 0) (core_constant known origin)
  | @call origin name position arguments known _ ih =>
    have label := core_function known parameters origin
    have each : (arguments.map (Expr.relabel (.resolve context))).map
          (Expr.relabel (.core parameters)) =
        arguments.map (Expr.relabel (.canonical parameters)) := by
      rw [List.map_map]
      exact List.map_congr_left ih
    simp only [Expr.relabel, Expr.relabelAll_eq_map, each]
    exact congrArg (Expr.call · name 0 _) label
  | signed sign position _ ih =>
    simp only [Expr.relabel, ih]
    rfl
  | binary position _ _ _ firstIh secondIh =>
    simp only [Expr.relabel, firstIh, secondIh]
    rfl

/-- The text is the definition of a function, with the right side `right` in front of any context.
-/
def IsDefinition (text name : String) (parameters : List String) (right : Expr) : Prop :=
  ∃ position origin place arguments,
    Context.lineTree text =
        .ok (.binary .assign position (.call origin name place arguments) right) ∧
      List.Forall₂ (fun argument parameter => ∃ origin position,
        argument = .constant origin parameter position) arguments parameters

/-- The text of a stored function is its definition, and the body is the right side of the text. -/
structure Stored (name : String) (function : UserFunction) : Prop where
  /-- The text is the definition. -/
  text : ∃ right, IsDefinition function.definition name function.parameters right ∧
    function.body.relabel (.core function.parameters) =
      right.relabel (.canonical function.parameters)
  /-- The text has no margins. -/
  trimmed : trimMargins function.definition = function.definition
  /-- The name is not built in. -/
  free : BuiltIn.ofName? name = none
  /-- The parameters are distinct. -/
  distinct : function.parameters.Nodup
  /-- No parameter is a built-in constant. -/
  bindable : ∀ parameter ∈ function.parameters, builtInConstant? parameter = none

namespace Context

variable (context : Context)

/-- A name is a built-in constant exactly if it has this origin. -/
theorem constantOrigin_ne_builtIn_iff (name : String) :
    context.constantOrigin name ≠ .builtIn ↔ builtInConstant? name = none := by
  unfold constantOrigin
  cases builtInConstant? name with
  | some value => simp
  | none => by_cases defined : context.constants.contains name = true <;> simp [defined]

/-- A name is a built-in function exactly if it has this origin. -/
theorem functionOrigin_ne_builtIn_iff (name : String) :
    context.functionOrigin name ≠ .builtIn ↔ BuiltIn.ofName? name = none := by
  unfold functionOrigin
  cases BuiltIn.ofName? name with
  | some function => simp
  | none => by_cases defined : context.functions.contains name = true <;> simp [defined]

/-- The arguments on the left of a definition are names with their origins in a context. -/
def Named (arguments : List Expr) (parameters : List String) : Prop :=
  List.Forall₂ (fun argument parameter => ∃ position,
    argument = .constant (context.constantOrigin parameter) parameter position) arguments parameters

/-- Names are parameters unless one is a built-in constant. -/
theorem Named.isParameter_iff {context : Context} {arguments : List Expr}
    {parameters : List String} (named : context.Named arguments parameters) :
    List.Forall₂ IsParameter arguments parameters ↔
      ∀ parameter ∈ parameters, builtInConstant? parameter = none := by
  induction named with
  | nil => simp
  | @cons argument parameter _ _ head _ ih =>
    obtain ⟨position, rfl⟩ := head
    rw [List.forall₂_cons, List.forall_mem_cons, ih, ← context.constantOrigin_ne_builtIn_iff]
    refine and_congr_left' ⟨?_, ?_⟩
    · rintro ⟨origin, place, different, same⟩
      obtain ⟨rfl, _⟩ := Expr.constant.inj same
      exact different
    · exact fun different => ⟨_, _, different, rfl⟩

/-- Names are the texts of the arguments. -/
theorem Named.map_rootText {context : Context} {arguments : List Expr} {parameters : List String}
    (named : context.Named arguments parameters) :
    arguments.map Expr.rootText = parameters := by
  induction named with
  | nil => rfl
  | cons head _ ih =>
    obtain ⟨position, rfl⟩ := head
    rw [List.map_cons, ih, Expr.rootText]

/-- A definition has a tree in every context. -/
theorem exists_tree {text name : String} {parameters : List String} {right : Expr}
    (definition : IsDefinition text name parameters right) :
    ∃ position place arguments,
      context.tree text = .ok (.binary .assign position
        (.call (context.functionOrigin name) name place arguments)
        (right.relabel (.resolve context))) ∧ context.Named arguments parameters := by
  obtain ⟨position, origin, place, arguments, read, named⟩ := definition
  refine ⟨position, place, arguments.map (Expr.relabel (.resolve context)), ?_, ?_⟩
  · refine (context.tree_eq_ok_iff ..).mpr ⟨_, read, ?_⟩
    rw [Expr.relabel, Expr.relabel, Expr.relabelAll_eq_map]
    rfl
  · unfold Named
    rw [List.forall₂_map_left_iff]
    refine named.imp ?_
    rintro argument parameter ⟨origin, position, rfl⟩
    exact ⟨position, rfl⟩

/-- What has to hold for a definition to be accepted. -/
structure Accepts (name : String) (parameters : List String) (right : Expr) : Prop where
  /-- The name is not built in. -/
  free : BuiltIn.ofName? name = none
  /-- The parameters are distinct. -/
  distinct : parameters.Nodup
  /-- No parameter is a built-in constant. -/
  bindable : ∀ parameter ∈ parameters, builtInConstant? parameter = none
  /-- The names of the right side are resolved. -/
  resolved : context.Resolved parameters right
  /-- No call of the right side leads back to the name. -/
  acyclic : ∀ callee ∈ (right.relabel (.resolve context)).callees,
    ¬ ReflTransGen context.Calls callee name

/-- A definition is entered exactly if it is accepted, and then it defines the function. -/
theorem enter_definition_iff {text name : String} {parameters : List String} {right : Expr}
    (definition : IsDefinition text name parameters right) (next : Context) (outcome : Outcome) :
    context.enter text = .ok (next, outcome) ↔
      context.Accepts name parameters right ∧ outcome = .defined ∧
        next = context.defineFunction name
          ⟨parameters, right.relabel (.resolve context), trimMargins text⟩ := by
  obtain ⟨position, place, arguments, found, named⟩ := context.exists_tree definition
  have names := named.map_rootText
  have accepted : context.check (.binary .assign position
        (.call (context.functionOrigin name) name place arguments)
        (right.relabel (.resolve context))) = .ok () ↔ context.Accepts name parameters right := by
    rw [check_function_definition_iff, functionOrigin_ne_builtIn_iff]
    constructor
    · rintro ⟨free, others, isParameter, distinct, checked, acyclic⟩
      obtain rfl : others = parameters := by rw [← names, names_of_parameters isParameter]
      exact ⟨free, distinct, named.isParameter_iff.mp isParameter,
        (checkNames_eq_ok_iff ..).mp checked, acyclic⟩
    · rintro ⟨free, distinct, bindable, resolved, acyclic⟩
      exact ⟨free, parameters, named.isParameter_iff.mpr bindable, distinct,
        (checkNames_eq_ok_iff ..).mpr resolved, acyclic⟩
  constructor
  · intro entered
    cases parsed : context.parse text with
    | error rejection =>
      rw [enter_error _ parsed] at entered
      contradiction
    | ok tree =>
      obtain ⟨same, checked⟩ := (context.parse_eq_ok_iff ..).mp parsed
      obtain rfl := Except.ok.inj (found.symm.trans same)
      rw [enter_definition _ parsed] at entered
      obtain ⟨rfl, rfl⟩ := Prod.mk.inj (Except.ok.inj entered)
      refine ⟨accepted.mp checked, rfl, ?_⟩
      rw [applyDefinition, names]
  · rintro ⟨accepts, rfl, rfl⟩
    have parsed := (context.parse_eq_ok_iff ..).mpr ⟨found, accepted.mpr accepts⟩
    rw [enter_definition _ parsed, applyDefinition, names]

/-- A text whose tree is a definition once it is labelled is a definition. -/
theorem isDefinition_of_relabel {labels : Relabelling} {text name : String} {tree right : Expr}
    {position place : Nat} {origin : Origin} {arguments : List Expr} {parameters : List String}
    (read : lineTree text = .ok tree)
    (same : tree.relabel labels =
      .binary .assign position (.call origin name place arguments) right)
    (named : List.Forall₂ (fun argument parameter => ∃ origin position,
      argument = .constant origin parameter position) arguments parameters) :
    ∃ plain, IsDefinition text name parameters plain ∧ right = plain.relabel labels := by
  cases tree with
  | binary operator _ left plain =>
    rw [Expr.relabel] at same
    obtain ⟨rfl, _, leftSame, rfl⟩ := Expr.binary.inj same
    cases left with
    | call plainOrigin plainName _ plainArguments =>
      rw [Expr.relabel, Expr.relabelAll_eq_map] at leftSame
      obtain ⟨_, rfl, _, rfl⟩ := Expr.call.inj leftSame
      refine ⟨plain, ⟨_, _, _, plainArguments, read, ?_⟩, rfl⟩
      rw [List.forall₂_map_left_iff] at named
      refine named.imp ?_
      rintro argument parameter ⟨origin, position, argumentSame⟩
      cases argument with
      | constant plainOrigin name place =>
        obtain ⟨_, rfl, _⟩ := Expr.constant.inj argumentSame
        exact ⟨plainOrigin, place, rfl⟩
      | number | call | signed | binary | value => contradiction
    | number | constant | signed | binary | value => contradiction
  | number | constant | call | signed | value => contradiction

/-- The trimmed text of a definition is the definition, further to the left. -/
theorem isDefinition_trimMargins {text name : String} {parameters : List String} {right : Expr}
    (definition : IsDefinition text name parameters right) : ∃ distance plain,
      IsDefinition (trimMargins text) name parameters plain ∧
        right = plain.relabel (.shift distance) := by
  obtain ⟨position, origin, place, arguments, read, named⟩ := definition
  obtain ⟨distance, tree, trimmedRead, same⟩ := exists_lineTree_trimMargins read
  obtain ⟨plain, trimmed, rightSame⟩ := isDefinition_of_relabel trimmedRead same.symm named
  exact ⟨distance, plain, trimmed, rightSame⟩

/-- The line that defines a function is its definition, and the function is accepted. -/
theorem Defines.exists_isDefinition {context : Context} {line name : String}
    {function : UserFunction} (defines : context.Defines line name function) :
    ∃ right, IsDefinition line name function.parameters right ∧
      function.body = right.relabel (.resolve context) ∧
      context.Accepts name function.parameters right := by
  obtain ⟨position, origin, place, arguments, parsed, parameters_eq⟩ := defines.parsed
  obtain ⟨found, accepted⟩ := (context.parse_eq_ok_iff ..).mp parsed
  obtain ⟨tree, read, same⟩ := (context.tree_eq_ok_iff ..).mp found
  obtain ⟨_, names, isParameter, _⟩ := (context.check_function_definition_iff ..).mp accepted
  rw [parameters_eq, names_of_parameters isParameter]
  have named : List.Forall₂ (fun argument parameter => ∃ origin position,
      argument = .constant origin parameter position) arguments names := by
    refine isParameter.imp ?_
    rintro argument parameter ⟨origin, position, _, rfl⟩
    exact ⟨origin, position, rfl⟩
  obtain ⟨right, definition, body⟩ := isDefinition_of_relabel read same.symm named
  have entered := context.enter_definition parsed
  exact ⟨right, definition, body, ((context.enter_definition_iff definition _ _).mp entered).1⟩

/-- An accepted definition stores a function whose text is its definition. -/
theorem Defines.stored {context : Context} {line name : String} {function : UserFunction}
    (defines : context.Defines line name function) : Stored name function := by
  obtain ⟨right, definition, body, accepts⟩ := defines.exists_isDefinition
  obtain ⟨distance, plain, trimmed, rfl⟩ := isDefinition_trimMargins definition
  refine ⟨⟨plain, ?_, ?_⟩, ?_, accepts.free, accepts.distinct, accepts.bindable⟩
  · rw [defines.text]
    exact trimmed
  · rw [body, accepts.resolved.core_eq, Expr.canonical_relabel]
  · rw [defines.text, trimMargins_trimMargins]

end Context

/-- The names of a body are resolved where those of the text are. -/
theorem resolved_right_iff (context : Context) {parameters : List String} {body right : Expr}
    (same : body.relabel (.core parameters) = right.relabel (.canonical parameters)) :
    context.Resolved parameters right ↔ context.Resolved parameters body := by
  rw [← context.resolved_relabel (.canonical parameters), ← same, context.resolved_relabel]

namespace Stored

variable {name : String} {function : UserFunction} (stored : Stored name function)
  {context : Context}

include stored

/-- The function that the text defines in a context where the names of the body are resolved is like
the stored one. -/
theorem alike_of_resolved {right : Expr}
    (body : function.body.relabel (.core function.parameters) =
      right.relabel (.canonical function.parameters))
    (resolved : context.Resolved function.parameters right) :
    function.Alike
      ⟨function.parameters, right.relabel (.resolve context), trimMargins function.definition⟩ where
  parameters := rfl
  definition := stored.trimmed.symm
  body := by rw [body, resolved.core_eq]

/-- Where the text of a stored function is accepted, it defines a function like the stored one, and
the names of the body are resolved. -/
theorem of_enter {next : Context} {outcome : Outcome}
    (entered : context.enter function.definition = .ok (next, outcome)) :
    ∃ other, function.Alike other ∧ next = context.defineFunction name other ∧
      outcome = .defined ∧ context.Resolved function.parameters function.body := by
  obtain ⟨right, definition, body⟩ := stored.text
  obtain ⟨accepts, rfl, rfl⟩ := (context.enter_definition_iff definition _ _).mp entered
  exact ⟨_, stored.alike_of_resolved body accepts.resolved, rfl, rfl,
    (resolved_right_iff context body).mp accepts.resolved⟩

/-- The text of a stored function is accepted where the names of the body are resolved and none of
its calls leads back to the name. -/
theorem enter (resolved : context.Resolved function.parameters function.body)
    (acyclic : ∀ callee ∈ function.body.callees, ¬ ReflTransGen context.Calls callee name) :
    ∃ other, function.Alike other ∧
      context.enter function.definition = .ok (context.defineFunction name other, .defined) := by
  obtain ⟨right, definition, body⟩ := stored.text
  have alsoResolved := (resolved_right_iff context body).mpr resolved
  have alike := stored.alike_of_resolved body alsoResolved
  refine ⟨_, alike, (context.enter_definition_iff definition _ _).mpr ⟨?_, rfl, rfl⟩⟩
  refine ⟨stored.free, stored.distinct, stored.bindable, alsoResolved, fun callee called => ?_⟩
  have same := alike.callees
  exact acyclic callee (same ▸ called)

/-- The names of the body have the canonical origins, up to those of parameters. -/
theorem body_eq_canonical : function.body.relabel (.core function.parameters) =
    function.body.relabel (.canonical function.parameters) := by
  obtain ⟨right, _, body⟩ := stored.text
  have again := congrArg (Expr.relabel (.canonical function.parameters)) body
  rw [Expr.canonical_relabel, Expr.canonical_relabel] at again
  rw [body, ← again]

end Stored

end Reckoner
