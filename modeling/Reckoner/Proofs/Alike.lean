import Reckoner.Proofs.Recursion
/-!
# Contexts that cannot be told apart

Two contexts are alike if they have the same constants, and functions with the same parameters, the
same definitions and bodies that differ in positions and in the origins of parameters only. A
parameter is replaced before its origin can be seen, so alike contexts accept the same lines, refuse
the others with the same reports, give the same values, and are alike again after every line.
-/

open Relation

namespace Reckoner

/-- Forget the positions, and whether a parameter was the name of a constant of the user. -/
def Relabelling.core (parameters : List String) : Relabelling where
  constant name origin := if name ∈ parameters ∧ origin = .user then .unknown else origin
  function _ origin := origin
  position _ := 0

/-- Two functions have the same parameters, the same definition, and the same body up to positions
and to the origins of parameters. -/
structure UserFunction.Alike (first second : UserFunction) : Prop where
  /-- The parameters are the same. -/
  parameters : first.parameters = second.parameters
  /-- The definitions are the same. -/
  definition : first.definition = second.definition
  /-- The bodies are the same up to positions and to the origins of parameters. -/
  body : first.body.relabel (.core first.parameters) = second.body.relabel (.core first.parameters)

/-- Two contexts have the same constants, and alike functions under the same names. -/
structure Context.Alike (first second : Context) : Prop where
  /-- The constants are the same. -/
  constants : first.constants = second.constants
  /-- The functions are alike. -/
  functions : ∀ name,
    Option.Rel UserFunction.Alike (first.functions.find? name) (second.functions.find? name)

/-- A function is like itself. -/
theorem UserFunction.Alike.refl (function : UserFunction) : function.Alike function :=
  ⟨rfl, rfl, rfl⟩

/-- Labels that keep the origins of functions keep the calls of a tree. -/
theorem Expr.callees_relabel {labels : Relabelling}
    (kept : ∀ name origin, labels.function name origin = origin) (expr : Expr) :
    (expr.relabel labels).callees = expr.callees := by
  induction expr with
  | number | constant | value => rfl
  | call origin name position arguments ih =>
    have same : calleesAll (relabelAll labels arguments) = calleesAll arguments := by
      rw [relabelAll_eq_map, calleesAll_eq_flatMap, calleesAll_eq_flatMap, List.flatMap_map,
        List.flatMap_def, List.flatMap_def, List.map_congr_left ih]
    rw [relabel, kept]
    cases origin <;> simp only [callees, same]
  | signed sign position operand ih => rw [relabel, callees, callees, ih]
  | binary operator position left right leftIh rightIh =>
    rw [relabel, callees, callees, leftIh, rightIh]

/-- Alike functions call the same functions. -/
theorem UserFunction.Alike.callees {first second : UserFunction} (alike : first.Alike second) :
    first.body.callees = second.body.callees := by
  have kept : ∀ name origin,
      (Relabelling.core first.parameters).function name origin = origin := fun _ _ => rfl
  rw [← Expr.callees_relabel kept, alike.body, Expr.callees_relabel kept]

/-- Where all parameters are replaced, their origins do not matter, nor do positions. -/
theorem Expr.evalWith_substitute_core {parameters : List String} {bindings : List (String × Expr)}
    (bound : ∀ name ∈ parameters, bindings.lookup name ≠ none)
    (constant? : String → Option Number) (userCall : String → List Number → Option Number)
    (expr : Expr) :
    ((expr.relabel (.core parameters)).substitute bindings).evalWith constant? userCall =
      (expr.substitute bindings).evalWith constant? userCall := by
  induction expr with
  | number | value => rfl
  | constant origin name position =>
    rw [relabel, substitute, substitute]
    cases found : bindings.lookup name with
    | some replacement => rfl
    | none =>
      have free : name ∉ parameters := fun member => bound name member found
      have same : (Relabelling.core parameters).constant name origin = origin :=
        if_neg fun both => free both.1
      rw [same]
      cases origin <;> rfl
  | call origin name position arguments ih =>
    have same : evalAllWith constant? userCall
          (substituteAll bindings (relabelAll (.core parameters) arguments)) =
        evalAllWith constant? userCall (substituteAll bindings arguments) := by
      rw [relabelAll_eq_map, substituteAll_eq_map, substituteAll_eq_map, List.map_map]
      exact evalAllWith_map_congr ih
    have kept : (Relabelling.core parameters).function name origin = origin := rfl
    rw [relabel, kept, substitute, substitute]
    cases origin <;> simp only [evalWith, same]
  | signed sign position operand ih => rw [relabel, substitute, substitute, evalWith, evalWith, ih]
  | binary operator position left right leftIh rightIh =>
    rw [relabel, substitute, substitute, evalWith, evalWith, leftIh, rightIh]

namespace Context.Alike

variable {first second : Context} (alike : first.Alike second)

include alike

/-- A name has no function in both, or alike ones. -/
theorem find?_cases (name : String) :
    first.functions.find? name = none ∧ second.functions.find? name = none ∨
      ∃ stored other, first.functions.find? name = some stored ∧
        second.functions.find? name = some other ∧ stored.Alike other := by
  have related := alike.functions name
  generalize first.functions.find? name = found at related
  generalize second.functions.find? name = alsoFound at related
  cases related with
  | none => exact Or.inl ⟨rfl, rfl⟩
  | some same => exact Or.inr ⟨_, _, rfl, rfl, same⟩

/-- Constants have the same values. -/
theorem constant?_eq : first.constant? = second.constant? := by
  funext name
  rw [constant?, constant?, alike.constants]

/-- Functions take as many arguments. -/
theorem arity?_eq : first.arity? = second.arity? := by
  funext name
  unfold arity?
  split
  · rfl
  · rcases alike.find?_cases name with ⟨found, also⟩ | ⟨stored, other, found, also, same⟩
    · rw [found, also]
    · rw [found, also, Option.map_some, Option.map_some, same.parameters]

/-- The same names are functions. -/
theorem contains_eq (name : String) :
    first.functions.contains name = second.functions.contains name := by
  unfold Table.contains
  rcases alike.find?_cases name with ⟨found, also⟩ | ⟨stored, other, found, also, _⟩
  · rw [found, also]
  · rw [found, also, Option.isSome_some, Option.isSome_some]

/-- Names have the same origins. -/
theorem resolve_eq : Relabelling.resolve first = Relabelling.resolve second := by
  simp only [Relabelling.resolve, constantOrigin, functionOrigin, alike.constants,
    alike.contains_eq]

/-- Functions call the same functions. -/
theorem calls_eq : first.Calls = second.Calls := by
  funext caller callee
  unfold Context.Calls Table.Calls
  rcases alike.find?_cases caller with ⟨found, also⟩ | ⟨stored, other, found, also, same⟩
  · simp [found, also]
  · simp [found, also, same.callees]

/-- Functions lead to the same functions. -/
theorem leadsTo_eq : first.leadsTo = second.leadsTo := by
  funext callee target
  rw [Bool.eq_iff_iff, leadsTo_eq_true_iff, leadsTo_eq_true_iff, alike.calls_eq]

/-- Lines have the same trees. -/
theorem tree_eq : first.tree = second.tree := by
  funext line
  rw [tree_eq_relabel, tree_eq_relabel, alike.resolve_eq]

/-- The check of the names comes to the same. -/
theorem checkNames_eq (parameters : Option (List String)) (expr : Expr) :
    first.checkNames parameters expr = second.checkNames parameters expr := by
  induction expr with
  | number | constant | value => rfl
  | call origin name position arguments ih =>
    have each : first.checkAllNames parameters arguments =
        second.checkAllNames parameters arguments := by
      clear position
      induction arguments with
      | nil => rfl
      | cons argument others othersIh =>
        rw [checkAllNames, checkAllNames, ih argument List.mem_cons_self,
          othersIh fun other member => ih other (List.mem_cons_of_mem _ member)]
    rw [checkNames, checkNames, each]
    simp only [checkCall, alike.arity?_eq]
  | signed sign position operand ih => exact ih
  | binary operator position left right leftIh rightIh =>
    rw [checkNames, checkNames, leftIh, rightIh]

/-- The search for calls that lead to a name comes to the same. -/
theorem firstCallTo?_eq (target : String) (expr : Expr) :
    first.firstCallTo? target expr = second.firstCallTo? target expr := by
  induction expr with
  | number | constant | value => rfl
  | call origin name position arguments ih =>
    have each : first.firstCallAmong? target arguments =
        second.firstCallAmong? target arguments := by
      clear position
      induction arguments with
      | nil => rfl
      | cons argument others othersIh =>
        rw [firstCallAmong?, firstCallAmong?, ih argument List.mem_cons_self,
          othersIh fun other member => ih other (List.mem_cons_of_mem _ member)]
    rw [firstCallTo?, firstCallTo?, each, alike.leadsTo_eq]
  | signed sign position operand ih => exact ih
  | binary operator position left right leftIh rightIh =>
    rw [firstCallTo?, firstCallTo?, leftIh, rightIh]

/-- The check of a tree comes to the same. -/
theorem check_eq : first.check = second.check := by
  funext expr
  unfold check checkDefinition
  simp only [alike.checkNames_eq, alike.firstCallTo?_eq]

/-- Lines are parsed alike. -/
theorem parse_eq : first.parse = second.parse := by
  funext line
  rw [Context.parse_eq, Context.parse_eq, alike.tree_eq, alike.check_eq]

/-- An evaluation that unfolds the calls of a context unfolds those of an alike one. -/
theorem unfolds {evaluation : Expr → Option Number} (unfolds : first.Unfolds evaluation) :
    second.Unfolds evaluation := by
  intro expr
  have expanded : (fun name (values : List Number) =>
        (first.expand? name (values.map .value)).bind evaluation) =
      fun name values => (second.expand? name (values.map .value)).bind evaluation := by
    funext name values
    unfold expand?
    rcases alike.find?_cases name with ⟨found, also⟩ | ⟨stored, other, found, also, same⟩
    · rw [found, also]
    · simp only [found, also, ← same.parameters]
      split
      · next fits =>
        have bound : ∀ name ∈ stored.parameters,
            (stored.parameters.zip (values.map Expr.value)).lookup name ≠ none :=
          fun name member missing => (lookup_zip_eq_none_iff fits name).mp missing member
        show evaluation _ = evaluation _
        rw [unfolds, unfolds, ← Expr.evalWith_substitute_core bound, same.body,
          Expr.evalWith_substitute_core bound]
      · rfl
  rw [unfolds expr, expanded, alike.constant?_eq]

/-- Without cycles, trees have the same values. -/
theorem evaluate_eq (acyclic : first.functions.Acyclic) : first.evaluate = second.evaluate := by
  have alsoAcyclic : second.functions.Acyclic := by
    intro name
    have same : second.functions.Calls = first.functions.Calls := alike.calls_eq.symm
    rw [same]
    exact acyclic name
  have same := (alike.unfolds (unfolds_eval? acyclic)).eq alsoAcyclic (unfolds_eval? alsoAcyclic)
  funext expr
  rw [evaluate, evaluate, same]

/-- A constant that gets a value in both keeps them alike. -/
theorem defineConstant (name : String) (value : Number) :
    (first.defineConstant name value).Alike (second.defineConstant name value) where
  constants := congrArg (fun constants : Table Number => constants.insert name value)
    alike.constants
  functions other := by
    simp only [Context.defineConstant, Table.find?_erase]
    split
    · exact .none
    · exact alike.functions other

/-- A function that is defined in both keeps them alike. -/
theorem defineFunction (name : String) (function : UserFunction) :
    (first.defineFunction name function).Alike (second.defineFunction name function) where
  constants := congrArg (fun constants : Table Number => constants.erase name) alike.constants
  functions other := by
    simp only [Context.defineFunction, Table.find?_insert]
    split
    · exact .some (.refl function)
    · exact alike.functions other

end Context.Alike

/-- Two results of a line are the same refusal, or the same outcome with alike contexts. -/
inductive Context.SameReply :
    Except Rejection (Context × Outcome) → Except Rejection (Context × Outcome) → Prop
  /-- Both refuse the line alike. -/
  | refused (rejection : Rejection) : SameReply (.error rejection) (.error rejection)
  /-- Both come to the same. -/
  | accepted {first second : Context} (outcome : Outcome) (alike : first.Alike second) :
    SameReply (.ok (first, outcome)) (.ok (second, outcome))

namespace Context

/-- Alike contexts answer a line alike. -/
theorem Alike.sameReply {first second : Context} (alike : first.Alike second)
    (acyclic : first.functions.Acyclic) (line : String) :
    SameReply (first.enter line) (second.enter line) := by
  have same := alike.evaluate_eq acyclic
  cases parsed : first.parse line with
  | error rejection =>
    rw [enter_error _ parsed, enter_error _ (alike.parse_eq ▸ parsed)]
    exact .refused rejection
  | ok tree =>
    have alsoParsed : second.parse line = .ok tree := alike.parse_eq ▸ parsed
    by_cases plain : IsExpression tree
    · rw [enter_expression _ parsed plain, enter_expression _ alsoParsed plain, ← same]
      refine .accepted _ ?_
      rw [keepAnswer, keepAnswer, alike.contains_eq]
      split
      · exact alike
      · exact alike.defineConstant _ _
    · obtain ⟨position, left, right, rfl⟩ : ∃ position left right,
          tree = .binary .assign position left right := by
        simpa [IsExpression] using plain
      rw [enter_definition _ parsed, enter_definition _ alsoParsed]
      refine .accepted _ ?_
      unfold applyDefinition
      rw [← same]
      split
      · exact alike.defineConstant _ _
      · exact alike.defineFunction _ _
      · exact alike

/-- The replies of a context to lines that are entered one after the other. -/
def replies (context : Context) : List String → List (Except Rejection Outcome)
  | [] => []
  | line :: others =>
    match context.enter line with
    | .ok (next, outcome) => .ok outcome :: replies next others
    | .error rejection => .error rejection :: replies context others

/-- Alike contexts cannot be told apart by lines. -/
theorem Alike.replies_eq {first second : Context} (alike : first.Alike second)
    (acyclic : first.functions.Acyclic) (lines : List String) :
    first.replies lines = second.replies lines := by
  induction lines generalizing first second with
  | nil => rfl
  | cons line others ih =>
    have reply := alike.sameReply acyclic line
    rw [replies, replies]
    cases entered : first.enter line with
    | error rejection =>
      rw [entered] at reply
      generalize second.enter line = result at reply
      cases reply
      exact congrArg _ (ih alike acyclic)
    | ok result =>
      have kept := kept_acyclic.enter acyclic entered
      rw [entered] at reply
      generalize second.enter line = result at reply
      cases reply with
      | accepted outcome next => exact congrArg _ (ih next kept)

end Context

end Reckoner
