import Reckoner.Proofs.Evaluation
import Reckoner.Proofs.WellFormed
/-!
# Symbols

The symbols of a tree are the constants and functions that it names. The check and the value of a
tree look up its symbols and those of the stored bodies that its calls lead to, and nothing else of
a context. The name of a parameter is no symbol of a body, since no constant is looked up under it.
-/

open Relation

namespace Reckoner

/-- What a name can stand for: a constant or a function. -/
inductive Symbol where
  /-- The constant of a name. -/
  | constant (name : String)
  /-- The function of a name. -/
  | function (name : String)
  deriving DecidableEq, Repr

/-- The name of a symbol. -/
def Symbol.name : Symbol → String
  | constant name => name
  | function name => name

namespace Expr

/-- The symbol at the root of a tree, unless it is a parameter. -/
def rootSymbol? (parameters : List String) : Expr → Option Symbol
  | constant _ name _ => if name ∈ parameters then none else some (.constant name)
  | call _ name _ _ => some (.function name)
  | _ => none

/-- The symbols of a tree. -/
def symbols (parameters : List String) (expr : Expr) : List Symbol :=
  expr.nodes.filterMap (rootSymbol? parameters)

/-- The symbols that the tree of a line mentions. The parameters of a definition are none. -/
def mentions : Expr → List Symbol
  | binary .assign _ (call _ name _ arguments) right =>
    .function name :: right.symbols (arguments.map rootText)
  | expr => expr.symbols []

/-- The symbols of a tree are all among some. -/
def Within (seen : Symbol → Prop) (parameters : List String) (expr : Expr) : Prop :=
  ∀ symbol ∈ expr.symbols parameters, seen symbol

variable (seen : Symbol → Prop) (parameters : List String)

/-- The symbols of a tree are those at its nodes. -/
theorem within_iff (expr : Expr) : expr.Within seen parameters ↔
    ∀ node ∈ expr.nodes, ∀ symbol ∈ node.rootSymbol? parameters, seen symbol := by
  simp only [Within, symbols, List.mem_filterMap, Option.mem_def]
  constructor
  · intro within node member symbol root
    exact within symbol ⟨node, member, root⟩
  · rintro within symbol ⟨node, member, root⟩
    exact within node member symbol root

/-- A constant has its symbol if it is no parameter. -/
theorem within_constant_iff (origin : Origin) (name : String) (position : Nat) :
    (constant origin name position).Within seen parameters ↔
      (name ∉ parameters → seen (.constant name)) := by
  rw [within_iff, nodes, List.forall_mem_singleton, rootSymbol?]
  by_cases member : name ∈ parameters
  · simp [member]
  · simp [member]

/-- A call has the symbols of its arguments and its own. -/
theorem within_call_iff (origin : Origin) (name : String) (position : Nat)
    (arguments : List Expr) :
    (call origin name position arguments).Within seen parameters ↔
      seen (.function name) ∧ ∀ argument ∈ arguments, argument.Within seen parameters := by
  simp only [within_iff]
  rw [nodes, List.forall_mem_cons, nodesAll_eq_flatMap, List.forall_mem_flatMap]
  refine and_congr_left' ?_
  simp only [rootSymbol?, Option.mem_def, Option.some.injEq, forall_eq']

/-- A sign has no symbols. -/
theorem within_signed_iff (sign : Sign) (position : Nat) (operand : Expr) :
    (signed sign position operand).Within seen parameters ↔ operand.Within seen parameters := by
  simp only [within_iff]
  rw [nodes, List.forall_mem_cons]
  exact and_iff_right fun _ member => absurd member (Option.not_mem_none _)

/-- Two operands have the symbols of both. -/
theorem within_binary_iff (operator : Operator) (position : Nat) (left right : Expr) :
    (binary operator position left right).Within seen parameters ↔
      left.Within seen parameters ∧ right.Within seen parameters := by
  simp only [within_iff]
  rw [nodes, List.forall_mem_cons, List.forall_mem_append]
  exact and_iff_right fun _ member => absurd member (Option.not_mem_none _)

/-- Labels are no symbols. -/
theorem within_relabel_iff (labels : Relabelling) (expr : Expr) :
    (expr.relabel labels).Within seen parameters ↔ expr.Within seen parameters := by
  induction expr with
  | number | value => exact Iff.rfl
  | constant => rw [relabel, within_constant_iff, within_constant_iff]
  | call origin name position arguments ih =>
    rw [relabel, relabelAll_eq_map, within_call_iff, within_call_iff, List.forall_mem_map,
      forall₂_congr ih]
  | signed sign position operand ih => rw [relabel, within_signed_iff, within_signed_iff, ih]
  | binary operator position left right leftIh rightIh =>
    rw [relabel, within_binary_iff, within_binary_iff, leftIh, rightIh]

/-- What a tree calls are symbols of it. -/
theorem Within.function {seen : Symbol → Prop} {parameters : List String} {expr : Expr}
    (within : expr.Within seen parameters) {callee : String} (called : callee ∈ expr.callees) :
    seen (.function callee) := by
  obtain ⟨position, arguments, member⟩ := (mem_callees_iff ..).mp called
  exact (within_iff ..).mp within _ member _ rfl

end Expr

/-- Two functions have the same parameters, and the same body up to positions and to the origins of
parameters. -/
structure UserFunction.SameBody (first second : UserFunction) : Prop where
  /-- The parameters are the same. -/
  parameters : first.parameters = second.parameters
  /-- The bodies are the same. -/
  body : first.body.relabel (.core first.parameters) = second.body.relabel (.core first.parameters)

/-- Functions with the same body call the same functions. -/
theorem UserFunction.SameBody.callees {first second : UserFunction}
    (same : first.SameBody second) : first.body.callees = second.body.callees := by
  have kept : ∀ name origin,
      (Relabelling.core first.parameters).function name origin = origin := fun _ _ => rfl
  rw [← Expr.callees_relabel kept, same.body, Expr.callees_relabel kept]

/-- Two contexts agree on a symbol: the constant has the same value or none in both, the function
has the same parameters and the same body or is defined in neither. -/
def Symbol.Agrees (first second : Context) : Symbol → Prop
  | constant name => first.constant? name = second.constant? name
  | function name =>
    Option.Rel UserFunction.SameBody (first.functions.find? name) (second.functions.find? name)

namespace Symbol.Agrees

variable {first second : Context} {name : String}

/-- The constant has the same origin. -/
theorem constantOrigin_eq (agrees : (constant name).Agrees first second) :
    first.constantOrigin name = second.constantOrigin name := by
  have value : first.constant? name = second.constant? name := agrees
  unfold Context.constant? at value
  unfold Context.constantOrigin Table.contains
  cases builtIn : builtInConstant? name with
  | some known => rfl
  | none =>
    simp only [builtIn, Option.none_or] at value
    rw [value]

/-- The function is defined in neither context, or with the same body in both. -/
theorem find?_cases (agrees : (function name).Agrees first second) :
    first.functions.find? name = none ∧ second.functions.find? name = none ∨
      ∃ stored other, first.functions.find? name = some stored ∧
        second.functions.find? name = some other ∧ stored.SameBody other := by
  have related : Option.Rel UserFunction.SameBody _ _ := agrees
  generalize first.functions.find? name = found at related
  generalize second.functions.find? name = alsoFound at related
  cases related with
  | none => exact Or.inl ⟨rfl, rfl⟩
  | some same => exact Or.inr ⟨_, _, rfl, rfl, same⟩

/-- The function takes as many arguments. -/
theorem arity?_eq (agrees : (function name).Agrees first second) :
    first.arity? name = second.arity? name := by
  unfold Context.arity?
  rcases agrees.find?_cases with ⟨found, also⟩ | ⟨stored, other, found, also, same⟩
  · rw [found, also]
  · rw [found, also, Option.map_some, Option.map_some, same.parameters]

/-- The function has the same origin. -/
theorem functionOrigin_eq (agrees : (function name).Agrees first second) :
    first.functionOrigin name = second.functionOrigin name := by
  unfold Context.functionOrigin Table.contains
  rcases agrees.find?_cases with ⟨found, also⟩ | ⟨stored, other, found, also, _⟩
  · rw [found, also]
  · rw [found, also, Option.isSome_some, Option.isSome_some]

/-- The function calls the same functions. -/
theorem calls_iff (agrees : (function name).Agrees first second) (callee : String) :
    first.Calls name callee ↔ second.Calls name callee := by
  unfold Context.Calls Table.Calls
  rcases agrees.find?_cases with ⟨found, also⟩ | ⟨stored, other, found, also, same⟩
  · simp [found, also]
  · simp [found, also, same.callees]

end Symbol.Agrees

/-- Two contexts agree on some symbols, and the stored bodies of the functions among them have no
others. -/
structure Context.AgreeOn (first second : Context) (seen : Symbol → Prop) : Prop where
  /-- The contexts agree on the symbols. -/
  agree : ∀ symbol, seen symbol → symbol.Agrees first second
  /-- Stored bodies lead to no other symbols. -/
  closed : ∀ name function, seen (.function name) →
    first.functions.find? name = some function → function.body.Within seen function.parameters

/-- A call has the origin that the name of its function has in the context. -/
theorem Context.relabel_call (context : Context) (origin : Origin) (name : String) (position : Nat)
    (arguments : List Expr) :
    (Expr.call origin name position arguments).relabel (.resolve context) =
      .call (context.functionOrigin name) name position
        (arguments.map (Expr.relabel (.resolve context))) := by
  rw [Expr.relabel, Expr.relabelAll_eq_map]
  rfl

/-- A text of a tree is no label. -/
theorem Expr.rootText_relabel (labels : Relabelling) (expr : Expr) :
    (expr.relabel labels).rootText = expr.rootText := by
  cases expr <;> rfl

/-- The texts of several trees are no labels. -/
theorem Expr.map_rootText_relabel (labels : Relabelling) (arguments : List Expr) :
    (arguments.map (relabel labels)).map rootText = arguments.map rootText := by
  rw [List.map_map]
  exact List.map_congr_left fun argument _ => rootText_relabel labels argument

/-- An expression mentions all its symbols. -/
theorem Expr.mentions_of_expression {expr : Expr} (expression : Context.IsExpression expr) :
    expr.mentions = expr.symbols [] := by
  unfold mentions
  split
  · exact absurd rfl (expression _ _ _)
  · rfl

/-- What a parameter is called does not depend on the context. -/
theorem Context.parameterName_resolve (first second : Context) (expr : Expr) :
    parameterName (expr.relabel (.resolve first)) =
      parameterName (expr.relabel (.resolve second)) := by
  cases expr with
  | constant origin name position =>
    simp only [Expr.relabel, Relabelling.resolve, constantOrigin]
    by_cases builtIn : (builtInConstant? name).isSome = true
    · simp only [builtIn, if_true]
    · simp only [builtIn]
      cases first.constants.contains name <;> cases second.constants.contains name <;> rfl
  | number | call | signed | binary | value => rfl

/-- What the parameters of a definition are called does not depend on the context. -/
theorem Context.parameterNames_resolve (first second : Context) (arguments : List Expr) :
    parameterNames (arguments.map (Expr.relabel (.resolve first))) =
      parameterNames (arguments.map (Expr.relabel (.resolve second))) := by
  have each : (arguments.map (Expr.relabel (.resolve first))).mapM parameterName =
      (arguments.map (Expr.relabel (.resolve second))).mapM parameterName := by
    induction arguments with
    | nil => rfl
    | cons argument others ih =>
      rw [List.map_cons, List.map_cons, List.mapM_cons, List.mapM_cons, ih,
        parameterName_resolve first second]
  rw [parameterNames, parameterNames, each]

/-- Parameters are called by their texts. -/
theorem Context.texts_of_parameterNames {labels : Relabelling} {arguments : List Expr}
    {names : List String}
    (named : parameterNames (arguments.map (Expr.relabel labels)) = .ok names) :
    arguments.map Expr.rootText = names := by
  have parameters := names_of_parameters ((parameterNames_eq_ok_iff ..).mp named).1
  rwa [Expr.map_rootText_relabel] at parameters

namespace Context.AgreeOn

variable {first second : Context} {seen : Symbol → Prop} (agree : first.AgreeOn second seen)

include agree

/-- A tree of such symbols has the same origins in both contexts, if the parameters have. -/
theorem relabel_resolve_eq {parameters : List String} {expr : Expr}
    (within : expr.Within seen parameters)
    (bound : ∀ parameter ∈ parameters,
      first.constantOrigin parameter = second.constantOrigin parameter) :
    expr.relabel (.resolve first) = expr.relabel (.resolve second) := by
  induction expr with
  | number | value => rfl
  | constant origin name position =>
    have label : first.constantOrigin name = second.constantOrigin name := by
      by_cases member : name ∈ parameters
      · exact bound name member
      · have mentioned := (Expr.within_constant_iff ..).mp within member
        exact (agree.agree _ mentioned).constantOrigin_eq
    exact congrArg (Expr.constant · name position) label
  | call origin name position arguments ih =>
    obtain ⟨mentioned, parts⟩ := (Expr.within_call_iff ..).mp within
    have label := (agree.agree _ mentioned).functionOrigin_eq
    have each : arguments.map (Expr.relabel (.resolve first)) =
        arguments.map (Expr.relabel (.resolve second)) :=
      List.map_congr_left fun argument member => ih argument member (parts argument member)
    rw [relabel_call, relabel_call, each, label]
  | signed sign position operand ih =>
    rw [Expr.relabel, Expr.relabel, ih ((Expr.within_signed_iff ..).mp within)]
    rfl
  | binary operator position left right leftIh rightIh =>
    obtain ⟨before, after⟩ := (Expr.within_binary_iff ..).mp within
    rw [Expr.relabel, Expr.relabel, leftIh before, rightIh after]
    rfl

/-- The check of the names of such a tree comes to the same. -/
theorem checkNames_eq (parameters : Option (List String)) {expr : Expr}
    (within : expr.Within seen (parameters.getD [])) :
    first.checkNames parameters (expr.relabel (.resolve first)) =
      second.checkNames parameters (expr.relabel (.resolve second)) := by
  induction expr with
  | number | value => rfl
  | constant origin name position =>
    show checkConstant parameters (first.constantOrigin name) name position =
      checkConstant parameters (second.constantOrigin name) name position
    by_cases member : name ∈ parameters.getD []
    · have passes (context : Context) :
          checkConstant parameters (context.constantOrigin name) name position = .ok () :=
        (context.checkConstant_eq_ok_iff ..).mpr (Or.inl member)
      rw [passes, passes]
    · have mentioned := (Expr.within_constant_iff ..).mp within member
      rw [(agree.agree _ mentioned).constantOrigin_eq]
  | call origin name position arguments ih =>
    obtain ⟨mentioned, parts⟩ := (Expr.within_call_iff ..).mp within
    have agrees := agree.agree _ mentioned
    have each : first.checkAllNames parameters
          (arguments.map (Expr.relabel (.resolve first))) =
        second.checkAllNames parameters (arguments.map (Expr.relabel (.resolve second))) := by
      clear position within
      induction arguments with
      | nil => rfl
      | cons argument others othersIh =>
        rw [List.map_cons, List.map_cons, checkAllNames, checkAllNames,
          ih argument List.mem_cons_self (parts argument List.mem_cons_self),
          othersIh (fun other member => ih other (List.mem_cons_of_mem _ member))
            fun other member => parts other (List.mem_cons_of_mem _ member)]
    rw [relabel_call, relabel_call, checkNames, checkNames, each, List.length_map, List.length_map,
      agrees.functionOrigin_eq]
    simp only [checkCall, agrees.arity?_eq]
  | signed sign position operand ih => exact ih ((Expr.within_signed_iff ..).mp within)
  | binary operator position left right leftIh rightIh =>
    obtain ⟨before, after⟩ := (Expr.within_binary_iff ..).mp within
    rw [Expr.relabel, Expr.relabel, checkNames, checkNames, leftIh before, rightIh after]
    rfl

/-- A path of calls from such a function passes such functions only. -/
theorem path_iff {start target : String} (mentioned : seen (.function start)) :
    ReflTransGen first.Calls start target ↔ ReflTransGen second.Calls start target := by
  have step {caller callee : String} (at_ : seen (.function caller))
      (call : first.Calls caller callee) : seen (.function callee) := by
    obtain ⟨function, found, called⟩ := call
    exact (agree.closed caller function at_ found).function called
  constructor
  · intro path
    induction path using ReflTransGen.head_induction_on with
    | refl => exact .refl
    | @head caller callee call _ ih =>
      exact (ih (step mentioned call)).head
        (((agree.agree _ mentioned).calls_iff callee).mp call)
  · intro path
    induction path using ReflTransGen.head_induction_on with
    | refl => exact .refl
    | @head caller callee call _ ih =>
      have alsoCall := ((agree.agree _ mentioned).calls_iff callee).mpr call
      exact (ih (step mentioned alsoCall)).head alsoCall

/-- The search for calls that lead to a name comes to the same. -/
theorem firstCallTo?_eq (target : String) {parameters : List String} {expr : Expr}
    (within : expr.Within seen parameters) :
    first.firstCallTo? target (expr.relabel (.resolve first)) =
      second.firstCallTo? target (expr.relabel (.resolve second)) := by
  induction expr with
  | number | constant | value => rfl
  | call origin name position arguments ih =>
    obtain ⟨mentioned, parts⟩ := (Expr.within_call_iff ..).mp within
    have leads : first.leadsTo name target = second.leadsTo name target := by
      rw [Bool.eq_iff_iff, leadsTo_eq_true_iff, leadsTo_eq_true_iff, agree.path_iff mentioned]
    have each : first.firstCallAmong? target (arguments.map (Expr.relabel (.resolve first))) =
        second.firstCallAmong? target (arguments.map (Expr.relabel (.resolve second))) := by
      clear position within
      induction arguments with
      | nil => rfl
      | cons argument others othersIh =>
        rw [List.map_cons, List.map_cons, firstCallAmong?, firstCallAmong?,
          ih argument List.mem_cons_self (parts argument List.mem_cons_self),
          othersIh (fun other member => ih other (List.mem_cons_of_mem _ member))
            fun other member => parts other (List.mem_cons_of_mem _ member)]
    have label := (agree.agree _ mentioned).functionOrigin_eq
    rw [relabel_call, relabel_call, firstCallTo?, firstCallTo?, each, leads, label]
  | signed sign position operand ih => exact ih ((Expr.within_signed_iff ..).mp within)
  | binary operator position left right leftIh rightIh =>
    obtain ⟨before, after⟩ := (Expr.within_binary_iff ..).mp within
    rw [Expr.relabel, Expr.relabel, firstCallTo?, firstCallTo?, leftIh before, rightIh after]

/-- The check of a tree comes to the same. -/
theorem check_eq {plain : Expr} (mentioned : ∀ symbol ∈ plain.mentions, seen symbol) :
    first.check (plain.relabel (.resolve first)) =
      second.check (plain.relabel (.resolve second)) := by
  by_cases expression : IsExpression plain
  · rw [Expr.mentions_of_expression expression] at mentioned
    rw [check_expression ((isExpression_relabel_iff ..).mpr expression),
      check_expression ((isExpression_relabel_iff ..).mpr expression)]
    exact agree.checkNames_eq none mentioned
  · obtain ⟨position, left, right, rfl⟩ : ∃ position left right,
        plain = .binary .assign position left right := by
      simpa [IsExpression] using expression
    cases left with
    | constant origin name place =>
      obtain ⟨target, within⟩ := (Expr.within_binary_iff ..).mp mentioned
      have free := (Expr.within_constant_iff ..).mp target List.not_mem_nil
      have label := (agree.agree _ free).constantOrigin_eq
      have checked := agree.checkNames_eq (some []) within
      simp only [Expr.relabel, Relabelling.resolve, check, checkDefinition, label]
      cases second.constantOrigin name with
      | builtIn => rfl
      | user | unknown => exact checked
    | call origin name place arguments =>
      obtain ⟨target, within⟩ := List.forall_mem_cons.mp mentioned
      have label := (agree.agree _ target).functionOrigin_eq
      have named := parameterNames_resolve first second arguments
      show first.check (.binary .assign position (Expr.relabel _ (.call ..)) _) =
        second.check (.binary .assign position (Expr.relabel _ (.call ..)) _)
      rw [relabel_call, relabel_call, label, check, check]
      cases second.functionOrigin name with
      | builtIn => rfl
      | user | unknown =>
        simp only [checkDefinition, named]
        cases found : parameterNames (arguments.map (Expr.relabel (.resolve second))) with
        | error diagnosis => rfl
        | ok names =>
          obtain rfl := texts_of_parameterNames found
          have checked := agree.checkNames_eq (some _) within
          have searched := agree.firstCallTo?_eq name within
          show (first.checkNames _ _ >>= fun _ => _) = (second.checkNames _ _ >>= fun _ => _)
          rw [checked, searched]
    | binary operator place => cases operator <;> rfl
    | number | signed | value => rfl

/-- The expansion of a function with values comes to the same if the stored body does. -/
theorem expand?_bind_eval?_eq {name : String} (mentioned : seen (.function name))
    (values : List Number)
    (body : ∀ function, first.functions.find? name = some function →
      function.parameters.length = values.length →
      first.eval? (function.body.substitute (function.parameters.zip (values.map .value))) =
        second.eval? (function.body.substitute (function.parameters.zip (values.map .value)))) :
    (first.expand? name (values.map .value)).bind first.eval? =
      (second.expand? name (values.map .value)).bind second.eval? := by
  unfold expand?
  rcases (agree.agree _ mentioned).find?_cases with
    ⟨found, also⟩ | ⟨stored, other, found, also, same⟩
  · rw [found, also]
    rfl
  · simp only [found, also, ← same.parameters, List.length_map]
    split
    · next fits =>
      have bound : ∀ name ∈ stored.parameters,
          (stored.parameters.zip (values.map Expr.value)).lookup name ≠ none :=
        fun name member missing =>
          (lookup_zip_eq_none_iff (by rwa [List.length_map]) name).mp missing member
      have core := Expr.evalWith_substitute_core bound second.constant?
        (second.callWithin second.functions.size)
      calc first.eval? (stored.body.substitute _)
          = second.eval? (stored.body.substitute _) := body stored found fits
        _ = second.eval? (other.body.substitute _) := by
          unfold eval?
          rw [← core, same.body, core]
    · rfl

/-- Such a tree has the same value in both contexts, with the same values for its parameters. -/
theorem eval?_substitute_eq (acyclic : first.functions.Acyclic)
    (alsoAcyclic : second.functions.Acyclic) (expr : Expr) :
    ∀ {parameters : List String} {values : List Number}, parameters.length = values.length →
      expr.Within seen parameters →
      first.eval? (expr.substitute (parameters.zip (values.map .value))) =
        second.eval? (expr.substitute (parameters.zip (values.map .value))) := by
  -- The body of a called function has parameters of its own, so they are not fixed.
  induction expr using evaluationInduction acyclic with
  | number | value => exact fun _ _ => rfl
  | constant origin name position =>
    intro parameters values fits within
    have count : parameters.length = (values.map Expr.value).length := by
      rw [List.length_map, fits]
    rw [Expr.substitute]
    cases found : (parameters.zip (values.map Expr.value)).lookup name with
    | some bound =>
      rw [lookup_zip_map] at found
      obtain ⟨value, _, rfl⟩ := Option.map_eq_some_iff.mp found
      rfl
    | none =>
      have free := (lookup_zip_eq_none_iff count name).mp found
      have agrees := agree.agree _ ((Expr.within_constant_iff ..).mp within free)
      have value : first.constant? name = second.constant? name := agrees
      cases origin with
      | unknown => rfl
      | builtIn | user => exact value
  | call origin name position arguments ih bodyIh =>
    intro parameters values fits within
    obtain ⟨mentioned, parts⟩ := (Expr.within_call_iff ..).mp within
    have each : Expr.evalAllWith first.constant? (first.callWithin first.functions.size)
          (arguments.map (Expr.substitute (parameters.zip (values.map .value)))) =
        Expr.evalAllWith second.constant? (second.callWithin second.functions.size)
          (arguments.map (Expr.substitute (parameters.zip (values.map .value)))) := by
      apply Expr.evalAllWith_congr
      rw [List.forall_mem_map]
      exact fun argument member => ih argument member fits (parts argument member)
    rw [Expr.substitute, Expr.substituteAll_eq_map]
    unfold eval?
    cases origin with
    | unknown => rfl
    | builtIn => rw [Expr.evalWith, Expr.evalWith, each]
    | user =>
      rw [Expr.evalWith, Expr.evalWith, each]
      apply Option.bind_congr
      intro results _
      rw [callWithin_size_eq acyclic, callWithin_size_eq alsoAcyclic]
      apply agree.expand?_bind_eval?_eq mentioned
      intro function found count
      exact bodyIh function rfl found count (agree.closed name function mentioned found)
  | signed sign position operand ih =>
    intro parameters values fits within
    have same := ih fits ((Expr.within_signed_iff ..).mp within)
    unfold eval? at same ⊢
    rw [Expr.substitute, Expr.evalWith, Expr.evalWith, same]
  | binary operator position left right leftIh rightIh =>
    intro parameters values fits within
    obtain ⟨before, after⟩ := (Expr.within_binary_iff ..).mp within
    have sameLeft := leftIh fits before
    have sameRight := rightIh fits after
    unfold eval? at sameLeft sameRight ⊢
    rw [Expr.substitute, Expr.evalWith, Expr.evalWith, sameLeft, sameRight]

/-- Such an expression has the same value in both contexts. -/
theorem evaluate_eq (acyclic : first.functions.Acyclic) (alsoAcyclic : second.functions.Acyclic)
    {expr : Expr} (within : expr.Within seen []) : first.evaluate expr = second.evaluate expr := by
  have sameLength : ([] : List String).length = ([] : List Number).length := rfl
  have same := agree.eval?_substitute_eq acyclic alsoAcyclic expr sameLength within
  rw [List.zip_nil_left, Expr.substitute_nil] at same
  rw [evaluate, evaluate, same]

end Context.AgreeOn

end Reckoner
