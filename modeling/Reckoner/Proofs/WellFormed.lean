import Reckoner.Proofs.Origins
/-!
# Well-formed trees

The check of a line goes through its tree in the order of the line and stops at the first offence.
Here the trees without an offence are described node by node, in no order: an expression has no
assignment, no unknown name and no call with the wrong number of arguments. A definition has an
expression on its right side, which may use the parameters too, and a function is not defined by way
of itself. The check accepts exactly these trees.
-/

open Relation

namespace Reckoner

namespace Expr

mutual

/-- The nodes of a tree, its root first. -/
def nodes : Expr → List Expr
  | call origin name position arguments =>
    call origin name position arguments :: nodesAll arguments
  | signed sign position operand => signed sign position operand :: nodes operand
  | binary operator position left right =>
    binary operator position left right :: (nodes left ++ nodes right)
  | number spelling imaginary position => [number spelling imaginary position]
  | constant origin name position => [constant origin name position]
  | value known => [value known]

/-- The nodes of several trees. -/
def nodesAll : List Expr → List Expr
  | [] => []
  | first :: others => nodes first ++ nodesAll others

end

/-- The nodes of several trees are those of each of them. -/
theorem nodesAll_eq_flatMap (arguments : List Expr) :
    nodesAll arguments = arguments.flatMap nodes := by
  induction arguments with
  | nil => rfl
  | cons first others ih => rw [nodesAll, ih, List.flatMap_cons]

/-- What the parts of a tree have whenever the tree has it, every node of a tree has that has it. -/
theorem of_mem_nodes {property : Expr → Prop}
    (call : ∀ origin name position arguments, property (call origin name position arguments) →
      ∀ argument ∈ arguments, property argument)
    (signed : ∀ sign position operand, property (signed sign position operand) → property operand)
    (binary : ∀ operator position left right, property (binary operator position left right) →
      property left ∧ property right)
    {expr : Expr} (holds : property expr) : ∀ node ∈ expr.nodes, property node := by
  induction expr with
  | number | constant | value => exact List.forall_mem_singleton.mpr holds
  | call origin name position arguments ih =>
    rw [nodes, List.forall_mem_cons, nodesAll_eq_flatMap, List.forall_mem_flatMap]
    exact ⟨holds, fun argument member =>
      ih argument member (call origin name position arguments holds argument member)⟩
  | signed sign position operand ih =>
    rw [nodes, List.forall_mem_cons]
    exact ⟨holds, ih (signed sign position operand holds)⟩
  | binary operator position left right leftIh rightIh =>
    obtain ⟨first, second⟩ := binary operator position left right holds
    rw [nodes, List.forall_mem_cons, List.forall_mem_append]
    exact ⟨holds, leftIh first, rightIh second⟩

/-- A user function is called in a tree exactly if one of the nodes calls it. -/
theorem mem_callees_iff (callee : String) (expr : Expr) :
    callee ∈ expr.callees ↔
      ∃ position arguments, .call .user callee position arguments ∈ expr.nodes := by
  induction expr with
  | number | constant | value => simp [callees, nodes]
  | call origin name position arguments ih =>
    have among : callee ∈ calleesAll arguments ↔
        ∃ position inner, .call .user callee position inner ∈ nodesAll arguments := by
      simp only [calleesAll_eq_flatMap, nodesAll_eq_flatMap, List.mem_flatMap]
      constructor
      · rintro ⟨argument, member, called⟩
        obtain ⟨place, inner, found⟩ := (ih argument member).mp called
        exact ⟨place, inner, argument, member, found⟩
      · rintro ⟨place, inner, argument, member, found⟩
        exact ⟨argument, member, (ih argument member).mpr ⟨place, inner, found⟩⟩
    cases origin with
    | user =>
      simp only [callees, nodes, List.mem_cons, among, call.injEq, true_and, exists_or]
      simp
    | builtIn | unknown => simp [callees, nodes, among]
  | signed sign position operand ih => simp [callees, nodes, ih]
  | binary operator position left right leftIh rightIh =>
    simp [callees, nodes, leftIh, rightIh, exists_or]

/-- The nodes of a tree with new labels are its nodes with new labels. -/
theorem nodes_relabel (labels : Relabelling) (expr : Expr) :
    (expr.relabel labels).nodes = expr.nodes.map (relabel labels) := by
  induction expr with
  | number | constant | value => rfl
  | call origin name position arguments ih =>
    have each : (arguments.map (relabel labels)).flatMap nodes =
        (arguments.flatMap nodes).map (relabel labels) := by
      rw [List.flatMap_map, List.map_flatMap, List.flatMap_def, List.flatMap_def,
        List.map_congr_left ih]
    simp only [relabel, relabelAll_eq_map, nodes, nodesAll_eq_flatMap, each, List.map_cons]
  | signed sign position operand ih => rw [relabel, nodes, nodes, ih, List.map_cons, relabel]
  | binary operator position left right leftIh rightIh =>
    rw [relabel, nodes, nodes, leftIh, rightIh, List.map_cons, List.map_append, relabel]

end Expr

/-- Forget the positions. -/
def Relabelling.unplaced : Relabelling where
  constant _ origin := origin
  function _ origin := origin
  position _ := 0

namespace Context

/-- What is asked of a node on the right side of a definition with some parameters: it is no
assignment, an unknown constant is a parameter, no unknown function is called, and a call has as
many arguments as the function takes. -/
def Fits (context : Context) (parameters : List String) : Expr → Prop
  | .binary operator _ _ _ => operator ≠ .assign
  | .constant .unknown name _ => name ∈ parameters
  | .call .unknown _ _ _ => False
  | .call _ name _ arguments => context.arity? name = some arguments.length
  | _ => True

/-- Every node of the tree is as it is asked. Without parameters, no name is unknown. -/
def Sound (context : Context) (parameters : List String) (expr : Expr) : Prop :=
  ∀ node ∈ expr.nodes, context.Fits parameters node

/-- A tree without offences. -/
inductive WellFormed (context : Context) : Expr → Prop
  /-- An expression. -/
  | expression {expr : Expr} (sound : context.Sound [] expr) : WellFormed context expr
  /-- The definition of a constant: the name is not built in. -/
  | constant (position : Nat) {origin : Origin} (name : String) (place : Nat) {right : Expr}
    (free : origin ≠ .builtIn) (sound : context.Sound [] right) :
    WellFormed context (.binary .assign position (.constant origin name place) right)
  /-- The definition of a function: the name is not built in, the parameters are distinct names that
  are no built-in constants, and no user function that is called on the right side is the one that
  is defined, or leads to it by way of stored bodies. -/
  | function (position : Nat) {origin : Origin} {name : String} (place : Nat)
    {parameters : List Expr} {names : List String} {right : Expr} (free : origin ≠ .builtIn)
    (named : List.Forall₂ IsParameter parameters names) (distinct : names.Nodup)
    (sound : context.Sound names right)
    (acyclic : ∀ callee place arguments, .call .user callee place arguments ∈ right.nodes →
      ¬ ReflTransGen context.Calls callee name) :
    WellFormed context (.binary .assign position (.call origin name place parameters) right)

variable (context : Context) (parameters : List String)

/-- A call is sound if it fits and its arguments are sound. -/
theorem sound_call_iff (origin : Origin) (name : String) (position : Nat)
    (arguments : List Expr) :
    context.Sound parameters (.call origin name position arguments) ↔
      context.Fits parameters (.call origin name position arguments) ∧
        ∀ argument ∈ arguments, context.Sound parameters argument := by
  rw [Sound, Expr.nodes, List.forall_mem_cons, Expr.nodesAll_eq_flatMap, List.forall_mem_flatMap]
  rfl

/-- An operand with a sign is sound if the operand is. -/
theorem sound_signed_iff (sign : Sign) (position : Nat) (operand : Expr) :
    context.Sound parameters (.signed sign position operand) ↔
      context.Sound parameters operand := by
  rw [Sound, Expr.nodes, List.forall_mem_cons]
  exact and_iff_right trivial

/-- Two operands are sound together if both are and the operator is no assignment. -/
theorem sound_binary_iff (operator : Operator) (position : Nat) (left right : Expr) :
    context.Sound parameters (.binary operator position left right) ↔
      operator ≠ .assign ∧ context.Sound parameters left ∧ context.Sound parameters right := by
  rw [Sound, Expr.nodes, List.forall_mem_cons, List.forall_mem_append]
  rfl

/-- A constant fits if it is known or a parameter. -/
theorem fits_constant_iff (origin : Origin) (name : String) (position : Nat) :
    context.Fits parameters (.constant origin name position) ↔
      (origin = .unknown → name ∈ parameters) := by
  cases origin <;> simp [Fits]

/-- A call fits if the function is known and takes that many arguments. -/
theorem fits_call_iff (origin : Origin) (name : String) (position : Nat) (arguments : List Expr) :
    context.Fits parameters (.call origin name position arguments) ↔
      origin ≠ .unknown ∧ context.arity? name = some arguments.length := by
  cases origin <;> simp [Fits]

/-- A tree with the origins of a context is sound there exactly if its names are resolved. -/
theorem sound_relabel_iff (expr : Expr) :
    context.Sound parameters (expr.relabel (.resolve context)) ↔
      context.Resolved parameters expr := by
  induction expr with
  | number | value =>
    constructor
    · intro sound
      constructor
    · intro resolved node member
      obtain rfl := List.mem_singleton.mp member
      trivial
  | constant origin name position =>
    have unknown := context.constantOrigin_eq_unknown_iff name
    rw [Expr.relabel, Sound, Expr.nodes, List.forall_mem_singleton, fits_constant_iff,
      resolved_constant_iff, Option.isSome_iff_ne_none, Or.comm, ← imp_iff_not_or]
    exact imp_congr_left unknown
  | call origin name position arguments ih =>
    have known : context.arity? name = some arguments.length →
        context.functionOrigin name ≠ .unknown := by
      intro takes origin
      rw [(context.functionOrigin_eq_unknown_iff name).mp origin] at takes
      contradiction
    have each : (∀ argument ∈ arguments.map (Expr.relabel (.resolve context)),
          context.Sound parameters argument) ↔
        ∀ argument ∈ arguments, context.Resolved parameters argument := by
      rw [List.forall_mem_map]
      exact forall₂_congr ih
    rw [Expr.relabel, Expr.relabelAll_eq_map, sound_call_iff, fits_call_iff, resolved_call_iff,
      each, List.length_map]
    exact and_congr_left' (and_iff_right_of_imp known)
  | signed sign position operand ih =>
    rw [Expr.relabel, sound_signed_iff, resolved_signed_iff, ih]
  | binary operator position left right leftIh rightIh =>
    rw [Expr.relabel, sound_binary_iff, resolved_binary_iff, leftIh, rightIh]

variable {context}

/-- A definition is no sound expression. -/
theorem not_sound_assign (position : Nat) (left right : Expr) :
    ¬ context.Sound parameters (.binary .assign position left right) := by
  intro sound
  have pure := ((context.sound_binary_iff ..).mp sound).1
  exact pure rfl

/-- An expression is well formed if it is sound without parameters. -/
theorem wellFormed_expression_iff {expr : Expr} (expression : IsExpression expr) :
    context.WellFormed expr ↔ context.Sound [] expr := by
  constructor
  · intro formed
    cases formed with
    | expression sound => exact sound
    | constant position => exact absurd rfl (expression position _ _)
    | function position => exact absurd rfl (expression position _ _)
  · exact .expression

/-- The definition of a constant is well formed if the name is not built in and the right side is
sound without parameters. -/
theorem wellFormed_constant_iff (position : Nat) (origin : Origin) (name : String) (place : Nat)
    (right : Expr) :
    context.WellFormed (.binary .assign position (.constant origin name place) right) ↔
      origin ≠ .builtIn ∧ context.Sound [] right := by
  constructor
  · intro formed
    cases formed with
    | expression sound => exact absurd sound (not_sound_assign [] position _ right)
    | constant _ _ _ free sound => exact ⟨free, sound⟩
  · rintro ⟨free, sound⟩
    exact .constant position name place free sound

/-- The definition of a function is well formed if the name is not built in, the parameters are
distinct names, the right side is sound with them, and none of its calls leads to the name. -/
theorem wellFormed_function_iff (position : Nat) (origin : Origin) (name : String) (place : Nat)
    (parameters : List Expr) (right : Expr) :
    context.WellFormed (.binary .assign position (.call origin name place parameters) right) ↔
      origin ≠ .builtIn ∧ ∃ names, List.Forall₂ IsParameter parameters names ∧ names.Nodup ∧
        context.Sound names right ∧
        ∀ callee ∈ right.callees, ¬ ReflTransGen context.Calls callee name := by
  constructor
  · intro formed
    cases formed with
    | expression sound => exact absurd sound (not_sound_assign [] position _ right)
    | function _ _ free named distinct sound acyclic =>
      refine ⟨free, _, named, distinct, sound, fun callee called => ?_⟩
      obtain ⟨inner, arguments, member⟩ := (Expr.mem_callees_iff ..).mp called
      exact acyclic callee inner arguments member
  · rintro ⟨free, names, named, distinct, sound, acyclic⟩
    refine .function position place free named distinct sound ?_
    intro callee inner arguments member
    exact acyclic callee ((Expr.mem_callees_iff ..).mpr ⟨inner, arguments, member⟩)

/-- A well-formed definition defines a constant or a function. -/
theorem wellFormed_definition_cases {position : Nat} {left right : Expr}
    (formed : context.WellFormed (.binary .assign position left right)) :
    (∃ origin name place, left = .constant origin name place) ∨
      ∃ origin name place parameters, left = .call origin name place parameters := by
  cases formed with
  | expression sound => exact absurd sound (not_sound_assign [] position left right)
  | constant _ name place => exact Or.inl ⟨_, name, place, rfl⟩
  | function _ place => exact Or.inr ⟨_, _, place, _, rfl⟩

/-- What is asked of a node does not depend on its position. -/
theorem fits_unplaced_iff (parameters : List String) (node : Expr) :
    context.Fits parameters (node.relabel .unplaced) ↔ context.Fits parameters node := by
  cases node with
  | call origin name position arguments =>
    rw [Expr.relabel, Expr.relabelAll_eq_map, fits_call_iff, fits_call_iff, List.length_map]
    rfl
  | constant origin name position =>
    rw [Expr.relabel, fits_constant_iff, fits_constant_iff]
    rfl
  | number | signed | binary | value => rfl

/-- Whether a tree is sound does not depend on positions. -/
theorem sound_unplaced_iff (parameters : List String) (expr : Expr) :
    context.Sound parameters (expr.relabel .unplaced) ↔ context.Sound parameters expr := by
  rw [Sound, Expr.nodes_relabel, List.forall_mem_map]
  exact forall₂_congr fun node _ => fits_unplaced_iff parameters node

/-- Whether a tree is a parameter does not depend on its position. -/
theorem isParameter_unplaced_iff (tree : Expr) (name : String) :
    IsParameter (tree.relabel .unplaced) name ↔ IsParameter tree name := by
  unfold IsParameter
  cases tree with
  | constant origin known position => simp [Expr.relabel, Relabelling.unplaced]
  | number | call | signed | binary | value => simp [Expr.relabel]

/-- Whether a tree is well formed does not depend on positions. -/
theorem wellFormed_unplaced_iff (expr : Expr) :
    context.WellFormed (expr.relabel .unplaced) ↔ context.WellFormed expr := by
  by_cases expression : IsExpression expr
  · have labelled := (isExpression_relabel_iff .unplaced expr).mpr expression
    rw [wellFormed_expression_iff labelled, wellFormed_expression_iff expression,
      sound_unplaced_iff]
  · obtain ⟨position, left, right, rfl⟩ : ∃ position left right,
        expr = .binary .assign position left right := by
      simpa [IsExpression] using expression
    cases left with
    | constant origin name place =>
      rw [Expr.relabel, Expr.relabel, wellFormed_constant_iff, wellFormed_constant_iff,
        sound_unplaced_iff]
      rfl
    | call origin name place parameters =>
      have callees : (right.relabel .unplaced).callees = right.callees :=
        Expr.callees_relabel (fun _ _ => rfl) right
      rw [Expr.relabel, Expr.relabel, Expr.relabelAll_eq_map, wellFormed_function_iff,
        wellFormed_function_iff, callees]
      simp only [List.forall₂_map_left_iff, isParameter_unplaced_iff, sound_unplaced_iff]
      rfl
    | number | signed | binary | value =>
      constructor
      · intro formed
        have target := wellFormed_definition_cases formed
        simp [Expr.relabel] at target
      · intro formed
        have target := wellFormed_definition_cases formed
        simp at target

/-- The check accepts a tree with the origins of the context exactly if it is well formed. -/
theorem check_relabel_eq_ok_iff (plain : Expr) :
    context.check (plain.relabel (.resolve context)) = .ok () ↔
      context.WellFormed (plain.relabel (.resolve context)) := by
  by_cases expression : IsExpression plain
  · have labelled := (isExpression_relabel_iff (.resolve context) plain).mpr expression
    rw [check_expression labelled, wellFormed_expression_iff labelled, sound_relabel_iff]
    exact context.checkNames_eq_ok_iff none plain
  · obtain ⟨position, left, right, rfl⟩ : ∃ position left right,
        plain = .binary .assign position left right := by
      simpa [IsExpression] using expression
    have checked (parameters : List String) :
        context.checkNames (some parameters) (right.relabel (.resolve context)) = .ok () ↔
          context.Sound parameters (right.relabel (.resolve context)) := by
      rw [sound_relabel_iff]
      exact context.checkNames_eq_ok_iff (some parameters) right
    rw [Expr.relabel]
    generalize left.relabel (.resolve context) = target
    cases target with
    | constant origin name place =>
      rw [check_constant_definition_iff, wellFormed_constant_iff, checked]
    | call origin name place parameters =>
      rw [check_function_definition_iff, wellFormed_function_iff]
      simp only [checked]
    | number | signed | binary | value =>
      constructor
      · intro accepted
        have target := context.check_definition_cases accepted
        simp at target
      · intro formed
        have target := wellFormed_definition_cases formed
        simp at target

/-- A line is parsed exactly if it has a tree and the tree is well formed. -/
theorem parse_eq_ok_iff_wellFormed (context : Context) (line : String) (tree : Expr) :
    context.parse line = .ok tree ↔ context.tree line = .ok tree ∧ context.WellFormed tree := by
  rw [parse_eq_ok_iff]
  apply and_congr_right
  intro found
  obtain ⟨plain, _, rfl⟩ := (context.tree_eq_ok_iff ..).mp found
  exact check_relabel_eq_ok_iff plain

end Context

end Reckoner
