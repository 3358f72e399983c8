import Reckoner.Proofs.SourceOrder
/-!
# The first offence

The check of names stops at the first node that offends: an assignment inside, an unknown constant,
a call of an unknown function or one with the wrong number of arguments. Which nodes offend is said
here without regard to their order, and the report is that of the leftmost one of the line. The
search for a recursive call stops in the same way at the leftmost call that leads to the function.
-/

open Relation

namespace Reckoner

/-- Two steps in sequence fail with the first one that fails. -/
theorem bind_eq_error_iff {ε α β : Type} (first : Except ε α) (next : α → Except ε β) (fault : ε) :
    first >>= next = .error fault ↔
      first = .error fault ∨ ∃ middle, first = .ok middle ∧ next middle = .error fault := by
  cases first <;> simp [bind, Except.bind]

/-- A check of a list fails with the first element that fails. -/
theorem forM_eq_error_iff {ε α : Type} (check : α → Except ε Unit) (list : List α) (fault : ε) :
    forM list check = .error fault ↔ ∃ before element after, list = before ++ element :: after ∧
      check element = .error fault ∧ ∀ other ∈ before, check other = .ok () := by
  induction list with
  | nil =>
    constructor
    · intro impossible
      contradiction
    · rintro ⟨before, element, after, same, _⟩
      exact absurd same.symm (List.append_ne_nil_of_right_ne_nil _ (List.cons_ne_nil _ _))
  | cons first others ih =>
    rw [List.forM_cons, bind_eq_error_iff]
    simp only [List.cons_eq_append_iff]
    constructor
    · rintro (failed | ⟨done, passed, rest⟩)
      · exact ⟨[], first, others, Or.inl ⟨rfl, rfl⟩, failed, List.forall_mem_nil _⟩
      · obtain ⟨before, element, after, same, failed, clear⟩ := ih.mp rest
        exact ⟨first :: before, element, after, Or.inr ⟨before, rfl, same⟩, failed,
          List.forall_mem_cons.mpr ⟨passed, clear⟩⟩
    · rintro ⟨before, element, after, ⟨rfl, same⟩ | ⟨before, rfl, same⟩, failed, clear⟩
      · obtain ⟨rfl, rfl⟩ := List.cons.inj same
        exact Or.inl failed
      · obtain ⟨passed, others⟩ := List.forall_mem_cons.mp clear
        exact Or.inr ⟨(), passed, ih.mpr ⟨before, element, after, same, failed, others⟩⟩

/-- A check that does not fail succeeds. -/
theorem eq_ok_iff_forall_ne_error {ε : Type} (check : Except ε Unit) :
    check = .ok () ↔ ∀ fault, check ≠ .error fault := by
  cases check with
  | ok => exact ⟨fun _ _ => nofun, fun _ => rfl⟩
  | error fault => exact ⟨nofun, fun never => absurd rfl (never fault)⟩

/-- Among the nodes of a tree with some property, this one stands first in the line. -/
structure Expr.IsFirst (tree : Expr) (property : Expr → Prop) (node : Expr) : Prop where
  /-- It is a node of the tree. -/
  member : node ∈ tree.nodes
  /-- It has the property. -/
  holds : property node
  /-- No node with the property stands in front of it. -/
  least : ∀ other ∈ tree.nodes, property other → node.position ≤ other.position

/-- If positions increase along a visit, the first node with a property is the one that is visited
with none in front of it. -/
theorem Expr.isFirst_iff {tree : Expr} (increase : (tree.inOrder.map position).Pairwise (· < ·))
    (property : Expr → Prop) (node : Expr) :
    tree.IsFirst property node ↔ ∃ before after, tree.inOrder = before ++ node :: after ∧
      property node ∧ ∀ other ∈ before, ¬ property other := by
  rw [List.pairwise_map] at increase
  constructor
  · rintro ⟨member, holds, least⟩
    obtain ⟨before, after, visit⟩ := List.append_of_mem (mem_inOrder_iff.mpr member)
    refine ⟨before, after, visit, holds, fun other earlier also => ?_⟩
    rw [visit] at increase
    have smaller : other.position < node.position :=
      (List.pairwise_append.mp increase).2.2 other earlier node List.mem_cons_self
    have among : other ∈ tree.nodes := by
      rw [← mem_inOrder_iff, visit]
      exact List.mem_append_left _ earlier
    exact absurd (least other among also) (Nat.not_le_of_lt smaller)
  · rintro ⟨before, after, visit, holds, clear⟩
    refine ⟨mem_inOrder_iff.mp (visit ▸ List.mem_append_right _ List.mem_cons_self), holds, ?_⟩
    intro other member also
    rw [← mem_inOrder_iff, visit, List.mem_append, List.mem_cons] at member
    rw [visit] at increase
    rcases member with earlier | rfl | later
    · exact absurd also (clear other earlier)
    · exact Nat.le_refl _
    · exact Nat.le_of_lt
        ((List.pairwise_cons.mp (List.pairwise_append.mp increase).2.1).1 other later)

namespace Context

variable (context : Context)

/-- The node is an offence, which is reported as this fault. On the right side of a definition there
are parameters, and every unknown name makes it symbolic. -/
inductive Offends (parameters : Option (List String)) : Expr → Fault → Prop
  /-- An assignment stands inside. -/
  | assignment (position : Nat) (left right : Expr) :
    Offends parameters (.binary .assign position left right) .nestedAssignment
  /-- A constant of an expression is unknown. -/
  | constant (origin : Origin) {name : String} (position : Nat) (expression : parameters = none)
    (unknown : context.constant? name = none) :
    Offends parameters (.constant origin name position) (.unknownConstant name)
  /-- A constant of a definition is unknown and no parameter. -/
  | symbol (origin : Origin) {name : String} (position : Nat) {names : List String}
    (definition : parameters = some names) (free : name ∉ names)
    (unknown : context.constant? name = none) :
    Offends parameters (.constant origin name position) (.symbolic name)
  /-- An unknown function is called. -/
  | function (origin : Origin) {name : String} (position : Nat) (arguments : List Expr)
    (unknown : context.arity? name = none) :
    Offends parameters (.call origin name position arguments)
      (if parameters.isSome then .symbolic name else .unknownFunction name)
  /-- A function is called with the wrong number of arguments. -/
  | arguments (origin : Origin) {name : String} (position : Nat) {arguments : List Expr}
    {expected : Nat} (known : context.arity? name = some expected)
    (wrong : arguments.length ≠ expected) :
    Offends parameters (.call origin name position arguments)
      (.wrongArity expected arguments.length)

/-- The node is a call of the user function `callee`, which leads to `target`. -/
def CallsTowards (target : String) (node : Expr) (callee : String) : Prop :=
  (∃ position arguments, node = .call .user callee position arguments) ∧
    ReflTransGen context.Calls callee target

/-- The check of a node without its parts. -/
def checkNode (parameters : Option (List String)) : Expr → Except Diagnosis Unit
  | .constant origin name position => checkConstant parameters origin name position
  | .call origin name position arguments =>
    context.checkCall parameters.isSome origin name position arguments.length
  | .binary operator position _ _ =>
    if operator = .assign then .error ⟨.nestedAssignment, position⟩ else .ok ()
  | _ => .ok ()

/-- The check of names visits the nodes in the order of the line. -/
theorem checkNames_eq_forM (parameters : Option (List String)) (expr : Expr) :
    context.checkNames parameters expr = forM expr.inOrder (context.checkNode parameters) := by
  induction expr with
  | number | value => rfl
  | constant origin name position =>
    rw [Expr.inOrder, List.forM_cons, List.forM_nil, checkNames, checkNode]
    exact (bind_pure _).symm
  | call origin name position arguments ih =>
    have each : context.checkAllNames parameters arguments =
        forM (arguments.flatMap Expr.inOrder) (context.checkNode parameters) := by
      induction arguments with
      | nil => rfl
      | cons first others othersIh =>
        rw [checkAllNames, List.flatMap_cons, List.forM_append, ih first List.mem_cons_self,
          othersIh fun other member => ih other (List.mem_cons_of_mem _ member)]
    rw [checkNames, each, Expr.inOrder, List.forM_cons, Expr.inOrderAll_eq_flatMap]
    rfl
  | signed sign position operand ih => exact ih
  | binary operator position left right leftIh rightIh =>
    rw [checkNames, leftIh, rightIh, Expr.inOrder, List.forM_append, List.forM_cons, checkNode]
    refine bind_congr fun _ => ?_
    split <;> rfl

/-- A constant is known, or it is unknown and has no value. -/
theorem checkConstant_eq_error_iff (parameters : Option (List String)) (name : String)
    (position : Nat) (diagnosis : Diagnosis) :
    checkConstant parameters (context.constantOrigin name) name position = .error diagnosis ↔
      context.Offends parameters (.constant (context.constantOrigin name) name position)
        diagnosis.fault ∧ position = diagnosis.position := by
  obtain ⟨fault, place⟩ := diagnosis
  have unknown := context.constantOrigin_eq_unknown_iff name
  constructor
  · intro failed
    unfold checkConstant at failed
    split at failed
    · next names origin =>
      split at failed
      · contradiction
      · next free =>
        obtain ⟨rfl, rfl⟩ := Diagnosis.mk.inj (Except.error.inj failed)
        exact ⟨.symbol _ position rfl free (unknown.mp origin), rfl⟩
    · next origin =>
      obtain ⟨rfl, rfl⟩ := Diagnosis.mk.inj (Except.error.inj failed)
      exact ⟨.constant _ position rfl (unknown.mp origin), rfl⟩
    · contradiction
  · rintro ⟨offends, rfl⟩
    generalize shown : context.constantOrigin name = origin at offends ⊢
    cases offends with
    | constant _ _ expression missing =>
      rw [← shown, unknown.mpr missing, expression]
      rfl
    | symbol _ _ definition free missing =>
      rw [← shown, unknown.mpr missing, definition, checkConstant, if_neg free]

/-- A call is of a known function with the right number of arguments, or it offends. -/
theorem checkCall_eq_error_iff (parameters : Option (List String)) (name : String)
    (position : Nat) (arguments : List Expr) (diagnosis : Diagnosis) :
    context.checkCall parameters.isSome (context.functionOrigin name) name position
        arguments.length = .error diagnosis ↔
      context.Offends parameters (.call (context.functionOrigin name) name position arguments)
        diagnosis.fault ∧ position = diagnosis.position := by
  obtain ⟨fault, place⟩ := diagnosis
  have unknown := context.functionOrigin_eq_unknown_iff name
  constructor
  · intro failed
    unfold checkCall at failed
    split at failed
    · next origin =>
      obtain ⟨rfl, rfl⟩ := Diagnosis.mk.inj (Except.error.inj failed)
      exact ⟨.function _ position arguments (unknown.mp origin), rfl⟩
    · next known =>
      obtain ⟨expected, takes⟩ := Option.ne_none_iff_exists'.mp (mt unknown.mpr known)
      rw [takes, Option.getD_some] at failed
      dsimp only at failed
      split at failed
      · contradiction
      · next wrong =>
        obtain ⟨rfl, rfl⟩ := Diagnosis.mk.inj (Except.error.inj failed)
        exact ⟨.arguments _ position takes wrong, rfl⟩
  · rintro ⟨offends, rfl⟩
    generalize shown : context.functionOrigin name = origin at offends ⊢
    cases offends with
    | function _ _ _ missing =>
      rw [← shown, unknown.mpr missing]
      rfl
    | arguments _ _ known wrong =>
      have found : origin ≠ .unknown := by
        rintro rfl
        rw [unknown.mp shown] at known
        contradiction
      unfold checkCall
      split
      · next missing => exact absurd rfl found
      · rw [known, Option.getD_some]
        exact if_neg wrong

/-- The check of a node with the origins of the context fails exactly if the node offends, with the
fault of the offence at the position of the node. -/
theorem checkNode_eq_error_iff (parameters : Option (List String)) {node : Expr}
    (resolved : node.relabel (.resolve context) = node) (diagnosis : Diagnosis) :
    context.checkNode parameters node = .error diagnosis ↔
      context.Offends parameters node diagnosis.fault ∧ node.position = diagnosis.position := by
  cases node with
  | constant origin name position =>
    obtain rfl : context.constantOrigin name = origin := (Expr.constant.inj resolved).1
    exact context.checkConstant_eq_error_iff parameters name position diagnosis
  | call origin name position arguments =>
    obtain rfl : context.functionOrigin name = origin := (Expr.call.inj resolved).1
    exact context.checkCall_eq_error_iff parameters name position arguments diagnosis
  | binary operator position left right =>
    obtain ⟨fault, place⟩ := diagnosis
    rw [checkNode]
    split
    · next assignment =>
      subst assignment
      constructor
      · intro failed
        obtain ⟨rfl, rfl⟩ := Diagnosis.mk.inj (Except.error.inj failed)
        exact ⟨.assignment position left right, rfl⟩
      · rintro ⟨offends, rfl⟩
        cases offends
        rfl
    · next pure =>
      refine ⟨nofun, ?_⟩
      rintro ⟨offends, _⟩
      cases offends
      exact absurd rfl pure
  | number | signed | value =>
    refine ⟨nofun, ?_⟩
    rintro ⟨offends, _⟩
    cases offends

/-- The diagnosis is that of the first offence of the tree. -/
def IsFirstOffence (parameters : Option (List String)) (tree : Expr) (diagnosis : Diagnosis) :
    Prop :=
  ∃ node, tree.IsFirst (fun node => ∃ fault, context.Offends parameters node fault) node ∧
    context.Offends parameters node diagnosis.fault ∧ node.position = diagnosis.position

variable {context}

/-- The check of names reports the first offence of the line. -/
theorem checkNames_eq_error_iff (parameters : Option (List String)) {tree : Expr}
    (increase : (tree.inOrder.map Expr.position).Pairwise (· < ·))
    (resolved : ∀ node ∈ tree.nodes, node.relabel (.resolve context) = node)
    (diagnosis : Diagnosis) :
    context.checkNames parameters tree = .error diagnosis ↔
      context.IsFirstOffence parameters tree diagnosis := by
  have passes {node : Expr} (member : node ∈ tree.inOrder) :
      context.checkNode parameters node = .ok () ↔
        ¬ ∃ fault, context.Offends parameters node fault := by
    have failed := context.checkNode_eq_error_iff parameters
      (resolved node (Expr.mem_inOrder_iff.mp member))
    rw [eq_ok_iff_forall_ne_error]
    constructor
    · rintro clear ⟨fault, offends⟩
      exact clear ⟨fault, node.position⟩ ((failed _).mpr ⟨offends, rfl⟩)
    · intro clear diagnosis reported
      exact clear ⟨_, ((failed diagnosis).mp reported).1⟩
  rw [checkNames_eq_forM, forM_eq_error_iff, IsFirstOffence]
  simp only [Expr.isFirst_iff increase]
  constructor
  · rintro ⟨before, node, after, visit, failed, clear⟩
    have member : node ∈ tree.inOrder := visit ▸ List.mem_append_right _ List.mem_cons_self
    have offence := (context.checkNode_eq_error_iff parameters
      (resolved node (Expr.mem_inOrder_iff.mp member)) diagnosis).mp failed
    refine ⟨node, ⟨before, after, visit, ⟨_, offence.1⟩, fun other earlier => ?_⟩, offence⟩
    exact (passes (visit ▸ List.mem_append_left _ earlier)).mp (clear other earlier)
  · rintro ⟨node, ⟨before, after, visit, _, clear⟩, offence⟩
    have member : node ∈ tree.inOrder := visit ▸ List.mem_append_right _ List.mem_cons_self
    refine ⟨before, node, after, visit, ?_, fun other earlier => ?_⟩
    · exact (context.checkNode_eq_error_iff parameters
        (resolved node (Expr.mem_inOrder_iff.mp member)) diagnosis).mpr offence
    · exact (passes (visit ▸ List.mem_append_left _ earlier)).mpr (clear other earlier)

/-- The call that a node is, if it leads to `target`. -/
def callTowards? (context : Context) (target : String) : Expr → Option (String × Nat)
  | .call origin name position _ =>
    if origin = .user ∧ context.leadsTo name target then some (name, position) else none
  | _ => none

/-- The search for a call visits the nodes in the order of the line. -/
theorem firstCallTo?_eq_findSome? (context : Context) (target : String) (expr : Expr) :
    context.firstCallTo? target expr = expr.inOrder.findSome? (context.callTowards? target) := by
  induction expr with
  | number | constant | value => rfl
  | call origin name position arguments ih =>
    have among : context.firstCallAmong? target arguments =
        (arguments.flatMap Expr.inOrder).findSome? (context.callTowards? target) := by
      induction arguments with
      | nil => rfl
      | cons first others othersIh =>
        rw [firstCallAmong?, List.flatMap_cons, List.findSome?_append,
          ih first List.mem_cons_self,
          othersIh fun other member => ih other (List.mem_cons_of_mem _ member)]
    rw [firstCallTo?, among, Expr.inOrder, List.findSome?_cons, Expr.inOrderAll_eq_flatMap,
      callTowards?]
    split <;> rfl
  | signed sign position operand ih => exact ih
  | binary operator position left right leftIh rightIh =>
    rw [firstCallTo?, leftIh, rightIh, Expr.inOrder, List.findSome?_append, List.findSome?_cons]
    rfl

/-- A node is such a call exactly if it is a call of a user function that leads to `target`. -/
theorem callTowards?_eq_some_iff (target : String) (node : Expr) (callee : String)
    (position : Nat) :
    context.callTowards? target node = some (callee, position) ↔
      context.CallsTowards target node callee ∧ node.position = position := by
  unfold CallsTowards
  rw [← leadsTo_eq_true_iff]
  constructor
  · intro found
    unfold callTowards? at found
    split at found
    · next origin name place arguments =>
      split at found
      · next leads =>
        obtain ⟨rfl, rfl⟩ := Prod.mk.inj (Option.some.inj found)
        obtain rfl := leads.1
        exact ⟨⟨⟨place, arguments, rfl⟩, leads.2⟩, rfl⟩
      · contradiction
    · contradiction
  · rintro ⟨⟨⟨place, arguments, rfl⟩, leads⟩, rfl⟩
    exact if_pos ⟨rfl, leads⟩

/-- The callee and the position are those of the first call of the tree that leads to `target`. -/
def IsFirstCall (context : Context) (target : String) (tree : Expr) (callee : String)
    (position : Nat) : Prop :=
  ∃ node, tree.IsFirst (fun node => ∃ callee, context.CallsTowards target node callee) node ∧
    context.CallsTowards target node callee ∧ node.position = position

/-- The search finds the first call of the line that leads to `target`. -/
theorem firstCallTo?_eq_some_iff (target : String) {tree : Expr}
    (increase : (tree.inOrder.map Expr.position).Pairwise (· < ·)) (callee : String)
    (position : Nat) :
    context.firstCallTo? target tree = some (callee, position) ↔
      context.IsFirstCall target tree callee position := by
  have misses (node : Expr) : context.callTowards? target node = none ↔
      ¬ ∃ callee, context.CallsTowards target node callee := by
    rw [Option.eq_none_iff_forall_ne_some]
    constructor
    · rintro clear ⟨callee, towards⟩
      exact clear (callee, node.position)
        ((callTowards?_eq_some_iff ..).mpr ⟨towards, rfl⟩)
    · rintro clear ⟨callee, position⟩ found
      exact clear ⟨callee, ((callTowards?_eq_some_iff ..).mp found).1⟩
  rw [firstCallTo?_eq_findSome?, List.findSome?_eq_some_iff, IsFirstCall]
  simp only [Expr.isFirst_iff increase, misses, callTowards?_eq_some_iff]
  constructor
  · rintro ⟨before, node, after, visit, towards, clear⟩
    exact ⟨node, ⟨before, after, visit, ⟨callee, towards.1⟩, clear⟩, towards⟩
  · rintro ⟨node, ⟨before, after, visit, _, clear⟩, towards⟩
    exact ⟨before, node, after, visit, towards, clear⟩

/-- Some bytes are refused if they have no tree, or if the check of their tree fails. -/
theorem parseBytes_eq_error_iff (line : Bytes) (diagnosis : Diagnosis) :
    context.parseBytes line = .error diagnosis ↔
      context.treeBytes line = .error diagnosis ∨
        ∃ tree, context.treeBytes line = .ok tree ∧ context.check tree = .error diagnosis := by
  simp only [parseBytes, bind_eq_error_iff]
  refine or_congr_right (exists_congr fun tree => and_congr_right fun _ => ?_)
  constructor
  · rintro (failed | ⟨_, _, impossible⟩)
    · exact failed
    · contradiction
  · exact Or.inl

/-- A line is refused if it has no tree, or if the check of its tree fails. -/
theorem parse_eq_error_iff (line : String) (rejection : Rejection) :
    context.parse line = .error rejection ↔ rejection.line = line ∧
      (context.tree line = .error rejection.diagnosis ∨
        ∃ tree, context.tree line = .ok tree ∧
          context.check tree = .error rejection.diagnosis) := by
  obtain ⟨text, diagnosis⟩ := rejection
  have worded : context.parse line = .error ⟨text, diagnosis⟩ ↔
      text = line ∧ context.parseBytes (bytesOf line) = .error diagnosis := by
    rw [parse]
    cases context.parseBytes (bytesOf line) with
    | ok => simp [Except.mapError]
    | error reported => simp [Except.mapError, eq_comm]
  rw [worded, parseBytes_eq_error_iff]
  rfl

/-- A line with a tree is refused with what the check of the tree reports. -/
theorem parse_eq_error_iff_of_tree {line : String} {tree : Expr}
    (built : context.tree line = .ok tree) (rejection : Rejection) :
    context.parse line = .error rejection ↔
      rejection.line = line ∧ context.check tree = .error rejection.diagnosis := by
  simp [parse_eq_error_iff, built]

/-- The nodes of the tree of a line have the origins of the context. -/
theorem relabel_resolve_of_mem_nodes {line : String} {tree : Expr}
    (built : context.tree line = .ok tree) :
    ∀ node ∈ tree.nodes, node.relabel (.resolve context) = node := by
  obtain ⟨plain, _, rfl⟩ := (context.tree_eq_ok_iff ..).mp built
  rw [Expr.nodes_relabel, List.forall_mem_map]
  intro node _
  rw [Expr.relabel_relabel]
  rfl

/-- The definition of a function with parameters is refused for the first offence of its right side,
or else for the first call there that leads to the function. -/
theorem check_function_definition_eq_error_iff {position : Nat} {origin : Origin} {name : String}
    {place : Nat} {parameters : List Expr} {names : List String} {right : Expr}
    (free : origin ≠ .builtIn) (named : List.Forall₂ IsParameter parameters names)
    (distinct : names.Nodup) (increase : (right.inOrder.map Expr.position).Pairwise (· < ·))
    (resolved : ∀ node ∈ right.nodes, node.relabel (.resolve context) = node)
    (diagnosis : Diagnosis) :
    context.check (.binary .assign position (.call origin name place parameters) right) =
        .error diagnosis ↔
      context.IsFirstOffence (some names) right diagnosis ∨
        (∀ fault, ¬ context.IsFirstOffence (some names) right fault) ∧
          ∃ callee position, context.IsFirstCall name right callee position ∧
            diagnosis = ⟨.recursive callee, position⟩ := by
  have accepted := (parameterNames_eq_ok_iff parameters names).mpr ⟨named, distinct⟩
  have checked := checkNames_eq_error_iff (some names) increase resolved
  have called := @firstCallTo?_eq_some_iff context name right increase
  rw [check, checkDefinition, accepted]
  · simp only [← checked, ← called, ← eq_ok_iff_forall_ne_error]
    show (context.checkNames (some names) right >>= _) = _ ↔ _
    rw [bind_eq_error_iff]
    refine or_congr_right ?_
    cases context.firstCallTo? name right with
    | none =>
      constructor
      · rintro ⟨_, _, impossible⟩
        contradiction
      · rintro ⟨_, _, _, impossible, _⟩
        contradiction
    | some call =>
      constructor
      · rintro ⟨_, passed, reported⟩
        exact ⟨passed, call.1, call.2, rfl, (Except.error.inj reported).symm⟩
      · rintro ⟨passed, callee, place, same, rfl⟩
        obtain rfl := Option.some.inj same
        exact ⟨(), passed, rfl⟩
  · rintro rfl
    exact free rfl

/-- In a line with a tree, positions increase strictly along the visit of the nodes, each of which
is a token of the line. The check goes along this visit, so an expression is refused exactly if it
has offences, and with the first one of the line. The definition of a function whose name is not
built in and whose parameters are distinct names is refused with the first offence of its right
side, or if it has none, with the first call there that leads to the function itself. -/
theorem refusal_names_first_offence (context : Context) {line : String} {tree : Expr}
    (built : context.tree line = .ok tree) :
    (tree.inOrder.map Expr.position).Pairwise (· < ·) ∧
    tree.inOrder.Perm tree.nodes ∧
    (tree.inOrder.map Expr.label).Sublist ((context.scan line).tokens.map Token.label) ∧
    (∀ parameters,
      context.checkNames parameters tree = forM tree.inOrder (context.checkNode parameters)) ∧
    (IsExpression tree → ∀ rejection, context.parse line = .error rejection ↔
      rejection.line = line ∧ context.IsFirstOffence none tree rejection.diagnosis) ∧
    ∀ position origin name place parameters right names,
      tree = .binary .assign position (.call origin name place parameters) right →
      origin ≠ .builtIn → List.Forall₂ IsParameter parameters names → names.Nodup →
      ∀ rejection, context.parse line = .error rejection ↔ rejection.line = line ∧
        (context.IsFirstOffence (some names) right rejection.diagnosis ∨
          (∀ diagnosis, ¬ context.IsFirstOffence (some names) right diagnosis) ∧
            ∃ callee place, context.IsFirstCall name right callee place ∧
              rejection.diagnosis = ⟨.recursive callee, place⟩) := by
  have increase := positions_increase_of_tree built
  have resolved := relabel_resolve_of_mem_nodes built
  refine ⟨increase, tree.inOrder_perm_nodes, Scan.labels_sublist_of_tree built,
    fun parameters => context.checkNames_eq_forM parameters tree, ?_, ?_⟩
  · intro expression rejection
    rw [parse_eq_error_iff_of_tree built, check_expression expression,
      checkNames_eq_error_iff none increase resolved]
  · rintro position origin name place parameters right names rfl free named distinct rejection
    -- The right side is visited behind the rest of the line.
    have later : (right.inOrder.map Expr.position).Pairwise (· < ·) := by
      rw [Expr.inOrder, List.map_append, List.map_cons] at increase
      exact (List.pairwise_cons.mp (List.pairwise_append.mp increase).2.1).2
    have inside : ∀ node ∈ right.nodes, node.relabel (.resolve context) = node :=
      fun node member => resolved node
        (List.mem_cons_of_mem _ (List.mem_append_right _ member))
    rw [parse_eq_error_iff_of_tree built,
      check_function_definition_eq_error_iff free named distinct later inside]

/-- Of two unknown names the left one is reported, and of two calls of the function that is being
defined the left one. -/
theorem left_offence_reported :
    (∃ tree, ({} : Context).tree "2 + y*x" = .ok tree ∧
      ({} : Context).IsFirstOffence none tree ⟨.unknownConstant "y", 4⟩) ∧
    ∃ context place left right,
      Context.tree context "f(x) = 1 + f(x)*f(2)" = .ok (.binary .assign place left right) ∧
        context.IsFirstCall "f" right "f" 11 := by
  have sum : ({} : Context).tree "2 + y*x" =
      .ok (.binary .add 2 (.number "2" false 0)
        (.binary .mul 5 (.constant .unknown "y" 4) (.constant .unknown "x" 6))) := by
    with_unfolding_all rfl
  have symbolic : ({} : Context).parse "2 + y*x" =
      .error ⟨"2 + y*x", ⟨.unknownConstant "y", 4⟩⟩ := by
    with_unfolding_all rfl
  let context : Context :=
    ({} : Context).defineFunction "f" ⟨["x"], .constant .unknown "x" 7, "f(x) = x"⟩
  have definition : context.tree "f(x) = 1 + f(x)*f(2)" =
      .ok (.binary .assign 5 (.call .user "f" 0 [.constant .unknown "x" 2])
        (.binary .add 9 (.number "1" false 7)
          (.binary .mul 15 (.call .user "f" 11 [.constant .unknown "x" 13])
            (.call .user "f" 16 [.number "2" false 18])))) := by
    with_unfolding_all rfl
  have recursive : context.parse "f(x) = 1 + f(x)*f(2)" =
      .error ⟨"f(x) = 1 + f(x)*f(2)", ⟨.recursive "f", 11⟩⟩ := by
    with_unfolding_all rfl
  obtain ⟨_, _, _, _, expressions, _⟩ := refusal_names_first_offence {} sum
  obtain ⟨_, _, _, _, _, definitions⟩ := refusal_names_first_offence context definition
  have named : List.Forall₂ IsParameter [.constant .unknown "x" 2] ["x"] :=
    .cons ⟨.unknown, 2, nofun, rfl⟩ .nil
  refine ⟨⟨_, sum, ((expressions nofun _).mp symbolic).2⟩, context, _, _, _, definition, ?_⟩
  rcases ((definitions _ _ _ _ _ _ ["x"] rfl nofun named (by decide) _).mp recursive).2 with
    ⟨_, _, offends, _⟩ | ⟨_, callee, place, call, same⟩
  · cases offends
  · cases same
    exact call

end Context

end Reckoner
