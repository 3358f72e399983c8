import Reckoner.Proofs.Stored
/-!
# Origins that do not depend on the context

In the tree of an accepted line no name is unknown but a parameter, so the other origins can be told
from the names alone: what is not built in belongs to the user. This holds of expressions, whatever
context they were read in, and of all stored bodies. In particular the trees that an expression has
in two contexts which both accept it are equal.
-/

namespace Reckoner

namespace Expr

/-- The origins in the tree are those that its names have in an accepted line, up to the origins of
parameters. -/
def IsCanonical (parameters : List String) (expr : Expr) : Prop :=
  expr.relabel (.core parameters) = expr.relabel (.canonical parameters)

variable {parameters : List String}

/-- In such a tree only a parameter may be unknown. -/
theorem IsCanonical.origin_ne_unknown {origin : Origin} {name : String} {position : Nat}
    (canonical : (constant origin name position).IsCanonical parameters)
    (free : name ∉ parameters) : origin ≠ .unknown := by
  rintro rfl
  have same := (Expr.constant.inj canonical).1
  simp only [Relabelling.core, Relabelling.canonical, free, false_and, if_false] at same
  split at same <;> contradiction

/-- In such a tree a called function is built in or one of the user, as its name says. -/
theorem isCanonical_call_iff (origin : Origin) (name : String) (position : Nat)
    (arguments : List Expr) :
    (call origin name position arguments).IsCanonical parameters ↔
      origin = (if (BuiltIn.ofName? name).isSome then .builtIn else .user) ∧
        ∀ argument ∈ arguments, argument.IsCanonical parameters := by
  simp only [IsCanonical, relabel, relabelAll_eq_map, call.injEq, List.map_inj_left,
    Relabelling.core, Relabelling.canonical, true_and]

/-- An operand with a sign has such origins if the operand has. -/
theorem isCanonical_signed_iff (sign : Sign) (position : Nat) (operand : Expr) :
    (signed sign position operand).IsCanonical parameters ↔ operand.IsCanonical parameters := by
  simp only [IsCanonical, relabel, signed.injEq, Relabelling.core, Relabelling.canonical, true_and]

/-- Two operands have such origins together if both have. -/
theorem isCanonical_binary_iff (operator : Operator) (position : Nat) (left right : Expr) :
    (binary operator position left right).IsCanonical parameters ↔
      left.IsCanonical parameters ∧ right.IsCanonical parameters := by
  simp only [IsCanonical, relabel, binary.injEq, Relabelling.core, Relabelling.canonical, true_and]

end Expr

/-- The body of a stored function has the origins of an accepted line. -/
theorem Stored.isCanonical {name : String} {function : UserFunction}
    (stored : Stored name function) : function.body.IsCanonical function.parameters :=
  stored.body_eq_canonical

namespace Context

/-- The origin of a constant with a value says whether it is built in. -/
theorem constantOrigin_of_isSome {context : Context} {name : String}
    (known : (context.constant? name).isSome = true) :
    context.constantOrigin name =
      if (builtInConstant? name).isSome then .builtIn else .user := by
  have resolved : name ∈ ([] : List String) ∨ (context.constant? name).isSome = true := Or.inr known
  have label := core_constant resolved .unknown
  simpa [Relabelling.core, Relabelling.canonical] using label

/-- The origin of a function that takes arguments says whether it is built in. -/
theorem functionOrigin_of_arity? {context : Context} {name : String} {count : Nat}
    (known : context.arity? name = some count) :
    context.functionOrigin name =
      if (BuiltIn.ofName? name).isSome then .builtIn else .user :=
  core_function known [] .unknown

/-- Two contexts in which a tree is resolved give it the same origins, if they give the same to its
parameters. -/
theorem Resolved.relabel_resolve_eq {first second : Context} {parameters : List String}
    {expr : Expr} (resolved : first.Resolved parameters expr)
    (also : second.Resolved parameters expr)
    (bound : ∀ parameter ∈ parameters,
      first.constantOrigin parameter = second.constantOrigin parameter) :
    expr.relabel (.resolve first) = expr.relabel (.resolve second) := by
  induction expr with
  | number | value => rfl
  | constant origin name position =>
    rw [resolved_constant_iff] at resolved also
    have label : first.constantOrigin name = second.constantOrigin name := by
      by_cases member : name ∈ parameters
      · exact bound name member
      · have before := constantOrigin_of_isSome (resolved.resolve_left member)
        have after := constantOrigin_of_isSome (also.resolve_left member)
        exact before.trans after.symm
    exact congrArg (Expr.constant · name position) label
  | call origin name position arguments ih =>
    rw [resolved_call_iff] at resolved also
    have before := functionOrigin_of_arity? resolved.1
    have after := functionOrigin_of_arity? also.1
    have each : arguments.map (Expr.relabel (.resolve first)) =
        arguments.map (Expr.relabel (.resolve second)) :=
      List.map_congr_left fun argument member =>
        ih argument member (resolved.2 argument member) (also.2 argument member)
    rw [Expr.relabel, Expr.relabel, Expr.relabelAll_eq_map, Expr.relabelAll_eq_map, each]
    exact congrArg (Expr.call · name position _) (before.trans after.symm)
  | signed sign position operand ih =>
    rw [resolved_signed_iff] at resolved also
    rw [Expr.relabel, Expr.relabel, ih resolved also]
    rfl
  | binary operator position left right leftIh rightIh =>
    rw [resolved_binary_iff] at resolved also
    rw [Expr.relabel, Expr.relabel, leftIh resolved.2.1 also.2.1, rightIh resolved.2.2 also.2.2]
    rfl

/-- The check of an expression is the check of its names. -/
theorem check_expression {context : Context} {expr : Expr} (plain : IsExpression expr) :
    context.check expr = context.checkNames none expr := by
  cases expr with
  | binary operator position left right =>
    cases operator with
    | assign => exact absurd rfl (plain position left right)
    | add | sub | mul | div | mod | pow => rfl
  | number | constant | call | signed | value => rfl

/-- Two operands are an expression unless the operator is the assignment. -/
theorem isExpression_binary_iff (operator : Operator) (position : Nat) (left right : Expr) :
    IsExpression (.binary operator position left right) ↔ operator ≠ .assign := by
  constructor
  · rintro expression rfl
    exact expression position left right rfl
  · intro pure place first second same
    exact pure (Expr.binary.inj same).1

/-- Labels make no expression a definition, and no definition an expression. -/
theorem isExpression_relabel_iff (labels : Relabelling) (expr : Expr) :
    IsExpression (expr.relabel labels) ↔ IsExpression expr := by
  cases expr with
  | binary => simp only [Expr.relabel, isExpression_binary_iff]
  | number | constant | call | signed | value => simp [IsExpression, Expr.relabel]

/-- A line that reads as an expression is accepted exactly if its names are resolved, with the tree
that has the origins of the context. -/
theorem parse_expression_eq_ok_iff (context : Context) {line : String} {plain : Expr}
    (read : lineTree line = .ok plain) (expression : IsExpression plain) (expr : Expr) :
    context.parse line = .ok expr ↔
      expr = plain.relabel (.resolve context) ∧ context.Resolved [] plain := by
  have accepted : context.check (plain.relabel (.resolve context)) = .ok () ↔
      context.Resolved [] plain := by
    rw [check_expression ((isExpression_relabel_iff ..).mpr expression)]
    exact context.checkNames_eq_ok_iff none plain
  rw [parse_eq_ok_iff, tree_eq_ok_iff, ← accepted]
  constructor
  · rintro ⟨⟨tree, alsoRead, rfl⟩, checked⟩
    obtain rfl := Except.ok.inj (read.symm.trans alsoRead)
    exact ⟨rfl, checked⟩
  · rintro ⟨rfl, checked⟩
    exact ⟨⟨plain, read, rfl⟩, checked⟩

/-- The tree of an accepted expression is that of its line, with names that are resolved. -/
theorem exists_plain_of_parse {context : Context} {line : String} {expr : Expr}
    (parsed : context.parse line = .ok expr) (expression : IsExpression expr) :
    ∃ plain, lineTree line = .ok plain ∧ IsExpression plain ∧
      expr = plain.relabel (.resolve context) ∧ context.Resolved [] plain := by
  obtain ⟨plain, read, rfl⟩ :=
    (context.tree_eq_ok_iff ..).mp ((context.parse_eq_ok_iff ..).mp parsed).1
  have alsoExpression := (isExpression_relabel_iff ..).mp expression
  exact ⟨plain, read, alsoExpression,
    (context.parse_expression_eq_ok_iff read alsoExpression _).mp parsed⟩

/-- No name of an accepted expression is unknown, and its origins say what is built in. -/
theorem isCanonical_of_parse {context : Context} {line : String} {expr : Expr}
    (parsed : context.parse line = .ok expr) (expression : IsExpression expr) :
    expr.IsCanonical [] := by
  obtain ⟨plain, _, _, rfl, resolved⟩ := exists_plain_of_parse parsed expression
  rw [Expr.IsCanonical, resolved.core_eq, Expr.canonical_relabel]

end Context

end Reckoner
