import Reckoner.Context.Check
import Reckoner.Context.Evaluate
/-!
# Induction over trees

The arguments of a call are a list of trees, so the functions on trees come with a companion on
lists. Each companion is the library's operation on lists, and induction over a tree assumes the
motive for every argument. With both, a law of trees is proved without one of its own for lists.
-/

namespace Reckoner

/-- A name has no value in a list of keys with as many values exactly if it is no key. -/
theorem lookup_zip_eq_none_iff {α : Type} {keys : List String} {values : List α}
    (same : keys.length = values.length) (name : String) :
    (keys.zip values).lookup name = none ↔ name ∉ keys := by
  induction keys generalizing values with
  | nil => simp
  | cons key keys ih =>
    cases values with
    | nil => contradiction
    | cons value values =>
      rw [List.zip_cons_cons, Table.lookup_cons_ite, List.mem_cons, not_or]
      split
      · next equal => simp [equal]
      · next different => simp only [different, not_false_eq_true, true_and, ih (Nat.succ.inj same)]

/-- Changing all values changes those that are found. -/
theorem lookup_zip_map {α β : Type} (change : α → β) (keys : List String) (values : List α)
    (name : String) :
    (keys.zip (values.map change)).lookup name = ((keys.zip values).lookup name).map change := by
  induction keys generalizing values with
  | nil => rfl
  | cons key keys ih =>
    cases values with
    | nil => rfl
    | cons value values =>
      simp only [List.map_cons, List.zip_cons_cons, Table.lookup_cons_ite, ih]
      split <;> rfl

namespace Expr

/-- Induction over a tree, where a call may assume the motive for each of its arguments. -/
@[elab_as_elim, induction_eliminator]
theorem treeInduction {motive : Expr → Prop}
    (number : ∀ spelling imaginary position, motive (.number spelling imaginary position))
    (constant : ∀ origin name position, motive (.constant origin name position))
    (call : ∀ origin name position arguments, (∀ argument ∈ arguments, motive argument) →
      motive (.call origin name position arguments))
    (signed : ∀ sign position operand, motive operand → motive (.signed sign position operand))
    (binary : ∀ operator position left right, motive left → motive right →
      motive (.binary operator position left right))
    (value : ∀ known, motive (.value known)) : ∀ expr, motive expr
  | .number spelling imaginary position => number spelling imaginary position
  | .constant origin name position => constant origin name position
  | .call origin name position arguments => call origin name position arguments fun argument _ =>
      treeInduction number constant call signed binary value argument
  | .signed sign position operand => signed sign position operand
      (treeInduction number constant call signed binary value operand)
  | .binary operator position left right => binary operator position left right
      (treeInduction number constant call signed binary value left)
      (treeInduction number constant call signed binary value right)
  | .value known => value known

/-- Substitution in several trees is substitution in each of them. -/
theorem substituteAll_eq_map (bindings : List (String × Expr)) (arguments : List Expr) :
    substituteAll bindings arguments = arguments.map (substitute bindings) := by
  induction arguments with
  | nil => rfl
  | cons first others ih => rw [substituteAll, ih, List.map_cons]

/-- Replacing no names leaves a tree as it is. -/
theorem substitute_nil (expr : Expr) : expr.substitute [] = expr := by
  induction expr with
  | number | constant | value => rfl
  | call origin name position arguments ih =>
    rw [substitute, substituteAll_eq_map, List.map_congr_left ih, List.map_id']
  | signed sign position operand ih => rw [substitute, ih]
  | binary operator position left right leftIh rightIh => rw [substitute, leftIh, rightIh]

/-- The functions called in several trees are those called in each of them. -/
theorem calleesAll_eq_flatMap (arguments : List Expr) :
    calleesAll arguments = arguments.flatMap callees := by
  induction arguments with
  | nil => rfl
  | cons first others ih => rw [calleesAll, ih, List.flatMap_cons]

/-- What an argument of a call calls is called in the call. -/
theorem mem_callees_call {arguments : List Expr} {argument : Expr} {callee : String}
    (member : argument ∈ arguments) (called : callee ∈ argument.callees) (origin : Origin)
    (name : String) (position : Nat) : callee ∈ (call origin name position arguments).callees := by
  have among : callee ∈ calleesAll arguments := by
    rw [calleesAll_eq_flatMap]
    exact List.mem_flatMap.mpr ⟨argument, member, called⟩
  cases origin <;> simp [callees, among]

/-- Several trees have the same values in two interpretations if each of them has. -/
theorem evalAllWith_congr {constant? other? : String → Option Number}
    {first second : String → List Number → Option Number} {arguments : List Expr}
    (same : ∀ argument ∈ arguments,
      argument.evalWith constant? first = argument.evalWith other? second) :
    evalAllWith constant? first arguments = evalAllWith other? second arguments := by
  induction arguments with
  | nil => rfl
  | cons argument others ih =>
    rw [evalAllWith, evalAllWith, same argument List.mem_cons_self,
      ih fun other member => same other (List.mem_cons_of_mem _ member)]

/-- Trees have the same values after two changes if each of them has. -/
theorem evalAllWith_map_congr {constant? : String → Option Number}
    {userCall : String → List Number → Option Number} {first second : Expr → Expr}
    {arguments : List Expr}
    (same : ∀ argument ∈ arguments, (first argument).evalWith constant? userCall =
      (second argument).evalWith constant? userCall) :
    evalAllWith constant? userCall (arguments.map first) =
      evalAllWith constant? userCall (arguments.map second) := by
  induction arguments with
  | nil => rfl
  | cons argument others ih =>
    rw [List.map_cons, List.map_cons, evalAllWith, evalAllWith, same argument List.mem_cons_self,
      ih fun other member => same other (List.mem_cons_of_mem _ member)]

/-- A call evaluates to the same in all interpretations of the user functions that agree on the
functions called in the tree. -/
theorem evalWith_congr (constant? : String → Option Number)
    {first second : String → List Number → Option Number} (expr : Expr)
    (agree : ∀ name ∈ expr.callees, first name = second name) :
    expr.evalWith constant? first = expr.evalWith constant? second := by
  induction expr with
  | number | value => rfl
  | constant origin name position => cases origin <;> rfl
  | call origin name position arguments ih =>
    have same : evalAllWith constant? first arguments = evalAllWith constant? second arguments := by
      apply evalAllWith_congr
      intro argument member
      apply ih argument member
      intro callee called
      exact agree callee (mem_callees_call member called origin name position)
    cases origin with
    | user => simp only [evalWith, same, agree name (by simp [callees])]
    | builtIn | unknown => simp only [evalWith, same]
  | signed sign position operand ih => rw [evalWith, evalWith, ih agree]
  | binary operator position left right leftIh rightIh =>
    rw [evalWith, evalWith, leftIh fun name member => agree name (List.mem_append_left _ member),
      rightIh fun name member => agree name (List.mem_append_right _ member)]

/-- Trees that call nothing bring no calls in where they replace constants. -/
theorem callees_substitute {bindings : List (String × Expr)}
    (silent : ∀ binding ∈ bindings, binding.2.callees = []) (expr : Expr) :
    (expr.substitute bindings).callees = expr.callees := by
  induction expr with
  | number | value => simp only [substitute]
  | constant origin name position =>
    rw [substitute]
    cases found : bindings.lookup name with
    | none => rfl
    | some bound => exact silent (name, bound) (Table.mem_of_lookup found)
  | call origin name position arguments ih =>
    have same : calleesAll (substituteAll bindings arguments) = calleesAll arguments := by
      rw [substituteAll_eq_map, calleesAll_eq_flatMap, calleesAll_eq_flatMap, List.flatMap_map,
        List.flatMap_def, List.flatMap_def, List.map_congr_left ih]
    cases origin <;> simp only [substitute, callees, same]
  | signed sign position operand ih => rw [substitute, callees, callees, ih]
  | binary operator position left right leftIh rightIh =>
    rw [substitute, callees, callees, leftIh, rightIh]

end Expr

end Reckoner
