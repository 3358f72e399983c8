import Mathlib.Data.Finset.Card
import Mathlib.Data.List.Dedup
import Reckoner.Proofs.Changes
/-!
# No function leads back to itself

A definition is accepted only if no call of its body leads to the name that is defined, by way of
the stored bodies, whether or not the names in them are defined. So no change closes a cycle of
calls. Since the calls of a body lead to fewer functions than the function itself, evaluation ends
on every tree, and the bound on the depth of calls cuts nothing off.
-/

open Relation

namespace Reckoner

/-- No function leads to itself along calls of stored bodies. -/
def Table.Acyclic (functions : Table UserFunction) : Prop :=
  ∀ name, ¬ TransGen functions.Calls name name

/-- An erased function closes no cycle. -/
theorem Table.Acyclic.erase {functions : Table UserFunction} (acyclic : functions.Acyclic)
    (name : String) : (functions.erase name).Acyclic := by
  intro start cycle
  apply acyclic start
  exact TransGen.mono (fun _ _ call => ((calls_erase ..).mp call).2) _ _ cycle

/-- A path to the name of an inserted function can be taken up to its first visit of the name, so it
needs the earlier calls only. -/
theorem path_of_insert {functions : Table UserFunction} {name start : String}
    {function : UserFunction}
    (path : ReflTransGen (functions.insert name function).Calls start name) :
    ReflTransGen functions.Calls start name := by
  induction path using ReflTransGen.head_induction_on with
  | refl => exact .refl
  | @head caller callee call _ ih =>
    rw [calls_insert] at call
    by_cases same : caller = name
    · rw [same]
    · rw [if_neg same] at call
      exact ih.head call

/-- A path with an inserted function was there before or passes the function. -/
theorem path_insert {functions : Table UserFunction} {name start target : String}
    {function : UserFunction}
    (path : TransGen (functions.insert name function).Calls start target) :
    TransGen functions.Calls start target ∨
      ReflTransGen (functions.insert name function).Calls start name ∧
        TransGen (functions.insert name function).Calls name target := by
  have earlier {caller callee : String} (different : caller ≠ name)
      (call : (functions.insert name function).Calls caller callee) :
      functions.Calls caller callee := by
    rwa [calls_insert, if_neg different] at call
  induction path with
  | @single target call =>
    by_cases same : start = name
    · subst same
      exact Or.inr ⟨.refl, .single call⟩
    · exact Or.inl (.single (earlier same call))
  | @tail middle target front call ih =>
    by_cases same : middle = name
    · subst same
      exact Or.inr ⟨front.to_reflTransGen, .single call⟩
    · rcases ih with direct | ⟨toName, fromName⟩
      · exact Or.inl (direct.tail (earlier same call))
      · exact Or.inr ⟨toName, fromName.tail call⟩

/-- An inserted function closes no cycle if no call of its body leads to its name. -/
theorem Table.Acyclic.insert {functions : Table UserFunction} (acyclic : functions.Acyclic)
    {name : String} {function : UserFunction}
    (free : ∀ callee ∈ function.body.callees, ¬ ReflTransGen functions.Calls callee name) :
    (functions.insert name function).Acyclic := by
  intro start cycle
  rcases path_insert cycle with direct | ⟨toName, fromName⟩
  · exact acyclic start direct
  · obtain ⟨callee, call, back⟩ := TransGen.head'_iff.mp (fromName.trans_left toName)
    rw [calls_insert, if_pos rfl] at call
    exact free callee call (path_of_insert back)

namespace Context

/-- No change closes a cycle of calls. -/
theorem kept_acyclic : Kept fun context => context.functions.Acyclic where
  fresh := by
    intro name cycle
    obtain ⟨callee, ⟨function, found, _⟩, _⟩ := TransGen.head'_iff.mp cycle
    contradiction
  defineConstant _ name _ acyclic := acyclic.erase name
  defineFunction context _ _ _ acyclic defines := acyclic.insert (defines.free context)
  removeConstant _ _ acyclic := acyclic
  removeFunction _ name acyclic := acyclic.erase name

variable (context : Context)

/-- The number of stored functions that a name leads to, itself included if it is stored. -/
def height (name : String) : Nat :=
  ((context.functions.entries.map Prod.fst).toFinset.filter
    fun target => context.leadsTo name target = true).card

/-- A name leads to at most as many functions as there are. -/
theorem height_le_size (name : String) : context.height name ≤ context.functions.size := by
  calc context.height name
      ≤ (context.functions.entries.map Prod.fst).toFinset.card := Finset.card_filter_le ..
    _ ≤ (context.functions.entries.map Prod.fst).length := List.toFinset_card_le _
    _ = context.functions.size := List.length_map ..

variable {context}

/-- A stored function is among those that a name leads to if there is a path of calls. -/
theorem mem_height_iff {name target : String} :
    target ∈ (context.functions.entries.map Prod.fst).toFinset.filter
        (fun target => context.leadsTo name target = true) ↔
      target ∈ context.functions.entries.map Prod.fst ∧
        ReflTransGen context.Calls name target := by
  rw [Finset.mem_filter, List.mem_toFinset, leadsTo_eq_true_iff]

/-- A function that is found is stored. -/
theorem mem_names_of_find? {name : String} {function : UserFunction}
    (found : context.functions.find? name = some function) :
    name ∈ context.functions.entries.map Prod.fst :=
  List.mem_map_of_mem (f := Prod.fst) (Table.mem_of_lookup found)

/-- A stored function leads to itself at least. -/
theorem height_pos {name : String} {function : UserFunction}
    (found : context.functions.find? name = some function) : 0 < context.height name :=
  Finset.card_pos.mpr ⟨name, mem_height_iff.mpr ⟨mem_names_of_find? found, .refl⟩⟩

/-- Without cycles, a called function leads to fewer functions than its caller. -/
theorem height_lt_of_calls (acyclic : context.functions.Acyclic) {caller callee : String}
    (call : context.Calls caller callee) : context.height callee < context.height caller := by
  apply Finset.card_lt_card
  rw [Finset.ssubset_iff_of_subset]
  · have ⟨function, found, _⟩ := call
    refine ⟨caller, mem_height_iff.mpr ⟨mem_names_of_find? found, .refl⟩, ?_⟩
    intro member
    exact acyclic caller (TransGen.head' call (mem_height_iff.mp member).2)
  · intro target member
    obtain ⟨stored, path⟩ := mem_height_iff.mp member
    exact mem_height_iff.mpr ⟨stored, path.head call⟩

/-- An expanded call calls what the stored body of the function calls. -/
theorem calls_of_expand? {name callee : String} {values : List Number} {body : Expr}
    (expanded : context.expand? name (values.map .value) = some body)
    (called : callee ∈ body.callees) : context.Calls name callee := by
  unfold expand? at expanded
  split at expanded
  · next function found =>
    split at expanded
    · obtain rfl := Option.some.inj expanded
      have silent : ∀ binding ∈ function.parameters.zip (values.map Expr.value),
          binding.2.callees = [] := by
        intro binding member
        obtain ⟨value, _, same⟩ := List.mem_map.mp (List.of_mem_zip member).2
        rw [← same, Expr.callees]
      rw [Expr.callees_substitute silent] at called
      exact ⟨function, found, called⟩
    · contradiction
  · contradiction

variable (context)

/-- To evaluate `whole`, evaluation goes into `part`: a part of the tree, or the body of a called
function with values in place of its parameters. -/
inductive Demands (context : Context) : Expr → Expr → Prop
  /-- The arguments of a call are evaluated. -/
  | argument (origin : Origin) (name : String) (position : Nat) {arguments : List Expr}
    {argument : Expr} (member : argument ∈ arguments) :
    Demands context argument (.call origin name position arguments)
  /-- The body of a called user function is evaluated. -/
  | body {name : String} (position : Nat) (arguments : List Expr) {values : List Number}
    {body : Expr} (expanded : context.expand? name (values.map .value) = some body) :
    Demands context body (.call .user name position arguments)
  /-- An operand with a sign is evaluated. -/
  | operand (sign : Sign) (position : Nat) (operand : Expr) :
    Demands context operand (.signed sign position operand)
  /-- The left operand is evaluated. -/
  | left (operator : Operator) (position : Nat) (left right : Expr) :
    Demands context left (.binary operator position left right)
  /-- The right operand is evaluated. -/
  | right (operator : Operator) (position : Nat) (left right : Expr) :
    Demands context right (.binary operator position left right)

/-- Evaluation that follows its demands evaluates the calls of user functions by expanding them. -/
def Unfolds (evaluation : Expr → Option Number) : Prop :=
  ∀ expr, evaluation expr = expr.evalWith context.constant? fun name values =>
    (context.expand? name (values.map .value)).bind evaluation

variable {context}

/-- Without cycles, evaluation goes down from a tree only finitely often, if the functions that the
tree calls lead to fewer than `bound` functions each. -/
theorem acc_demands (acyclic : context.functions.Acyclic) (bound : Nat) (expr : Expr)
    (below : ∀ callee ∈ expr.callees, context.height callee < bound) :
    Acc context.Demands expr := by
  -- The bound decreases where a call is expanded, the tree where its parts are evaluated.
  induction bound using Nat.strong_induction_on generalizing expr with
  | h bound boundIh =>
    induction expr with
    | number | constant | value => exact .intro _ fun _ demand => nomatch demand
    | call origin name position arguments ih =>
      refine .intro _ fun part demand => ?_
      cases demand with
      | argument _ _ _ member =>
        apply ih part member
        intro callee called
        exact below callee (Expr.mem_callees_call member called origin name position)
      | body _ _ expanded =>
        apply boundIh (context.height name) (below name List.mem_cons_self)
        intro callee called
        exact height_lt_of_calls acyclic (calls_of_expand? expanded called)
    | signed sign position operand ih =>
      refine .intro _ fun part demand => ?_
      cases demand
      exact ih below
    | binary operator position left right leftIh rightIh =>
      refine .intro _ fun part demand => ?_
      cases demand with
      | left => exact leftIh fun callee called => below callee (List.mem_append_left _ called)
      | right => exact rightIh fun callee called => below callee (List.mem_append_right _ called)

/-- Without cycles, the depth within which calls nest does not matter from the number of functions
on that the called one leads to. -/
theorem callWithin_congr (acyclic : context.functions.Acyclic) {first second : Nat} {name : String}
    (enough : context.height name ≤ first) (alsoEnough : context.height name ≤ second) :
    context.callWithin first name = context.callWithin second name := by
  funext values
  have expanded {depth : Nat} (reached : context.height name ≤ depth) :
      context.callWithin depth name values =
        (context.expand? name (values.map .value)).bind
          (Expr.evalWith context.constant? (context.callWithin (depth - 1))) := by
    cases depth with
    | succ depth => rfl
    | zero =>
      have missing : context.functions.find? name = none := by
        rw [← Option.not_isSome_iff_eq_none, Option.isSome_iff_exists]
        rintro ⟨function, found⟩
        have positive := height_pos found
        omega
      rw [callWithin, expand?, missing]
      rfl
  rw [expanded enough, expanded alsoEnough]
  apply Option.bind_congr
  intro body bodyFound
  apply Expr.evalWith_congr
  intro callee called
  have lower := height_lt_of_calls acyclic (calls_of_expand? bodyFound called)
  exact callWithin_congr acyclic (by omega) (by omega)
termination_by context.height name

/-- Without cycles, the depth that evaluation starts with cuts no call off. -/
theorem callWithin_size_eq (acyclic : context.functions.Acyclic) (name : String)
    (values : List Number) :
    context.callWithin context.functions.size name values =
      (context.expand? name (values.map .value)).bind context.eval? := by
  have reached := context.height_le_size name
  rw [callWithin_congr acyclic reached (Nat.le_succ_of_le reached)]
  rfl

/-- Without cycles, the evaluation of a context unfolds calls without a bound on their depth. -/
theorem unfolds_eval? (acyclic : context.functions.Acyclic) : context.Unfolds context.eval? := by
  intro expr
  apply Expr.evalWith_congr
  intro callee _
  funext values
  exact callWithin_size_eq acyclic callee values

/-- Induction along calls: without cycles, the motive may be assumed for all trees that call only
what the body of a called function calls. -/
theorem callInduction (acyclic : context.functions.Acyclic) {motive : Expr → Prop}
    (step : ∀ expr : Expr, (∀ callee ∈ expr.callees, ∀ body : Expr,
      (∀ inner ∈ body.callees, context.Calls callee inner) → motive body) → motive expr)
    (expr : Expr) : motive expr := by
  have below (bound : Nat) : ∀ expr : Expr,
      (∀ callee ∈ expr.callees, context.height callee < bound) → motive expr := by
    induction bound using Nat.strong_induction_on with
    | h bound ih =>
      intro expr within
      apply step
      intro callee called body calls
      apply ih (context.height callee) (within callee called)
      intro inner innerCalled
      exact height_lt_of_calls acyclic (calls inner innerCalled)
  apply below (context.functions.size + 1)
  intro callee _
  exact Nat.lt_succ_of_le (context.height_le_size callee)

/-- Without cycles, two evaluations that unfold calls agree. -/
theorem Unfolds.eq (acyclic : context.functions.Acyclic) {first second : Expr → Option Number}
    (firstUnfolds : context.Unfolds first) (secondUnfolds : context.Unfolds second) :
    first = second := by
  funext expr
  induction expr using callInduction acyclic with
  | step expr ih =>
    rw [firstUnfolds expr, secondUnfolds expr]
    apply Expr.evalWith_congr
    intro callee called
    funext values
    apply Option.bind_congr
    intro body expanded
    exact ih callee called body fun inner innerCalled => calls_of_expand? expanded innerCalled

/-- After every run of changes no function leads to itself along the calls of stored bodies, also by
way of names that are not defined. Evaluation of every tree goes down only finitely often, and it is
the only one that evaluates calls by expanding them. -/
theorem run_acyclic_and_evaluation_ends (changes : List Change) :
    (run changes).functions.Acyclic ∧ WellFounded (run changes).Demands ∧
      ∀ evaluation, (run changes).Unfolds evaluation ↔ evaluation = (run changes).eval? := by
  have acyclic := kept_acyclic.run changes
  refine ⟨acyclic, ⟨fun expr => ?_⟩, fun evaluation => ⟨?_, ?_⟩⟩
  · apply acc_demands acyclic ((run changes).functions.size + 1)
    intro callee _
    exact Nat.lt_succ_of_le ((run changes).height_le_size callee)
  · exact fun unfolds => unfolds.eq acyclic (unfolds_eval? acyclic)
  · rintro rfl
    exact unfolds_eval? acyclic

-- The body of `f` still calls `g`, so `g` cannot come back as a function that calls `f`.
example : ((run [.enter "g(x) = x", .enter "f(x) = g(x)", .remove "g"]).enter
    "g(x) = f(x)").isOk = false := by
  decide +kernel

end Context

end Reckoner
