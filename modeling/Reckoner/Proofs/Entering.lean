import Mathlib.Data.List.Sort
import Reckoner.Proofs.Loading
import Reckoner.Proofs.Origins
/-!
# Definitions that are entered one after the other

Behind the constants of a document, definitions are entered that do not get into each other's way.
The context that they lead to is determined by the constants and by which entries have been entered,
not by their order. A definition that is accepted stays acceptable when more have been entered: its
names stay resolved, and its own name, which is not defined yet, cannot be reached by calls.
-/

open Relation

namespace Reckoner

/-- A table is determined by the values that it holds. -/
theorem Table.eq_of_find? {α : Type} {first second : Table α}
    (same : ∀ name, first.find? name = second.find? name) : first = second := by
  let before (earlier later : String × α) : Prop := earlier.1 < later.1
  have irreflexive : Std.Irrefl before := ⟨fun entry => String.lt_irrefl entry.1⟩
  have antisymmetric : Std.Antisymm before :=
    ⟨fun _ _ less greater => absurd greater (String.lt_asymm less)⟩
  apply eq_of_entries
  apply List.Pairwise.eq_of_mem_iff (r := before) first.ascending second.ascending
  intro entry
  rw [← first.find?_eq_some_iff entry.1 entry.2, ← second.find?_eq_some_iff entry.1 entry.2, same]

/-- A text is the definition of a function with one right side only. -/
theorem IsDefinition.unique {text name : String} {parameters : List String} {right other : Expr}
    (first : IsDefinition text name parameters right)
    (second : IsDefinition text name parameters other) : right = other := by
  obtain ⟨_, _, _, _, read, _⟩ := first
  obtain ⟨_, _, _, _, alsoRead, _⟩ := second
  exact (Expr.binary.inj (Except.ok.inj (read.symm.trans alsoRead))).2.2.2

namespace Context

/-- What a tree calls with the origins of a context is defined in the context. -/
theorem contains_of_mem_callees {context : Context} {callee : String} {expr : Expr}
    (called : callee ∈ (expr.relabel (.resolve context)).callees) :
    context.functions.contains callee = true := by
  induction expr with
  | number | constant | value => exact absurd called List.not_mem_nil
  | call origin name position arguments ih =>
    have among : callee ∈ Expr.calleesAll (arguments.map (Expr.relabel (.resolve context))) →
        context.functions.contains callee = true := by
      rw [Expr.calleesAll_eq_flatMap, List.mem_flatMap]
      rintro ⟨_, member, inside⟩
      obtain ⟨argument, listed, rfl⟩ := List.mem_map.mp member
      exact ih argument listed inside
    rw [Expr.relabel, Expr.relabelAll_eq_map] at called
    have label : (Relabelling.resolve context).function name origin =
        context.functionOrigin name := rfl
    rw [label] at called
    unfold functionOrigin at called
    split at called
    · exact among called
    · split at called
      · next defined =>
        rcases List.mem_cons.mp called with rfl | inside
        · exact defined
        · exact among inside
      · exact among called
  | signed sign position operand ih => exact ih called
  | binary operator position left right leftIh rightIh =>
    rcases List.mem_append.mp called with before | after
    · exact leftIh before
    · exact rightIh after

section

variable {context : Context} {name : String} {parameters : List String} {expr : Expr}
  (resolved : context.Resolved parameters expr) (free : BuiltIn.ofName? name = none)
  (fresh : context.functions.contains name = false)
  (unused : context.constants.find? name = none) (function : UserFunction)

include resolved free fresh unused

/-- What is resolved stays resolved when a function is defined whose name is not in use. -/
theorem Resolved.defineFunction :
    (context.defineFunction name function).Resolved parameters expr := by
  have constants : (context.defineFunction name function).constants = context.constants :=
    Table.erase_eq_self unused
  refine resolved.mono (fun other known => ?_) fun other count known => ?_
  · rwa [constant?, constants]
  · by_cases same : other = name
    · have there := contains_of_arity? known (same ▸ free)
      rw [same, fresh] at there
      contradiction
    · have kept : (context.defineFunction name function).functions.find? other =
          context.functions.find? other :=
        (context.functions.find?_insert ..).trans (if_neg same)
      rwa [arity?, kept]

/-- What is resolved has the same origins when a function is defined whose name is not in use. -/
theorem Resolved.relabel_defineFunction :
    expr.relabel (.resolve context) =
      expr.relabel (.resolve (context.defineFunction name function)) := by
  have constants : (context.defineFunction name function).constants = context.constants :=
    Table.erase_eq_self unused
  have also := resolved.defineFunction free fresh unused function
  refine resolved.relabel_resolve_eq also fun parameter _ => ?_
  rw [constantOrigin, constantOrigin, constants]

end

end Context

namespace Document

/-- The definitions of some entries are entered one after the other, and each of them is accepted.
-/
inductive Applies : Context → List FunctionEntry → Context → Prop
  /-- There is nothing to enter. -/
  | nil (context : Context) : Applies context [] context
  /-- The first definition is accepted, and so are the others behind it. -/
  | cons {context middle last : Context} {entry : FunctionEntry} {others : List FunctionEntry}
    {outcome : Outcome} (entered : context.enter entry.definition = .ok (middle, outcome))
    (rest : Applies middle others last) : Applies context (entry :: others) last

/-- Entries that are entered in two parts. -/
theorem applies_append_iff (context last : Context) (front back : List FunctionEntry) :
    Applies context (front ++ back) last ↔
      ∃ middle, Applies context front middle ∧ Applies middle back last := by
  constructor
  · intro applies
    induction front generalizing context with
    | nil => exact ⟨context, .nil context, applies⟩
    | cons entry others ih =>
      cases applies with
      | cons entered rest =>
        obtain ⟨middle, before, after⟩ := ih _ rest
        exact ⟨middle, .cons entered before, after⟩
  · rintro ⟨middle, before, after⟩
    induction before with
    | nil => exact after
    | cons entered _ ih => exact .cons entered (ih after)

/-- A further definition is entered behind the others. -/
theorem Applies.snoc {start context next : Context} {done : List FunctionEntry}
    {entry : FunctionEntry} {outcome : Outcome} (applies : Applies start done context)
    (entered : context.enter entry.definition = .ok (next, outcome)) :
    Applies start (done ++ [entry]) next :=
  (applies_append_iff ..).mpr ⟨context, applies, .cons entered (.nil next)⟩

/-- The context that some entries lead to: it has the constants of the start and the functions of
the entries. -/
structure Reached (start : Context) (done : List FunctionEntry) (context : Context) : Prop where
  /-- The constants are those of the start. -/
  constants : context.constants = start.constants
  /-- There are no functions but those of the entries. -/
  only : ∀ name, context.functions.contains name = true → ∃ entry ∈ done, entry.name = name
  /-- The functions are those of the entries, and their names are resolved. -/
  defined : ∀ entry ∈ done, ∃ right,
    IsDefinition entry.definition entry.name entry.parameters right ∧
      context.Resolved entry.parameters right ∧
      context.functions.find? entry.name =
        some ⟨entry.parameters, right.relabel (.resolve context), trimMargins entry.definition⟩

namespace Reached

variable {start context other : Context} {done more : List FunctionEntry}

/-- The names of entries that have been entered are functions. -/
theorem contains_iff (reached : Reached start done context) (name : String) :
    context.functions.contains name = true ↔ ∃ entry ∈ done, entry.name = name := by
  constructor
  · exact reached.only name
  · rintro ⟨entry, member, rfl⟩
    obtain ⟨_, _, _, found⟩ := reached.defined entry member
    rw [Table.contains, found]
    rfl

/-- A function takes as many arguments when more entries have been entered. -/
theorem arity?_mono (reached : Reached start done context) (further : Reached start more other)
    (fewer : done ⊆ more) {name : String} {count : Nat}
    (known : context.arity? name = some count) : other.arity? name = some count := by
  unfold Context.arity? at known ⊢
  cases builtIn : BuiltIn.ofName? name with
  | some function => rwa [builtIn] at known
  | none =>
    rw [builtIn] at known
    obtain ⟨function, found, count⟩ := Option.map_eq_some_iff.mp known
    have there : context.functions.contains name = true := by
      rw [Table.contains, found]
      rfl
    obtain ⟨entry, member, rfl⟩ := reached.only name there
    obtain ⟨_, _, _, stored⟩ := reached.defined entry member
    obtain ⟨_, _, _, alsoStored⟩ := further.defined entry (fewer member)
    obtain rfl := Option.some.inj (found.symm.trans stored)
    rw [alsoStored]
    exact congrArg some count

/-- What is resolved stays resolved when more entries have been entered. -/
theorem resolved_mono (reached : Reached start done context) (further : Reached start more other)
    (fewer : done ⊆ more) {parameters : List String} {expr : Expr}
    (resolved : context.Resolved parameters expr) : other.Resolved parameters expr := by
  refine resolved.mono (fun name known => ?_)
    fun _ _ known => reached.arity?_mono further fewer known
  rwa [Context.constant?, further.constants, ← reached.constants]

/-- Calls lead from functions to functions. -/
theorem closed (reached : Reached start done context) {caller callee : String}
    (call : context.Calls caller callee) : context.functions.contains callee = true := by
  obtain ⟨function, found, called⟩ := call
  have there : context.functions.contains caller = true := by
    rw [Table.contains, found]
    rfl
  obtain ⟨entry, member, rfl⟩ := reached.only caller there
  obtain ⟨_, _, _, stored⟩ := reached.defined entry member
  obtain rfl := Option.some.inj (found.symm.trans stored)
  exact Context.contains_of_mem_callees called

/-- No call leads to a name that is not defined. -/
theorem not_path (reached : Reached start done context) {name : String}
    (fresh : context.functions.contains name = false) (right : Expr) :
    ∀ callee ∈ (right.relabel (.resolve context)).callees,
      ¬ ReflTransGen context.Calls callee name := by
  intro callee called path
  have there : context.functions.contains name = true := by
    induction path with
    | refl => exact Context.contains_of_mem_callees called
    | tail _ call _ => exact reached.closed call
  rw [fresh] at there
  contradiction

/-- A tree that is resolved in two contexts with the same constants has the same origins there. -/
theorem relabel_eq (reached : Reached start done context) (further : Reached start more other)
    {parameters : List String} {expr : Expr} (resolved : context.Resolved parameters expr)
    (also : other.Resolved parameters expr) :
    expr.relabel (.resolve context) = expr.relabel (.resolve other) := by
  refine resolved.relabel_resolve_eq also fun parameter _ => ?_
  rw [Context.constantOrigin, Context.constantOrigin, reached.constants, further.constants]

/-- The same entries lead to the same context. -/
theorem eq (reached : Reached start done context) (further : Reached start more other)
    (same : ∀ entry, entry ∈ done ↔ entry ∈ more) : context = other := by
  have found {name : String} {function : UserFunction}
      {done more : List FunctionEntry} {context other : Context}
      (reached : Reached start done context) (further : Reached start more other)
      (fewer : done ⊆ more) (held : context.functions.find? name = some function) :
      other.functions.find? name = some function := by
    have there : context.functions.contains name = true := by
      rw [Table.contains, held]
      rfl
    obtain ⟨entry, member, rfl⟩ := reached.only name there
    obtain ⟨right, definition, resolved, stored⟩ := reached.defined entry member
    obtain ⟨also, alsoDefinition, alsoResolved, alsoStored⟩ := further.defined entry (fewer member)
    obtain rfl := definition.unique alsoDefinition
    rw [alsoStored, ← held, stored, reached.relabel_eq further resolved alsoResolved]
  have functions : context.functions = other.functions := by
    apply Table.eq_of_find?
    intro name
    apply Option.ext
    intro function
    exact ⟨found reached further fun entry => (same entry).mp,
      found further reached fun entry => (same entry).mpr⟩
  have constants := reached.constants.trans further.constants.symm
  cases context
  cases other
  simp only at functions constants
  rw [functions, constants]

/-- An entry that is accepted behind others leads to the context of them all. -/
theorem snoc (reached : Reached start done context) {entry : FunctionEntry} {right : Expr}
    (fresh : context.functions.contains entry.name = false)
    (apart : start.constants.find? entry.name = none)
    (definition : IsDefinition entry.definition entry.name entry.parameters right)
    (accepts : context.Accepts entry.name entry.parameters right) :
    Reached start (done ++ [entry]) (context.defineFunction entry.name
      ⟨entry.parameters, right.relabel (.resolve context), trimMargins entry.definition⟩) := by
  have unused : context.constants.find? entry.name = none := reached.constants ▸ apart
  have grown {parameters : List String} {expr : Expr}
      (resolved : context.Resolved parameters expr) :=
    resolved.defineFunction accepts.free fresh unused
  have labels {parameters : List String} {expr : Expr}
      (resolved : context.Resolved parameters expr) :=
    resolved.relabel_defineFunction accepts.free fresh unused
  refine ⟨?_, fun name there => ?_, fun other member => ?_⟩
  · exact (Table.erase_eq_self unused).trans reached.constants
  · rcases (contains_defineFunction ..).mp there with rfl | before
    · exact ⟨entry, by simp, rfl⟩
    · obtain ⟨earlier, member, same⟩ := reached.only name before
      exact ⟨earlier, List.mem_append_left _ member, same⟩
  · rcases List.mem_append.mp member with before | last
    · obtain ⟨plain, others, resolved, stored⟩ := reached.defined other before
      have different : other.name ≠ entry.name := by
        intro same
        have there := (reached.contains_iff other.name).mpr ⟨other, before, rfl⟩
        rw [same, fresh] at there
        contradiction
      refine ⟨plain, others, grown resolved _, ?_⟩
      rw [← labels resolved]
      exact ((context.functions.find?_insert ..).trans (if_neg different)).trans stored
    · obtain rfl := List.mem_singleton.mp last
      refine ⟨right, definition, grown accepts.resolved _, ?_⟩
      rw [← labels accepts.resolved]
      exact (context.functions.find?_insert ..).trans (if_pos rfl)

/-- A definition that is accepted stays acceptable when more entries have been entered, as long as
its name is not defined. -/
theorem accepts_mono (reached : Reached start done context) (further : Reached start more other)
    (fewer : done ⊆ more) {name : String} {parameters : List String} {right : Expr}
    (fresh : other.functions.contains name = false)
    (accepts : context.Accepts name parameters right) : other.Accepts name parameters right where
  free := accepts.free
  distinct := accepts.distinct
  bindable := accepts.bindable
  resolved := reached.resolved_mono further fewer accepts.resolved
  acyclic := further.not_path fresh right

end Reached

end Document

end Reckoner
