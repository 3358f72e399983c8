import Reckoner.Proofs.Saving
import Reckoner.Proofs.Stored
/-!
# Loading the functions of a saved context

While the document of a context is loaded, the functions defined so far are like those of the
context. A definition is refused only as long as a name of its body is not resolved, and since no
function leads to itself, one of the pending definitions is resolved whenever all are resolved in
the context. So all functions can be defined exactly if every stored body is resolved in the
context, and then they are like those of the context.
-/

open Relation

namespace Reckoner

/-- Taking a name out of a table that does not have it changes nothing. -/
theorem Table.erase_eq_self {α : Type} {table : Table α} {name : String}
    (absent : table.find? name = none) : table.erase name = table := by
  apply eq_of_entries
  apply List.filter_eq_self.mpr
  intro entry member
  apply bne_iff_ne.mpr
  rintro rfl
  rw [(table.find?_eq_some_iff entry.1 entry.2).mpr member] at absent
  contradiction

namespace Context

/-- Every stored function has its definition as text, and no name is a function and a constant. -/
structure Stores (context : Context) : Prop where
  /-- The texts of functions are their definitions. -/
  stored : ∀ name function, context.functions.find? name = some function → Stored name function
  /-- The name of a function is not that of a constant. -/
  apart : ∀ name function, context.functions.find? name = some function →
    context.constants.find? name = none

/-- Every change keeps the names of functions apart from those of constants. -/
theorem kept_apart : Kept fun context => ∀ name function,
    context.functions.find? name = some function → context.constants.find? name = none where
  fresh _ _ _ := rfl
  defineConstant context name value apart other function found := by
    simp only [defineConstant, Table.find?_erase, Table.find?_insert] at found ⊢
    split at found
    · contradiction
    · next different =>
      rw [if_neg different]
      exact apart other function found
  defineFunction context line name function apart _ other stored found := by
    simp only [defineFunction, Table.find?_insert, Table.find?_erase] at found ⊢
    split at found
    · next same => rw [if_pos same]
    · next different =>
      rw [if_neg different]
      exact apart other stored found
  removeConstant context name apart other function found := by
    rw [removeConstant, Table.find?_erase, apart other function found, ite_self]
  removeFunction context name apart other function found := by
    simp only [removeFunction, Table.find?_erase] at found
    split at found
    · contradiction
    · exact apart other function found

/-- Every change keeps the texts of functions and the names apart. -/
theorem kept_stores : Kept Stores :=
  have stored := kept_functions Defines.stored
  { fresh := ⟨stored.fresh, kept_apart.fresh⟩
    defineConstant := fun context name value stores =>
      ⟨stored.defineConstant context name value stores.stored,
        kept_apart.defineConstant context name value stores.apart⟩
    defineFunction := fun context line name function stores defines =>
      ⟨stored.defineFunction context line name function stores.stored defines,
        kept_apart.defineFunction context line name function stores.apart defines⟩
    removeConstant := fun context name stores =>
      ⟨stored.removeConstant context name stores.stored,
        kept_apart.removeConstant context name stores.apart⟩
    removeFunction := fun context name stores =>
      ⟨stored.removeFunction context name stores.stored,
        kept_apart.removeFunction context name stores.apart⟩ }

/-- Every name of every stored body is a parameter or is defined, and every call has as many
arguments as the function takes. -/
def Complete (context : Context) : Prop :=
  ∀ name function, context.functions.find? name = some function →
    context.Resolved function.parameters function.body

/-- The bodies are resolved exactly if those of all entries are. -/
theorem complete_iff (context : Context) : context.Complete ↔
    ∀ entry ∈ context.functions.entries, context.Resolved entry.2.parameters entry.2.body := by
  simp only [Complete, Table.find?_eq_some_iff]
  exact ⟨fun all entry member => all entry.1 entry.2 member,
    fun all name function member => all (name, function) member⟩

instance (context : Context) : Decidable context.Complete :=
  decidable_of_iff' _ context.complete_iff

/-- A tree that is resolved stays resolved where constants stay defined and functions keep the
number of their arguments. -/
theorem Resolved.mono {first second : Context} {parameters : List String} {expr : Expr}
    (resolved : first.Resolved parameters expr)
    (constants : ∀ name, (first.constant? name).isSome = true →
      (second.constant? name).isSome = true)
    (arities : ∀ name count, first.arity? name = some count → second.arity? name = some count) :
    second.Resolved parameters expr := by
  induction resolved with
  | number => exact .number ..
  | value => exact .value _
  | constant origin position known =>
    exact .constant origin position (known.imp_right (constants _))
  | call origin position known _ ih => exact .call origin position (arities _ _ known) ih
  | signed sign position _ ih => exact .signed sign position ih
  | binary position pure _ _ firstIh secondIh => exact .binary position pure firstIh secondIh

/-- A name that takes arguments and is not built in is a function of the user. -/
theorem contains_of_arity? {context : Context} {name : String} {count : Nat}
    (known : context.arity? name = some count) (user : BuiltIn.ofName? name = none) :
    context.functions.contains name = true := by
  rw [Context.arity?, user] at known
  obtain ⟨function, found, _⟩ := Option.map_eq_some_iff.mp known
  rw [Table.contains, found, Option.isSome_some]

/-- The context has the constants of `whole`, and functions like those of `whole`. -/
structure Part (part whole : Context) : Prop where
  /-- The constants are the same. -/
  constants : part.constants = whole.constants
  /-- The functions are like those of the same name. -/
  functions : ∀ name other, part.functions.find? name = some other →
    ∃ function, whole.functions.find? name = some function ∧ function.Alike other

namespace Part

variable {part whole : Context} (isPart : part.Part whole)

include isPart

/-- The functions take as many arguments as in the whole. -/
theorem arity? {name : String} {count : Nat} (known : part.arity? name = some count) :
    whole.arity? name = some count := by
  unfold Context.arity? at known ⊢
  cases builtIn : BuiltIn.ofName? name with
  | some function => rwa [builtIn] at known
  | none =>
    rw [builtIn] at known
    obtain ⟨other, found, rfl⟩ := Option.map_eq_some_iff.mp known
    obtain ⟨function, stored, alike⟩ := isPart.functions name other found
    exact Option.map_eq_some_iff.mpr ⟨function, stored, by rw [alike.parameters]⟩

/-- Constants have the same values as in the whole. -/
theorem constant?_eq : part.constant? = whole.constant? := by
  funext name
  rw [constant?, constant?, isPart.constants]

/-- What is resolved in the part is resolved in the whole. -/
theorem resolved {parameters : List String} {expr : Expr}
    (resolved : part.Resolved parameters expr) : whole.Resolved parameters expr :=
  resolved.mono (fun _ known => isPart.constant?_eq ▸ known) fun _ _ known => isPart.arity? known

/-- A function of the part takes as many arguments as in the whole. -/
theorem arity?_of_contains {name : String} {count : Nat} (known : whole.arity? name = some count)
    (there : BuiltIn.ofName? name = none → part.functions.contains name = true) :
    part.arity? name = some count := by
  unfold Context.arity? at known ⊢
  cases builtIn : BuiltIn.ofName? name with
  | some function => rwa [builtIn] at known
  | none =>
    rw [builtIn] at known
    obtain ⟨other, found⟩ := Option.isSome_iff_exists.mp (there builtIn)
    obtain ⟨function, stored, alike⟩ := isPart.functions name other found
    rw [stored] at known
    rw [found, ← known]
    exact congrArg (fun parameters : List String => some parameters.length) alike.parameters.symm

/-- What is resolved in a part is resolved in a part that has all its functions. -/
theorem resolved_of_grown {next : Context} (alsoPart : next.Part whole)
    (grown : ∀ name, part.functions.contains name = true → next.functions.contains name = true)
    {parameters : List String} {expr : Expr} (resolved : part.Resolved parameters expr) :
    next.Resolved parameters expr := by
  have same : part.constant? = next.constant? :=
    isPart.constant?_eq.trans alsoPart.constant?_eq.symm
  refine resolved.mono (fun _ known => same ▸ known) fun name count known => ?_
  refine alsoPart.arity?_of_contains (isPart.arity? known) fun user => grown name ?_
  exact contains_of_arity? known user

/-- The functions call what those of the whole call. -/
theorem calls {caller callee : String} (call : part.Calls caller callee) :
    whole.Calls caller callee := by
  obtain ⟨other, found, called⟩ := call
  obtain ⟨function, stored, alike⟩ := isPart.functions caller other found
  exact ⟨function, stored, alike.callees ▸ called⟩

/-- A function like that of the whole can be defined. -/
theorem defineFunction {name : String} {function other : UserFunction}
    (found : whole.functions.find? name = some function) (alike : function.Alike other)
    (absent : whole.constants.find? name = none) :
    (part.defineFunction name other).Part whole where
  constants := by
    show part.constants.erase name = whole.constants
    rw [isPart.constants, Table.erase_eq_self absent]
  functions key stored storedFound := by
    simp only [Context.defineFunction, Table.find?_insert] at storedFound
    split at storedFound
    · next same =>
      obtain rfl := Option.some.inj storedFound
      exact ⟨function, same ▸ found, alike⟩
    · exact isPart.functions key stored storedFound

end Part

end Context

namespace Document

/-- The entry describes a function of the context. -/
def FunctionEntry.Of (entry : FunctionEntry) (whole : Context) : Prop :=
  ∃ function, whole.functions.find? entry.name = some function ∧
    entry.definition = function.definition ∧ entry.parameters = function.parameters

/-- The body of the function that the entry names is resolved in a context. -/
def FunctionEntry.ResolvedIn (entry : FunctionEntry) (whole context : Context) : Prop :=
  ∀ function, whole.functions.find? entry.name = some function →
    context.Resolved function.parameters function.body

/-- What a round of tries does that starts with a part of a context. -/
structure Round (whole start : Context) (pending : List FunctionEntry) (next : Context)
    (refused : List (FunctionEntry × Rejection)) : Prop where
  /-- It ends with a part of the context. -/
  isPart : next.Part whole
  /-- No function is lost. -/
  grown : ∀ name, start.functions.contains name = true → next.functions.contains name = true
  /-- Refused entries are pending ones in their order. -/
  sublist : (refused.map Prod.fst).Sublist pending
  /-- The other entries are defined, and their bodies are resolved in the context. -/
  covered : ∀ entry ∈ pending, entry ∈ refused.map Prod.fst ∨
    next.functions.contains entry.name = true ∧ entry.ResolvedIn whole whole
  /-- The bodies of refused entries are not resolved at the start. -/
  unresolved : ∀ entry ∈ refused.map Prod.fst, ¬ entry.ResolvedIn whole start

variable {whole : Context}

/-- A defined function is there, and so are those that were there before. -/
theorem contains_defineFunction (context : Context) (name : String) (function : UserFunction)
    (other : String) : (context.defineFunction name function).functions.contains other = true ↔
      other = name ∨ context.functions.contains other = true := by
  rw [Context.defineFunction, Table.contains, Table.find?_insert]
  split
  · next same => simp [same]
  · next different => simp [different, Table.contains]

/-- A definition that is refused has a body that is not resolved. -/
theorem not_resolvedIn_of_refused (stores : whole.Stores) (acyclic : whole.functions.Acyclic)
    {start : Context} (isPart : start.Part whole) {entry : FunctionEntry}
    (described : entry.Of whole) {rejection : Rejection}
    (refused : start.enter entry.definition = .error rejection) :
    ¬ entry.ResolvedIn whole start := by
  intro resolvedIn
  obtain ⟨function, found, text, _⟩ := described
  have free : ∀ callee ∈ function.body.callees,
      ¬ ReflTransGen start.Calls callee entry.name := by
    intro callee called path
    have back := ReflTransGen.mono (fun _ _ call => isPart.calls call) _ _ path
    exact acyclic entry.name (.head' ⟨function, found, called⟩ back)
  have stored := stores.stored entry.name function found
  obtain ⟨_, _, accepted⟩ := stored.enter (resolvedIn function found) free
  rw [text, accepted] at refused
  contradiction

/-- A refused entry waits for the next round. -/
theorem Round.refuse {start next : Context} {entry : FunctionEntry} {others : List FunctionEntry}
    {refused : List (FunctionEntry × Rejection)} (spec : Round whole start others next refused)
    (unresolved : ¬ entry.ResolvedIn whole start) (rejection : Rejection) :
    Round whole start (entry :: others) next ((entry, rejection) :: refused) where
  isPart := spec.isPart
  grown := spec.grown
  sublist := spec.sublist.cons_cons entry
  covered other member := by
    rcases List.mem_cons.mp member with rfl | later
    · exact Or.inl List.mem_cons_self
    · exact (spec.covered other later).imp_left (List.mem_cons_of_mem entry)
  unresolved := List.forall_mem_cons.mpr ⟨unresolved, spec.unresolved⟩

/-- A round goes on with the context that an accepted entry leads to. -/
theorem Round.accept {start middle next : Context} {entry : FunctionEntry}
    {others : List FunctionEntry} {refused : List (FunctionEntry × Rejection)}
    (spec : Round whole middle others next refused) (isPart : start.Part whole)
    (middlePart : middle.Part whole)
    (grown : ∀ name, start.functions.contains name = true → middle.functions.contains name = true)
    (defined : middle.functions.contains entry.name = true)
    (resolved : entry.ResolvedIn whole whole) :
    Round whole start (entry :: others) next refused where
  isPart := spec.isPart
  grown name there := spec.grown name (grown name there)
  sublist := spec.sublist.cons entry
  covered other member := by
    rcases List.mem_cons.mp member with rfl | later
    · exact Or.inr ⟨spec.grown _ defined, resolved⟩
    · exact spec.covered other later
  unresolved other member resolvedIn := by
    apply spec.unresolved other member
    intro function found
    exact isPart.resolved_of_grown middlePart grown (resolvedIn function found)

/-- Every round of tries ends, whatever is pending. -/
theorem exists_round (stores : whole.Stores) (acyclic : whole.functions.Acyclic) {start : Context}
    (isPart : start.Part whole) {pending : List FunctionEntry}
    (described : ∀ entry ∈ pending, entry.Of whole) :
    ∃ next refused, defineRound start pending = .ok (next, refused) ∧
      Round whole start pending next refused := by
  induction pending generalizing start with
  | nil => exact ⟨start, [], rfl, isPart, fun _ there => there, .slnil, nofun, nofun⟩
  | cons entry others ih =>
    obtain ⟨describedHere, describedOthers⟩ := List.forall_mem_cons.mp described
    rw [defineRound]
    cases entered : start.enter entry.definition with
    | error rejection =>
      have unresolved := not_resolvedIn_of_refused stores acyclic isPart describedHere entered
      obtain ⟨next, refused, round, spec⟩ := ih isPart describedOthers
      refine ⟨next, (entry, rejection) :: refused, ?_, spec.refuse unresolved rejection⟩
      show defineRound start others >>= _ = _
      rw [round]
      rfl
    | ok result =>
      obtain ⟨middle, outcome⟩ := result
      obtain ⟨function, found, text, parameters⟩ := describedHere
      have stored := stores.stored entry.name function found
      rw [text] at entered
      obtain ⟨other, alike, rfl, rfl, resolved⟩ := stored.of_enter entered
      have middlePart := isPart.defineFunction found alike (stores.apart entry.name function found)
      have met : entry.metBy (start.defineFunction entry.name other) .defined = true := by
        rw [FunctionEntry.metBy, Context.defineFunction, Table.find?_insert, if_pos rfl]
        simp [parameters, alike.parameters]
      have resolvedIn : entry.ResolvedIn whole whole := by
        intro again alsoFound
        obtain rfl := Option.some.inj (found.symm.trans alsoFound)
        exact isPart.resolved resolved
      obtain ⟨next, refused, round, spec⟩ := ih middlePart describedOthers
      refine ⟨next, refused, ?_, spec.accept isPart middlePart
        (fun name there => (contains_defineFunction ..).mpr (Or.inr there))
        ((contains_defineFunction ..).mpr (Or.inl rfl)) resolvedIn⟩
      simp only [met, if_true]
      exact round

/-- What is described is described by a part of the list as well. -/
theorem Round.described {start next : Context} {pending : List FunctionEntry}
    {refused : List (FunctionEntry × Rejection)} (spec : Round whole start pending next refused)
    (described : ∀ entry ∈ pending, entry.Of whole) :
    ∀ entry ∈ refused.map Prod.fst, entry.Of whole :=
  fun entry member => described entry (spec.sublist.subset member)

/-- Loading that succeeds ends with a part of the context in which all entries are defined, and the
bodies of their functions are resolved in the context. -/
theorem of_defineAll (stores : whole.Stores) (acyclic : whole.functions.Acyclic)
    {start next : Context} {pending : List FunctionEntry} (isPart : start.Part whole)
    (described : ∀ entry ∈ pending, entry.Of whole)
    (loaded : defineAll start pending = .ok next) :
    next.Part whole ∧
      (∀ name, start.functions.contains name = true → next.functions.contains name = true) ∧
      ∀ entry ∈ pending,
        next.functions.contains entry.name = true ∧ entry.ResolvedIn whole whole := by
  induction start, pending using defineAll.induct with
  | case1 start pending ih =>
    obtain ⟨middle, refused, round, spec⟩ := exists_round stores acyclic isPart described
    rw [defineAll, bind_eq_ok_iff] at loaded
    obtain ⟨result, sameRound, rest⟩ := loaded
    obtain rfl := Except.ok.inj (round.symm.trans sameRound)
    simp only at rest
    split at rest
    · next fewer =>
      obtain ⟨nextPart, grown, defined⟩ :=
        ih middle refused fewer spec.isPart (spec.described described) rest
      refine ⟨nextPart, fun name there => grown name (spec.grown name there), ?_⟩
      intro entry member
      rcases spec.covered entry member with waiting | ⟨there, resolved⟩
      · exact defined entry waiting
      · exact ⟨grown entry.name there, resolved⟩
    · cases last : refused.getLast? with
      | some refusal =>
        rw [last] at rest
        contradiction
      | none =>
        rw [last] at rest
        obtain rfl := Except.ok.inj rest
        obtain rfl := List.getLast?_eq_none_iff.mp last
        refine ⟨spec.isPart, spec.grown, fun entry member => ?_⟩
        exact (spec.covered entry member).resolve_left List.not_mem_nil

/-- A tree that is resolved in the context is resolved in a part that has the functions of the user
called by it. -/
theorem resolved_of_callees {start : Context} (isPart : start.Part whole)
    {parameters bound : List String} {expr : Expr} (resolved : whole.Resolved parameters expr)
    (there : ∀ callee ∈ (expr.relabel (.canonical bound)).callees,
      whole.functions.contains callee = true → start.functions.contains callee = true) :
    start.Resolved parameters expr := by
  induction resolved with
  | number => exact .number ..
  | value => exact .value _
  | constant origin position known =>
    rw [← isPart.constant?_eq] at known
    exact .constant origin position known
  | @call origin name position arguments known _ ih =>
    rw [Expr.relabel, Expr.relabelAll_eq_map] at there
    have parts : ∀ argument ∈ arguments, start.Resolved parameters argument := by
      intro argument member
      apply ih argument member
      intro callee called
      exact there callee (Expr.mem_callees_call (List.mem_map_of_mem member) called ..)
    refine .call origin position (isPart.arity?_of_contains known fun user => ?_) parts
    have label : (Relabelling.canonical bound).function name origin = .user :=
      if_neg (by simp [user])
    rw [label, Expr.callees] at there
    exact there name List.mem_cons_self (Context.contains_of_arity? known user)
  | signed sign position _ ih => exact .signed sign position (ih there)
  | binary position pure _ _ firstIh secondIh =>
    rw [Expr.relabel, Expr.callees] at there
    obtain ⟨left, right⟩ := List.forall_mem_append.mp there
    exact .binary position pure (firstIh left) (secondIh right)

/-- If all bodies are resolved in the context and a round refuses all pending entries, there are
none. -/
theorem eq_nil_of_unresolved (stores : whole.Stores) (acyclic : whole.functions.Acyclic)
    (complete : whole.Complete) {start : Context} (isPart : start.Part whole)
    {pending : List FunctionEntry} (described : ∀ entry ∈ pending, entry.Of whole)
    (covered : ∀ name, whole.functions.contains name = true →
      start.functions.contains name = true ∨ ∃ entry ∈ pending, entry.name = name)
    (unresolved : ∀ entry ∈ pending, ¬ entry.ResolvedIn whole start) : pending = [] := by
  have resolvable : ∀ name function, whole.functions.find? name = some function →
      (∀ callee, whole.Calls name callee → whole.functions.contains callee = true →
        start.functions.contains callee = true) →
      start.Resolved function.parameters function.body := by
    intro name function found there
    have kept : ∀ name origin,
        (Relabelling.core function.parameters).function name origin = origin := fun _ _ => rfl
    apply resolved_of_callees isPart (complete name function found)
    intro callee called
    have body := (stores.stored name function found).body_eq_canonical
    rw [← body, Expr.callees_relabel kept] at called
    exact there callee ⟨function, found, called⟩
  -- A function that leads to fewer functions is defined before one that calls it.
  have all : ∀ height name, whole.height name = height → whole.functions.contains name = true →
      start.functions.contains name = true := by
    intro height
    induction height using Nat.strong_induction_on with
    | h height ih =>
      rintro name rfl inWhole
      rcases covered name inWhole with there | ⟨entry, member, rfl⟩
      · exact there
      · refine absurd (fun function found => ?_) (unresolved entry member)
        apply resolvable entry.name function found
        intro callee call calleeInWhole
        exact ih _ (Context.height_lt_of_calls acyclic call) callee rfl calleeInWhole
  cases pending with
  | nil => rfl
  | cons entry others =>
    refine absurd (fun function found => ?_) (unresolved entry List.mem_cons_self)
    exact resolvable entry.name function found fun callee _ inWhole => all _ callee rfl inWhole

/-- Loading succeeds if all bodies are resolved in the context. -/
theorem exists_defineAll (stores : whole.Stores) (acyclic : whole.functions.Acyclic)
    (complete : whole.Complete) {start : Context} {pending : List FunctionEntry}
    (isPart : start.Part whole) (described : ∀ entry ∈ pending, entry.Of whole)
    (covered : ∀ name, whole.functions.contains name = true →
      start.functions.contains name = true ∨ ∃ entry ∈ pending, entry.name = name) :
    ∃ next, defineAll start pending = .ok next := by
  induction start, pending using defineAll.induct with
  | case1 start pending ih =>
    obtain ⟨middle, refused, round, spec⟩ := exists_round stores acyclic isPart described
    rw [defineAll, round]
    simp only [bind, Except.bind]
    split
    · next fewer =>
      refine ih middle refused fewer spec.isPart (spec.described described) fun name there => ?_
      rcases covered name there with before | ⟨entry, member, rfl⟩
      · exact Or.inl (spec.grown name before)
      · rcases spec.covered entry member with waiting | ⟨defined, _⟩
        · exact Or.inr ⟨entry, waiting, rfl⟩
        · exact Or.inl defined
    · next notFewer =>
      have all : refused.map Prod.fst = pending := by
        apply spec.sublist.eq_of_length_le
        rw [List.length_map]
        exact Nat.le_of_not_lt notFewer
      have empty : refused.map Prod.fst = [] := by
        rw [all]
        apply eq_nil_of_unresolved stores acyclic complete isPart described covered
        exact all ▸ spec.unresolved
      obtain rfl := List.map_eq_nil_iff.mp empty
      exact ⟨middle, rfl⟩

/-- The entries of a document describe the functions of its context. -/
theorem of_mem_functionEntries {entry : FunctionEntry} (member : entry ∈ functionEntries whole) :
    entry.Of whole := by
  obtain ⟨⟨name, function⟩, listed, rfl⟩ := List.mem_map.mp member
  exact ⟨function, (whole.functions.find?_eq_some_iff name function).mpr listed, rfl, rfl⟩

/-- Every function of a context has an entry in its document. -/
theorem exists_mem_functionEntries {name : String}
    (there : whole.functions.contains name = true) :
    ∃ entry ∈ functionEntries whole, entry.name = name := by
  obtain ⟨function, found⟩ := Option.isSome_iff_exists.mp there
  have listed := (whole.functions.find?_eq_some_iff name function).mp found
  exact ⟨_, List.mem_map_of_mem listed, rfl⟩

/-- The constants alone are a part of a context. -/
theorem part_constants : Context.Part { constants := whole.constants } whole :=
  ⟨rfl, fun _ _ => nofun⟩

/-- A part of a context in which all its functions are defined is like it. -/
theorem alike_of_part {part : Context} (isPart : part.Part whole)
    (all : ∀ name, whole.functions.contains name = true → part.functions.contains name = true) :
    whole.Alike part where
  constants := isPart.constants.symm
  functions name := by
    cases found : whole.functions.find? name with
    | none =>
      cases also : part.functions.find? name with
      | none => exact .none
      | some other =>
        obtain ⟨function, stored, _⟩ := isPart.functions name other also
        rw [found] at stored
        contradiction
    | some function =>
      have there : whole.functions.contains name = true := by
        rw [Table.contains, found]
        rfl
      obtain ⟨other, also⟩ := Option.isSome_iff_exists.mp (all name there)
      obtain ⟨stored, alsoFound, alike⟩ := isPart.functions name other also
      obtain rfl := Option.some.inj (found.symm.trans alsoFound)
      rw [also]
      exact .some alike

/-- What is loaded from the document of a context is like the context, and all bodies are resolved
in the context. -/
theorem alike_of_toContext (stores : whole.Stores) (acyclic : whole.functions.Acyclic)
    {loaded : Context} (succeeds : toContext (ofContext whole) = .ok loaded) :
    whole.Alike loaded ∧ whole.Complete ∧
      ∀ name number, whole.constants.find? name = some number → Nameable name := by
  obtain ⟨nameable, defined⟩ := (toContext_ofContext_eq_ok_iff whole loaded).mp succeeds
  obtain ⟨isPart, _, entries⟩ := of_defineAll stores acyclic part_constants
    (fun _ member => of_mem_functionEntries member) defined
  refine ⟨alike_of_part isPart fun name there => ?_, fun name function found => ?_, nameable⟩
  · obtain ⟨entry, member, rfl⟩ := exists_mem_functionEntries there
    exact (entries entry member).1
  · have there : whole.functions.contains name = true := by
      rw [Table.contains, found]
      rfl
    obtain ⟨entry, member, rfl⟩ := exists_mem_functionEntries there
    exact (entries entry member).2 function found

/-- The document of a context can be loaded if all bodies are resolved in the context and its
constants have names that constants can have. -/
theorem exists_toContext (stores : whole.Stores) (acyclic : whole.functions.Acyclic)
    (complete : whole.Complete)
    (nameable : ∀ name number, whole.constants.find? name = some number → Nameable name) :
    ∃ loaded, toContext (ofContext whole) = .ok loaded := by
  obtain ⟨loaded, defined⟩ := exists_defineAll stores acyclic complete part_constants
    (fun _ member => of_mem_functionEntries member)
    (fun _ there => Or.inr (exists_mem_functionEntries there))
  exact ⟨loaded, (toContext_ofContext_eq_ok_iff whole loaded).mpr ⟨nameable, defined⟩⟩

end Document

end Reckoner
