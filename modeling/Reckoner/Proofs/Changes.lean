import Reckoner.Proofs.Entry
import Reckoner.Proofs.Saving
/-!
# Runs of changes

A context begins empty and is changed by lines, by commands that remove a name, by constants and
functions that are put in or taken out directly, and by documents that are loaded. What an empty
context has, and what the four elementary changes keep, every context at the end of a run has:
a line and a document come down to elementary changes.
-/

namespace Reckoner

/-- A change of a context. -/
inductive Change where
  /-- A line is entered. -/
  | enter (line : String)
  /-- The command that removes a name is carried out. -/
  | remove (name : String)
  /-- A constant is given a value directly. -/
  | define (name : String) (value : Number)
  /-- A constant is taken out directly. -/
  | removeConstant (name : String)
  /-- A function is taken out directly. -/
  | removeFunction (name : String)
  /-- A document is loaded in place of the context. -/
  | load (document : Json)

/-- The change is typed: a line, or the command that removes a name. -/
def Change.IsTyped : Change → Prop
  | .enter _ => True
  | .remove _ => True
  | .define .. | .removeConstant _ | .removeFunction _ | .load _ => False

/-- A session can bring the change about: it is typed, or a document is loaded. -/
def Change.InSession : Change → Prop
  | .enter _ | .remove _ | .load _ => True
  | .define .. | .removeConstant _ | .removeFunction _ => False

/-- A session can bring about what is typed. -/
theorem Change.IsTyped.inSession {change : Change} (typed : change.IsTyped) :
    change.InSession := by
  cases change with
  | enter | remove => trivial
  | define | removeConstant | removeFunction | load => contradiction

namespace Context

/-- The context after a change. What is refused leaves the context as it is. -/
def after (context : Context) : Change → Context
  | .enter line =>
    match context.enter line with
    | .ok (next, _) => next
    | .error _ => context
  | .remove name => (context.remove? name).getD context
  | .define name value => context.defineConstant name value
  | .removeConstant name => context.removeConstant name
  | .removeFunction name => context.removeFunction name
  | .load document =>
    match Document.toContext document with
    | .ok next => next
    | .error _ => context

/-- The context after some changes of an empty one. -/
def run (changes : List Change) : Context := changes.foldl after {}

/-- What an empty context has and allowed changes keep, a context has after allowed changes. -/
theorem of_run {property : Context → Prop} {allowed : Change → Prop} (fresh : property {})
    (step : ∀ context change, property context → allowed change → property (context.after change))
    {changes : List Change} (all : ∀ change ∈ changes, allowed change) :
    property (run changes) := by
  have along (context : Context) (holds : property context) :
      property (changes.foldl Context.after context) := by
    induction changes generalizing context with
    | nil => exact holds
    | cons change changes ih =>
      obtain ⟨first, others⟩ := List.forall_mem_cons.mp all
      exact ih others _ (step context change holds first)
  exact along {} fresh

end Context

namespace Document

section

variable (property : List FunctionEntry → Context → Prop)
  (step : ∀ {done : List FunctionEntry} {context next : Context} {entry : FunctionEntry}
    {outcome : Outcome}, property done context →
    context.enter entry.definition = .ok (next, outcome) → entry.metBy next outcome = true →
    property (done ++ [entry]) next)

include step

/-- What every definition keeps that meets its entry, a round of tries keeps. It may count the
entries whose definitions have been accepted; the others are refused. -/
theorem exists_accepted_of_defineRound {done pending : List FunctionEntry} {context next : Context}
    {refused : List (FunctionEntry × Rejection)} (holds : property done context)
    (round : defineRound context pending = .ok (next, refused)) :
    ∃ accepted, (accepted ++ refused.map Prod.fst).Perm pending ∧
      property (done ++ accepted) next := by
  induction pending generalizing done context refused with
  | nil =>
    obtain ⟨rfl, rfl⟩ := Prod.mk.inj (Except.ok.inj round)
    exact ⟨[], .nil, by rwa [List.append_nil]⟩
  | cons entry others ih =>
    rw [defineRound] at round
    cases entered : context.enter entry.definition with
    | error rejection =>
      rw [entered] at round
      obtain ⟨⟨last, further⟩, rest, same⟩ := (bind_eq_ok_iff ..).mp round
      obtain ⟨rfl, rfl⟩ := Prod.mk.inj (Except.ok.inj same)
      obtain ⟨accepted, perm, kept⟩ := ih holds rest
      exact ⟨accepted, List.perm_middle.trans (perm.cons entry), kept⟩
    | ok result =>
      obtain ⟨middle, outcome⟩ := result
      simp only [entered] at round
      split at round
      · next met =>
        obtain ⟨accepted, perm, kept⟩ := ih (step holds entered met) round
        rw [List.append_assoc] at kept
        exact ⟨entry :: accepted, perm.cons entry, kept⟩
      · contradiction

/-- What every definition keeps that meets its entry, loading keeps, and it accepts the definitions
of all entries in some order. -/
theorem exists_order_of_defineAll {done pending : List FunctionEntry} {context last : Context}
    (holds : property done context) (loaded : defineAll context pending = .ok last) :
    ∃ order, order.Perm pending ∧ property (done ++ order) last := by
  induction context, pending using defineAll.induct generalizing done with
  | case1 context pending ih =>
    rw [defineAll, bind_eq_ok_iff] at loaded
    obtain ⟨⟨next, refused⟩, round, rest⟩ := loaded
    obtain ⟨accepted, perm, kept⟩ := exists_accepted_of_defineRound property step holds round
    simp only at rest
    split at rest
    · next fewer =>
      obtain ⟨order, others, further⟩ := ih next refused fewer kept rest
      rw [List.append_assoc] at further
      exact ⟨accepted ++ order, (others.append_left accepted).trans perm, further⟩
    · cases ends : refused.getLast? with
      | some refusal =>
        rw [ends] at rest
        contradiction
      | none =>
        rw [ends] at rest
        obtain rfl := Except.ok.inj rest
        obtain rfl := List.getLast?_eq_none_iff.mp ends
        rw [List.map_nil, List.append_nil] at perm
        exact ⟨accepted, perm, kept⟩

end

end Document

namespace Context

section

variable {property : Context → Prop}
  (lines : ∀ {context next : Context} {line : String} {outcome : Outcome}, property context →
    context.enter line = .ok (next, outcome) → property next)

include lines

/-- What accepted lines keep, the definitions of a document keep. -/
theorem of_defineAll {context next : Context} {pending : List Document.FunctionEntry}
    (holds : property context) (defined : Document.defineAll context pending = .ok next) :
    property next := by
  obtain ⟨_, _, kept⟩ := @Document.exists_order_of_defineAll (fun _ context => property context)
    (fun holds entered _ => lines holds entered) [] pending context next holds defined
  exact kept

/-- What an empty context has, and what accepted lines and constants with the names of constants
keep that are read from entries, a loaded context has. -/
theorem of_toContext (fresh : property {})
    (constants : ∀ {context : Context} {name : String} {entry : Json} (value : Number),
      property context → Document.Nameable name → Document.toNumber name entry = .ok value →
      property (context.defineConstant name value))
    {document : Json} {next : Context} (loaded : Document.toContext document = .ok next) :
    property next := by
  simp only [Document.toContext, bind_eq_ok_iff] at loaded
  obtain ⟨_, _, _, _, _, _, _, _, _, _, middle, added, _, _, rest⟩ := loaded
  refine of_defineAll lines (of_foldlM_eq_ok ?_ fresh added) rest
  intro context entry next holds taken
  obtain ⟨nameable, value, read, rfl⟩ := (Document.addConstant_eq_ok_iff ..).mp taken
  exact constants value holds nameable read

end

/-- A property that an empty context has and that every elementary change keeps. -/
structure Kept (property : Context → Prop) : Prop where
  /-- An empty context has it. -/
  fresh : property {}
  /-- A constant that gets a value keeps it. -/
  defineConstant : ∀ context name value, property context →
    property (context.defineConstant name value)
  /-- An accepted definition of a function keeps it. -/
  defineFunction : ∀ context line name function, property context →
    context.Defines line name function → property (context.defineFunction name function)
  /-- A constant that is taken out keeps it. -/
  removeConstant : ∀ context name, property context → property (context.removeConstant name)
  /-- A function that is taken out keeps it. -/
  removeFunction : ∀ context name, property context → property (context.removeFunction name)

namespace Kept

variable {property : Context → Prop} (kept : Kept property)

include kept

/-- An accepted line keeps the property. -/
theorem enter {context next : Context} {line : String} {outcome : Outcome}
    (holds : property context) (entered : context.enter line = .ok (next, outcome)) :
    property next := by
  cases context.entry_of_enter entered with
  | answer expr =>
    unfold keepAnswer
    split
    · exact holds
    · exact kept.defineConstant context _ _ holds
  | constant position origin name place right =>
    exact kept.defineConstant context _ _ holds
  | function name function defines =>
    exact kept.defineFunction context line name function holds defines

/-- A document that is loaded has the property. -/
theorem toContext {document : Json} {next : Context}
    (loaded : Document.toContext document = .ok next) : property next :=
  of_toContext kept.enter kept.fresh
    (fun value holds _ _ => kept.defineConstant _ _ value holds) loaded

/-- Every change keeps the property. -/
theorem after {context : Context} (holds : property context) (change : Change) :
    property (context.after change) := by
  cases change with
  | enter line =>
    rw [Context.after]
    split
    · next next outcome entered => exact kept.enter holds entered
    · exact holds
  | remove name =>
    rw [Context.after, remove?]
    split
    · exact kept.removeConstant context name holds
    · split
      · exact kept.removeFunction context name holds
      · exact holds
  | define name value => exact kept.defineConstant context name value holds
  | removeConstant name => exact kept.removeConstant context name holds
  | removeFunction name => exact kept.removeFunction context name holds
  | load document =>
    rw [Context.after]
    split
    · next next loaded => exact kept.toContext loaded
    · exact holds

/-- Every run of changes leads to a context with the property. -/
theorem run (changes : List Change) : property (run changes) :=
  of_run kept.fresh (fun _ change holds _ => kept.after holds change)
    fun change (_ : change ∈ changes) => trivial

end Kept

/-- What holds of every function that a line defines, every stored function has. -/
theorem kept_functions {property : String → UserFunction → Prop}
    (accepted : ∀ {context : Context} {line name : String} {function : UserFunction},
      context.Defines line name function → property name function) :
    Kept fun context => ∀ name function, context.functions.find? name = some function →
      property name function where
  fresh _ _ found := absurd found.symm (Option.some_ne_none _)
  defineConstant context name value holds other function found := by
    simp only [defineConstant, Table.find?_erase] at found
    split at found
    · contradiction
    · exact holds other function found
  defineFunction context line name function holds defines other stored found := by
    simp only [defineFunction, Table.find?_insert] at found
    split at found
    · next same =>
      obtain rfl := Option.some.inj found
      exact same ▸ accepted defines
    · exact holds other stored found
  removeConstant context name holds := holds
  removeFunction context name holds other function found := by
    simp only [removeFunction, Table.find?_erase] at found
    split at found
    · contradiction
    · exact holds other function found

end Context

end Reckoner
