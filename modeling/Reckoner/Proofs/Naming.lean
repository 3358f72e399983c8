import Reckoner.Proofs.Changes
import Reckoner.Proofs.Legible
import Reckoner.Proofs.Stored
/-!
# The names of constants and functions

A name of a line is spelled as one, and so are the names in the trees that are read from lines. A
constant that a line defines is not built in, and neither is the answer or a constant of a document.
So in a session every constant and every function has a name that is spelled as one, and no constant
has the name of a built-in constant.
-/

namespace Reckoner

/-- The name of a lexeme, if it has one, is spelled as a name. -/
def Lexeme.IsSpelled : Lexeme → Prop
  | .constant _ name => isName name = true
  | .function _ name => isName name = true
  | .number .. | .operator _ | .mark _ => True

/-- The names of a tree are spelled as names. -/
inductive Expr.IsSpelled : Expr → Prop
  /-- A literal has no name. -/
  | number (spelling : String) (imaginary : Bool) (position : Nat) :
    IsSpelled (.number spelling imaginary position)
  /-- A constant has a name. -/
  | constant (origin : Origin) {name : String} (position : Nat) (spelled : isName name = true) :
    IsSpelled (.constant origin name position)
  /-- A call has the name of its function and those of its arguments. -/
  | call (origin : Origin) {name : String} (position : Nat) {arguments : List Expr}
    (spelled : isName name = true) (parts : ∀ argument ∈ arguments, IsSpelled argument) :
    IsSpelled (.call origin name position arguments)
  /-- A sign has no name. -/
  | signed (sign : Sign) (position : Nat) {operand : Expr} (part : IsSpelled operand) :
    IsSpelled (.signed sign position operand)
  /-- An operator has no name. -/
  | binary (operator : Operator) (position : Nat) {left right : Expr} (first : IsSpelled left)
    (second : IsSpelled right) : IsSpelled (.binary operator position left right)

/-- A tree of lexemes that are spelled as names has such names. -/
theorem Expr.Built.isSpelled {expr : Expr} (built : expr.Built Lexeme.IsSpelled) :
    expr.IsSpelled := by
  induction built with
  | number => exact .number ..
  | constant position leaf => exact .constant _ position leaf
  | call position root _ ih => exact .call _ position root ih
  | signed sign position _ ih => exact .signed sign position ih
  | binary operator position _ _ firstIh secondIh =>
    exact .binary operator position firstIh secondIh

/-- The name of a lexeme that can be read back is spelled as one. -/
theorem Lexeme.IsLegible.isSpelled {lexeme : Lexeme} (legible : lexeme.IsLegible) :
    lexeme.IsSpelled := by
  cases lexeme with
  | constant => exact legible.2
  | function => exact legible.2
  | number | operator | mark => trivial

namespace Context

/-- The names of the tree of a line are spelled as names. -/
theorem isSpelled_tree {context : Context} {line : String} {expr : Expr}
    (found : context.tree line = .ok expr) : expr.IsSpelled := by
  rw [context.tree_eq, context.scan_eq, Scan.ofLine_eq] at found
  obtain ⟨_, phrase, derives, rfl⟩ := (Scan.tree_eq_ok_iff ..).mp found
  refine (derives.built ?_ phrase List.mem_cons_self).isSpelled
  intro token member
  obtain ⟨read, among, rfl⟩ := List.mem_map.mp member
  have legible := Scan.forall_tokens_ofText Scan.isLegible_token 0 line.toList read among
  have spelled := legible.isSpelled
  obtain ⟨lexeme, start, stop⟩ := read
  cases lexeme <;> exact spelled

/-- A constant that a line defines is spelled as a name and is not built in. -/
theorem name_of_constant {context : Context} {line name : String} {position place : Nat}
    {origin : Origin} {right : Expr}
    (parsed : context.parse line =
      .ok (.binary .assign position (.constant origin name place) right)) :
    isName name = true ∧ builtInConstant? name = none := by
  obtain ⟨found, accepted⟩ := (context.parse_eq_ok_iff ..).mp parsed
  constructor
  · cases isSpelled_tree found with
    | binary _ _ target _ =>
      cases target with
      | constant _ _ spelled => exact spelled
  · obtain ⟨plain, _, same⟩ := (context.tree_eq_ok_iff ..).mp found
    obtain ⟨different, _⟩ := (context.check_constant_definition_iff ..).mp accepted
    rw [← context.constantOrigin_ne_builtIn_iff]
    cases plain with
    | binary operator _ left _ =>
      obtain ⟨_, _, target, _⟩ := Expr.binary.inj same
      cases left with
      | constant =>
        obtain ⟨rfl, rfl, _⟩ := Expr.constant.inj target
        exact different
      | number | call | signed | binary | value => contradiction
    | number | constant | call | signed | value => contradiction

/-- A function that a line defines is spelled as a name. -/
theorem Defines.isName {context : Context} {line name : String} {function : UserFunction}
    (defines : context.Defines line name function) : isName name = true := by
  obtain ⟨_, _, _, _, parsed, _⟩ := defines.parsed
  cases isSpelled_tree ((context.parse_eq_ok_iff ..).mp parsed).1 with
  | binary _ _ target _ =>
    cases target with
    | call _ _ spelled _ => exact spelled

/-- The constants of the user have proper names: they are spelled as names and are not those of
built-in constants. -/
def NamesConstants (context : Context) : Prop :=
  ∀ name value, context.constants.find? name = some value →
    isName name = true ∧ builtInConstant? name = none

/-- There are no names to begin with. -/
theorem namesConstants_empty : ({} : Context).NamesConstants :=
  fun _ _ found => absurd found.symm (Option.some_ne_none _)

/-- A constant with a proper name keeps the names of constants proper. -/
theorem NamesConstants.defineConstant {context : Context} (names : context.NamesConstants)
    {name : String} (proper : isName name = true ∧ builtInConstant? name = none) (value : Number) :
    (context.defineConstant name value).NamesConstants := by
  intro other held found
  simp only [Context.defineConstant, Table.find?_insert] at found
  split at found
  · next same => exact same ▸ proper
  · exact names other held found

/-- Taking a constant out keeps the names of constants proper. -/
theorem NamesConstants.erase {context : Context} (names : context.NamesConstants) (name : String)
    (functions : Table UserFunction) :
    NamesConstants ⟨context.constants.erase name, functions⟩ := by
  intro other held found
  simp only [Table.find?_erase] at found
  split at found
  · contradiction
  · exact names other held found

/-- An accepted line keeps the names of constants proper. -/
theorem NamesConstants.enter {context next : Context} {line : String} {outcome : Outcome}
    (names : context.NamesConstants) (entered : context.enter line = .ok (next, outcome)) :
    next.NamesConstants := by
  cases context.entry_of_enter entered with
  | answer expr =>
    unfold keepAnswer
    split
    · exact names
    · exact names.defineConstant (by decide) _
  | constant position origin name place right parsed =>
    exact names.defineConstant (name_of_constant parsed) _
  | function name function => exact names.erase name _

/-- What a session does keeps the names of constants proper. -/
theorem NamesConstants.after {context : Context} (names : context.NamesConstants) {change : Change}
    (inSession : change.InSession) : (context.after change).NamesConstants := by
  cases change with
  | enter line =>
    rw [Context.after]
    split
    · next next outcome entered => exact names.enter entered
    · exact names
  | remove name =>
    rw [Context.after, remove?]
    split
    · exact names.erase name _
    · split <;> exact names
  | load document =>
    rw [Context.after]
    split
    · next next loaded =>
      refine of_toContext NamesConstants.enter namesConstants_empty ?_ loaded
      intro _ _ _ value names nameable _
      exact names.defineConstant ⟨nameable.isName, nameable.noConstant⟩ value
    · exact names
  | define | removeConstant | removeFunction => contradiction

/-- What a session does leads to proper names of constants. -/
theorem namesConstants_of_inSession {changes : List Change}
    (inSession : ∀ change ∈ changes, change.InSession) : (run changes).NamesConstants :=
  of_run namesConstants_empty (fun _ _ names inSession => names.after inSession) inSession

/-- After typed changes the names of constants are proper. -/
theorem namesConstants_run {changes : List Change} (typed : ∀ change ∈ changes, change.IsTyped) :
    (run changes).NamesConstants :=
  namesConstants_of_inSession fun change member => (typed change member).inSession

end Context

end Reckoner
