import Reckoner.Proofs.Printing
import Reckoner.Proofs.Recognition
import Reckoner.Proofs.Reloading
/-!
# Which names the user can define

Whether a name is built in is looked up among the constants if it stands alone, and among the
functions if a parenthesis follows. So the names of built-in constants are kept from constants of
the user and those of built-in functions from functions, and every other name can be defined: a
constant may have the name of a built-in function, and a function that of a built-in constant.
-/

namespace Reckoner

/-- A line without white space that is no name is no command. -/
theorem Invocation.ofLine?_eq_none {line : String} (solid : ∀ c ∈ line.toList, isBlank c = false)
    {other : Char} (member : other ∈ line.toList) (foreign : isNameChar other = false) :
    ofLine? line = none := by
  have split : words line = [line] := by
    have runs : runsOf (line.toList ++ []) = line.toList :: runsOf [] :=
      runsOf_append (List.ne_nil_of_mem member) solid nofun
    rw [List.append_nil] at runs
    rw [words_eq_map_runsOf, runs]
    simp [runsOf]
  have unknown : Verb.ofName? line = none := by
    by_contra known
    obtain ⟨verb, known⟩ := Option.ne_none_iff_exists'.mp known
    obtain rfl := Verb.eq_name_of_ofName? known
    rw [Scan.isNameChar_of_isName verb.isName_name other member] at foreign
    contradiction
  simp [ofLine?, split, unknown]

/-- A text that continues a name with other characters is no command, if none of them is blank. -/
theorem Invocation.ofLine?_append {name line : String} {first : Char} {others : List Char}
    (spelled : isName name = true) (shape : line.toList = name.toList ++ first :: others)
    (foreign : isNameChar first = false) (solid : ∀ c ∈ first :: others, isBlank c = false) :
    ofLine? line = none := by
  refine ofLine?_eq_none ?_ (shape ▸ List.mem_append_right _ List.mem_cons_self) foreign
  rw [shape, List.forall_mem_append]
  refine ⟨fun c member => ?_, solid⟩
  exact Scan.isBlank_of_isNameChar (Scan.isNameChar_of_isName spelled c member)

namespace Context

/-- The definition of a constant as zero. -/
def zeroDefinition (name : String) : Expr :=
  .binary .assign 0 (.constant .unknown name 0) (.number "0" false 0)

/-- The definition of a function of one argument as that argument. -/
def identityDefinition (name : String) : Expr :=
  .binary .assign 0 (.call .unknown name 0 [.constant .unknown "x" 0]) (.constant .unknown "x" 0)

variable (context : Context) {name : String} (spelled : isName name = true)

include spelled

omit context in
/-- The definition of a constant as zero is no command. -/
theorem ofLine?_zeroDefinition : Invocation.ofLine? (zeroDefinition name).print = none := by
  have shape : (zeroDefinition name).print.toList = name.toList ++ ['=', '0'] := by
    simp [zeroDefinition, Expr.print, Expr.enclosed, Expr.rootPrecedence?, Operator.text,
      Operator.symbol]
  exact Invocation.ofLine?_append spelled shape (by decide) (by simp [isBlank])

omit context in
/-- The definition of a function of one argument is no command. -/
theorem ofLine?_identityDefinition :
    Invocation.ofLine? (identityDefinition name).print = none := by
  have shape : (identityDefinition name).print.toList =
      name.toList ++ ['(', 'x', ')', '=', 'x'] := by
    simp [identityDefinition, Expr.print, Expr.prints, Expr.enclosed, Expr.rootPrecedence?,
      Operator.text, Operator.symbol]
  exact Invocation.ofLine?_append spelled shape (by decide) (by simp [isBlank])

/-- A name that is no built-in constant can be given to a constant, whatever is defined. -/
theorem enter_zeroDefinition (free : builtInConstant? name = none) : ∃ value,
    context.enter (zeroDefinition name).print =
      .ok (context.defineConstant name value, .defined) := by
  have zero : Literal.IsWhole "0".toList := ⟨rfl, rfl, rfl⟩
  have built : (zeroDefinition name).Built Lexeme.IsLegible :=
    .binary _ _ (.constant 0 ⟨rfl, spelled⟩) (.number 0 zero)
  obtain ⟨again, read, same⟩ := exists_lineTree_of_built built
  obtain ⟨position, origin, place, right, rfl, plain⟩ : ∃ position origin place right,
      again = .binary .assign position (.constant origin name place) right ∧
        context.checkNames (some []) (right.relabel (.resolve context)) = .ok () := by
    cases again with
    | binary operator position left right =>
      obtain ⟨rfl, _, leftSame, rightSame⟩ := Expr.binary.inj same
      cases left with
      | constant origin other place =>
        obtain ⟨_, rfl, _⟩ := Expr.constant.inj leftSame
        cases right with
        | number => exact ⟨position, origin, place, _, rfl, rfl⟩
        | constant | call | signed | binary | value => contradiction
      | number | call | signed | binary | value => contradiction
    | number | constant | call | signed | value => contradiction
  have found := (context.tree_eq_ok_iff ..).mpr ⟨_, read, rfl⟩
  have accepted := (context.check_constant_definition_iff position _ name place _).mpr
    ⟨(context.constantOrigin_ne_builtIn_iff name).mpr free, plain⟩
  have parsed := (context.parse_eq_ok_iff ..).mpr ⟨found, accepted⟩
  exact ⟨_, context.enter_definition parsed⟩

/-- A name that is no built-in function can be given to a function, whatever is defined. -/
theorem enter_identityDefinition (free : BuiltIn.ofName? name = none) : ∃ function,
    context.enter (identityDefinition name).print =
      .ok (context.defineFunction name function, .defined) := by
  have parameter : (Expr.constant .unknown "x" 0).Built Lexeme.IsLegible :=
    .constant 0 ⟨rfl, by decide⟩
  have built : (identityDefinition name).Built Lexeme.IsLegible :=
    .binary _ _ (.call 0 ⟨rfl, spelled⟩ (List.forall_mem_singleton.mpr parameter)) parameter
  obtain ⟨again, read, same⟩ := exists_lineTree_of_built built
  have named : List.Forall₂ (fun argument parameter => ∃ origin position,
      argument = Expr.constant origin parameter position) [.constant .unknown "x" 0] ["x"] :=
    .cons ⟨_, _, rfl⟩ .nil
  obtain ⟨right, definition, rightSame⟩ := isDefinition_of_relabel read same named
  obtain ⟨origin, place, rfl⟩ : ∃ origin place, right = .constant origin "x" place := by
    cases right with
    | constant origin other place =>
      obtain ⟨_, rfl, _⟩ := Expr.constant.inj rightSame
      exact ⟨origin, place, rfl⟩
    | number | call | signed | binary | value => contradiction
  have accepts : context.Accepts name ["x"] (.constant origin "x" place) :=
    ⟨free, List.nodup_singleton _, by decide, .constant _ _ (Or.inl List.mem_cons_self), nofun⟩
  exact ⟨_, (context.enter_definition_iff definition _ _).mpr ⟨accepts, rfl, rfl⟩⟩

end Context

namespace Session

/-- A line that is no command and is entered changes the context as the calculator does. -/
theorem context_after_of_enter (session : Session) (disk : Disk) {line : String} {next : Context}
    {outcome : Outcome} (calculated : Invocation.ofLine? line = none)
    (entered : session.context.enter line = .ok (next, outcome)) :
    (session.after disk line).context = next := by
  simp only [after, enter, calculated, FileTask.on, calculate, entered]

/-- A session can give exactly the proper names to constants that are no built-in constants, and
exactly those to functions that are no built-in functions. -/
theorem definable_iff (name : String) :
    ((∃ settings inputs, (visit settings inputs).context.constants.contains name = true) ↔
        isName name = true ∧ builtInConstant? name = none) ∧
      ((∃ settings inputs, (visit settings inputs).context.functions.contains name = true) ↔
        isName name = true ∧ BuiltIn.ofName? name = none) := by
  refine ⟨⟨?_, ?_⟩, ?_, ?_⟩
  · rintro ⟨settings, inputs, defined⟩
    obtain ⟨changes, inSession, same⟩ := exists_changes_visit settings inputs
    rw [same] at defined
    obtain ⟨value, found⟩ := Option.isSome_iff_exists.mp defined
    exact Context.namesConstants_of_inSession inSession name value found
  · rintro ⟨spelled, free⟩
    obtain ⟨value, entered⟩ := Context.enter_zeroDefinition {} spelled free
    have reached := context_after_of_enter { settings := {} } .closed
      (Context.ofLine?_zeroDefinition spelled) entered
    refine ⟨{}, [(.closed, (Context.zeroDefinition name).print)], ?_⟩
    rw [visit, follow, List.foldl_cons, List.foldl_nil, reached]
    simp [Context.defineConstant, Table.contains, Table.find?_insert]
  · rintro ⟨settings, inputs, defined⟩
    obtain ⟨changes, inSession, same⟩ := exists_changes_visit settings inputs
    rw [same] at defined
    obtain ⟨function, found⟩ := Option.isSome_iff_exists.mp defined
    exact ⟨(Context.kept_functions Context.Defines.isName).run changes name function found,
      ((Context.kept_stores.run changes).stored name function found).free⟩
  · rintro ⟨spelled, free⟩
    obtain ⟨function, entered⟩ := Context.enter_identityDefinition {} spelled free
    have reached := context_after_of_enter { settings := {} } .closed
      (Context.ofLine?_identityDefinition spelled) entered
    refine ⟨{}, [(.closed, (Context.identityDefinition name).print)], ?_⟩
    rw [visit, follow, List.foldl_cons, List.foldl_nil, reached]
    simp [Context.defineFunction, Table.contains, Table.find?_insert]

/-- Built-in names can be defined: `sin = 5` defines a constant with the name of a built-in
function, and `pi(x) = x` a function with that of a built-in constant. -/
theorem not_every_session_unshadowed :
    ((visit {} [(.closed, "sin = 5")]).context.constants.contains "sin" = true ∧
        (BuiltIn.ofName? "sin").isSome = true) ∧
      ((visit {} [(.closed, "pi(x) = x")]).context.functions.contains "pi" = true ∧
        (builtInConstant? "pi").isSome = true) ∧
      ¬ ∀ settings inputs, (visit settings inputs).context.Unshadowed := by
  refine ⟨⟨by decide +kernel, rfl⟩, ⟨by decide +kernel, rfl⟩, fun all => ?_⟩
  exact absurd (all {} [(.closed, "sin = 5")]) (by decide +kernel)

end Session

end Reckoner
